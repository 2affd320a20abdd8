import UnixLessons.FileManager.Panel
import UnixLessons.Text.Path
import UnixLessons.Transition.Run

/-!
# Moving between directories

`changeDirectory` edits the path of a panel as text: it appends a slash and a
name, or cuts at the last slash. What the panel is meant to keep is a stack of
names. The two are connected by `Text.Denotes`, which is kept by both edits, so
the components of the path are the stack at any time in any run.

## Main results

* `changeDirectory_spec`: the panel either stays as it is or is rescanned at the
  new path
* `navigation_refines`: in a run that forms no over-long path, the path denotes
  the stack of the names entered
-/

namespace UnixLessons.FileManager

open Text Transition

/-- The entry of the parent directory. -/
def dotDot : CString := ['.', '.']

/-- The name of the directory `change_directory` is about to enter; `none` when
it returns at once. -/
def enteredName (p : Panel) : Option CString :=
  if p.fileCount ≤ 0 then none
  else
    match p.file? p.selected with
    | some entry => if entry.isDir then some entry.name else none
    | none => none

/-- The path formed for the selected name. -/
def newPath (p : Panel) (name : CString) : CString :=
  if name = dotDot then
    match strrchr p.currentPath '/' with
    | none => dotDot
    | some lastSlash => if lastSlash = 0 then ['/'] else p.currentPath.take lastSlash
  else snprintf maxPath (p.currentPath ++ '/' :: name)

/-- Enter the selected directory; `none` when the selection is read outside
`files`. -/
def changeDirectory (p : Panel) (dir : Directory) : Option Panel :=
  if p.fileCount ≤ 0 then some p
  else do
    let entry ← p.file? p.selected
    if !entry.isDir then some p
    else scanDirectory p (newPath p entry.name) dir

/-- A well-formed panel is either left alone or rescanned at the new path. -/
theorem changeDirectory_spec {p : Panel} {shown : List FileEntry} (h : p.Holds shown)
    (hw : p.Window) (dir : Directory) :
    ∃ q, changeDirectory p dir = some q ∧
      ((enteredName p = none ∧ q = p) ∨
        ∃ entry ∈ shown, enteredName p = some entry.name ∧ q.Holds (listing dir) ∧
          q.selected = 0 ∧ q.top = 0 ∧ q.currentPath = newPath p entry.name) := by
  by_cases hempty : p.fileCount ≤ 0
  · exact ⟨p, by rw [changeDirectory, if_pos hempty],
      Or.inl ⟨by rw [enteredName, if_pos hempty], rfl⟩⟩
  · have hcount := h.count_eq
    have := hw.selected_lt (by omega)
    have := hw.selected_nonneg
    have hlt : p.selected.toNat < shown.length := by omega
    have hread : p.file? p.selected = some shown[p.selected.toNat] := by
      rw [h.file?_eq (by omega) (by omega), List.getElem?_eq_getElem hlt]
    rw [changeDirectory, enteredName, if_neg hempty, if_neg hempty, hread]
    simp only [Option.bind_eq_bind, Option.bind_some]
    cases hdir : shown[p.selected.toNat].isDir with
    | false => exact ⟨p, by simp, Or.inl ⟨by simp, rfl⟩⟩
    | true =>
      obtain ⟨q, hscan, hholds, hsel, htop, hpath⟩ :=
        scanDirectory_spec p (newPath p shown[p.selected.toNat].name) dir
      exact ⟨q, by simpa using hscan,
        Or.inr ⟨_, List.getElem_mem hlt, by simp, hholds, hsel, htop, hpath⟩⟩

/-! ### Runs of one panel -/

/-- What can happen to a panel: the selection moves, or the selected directory
is entered and `opendir` has the given outcome. -/
inductive PanelAction where
  | move (delta : ℤ)
  | enter (dir : Directory)

def panelStep (p : Panel) : PanelAction → Option Panel
  | .move delta => some (moveSelection p delta)
  | .enter dir => changeDirectory p dir

/-- The names entered in a run, in order. -/
def enteredNames : Panel → List PanelAction → List CString
  | _, [] => []
  | p, a :: as =>
    match a, panelStep p a with
    | .enter _, some q => (enteredName p).toList ++ enteredNames q as
    | .move _, some q => enteredNames q as
    | _, none => []

/-- The stack of names after a name is entered: the parent entry pops one. -/
def enterName (names : List CString) (name : CString) : List CString :=
  if name = dotDot then names.dropLast else names ++ [name]

/-- Every name a directory lists can stand between slashes. -/
def NamedDirectory (dir : Directory) : Prop :=
  ∀ entry ∈ dir.getD [], IsName entry.dName

instance : DecidablePred NamedDirectory := fun dir =>
  inferInstanceAs (Decidable (∀ entry ∈ dir.getD [], IsName entry.dName))

theorem NamedDirectory.listing {dir : Directory} (h : NamedDirectory dir) :
    ∀ entry ∈ listing dir, IsName entry.name := by
  intro entry hmem
  cases dir with
  | none => simp [FileManager.listing] at hmem
  | some entries =>
    obtain ⟨source, hsource, hshown⟩ := List.mem_filterMap.mp (List.mem_of_mem_take hmem)
    have hname : source.dName = entry.name := by
      unfold shownEntry at hshown
      split at hshown
      · simp at hshown
      · obtain ⟨isDir, -, rfl⟩ := Option.map_eq_some_iff.mp hshown
        rfl
    exact hname ▸ h source hsource

/-- The step scans a directory of proper names and forms no path that fills its
buffer. -/
def PathsFit (p : Panel) : PanelAction → Prop
  | .move _ => True
  | .enter dir => NamedDirectory dir ∧
      ∀ name ∈ enteredName p, name ≠ dotDot →
        (p.currentPath ++ '/' :: name).length < maxPath

instance (p : Panel) : DecidablePred (PathsFit p)
  | .move _ => isTrue trivial
  | .enter dir => inferInstanceAs (Decidable (NamedDirectory dir ∧ ∀ name ∈ enteredName p,
      name ≠ dotDot → (p.currentPath ++ '/' :: name).length < maxPath))

/-- A panel whose path denotes the stack `names`. -/
structure At (p : Panel) (names : List CString) : Prop where
  denotes : Denotes p.currentPath names
  window : p.Window
  holds : ∃ shown, p.Holds shown ∧ ∀ entry ∈ shown, IsName entry.name

/-- A panel just scanned at a path that denotes `names`. -/
theorem At.of_scan {p : Panel} {names : List CString} {dir : Directory}
    (hdir : NamedDirectory dir) (hholds : p.Holds (listing dir)) (hsel : p.selected = 0)
    (htop : p.top = 0) (hpath : Denotes p.currentPath names) : At p names :=
  ⟨hpath, .of_start (by rw [hholds.count_eq]; omega) hsel htop,
    ⟨listing dir, hholds, hdir.listing⟩⟩

/-- The new path denotes the stack after the name is entered. -/
theorem Denotes.newPath {p : Panel} {names : List CString} {name : CString}
    (h : Denotes p.currentPath names) (hname : IsName name)
    (hfit : name ≠ dotDot → (p.currentPath ++ '/' :: name).length < maxPath) :
    Denotes (newPath p name) (enterName names name) := by
  by_cases hup : name = dotDot
  · obtain ⟨lastSlash, hslash, hden⟩ := h.up
    simp only [FileManager.newPath, enterName, if_pos hup, hslash]
    exact hden
  · simp only [FileManager.newPath, enterName, if_neg hup, snprintf_eq_self (hfit hup)]
    exact h.child hname

/-- One step of a panel is one move of the stack. -/
theorem At.step {p q : Panel} {names : List CString} {a : PanelAction} (h : At p names)
    (hfit : PathsFit p a) (hstep : panelStep p a = some q) :
    At q ((enteredNames p [a]).foldl enterName names) := by
  obtain ⟨shown, hholds, hnames⟩ := h.holds
  cases a with
  | move delta =>
    obtain rfl := Option.some.inj hstep
    exact ⟨by simpa [enteredNames, panelStep] using h.denotes, h.window.moveSelection delta,
      ⟨shown, hholds.moveSelection delta, hnames⟩⟩
  | enter dir =>
    obtain ⟨r, hchange, hcase⟩ := changeDirectory_spec hholds h.window dir
    obtain rfl : r = q := Option.some.inj (hchange.symm.trans hstep)
    rcases hcase with ⟨hnone, rfl⟩ | ⟨entry, hmem, hsome, hq, hsel, htop, hpath⟩
    · simpa [enteredNames, panelStep, hchange, hnone] using h
    · have hden := Denotes.newPath h.denotes (hnames entry hmem) (hfit.2 _ hsome)
      have := At.of_scan hfit.1 hq hsel htop (hpath ▸ hden)
      simpa [enteredNames, panelStep, hchange, hsome] using this

theorem enteredNames_cons {p q : Panel} {a : PanelAction} {as : List PanelAction}
    (hstep : panelStep p a = some q) :
    enteredNames p (a :: as) = enteredNames p [a] ++ enteredNames q as := by
  cases a <;> simp [enteredNames, hstep]

/-- A whole run of a panel is a run of the stack. -/
theorem At.run {p q : Panel} {names : List CString} {as : List PanelAction} (h : At p names)
    (hfit : Along panelStep PathsFit p as) (hrun : run panelStep p as = some q) :
    At q ((enteredNames p as).foldl enterName names) := by
  induction as generalizing p names with
  | nil => exact Option.some.inj hrun ▸ h
  | cons a as ih =>
    obtain ⟨r, hstep, hrest⟩ := run_cons_eq_some.mp hrun
    obtain ⟨hfirst, hafter⟩ := (along_cons_of_step hstep).mp hfit
    rw [enteredNames_cons hstep, List.foldl_append]
    exact ih (h.step hfirst hstep) hafter hrest

/-- Entering a directory and then its parent entry leads back. -/
theorem foldl_enterName_back {names : List CString} {name : CString} (h : name ≠ dotDot) :
    [name, dotDot].foldl enterName names = names := by
  simp [enterName, h]

/-- **The path refines a stack of names.** A panel started at the absolute path
of `names` keeps an absolute path whose components are the stack obtained by
entering, in order, the names the run entered; so a name and then its parent
entry lead back to where they were entered, and the last slash is always
found. -/
theorem navigation_refines {names : List CString} {dir : Directory} {p q : Panel}
    {as : List PanelAction} (hnames : ∀ name ∈ names, IsName name) (hdir : NamedDirectory dir)
    (hstart : scanDirectory Panel.zero (absolute names) dir = some p)
    (hfit : Along panelStep PathsFit p as) (hrun : run panelStep p as = some q) :
    q.currentPath.head? = some '/' ∧
    components q.currentPath = (enteredNames p as).foldl enterName names ∧
    strrchr q.currentPath '/' ≠ none ∧
    ∀ (bs : List PanelAction) (r : Panel) (name : CString),
      Along panelStep PathsFit q bs → run panelStep q bs = some r →
      enteredNames q bs = [name, dotDot] → name ≠ dotDot →
      components r.currentPath = components q.currentPath := by
  obtain ⟨p', hscan, hholds, hsel, htop, hpath⟩ :=
    scanDirectory_spec Panel.zero (absolute names) dir
  obtain rfl : p' = p := Option.some.inj (hscan.symm.trans hstart)
  have hp : At p' names :=
    .of_scan hdir hholds hsel htop (hpath ▸ denotes_absolute hnames)
  have hq := hp.run hfit hrun
  refine ⟨hq.denotes.head?_eq, hq.denotes.components_eq,
    strrchr_ne_none hq.denotes.slash_mem, ?_⟩
  intro bs r name hfit' hrun' hback hne
  have hr := hq.run hfit' hrun'
  rw [hback, foldl_enterName_back hne] at hr
  rw [hr.denotes.components_eq, hq.denotes.components_eq]

/-- From `/`, entering `a` gives `//a`, entering `b` there `//a/b`, and the two
parent entries lead back to `/`. -/
theorem navigation_refines_below_root :
    let dir : Directory := some [⟨dotDot, some true⟩, ⟨['a'], some true⟩]
    let as := [.move 1, .enter dir, .move 1, .enter dir, .enter dir, .enter dir]
    ∃ p q, scanDirectory Panel.zero ['/'] dir = some p ∧ run panelStep p as = some q ∧
      enteredNames p as = [['a'], ['a'], dotDot, dotDot] ∧
      components q.currentPath = [] := by
  intro dir as
  exact ⟨_, _, rfl, rfl, rfl,
    (@navigation_refines [] dir _ _ as (by simp) (by decide) rfl (by decide) rfl).2.1⟩

end UnixLessons.FileManager
