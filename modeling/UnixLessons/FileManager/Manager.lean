import UnixLessons.FileManager.Navigation

/-!
# The key loop of the file manager

Two panels, one of them active. A key moves the selection of the active panel,
enters its selected directory, or changes which panel is active; `q` ends the
loop. Beside each panel the model keeps the outcome of its last `opendir`, which
the program does not store but which says what the panel ought to show.

## Main results

* `Manager.Sound.step`: one key keeps both panels sound and never leaves the
  `files` array
* `panels_sound`: the panel invariant in every state of every run, what it means
  for the drawing, and the independence of the two panels
-/

namespace UnixLessons.FileManager

open Text Transition

/-- A panel with the outcome of the `opendir` it was last filled from. -/
structure View where
  panel : Panel
  dir : Directory

namespace View

/-- Apply an action to the panel, noting the directory when one is scanned. -/
def act (v : View) (a : PanelAction) : Option View :=
  (panelStep v.panel a).map fun q =>
    match a with
    | .move _ => ⟨q, v.dir⟩
    | .enter dir => ⟨q, if (enteredName v.panel).isSome then dir else v.dir⟩

/-- The panel shows the listing of its directory, with selection and window in
agreement. -/
structure Sound (v : View) : Prop where
  holds : v.panel.Holds (listing v.dir)
  window : v.panel.Window

/-- Every action on a sound panel stays inside `files` and leaves it sound. -/
theorem Sound.act {v : View} (h : v.Sound) (a : PanelAction) :
    ∃ w, v.act a = some w ∧ w.Sound := by
  cases a with
  | move delta =>
    exact ⟨_, rfl, h.holds.moveSelection delta, h.window.moveSelection delta⟩
  | enter dir =>
    obtain ⟨q, hchange, hcase⟩ := changeDirectory_spec h.holds h.window dir
    refine ⟨_, by rw [View.act, panelStep, hchange]; rfl, ?_⟩
    rcases hcase with ⟨hnone, rfl⟩ | ⟨entry, -, hsome, hq, hsel, htop, -⟩
    · simpa [hnone] using ⟨h.holds, h.window⟩
    · have hwindow : q.Window := .of_start (by rw [hq.count_eq]; omega) hsel htop
      simpa [hsome] using ⟨hq, hwindow⟩

/-- Fill a zero-initialised panel from a path. -/
def scan (path : CString) (dir : Directory) : Option View :=
  (scanDirectory Panel.zero path dir).map (⟨·, dir⟩)

theorem sound_scan (path : CString) (dir : Directory) :
    ∃ v, scan path dir = some v ∧ v.Sound := by
  obtain ⟨q, hscan, hq, hsel, htop, -⟩ := scanDirectory_spec Panel.zero path dir
  exact ⟨⟨q, dir⟩, by rw [scan, hscan]; rfl, hq,
    .of_start (by rw [hq.count_eq]; omega) hsel htop⟩

end View

/-- The keys the loop tells apart. -/
inductive Key where
  | up
  | down
  | tab
  | backTab
  | newline
  | enter
  | q
  | capitalQ
  | other
deriving DecidableEq

/-- The two panels, which of them is active (`false` for the left), and whether
the loop is still running. -/
structure Manager where
  leftPanel : View
  rightPanel : View
  activePanel : Bool
  running : Bool

namespace Manager

/-- Apply an action to the active panel. -/
def onActive (m : Manager) (a : PanelAction) : Option Manager :=
  if m.activePanel = false then (m.leftPanel.act a).map fun v => { m with leftPanel := v }
  else (m.rightPanel.act a).map fun v => { m with rightPanel := v }

/-- One round of the key loop. The directory is what `opendir` would find at the
path formed, used when a directory is entered. After `q` nothing happens. -/
def step (m : Manager) (key : Key × Directory) : Option Manager :=
  if m.running = false then some m
  else
    match key.1 with
    | .up => m.onActive (.move (-1))
    | .down => m.onActive (.move 1)
    | .tab | .backTab => some { m with activePanel := !m.activePanel }
    | .newline | .enter => m.onActive (.enter key.2)
    | .q | .capitalQ => some { m with running := false }
    | .other => some m

/-- Both panels scanned at the working directory, the left one active. -/
def start (cwd : CString) (left right : Directory) : Option Manager := do
  let l ← View.scan cwd left
  let r ← View.scan cwd right
  some { leftPanel := l, rightPanel := r, activePanel := false, running := true }

/-- Both panels are sound. -/
structure Sound (m : Manager) : Prop where
  left : m.leftPanel.Sound
  right : m.rightPanel.Sound

/-- The panel that is not active keeps its view. -/
def KeepsInactive (m n : Manager) : Prop :=
  (m.activePanel = false → n.rightPanel = m.rightPanel) ∧
  (m.activePanel = true → n.leftPanel = m.leftPanel)

theorem KeepsInactive.refl (m : Manager) : m.KeepsInactive m :=
  ⟨fun _ => rfl, fun _ => rfl⟩

theorem Sound.onActive {m : Manager} (h : m.Sound) (a : PanelAction) :
    ∃ n, m.onActive a = some n ∧ n.Sound ∧ m.KeepsInactive n := by
  unfold Manager.onActive KeepsInactive
  cases hactive : m.activePanel with
  | false =>
    obtain ⟨v, hv, hsound⟩ := h.left.act a
    exact ⟨{ m with leftPanel := v }, by simp [hv, hactive], ⟨hsound, h.right⟩, by simp⟩
  | true =>
    obtain ⟨v, hv, hsound⟩ := h.right.act a
    exact ⟨{ m with rightPanel := v }, by simp [hv, hactive], ⟨h.left, hsound⟩, by simp⟩

/-- One key: nothing is written or read outside `files`, both panels stay sound,
and the panel that is not active is left as it was. -/
theorem Sound.step {m : Manager} (h : m.Sound) (key : Key × Directory) :
    ∃ n, m.step key = some n ∧ n.Sound ∧ m.KeepsInactive n := by
  unfold Manager.step
  by_cases hrun : m.running = false
  · exact ⟨m, if_pos hrun, h, .refl m⟩
  · rw [if_neg hrun]
    cases key.1 with
    | up => exact h.onActive _
    | down => exact h.onActive _
    | newline => exact h.onActive _
    | enter => exact h.onActive _
    | tab | backTab => exact ⟨_, rfl, ⟨h.left, h.right⟩, .refl m⟩
    | q | capitalQ => exact ⟨_, rfl, ⟨h.left, h.right⟩, .refl m⟩
    | other => exact ⟨m, rfl, h, .refl m⟩

theorem sound_start (cwd : CString) (left right : Directory) :
    ∃ m, start cwd left right = some m ∧ m.Sound := by
  obtain ⟨l, hl, hleft⟩ := View.sound_scan cwd left
  obtain ⟨r, hr, hright⟩ := View.sound_scan cwd right
  exact ⟨_, by rw [start, hl, hr]; rfl, ⟨hleft, hright⟩⟩

/-- A run never gets stuck and keeps both panels sound. -/
theorem Sound.run {m : Manager} (h : m.Sound) (keys : List (Key × Directory)) :
    ∃ n, run Manager.step m keys = some n ∧ n.Sound := by
  induction keys generalizing m with
  | nil => exact ⟨m, rfl, h⟩
  | cons key keys ih =>
    obtain ⟨n, hstep, hn, -⟩ := h.step key
    obtain ⟨r, hrun, hr⟩ := ih hn
    exact ⟨r, run_cons_eq_some.mpr ⟨n, hstep, hrun⟩, hr⟩

end Manager

/-- What the program promises about a panel: the bounds of count, selection and
window, the entries of its directory in the filled slots, and a drawing that
reads those slots only, shows the window line by line with the selected entry in
it, and leaves no line blank while entries are scrolled off. -/
structure View.Good (v : View) : Prop where
  count_nonneg : 0 ≤ v.panel.fileCount
  count_le : v.panel.fileCount ≤ maxFile
  filled : ∀ i : ℤ, 0 ≤ i → i < v.panel.fileCount →
    v.panel.file? i = (listing v.dir)[i.toNat]? ∧ v.panel.file? i ≠ none
  selected_empty : v.panel.fileCount = 0 → v.panel.selected = 0
  selected_bounds : v.panel.fileCount ≠ 0 →
    0 ≤ v.panel.selected ∧ v.panel.selected < v.panel.fileCount
  top_bounds : 0 ≤ v.panel.top ∧ v.panel.top ≤ max 0 (v.panel.fileCount - (panelHeight - 2))
  visible : 0 < v.panel.fileCount →
    v.panel.top ≤ v.panel.selected ∧ v.panel.selected < v.panel.top + (panelHeight - 2)
  drawn : ∀ (y : ℤ) (isActive : Bool), ∃ d, drawPanel v.panel y isActive = some d ∧
    d.header = panelHeader v.panel ∧ d.Shows v.panel (listing v.dir) y isActive

theorem View.Sound.good {v : View} (h : v.Sound) : v.Good where
  count_nonneg := h.window.count_nonneg
  count_le := h.holds.count_le
  filled := by
    intro i h₀ hi
    have hcount := h.holds.count_eq
    have hread := h.holds.file?_eq h₀ hi
    have hlt : i.toNat < (listing v.dir).length := by omega
    exact ⟨hread, by rw [hread, List.getElem?_eq_getElem hlt]; simp⟩
  selected_empty := h.window.selected_empty
  selected_bounds := by
    intro hne
    have := h.window.count_nonneg
    exact ⟨h.window.selected_nonneg, h.window.selected_lt (by omega)⟩
  top_bounds := ⟨h.window.top_nonneg, h.window.top_le⟩
  visible := fun hpos => ⟨h.window.top_le_selected hpos, h.window.selected_lt_bottom hpos⟩
  drawn := fun y isActive => drawPanel_spec h.holds h.window y isActive

/-- **The panel invariant.** Whatever the working directory holds, whatever keys
are pressed and whatever the directories entered hold, the program never leaves
the `files` array, both panels are as promised in every state, and a key acts on
one panel at most: on the active one. -/
theorem panels_sound (cwd : CString) (left right : Directory) (keys : List (Key × Directory)) :
    ∃ m₀ m, Manager.start cwd left right = some m₀ ∧ run Manager.step m₀ keys = some m ∧
      m.leftPanel.Good ∧ m.rightPanel.Good ∧
      ∀ key, ∃ n, m.step key = some n ∧
        (m.activePanel = false → n.rightPanel = m.rightPanel) ∧
        (m.activePanel = true → n.leftPanel = m.leftPanel) := by
  obtain ⟨m₀, hstart, h₀⟩ := Manager.sound_start cwd left right
  obtain ⟨m, hrun, hm⟩ := h₀.run keys
  refine ⟨m₀, m, hstart, hrun, hm.left.good, hm.right.good, fun key => ?_⟩
  obtain ⟨n, hstep, -, hkeep⟩ := hm.step key
  exact ⟨n, hstep, hkeep⟩

end UnixLessons.FileManager
