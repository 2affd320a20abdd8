import UnixLessons.FileManager.Navigation

/-!
# The way up

A directory is left through the entry of its parent, so the panel must list it. There
are two ways to lose it. A listing is cut when the array is full, and the parent may
be behind the cut, since `readdir` returns the entries in any order. And when a directory
cannot be opened the panel is emptied before the error is noticed; an empty panel lets
nobody move or enter anything.

## Main results

* `not_unchanged_of_failed`: a directory that cannot be opened never leaves the panel as
  it was, and no key has any effect on the panel afterwards
* `listsParent_iff`: the parent is listed, and can be entered, exactly if the array is not
  full before it is read
-/

namespace UnixLessons.FileManager

open Text Transition

variable {p q r : Panel} {shown : List FileEntry} {name path : CString}
  {entries : List DirEntry}

/-- A panel as `main` fills it. -/
def Started (p : Panel) : Prop := ∃ cwd dir, scanDirectory Panel.zero cwd dir = some p

/-- The entries of some listing are in the panel, with selection and window in agreement. -/
def Panel.WellFormed (p : Panel) : Prop := (∃ shown, p.Holds shown) ∧ p.Window

theorem wellFormed_of_scan {dir : Directory} (h : scanDirectory p path dir = some q) :
    q.WellFormed := by
  obtain ⟨q', hscan, hholds, hsel, htop, -⟩ := scanDirectory_spec p path dir
  obtain rfl : q' = q := Option.some.inj (hscan.symm.trans h)
  exact ⟨⟨_, hholds⟩, .of_start (by rw [hholds.count_eq]; omega) hsel htop⟩

theorem wellFormed_preserved : Preserved panelStep Panel.WellFormed := by
  rintro p a q ⟨⟨shown, hholds⟩, hwindow⟩ hstep
  cases a with
  | move delta =>
    cases hstep
    exact ⟨⟨shown, hholds.moveSelection delta⟩, hwindow.moveSelection delta⟩
  | enter dir =>
    obtain ⟨q', hchange, hcase⟩ := changeDirectory_spec hholds hwindow dir
    obtain rfl : q' = q := Option.some.inj (hchange.symm.trans hstep)
    rcases hcase with ⟨-, rfl⟩ | ⟨entry, -, -, hq, hsel, htop, -⟩
    · exact ⟨⟨shown, hholds⟩, hwindow⟩
    · exact ⟨⟨_, hq⟩, .of_start (by rw [hq.count_eq]; omega) hsel htop⟩

theorem wellFormed_of_reachable (h : Reachable panelStep Started p) : p.WellFormed := by
  refine wellFormed_preserved.reachable ?_ h
  rintro p ⟨cwd, dir, hscan⟩
  exact wellFormed_of_scan hscan

/-! ### A directory that cannot be opened -/

/-- Everything in the panel is as it was. -/
structure Unchanged (p q : Panel) : Prop where
  files : q.files = p.files
  fileCount : q.fileCount = p.fileCount
  selected : q.selected = p.selected
  top : q.top = p.top
  currentPath : q.currentPath = p.currentPath

theorem fileCount_pos_of_enteredName (h : enteredName p = some name) : 0 < p.fileCount := by
  unfold enteredName at h
  split at h
  · cases h
  · omega

/-- A panel without entries ignores all keys. -/
theorem panelStep_empty (h : p.fileCount = 0) (a : PanelAction) : panelStep p a = some p := by
  cases a with
  | move delta => rw [panelStep, moveSelection, if_pos h]
  | enter dir => rw [panelStep, changeDirectory, if_pos h.le]

theorem run_empty (h : p.fileCount = 0) (as : List PanelAction) : run panelStep p as = some p := by
  induction as with
  | nil => rfl
  | cons a as ih => exact run_cons_eq_some.mpr ⟨p, panelStep_empty h a, ih⟩

/-- When a directory is entered that cannot be opened, there are no entries in the panel
any more, though there were some before. -/
theorem fileCount_of_failed (hp : p.WellFormed) (hname : enteredName p = some name) :
    ∃ q, changeDirectory p none = some q ∧ q.fileCount = 0 ∧ q.currentPath = newPath p name := by
  obtain ⟨⟨shown, hholds⟩, hwindow⟩ := hp
  obtain ⟨q, hchange, hcase⟩ := changeDirectory_spec hholds hwindow none
  refine ⟨q, hchange, ?_⟩
  rcases hcase with ⟨hnone, -⟩ | ⟨entry, -, hsome, hq, -, -, hpath⟩
  · rw [hname] at hnone
    cases hnone
  · obtain rfl : name = entry.name := Option.some.inj (hname.symm.trans hsome)
    exact ⟨hq.count_eq, hpath⟩

/-- **A failed opening is never undone.** Whatever the panel and the directory selected in
it, the panel is not as it was when the directory cannot be opened, and it stays as it is
then for good. -/
theorem not_unchanged_of_failed (hp : Reachable panelStep Started p)
    (hname : enteredName p = some name) :
    ∃ q, changeDirectory p none = some q ∧ ¬ Unchanged p q ∧
      ∀ as, run panelStep q as = some q := by
  obtain ⟨q, hchange, hempty, -⟩ := fileCount_of_failed (wellFormed_of_reachable hp) hname
  refine ⟨q, hchange, ?_, run_empty hempty⟩
  intro hsame
  have hpos := fileCount_pos_of_enteredName hname
  have hcount := hsame.fileCount
  omega

/-- A working directory with a directory `a` in it. -/
def homeWithA : Directory := some [⟨dotDot, some true⟩, ⟨['a'], some true⟩]

theorem not_unchanged_of_failed_home :
    ∃ p q, Reachable panelStep Started p ∧ enteredName p = some ['a'] ∧
      changeDirectory p none = some q ∧ ¬ Unchanged p q := by
  obtain ⟨p, hscan, -⟩ := scanDirectory_spec Panel.zero "/home".toList homeWithA
  have hstart : Reachable panelStep Started p := ⟨p, [], ⟨_, _, hscan⟩, rfl⟩
  have hp : Reachable panelStep Started (moveSelection p 1) := hstart.next (a := .move 1) rfl
  have hname : enteredName (moveSelection p 1) = some ['a'] := by
    cases hscan
    decide
  obtain ⟨q, hchange, hnot, -⟩ := not_unchanged_of_failed hp hname
  exact ⟨_, q, hp, hname, hchange, hnot⟩

/-- In `/home` the directory `a` is entered that cannot be opened: the panel has the path
`/home/a` and no entries. -/
theorem not_unchanged_forbidden :
    ∃ p q, run panelStep p [.move 1] = some q ∧
      scanDirectory Panel.zero "/home".toList homeWithA = some p ∧
      ∃ r, panelStep q (.enter none) = some r ∧ q.fileCount = 2 ∧ r.fileCount = 0 ∧
        r.currentPath = "/home/a".toList ∧ ¬ Unchanged q r := by
  refine ⟨_, _, rfl, rfl, _, rfl, rfl, rfl, rfl, ?_⟩
  intro hsame
  exact absurd hsame.fileCount (by decide)

/-! ### The entry of the parent directory -/

/-- The entry of the parent, marked as a directory. -/
def parentEntry : FileEntry := ⟨dotDot, true⟩

/-- The panel contains the entry of the parent. -/
def Panel.ListsParent (p : Panel) : Prop :=
  ∃ i : ℤ, 0 ≤ i ∧ i < p.fileCount ∧ p.file? i = some parentEntry

/-- The selection can be moved to the entry of the parent. -/
def Panel.CanLeave (p : Panel) : Prop :=
  ∃ delta, enteredName (moveSelection p delta) = some dotDot

/-- What `readdir` returns before it returns the parent. -/
def beforeParent (entries : List DirEntry) : List DirEntry :=
  entries.takeWhile (·.dName ≠ dotDot)

theorem Panel.Holds.listsParent_iff_mem (h : p.Holds shown) :
    p.ListsParent ↔ parentEntry ∈ shown := by
  have hcount := h.count_eq
  constructor
  · rintro ⟨i, h₀, hi, hread⟩
    rw [h.file?_eq h₀ hi] at hread
    exact List.mem_of_getElem? hread
  · intro hmem
    obtain ⟨i, hi, hget⟩ := List.getElem_of_mem hmem
    refine ⟨i, by omega, by omega, ?_⟩
    rw [h.file?_eq (by omega) (by omega), Int.toNat_natCast, List.getElem?_eq_getElem hi, hget]

/-- The selection reaches every entry. -/
theorem selected_moveSelection {i : ℤ} (h₀ : 0 ≤ i) (hi : i < p.fileCount) :
    (moveSelection p (i - p.selected)).selected = i := by
  rw [moveSelection, if_neg (by omega)]
  simp only [add_sub_cancel]
  rw [if_neg (by omega), if_neg (by omega)]

theorem Panel.ListsParent.canLeave (h : p.ListsParent) : p.CanLeave := by
  obtain ⟨i, h₀, hi, hread⟩ := h
  refine ⟨i - p.selected, ?_⟩
  have hfile : (moveSelection p (i - p.selected)).file? i = some parentEntry := by
    simpa [Panel.file?] using hread
  rw [enteredName, moveSelection_fileCount, if_neg (by omega), selected_moveSelection h₀ hi, hfile]
  rfl

theorem Panel.WellFormed.listsParent (hp : p.WellFormed) (h : enteredName p = some dotDot) :
    p.ListsParent := by
  obtain ⟨-, hwindow⟩ := hp
  have hpos := fileCount_pos_of_enteredName h
  refine ⟨p.selected, hwindow.selected_nonneg, hwindow.selected_lt hpos, ?_⟩
  rw [enteredName, if_neg (by omega)] at h
  split at h
  · rename_i entry hread
    split at h
    · rename_i hdir
      rw [hread]
      exact congrArg some (by rw [parentEntry, ← Option.some.inj h, ← hdir])
    · cases h
  · cases h

/-- There is no other way to leave a directory than by the entry of its parent. -/
theorem Panel.WellFormed.canLeave_iff (hp : p.WellFormed) : p.CanLeave ↔ p.ListsParent := by
  constructor
  · rintro ⟨delta, hname⟩
    have hmoved : (moveSelection p delta).WellFormed :=
      wellFormed_preserved (a := .move delta) hp rfl
    simpa [Panel.ListsParent, Panel.file?] using hmoved.listsParent hname
  · exact Panel.ListsParent.canLeave

/-- The parent is in the listing unless the array is full before. -/
theorem parentEntry_mem_listing (hup : ∃ entry ∈ entries, entry.dName = dotDot)
    (hstat : ∀ entry ∈ entries, entry.dName = dotDot → entry.stat = some true) :
    parentEntry ∈ listing (some entries) ↔
      ((beforeParent entries).filterMap shownEntry).length < maxFile := by
  obtain ⟨entry, rest, hdrop⟩ : ∃ entry rest,
      entries.dropWhile (·.dName ≠ dotDot) = entry :: rest := by
    apply List.exists_cons_of_ne_nil
    intro hnil
    obtain ⟨entry, hmem, hname⟩ := hup
    have := List.dropWhile_eq_nil_iff.mp hnil entry hmem
    simp [hname] at this
  have hsplit : entries = beforeParent entries ++ entry :: rest := by
    rw [← hdrop, beforeParent, List.takeWhile_append_dropWhile]
  have hname : entry.dName = dotDot := by
    have := List.head?_dropWhile_not (fun e : DirEntry => e.dName ≠ dotDot) entries
    rw [hdrop] at this
    simpa using this
  have hshown : shownEntry entry = some parentEntry := by
    have hmem : entry ∈ entries := hsplit ▸ List.mem_append_right _ List.mem_cons_self
    have hdot : dotDot ≠ ['.'] := by decide
    rw [shownEntry, hname, if_neg hdot, hstat entry hmem hname, Option.map_some, parentEntry]
  -- What comes before the parent has other names.
  have hother : parentEntry ∉ (beforeParent entries).filterMap shownEntry := by
    intro hmem
    obtain ⟨e, he, hshow⟩ := List.mem_filterMap.mp hmem
    have hne : e.dName ≠ dotDot := by simpa using List.mem_takeWhile_imp he
    unfold shownEntry at hshow
    split at hshow
    · cases hshow
    · obtain ⟨isDir, -, heq⟩ := Option.map_eq_some_iff.mp hshow
      exact hne (congrArg FileEntry.name heq)
  have hlist : listing (some entries) = ((beforeParent entries).filterMap shownEntry ++
      parentEntry :: rest.filterMap shownEntry).take maxFile := by
    conv_lhs => rw [hsplit]
    rw [listing, List.filterMap_append, List.filterMap_cons_some hshown]
  rw [hlist, List.take_append, List.mem_append]
  constructor
  · rintro (hmem | hmem)
    · exact absurd (List.mem_of_mem_take hmem) hother
    · by_contra hfull
      rw [Nat.sub_eq_zero_of_le (not_lt.mp hfull)] at hmem
      cases hmem
  · intro hroom
    right
    obtain ⟨k, hk⟩ : ∃ k, maxFile - ((beforeParent entries).filterMap shownEntry).length = k + 1 :=
      ⟨_, (Nat.succ_pred_eq_of_pos (Nat.sub_pos_of_lt hroom)).symm⟩
    rw [hk, List.take_succ_cons]
    exact List.mem_cons_self

/-- **The way up.** After a directory was scanned, the panel contains the entry of its
parent exactly if the array has room when the parent is read, and exactly then the
directory can be left again. -/
theorem listsParent_iff (p : Panel) (path : CString) (entries : List DirEntry)
    (hup : ∃ entry ∈ entries, entry.dName = dotDot)
    (hstat : ∀ entry ∈ entries, entry.dName = dotDot → entry.stat = some true) :
    ∃ q, scanDirectory p path (some entries) = some q ∧
      (q.ListsParent ↔ ((beforeParent entries).filterMap shownEntry).length < maxFile) ∧
      (q.CanLeave ↔ ((beforeParent entries).filterMap shownEntry).length < maxFile) := by
  obtain ⟨q, hscan, hholds, -⟩ := scanDirectory_spec p path (some entries)
  have hlists := hholds.listsParent_iff_mem.trans (parentEntry_mem_listing hup hstat)
  exact ⟨q, hscan, hlists, (wellFormed_of_scan hscan).canLeave_iff.trans hlists⟩

/-- A parent that comes last of three. -/
theorem listsParent_iff_last :
    ∃ q, scanDirectory Panel.zero ['/'] (some [⟨['.'], some true⟩, ⟨['a'], none⟩,
      ⟨dotDot, some true⟩]) = some q ∧ q.ListsParent ∧ q.CanLeave := by
  obtain ⟨q, hscan, hlists, hleave⟩ := listsParent_iff Panel.zero ['/']
    [⟨['.'], some true⟩, ⟨['a'], none⟩, ⟨dotDot, some true⟩] (by simp) (by decide)
  exact ⟨q, hscan, hlists.mpr (by decide), hleave.mpr (by decide)⟩

/-- A hundred files, and the parent behind them. -/
def crowded : List DirEntry :=
  (List.range maxFile).map (fun i => ⟨List.replicate (i + 3) 'a', some false⟩) ++
    [⟨dotDot, some true⟩]

/-- The names differ in length. -/
theorem nodup_crowded : (crowded.map DirEntry.dName).Nodup := by
  have hlengths : (crowded.map DirEntry.dName).map List.length =
      (List.range maxFile).map (· + 3) ++ [2] := by
    simp [crowded, dotDot, Function.comp_def]
  apply List.Nodup.of_map List.length
  rw [hlengths, List.nodup_append]
  refine ⟨List.nodup_range.map fun i j h => Nat.add_right_cancel h, List.nodup_singleton 2, ?_⟩
  intro k hk l hl
  obtain ⟨i, -, rfl⟩ := List.mem_map.mp hk
  rw [List.mem_singleton.mp hl]
  omega

/-- The directory was opened and every `stat` succeeded, but there is no way up. -/
theorem not_listsParent_crowded :
    (crowded.map DirEntry.dName).Nodup ∧ (∀ entry ∈ crowded, entry.stat.isSome) ∧
      ∃ q, scanDirectory Panel.zero ['/', 'c'] (some crowded) = some q ∧
        ¬ q.ListsParent ∧ ¬ q.CanLeave := by
  refine ⟨nodup_crowded, by decide, ?_⟩
  obtain ⟨q, hscan, hholds, -⟩ := scanDirectory_spec Panel.zero ['/', 'c'] (some crowded)
  have hnot : ¬ q.ListsParent := by
    rw [hholds.listsParent_iff_mem, parentEntry_mem_listing (by decide) (by decide)]
    decide
  exact ⟨q, hscan, hnot, fun h => hnot ((wellFormed_of_scan hscan).canLeave_iff.mp h)⟩

end UnixLessons.FileManager
