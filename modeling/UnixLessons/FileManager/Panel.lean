import Mathlib.Algebra.Order.Ring.Int
import Mathlib.Data.List.GetD
import Mathlib.Tactic.SplitIfs
import UnixLessons.Text.CString

/-!
# One panel of the file manager

A panel holds the entries of the directory it was last pointed at, the index of
the selected entry and the index of the first entry on the screen. Scanning
fills the panel, moving clamps the selection and drags the window behind it,
drawing shows the window.

The two clamps use different constants (the window height and the height less
one). `Panel.Window` is the relation between selection, window and count that
both keep, and `drawPanel_spec` is what it means on the screen.

## Main results

* `scanDirectory_spec`: a scan never writes outside the array and leaves the
  listing of the directory in the panel
* `Panel.Window.moveSelection`: moving keeps the window
* `drawPanel_spec`: what is drawn from a well-formed panel
-/

namespace UnixLessons.FileManager

open Text

/-- Capacity of a panel. -/
def maxFile : ℕ := 100

/-- Width of a panel in characters. -/
def panelWidth : ℕ := 50

/-- Height of a panel in characters, the frame included. -/
def panelHeight : ℤ := 20

private theorem panelHeight_eq : panelHeight = 20 := rfl

/-- Size of a path buffer. -/
def maxPath : ℕ := 1024

/-- A directory entry as a panel keeps it. -/
structure FileEntry where
  name : CString
  isDir : Bool
deriving DecidableEq, Inhabited

structure Panel where
  files : Vector FileEntry maxFile
  fileCount : ℤ
  selected : ℤ
  top : ℤ
  currentPath : CString

namespace Panel

/-- A panel as a zero-initialised global. -/
def zero : Panel where
  files := Vector.replicate maxFile default
  fileCount := 0
  selected := 0
  top := 0
  currentPath := []

/-- Read of `files[i]`; `none` outside the array. -/
def file? (p : Panel) (i : ℤ) : Option FileEntry :=
  if 0 ≤ i then p.files[i.toNat]? else none

/-- Write of `files[i]`; `none` outside the array. -/
def store (p : Panel) (i : ℤ) (entry : FileEntry) : Option Panel :=
  if 0 ≤ i ∧ i < maxFile then
    some { p with files := p.files.setIfInBounds i.toNat entry }
  else none

end Panel

/-! ### Scanning -/

/-- What `readdir` returns for an entry and `stat` says about it: `none` when
`stat` fails, else whether it is a directory. -/
structure DirEntry where
  dName : CString
  stat : Option Bool
deriving DecidableEq

/-- Outcome of `opendir` on the path to scan, with all `readdir` would return. -/
abbrev Directory := Option (List DirEntry)

/-- The loop of `scan_directory` over the entries still to be read. -/
def readEntries : List DirEntry → Panel → Option Panel
  | [], p => some p
  | entry :: rest, p =>
    if entry.dName = ['.'] then readEntries rest p
    else do
      let p ← match entry.stat with
        | some isDir => do
          let p ← p.store p.fileCount ⟨entry.dName, isDir⟩
          some { p with fileCount := p.fileCount + 1 }
        | none => some p
      if p.fileCount ≥ maxFile then some p else readEntries rest p

/-- Fill a panel from a path. Nothing is restored when the directory cannot be
opened. -/
def scanDirectory (p : Panel) (path : CString) (dir : Directory) : Option Panel :=
  let p := { p with fileCount := 0, selected := 0, top := 0, currentPath := path }
  match dir with
  | none => some p
  | some entries => readEntries entries p

/-- The entry a panel keeps for a directory entry, if it keeps one. -/
def shownEntry (entry : DirEntry) : Option FileEntry :=
  if entry.dName = ['.'] then none else entry.stat.map (⟨entry.dName, ·⟩)

/-- The entries a directory leaves in a panel. -/
def listing : Directory → List FileEntry
  | none => []
  | some entries => (entries.filterMap shownEntry).take maxFile

/-- The panel holds exactly the entries `shown`, each written by the last scan. -/
structure Panel.Holds (p : Panel) (shown : List FileEntry) : Prop where
  count_eq : p.fileCount = shown.length
  count_le : p.fileCount ≤ maxFile
  filled : ∀ i < shown.length, p.files[i]? = shown[i]?

theorem Panel.Holds.length_le {p : Panel} {shown : List FileEntry} (h : p.Holds shown) :
    shown.length ≤ maxFile := by
  have := h.count_eq
  have := h.count_le
  omega

theorem Panel.Holds.file?_eq {p : Panel} {shown : List FileEntry} (h : p.Holds shown)
    {i : ℤ} (h₀ : 0 ≤ i) (hi : i < p.fileCount) : p.file? i = shown[i.toNat]? := by
  have := h.count_eq
  rw [Panel.file?, if_pos h₀, h.filled _ (by omega)]

/-- Storing behind the last entry keeps those before it. -/
theorem Panel.Holds.store {p : Panel} {shown : List FileEntry} (h : p.Holds shown)
    (hroom : p.fileCount < maxFile) (entry : FileEntry) :
    ∃ q, p.store p.fileCount entry = some q ∧
      Panel.Holds { q with fileCount := q.fileCount + 1 } (shown ++ [entry]) ∧
      q.selected = p.selected ∧ q.top = p.top ∧ q.currentPath = p.currentPath := by
  have hcount := h.count_eq
  refine ⟨_, if_pos ⟨by omega, hroom⟩, ⟨?_, ?_, ?_⟩, rfl, rfl, rfl⟩
  · simp [hcount]
  · simp only; omega
  · intro i hi
    rw [List.length_append, List.length_singleton] at hi
    rcases Nat.lt_succ_iff_lt_or_eq.mp hi with hlt | rfl
    · rw [List.getElem?_append_left hlt, ← h.filled i hlt,
        Vector.getElem?_setIfInBounds_ne (by omega)]
    · rw [Vector.getElem?_setIfInBounds, if_pos (by omega), if_pos (by omega)]
      simp

/-- The read loop stays inside the array and stops with a full panel or at the
end of the directory. -/
theorem readEntries_spec (entries : List DirEntry) {p : Panel} {shown : List FileEntry}
    (h : p.Holds shown) (hroom : p.fileCount < maxFile) :
    ∃ q, readEntries entries p = some q ∧
      q.Holds ((shown ++ entries.filterMap shownEntry).take maxFile) ∧
      q.selected = p.selected ∧ q.top = p.top ∧ q.currentPath = p.currentPath := by
  induction entries generalizing p shown with
  | nil =>
    refine ⟨p, rfl, ?_, rfl, rfl, rfl⟩
    rw [List.filterMap_nil, List.append_nil, List.take_of_length_le h.length_le]
    exact h
  | cons entry rest ih =>
    by_cases hdot : entry.dName = ['.']
    · have hnone : shownEntry entry = none := by simp [shownEntry, hdot]
      rw [readEntries, if_pos hdot, List.filterMap_cons_none hnone]
      exact ih h hroom
    · rw [readEntries, if_neg hdot]
      cases hstat : entry.stat with
      | none =>
        have hnone : shownEntry entry = none := by simp [shownEntry, hstat]
        rw [List.filterMap_cons_none hnone]
        simp only [Option.bind_eq_bind, Option.bind_some]
        rw [if_neg (by omega)]
        exact ih h hroom
      | some isDir =>
        have hsome : shownEntry entry = some ⟨entry.dName, isDir⟩ := by
          simp [shownEntry, hdot, hstat]
        obtain ⟨q, hstore, hq, hsel, htop, hpath⟩ := h.store hroom ⟨entry.dName, isDir⟩
        rw [List.filterMap_cons_some hsome, List.append_cons]
        simp only [Option.bind_eq_bind, hstore, Option.bind_some]
        split
        -- The array is full and the scan stops: what is left of the directory is cut off by
        -- `take`.
        · rename_i hfull
          refine ⟨_, rfl, ?_, hsel, htop, hpath⟩
          have hall : (shown ++ [FileEntry.mk entry.dName isDir]).length = maxFile := by
            have hcount : q.fileCount + 1 = _ := hq.count_eq
            have hle := hq.length_le
            omega
          rw [List.take_append_of_le_length hall.ge, ← hall, List.take_length]
          exact hq
        · rename_i hmore
          obtain ⟨r, hread, hr, hrest⟩ := ih hq (not_le.mp hmore)
          exact ⟨r, hread, hr, hrest.1.trans hsel, hrest.2.1.trans htop,
            hrest.2.2.trans hpath⟩

/-- A scan writes inside the array only, whatever the directory holds, and
leaves its listing in the panel with the first entry selected. -/
theorem scanDirectory_spec (p : Panel) (path : CString) (dir : Directory) :
    ∃ q, scanDirectory p path dir = some q ∧ q.Holds (listing dir) ∧
      q.selected = 0 ∧ q.top = 0 ∧ q.currentPath = path := by
  have hempty : Panel.Holds
      { p with fileCount := 0, selected := 0, top := 0, currentPath := path } [] :=
    ⟨rfl, by simp, by simp⟩
  cases dir with
  | none => exact ⟨_, rfl, hempty, rfl, rfl, rfl⟩
  | some entries =>
    obtain ⟨q, hread, hq, hsel, htop, hpath⟩ :=
      readEntries_spec entries hempty (by simp [maxFile])
    exact ⟨q, hread, by simpa [listing] using hq, hsel, htop, hpath⟩

/-! ### Moving the selection -/

/-- Move the selection by `delta`, clamp it to the entries and drag the window
behind it. -/
def moveSelection (p : Panel) (delta : ℤ) : Panel :=
  if p.fileCount = 0 then p
  else
    let selected := p.selected + delta
    let selected := if selected < 0 then 0 else selected
    let selected := if selected ≥ p.fileCount then p.fileCount - 1 else selected
    let top := if selected < p.top then selected else p.top
    let top := if selected ≥ top + panelHeight - 2 then selected - (panelHeight - 3) else top
    { p with selected := selected, top := top }

@[simp] theorem moveSelection_files (p : Panel) (delta : ℤ) :
    (moveSelection p delta).files = p.files := by
  unfold moveSelection; split <;> rfl

@[simp] theorem moveSelection_fileCount (p : Panel) (delta : ℤ) :
    (moveSelection p delta).fileCount = p.fileCount := by
  unfold moveSelection; split <;> rfl

@[simp] theorem moveSelection_currentPath (p : Panel) (delta : ℤ) :
    (moveSelection p delta).currentPath = p.currentPath := by
  unfold moveSelection; split <;> rfl

theorem Panel.Holds.moveSelection {p : Panel} {shown : List FileEntry} (h : p.Holds shown)
    (delta : ℤ) : (moveSelection p delta).Holds shown :=
  ⟨by simpa using h.count_eq, by simpa using h.count_le, by simpa using h.filled⟩

/-- Selection and window agree: the selected entry exists and is on the screen,
and the window does not reach past the end while entries are scrolled off. -/
structure Panel.Window (p : Panel) : Prop where
  count_nonneg : 0 ≤ p.fileCount
  selected_nonneg : 0 ≤ p.selected
  selected_lt : 0 < p.fileCount → p.selected < p.fileCount
  selected_empty : p.fileCount = 0 → p.selected = 0
  top_nonneg : 0 ≤ p.top
  top_le : p.top ≤ max 0 (p.fileCount - (panelHeight - 2))
  top_le_selected : 0 < p.fileCount → p.top ≤ p.selected
  selected_lt_bottom : 0 < p.fileCount → p.selected < p.top + (panelHeight - 2)

/-- A freshly scanned panel starts at the top. -/
theorem Panel.Window.of_start {p : Panel} (hcount : 0 ≤ p.fileCount) (hsel : p.selected = 0)
    (htop : p.top = 0) : p.Window := by
  have := panelHeight_eq
  refine ⟨hcount, hsel.ge, ?_, fun _ => hsel, htop.ge, ?_, ?_, ?_⟩ <;> omega

/-- Moving by any amount keeps selection and window in agreement. -/
theorem Panel.Window.moveSelection {p : Panel} (h : p.Window) (delta : ℤ) :
    (moveSelection p delta).Window := by
  obtain ⟨hcount, hsel, hlt, hempty, htop, hle, hge, hbottom⟩ := h
  by_cases hzero : p.fileCount = 0
  · rw [FileManager.moveSelection, if_pos hzero]
    exact ⟨hcount, hsel, hlt, hempty, htop, hle, hge, hbottom⟩
  · have hpos : 0 < p.fileCount := by omega
    have := hlt hpos
    have := hge hpos
    have := hbottom hpos
    have := panelHeight_eq
    rw [FileManager.moveSelection, if_neg hzero]
    refine ⟨hcount, ?_, ?_, ?_, ?_, ?_, ?_, ?_⟩ <;> dsimp only <;> split_ifs <;> omega

/-! ### Drawing -/

/-- A drawn line: where it stands, the entry it shows, and whether it is
inverted. -/
structure Row where
  line : ℤ
  fileIndex : ℤ
  marker : Char
  shortName : CString
  reversed : Bool
deriving DecidableEq

/-- What `draw_panel` puts on the screen besides the frame. -/
structure Drawing where
  header : CString
  rows : List Row
deriving DecidableEq

/-- The path over the panel, cut on the left when it is too wide. -/
def panelHeader (p : Panel) : CString :=
  snprintf maxPath <|
    if p.currentPath.length > panelWidth - 4 then
      " ...".toList ++ p.currentPath.drop (p.currentPath.length - (panelWidth - 7))
    else ' ' :: p.currentPath ++ [' ']

/-- The line that shows `files[i + top]`. -/
def drawRow (p : Panel) (y : ℤ) (isActive : Bool) (i : ℕ) : Option Row :=
  (p.file? (i + p.top)).map fun entry =>
    { line := y + i + 1
      fileIndex := i + p.top
      marker := if entry.isDir then '/' else ' '
      shortName := (entry.name.take 28).rightpad 28 ' '
      reversed := decide (i + p.top = p.selected) && isActive }

/-- The drawing loop from line `i` on, with `n` lines left in the panel. -/
def drawRows (p : Panel) (y : ℤ) (isActive : Bool) : ℕ → ℕ → Option (List Row)
  | _, 0 => some []
  | i, n + 1 =>
    if i + p.top ≥ p.fileCount then some []
    else do
      let row ← drawRow p y isActive i
      let rows ← drawRows p y isActive (i + 1) n
      some (row :: rows)

/-- Draw a panel at line `y`; `none` when a line would read outside `files`. -/
def drawPanel (p : Panel) (y : ℤ) (isActive : Bool) : Option Drawing :=
  (drawRows p y isActive 0 (panelHeight - 2).toNat).map (⟨panelHeader p, ·⟩)

/-- The row stands on `line` and shows `entry`: its directory marker, and the
first 28 characters of its name, filled up with blanks. -/
structure Row.Shows (row : Row) (line : ℤ) (entry : FileEntry) : Prop where
  line_eq : row.line = line
  marker_eq : row.marker = if entry.isDir then '/' else ' '
  name_length : row.shortName.length = 28
  name_eq : ∀ j < 28, row.shortName[j]? = some (entry.name.getD j ' ')

/-- The row drawn for a filled slot shows what is in it. -/
theorem drawRow_spec {p : Panel} {i : ℕ} {entry : FileEntry}
    (hread : p.file? (i + p.top) = some entry) (y : ℤ) (isActive : Bool) :
    ∃ row, drawRow p y isActive i = some row ∧ row.Shows (y + 1 + i) entry ∧
      row.fileIndex = p.top + i ∧
      (row.reversed = true ↔ p.top + i = p.selected ∧ isActive = true) := by
  refine ⟨_, by rw [drawRow, hread]; rfl, ⟨?_, rfl, ?_, ?_⟩, ?_, ?_⟩
  · dsimp only; omega
  · simp only [List.rightpad, List.length_append, List.length_replicate, List.length_take]
    omega
  · intro j hj
    dsimp only [List.rightpad]
    by_cases hname : j < entry.name.length
    · rw [List.getElem?_append_left (by rw [List.length_take]; omega), List.getElem?_take,
        if_pos hj, List.getElem?_eq_getElem hname, List.getD_eq_getElem _ _ hname]
    -- Behind the end of a short name stands a blank of the padding.
    · have hpad : (entry.name.take 28).length ≤ j := by rw [List.length_take]; omega
      rw [List.getElem?_append_right hpad, List.getElem?_replicate,
        if_pos (by rw [List.length_take] at hpad ⊢; omega),
        List.getD_eq_default _ _ (not_lt.mp hname)]
  · exact add_comm _ _
  · simp [add_comm]

/-- What the drawing of a panel at line `y` is to look like: under each other,
from the line under the frame on, the entries in the window, none of them
missing; the selected one is among them and is the only one inverted, when the
panel is active. -/
structure Drawing.Shows (d : Drawing) (p : Panel) (shown : List FileEntry) (y : ℤ)
    (isActive : Bool) : Prop where
  length_eq : (d.rows.length : ℤ) = min (panelHeight - 2) (p.fileCount - p.top)
  row : ∀ (i : ℕ) (hi : i < d.rows.length), ∃ entry, shown[(p.top + i).toNat]? = some entry ∧
    d.rows[i].Shows (y + 1 + i) entry ∧ d.rows[i].fileIndex = p.top + i ∧
    (d.rows[i].reversed = true ↔ p.top + i = p.selected ∧ isActive = true)
  filled : ∀ row ∈ d.rows, 0 ≤ row.fileIndex ∧ row.fileIndex < p.fileCount
  inside : ∀ row ∈ d.rows, y < row.line ∧ row.line < y + panelHeight - 1
  selected : 0 < p.fileCount → ∃ row ∈ d.rows, ∃ entry, shown[p.selected.toNat]? = some entry ∧
    row.Shows (y + 1 + (p.selected - p.top)) entry ∧ row.fileIndex = p.selected ∧
    row.reversed = isActive
  full : 0 < p.top → (d.rows.length : ℤ) = panelHeight - 2

/-- The drawing loop from line `i` on shows consecutive entries of the last
scan, as many as there are or fit. -/
private theorem drawRows_spec {p : Panel} {shown : List FileEntry} (h : p.Holds shown)
    (htop : 0 ≤ p.top) (y : ℤ) (isActive : Bool) (i n : ℕ) :
    ∃ rows, drawRows p y isActive i n = some rows ∧
      rows.length = min n (p.fileCount - p.top - i).toNat ∧
      ∀ j (hj : j < rows.length), ∃ entry, shown[(p.top + (i + j : ℕ)).toNat]? = some entry ∧
        rows[j].Shows (y + 1 + (i + j : ℕ)) entry ∧ rows[j].fileIndex = p.top + (i + j : ℕ) ∧
        (rows[j].reversed = true ↔ p.top + (i + j : ℕ) = p.selected ∧ isActive = true) := by
  induction n generalizing i with
  | zero => exact ⟨[], rfl, by simp, by simp⟩
  | succ n ih =>
    rw [drawRows]
    split
    · exact ⟨[], rfl, by simp; omega, by simp⟩
    · rename_i hmore
      have hcount := h.count_eq
      have hlt : (p.top + i).toNat < shown.length := by omega
      have hread : p.file? (i + p.top) = some shown[(p.top + i).toNat] := by
        rw [h.file?_eq (by omega) (by omega), add_comm, List.getElem?_eq_getElem hlt]
      obtain ⟨row, hrow, hfirst⟩ := drawRow_spec hread y isActive
      obtain ⟨rows, hrows, hlen, hall⟩ := ih (i + 1)
      simp only [hrow, hrows, Option.bind_eq_bind, Option.bind_some]
      refine ⟨_, rfl, by simp only [List.length_cons, hlen]; omega, ?_⟩
      intro j hj
      cases j with
      | zero => exact ⟨_, List.getElem?_eq_getElem hlt, hfirst⟩
      | succ j =>
        have hrest := hall j (by simpa using hj)
        rwa [show i + 1 + j = i + (j + 1) by omega] at hrest

/-- From a well-formed panel the drawing reads filled entries only, shows the
window line by line with the selected entry in it, and leaves no line blank
while entries are scrolled off. -/
theorem drawPanel_spec {p : Panel} {shown : List FileEntry} (h : p.Holds shown)
    (hw : p.Window) (y : ℤ) (isActive : Bool) :
    ∃ d, drawPanel p y isActive = some d ∧ d.header = panelHeader p ∧
      d.Shows p shown y isActive := by
  obtain ⟨rows, hrows, hlen, hall⟩ := drawRows_spec h hw.top_nonneg y isActive 0
    (panelHeight - 2).toNat
  simp only [Nat.zero_add] at hall
  obtain ⟨hcount, hsel, hlt, hempty, htop, hle, hge, hbottom⟩ := hw
  have := panelHeight_eq
  refine ⟨⟨panelHeader p, rows⟩, by rw [drawPanel, hrows]; rfl, rfl, ?_, hall, ?_, ?_, ?_, ?_⟩
  · dsimp only; omega
  · intro row hrow
    obtain ⟨j, hj, rfl⟩ := List.getElem_of_mem hrow
    obtain ⟨_, -, -, hindex, -⟩ := hall j hj
    dsimp only at hj ⊢
    omega
  · intro row hrow
    obtain ⟨j, hj, rfl⟩ := List.getElem_of_mem hrow
    obtain ⟨_, -, hshows, -⟩ := hall j hj
    have hline := hshows.line_eq
    dsimp only at hj hline ⊢
    omega
  · intro hpos
    have := hlt hpos
    have := hge hpos
    have := hbottom hpos
    have hj : (p.selected - p.top).toNat < rows.length := by omega
    obtain ⟨entry, hentry, hshows, hindex, hrev⟩ := hall _ hj
    have hat : (((p.selected - p.top).toNat : ℕ) : ℤ) = p.selected - p.top := by omega
    rw [hat, add_sub_cancel] at hentry hindex hrev
    rw [hat] at hshows
    refine ⟨_, List.getElem_mem hj, entry, hentry, hshows, hindex, ?_⟩
    rw [Bool.eq_iff_iff, hrev]
    exact and_iff_right rfl
  · intro hscrolled
    dsimp only
    omega

end UnixLessons.FileManager
