import UnixLessons.Directory.Operations

/-!
# The directory is a plain list

Abstractly the directory is a list of records, each known by its address, and
the output. Adding appends, deleting erases the first record with both names,
searching filters.

## Main results

* `step_represents`: every call does on the heap what it does on the list
* `directory_refines`: so does every sequence of calls from the empty directory
-/

namespace UnixLessons.Directory

open Text Linked Transition

variable {s : Abonents}

/-- The directory as a list. -/
structure Listing where
  nodes : List (ℕ × Abonent)
  out : List Line

/-- Numbered rows, as a search or a display prints them. -/
def rows (l : List Abonent) : List Line := l.mapIdx fun i a => .row (i + 1) a

/-- A record with both names. -/
def named (name secondName : CharArray maxStr) (x : ℕ × Abonent) : Bool :=
  x.2.name == name && x.2.secondName == secondName

namespace Listing

def empty : Listing := ⟨[], []⟩

def records (l : Listing) : List Abonent := l.nodes.map Prod.snd

def print (l : Listing) (ls : List Line) : Listing := { l with out := l.out ++ ls }

/-- The same on a directory without records. -/
def onNonempty (l : Listing) (ls : List Line) : Listing :=
  l.print (if l.nodes = [] then [.emptyDirectory] else ls)

/-- What a search prints. -/
def searchLines (l : Listing) (name : CharArray maxStr) : List Line :=
  let hits := l.records.filter (·.name == name)
  .searchHeader name :: rows hits ++
    [if hits = [] then .searchNone name else .found hits.length]

/-- The effect of a call. -/
def step (l : Listing) : Op → Listing
  | .add none _ _ _ => l.print [.outOfMemory]
  | .add (some new) name secondName tel =>
    ⟨l.nodes ++ [(new, ⟨name, secondName, tel⟩)], l.out ++ [.added (l.nodes.length + 1)]⟩
  | .delete name secondName =>
    if l.nodes.any (named name secondName) then
      ⟨l.nodes.eraseP (named name secondName), l.out ++ [.deleted name secondName]⟩
    else l.onNonempty [.notFound]
  | .search name => l.onNonempty (l.searchLines name)
  | .displayAll => l.onNonempty (.allHeader l.nodes.length :: rows l.records)
  | .displayAllReverse => l.onNonempty (.reverseHeader l.nodes.length :: rows l.records.reverse)
  | .clear => ⟨[], l.out ++ [.cleared]⟩

end Listing

/-- The heap holds exactly the nodes of the list, linked up from head to tail. -/
structure Represents (s : Abonents) (l : Listing) : Prop where
  cells : DList s.heap l.nodes
  head : s.head = first l.nodes none
  tail : s.tail = last none l.nodes
  count : s.count = l.nodes.length
  out : s.out = l.out

namespace Represents

variable {l : Listing}

theorem init : Represents Abonents.init Listing.empty :=
  ⟨DList.empty, rfl, rfl, rfl, rfl⟩

theorem rounds (h : Represents s l) : l.nodes.length < s.rounds := h.cells.length_lt

theorem count_eq_zero (h : Represents s l) : s.count = 0 ↔ l.nodes = [] := by
  rw [h.count, Int.natCast_eq_zero, List.length_eq_zero_iff]

/-- Printing changes nothing else. -/
theorem printed (h : Represents s l) (ls : List Line) :
    Represents { s with out := s.out ++ ls } (l.print ls) :=
  { h with out := congrArg (· ++ ls) h.out }

theorem printed_empty (h : Represents s l) (hnil : l.nodes = []) (ls : List Line) :
    Represents (s.print .emptyDirectory) (l.onNonempty ls) := by
  rw [Listing.onNonempty, if_pos hnil]
  exact h.printed [.emptyDirectory]

theorem printed_nonempty (h : Represents s l) (hnil : l.nodes ≠ []) (ls : List Line) :
    Represents { s with out := s.out ++ ls } (l.onNonempty ls) := by
  rw [Listing.onNonempty, if_neg hnil]
  exact h.printed ls

end Represents

/-! ### Loops -/

theorem rows_append (xs : List Abonent) (a : Abonent) :
    rows (xs ++ [a]) = rows xs ++ [.row (xs.length + 1) a] := by
  simp [rows, List.mapIdx_append]

theorem foldlM_displayRound (xs : List Abonent) (out : List Line) :
    xs.foldlM displayRound (0, out) = some ((xs.length : ℤ), out ++ rows xs) := by
  induction xs using List.reverseRecOn with
  | nil => simp [rows]
  | append_singleton xs a ih => simp [ih, rows_append, displayRound, List.append_assoc]

theorem foldlM_searchRound (name : CharArray maxStr) (xs : List Abonent) (out : List Line) :
    xs.foldlM (searchRound name) (0, 0, out) =
      some (((xs.filter (·.name == name)).length : ℤ), ((xs.filter (·.name == name)).length : ℤ),
        out ++ rows (xs.filter (·.name == name))) := by
  induction xs using List.reverseRecOn with
  | nil => simp [rows]
  | append_singleton xs a ih =>
    rw [List.foldlM_append, ih]
    by_cases ha : a.name = name
    · simp [searchRound, sameName_eq, ha, rows_append]
    · simp [searchRound, sameName_eq, ha]

theorem matchesNames_eq (name secondName : CharArray maxStr) (a : Abonent) :
    matchesNames name secondName a = some (a.name == name && a.secondName == secondName) := by
  rw [matchesNames, sameName_eq, sameName_eq]
  by_cases h : a.name = name <;> simp [h]

/-! ### Calls -/

variable {l : Listing} {name secondName : CharArray maxStr} {tel : CharArray maxNumber} {new : ℕ}

theorem append_represents (h : Represents s l) (hnew : new ∉ s.heap) (v : Abonent) :
    ∃ s', append { s with heap := s.heap.insert new ⟨v, none, none⟩ } new = some s' ∧
      Represents { s' with count := s'.count + 1, out := s'.out ++ [.added (s'.count + 1)] }
        ⟨l.nodes ++ [(new, v)], l.out ++ [.added (l.nodes.length + 1)]⟩ := by
  have hcount : s.count + 1 = (l.nodes ++ [(new, v)]).length := by simp [h.count]
  have hout : s.out ++ [.added (s.count + 1)] = l.out ++ [.added (l.nodes.length + 1)] := by
    rw [h.out, h.count]
  rcases List.eq_nil_or_concat' l.nodes with hnil | ⟨xs, ⟨b, w⟩, hxs⟩
  · have hcells := h.cells
    have hhead := h.head
    rw [hnil] at hcells hhead
    refine ⟨⟨s.heap.insert new ⟨v, none, none⟩, some new, some new, s.count, s.out⟩,
      ?_, ?_, ?_, ?_, hcount, hout⟩
    · simp only [append, hhead, first]
    · rw [hnil]
      exact hcells.push_empty new v
    · simp [hnil, first]
    · simp [hnil, last]
  · have hcells := h.cells
    rw [hxs] at hcells
    obtain ⟨h₁, h₂, hmod₁, hmod₂, hd⟩ := hcells.push hnew v
    have htail : s.tail = some b := by
      rw [h.tail, hxs]
      simp [last]
    obtain ⟨c, hhead⟩ : ∃ c, s.head = some c := by
      rw [h.head, hxs]
      cases xs with
      | nil => exact ⟨b, rfl⟩
      | cons x xs => exact ⟨x.1, rfl⟩
    refine ⟨{ s with heap := h₂, tail := some new }, ?_, ?_, ?_, ?_, hcount, hout⟩
    · simp [append, hhead, htail, hmod₁, hmod₂]
    · rw [hxs]
      exact hd
    · simp only [h.head, hxs]
      cases xs <;> rfl
    · simp [last]

theorem addAbonent_represents (h : Represents s l) (hnew : new ∉ s.heap) :
    ∃ s', addAbonent s (some new) name secondName tel = some s' ∧
      Represents s' (l.step (.add (some new) name secondName tel)) := by
  obtain ⟨s', happend, hrep⟩ := append_represents h hnew ⟨name, secondName, tel⟩
  refine ⟨_, ?_, hrep⟩
  simp only [addAbonent, createAbonent, contents_eq, happend, Option.map_some]

theorem unlink_represents {xs ys : List (ℕ × Abonent)} {a : ℕ} {v : Abonent} {out : List Line}
    (h : Represents s ⟨xs ++ (a, v) :: ys, out⟩) (ls : List Line) :
    ∃ s' cell heap, unlink s a = some s' ∧ s'.heap.lookup a = some cell ∧ cell.value = v ∧
      free s'.heap a = some heap ∧
      Represents { s' with heap, count := s'.count - 1, out := s'.out ++ ls }
        ⟨xs ++ ys, out ++ ls⟩ := by
  obtain ⟨h₁, h₂, hlink₁, hsame₁, hlink₂, hsame₂, hfree, hd⟩ := h.cells.remove
  have hcell := h.cells.segment.lookup
  refine ⟨⟨h₂, if (last none xs).isSome then s.head else first ys none,
    if (first ys none).isSome then s.tail else last none xs, s.count, s.out⟩, _, _, ?_,
    hsame₂.trans hcell, rfl, hfree, hd, ?_, ?_, ?_, ?_⟩
  · simp [unlink, hcell, hlink₁, hsame₁, hlink₂]
  · simp only [h.head]
    cases xs using List.reverseRecOn with
    | nil => rfl
    | append_singleton xs x _ =>
      rw [last_append, last, last, Option.isSome_some, if_pos rfl]
      cases xs <;> rfl
  · simp only [h.tail]
    cases ys with
    | nil => simp [first]
    | cons y ys => simp [first, last]
  · simp [h.count]
    omega
  · rw [h.out]

theorem findLink_matchesNames (h : Represents s l) (name secondName : CharArray maxStr) :
    findLink (matchesNames name secondName) s.heap s.rounds s.head =
      some ((l.nodes.find? (named name secondName)).map Prod.fst) := by
  rw [h.head]
  exact h.cells.segment.findLink_eq h.rounds (matchesNames_eq name secondName)

/-- Without a record of both names only a line is printed. -/
theorem deleteAbonent_unmatched (h : Represents s l)
    (hnone : ∀ x ∈ l.nodes, named name secondName x = false) :
    deleteAbonent s name secondName =
      some (s.print (if l.nodes = [] then .emptyDirectory else .notFound)) := by
  by_cases hnil : l.nodes = []
  · rw [if_pos hnil]
    exact if_pos (h.count_eq_zero.mpr hnil)
  · have hfind : l.nodes.find? (named name secondName) = none :=
      List.find?_eq_none.mpr fun x hx => by simp [hnone x hx]
    rw [deleteAbonent, if_neg (mt h.count_eq_zero.mp hnil), findLink_matchesNames h, hfind,
      if_neg hnil]
    rfl

theorem deleteAbonent_represents (h : Represents s l) :
    ∃ s', deleteAbonent s name secondName = some s' ∧
      Represents s' (l.step (.delete name secondName)) := by
  cases hfind : l.nodes.find? (named name secondName) with
  | none =>
    have hnone : ∀ x ∈ l.nodes, named name secondName x = false := by
      simpa using List.find?_eq_none.mp hfind
    have hany : l.nodes.any (named name secondName) = false := by
      simpa using hnone
    refine ⟨_, deleteAbonent_unmatched h hnone, ?_⟩
    simp only [Listing.step, hany, Bool.false_eq_true, if_false]
    by_cases hnil : l.nodes = []
    · rw [if_pos hnil]
      exact h.printed_empty hnil _
    · rw [if_neg hnil]
      exact h.printed_nonempty hnil _
  | some x =>
    obtain ⟨hx, xs, ys, hnodes, hxs⟩ := List.find?_eq_some_iff_append.mp hfind
    have hany : l.nodes.any (named name secondName) = true :=
      List.any_eq_true.mpr ⟨x, by simp [hnodes], hx⟩
    have herase : l.nodes.eraseP (named name secondName) = xs ++ ys := by
      rw [hnodes, List.eraseP_append_right _ fun y hy => by simpa using hxs y hy,
        List.eraseP_cons_of_pos hx]
    have hnil : l.nodes ≠ [] := by simp [hnodes]
    obtain ⟨hname, hsecond⟩ : x.2.name = name ∧ x.2.secondName = secondName := by
      simpa [named] using hx
    have hloop := findLink_matchesNames h name secondName
    obtain ⟨nodes, out⟩ := l
    subst hnodes
    obtain ⟨s', cell, heap, hunlink, hcell, hvalue, hfree, hrep⟩ :=
      unlink_represents h [.deleted name secondName]
    refine ⟨_, ?_, by simpa only [Listing.step, hany, if_pos, herase] using hrep⟩
    rw [deleteAbonent, if_neg (mt h.count_eq_zero.mp hnil), hloop, hfind]
    simp [hunlink, hcell, hfree, hvalue, hname, hsecond]

theorem searchByName_represents (h : Represents s l) :
    ∃ s', searchByName s name = some s' ∧ Represents s' (l.step (.search name)) := by
  by_cases hnil : l.nodes = []
  · exact ⟨_, if_pos (h.count_eq_zero.mpr hnil), h.printed_empty hnil _⟩
  · refine ⟨_, ?_, h.printed_nonempty hnil (l.searchLines name)⟩
    rw [searchByName, if_neg (mt h.count_eq_zero.mp hnil), h.head,
      h.cells.segment.foldLinks_next h.rounds, foldlM_searchRound]
    have hlast : ∀ hits : List Abonent,
        (if (hits.length : ℤ) = 0 then Line.searchNone name else .found hits.length) =
          if hits = [] then .searchNone name else .found hits.length :=
      fun hits => if_congr (by simp) rfl rfl
    simp only [Listing.searchLines, Listing.records, hlast, List.append_assoc,
      List.cons_append, List.nil_append, Option.bind_eq_bind, Option.bind_some]
    rfl

theorem display_represents (h : Represents s l) {header : Line}
    {link : Cell Abonent → Option ℕ} {start : Option ℕ} {xs : List Abonent}
    (hloop : ∀ out, foldLinks link displayRound s.heap s.rounds start (0, out) =
      xs.foldlM displayRound (0, out)) :
    ∃ s', display s header link start = some s' ∧
      Represents s' (l.onNonempty (header :: rows xs)) := by
  by_cases hnil : l.nodes = []
  · exact ⟨_, if_pos (h.count_eq_zero.mpr hnil), h.printed_empty hnil _⟩
  · refine ⟨_, ?_, h.printed_nonempty hnil (header :: rows xs)⟩
    rw [display, if_neg (mt h.count_eq_zero.mp hnil), hloop, foldlM_displayRound]
    simp [List.append_assoc]

theorem displayAll_represents (h : Represents s l) :
    ∃ s', displayAll s = some s' ∧ Represents s' (l.step .displayAll) := by
  rw [displayAll, h.count, h.head]
  exact display_represents h fun _ => h.cells.segment.foldLinks_next h.rounds

theorem displayAllReverse_represents (h : Represents s l) :
    ∃ s', displayAllReverse s = some s' ∧ Represents s' (l.step .displayAllReverse) := by
  rw [displayAllReverse, h.count, h.tail]
  exact display_represents h fun _ => h.cells.segment.foldLinks_prev h.rounds

theorem clearDirectory_represents (h : Represents s l) :
    ∃ s', clearDirectory s = some s' ∧ Represents s' (l.step .clear) := by
  obtain ⟨heap, hfree, hd⟩ := h.cells.freeLinks_eq h.rounds
  refine ⟨_, by rw [clearDirectory, h.head, hfree]; rfl, hd, rfl, rfl, rfl, ?_⟩
  rw [h.out]
  rfl

/-- Every call does on the heap what it does on the list. -/
theorem step_represents (h : Represents s l) {op : Op} (hfresh : Fresh s op) :
    ∃ s', step s op = some s' ∧ Represents s' (l.step op) := by
  cases op with
  | add memory name secondName tel =>
    cases memory with
    | none => exact ⟨_, rfl, h.printed [.outOfMemory]⟩
    | some new => exact addAbonent_represents h hfresh
  | delete name secondName => exact deleteAbonent_represents h
  | search name => exact searchByName_represents h
  | displayAll => exact displayAll_represents h
  | displayAllReverse => exact displayAllReverse_represents h
  | clear => exact clearDirectory_represents h

theorem run_represents {ops : List Op} (h : Represents s l) (hfresh : Along step Fresh s ops) :
    ∃ s', run step s ops = some s' ∧ Represents s' (ops.foldl Listing.step l) := by
  induction ops generalizing s l with
  | nil => exact ⟨s, rfl, h⟩
  | cons op ops ih =>
    obtain ⟨t, ht, hrep⟩ := step_represents h hfresh.1
    obtain ⟨s', hrun, hrep'⟩ := ih hrep ((along_cons_of_step ht).mp hfresh).2
    exact ⟨s', run_cons_eq_some.mpr ⟨t, ht, hrun⟩, hrep'⟩

/-! ### The main result -/

/-- What the two links, the counter and the allocated cells say about a list of
nodes. -/
structure Consistent (s : Abonents) (nodes : List (ℕ × Abonent)) : Prop where
  forward : follow Cell.next s.heap s.rounds s.head = some nodes
  backward : follow Cell.prev s.heap s.rounds s.tail = some nodes.reverse
  acyclic : (nodes.map Prod.fst).Nodup
  count : s.count = nodes.length
  head_none_iff : s.head = none ↔ nodes = []
  tail_none_iff : s.tail = none ↔ nodes = []
  allocated : ∀ a, a ∈ s.heap ↔ a ∈ nodes.map Prod.fst

theorem Represents.consistent (h : Represents s l) : Consistent s l.nodes where
  forward := h.head ▸ h.cells.segment.follow_next h.rounds
  backward := h.tail ▸ h.cells.segment.follow_prev h.rounds
  acyclic := h.cells.nodup
  count := h.count
  head_none_iff := by
    rw [h.head]
    cases l.nodes <;> simp [first]
  tail_none_iff := by
    rw [h.tail]
    rcases List.eq_nil_or_concat' l.nodes with hnil | ⟨xs, x, hxs⟩
    · simp [hnil, last]
    · simp [hxs, last]
  allocated := h.cells.mem_iff

/-- From the empty directory, every sequence of calls runs to its end without
following or freeing a pointer to no cell. The nodes reached are those of the
plain list, and so is the output; a failed `malloc` and a deletion without a
match only print a line. -/
theorem directory_refines (ops : List Op) (hfresh : Along step Fresh Abonents.init ops) :
    ∃ s, run step Abonents.init ops = some s ∧
      Consistent s (ops.foldl Listing.step Listing.empty).nodes ∧
      s.out = (ops.foldl Listing.step Listing.empty).out ∧
      (∀ name secondName tel, step s (.add none name secondName tel) =
        some (s.print .outOfMemory)) ∧
      ∀ name secondName,
        (∀ x ∈ (ops.foldl Listing.step Listing.empty).nodes,
          ¬ (x.2.name = name ∧ x.2.secondName = secondName)) →
        ∃ line, step s (.delete name secondName) = some (s.print line) := by
  obtain ⟨s, hrun, h⟩ := run_represents Represents.init hfresh
  refine ⟨s, hrun, h.consistent, h.out, fun _ _ _ => rfl, fun name secondName hnone =>
    ⟨_, deleteAbonent_unmatched h fun x hx => ?_⟩⟩
  simpa [named] using hnone x hx

/-- Two subscribers, of which the first is deleted. -/
def twoAdded : List Op :=
  let anna : CharArray maxStr := ⟨['a', 'n', 'n', 'a'], by decide, by decide⟩
  let ivan : CharArray maxStr := ⟨['i', 'v', 'a', 'n'], by decide, by decide⟩
  let tel : CharArray maxNumber := ⟨['1', '2'], by decide, by decide⟩
  [.add (some 1) anna ivan tel, .add none ivan ivan tel, .add (some 2) ivan anna tel,
    .delete anna ivan, .displayAllReverse]

theorem directory_refines_twoAdded :
    ∃ s, run step Abonents.init twoAdded = some s ∧
      Consistent s (twoAdded.foldl Listing.step Listing.empty).nodes ∧
      s.count = 1 ∧ s.head = some 2 := by
  obtain ⟨s, hrun, hcons, -⟩ := directory_refines twoAdded (by decide)
  have hnodes : (twoAdded.foldl Listing.step Listing.empty).nodes.map Prod.fst = [2] := by decide
  refine ⟨s, hrun, hcons, ?_, ?_⟩
  · rw [hcons.count, ← List.length_map (f := Prod.fst), hnodes]
    rfl
  · have hend : (run step Abonents.init twoAdded).map Abonents.head = some (some 2) := by decide
    rw [hrun] at hend
    exact Option.some.inj hend

end UnixLessons.Directory
