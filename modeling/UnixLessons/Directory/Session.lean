import Mathlib.Algebra.Order.BigOperators.Group.List
import Mathlib.Algebra.Order.Ring.Nat
import UnixLessons.Directory.MainLoop

/-!
# A session with the directory

A user who types what the prompts ask for sees the directory as a list of records. What has
to be typed depends on it: of an empty directory nothing is deleted, and no name is asked for.

## Main results

* `answer_represents`: one request on the heap and on the list
* `session_refines`: the loop of `main` on the text of any requests
-/

namespace UnixLessons.Directory

open Text Linked Transition

/-- What a user may want, the end of the session apart. -/
inductive Request where
  | add (name secondName tel : CString)
  | delete (name secondName : CString)
  | search (name : CString)
  | displayAll
  | displayAllReverse
  | other (number : ℤ)

/-- A word that a prompt takes with its line, at worst without its last character. -/
def Suits (width : ℕ) (w : CString) : Prop := IsWord w ∧ w.length ≤ width + 1

instance (width : ℕ) : DecidablePred (Suits width) := fun _ => inferInstanceAs (Decidable (_ ∧ _))

namespace Request

/-- The number in the menu. -/
def choice : Request → ℤ
  | add .. => 1
  | delete .. => 2
  | search .. => 3
  | displayAll => 4
  | displayAllReverse => 5
  | other number => number

/-- The words that are asked for. -/
def words (isEmpty : Bool) : Request → List CString
  | add name secondName tel => [name, secondName, tel]
  | delete name secondName => if isEmpty then [] else [name, secondName]
  | search name => if isEmpty then [] else [name]
  | _ => []

def Fits : Request → Prop
  | add name secondName tel => Suits 9 name ∧ Suits 9 secondName ∧ Suits 11 tel
  | delete name secondName => Suits 9 name ∧ Suits 9 secondName
  | search name => Suits 9 name
  | displayAll | displayAllReverse => True
  | other number => (number < 1 ∨ 6 < number) ∧ -2 ^ 31 ≤ number ∧ number < 2 ^ 31

instance : DecidablePred Fits
  | add .. => inferInstanceAs (Decidable (_ ∧ _ ∧ _))
  | delete .. => inferInstanceAs (Decidable (_ ∧ _))
  | search name => inferInstanceAs (Decidable (Suits 9 name))
  | displayAll | displayAllReverse => isTrue trivial
  | other number => inferInstanceAs (Decidable ((number < 1 ∨ 6 < number) ∧ _))

end Request

/-- A record with both names, as far as the arrays hold them. -/
def hasNames (name secondName : CString) (a : Abonent) : Bool :=
  a.name == filled _ name && a.secondName == filled _ secondName

/-- The directory as its user sees it. -/
structure Catalog where
  records : List Abonent
  out : List Line

namespace Catalog

def empty : Catalog := ⟨[], []⟩

def print (c : Catalog) (ls : List Line) : Catalog := { c with out := c.out ++ ls }

def onNonempty (c : Catalog) (ls : List Line) : Catalog :=
  c.print (if c.records = [] then [.emptyDirectory] else ls)

/-- What becomes of a request; `memory` tells whether there is room for one more record. -/
def answer (c : Catalog) (memory : Bool) : Request → Catalog
  | .add name secondName tel =>
    if memory then
      ⟨c.records ++ [⟨filled _ name, filled _ secondName, filled _ tel⟩],
        c.out ++ [.added (c.records.length + 1)]⟩
    else c.print [.outOfMemory]
  | .delete name secondName =>
    if c.records.any (hasNames name secondName) then
      ⟨c.records.eraseP (hasNames name secondName),
        c.out ++ [.deleted (filled _ name) (filled _ secondName)]⟩
    else c.onNonempty [.notFound]
  | .search name =>
    let hits := c.records.filter (·.name == filled _ name)
    c.onNonempty (.searchHeader (filled _ name) :: rows hits ++
      [if hits = [] then .searchNone (filled _ name) else .found hits.length])
  | .displayAll => c.onNonempty (.allHeader c.records.length :: rows c.records)
  | .displayAllReverse => c.onNonempty (.reverseHeader c.records.length :: rows c.records.reverse)
  | .other _ => c

/-- After requests that are made in the rounds from `k` on. -/
def after (enough : ℕ → Bool) : ℕ → Catalog → List Request → Catalog
  | _, c, [] => c
  | k, c, r :: rs => after enough (k + 1) (c.answer (enough k) r) rs

/-- All that is typed for the requests, and for the end. -/
def script (enough : ℕ → Bool) : ℕ → Catalog → List Request → Stdin
  | _, _, [] => textLines [decimal 6] []
  | k, c, r :: rs => textLines (decimal r.choice :: r.words c.records.isEmpty)
      (script enough (k + 1) (c.answer (enough k) r) rs)

/-- What a user sees of a list with addresses. -/
def ofListing (l : Listing) : Catalog := ⟨l.records, l.out⟩

end Catalog

variable {s : Abonents} {l : Listing} {c : Catalog} {r : Request} {rs : List Request}
  {m : Menu} {outside : Outside} {w : CString} {width : ℕ} {stdin rest t : Stdin}
  {enough : ℕ → Bool} {k : ℕ}

/-! ### Calls on the list -/

theorem ofListing_print (ls : List Line) :
    Catalog.ofListing (l.print ls) = (Catalog.ofListing l).print ls := rfl

theorem records_eq_nil_iff : l.records = [] ↔ l.nodes = [] := List.map_eq_nil_iff

theorem ofListing_onNonempty (ls : List Line) :
    Catalog.ofListing (l.onNonempty ls) = (Catalog.ofListing l).onNonempty ls := by
  rw [Listing.onNonempty, ofListing_print, Catalog.onNonempty]
  congr 1
  exact if_congr records_eq_nil_iff.symm rfl rfl

theorem length_records : l.records.length = l.nodes.length := List.length_map ..

/-- The call that a request leads to, if it leads to any. -/
def Request.op (memory : Option ℕ) : Request → Option Op
  | .add name secondName tel =>
    some (.add memory (filled _ name) (filled _ secondName) (filled _ tel))
  | .delete name secondName => some (.delete (filled _ name) (filled _ secondName))
  | .search name => some (.search (filled _ name))
  | .displayAll => some .displayAll
  | .displayAllReverse => some .displayAllReverse
  | .other _ => none

/-- The addresses make no difference to a user. -/
theorem ofListing_step {memory : Option ℕ} {op : Op} (hop : r.op memory = some op) :
    Catalog.ofListing (l.step op) = (Catalog.ofListing l).answer memory.isSome r := by
  cases r with
  | add name secondName tel =>
    obtain rfl := Option.some.inj hop
    cases memory with
    | none => rfl
    | some new => simp [Listing.step, Catalog.ofListing, Catalog.answer, Listing.records]
  | delete name secondName =>
    obtain rfl := Option.some.inj hop
    have hany : l.nodes.any (named (filled _ name) (filled _ secondName)) =
        l.records.any (hasNames name secondName) := by
      rw [Listing.records, List.any_map]
      rfl
    have herase : (l.nodes.eraseP (named (filled _ name) (filled _ secondName))).map Prod.snd =
        l.records.eraseP (hasNames name secondName) := by
      rw [Listing.records, List.eraseP_map]
      rfl
    by_cases hfound : l.records.any (hasNames name secondName) = true
    · rw [Listing.step, if_pos (hany.trans hfound), Catalog.answer]
      exact (congrArg (Catalog.mk · _) herase).trans (if_pos hfound).symm
    · rw [Listing.step, if_neg (hany ▸ hfound), Catalog.answer]
      exact (ofListing_onNonempty _).trans (if_neg hfound).symm
  | search name =>
    obtain rfl := Option.some.inj hop
    exact ofListing_onNonempty _
  | displayAll =>
    obtain rfl := Option.some.inj hop
    rw [Listing.step, ofListing_onNonempty, ← length_records]
    rfl
  | displayAllReverse =>
    obtain rfl := Option.some.inj hop
    rw [Listing.step, ofListing_onNonempty, ← length_records]
    rfl
  | other => cases hop

/-! ### One request -/

/-- The array holds the word, as far as it has room. -/
theorem prompt_filled {size : ℕ} [NeZero size] {old : CharArray size} (hw : IsWord w)
    (hwidth : width = size - 1) (h : skipSpace stdin = w ++ '\n' :: t) :
    (prompt width old stdin).1 = filled size w := by
  rw [prompt, scanField_line hw h]
  apply CharArray.ext
  change cstr ((w.take width).take (size - 1)) = cstr (w.take (size - 1))
  rw [List.take_take, hwidth, min_self]

theorem Suits.left (h : Suits width w) (hline : skipSpace stdin = w ++ '\n' :: t) :
    skipSpace (left width stdin) = skipSpace t :=
  left_of_length_le h.1 h.2 hline

/-- A call that goes on with the list as the request wants it, and has read what was typed
for it. -/
def Answers (l : Listing) (memory : Bool) (r : Request) (rest : Stdin)
    (call : Option (Abonents × Stdin)) : Prop :=
  ∃ s l' stdin, call = some (s, stdin) ∧ Represents s l' ∧
    Catalog.ofListing l' = (Catalog.ofListing l).answer memory r ∧ skipSpace stdin = skipSpace rest

theorem answers_map {memory : Option ℕ} {op : Op} (h : Represents s l)
    (hop : r.op memory = some op) (hfresh : Fresh s op) (hleft : skipSpace stdin = skipSpace rest) :
    Answers l memory.isSome r rest ((step s op).map (·, stdin)) := by
  obtain ⟨s', hstep, hrep⟩ := step_represents h hfresh
  exact ⟨s', _, stdin, by rw [hstep, Option.map_some], hrep, ofListing_step hop, hleft⟩

theorem answers_addFrom (h : Represents s l) (outside : Outside) {name secondName tel : CString}
    (hfits : (Request.add name secondName tel).Fits) (rest : Stdin) :
    Answers l (outside.malloc s.heap).isSome (.add name secondName tel) rest
      (addFrom s (outside.malloc s.heap) outside.old (typed name secondName tel rest)) := by
  obtain ⟨hname, hsecond, htel⟩ := hfits
  -- each prompt leaves the next line to the next one
  have hline₁ := hname.1.skipSpace_append ('\n' :: (secondName ++ '\n' :: (tel ++ '\n' :: rest)))
  have hline₂ := (hname.left hline₁).trans (hsecond.1.skipSpace_append _)
  have hline₃ := (hsecond.left hline₂).trans (htel.1.skipSpace_append _)
  have hfirst : (prompt 9 outside.old.name _).1 = filled _ name := prompt_filled hname.1 rfl hline₁
  have hnext : (prompt 9 outside.old.secondName _).1 = filled _ secondName :=
    prompt_filled hsecond.1 rfl hline₂
  have hlast : (prompt 11 outside.old.tel _).1 = filled _ tel := prompt_filled htel.1 rfl hline₃
  have hfresh : Fresh s (.add (outside.malloc s.heap) (filled _ name) (filled _ secondName)
      (filled _ tel)) := by
    cases hmalloc : outside.malloc s.heap with
    | none => trivial
    | some new => exact outside.fresh _ _ hmalloc
  rw [addFrom_eq, typed, hfirst, hnext, hlast]
  exact answers_map h rfl hfresh (htel.left hline₃)

theorem isEmpty_records : l.records.isEmpty = true ↔ l.nodes = [] :=
  List.isEmpty_iff.trans records_eq_nil_iff

theorem deleteFrom_eq (hcount : s.count ≠ 0) (old : Abonent) (stdin : Stdin) :
    deleteFrom s old stdin =
      (deleteAbonent s (prompt 9 old.name stdin).1 (prompt 9 old.secondName (left 9 stdin)).1).map
        (·, left 9 (left 9 stdin)) := by
  simp only [deleteFrom, if_neg hcount, prompt_left]

theorem answers_deleteFrom (h : Represents s l) (old : Abonent) {name secondName : CString}
    (hfits : (Request.delete name secondName).Fits) (memory : Option ℕ) (rest : Stdin) :
    Answers l memory.isSome (.delete name secondName) rest (deleteFrom s old
      (textLines ((Request.delete name secondName).words l.records.isEmpty) rest)) := by
  obtain ⟨hname, hsecond⟩ := hfits
  have hop : (Request.delete name secondName).op memory =
      some (.delete (filled _ name) (filled _ secondName)) := rfl
  by_cases hnil : l.nodes = []
  · -- for an empty directory no name has been typed
    have hcount := h.count_eq_zero.mpr hnil
    have hcall := @answers_map s l _ rest rest memory _ h hop trivial rfl
    rw [step, deleteAbonent, if_pos hcount] at hcall
    rwa [deleteFrom, if_pos hcount, isEmpty_records.mpr hnil]
  · have hline₁ := hname.1.skipSpace_append ('\n' :: (secondName ++ '\n' :: rest))
    have hline₂ := (hname.left hline₁).trans (hsecond.1.skipSpace_append _)
    have hfirst : (prompt 9 old.name _).1 = filled _ name := prompt_filled hname.1 rfl hline₁
    have hnext : (prompt 9 old.secondName _).1 = filled _ secondName :=
      prompt_filled hsecond.1 rfl hline₂
    have htext : textLines ((Request.delete name secondName).words false) rest =
        name ++ '\n' :: (secondName ++ '\n' :: rest) := rfl
    rw [Bool.eq_false_iff.mpr (mt isEmpty_records.mp hnil), htext,
      deleteFrom_eq (mt h.count_eq_zero.mp hnil), hfirst, hnext]
    exact answers_map h hop trivial (hsecond.left hline₂)

theorem searchFrom_eq (hcount : s.count ≠ 0) (old : Abonent) (stdin : Stdin) :
    searchFrom s old stdin =
      (searchByName s (prompt 9 old.name stdin).1).map (·, left 9 stdin) := by
  simp only [searchFrom, if_neg hcount, prompt_left]

theorem answers_searchFrom (h : Represents s l) (old : Abonent) {name : CString}
    (hname : (Request.search name).Fits) (memory : Option ℕ) (rest : Stdin) :
    Answers l memory.isSome (.search name) rest (searchFrom s old
      (textLines ((Request.search name).words l.records.isEmpty) rest)) := by
  have hop : (Request.search name).op memory = some (.search (filled _ name)) := rfl
  by_cases hnil : l.nodes = []
  · have hcount := h.count_eq_zero.mpr hnil
    have hcall := @answers_map s l _ rest rest memory _ h hop trivial rfl
    rw [step, searchByName, if_pos hcount] at hcall
    rwa [searchFrom, if_pos hcount, isEmpty_records.mpr hnil]
  · have hline := hname.1.skipSpace_append ('\n' :: rest)
    have hfirst : (prompt 9 old.name _).1 = filled _ name := prompt_filled hname.1 rfl hline
    have htext : textLines ((Request.search name).words false) rest = name ++ '\n' :: rest := rfl
    rw [Bool.eq_false_iff.mpr (mt isEmpty_records.mp hnil), htext,
      searchFrom_eq (mt h.count_eq_zero.mp hnil), hfirst]
    exact answers_map h hop trivial (hname.left hline)

/-- One request on the heap and on the list. -/
theorem answers_perform (h : Represents s l) (outside : Outside) (hfits : r.Fits) (rest : Stdin) :
    Answers l (outside.malloc s.heap).isSome r rest (perform outside r.choice s
      (textLines (r.words l.records.isEmpty) rest)) := by
  cases r with
  | add name secondName tel => exact answers_addFrom h outside hfits rest
  | delete name secondName => exact answers_deleteFrom h outside.old hfits _ rest
  | search name => exact answers_searchFrom h outside.old hfits _ rest
  | displayAll =>
    have hop : Request.displayAll.op (outside.malloc s.heap) = some .displayAll := rfl
    exact answers_map h hop trivial rfl
  | displayAllReverse =>
    have hop : Request.displayAllReverse.op (outside.malloc s.heap) = some .displayAllReverse := rfl
    exact answers_map h hop trivial rfl
  | other number =>
    have hnone : perform outside number s rest = some (s, rest) := by
      obtain ⟨hnumber, -⟩ := hfits
      rw [perform, if_neg (by omega), if_neg (by omega), if_neg (by omega), if_neg (by omega),
        if_neg (by omega), if_neg (by omega)]
    exact ⟨s, l, rest, hnone, h, rfl, rfl⟩

/-! ### The loop -/

/-- Before a round: the directory is the catalog, and the requests `rs` are still to be read. -/
def Ready (enough : ℕ → Bool) (k : ℕ) (m : Menu) (c : Catalog) (rs : List Request) : Prop :=
  ∃ l, Represents m.abs l ∧ Catalog.ofListing l = c ∧
    skipSpace m.stdin = skipSpace (c.script enough k rs)

theorem choice_bounds (hfits : r.Fits) : -2 ^ 31 ≤ r.choice ∧ r.choice < 2 ^ 31 ∧ r.choice ≠ 6 := by
  cases r with
  | other number =>
    obtain ⟨hnumber, hlower, hupper⟩ := hfits
    exact ⟨hlower, hupper, by rw [Request.choice]; omega⟩
  | _ => simp [Request.choice]

theorem Ready.round (h : Ready enough k m c (r :: rs))
    (hmemory : ∀ heap, (outside.malloc heap).isSome = enough k) (hfits : r.Fits) :
    ∃ m', round outside m = some m' ∧ Ready enough (k + 1) m' (c.answer (enough k) r) rs := by
  obtain ⟨l, hrep, rfl, hstdin⟩ := h
  obtain ⟨hlower, hupper, hexit⟩ := choice_bounds hfits
  have hscan : scanNumber m.stdin = (some r.choice, '\n' :: textLines (r.words l.records.isEmpty)
      (((Catalog.ofListing l).answer (enough k) r).script enough (k + 1) rs)) :=
    (scanNumber_congr hstdin).trans (scanNumber_line hlower hupper _)
  obtain ⟨s, l', stdin, hperform, hrep', hlist, hnext⟩ := answers_perform hrep outside hfits
    (((Catalog.ofListing l).answer (enough k) r).script enough (k + 1) rs)
  rw [hmemory] at hlist
  refine ⟨⟨s, r.choice, stdin⟩, round_eq_some.mpr ⟨?_, hexit, ?_⟩, l', hrep', hlist, hnext⟩
  · rw [hscan]
    rfl
  · rw [hscan]
    exact hperform

/-- The rounds for all requests. -/
theorem Ready.rounds {outside : ℕ → Outside} {start : Menu}
    (hmemory : ∀ k heap, ((outside k).malloc heap).isSome = enough k)
    (hfits : ∀ r ∈ rs, r.Fits) (h : Ready enough k m c rs)
    (hrounds : afterRounds (fun k => Directory.round (outside k)) k start = some m) :
    ∃ m', afterRounds (fun k => Directory.round (outside k)) (k + rs.length) start = some m' ∧
      Ready enough (k + rs.length) m' (c.after enough k rs) [] := by
  induction rs generalizing k m c with
  | nil => exact ⟨m, hrounds, h⟩
  | cons r rs ih =>
    obtain ⟨m', hround, hready⟩ := h.round (hmemory k) (hfits r List.mem_cons_self)
    have hlength : k + (r :: rs).length = k + 1 + rs.length := by
      rw [List.length_cons]
      omega
    rw [hlength]
    exact ih (fun r' hr' => hfits r' (List.mem_cons_of_mem r hr')) hready
      ((afterRounds_succ hrounds).trans hround)

/-- In the last round the directory is cleared, and nothing is left allocated. -/
def EndsCleared (outside : Outside) (m : Menu) (out : List Line) : Prop :=
  (scanNumber m.stdin).1 = some 6 ∧ Directory.round outside m = none ∧
    ∃ s, clearDirectory m.abs = some s ∧ (∀ a, a ∉ s.heap) ∧ s.out = out ++ [.cleared]

theorem Ready.last (h : Ready enough k m c []) (outside : Outside) :
    EndsCleared outside m c.out := by
  obtain ⟨l, hrep, rfl, hstdin⟩ := h
  obtain ⟨s, hclear, hrep'⟩ := clearDirectory_represents hrep
  have hscan : scanNumber m.stdin = (some 6, ['\n']) :=
    (scanNumber_congr hstdin).trans (scanNumber_line (by decide) (by decide) [])
  refine ⟨by rw [hscan], ?_, s, hclear, fun a ha => ?_, hrep'.out⟩
  · -- a round that goes on has not read a 6
    rw [Option.eq_none_iff_forall_ne_some]
    intro m' hround
    obtain ⟨hchoice, hexit, -⟩ := round_eq_some.mp hround
    rw [hscan] at hchoice
    exact hexit hchoice
  · simpa [Listing.step] using (hrep'.cells.mem_iff a).mp ha

/-! ### The main result -/

/-- For any requests whose words suit the prompts, typed as the prompts ask for them, and
whenever there is no memory: after one round for each request the links of the heap lead
through exactly the records the user expects, forward and backward, all has been printed that
the list would have, and the round that is left frees every record. -/
theorem session_refines (outside : ℕ → Outside) (enough : ℕ → Bool)
    (hmemory : ∀ k heap, ((outside k).malloc heap).isSome = enough k) (requests : List Request)
    (hfits : ∀ r ∈ requests, r.Fits) (choice : ℤ) :
    ∃ m nodes, afterRounds (fun k => round (outside k)) requests.length
        (start choice (Catalog.empty.script enough 0 requests)) = some m ∧
      Consistent m.abs nodes ∧
      nodes.map Prod.snd = (Catalog.empty.after enough 0 requests).records ∧
      m.abs.out = (Catalog.empty.after enough 0 requests).out ∧
      EndsCleared (outside requests.length) m (Catalog.empty.after enough 0 requests).out := by
  have hstart : Ready enough 0 (start choice (Catalog.empty.script enough 0 requests)) .empty
      requests := ⟨.empty, .init, rfl, rfl⟩
  obtain ⟨m, hrounds, hready⟩ := hstart.rounds hmemory hfits rfl
  rw [Nat.zero_add] at hrounds hready
  have hlast := hready.last (outside requests.length)
  obtain ⟨l, hrep, hlist, -⟩ := hready
  refine ⟨m, l.nodes, hrounds, hrep.consistent, ?_, ?_, hlast⟩
  · exact congrArg Catalog.records hlist
  · exact hrep.out.trans (congrArg Catalog.out hlist)

/-- Memory behind all that is in use, but none in round 1. -/
def behind (k : ℕ) : Outside where
  malloc heap := if k = 1 then none else some (heap.keys.sum + 1)
  fresh heap new h := by
    obtain ⟨-, hnew⟩ := Option.ite_none_left_eq_some.mp h
    obtain rfl := Option.some.inj hnew
    intro hmem
    have hle := List.single_le_sum (fun _ _ => Nat.zero_le _) _ (AList.mem_keys.mpr hmem)
    omega
  old := blank

/-- The second time there is no memory, and the second deletion finds the directory empty. -/
def annaTwice : List Request :=
  [.add "Anna".toList "Lee".toList "123".toList, .add "Anna".toList "Li".toList "45".toList,
    .search "Anna".toList, .delete "Anna".toList "Lee".toList, .delete "Anna".toList "Li".toList]

theorem session_refines_annaTwice :
    ∃ m nodes, afterRounds (fun k => round (behind k)) 5 (start 0
        "1\nAnna\nLee\n123\n1\nAnna\nLi\n45\n3\nAnna\n2\nAnna\nLee\n2\n6\n".toList) = some m ∧
      Consistent m.abs nodes ∧ nodes = [] ∧
      m.abs.out = [.added 1, .outOfMemory, .searchHeader (filled _ "Anna".toList),
        .row 1 ⟨filled _ "Anna".toList, filled _ "Lee".toList, filled _ "123".toList⟩, .found 1,
        .deleted (filled _ "Anna".toList) (filled _ "Lee".toList), .emptyDirectory] ∧
      EndsCleared (behind 5) m m.abs.out := by
  have hmemory : ∀ k heap, ((behind k).malloc heap).isSome = decide (k ≠ 1) := by
    intro k heap
    by_cases hk : k = 1 <;> simp [behind, hk]
  obtain ⟨m, nodes, hrounds, hlist, hnodes, hout, hlast⟩ :=
    session_refines behind (fun k => decide (k ≠ 1)) hmemory annaTwice (by decide) 0
  rw [← hout] at hlast
  exact ⟨m, nodes, hrounds, hlist, List.map_eq_nil_iff.mp hnodes, hout, hlast⟩

end UnixLessons.Directory
