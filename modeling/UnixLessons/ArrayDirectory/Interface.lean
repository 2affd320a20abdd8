import UnixLessons.ArrayDirectory.Comparison
import UnixLessons.ArrayDirectory.Deleting
import UnixLessons.Transition.Loop

/-!
# The menu of the array directory

Here a round reads the number of a function and nothing else. Text that is no number stays
in the input, and the function of the round before is called once more. Adding and searching
read words, deleting and printing do not.

## Main results

* `ends_iff`: the menu ends exactly if every round has something to read, or it is stopped
* `not_ends_of_sound`: an array that is whole does not keep it from going on for ever
-/

namespace UnixLessons.ArrayDirectory

open Text Transition

/-! ### Printing and searching -/

/-- The string that `%s` prints; none if it goes on behind the array. -/
def readString (m : Memory) : ℕ → ℤ → Option CString
  | 0, _ => none
  | fuel + 1, a => do
    let c ← m a
    if c = nul then some [] else (readString m fuel (a + 1)).map (c :: ·)

/-- Size of the array. -/
def size : ℕ := maxAbonent * (3 * maxLength)

/-- The row of record `i`. -/
def row (m : Memory) (i : ℤ) : Option Record := do
  let name ← readString m size (address i .name)
  let secondName ← readString m size (address i .secondName)
  let tel ← readString m size (address i .tel)
  some fun
    | .name => name
    | .secondName => secondName
    | .tel => tel

/-- `Print_abonent`: the rows it prints. -/
def printAbonent (s : Directory) : Option (List Record) :=
  (List.range s.count.toNat).foldlM (fun rows (i : ℕ) =>
    (row s.abonents i).map (rows ++ [·])) []

/-- The loop of `Search_abonents`: the rows it prints. -/
def searchAbonents (s : Directory) (searchName : CString) : Option (List Record) :=
  (List.range s.count.toNat).foldlM (fun rows (i : ℕ) => do
    let equal ← strEQ (some fun k => s.abonents (address i .name + k)) (some (charAt searchName))
    if equal = 0 then some rows else (row s.abonents i).map (rows ++ [·])) []

/-- `scanf("%s", search_name)`; none if the word does not fit the array. -/
def scanName (old : CharArray maxLength) (stdin : Stdin) : Option (CString × Stdin) :=
  match scanWord stdin with
  | (none, rest) => some (old.text, rest)
  | (some word, rest) => if word.length < maxLength then some (cstr word, rest) else none

/-! ### The loop -/

/-- What a call has made of the array and of the count that may stand behind it, and the rows
it has printed. -/
structure Aftermath where
  abonents : Memory
  whole : Whole abonents
  count : ℤ
  rows : List Record

/-- What the variables of the functions hold before something is read into them, and what
becomes of a call that writes or reads outside an array: none if the program is stopped there.
The language leaves it open, and a word one byte too long changes nothing that is used. -/
structure Outside where
  index : ℤ
  searchName : CharArray maxLength
  beyond : Option Aftermath

/-- The variables of `Interface`, the rest of the input and the rows printed so far. -/
structure Menu where
  dir : Directory
  number : ℤ
  stdin : Stdin
  out : List Record

/-- The start of `Interface`, which leaves `number` as it is. -/
def start (number : ℤ) (stdin : Stdin) : Menu := ⟨.init, number, stdin, []⟩

/-- The function of a number from 1 to 4, and the rows it prints. -/
def perform (outside : Outside) (number : ℤ) (dir : Directory) (stdin : Stdin) :
    Option (Directory × Stdin × List Record) :=
  if number = 1 then (addAbonent dir stdin).map fun (dir, stdin) => (dir, stdin, [])
  else if number = 2 then
    let (index, stdin) := scanNumber stdin
    (deletAbonent dir (index.getD outside.index)).map (·, stdin, [])
  else if number = 3 then do
    let (searchName, stdin) ← scanName outside.searchName stdin
    (searchAbonents dir searchName).map (dir, stdin, ·)
  else (printAbonent dir).map (dir, stdin, ·)

/-- What a function leaves of the input, inside the arrays or not. -/
def consume (number count : ℤ) (stdin : Stdin) : Stdin :=
  if number = 1 then
    if maxAbonent ≤ count then stdin else (scanWord (scanWord (scanWord stdin).2).2).2
  else if number = 2 then (scanNumber stdin).2
  else if number = 3 then (scanWord stdin).2
  else stdin

/-- One round of the loop in `Interface`; none if it is the last one, or if the program is
stopped. -/
def round (outside : Outside) (s : Menu) : Option Menu :=
  let (number, stdin) := scanNumber s.stdin
  -- `scanf` may have stored nothing
  let number := number.getD s.number
  let number := if number < 1 ∨ 5 < number then 5 else number
  if number = 5 then none
  else match perform outside number s.dir stdin with
    | some (dir, stdin, rows) => some ⟨dir, number, stdin, s.out ++ rows⟩
    -- outside an array; `number` is behind the address the function returns to
    | none => outside.beyond.map fun after =>
      ⟨⟨after.abonents, after.count⟩, number, consume number s.dir.count stdin,
        s.out ++ after.rows⟩

/-- The menu reads a number, or the number is none of a function, or the function of that
number reads a word. -/
def Moves (s : Menu) : Prop :=
  NumberNext s.stdin ∨ (s.number < 1 ∨ 4 < s.number) ∨
  HasWord s.stdin ∧ (s.number = 3 ∨ s.number = 1 ∧ s.dir.count < maxAbonent)

/-- The number a round works with. -/
def chosen (s : Menu) : ℤ :=
  let number := (scanNumber s.stdin).1.getD s.number
  if number < 1 ∨ 5 < number then 5 else number

/-- The call of the round goes outside an array, and the program does not outlive it. -/
def Stopped (outside : Outside) (s : Menu) : Prop :=
  chosen s ≠ 5 ∧ perform outside (chosen s) s.dir (scanNumber s.stdin).2 = none ∧
    outside.beyond = none

/-- The array is whole and ends with a terminator. -/
structure Sound (s : Directory) : Prop where
  whole : Whole s.abonents
  last : s.abonents 299 = some nul
  count_nonneg : 0 ≤ s.count
  count_le : s.count ≤ maxAbonent

variable {m m' : Memory} {s s' : Directory} {a : ℤ} {stdin rest : Stdin} {outside : Outside}
  {number index : ℤ} {rows : List Record} {t t' : Menu}

/-! ### Reading the array -/

/-- A string ends with the array at the latest. -/
theorem exists_readString (hwhole : Whole m) (hlast : m 299 = some nul) (ha : 0 ≤ a) {fuel : ℕ}
    (ha' : a ≤ 299) (hfuel : 299 < a + fuel) : ∃ text, readString m fuel a = some text := by
  induction fuel generalizing a with
  | zero => omega
  | succ fuel ih =>
    obtain ⟨c, hc⟩ := Option.ne_none_iff_exists'.mp ((hwhole a).mpr ⟨ha, by omega⟩)
    rw [readString, hc, Option.bind_eq_bind, Option.bind_some]
    by_cases hnul : c = nul
    · exact ⟨[], if_pos hnul⟩
    · have hne : a ≠ 299 := by
        rintro rfl
        exact hnul (Option.some.inj (hc.symm.trans hlast))
      obtain ⟨text, htext⟩ := @ih (a + 1) (by omega) (by omega) (by omega)
      exact ⟨c :: text, by rw [if_neg hnul, htext, Option.map_some]⟩

theorem exists_row (h : Sound s) {i : ℕ} (hi : i < s.count.toNat) :
    ∃ r, row s.abonents i = some r := by
  have hten : maxAbonent = 10 := rfl
  have hsize : size = 300 := rfl
  have hle := h.count_le
  have htext : ∀ f, ∃ text, readString s.abonents size (address i f) = some text := by
    intro f
    have haddress := address_bounds i f
    exact exists_readString h.whole h.last (by omega) (by omega) (by omega)
  obtain ⟨name, hname⟩ := htext .name
  obtain ⟨secondName, hsecond⟩ := htext .secondName
  obtain ⟨tel, htel⟩ := htext .tel
  exact ⟨_, by rw [row, hname, hsecond, htel]; rfl⟩

/-- A loop none of whose rounds fails. -/
theorem exists_foldlM {α β : Type} {f : β → α → Option β} {l : List α}
    (h : ∀ x ∈ l, ∀ b, ∃ b', f b x = some b') (b : β) : ∃ b', l.foldlM f b = some b' := by
  induction l generalizing b with
  | nil => exact ⟨b, rfl⟩
  | cons x l ih =>
    obtain ⟨c, hc⟩ := h x List.mem_cons_self b
    obtain ⟨d, hd⟩ := ih (fun y hy => h y (List.mem_cons_of_mem x hy)) c
    exact ⟨d, by rw [List.foldlM_cons, hc]; exact hd⟩

theorem exists_printAbonent (h : Sound s) : ∃ rows, printAbonent s = some rows := by
  refine exists_foldlM (fun i hi rows => ?_) []
  obtain ⟨r, hr⟩ := exists_row h (List.mem_range.mp hi)
  exact ⟨rows ++ [r], by rw [hr, Option.map_some]⟩

theorem exists_searchAbonents (h : Sound s) {name : CString} (hname : name.length < maxLength) :
    ∃ rows, searchAbonents s name = some rows := by
  have hten : maxAbonent = 10 := rfl
  have hmax : maxLength = 10 := rfl
  have hle := h.count_le
  refine exists_foldlM (fun i hi rows => ?_) []
  have hcount := List.mem_range.mp hi
  have haddress := address_bounds i .name
  obtain ⟨equal, hequal⟩ := exists_strEQ h.whole h.last (a := address i .name) (by omega)
    (by omega) (show name.length < 128 by omega)
  obtain ⟨r, hr⟩ := exists_row h hcount
  rw [hequal, hr, Option.bind_eq_bind, Option.bind_some]
  split_ifs
  · exact ⟨rows, rfl⟩
  · exact ⟨rows ++ [r], rfl⟩

/-! ### Adding and deleting -/

theorem sound_init : Sound Directory.init where
  whole := whole_init
  last := settled_init.ended 9 .tel (by decide) (by decide)
  count_nonneg := le_rfl
  count_le := by decide

/-- A word that ends with the array puts its terminator there. -/
theorem last_putAnswer {answer : Option CString} (hwhole : Whole m) (hlast : m 299 = some nul)
    (h : putAnswer a answer m = some m') : m' 299 = some nul := by
  cases answer with
  | none => rwa [← Option.some.inj h]
  | some word =>
    obtain ⟨hmapped, rfl⟩ := Memory.storeAll_eq_some.mp h
    have hend := (hwhole _).mp (hmapped word.length (by simp))
    rcases eq_or_ne (a + word.length) 299 with heq | hne
    · rw [← heq, Memory.overwrite_add (by simp), List.getElem?_concat_length]
    · rwa [Memory.overwrite_of_lt]
      rw [List.length_append, List.length_singleton]
      omega

theorem Sound.addAbonent (h : Sound s) (hadd : addAbonent s stdin = some (s', rest)) :
    Sound s' := by
  have hnonneg := h.count_nonneg
  by_cases hcount : s.count < maxAbonent
  · have hwhole := h.whole.addAbonent hadd
    obtain ⟨m₁, m₂, m₃, h₁, h₂, h₃, rfl, -⟩ := (addAbonent_eq_some hcount).mp hadd
    have hwhole₁ := h.whole.putAnswer h₁
    have hlast₁ := last_putAnswer h.whole h.last h₁
    have hlast₂ := last_putAnswer hwhole₁ hlast₁ h₂
    exact ⟨hwhole, last_putAnswer (hwhole₁.putAnswer h₂) hlast₂ h₃,
      Int.add_nonneg hnonneg (by decide), Int.add_one_le_of_lt hcount⟩
  · rw [ArrayDirectory.addAbonent, if_pos (by omega)] at hadd
    obtain rfl := (Prod.mk.inj (Option.some.inj hadd)).1
    exact h

/-- Whatever index is found, the deletion goes through. -/
theorem Sound.deletAbonent (h : Sound s) (index : ℤ) :
    ∃ s', deletAbonent s index = some s' ∧ Sound s' := by
  have hle := h.count_le
  by_cases hindex : index < 1 ∨ s.count < index
  · exact ⟨s, if_pos hindex, h⟩
  · have hlow : 1 ≤ index := by omega
    have hhigh : index ≤ s.count := by omega
    obtain ⟨n, hlast, hdelete⟩ := deletAbonent_eq_cleared h.whole hle hlow hhigh
    refine ⟨_, hdelete, ?_, ?_, ?_, ?_⟩
    · exact ((h.whole.cleared (by omega) (by omega)).copied (by omega) (by omega)).cleared
        (by omega) (by omega)
    · simp [cleared, copied, h.last]
    · change 0 ≤ s.count - 1
      omega
    · change s.count - 1 ≤ maxAbonent
      omega

/-! ### The functions of the menu -/

theorem scanName_rest {old : CharArray maxLength} {name : CString}
    (h : scanName old stdin = some (name, rest)) : rest = (scanWord stdin).2 := by
  rw [scanName] at h
  split at h <;> rename_i hscan
  · rw [hscan, (Prod.mk.inj (Option.some.inj h)).2]
  · obtain ⟨-, heq⟩ := Option.ite_none_right_eq_some.mp h
    rw [hscan, (Prod.mk.inj (Option.some.inj heq)).2]

theorem addAbonent_rest (hadd : addAbonent s stdin = some (s', rest)) :
    rest = if maxAbonent ≤ s.count then stdin
      else (scanWord (scanWord (scanWord stdin).2).2).2 := by
  by_cases hcount : s.count < maxAbonent
  · obtain ⟨_, _, _, -, -, -, -, rfl⟩ := (addAbonent_eq_some hcount).mp hadd
    rw [if_neg (by omega)]
  · rw [ArrayDirectory.addAbonent, if_pos (by omega)] at hadd
    obtain ⟨-, rfl⟩ := Prod.mk.inj (Option.some.inj hadd)
    rw [if_pos (by omega)]

/-- A full directory takes no record. -/
theorem perform_full (outside : Outside) (hfull : maxAbonent ≤ s.count) :
    perform outside 1 s stdin = some (s, stdin, []) := by
  rw [perform, if_pos rfl, ArrayDirectory.addAbonent, if_pos hfull]
  rfl

/-- A call inside the arrays reads like any other. -/
theorem perform_consumes (hperform : perform outside number s stdin = some (s', rest, rows)) :
    rest = consume number s.count stdin := by
  unfold perform at hperform
  unfold consume
  split_ifs at hperform ⊢ with hadd hfull hdelete hsearch
  · simp only [Option.map_eq_some_iff, Prod.exists, Prod.mk.injEq] at hperform
    obtain ⟨_, _, hcall, -, rfl, -⟩ := hperform
    rw [addAbonent_rest hcall, if_pos hfull]
  · simp only [Option.map_eq_some_iff, Prod.exists, Prod.mk.injEq] at hperform
    obtain ⟨_, _, hcall, -, rfl, -⟩ := hperform
    rw [addAbonent_rest hcall, if_neg hfull]
  · simp only [Option.map_eq_some_iff, Prod.mk.injEq] at hperform
    obtain ⟨_, -, -, rfl, -⟩ := hperform
    rfl
  · simp only [Option.bind_eq_bind, Option.bind_eq_some_iff, Option.map_eq_some_iff, Prod.exists,
      Prod.mk.injEq] at hperform
    obtain ⟨name, _, hname, _, -, -, rfl, -⟩ := hperform
    rw [scanName_rest hname]
  · simp only [Option.map_eq_some_iff, Prod.mk.injEq] at hperform
    obtain ⟨_, -, -, rfl, -⟩ := hperform
    rfl

/-- What is left is no more than there was, and less if a word is read. -/
theorem length_consume (number count : ℤ) (stdin : Stdin) :
    (consume number count stdin).length ≤ stdin.length ∧
      (HasWord stdin → number = 3 ∨ number = 1 ∧ count < maxAbonent →
        (consume number count stdin).length < stdin.length) := by
  have hfirst := length_scanWord_le stdin
  have hsecond := length_scanWord_le (scanWord stdin).2
  have hthird := length_scanWord_le (scanWord (scanWord stdin).2).2
  unfold consume
  split_ifs with hadd hfull hdelete hsearch
  · exact ⟨le_rfl, fun _ hnumber => by omega⟩
  · refine ⟨by omega, fun hword _ => ?_⟩
    have hless := length_scanWord_lt hword
    omega
  · exact ⟨length_scanNumber_le stdin, fun _ hnumber => by omega⟩
  · exact ⟨hfirst, fun hword _ => length_scanWord_lt hword⟩
  · exact ⟨le_rfl, fun _ hnumber => by omega⟩

/-- A function that finds nothing to read leaves nothing to read. If there is a word all the
same, it is none that reads words, or the directory is full. -/
theorem consume_stuck {count : ℤ} (hnext : ¬ NumberNext stdin)
    (hword : HasWord stdin → ¬ (number = 3 ∨ number = 1 ∧ count < maxAbonent)) :
    ¬ NumberNext (consume number count stdin) ∧
      (HasWord (consume number count stdin) →
        number ≠ 3 ∧ (number = 1 → maxAbonent ≤ count)) := by
  have hnone : ¬ HasWord [] := by simp [HasWord]
  have hend : ¬ NumberNext [] := by simp [NumberNext, skipSpace]
  have hskip : ¬ NumberNext (skipSpace stdin) := mt numberNext_skipSpace.mp hnext
  unfold consume
  split_ifs with hadd hfull hdelete hsearch
  · exact ⟨hnext, fun _ => ⟨by omega, fun _ => hfull⟩⟩
  · -- at the end of the input a record is added all the same
    have hblank : ¬ HasWord stdin := fun h => hword h (by omega)
    have hnil : scanWord [] = (none, []) := rfl
    simp only [scanWord_of_not_hasWord hblank, hnil]
    exact ⟨hend, fun h => absurd h hnone⟩
  · rw [scanNumber_of_not hnext]
    exact ⟨hskip, fun _ => by omega⟩
  · have hblank : ¬ HasWord stdin := fun h => hword h (by omega)
    rw [scanWord_of_not_hasWord hblank]
    exact ⟨hend, fun h => absurd h hnone⟩
  · exact ⟨hnext, fun _ => by omega⟩

theorem addAbonent_blank (hblank : ¬ HasWord stdin) (hcount : s.count < maxAbonent) :
    addAbonent s stdin = some (⟨s.abonents, s.count + 1⟩, []) := by
  have hscan := scanWord_of_not_hasWord hblank
  have hnil : scanWord [] = (none, []) := rfl
  have hanswers : ∀ f, answers stdin f = none := by
    intro f
    cases f <;> simp only [answers, hscan, hnil]
  have hput : ∀ f a, putAnswer a (answers stdin f) s.abonents = some s.abonents := by
    intro f a
    rw [hanswers]
    rfl
  have hrest : (scanWord (scanWord (scanWord stdin).2).2).2 = [] := by
    simp only [hscan, hnil]
  exact (addAbonent_eq_some hcount).mpr
    ⟨s.abonents, s.abonents, s.abonents, hput _ _, hput _ _, hput _ _, rfl, hrest.symm⟩

/-- A function that finds nothing to read stays inside a whole array. -/
theorem perform_blank (outside : Outside) (h : Sound s) (hnext : ¬ NumberNext stdin)
    (hword : HasWord stdin → ¬ (number = 3 ∨ number = 1 ∧ s.count < maxAbonent)) :
    ∃ s' rest rows, perform outside number s stdin = some (s', rest, rows) ∧ Sound s' := by
  unfold perform
  split_ifs with hadd hdelete hsearch
  · by_cases hcount : s.count < maxAbonent
    · have hblank : ¬ HasWord stdin := fun h => hword h (.inr ⟨hadd, hcount⟩)
      have hgrown := addAbonent_blank hblank hcount
      rw [hgrown]
      exact ⟨_, _, _, rfl, h.addAbonent hgrown⟩
    · rw [ArrayDirectory.addAbonent, if_pos (by omega)]
      exact ⟨_, _, _, rfl, h⟩
  · obtain ⟨s', hdeletion, hsound⟩ := h.deletAbonent outside.index
    simp only [scanNumber_of_not hnext, Option.getD_none, hdeletion]
    exact ⟨_, _, _, rfl, hsound⟩
  · have hblank : ¬ HasWord stdin := fun h => hword h (.inl hsearch)
    obtain ⟨rows, hrows⟩ := exists_searchAbonents h outside.searchName.length_lt
    simp only [scanName, scanWord_of_not_hasWord hblank, Option.bind_eq_bind, Option.bind_some,
      hrows]
    exact ⟨_, _, _, rfl, h⟩
  · obtain ⟨rows, hrows⟩ := exists_printAbonent h
    rw [hrows]
    exact ⟨_, _, _, rfl, h⟩

/-! ### The rounds -/

theorem round_eq : round outside t = if chosen t = 5 then none
    else match perform outside (chosen t) t.dir (scanNumber t.stdin).2 with
      | some (dir, stdin, rows) => some ⟨dir, chosen t, stdin, t.out ++ rows⟩
      | none => outside.beyond.map fun after =>
        ⟨⟨after.abonents, after.count⟩, chosen t,
          consume (chosen t) t.dir.count (scanNumber t.stdin).2, t.out ++ after.rows⟩ := rfl

theorem round_of_chosen (h : chosen t = 5) : round outside t = none := by
  rw [round_eq, if_pos h]

/-- A round inside the arrays. -/
theorem round_of_perform (hgoes : chosen t ≠ 5)
    (h : perform outside (chosen t) t.dir (scanNumber t.stdin).2 = some (s, rest, rows)) :
    round outside t = some ⟨s, chosen t, rest, t.out ++ rows⟩ := by
  rw [round_eq, if_neg hgoes, h]

/-- What a round does besides printing and storing. -/
theorem round_spec (hround : round outside t = some t') :
    chosen t ≠ 5 ∧ t'.number = chosen t ∧
      t'.stdin = consume (chosen t) t.dir.count (scanNumber t.stdin).2 ∧
      (chosen t = 1 → maxAbonent ≤ t.dir.count → t'.dir = t.dir) := by
  rw [round_eq] at hround
  obtain ⟨hgoes, hcall⟩ := Option.ite_none_left_eq_some.mp hround
  refine ⟨hgoes, ?_⟩
  split at hcall
  · rename_i hperform
    obtain rfl := Option.some.inj hcall
    refine ⟨rfl, perform_consumes hperform, fun hadd hfull => ?_⟩
    rw [hadd, perform_full outside hfull] at hperform
    exact (Prod.mk.inj (Option.some.inj hperform)).1.symm
  · rename_i hperform
    obtain ⟨after, -, rfl⟩ := Option.map_eq_some_iff.mp hcall
    refine ⟨rfl, rfl, fun hadd hfull => ?_⟩
    rw [hadd, perform_full outside hfull] at hperform
    cases hperform

theorem Stopped.round (h : Stopped outside t) : round outside t = none := by
  obtain ⟨hgoes, hperform, hbeyond⟩ := h
  rw [round_eq, if_neg hgoes, hperform, hbeyond]
  rfl

/-- Only the last round and one that is stopped have no next state. -/
theorem exists_round (hgoes : chosen t ≠ 5) (h : ¬ Stopped outside t) :
    ∃ t', ArrayDirectory.round outside t = some t' := by
  rw [round_eq, if_neg hgoes]
  split
  · exact ⟨_, rfl⟩
  · rename_i hperform
    obtain ⟨after, hafter⟩ := Option.ne_none_iff_exists'.mp fun hbeyond =>
      h ⟨hgoes, hperform, hbeyond⟩
    exact ⟨_, by rw [hafter, Option.map_some]⟩

theorem round_left (hmoves : Moves t) (hround : round outside t = some t') :
    t'.stdin.length < t.stdin.length := by
  obtain ⟨hgoes, -, hrest, -⟩ := round_spec hround
  obtain ⟨hle, hless⟩ := length_consume (chosen t) t.dir.count (scanNumber t.stdin).2
  rw [hrest]
  by_cases hnext : NumberNext t.stdin
  · exact hle.trans_lt (length_scanNumber_lt hnext)
  · have hscan := scanNumber_of_not hnext
    have hskip := length_skipSpace_le t.stdin
    have hchosen : chosen t = if t.number < 1 ∨ 5 < t.number then 5 else t.number := by
      rw [chosen, hscan]
      rfl
    rcases hmoves with hnumber | hnone | ⟨hword, hreads⟩
    · exact absurd hnumber hnext
    · -- a number that is none of a function ends the loop
      rw [hchosen] at hgoes
      split at hgoes <;> omega
    · have hsame : chosen t = t.number := by rw [hchosen, if_neg (by omega)]
      rw [hscan] at hless ⊢
      refine (hless (hasWord_skipSpace.mpr hword) ?_).trans_le hskip
      rwa [hsame]

/-- The function of the round before is called, and it finds nothing to read. -/
theorem chosen_of_not_moves (hstuck : ¬ Moves t) :
    chosen t = t.number ∧ chosen t ≠ 5 ∧ ¬ NumberNext (scanNumber t.stdin).2 ∧
      (HasWord (scanNumber t.stdin).2 →
        ¬ (chosen t = 3 ∨ chosen t = 1 ∧ t.dir.count < maxAbonent)) := by
  rw [Moves, not_or, not_or, not_and] at hstuck
  obtain ⟨hnext, hnumber, hword⟩ := hstuck
  have hscan := scanNumber_of_not hnext
  have hchosen : chosen t = t.number := by
    rw [chosen, hscan]
    exact if_neg (by simp only [Option.getD_none]; omega)
  refine ⟨hchosen, by omega, ?_, fun hleft => ?_⟩
  · rw [hscan]
    exact mt numberNext_skipSpace.mp hnext
  · rw [hscan] at hleft
    rw [hchosen]
    exact hword (hasWord_skipSpace.mp hleft)

/-- A round that has found nothing to read leaves nothing to read. -/
theorem not_moves_round (hstuck : ¬ Moves t) (hround : round outside t = some t') :
    ¬ Moves t' := by
  obtain ⟨hsame, hgoes, hnext, hword⟩ := chosen_of_not_moves hstuck
  obtain ⟨-, hnumber, hcall, hfull⟩ := round_spec hround
  obtain ⟨hrest, hnot⟩ := consume_stuck hnext hword
  rw [← hcall] at hrest hnot
  rw [Moves, not_or, not_or, not_and] at hstuck ⊢
  rw [hnumber]
  refine ⟨hrest, hsame ▸ hstuck.2.1, fun hleft => ?_⟩
  obtain ⟨hsearch, hadd⟩ := hnot hleft
  rintro (heq | ⟨heq, hless⟩)
  · exact hsearch heq
  -- a full directory has not changed
  · have hcount := hadd heq
    rw [hfull heq hcount] at hless
    omega

/-- The menu ends exactly if every round has something to read or ends the loop, or if the
program is stopped because a call has gone outside an array. -/
theorem ends_iff (outside : ℕ → Outside) (number : ℤ) (stdin : Stdin) :
    Ends (fun k => round (outside k)) (start number stdin) ↔
      (∀ k t, afterRounds (fun k => round (outside k)) k (start number stdin) = some t →
        Moves t) ∨
      ∃ k t, afterRounds (fun k => round (outside k)) k (start number stdin) = some t ∧
        Stopped (outside k) t := by
  have hstuck : ∀ ⦃k : ℕ⦄ ⦃t : Menu⦄, True → ¬ Stopped (outside k) t → ¬ Moves t →
      ∃ t', round (outside k) t = some t' ∧ ¬ Moves t' := by
    intro k t _ hgoes hstuck
    obtain ⟨t', hround⟩ := exists_round (chosen_of_not_moves hstuck).2.1 hgoes
    exact ⟨t', hround, not_moves_round hstuck hround⟩
  have hleft : ∀ ⦃k : ℕ⦄ ⦃t t' : Menu⦄, True → ¬ ¬ Moves t → round (outside k) t = some t' →
      t'.stdin.length < t.stdin.length :=
    fun _ _ _ _ hmoves => round_left (not_not.mp hmoves)
  have hiff := ends_iff_or (fun _ _ _ _ _ => trivial) (fun k _ h => Stopped.round h) hstuck hleft
    (trivial : True) (s := start number stdin)
  simpa only [not_not] using hiff

/-- A round that finds nothing to read, on an array that is whole, is repeated for ever, whatever
is outside. -/
theorem not_ends_of_sound {outside : ℕ → Outside} {u : Menu} {k : ℕ} (h : Sound t.dir)
    (hstuck : ¬ Moves t)
    (hrounds : afterRounds (fun k => round (outside k)) k u = some t) :
    ¬ Ends (fun k => round (outside k)) u := by
  refine @not_ends _ _ u t k (fun t => Sound t.dir ∧ ¬ Moves t) ?_ ⟨h, hstuck⟩ hrounds
  rintro n v - ⟨hsound, hnot⟩
  obtain ⟨-, hgoes, hnext, hword⟩ := chosen_of_not_moves hnot
  obtain ⟨s, rest, rows, hperform, hkept⟩ := perform_blank (outside n) hsound hnext hword
  have hround := round_of_perform hgoes hperform
  exact ⟨_, hround, hkept, not_moves_round hnot hround⟩

end UnixLessons.ArrayDirectory
