import UnixLessons.Text.Memory
import UnixLessons.Text.Scanf

/-!
# The directory in an array

Ten records of three fields with ten bytes each, one behind the other in a global array.
The fields are filled by `scanf("%s", …)`, which puts a word and its terminator where it
is told to, however long the word is.

The memory of this model is that array: an access outside it fails.
-/

namespace UnixLessons.ArrayDirectory

open Text

/-- `MAXABONENT`. -/
def maxAbonent : ℕ := 10

/-- `MAX_LENGTH`. -/
def maxLength : ℕ := 10

/-- The fields of a record. -/
inductive Field
  | name
  | secondName
  | tel
deriving DecidableEq

/-- Offset of a field in its record. -/
def Field.offset : Field → ℤ
  | .name => 0
  | .secondName => 10
  | .tel => 20

/-- Address of a field of record `i`. -/
def address (i : ℤ) (f : Field) : ℤ := 30 * i + f.offset

/-- The array and the number of records in use. -/
structure Directory where
  abonents : Memory
  count : ℤ

/-- The directory that `main` starts with. -/
def Directory.init : Directory where
  abonents := .ofBytes (List.replicate (maxAbonent * (3 * maxLength)) nul)
  count := 0

/-- `Clear_abonent` of record `i`. -/
def clearAbonent (i : ℤ) (m : Memory) : Option Memory :=
  (List.range maxLength).foldlM (fun m (j : ℕ) => do
    let m ← m.store (address i .name + j) nul
    let m ← m.store (address i .secondName + j) nul
    m.store (address i .tel + j) nul) m

/-- The loop of `main`, before the menu starts. -/
def clearAbonents (m : Memory) : Option Memory :=
  (List.range maxAbonent).foldlM (fun m (i : ℕ) => clearAbonent i m) m

/-- `scanf("%s", …)` into memory. -/
def scanString (a : ℤ) (m : Memory) (stdin : Stdin) : Option (Memory × Stdin) :=
  match scanWord stdin with
  | (none, rest) => some (m, rest)
  | (some word, rest) => (Memory.storeAll (word ++ [nul]) m a).map (·, rest)

/-- `Add_abonent`. -/
def addAbonent (s : Directory) (stdin : Stdin) : Option (Directory × Stdin) :=
  -- with ten records the function returns before it reads anything
  if maxAbonent ≤ s.count then some (s, stdin)
  else do
    let (m, stdin) ← scanString (address s.count .name) s.abonents stdin
    let (m, stdin) ← scanString (address s.count .secondName) m stdin
    let (m, stdin) ← scanString (address s.count .tel) m stdin
    some (⟨m, s.count + 1⟩, stdin)

def copyByte (dst src : ℤ) (m : Memory) : Option Memory := (m src).bind (m.store dst)

/-- The inner loop of `Delet_abonent`: record `i + 1` to record `i`. -/
def copyAbonent (i : ℤ) (m : Memory) : Option Memory :=
  (List.range (maxLength - 1)).foldlM (fun m (j : ℕ) => do
    let m ← copyByte (address i .name + j) (address (i + 1) .name + j) m
    let m ← copyByte (address i .secondName + j) (address (i + 1) .secondName + j) m
    copyByte (address i .tel + j) (address (i + 1) .tel + j) m) m

/-- `Delet_abonent` with the number that was typed. -/
def deletAbonent (s : Directory) (index : ℤ) : Option Directory :=
  if index < 1 ∨ s.count < index then some s
  else do
    let index := index - 1
    let m ← clearAbonent index s.abonents
    let m ← (List.range (s.count - 1 - index).toNat).foldlM
      (fun m (k : ℕ) => copyAbonent (index + k) m) m
    let m ← clearAbonent (s.count - 1) m
    some ⟨m, s.count - 1⟩

/-! ### What is stored -/

/-- The texts of a record. -/
abbrev Record := Field → CString

/-- The array, all of it and nothing else. -/
def Whole (m : Memory) : Prop := ∀ a, m a ≠ none ↔ 0 ≤ a ∧ a < 300

/-- The directory holds these records, each field as a terminated string. -/
structure Holds (s : Directory) (records : List Record) : Prop where
  count : s.count = records.length
  fields : ∀ (i : ℕ) r, records[i]? = some r → ∀ f, TextAt s.abonents (address i f) (r f)

/-- The last byte of every field of every record, in use or not, is a terminator. -/
def Ended (m : Memory) : Prop :=
  ∀ (i : ℤ) f, 0 ≤ i → i < maxAbonent → m (address i f + 9) = some nul

/-- A directory whose fields all end inside themselves. -/
structure Settled (s : Directory) : Prop where
  whole : Whole s.abonents
  ended : Ended s.abonents
  count_nonneg : 0 ≤ s.count
  count_le : s.count ≤ maxAbonent

/-- What the three calls of `scanf` in `Add_abonent` read; none at the end of the input. -/
def answers (stdin : Stdin) : Field → Option CString
  | .name => (scanWord stdin).1
  | .secondName => (scanWord (scanWord stdin).2).1
  | .tel => (scanWord (scanWord (scanWord stdin).2).2).1

variable {m m' : Memory} {s s' : Directory} {stdin rest : Stdin} {i a : ℤ} {f : Field} {n : ℕ}

/-- A field starts in its record, ten bytes or more before its end. -/
theorem address_bounds (i : ℤ) (f : Field) :
    30 * i ≤ address i f ∧ address i f ≤ 30 * i + 20 ∧ address i f % 10 = 0 := by
  cases f <;> simp only [address, Field.offset] <;> omega

/-! ### Adding -/

/-- What `scanf` stores for an answer. -/
def putAnswer (a : ℤ) (answer : Option CString) (m : Memory) : Option Memory :=
  match answer with
  | none => some m
  | some word => Memory.storeAll (word ++ [nul]) m a

theorem scanString_eq (a : ℤ) (m : Memory) (stdin : Stdin) :
    scanString a m stdin =
      (putAnswer a (scanWord stdin).1 m).map (·, (scanWord stdin).2) := by
  rw [scanString]
  split <;> rename_i hscan <;> rw [hscan] <;> rfl

/-- The three answers are stored one after the other. -/
theorem addAbonent_eq_some (hcount : s.count < maxAbonent) :
    addAbonent s stdin = some (s', rest) ↔ ∃ m₁ m₂ m₃,
      putAnswer (address s.count .name) (answers stdin .name) s.abonents = some m₁ ∧
      putAnswer (address s.count .secondName) (answers stdin .secondName) m₁ = some m₂ ∧
      putAnswer (address s.count .tel) (answers stdin .tel) m₂ = some m₃ ∧
      s' = ⟨m₃, s.count + 1⟩ ∧ rest = (scanWord (scanWord (scanWord stdin).2).2).2 := by
  rw [addAbonent, if_neg (by omega)]
  simp only [scanString_eq, answers, Option.bind_eq_bind, Option.bind_eq_some_iff,
    Option.map_eq_some_iff, Option.some.injEq, Prod.mk.injEq, Prod.exists]
  constructor
  · rintro ⟨_, _, ⟨m₁, h₁, rfl, rfl⟩, _, _, ⟨m₂, h₂, rfl, rfl⟩, _, _, ⟨m₃, h₃, rfl, rfl⟩, hs, hrest⟩
    exact ⟨m₁, m₂, m₃, h₁, h₂, h₃, hs.symm, hrest.symm⟩
  · rintro ⟨m₁, m₂, m₃, h₁, h₂, h₃, rfl, rfl⟩
    exact ⟨m₁, _, ⟨m₁, h₁, rfl, rfl⟩, m₂, _, ⟨m₂, h₂, rfl, rfl⟩, m₃, _, ⟨m₃, h₃, rfl, rfl⟩, rfl,
      rfl⟩

/-! ### The loops -/

/-- The first `n` bytes of the fields of record `i`, in the order of the loops. -/
def cells (i : ℤ) (n : ℕ) : List ℤ :=
  (List.range n).flatMap fun j : ℕ =>
    [address i .name + j, address i .secondName + j, address i .tel + j]

theorem mem_cells (hn : n ≤ 10) :
    a ∈ cells i n ↔ 30 * i ≤ a ∧ a < 30 * i + 30 ∧ (a - 30 * i) % 10 < n := by
  simp only [cells, address, Field.offset, List.mem_flatMap, List.mem_range, List.mem_cons,
    List.not_mem_nil, or_false]
  constructor
  · rintro ⟨j, hj, rfl | rfl | rfl⟩ <;> omega
  · rintro ⟨hlow, hhigh, hbyte⟩
    exact ⟨((a - 30 * i) % 10).toNat, by omega, by omega⟩

/-- A loop over loops is one loop. -/
theorem foldlM_flatMap {α β σ : Type} (f : σ → β → Option σ) (g : α → List β) (l : List α) (s : σ) :
    (l.flatMap g).foldlM f s = l.foldlM (fun s x => (g x).foldlM f s) s := by
  induction l generalizing s with
  | nil => rfl
  | cons x l ih =>
    rw [List.flatMap_cons, List.foldlM_append, List.foldlM_cons]
    exact bind_congr fun s => ih s

theorem clearAbonent_eq (i : ℤ) (m : Memory) :
    clearAbonent i m = (cells i maxLength).foldlM (fun m a => m.store a nul) m := by
  rw [cells, foldlM_flatMap, clearAbonent]
  simp only [List.foldlM_cons, List.foldlM_nil, bind_pure]

theorem copyAbonent_eq (i : ℤ) (m : Memory) :
    copyAbonent i m =
      (cells i (maxLength - 1)).foldlM (fun m a => (m (a + 30)).bind (m.store a)) m := by
  have hnext : ∀ f (j : ℕ), address (i + 1) f + j = address i f + j + 30 := by
    intro f j
    rw [address, address]
    omega
  rw [cells, foldlM_flatMap, copyAbonent]
  simp only [List.foldlM_cons, List.foldlM_nil, bind_pure, copyByte, hnext]

end UnixLessons.ArrayDirectory
