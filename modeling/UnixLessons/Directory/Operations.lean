import UnixLessons.Directory.Abonent
import UnixLessons.Heap.DoublyLinked
import UnixLessons.Transition.Run

/-!
# The subscriber directory

Records are kept in a doubly linked list with a head, a tail and a counter. Every
function works statement by statement on the heap; it fails when it follows or
frees a pointer to no cell, or when a loop goes on for longer than the heap has
cells. What was typed and the outcome of `malloc` come with the command.
-/

namespace UnixLessons.Directory

open Text Linked

/-- What the program prints, without prompts and frames. -/
inductive Line
  | outOfMemory
  | added (count : ℤ)
  | emptyDirectory
  | notFound
  | deleted (name secondName : CharArray maxStr)
  | searchHeader (name : CharArray maxStr)
  | searchNone (name : CharArray maxStr)
  | found (count : ℤ)
  | allHeader (count : ℤ)
  | reverseHeader (count : ℤ)
  | row (number : ℤ) (abonent : Abonent)
  | cleared
deriving DecidableEq

/-- The heap, the list's own three fields and the output so far. The counter is an `int` of the
source that counts the records in memory. It does not overflow: 2^31 records take up 96 GiB and
more. -/
structure Abonents where
  heap : Heap Abonent
  head : Option ℕ
  tail : Option ℕ
  count : ℤ
  out : List Line

namespace Abonents

/-- The directory `main` starts with. -/
def init : Abonents := ⟨∅, none, none, 0, []⟩

/-- Print one more line. -/
def print (s : Abonents) (l : Line) : Abonents := { s with out := s.out ++ [l] }

/-- Rounds a loop over distinct cells makes at most, the last one included. -/
def rounds (s : Abonents) : ℕ := s.heap.keys.length + 1

end Abonents

/-- Allocate and fill a record, linked to nothing; no address when `malloc`
fails. -/
def createAbonent (s : Abonents) (memory : Option ℕ) (name secondName : CharArray maxStr)
    (tel : CharArray maxNumber) : Abonents × Option ℕ :=
  match memory with
  | none => (s.print .outOfMemory, none)
  | some new =>
    ({ s with heap := s.heap.insert new ⟨contents name secondName tel, none, none⟩ }, some new)

/-- Link a record behind the last one. -/
def append (s : Abonents) (new : ℕ) : Option Abonents :=
  match s.head with
  | none => some { s with head := some new, tail := some new }
  | some _ => do
    let tail ← s.tail
    let heap ← modify s.heap tail fun c => { c with next := some new }
    let heap ← modify heap new fun c => { c with prev := some tail }
    some { s with heap, tail := some new }

def addAbonent (s : Abonents) (memory : Option ℕ) (name secondName : CharArray maxStr)
    (tel : CharArray maxNumber) : Option Abonents :=
  match createAbonent s memory name secondName tel with
  | (s, none) => some s
  | (s, some new) =>
    (append s new).map fun s =>
      { s with count := s.count + 1, out := s.out ++ [.added (s.count + 1)] }

/-- The test of the search loop: the second name is compared only when the first
one is equal. -/
def matchesNames (name secondName : CharArray maxStr) (a : Abonent) : Option Bool := do
  let same ← sameName a.name name
  if same then sameName a.secondName secondName else some false

/-- Point the neighbours of a record at each other, or the head or the tail past
it. -/
def unlink (s : Abonents) (current : ℕ) : Option Abonents := do
  let cell ← s.heap.lookup current
  let heap ← linkNext s.heap cell.prev cell.next
  let head := if cell.prev.isSome then s.head else cell.next
  let cell ← heap.lookup current
  let heap ← linkPrev heap cell.next cell.prev
  let tail := if cell.next.isSome then s.tail else cell.prev
  some { s with heap, head, tail }

def deleteAbonent (s : Abonents) (name secondName : CharArray maxStr) : Option Abonents :=
  if s.count = 0 then some (s.print .emptyDirectory)
  else do
    match ← findLink (matchesNames name secondName) s.heap s.rounds s.head with
    | none => some (s.print .notFound)
    | some current =>
      let s ← unlink s current
      let cell ← s.heap.lookup current
      let heap ← free s.heap current
      some { s with
        heap, count := s.count - 1
        out := s.out ++ [.deleted cell.value.name cell.value.secondName] }

/-- One round of the search loop: rows are numbered and counted as they match. -/
def searchRound (name : CharArray maxStr) (acc : ℤ × ℤ × List Line) (a : Abonent) :
    Option (ℤ × ℤ × List Line) :=
  (sameName a.name name).map fun same =>
    if same then (acc.1 + 1, acc.2.1 + 1, acc.2.2 ++ [.row (acc.1 + 1) a]) else acc

def searchByName (s : Abonents) (name : CharArray maxStr) : Option Abonents :=
  if s.count = 0 then some (s.print .emptyDirectory)
  else do
    let (_, foundCount, out) ←
      foldLinks Cell.next (searchRound name) s.heap s.rounds s.head
        (0, 0, s.out ++ [.searchHeader name])
    some { s with
      out := out ++ [if foundCount = 0 then .searchNone name else .found foundCount] }

/-- One round of a display loop. -/
def displayRound (acc : ℤ × List Line) (a : Abonent) : Option (ℤ × List Line) :=
  some (acc.1 + 1, acc.2 ++ [.row (acc.1 + 1) a])

/-- A display along one of the links. -/
def display (s : Abonents) (header : Line) (link : Cell Abonent → Option ℕ)
    (start : Option ℕ) : Option Abonents :=
  if s.count = 0 then some (s.print .emptyDirectory)
  else do
    let (_, out) ← foldLinks link displayRound s.heap s.rounds start (0, s.out ++ [header])
    some { s with out }

def displayAll (s : Abonents) : Option Abonents :=
  display s (.allHeader s.count) Cell.next s.head

def displayAllReverse (s : Abonents) : Option Abonents :=
  display s (.reverseHeader s.count) Cell.prev s.tail

def clearDirectory (s : Abonents) : Option Abonents :=
  (freeLinks s.heap s.rounds s.head).map fun heap =>
    { s with heap, head := none, tail := none, count := 0, out := s.out ++ [.cleared] }

/-- A call of one of the functions, with what is typed and the address `malloc`
finds. -/
inductive Op
  | add (memory : Option ℕ) (name secondName : CharArray maxStr) (tel : CharArray maxNumber)
  | delete (name secondName : CharArray maxStr)
  | search (name : CharArray maxStr)
  | displayAll
  | displayAllReverse
  | clear

/-- One call. -/
def step (s : Abonents) : Op → Option Abonents
  | .add memory name secondName tel => addAbonent s memory name secondName tel
  | .delete name secondName => deleteAbonent s name secondName
  | .search name => searchByName s name
  | .displayAll => displayAll s
  | .displayAllReverse => displayAllReverse s
  | .clear => clearDirectory s

/-- `malloc` finds memory that is not in use. -/
def Fresh (s : Abonents) : Op → Prop
  | .add (some new) _ _ _ => new ∉ s.heap
  | _ => True

instance (s : Abonents) (op : Op) : Decidable (Fresh s op) := by
  unfold Fresh
  split <;> infer_instance

end UnixLessons.Directory
