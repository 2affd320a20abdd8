import Mathlib.Data.List.Basic

/-!
# Pipes

A pipe keeps what was written into it until it is read. A read waits while there is
nothing to read and somebody may still write; it comes back with nothing only when no
descriptor for the write end is open any more.

## Main results

* `sent_take`: reading loses nothing, doubles nothing and keeps the order
* `read_eq_none_iff`: when a read waits
* `read_cases`: what a read that comes back has done
-/

namespace UnixLessons.Pipes

variable {α : Type*} {xs : List α} {n : ℕ}

/-- What was read from a pipe, what is still in it, and how many descriptors are open for
either end. The history `received` has no influence on what the pipe does. -/
structure Pipe (α : Type*) where
  received : List α
  buffer : List α
  readers : ℕ
  writers : ℕ

namespace Pipe

/-- A new pipe, with descriptors for its ends. -/
def new (α : Type*) (readers writers : ℕ) : Pipe α := ⟨[], [], readers, writers⟩

variable {p q : Pipe α}

/-- All that was ever written into the pipe. -/
def sent (p : Pipe α) : List α := p.received ++ p.buffer

def write (p : Pipe α) (xs : List α) : Pipe α := { p with buffer := p.buffer ++ xs }

@[simp] theorem sent_write : (p.write xs).sent = p.sent ++ xs :=
  (List.append_assoc ..).symm

/-- The first bytes leave the buffer. -/
def take (p : Pipe α) (n : ℕ) : Pipe α :=
  { p with received := p.received ++ p.buffer.take n, buffer := p.buffer.drop n }

/-- Nothing is lost, doubled or put in another order. -/
@[simp] theorem sent_take : (p.take n).sent = p.sent := by
  simp only [sent, take, List.append_assoc, List.take_append_drop]

theorem received_isPrefix : p.received <+: p.sent := List.prefix_append ..

/-- A `read` of at most `n` bytes, if it does not have to wait. -/
def read (p : Pipe α) (n : ℕ) : Option (List α × Pipe α) :=
  match p.buffer with
  | [] => if p.writers = 0 then some ([], p) else none
  | _ :: _ => some (p.buffer.take n, p.take n)

/-- A read waits for the writers that are left. -/
theorem read_eq_none_iff : p.read n = none ↔ p.buffer = [] ∧ p.writers ≠ 0 := by
  unfold read
  split
  · rename_i h
    simp [h]
  · rename_i h
    simp [h]

/-- What a read has done that came back: it has found the end, or taken the first bytes. -/
theorem read_cases (h : p.read n = some (xs, q)) :
    (p.buffer = [] ∧ p.writers = 0 ∧ xs = [] ∧ q = p) ∨
      (p.buffer ≠ [] ∧ xs = p.buffer.take n ∧ q = p.take n) := by
  unfold read at h
  split at h
  · rename_i hempty
    split_ifs at h with hwriters
    cases h
    exact Or.inl ⟨hempty, hwriters, rfl, rfl⟩
  · rename_i hbuffer
    cases h
    exact Or.inr ⟨by simp [hbuffer], rfl, rfl⟩

/-! ### Descriptors -/

/-- `fork` doubles the descriptors of both ends. -/
def share (p : Pipe α) : Pipe α := { p with readers := 2 * p.readers, writers := 2 * p.writers }

def openRead (p : Pipe α) : Pipe α := { p with readers := p.readers + 1 }

def openWrite (p : Pipe α) : Pipe α := { p with writers := p.writers + 1 }

def closeRead (p : Pipe α) : Pipe α := { p with readers := p.readers - 1 }

def closeWrite (p : Pipe α) : Pipe α := { p with writers := p.writers - 1 }

end Pipe

end UnixLessons.Pipes
