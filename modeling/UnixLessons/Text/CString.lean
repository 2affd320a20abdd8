import Mathlib.Algebra.BigOperators.Fin
import Mathlib.Data.List.Basic
import Mathlib.Data.List.TakeWhile

/-!
# Terminated strings

A C string is the list of its bytes up to the terminator, each byte written as
the character it encodes. The functions of `<string.h>` and `<stdio.h>` that the
lessons use are given on such lists; a buffer size appears where the function
takes one.
-/

namespace UnixLessons.Text

/-- The bytes of a string before its terminator. -/
abbrev CString := List Char

/-- The terminator. -/
def nul : Char := '\x00'

/-- The string a byte buffer holds: its bytes up to the first terminator. -/
def cstr (bytes : List Char) : CString := bytes.takeWhile (· ≠ nul)

theorem cstr_of_notMem {s : CString} (h : nul ∉ s) : cstr s = s := by
  rw [cstr, List.takeWhile_eq_self_iff]
  intro c hc
  simpa using fun he : c = nul => h (he ▸ hc)

/-- What follows a terminator does not show. -/
theorem cstr_append_nul (bytes rest : List Char) : cstr (bytes ++ nul :: rest) = cstr bytes := by
  rw [cstr, cstr, List.takeWhile_append]
  split
  · rename_i hall
    rw [(List.takeWhile_prefix _).eq_of_length hall]
    simp
  · rfl

theorem nul_notMem_cstr (bytes : List Char) : nul ∉ cstr bytes := by
  intro h
  simpa using List.mem_takeWhile_imp h

theorem length_cstr_le (bytes : List Char) : (cstr bytes).length ≤ bytes.length :=
  (List.takeWhile_prefix _).length_le

/-- The string in a buffer; `none` when a string function would run over the end
of the buffer. -/
def stringIn (buffer : List Char) : Option CString :=
  if nul ∈ buffer then some (cstr buffer) else none

/-- A zeroed buffer of `size` bytes after `bytes` were received into it. -/
def received (size : ℕ) (bytes : List Char) : List Char :=
  (bytes.take size).rightpad size nul

/-- Fewer bytes than the buffer holds are read back as the string they are. -/
theorem stringIn_received {size : ℕ} {bytes : List Char} (h : bytes.length < size) :
    stringIn (received size bytes) = some (cstr bytes) := by
  obtain ⟨k, hk⟩ : ∃ k, size - bytes.length = k + 1 := ⟨size - bytes.length - 1, by omega⟩
  have hbuffer : received size bytes = bytes ++ nul :: List.replicate k nul := by
    rw [received, List.take_of_length_le h.le, List.rightpad, hk, List.replicate_succ]
  rw [hbuffer, stringIn, if_pos (by simp), cstr_append_nul]

/-- `snprintf` into a buffer of `size` bytes keeps what fits before the
terminator. -/
def snprintf (size : ℕ) (text : CString) : CString := text.take (size - 1)

theorem snprintf_eq_self {size : ℕ} {text : CString} (h : text.length < size) :
    snprintf size text = text :=
  List.take_of_length_le (by omega)

/-- The formatted text arrives whole exactly when it fits. -/
theorem snprintf_eq_self_iff {size : ℕ} {text : CString} (hsize : 0 < size) :
    snprintf size text = text ↔ text.length < size := by
  constructor
  · intro h
    have := congrArg List.length h
    rw [snprintf, List.length_take] at this
    omega
  · exact snprintf_eq_self

/-- Offset of the last occurrence of a character, as `strrchr` finds it. -/
def strrchr : CString → Char → Option ℕ
  | [], _ => none
  | x :: xs, c =>
    match strrchr xs c with
    | some i => some (i + 1)
    | none => if x = c then some 0 else none

theorem strrchr_of_notMem {s : CString} {c : Char} (h : c ∉ s) : strrchr s c = none := by
  induction s with
  | nil => rfl
  | cons x xs ih =>
    rw [List.mem_cons, not_or] at h
    simp [strrchr, ih h.2, Ne.symm h.1]

theorem strrchr_append_cons {p q : CString} {c : Char} (h : c ∉ q) :
    strrchr (p ++ c :: q) c = some p.length := by
  induction p with
  | nil => simp [strrchr, strrchr_of_notMem h]
  | cons x xs ih => simp [strrchr, ih]

theorem strrchr_ne_none {s : CString} {c : Char} (h : c ∈ s) : strrchr s c ≠ none := by
  induction s with
  | nil => simp at h
  | cons x xs ih =>
    rw [strrchr]
    split
    · simp
    · rename_i hnone
      rcases List.mem_cons.mp h with rfl | hmem
      · simp
      · exact absurd hnone (ih hmem)

/-! ### Strings in fixed-size arrays -/

/-- A terminated string in an array of `size` characters. -/
structure CharArray (size : ℕ) where
  text : CString
  nul_notMem : nul ∉ text
  length_lt : text.length < size
deriving DecidableEq

@[ext] theorem CharArray.ext {size : ℕ} {s t : CharArray size} (h : s.text = t.text) : s = t := by
  cases s
  cases t
  cases h
  rfl

/-- The character read at a signed offset from the start of a string: the
terminator is the last one that may be read. -/
def charAt (s : CString) (i : ℤ) : Option Char :=
  if i < 0 then none else (s ++ [nul])[i.toNat]?

theorem charAt_append (p s : CString) : charAt (p ++ s) p.length = (s ++ [nul])[0]? := by
  rw [charAt, if_neg (by omega), Int.toNat_natCast, List.append_assoc,
    List.getElem?_append_right le_rfl, Nat.sub_self]

/-! ### Indices of type `char`

A loop over a string with such an index has read a part `p` of it, of fewer than 128
characters. -/

/-- The index at the end of `p` has not wrapped around. -/
theorem charAt_ofNat_length {p : CString} (hp : p.length < 128) (s : CString) :
    charAt (p ++ s) (Int8.ofNat p.length).toInt = (s ++ [nul])[0]? := by
  rw [Int8.toInt_ofNat_of_lt hp, charAt_append]

/-- The next index is at the end of a part that is one character longer. -/
theorem ofNat_length_concat (p : CString) (c : Char) :
    Int8.ofNat (p ++ [c]).length = Int8.ofNat p.length + 1 := by
  rw [List.length_append, List.length_singleton, Int8.ofNat_add]
  rfl

end UnixLessons.Text
