import UnixLessons.Text.Lines
import UnixLessons.Text.Occurrence

/-!
# Looking for a substring

The lesson on pointers reads a line and a pattern and looks for the pattern with two nested
loops, whose indices are of type `char`. A text read into the buffer of 100 characters is
shorter than the range of such an index. The pattern ends before its newline, if it has one.

## Main results

* `matchLoop_spec`: the inner loop compares the pattern with the rest of the text
* `search_firstOccurrence`: the search ends inside both strings with the leftmost occurrence
* `main_answer`: what is printed for a line and a pattern
-/

namespace UnixLessons.Pointers

open Text

/-- Size of the buffers for the text and the pattern. -/
def bufferSize : ℕ := 100

/-- The inner loop, which compares the pattern with the text from `i` on; `none` when it
reads outside a string or does not end within the fuel. -/
def matchLoop (str substr : CString) (i : Int8) : ℕ → Int8 → Option Bool
  | 0, _ => none
  | fuel + 1, j => do
    let d ← charAt substr j.toInt
    if d ≠ nul ∧ d ≠ '\n' then
      let c ← charAt str (i.toInt + j.toInt)
      if c = nul ∨ c ≠ d then some false else matchLoop str substr i fuel (j + 1)
    else some true

/-- The outer loop: the offset of `ptr` from the start of the text, or no offset for a null
pointer. -/
def searchLoop (str substr : CString) : ℕ → Int8 → Option (Option ℤ)
  | 0, _ => none
  | fuel + 1, i => do
    let c ← charAt str i.toInt
    if c ≠ nul then
      let found ← matchLoop str substr i bufferSize 0
      if found then some (some i.toInt) else searchLoop str substr fuel (i + 1)
    else some none

/-- The search as `main` does it, once both lines are read. -/
def search (str substr : CString) : Option (Option ℤ) := searchLoop str substr bufferSize 0

/-- What is printed at the end: the text from `ptr` on, the character there and its
position, or that there is no such substring. -/
inductive Answer
  | found (text : CString) (first : Char) (position : ℤ)
  | notFound
deriving DecidableEq

/-- The whole lesson on an input; `none` also if a line is missing, because nothing was
written into its buffer then. -/
def main (input : CString) : Option Answer := do
  let (str, input) ← fgets bufferSize input
  let (substr, _) ← fgets bufferSize input
  match ← search (cstr str) (cstr substr) with
  | some ptr =>
    let first ← charAt (cstr str) ptr
    some (.found ((cstr str).drop ptr.toNat) first ptr)
  | none => some .notFound

/-! ### The two loops -/

variable {before done rest todo substr : CString} {fuel : ℕ}

/-- The induction is on the rest `todo` of the pattern, behind a part that was found. -/
theorem matchLoop_spec (hbefore : before.length < 128) (hdone : (done ++ todo).length < 128)
    (hfuel : todo.length < fuel) (hrest : nul ∉ rest) (htodo : nul ∉ todo) :
    matchLoop (before ++ done ++ rest) (done ++ todo) (Int8.ofNat before.length) fuel
      (Int8.ofNat done.length) = some (decide (removeNewline todo <+: rest)) := by
  induction todo generalizing done rest fuel with
  | nil =>
    obtain ⟨fuel, rfl⟩ := Nat.exists_eq_succ_of_ne_zero (Nat.ne_zero_of_lt hfuel)
    rw [matchLoop, charAt_ofNat_length (by simpa using hdone)]
    simp [removeNewline]
  | cons d todo ih =>
    obtain ⟨fuel, rfl⟩ := Nat.exists_eq_succ_of_ne_zero (Nat.ne_zero_of_lt hfuel)
    have hshort : done.length < 128 := by rw [List.length_append] at hdone; omega
    rw [List.mem_cons, not_or] at htodo
    rw [matchLoop, charAt_ofNat_length hshort]
    by_cases hd : d = '\n'
    · simp [hd, removeNewline]
    · have hnewline : removeNewline (d :: todo) = d :: removeNewline todo := by
        simp [removeNewline, hd]
      -- the text is read behind the part that was found
      have hread : charAt (before ++ done ++ rest)
          ((Int8.ofNat before.length).toInt + (Int8.ofNat done.length).toInt) =
            (rest ++ [nul])[0]? := by
        rw [Int8.toInt_ofNat_of_lt hbefore, Int8.toInt_ofNat_of_lt hshort, ← Nat.cast_add,
          ← List.length_append, charAt_append]
      rw [hread, hnewline]
      cases rest with
      | nil => simp [hd, Ne.symm htodo.1]
      | cons c rest =>
        rw [List.mem_cons, not_or] at hrest
        by_cases hcd : c = d
        · subst hcd
          have hnext := @ih (done ++ [c]) rest fuel (by simpa using hdone) (by simpa using hfuel)
            hrest.2 htodo.2
          rw [ofNat_length_concat] at hnext
          simp only [List.append_assoc, List.singleton_append] at hnext ⊢
          simp [hd, Ne.symm htodo.1, List.cons_prefix_cons, hnext]
        · simp [hd, Ne.symm htodo.1, hcd, Ne.symm hcd, List.cons_prefix_cons]

/-- The induction is on the rest of the text, behind a part without an occurrence. -/
theorem searchLoop_spec (hlength : (before ++ rest).length < 128) (hfuel : rest.length < fuel)
    (hnul : nul ∉ before ++ rest) (hsubstr : substr.length < bufferSize) (hnul' : nul ∉ substr)
    (hne : before ++ rest ≠ [])
    (hbefore : ∀ j < before.length, ¬ OccursAt (removeNewline substr) (before ++ rest) j) :
    ∃ ptr : Option ℕ, searchLoop (before ++ rest) substr fuel (Int8.ofNat before.length) =
        some (ptr.map fun i => (i : ℤ)) ∧
      FirstOccurrence (removeNewline substr) (before ++ rest) ptr := by
  induction rest generalizing before fuel with
  | nil =>
    obtain ⟨fuel, rfl⟩ := Nat.exists_eq_succ_of_ne_zero (Nat.ne_zero_of_lt hfuel)
    refine ⟨none, ?_, .missed hne (by simpa using hbefore)⟩
    rw [searchLoop, charAt_ofNat_length (by simpa using hlength)]
    simp
  | cons c rest ih =>
    obtain ⟨fuel, rfl⟩ := Nat.exists_eq_succ_of_ne_zero (Nat.ne_zero_of_lt hfuel)
    have hshort : before.length < 128 := by rw [List.length_append] at hlength; omega
    have hnulRest : nul ∉ c :: rest := fun h => hnul (List.mem_append_right _ h)
    have hc : c ≠ nul := fun h => hnulRest (h ▸ List.mem_cons_self)
    have hmatch : matchLoop (before ++ c :: rest) substr (Int8.ofNat before.length) bufferSize 0 =
        some (decide (removeNewline substr <+: c :: rest)) := by
      have hloop := @matchLoop_spec before [] (c :: rest) substr bufferSize hshort
        (hsubstr.trans (by decide)) hsubstr hnulRest hnul'
      simpa using hloop
    rw [searchLoop, charAt_ofNat_length hshort, hmatch, Int8.toInt_ofNat_of_lt hshort]
    by_cases hfront : removeNewline substr <+: c :: rest
    · exact ⟨some before.length, by simp [hc, hfront], .found hbefore hfront⟩
    · have hsplit : before ++ [c] ++ rest = before ++ c :: rest := by simp
      obtain ⟨ptr, hptr, hfirst⟩ := @ih (before ++ [c]) fuel (hsplit ▸ hlength)
        (by simpa using hfuel) (hsplit ▸ hnul) (hsplit ▸ hne) (by
          intro j hj
          rw [List.length_append, List.length_singleton] at hj
          exact hsplit ▸ not_occursAt_of_lt_succ hbefore hfront hj)
      rw [ofNat_length_concat, hsplit] at hptr
      rw [hsplit] at hfirst
      exact ⟨ptr, by simpa [hc, hfront] using hptr, hfirst⟩

theorem search_spec {str substr : CString} (hstr : str.length < bufferSize) (hnul : nul ∉ str)
    (hsubstr : substr.length < bufferSize) (hnul' : nul ∉ substr) (hne : str ≠ []) :
    ∃ ptr : Option ℕ, search str substr = some (ptr.map fun i => (i : ℤ)) ∧
      FirstOccurrence (removeNewline substr) str ptr :=
  @searchLoop_spec [] str substr bufferSize (hstr.trans (by decide)) hstr hnul hsubstr hnul' hne
    (by simp)

/-- For every text that is not empty and every pattern: the search ends inside the strings,
with the leftmost occurrence of the pattern or with a null pointer if there is none. -/
theorem search_firstOccurrence (str substr : CharArray bufferSize) (hne : str.text ≠ []) :
    ∃ ptr : Option ℕ, search str.text substr.text = some (ptr.map fun i => (i : ℤ)) ∧
      FirstOccurrence (removeNewline substr.text) str.text ptr :=
  search_spec str.length_lt str.nul_notMem substr.length_lt substr.nul_notMem hne

/-- A pattern that overlaps a partial match. -/
theorem search_firstOccurrence_overlap :
    ∃ ptr : Option ℕ, search "ababac\n".toList "abac\n".toList = some (ptr.map fun i => (i : ℤ)) ∧
      FirstOccurrence (removeNewline "abac\n".toList) "ababac\n".toList ptr :=
  search_firstOccurrence ⟨"ababac\n".toList, by decide, by decide⟩
    ⟨"abac\n".toList, by decide, by decide⟩ (by decide)

/-! ### The whole lesson -/

/-- The answer for a line and a pattern that were read: the text from the leftmost
occurrence on, or that there is none. -/
theorem main_answer {input input' line pattern rest : CString}
    (hline : fgets bufferSize input = some (line, input'))
    (hpattern : fgets bufferSize input' = some (pattern, rest)) (hne : cstr line ≠ []) :
    (main input = some .notFound ∧
        ∀ i, ¬ OccursAt (removeNewline (cstr pattern)) (cstr line) i) ∨
      ∃ before first text, cstr line = before ++ first :: text ∧
        removeNewline (cstr pattern) <+: first :: text ∧
        (∀ j < before.length, ¬ OccursAt (removeNewline (cstr pattern)) (cstr line) j) ∧
        main input = some (.found (first :: text) first before.length) := by
  have hlength : (cstr line).length < bufferSize :=
    (length_cstr_le line).trans_lt (length_fgets_lt (by decide) hline)
  have hlength' : (cstr pattern).length < bufferSize :=
    (length_cstr_le pattern).trans_lt (length_fgets_lt (by decide) hpattern)
  obtain ⟨ptr, hsearch, hfirst⟩ := search_spec hlength (nul_notMem_cstr line) hlength'
    (nul_notMem_cstr pattern) hne
  have hmain : main input = (search (cstr line) (cstr pattern)).bind fun ptr =>
      match ptr with
      | some ptr => (charAt (cstr line) ptr).bind fun first =>
        some (.found ((cstr line).drop ptr.toNat) first ptr)
      | none => some .notFound := by
    simp only [main, hline, hpattern, Option.bind_eq_bind, Option.bind_some]
  rw [hmain, hsearch]
  cases ptr with
  | none => exact .inl ⟨rfl, hfirst.eq_none_iff.mp rfl⟩
  | some i =>
    obtain ⟨before, first, text, hsplit, rfl, hfront, hbefore⟩ := hfirst.exists_split hne
    refine .inr ⟨before, first, text, hsplit, hfront, hbefore, ?_⟩
    simp [hsplit, charAt_append]

end UnixLessons.Pointers
