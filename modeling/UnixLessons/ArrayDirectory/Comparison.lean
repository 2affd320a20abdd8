import UnixLessons.ArrayDirectory.Abonents
import UnixLessons.Directory.Abonent

/-!
# Is the comparison of strings equality?

The array directory has a comparison of its own, which answers the other way round: 1 for
equal strings. It has the loop of the linked directory's one, with the same index of type
`char`. That index counts to 127 and then goes on at -128, so neither of them gets past
128 characters that are the same.

## Main results

* `strEQLoop_strings`: both loops do the same
* `tellsEqual_iff`: for which strings they end inside the strings, with the right answer
-/

namespace UnixLessons.ArrayDirectory

open Text UnixLessons.Directory

/-- The loop of `Str_EQ`, whose index is a `char`. A string is given by what can be read
at an offset from its start. -/
def strEQLoop (str str2 : ℤ → Option Char) : ℕ → Int8 → Option ℤ
  | 0, _ => none
  | fuel + 1, i => do
    let c ← str i.toInt
    let d ← str2 i.toInt
    if c ≠ nul ∨ d ≠ nul then
      if c ≠ d then some 0 else strEQLoop str str2 fuel (i + 1)
    else some 1

/-- `Str_EQ`: 1 for equal strings and 0 for any others. -/
def strEQ (str str2 : Option (ℤ → Option Char)) : Option ℤ :=
  match str, str2 with
  | some str, some str2 => strEQLoop str str2 (2 ^ 7 + 1) 0
  | _, _ => some 0

variable {m : Memory} {s t name : CString} {a : ℤ}

/-! ### Two strings -/

theorem strEQLoop_strings (s t : CString) (fuel : ℕ) (i : Int8) :
    strEQLoop (charAt s) (charAt t) fuel i = (strcmpLoop s t fuel i).map (1 - ·) := by
  induction fuel generalizing i with
  | zero => rfl
  | succ fuel ih =>
    rw [strEQLoop, strcmpLoop]
    cases charAt s i.toInt with
    | none => rfl
    | some c =>
      cases charAt t i.toInt with
      | none => rfl
      | some d =>
        simp only [Option.bind_eq_bind, Option.bind_some, ih]
        split_ifs <;> rfl

theorem strEQ_spec (hs : nul ∉ s) (ht : nul ∉ t) :
    strEQ (some (charAt s)) (some (charAt t)) =
      if ShareStart s t then none else some (if s = t then 1 else 0) := by
  have hloop := strEQLoop_strings s t (2 ^ 7 + 1) 0
  have hstrcmp : strcmpLoop s t (2 ^ 7 + 1) 0 = _ := myStrcmp_spec hs ht
  rw [strEQ, hloop, hstrcmp]
  split_ifs <;> rfl

/-- Both comparisons end without reading outside the strings, and tell whether they are
equal. -/
def TellsEqual (s t : CString) : Prop :=
  (∃ result, myStrcmp (some s) (some t) = some result ∧ (result = 0 ↔ s = t)) ∧
  ∃ result, strEQ (some (charAt s)) (some (charAt t)) = some result ∧ (result = 1 ↔ s = t)

/-- For all strings: the comparisons are equality exactly if one of the strings is shorter
than 128 characters or they differ in one of these. -/
theorem tellsEqual_iff (hs : nul ∉ s) (ht : nul ∉ t) :
    TellsEqual s t ↔ s.length < 128 ∨ s.take 128 ≠ t.take 128 := by
  have hshare : s.length < 128 ∨ s.take 128 ≠ t.take 128 ↔ ¬ ShareStart s t := by
    rw [ShareStart, not_and_or, not_le]
  rw [hshare, TellsEqual, myStrcmp_spec hs ht, strEQ_spec hs ht]
  by_cases h : ShareStart s t
  · simp [h]
  · by_cases heq : s = t <;> simp [h, heq]

/-- The names of two records. -/
theorem tellsEqual_iff_names : TellsEqual "Anna".toList "Ann".toList :=
  (tellsEqual_iff (by decide) (by decide)).mpr (.inl (by decide))

/-- 128 equal characters are read before their start. -/
theorem not_tellsEqual_long : ¬ ∀ s t : CString, nul ∉ s → nul ∉ t → TellsEqual s t := by
  intro h
  have hnul : nul ∉ List.replicate 128 'a' := by simp [nul]
  obtain ⟨⟨result, hstrcmp, -⟩, -⟩ := h _ _ hnul hnul
  rw [myStrcmp_spec hnul hnul, if_pos (by simp [ShareStart])] at hstrcmp
  cases hstrcmp

/-! ### A string in memory -/

/-- The induction is on the rest of the name, behind the part `p` that was the same. -/
theorem exists_strEQLoop {p rest : CString} {fuel : ℕ} (hwhole : Whole m)
    (hlast : m 299 = some nul) (ha : 0 ≤ a) (hle : a + p.length ≤ 299)
    (hname : (p ++ rest).length < 128) (hfuel : rest.length < fuel) :
    ∃ result, strEQLoop (fun k => m (a + k)) (charAt (p ++ rest)) fuel (Int8.ofNat p.length) =
      some result := by
  induction rest generalizing p fuel with
  | nil =>
    obtain ⟨fuel, rfl⟩ := Nat.exists_eq_succ_of_ne_zero (Nat.ne_zero_of_lt hfuel)
    have hi : (Int8.ofNat p.length).toInt = p.length :=
      Int8.toInt_ofNat_of_lt (by simpa using hname)
    obtain ⟨c, hc⟩ := Option.ne_none_iff_exists'.mp ((hwhole (a + p.length)).mpr (by omega))
    rw [strEQLoop, hi, hc, charAt_append]
    by_cases hnul : c = nul
    · exact ⟨1, by simp [hnul]⟩
    · exact ⟨0, by simp [hnul]⟩
  | cons d rest ih =>
    obtain ⟨fuel, rfl⟩ := Nat.exists_eq_succ_of_ne_zero (Nat.ne_zero_of_lt hfuel)
    rw [List.length_append, List.length_cons] at hname
    have hi : (Int8.ofNat p.length).toInt = p.length := Int8.toInt_ofNat_of_lt (by omega)
    obtain ⟨c, hc⟩ := Option.ne_none_iff_exists'.mp ((hwhole (a + p.length)).mpr (by omega))
    rw [strEQLoop, hi, hc, charAt_append]
    by_cases hcd : c = d
    · subst hcd
      by_cases hnul : c = nul
      · exact ⟨1, by simp [hnul]⟩
      · -- the array ends with a terminator, so this is not its last byte
        have hne : a + p.length ≠ 299 := by
          intro heq
          rw [heq, hlast] at hc
          exact hnul (Option.some.inj hc).symm
        obtain ⟨result, hresult⟩ := @ih (p ++ [c]) fuel
          (by rw [List.length_append, List.length_singleton]; omega)
          (by simp only [List.length_append, List.length_singleton]; omega)
          (by simpa using hfuel)
        rw [ofNat_length_concat, List.append_assoc, List.singleton_append] at hresult
        exact ⟨result, by simpa [hnul] using hresult⟩
    · have hnot : c ≠ nul ∨ d ≠ nul := by
        by_contra hboth
        rw [not_or, not_not, not_not] at hboth
        exact hcd (hboth.1.trans hboth.2.symm)
      exact ⟨0, by simp [hcd, hnot]⟩

/-- The comparison of a string in the array with a short name ends where one of them does. -/
theorem exists_strEQ (hwhole : Whole m) (hlast : m 299 = some nul) (ha : 0 ≤ a) (ha' : a ≤ 299)
    (hname : name.length < 128) :
    ∃ result, strEQ (some fun k => m (a + k)) (some (charAt name)) = some result :=
  @exists_strEQLoop m a [] name (2 ^ 7 + 1) hwhole hlast ha (by simpa using ha') hname (by omega)

end UnixLessons.ArrayDirectory
