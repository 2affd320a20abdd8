import Mathlib.Data.List.Basic
import UnixLessons.Text.CString

/-!
# Subscribers of the directory

A record of the directory holds a name, a second name and a phone number, each
in an array of fixed size. The lesson copies and compares the strings with
functions of its own.

## Main results

* `myStrncpy_text`: an array is copied whole into one of the same size
* `myStrcmp_spec`: the comparison ends and is equality, unless the first 128
  characters of the strings are the same
-/

namespace UnixLessons.Directory

open Text

/-- Size of the arrays for the two names. -/
def maxStr : ℕ := 10

/-- Size of the array for the phone number. -/
def maxNumber : ℕ := 12

/-! ### Copying -/

/-- The characters copied when there is room for `room` of them. -/
def copied : CString → ℕ → CString
  | [], _ => []
  | _ :: _, 0 => []
  | c :: rest, room + 1 => if c = nul then [] else c :: copied rest room

theorem length_copied_le (parametrs : CString) (room : ℕ) :
    (copied parametrs room).length ≤ room := by
  induction parametrs, room using copied.induct <;> simp_all [copied]

theorem nul_notMem_copied (parametrs : CString) (room : ℕ) : nul ∉ copied parametrs room := by
  induction parametrs, room using copied.induct <;> simp_all [copied, eq_comm]

theorem copied_eq_self {parametrs : CString} {room : ℕ} (hnul : nul ∉ parametrs)
    (hroom : parametrs.length ≤ room) : copied parametrs room = parametrs := by
  induction parametrs, room using copied.induct <;> simp_all [copied]

/-- The lesson's `strncpy`: at most `size - 1` characters, always terminated. -/
def myStrncpy (parametrs : CString) (size : ℕ) [NeZero size] : CharArray size where
  text := copied parametrs (size - 1)
  nul_notMem := nul_notMem_copied _ _
  length_lt := by
    have hlength := length_copied_le parametrs (size - 1)
    have hsize := NeZero.ne size
    omega

theorem myStrncpy_text {size : ℕ} [NeZero size] (s : CharArray size) :
    myStrncpy s.text size = s :=
  CharArray.ext (copied_eq_self s.nul_notMem (by have := s.length_lt; omega))

/-! ### Comparing -/

/-- The loop of `myStrcmp`, whose index is a `char`; `none` when it reads outside
a string or does not end within the fuel. -/
def strcmpLoop (str1 str2 : CString) : ℕ → Int8 → Option ℤ
  | 0, _ => none
  | fuel + 1, i => do
    let c ← charAt str1 i.toInt
    let d ← charAt str2 i.toInt
    if c ≠ nul ∨ d ≠ nul then
      if c ≠ d then some 1 else strcmpLoop str1 str2 fuel (i + 1)
    else some 0

/-- The lesson's `strcmp`: 0 for equal strings and 1 for any others. The index
takes 128 values before it wraps around to a negative one. -/
def myStrcmp (str1 str2 : Option CString) : Option ℤ :=
  match str1, str2 with
  | some str1, some str2 => strcmpLoop str1 str2 (2 ^ 7 + 1) 0
  | _, _ => some 1

/-- From the 129th character on the loop would read before the start of the strings. -/
theorem strcmpLoop_negative (str1 str2 : CString) (fuel : ℕ) :
    strcmpLoop str1 str2 fuel (-128) = none := by
  cases fuel <;> rfl

/-- Both strings start with the same 128 characters. -/
def ShareStart (s t : CString) : Prop := 128 ≤ s.length ∧ s.take 128 = t.take 128

instance (s t : CString) : Decidable (ShareStart s t) := inferInstanceAs (Decidable (_ ∧ _))

/-- Behind fewer than 128 common characters the next one is the same too, if there is one. -/
theorem ShareStart.head? {p s t : CString} (h : ShareStart (p ++ s) (p ++ t))
    (hp : p.length < 128) : s.head? = t.head? := by
  have hget := congrArg (·[p.length]?) h.2
  simp only [List.getElem?_take_of_lt hp] at hget
  rwa [List.getElem?_append_right le_rfl, List.getElem?_append_right le_rfl, Nat.sub_self,
    ← List.head?_eq_getElem?, ← List.head?_eq_getElem?] at hget

/-- The induction is on the rest of the first string, behind a common start `p`. -/
theorem strcmpLoop_spec {p s t : CString} {fuel : ℕ} (hp : p.length < 128)
    (hfuel : 128 < p.length + fuel) (hnulS : nul ∉ s) (hnulT : nul ∉ t) :
    strcmpLoop (p ++ s) (p ++ t) fuel (Int8.ofNat p.length) =
      if ShareStart (p ++ s) (p ++ t) then none else some (if s = t then 0 else 1) := by
  induction s generalizing p t fuel with
  | nil =>
    obtain ⟨fuel, rfl⟩ := Nat.exists_eq_succ_of_ne_zero (show fuel ≠ 0 by omega)
    have hshort : ¬ ShareStart (p ++ []) (p ++ t) := by
      rintro ⟨hlength, -⟩
      rw [List.append_nil] at hlength
      omega
    rw [if_neg hshort, strcmpLoop, charAt_ofNat_length hp, charAt_ofNat_length hp]
    cases t with
    | nil => simp
    | cons d t =>
      rw [List.mem_cons, not_or] at hnulT
      simp [hnulT.1, Ne.symm hnulT.1]
  | cons c s ih =>
    obtain ⟨fuel, rfl⟩ := Nat.exists_eq_succ_of_ne_zero (show fuel ≠ 0 by omega)
    rw [List.mem_cons, not_or] at hnulS
    rw [strcmpLoop, charAt_ofNat_length hp, charAt_ofNat_length hp]
    cases t with
    | nil =>
      rw [if_neg fun h => by cases h.head? hp]
      simp [Ne.symm hnulS.1]
    | cons d t =>
      rw [List.mem_cons, not_or] at hnulT
      by_cases hcd : c = d
      · subst hcd
        have hgo : strcmpLoop (p ++ c :: s) (p ++ c :: t) fuel (Int8.ofNat p.length + 1) =
            if ShareStart (p ++ c :: s) (p ++ c :: t) then none
            else some (if s = t then 0 else 1) := by
          rcases Nat.lt_or_eq_of_le (Nat.succ_le_of_lt hp) with hlt | hlast
          · have hrest := @ih (p ++ [c]) t fuel (by simpa using hlt)
              (by rw [List.length_append, List.length_singleton]; omega) hnulS.2 hnulT.2
            rw [← ofNat_length_concat p c]
            simpa only [List.append_assoc, List.singleton_append] using hrest
          · -- 128 characters are the same, and the index wraps around
            have hlength : (p ++ [c]).length = 128 := by simpa using hlast
            have hshare : ShareStart (p ++ [c] ++ s) (p ++ [c] ++ t) := by
              refine ⟨by rw [List.length_append]; omega, ?_⟩
              rw [← hlength, List.take_left, List.take_left]
            rw [List.append_assoc, List.append_assoc, List.singleton_append,
              List.singleton_append] at hshare
            rw [if_pos hshare, ← ofNat_length_concat p c, hlength]
            exact strcmpLoop_negative _ _ fuel
        simpa [Ne.symm hnulS.1] using hgo
      · rw [if_neg fun h => hcd (Option.some.inj (h.head? hp))]
        simp [hcd, Ne.symm hnulS.1]

/-- Either the comparison reads outside the strings or it is equality. -/
theorem myStrcmp_spec {s t : CString} (hnulS : nul ∉ s) (hnulT : nul ∉ t) :
    myStrcmp (some s) (some t) =
      if ShareStart s t then none else some (if s = t then 0 else 1) :=
  @strcmpLoop_spec [] s t (2 ^ 7 + 1) (by decide) (by decide) hnulS hnulT

/-- On a string shorter than 128 characters the comparison ends without reading
outside, and tells equal strings from different ones. -/
theorem myStrcmp_eq {s t : CString} (hs : s.length ≤ 127) (hnulS : nul ∉ s) (hnulT : nul ∉ t) :
    myStrcmp (some s) (some t) = some (if s = t then 0 else 1) := by
  rw [myStrcmp_spec hnulS hnulT, if_neg]
  rintro ⟨hlength, -⟩
  omega

/-! ### Records -/

/-- A record; the links to its neighbours belong to the list. -/
@[ext] structure Abonent where
  name : CharArray maxStr
  secondName : CharArray maxStr
  tel : CharArray maxNumber
deriving DecidableEq

instance : NeZero maxStr := ⟨by decide⟩
instance : NeZero maxNumber := ⟨by decide⟩

/-- What a new record is filled with. -/
def contents (name secondName : CharArray maxStr) (tel : CharArray maxNumber) : Abonent :=
  ⟨myStrncpy name.text maxStr, myStrncpy secondName.text maxStr, myStrncpy tel.text maxNumber⟩

theorem contents_eq (name secondName : CharArray maxStr) (tel : CharArray maxNumber) :
    contents name secondName tel = ⟨name, secondName, tel⟩ := by
  rw [contents, myStrncpy_text, myStrncpy_text, myStrncpy_text]

/-- Whether two names are equal, by the lesson's own comparison. -/
def sameName (s t : CharArray maxStr) : Option Bool :=
  (myStrcmp (some s.text) (some t.text)).map (· == 0)

theorem sameName_eq (s t : CharArray maxStr) : sameName s t = some (s == t) := by
  have hs : s.text.length < 10 := s.length_lt
  rw [sameName, myStrcmp_eq (by omega) s.nul_notMem t.nul_notMem]
  by_cases h : s = t
  · simp [h]
  · have htext : s.text ≠ t.text := fun he => h (CharArray.ext he)
    simp [h, htext]

end UnixLessons.Directory
