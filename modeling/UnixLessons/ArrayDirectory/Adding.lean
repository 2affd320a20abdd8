import UnixLessons.ArrayDirectory.Abonents
import UnixLessons.Transition.Run

/-!
# Adding to the array

The prompts ask for ten characters at most, and a field has ten bytes. The terminator of a
word of ten characters is written to the first byte of the next field, where the next
answer puts its first character: then the two fields read as one text. Behind the phone
number comes the next record, and behind the last one the end of the array.

## Main results

* `readsBack_iff_fits`: for which answers all records can be read back
-/

namespace UnixLessons.ArrayDirectory

open Text Transition

/-- A call of `Add_abonent`, with the input it finds and the three words it reads, which
are no longer than the prompts say. -/
structure Call where
  stdin : Stdin
  record : Record
  reads : ∀ f, answers stdin f = some (record f)
  announced : ∀ f, (record f).length ≤ maxLength

def addCall (s : Directory) (call : Call) : Option Directory :=
  (addAbonent s call.stdin).map Prod.fst

/-- The records added by some calls: the array has room for ten. -/
def added (calls : List Call) : List Record := (calls.map Call.record).take maxAbonent

/-- After each call all records added so far are read back as they were typed, and nothing
was written outside the array. -/
def ReadsBack (calls : List Call) : Prop :=
  ∀ k ≤ calls.length, ∃ s, run addCall .init (calls.take k) = some s ∧
    Holds s (added (calls.take k))

/-- The words are texts of at most nine characters. Only the last phone number may have
ten, unless it belongs to the last record of the array. -/
def Fits (calls : List Call) : Prop :=
  ∀ i call, calls[i]? = some call → i < maxAbonent →
    (∀ f, nul ∉ call.record f) ∧
    (call.record .name).length < maxLength ∧
    (call.record .secondName).length < maxLength ∧
    ((call.record .tel).length < maxLength ∨ i + 1 = calls.length ∧ i + 1 < maxAbonent)

variable {m m' : Memory} {s s' : Directory} {records : List Record} {call : Call}
  {calls : List Call} {v w : CString} {a : ℤ} {k : ℕ}

theorem Whole.overwrite {bytes : List Char} (h : Whole m)
    (hmapped : ∀ j < bytes.length, m (a + j) ≠ none) : Whole (m.overwrite a bytes) := by
  intro i
  by_cases hi : a ≤ i ∧ i < a + bytes.length
  · have hold := hmapped (i - a).toNat (by omega)
    rw [show a + ((i - a).toNat : ℤ) = i by omega, h i] at hold
    have hnew : (m.overwrite a bytes) i ≠ none := by
      rw [Memory.overwrite, if_pos hi]
      simp only [ne_eq, List.getElem?_eq_none_iff]
      omega
    exact iff_of_true hnew hold
  · rw [Memory.overwrite, if_neg hi]
    exact h i

theorem Whole.putAnswer {answer : Option CString} (h : Whole m)
    (hput : putAnswer a answer m = some m') : Whole m' := by
  cases answer with
  | none => rwa [← Option.some.inj hput]
  | some word =>
    obtain ⟨hmapped, rfl⟩ := Memory.storeAll_eq_some.mp hput
    exact h.overwrite hmapped

theorem Whole.addAbonent {stdin rest : Stdin} (h : Whole s.abonents)
    (hadd : addAbonent s stdin = some (s', rest)) : Whole s'.abonents := by
  by_cases hcount : s.count < maxAbonent
  · obtain ⟨m₁, m₂, m₃, h₁, h₂, h₃, rfl, -⟩ := (addAbonent_eq_some hcount).mp hadd
    exact ((h.putAnswer h₁).putAnswer h₂).putAnswer h₃
  · rw [ArrayDirectory.addAbonent, if_pos (by omega)] at hadd
    obtain rfl := (Prod.mk.inj (Option.some.inj hadd)).1
    exact h

theorem init_abonents (a : ℤ) :
    Directory.init.abonents a = if 0 ≤ a ∧ a < 300 then some nul else none := by
  have hsize : maxAbonent * (3 * maxLength) = 300 := rfl
  simp only [Directory.init, hsize, Memory.ofBytes, List.getElem?_replicate]
  split_ifs <;> first | rfl | omega

theorem whole_init : Whole Directory.init.abonents := by
  intro a
  rw [init_abonents, Ne, ite_eq_right_iff]
  simp

theorem addCall_whole : Preserved addCall fun s => Whole s.abonents := by
  rintro s call s' h hstep
  obtain ⟨⟨t, rest⟩, hadd, rfl⟩ := Option.map_eq_some_iff.mp hstep
  exact h.addAbonent hadd

/-! ### Reading back -/

/-- A word of ten characters cannot be read back when a word starts where it ends. -/
theorem length_lt_of_textAt (hw : TextAt m a w) (hv : TextAt m (a + maxLength) v) (hne : v ≠ [])
    (hlength : w.length ≤ maxLength) : w.length < maxLength := by
  refine lt_of_le_of_ne hlength fun heq => ?_
  have hend := hw.get_length
  obtain ⟨c, v, rfl⟩ := List.exists_cons_of_ne_nil hne
  rw [heq, hv.head] at hend
  obtain rfl : c = nul := Option.some.inj hend
  exact hv.nul_notMem List.mem_cons_self

theorem Call.ne_nil (call : Call) (f : Field) : call.record f ≠ [] := by
  have hreads := call.reads f
  cases f <;> exact (isWord_of_scanWord hreads).ne_nil

theorem putAnswer_some (h : Whole m) (ha : 0 ≤ a) (hend : a + w.length < 300) :
    putAnswer a (some w) m = some (m.overwrite a (w ++ [nul])) := by
  refine Memory.storeAll_eq_some.mpr ⟨fun j hj => (h _).mpr ?_, rfl⟩
  rw [List.length_append, List.length_singleton] at hj
  omega

/-- The array after the three words of a record were stored. -/
def stored (m : Memory) (i : ℤ) (r : Record) : Memory :=
  ((m.overwrite (address i .name) (r .name ++ [nul])).overwrite
    (address i .secondName) (r .secondName ++ [nul])).overwrite (address i .tel) (r .tel ++ [nul])

theorem addCall_eq (h : Whole s.abonents) (hcount : 0 ≤ s.count) (hroom : s.count < maxAbonent)
    (hname : (call.record .name).length < maxLength)
    (hsecond : (call.record .secondName).length < maxLength)
    (htel : (call.record .tel).length < maxLength ∨ s.count + 1 < maxAbonent) :
    addCall s call = some ⟨stored s.abonents s.count call.record, s.count + 1⟩ := by
  have htelLength := call.announced .tel
  have hmax : maxLength = 10 := rfl
  have hten : maxAbonent = 10 := rfl
  have hnameAt : address s.count .name = 30 * s.count + 0 := rfl
  have hsecondAt : address s.count .secondName = 30 * s.count + 10 := rfl
  have htelAt : address s.count .tel = 30 * s.count + 20 := rfl
  have h₁ : putAnswer (address s.count .name) (some (call.record .name)) s.abonents = _ :=
    putAnswer_some h (by omega) (by omega)
  have hwhole₁ := h.putAnswer h₁
  have h₂ : putAnswer (address s.count .secondName) (some (call.record .secondName)) _ = _ :=
    putAnswer_some hwhole₁ (by omega) (by omega)
  have hwhole₂ := hwhole₁.putAnswer h₂
  have h₃ : putAnswer (address s.count .tel) (some (call.record .tel)) _ = _ :=
    putAnswer_some hwhole₂ (by omega) (by omega)
  rw [← call.reads] at h₁ h₂ h₃
  rw [addCall, (addAbonent_eq_some hroom).mpr ⟨_, _, _, h₁, h₂, h₃, rfl, rfl⟩]
  rfl

/-- What is in front of the record stays. -/
theorem textAt_stored_of_lt {i : ℤ} {r : Record} (h : TextAt m a w) (hend : a + w.length < 30 * i) :
    TextAt (stored m i r) a w := by
  have hname := address_bounds i .name
  have hsecond := address_bounds i .secondName
  have htel := address_bounds i .tel
  exact ((h.overwrite (by omega)).overwrite (by omega)).overwrite (by omega)

/-- Each word ends before the next one is stored. -/
theorem textAt_stored {r : Record} (m : Memory) (i : ℤ) (hnul : ∀ f, nul ∉ r f)
    (hname : (r .name).length < maxLength) (hsecond : (r .secondName).length < maxLength)
    (f : Field) : TextAt (stored m i r) (address i f) (r f) := by
  have hmax : maxLength = 10 := rfl
  have hnameAt : address i .name = 30 * i + 0 := rfl
  have hsecondAt : address i .secondName = 30 * i + 10 := rfl
  have htelAt : address i .tel = 30 * i + 20 := rfl
  cases f with
  | name =>
    exact ((TextAt.of_overwrite (hnul .name)).overwrite (by omega)).overwrite (by omega)
  | secondName => exact (TextAt.of_overwrite (hnul .secondName)).overwrite (by omega)
  | tel => exact TextAt.of_overwrite (hnul .tel)

/-- A record is stored whole if its fields end inside themselves; the terminator of the
phone number may be in the next record. -/
theorem addCall_holds (hwhole : Whole s.abonents) (h : Holds s records)
    (hroom : records.length < maxAbonent) (hshort : ∀ r ∈ records, ∀ f, (r f).length < maxLength)
    (hnul : ∀ f, nul ∉ call.record f) (hname : (call.record .name).length < maxLength)
    (hsecond : (call.record .secondName).length < maxLength)
    (htel : (call.record .tel).length < maxLength ∨ records.length + 1 < maxAbonent) :
    ∃ s', addCall s call = some s' ∧ Holds s' (records ++ [call.record]) := by
  have hcount := h.count
  refine ⟨_, addCall_eq hwhole (by omega) (by omega) hname hsecond (by omega), ?_,
    fun i r hr f => ?_⟩
  · rw [List.length_append, List.length_singleton, hcount]
    rfl
  · rcases Nat.lt_or_ge i records.length with hi | hi
    · rw [List.getElem?_append_left hi] at hr
      have hlength := hshort r (List.mem_of_getElem? hr) f
      have hmax : maxLength = 10 := rfl
      have haddress := address_bounds i f
      exact textAt_stored_of_lt (h.fields i r hr f) (by omega)
    · rw [List.getElem?_append_right hi, List.getElem?_singleton] at hr
      obtain ⟨hlast, hcall⟩ := Option.ite_none_right_eq_some.mp hr
      obtain rfl := Option.some.inj hcall
      obtain rfl : i = records.length := by omega
      rw [← hcount]
      exact textAt_stored s.abonents s.count hnul hname hsecond f

/-- With ten records nothing is read and nothing is stored. -/
theorem addCall_full (h : maxAbonent ≤ s.count) : addCall s call = some s := by
  rw [addCall, addAbonent, if_pos h, Option.map_some]

theorem added_concat (h : calls.length < maxAbonent) :
    added (calls ++ [call]) = added calls ++ [call.record] := by
  rw [added, added, List.map_append, List.take_of_length_le, List.take_of_length_le]
  · rfl
  · rw [List.length_map]
    exact h.le
  · simpa using Nat.succ_le_of_lt h

theorem added_concat_full (h : maxAbonent ≤ calls.length) :
    added (calls ++ [call]) = added calls := by
  rw [added, added, List.map_append, List.take_append_of_le_length (by rwa [List.length_map])]

theorem length_added (calls : List Call) : (added calls).length = min maxAbonent calls.length := by
  rw [added, List.length_take, List.length_map]

theorem getElem?_added {i : ℕ} {r : Record} : (added calls)[i]? = some r ↔
    ∃ call, calls[i]? = some call ∧ call.record = r ∧ i < maxAbonent := by
  rw [added, List.getElem?_take]
  split
  · simp [*]
  · simp [*]

/-- Every record but the last one is short. -/
theorem Fits.short (h : Fits calls) (hk : k < calls.length) :
    ∀ r ∈ added (calls.take k), ∀ f, (r f).length < maxLength := by
  intro r hr f
  obtain ⟨i, hi⟩ := List.mem_iff_getElem?.mp hr
  obtain ⟨call, hcall, rfl, hroom⟩ := getElem?_added.mp hi
  rw [List.getElem?_take] at hcall
  obtain ⟨hik, hcall⟩ := Option.ite_none_right_eq_some.mp hcall
  obtain ⟨-, hname, hsecond, htel⟩ := h i call hcall hroom
  cases f with
  | name => exact hname
  | secondName => exact hsecond
  | tel => exact htel.resolve_right (by omega)

theorem run_take_succ (hk : k < calls.length) :
    run addCall .init (calls.take (k + 1)) = some s' ↔
      ∃ s, run addCall .init (calls.take k) = some s ∧ addCall s calls[k] = some s' := by
  rw [List.take_succ_eq_append_getElem hk, run_append_eq_some]
  simp only [run_singleton]

theorem Fits.holds (h : Fits calls) (hk : k ≤ calls.length) :
    ∃ s, run addCall .init (calls.take k) = some s ∧ Holds s (added (calls.take k)) := by
  induction k with
  | zero => exact ⟨_, rfl, rfl, fun i r hr => by simp [added] at hr⟩
  | succ k ih =>
    obtain ⟨s, hrun, hholds⟩ := ih (by omega)
    have hlength : (calls.take k).length = k := List.length_take_of_le (by omega)
    have hadded := length_added (calls.take k)
    have hcount := hholds.count
    have hnext : ∃ s', addCall s calls[k] = some s' ∧ Holds s' (added (calls.take (k + 1))) := by
      -- from the eleventh call on nothing changes
      rw [List.take_succ_eq_append_getElem hk]
      by_cases hroom : k < maxAbonent
      · obtain ⟨hnul, hname, hsecond, htel⟩ := h k _ (List.getElem?_eq_getElem hk) hroom
        rw [added_concat (by omega)]
        exact addCall_holds (addCall_whole.run whole_init hrun) hholds (by omega) (h.short hk) hnul
          hname hsecond (by omega)
      · rw [added_concat_full (by omega)]
        exact ⟨s, addCall_full (by omega), hholds⟩
    obtain ⟨s', hadd, hholds'⟩ := hnext
    exact ⟨s', (run_take_succ hk).mpr ⟨s, hrun, hadd⟩, hholds'⟩

/-- The records are there after call `k`, each in its place. -/
theorem ReadsBack.textAt (h : ReadsBack calls) (hk : k < calls.length) :
    ∃ m, Whole m ∧ ∀ i < k + 1, i < maxAbonent → ∀ call, calls[i]? = some call →
      ∀ f, TextAt m (address i f) (call.record f) := by
  obtain ⟨s, hrun, hholds⟩ := h (k + 1) hk
  refine ⟨s.abonents, addCall_whole.run whole_init hrun, fun i hi hroom call hcall f => ?_⟩
  refine hholds.fields i _ (getElem?_added.mpr ⟨call, ?_, rfl, hroom⟩) f
  rwa [List.getElem?_take, if_pos hi]

theorem ReadsBack.fits (h : ReadsBack calls) : Fits calls := by
  intro i call hcall hroom
  have hi := (List.getElem?_eq_some_iff.mp hcall).1
  obtain ⟨m, hwhole, htexts⟩ := h.textAt hi
  have htext := htexts i (Nat.lt_succ_self i) hroom call hcall
  refine ⟨fun f => (htext f).nul_notMem, ?_, ?_, ?_⟩
  · -- the second name starts where a name of ten characters ends
    exact length_lt_of_textAt (htext .name) (htext .secondName) (call.ne_nil _) (call.announced _)
  · exact length_lt_of_textAt (htext .secondName) (htext .tel) (call.ne_nil _) (call.announced _)
  · by_cases hnext : i + 1 < maxAbonent
    · rcases Nat.lt_or_ge (i + 1) calls.length with hlt | hge
      · -- the next record starts where a phone number of ten characters ends
        obtain ⟨m', -, htexts'⟩ := h.textAt hlt
        have htel := htexts' i (by omega) hroom call hcall .tel
        have hname := htexts' (i + 1) (by omega) hnext _ (List.getElem?_eq_getElem hlt) .name
        have haddress : address i .tel + maxLength = address (i + 1 : ℕ) .name := by
          rw [address, address, Nat.cast_succ, mul_add, add_assoc]
          rfl
        rw [← haddress] at hname
        exact .inl (length_lt_of_textAt htel hname (Call.ne_nil _ _) (call.announced _))
      · exact .inr ⟨by omega, hnext⟩
    · -- the terminator would be the first byte behind the array
      refine .inl (lt_of_le_of_ne (call.announced _) fun hlength => ?_)
      have hend := (htext .tel).get_length
      have hbehind : address i .tel + (call.record .tel).length = 300 := by
        have hten : maxAbonent = 10 := rfl
        rw [hlength, address, show i = 9 by omega]
        rfl
      exact absurd ((hwhole _).mp (by rw [hend]; simp)).2 (by omega)

/-- The records read back are the ones that were typed, and nothing is written outside the
array, exactly if the words fit. -/
theorem readsBack_iff_fits (calls : List Call) : ReadsBack calls ↔ Fits calls :=
  ⟨ReadsBack.fits, fun h _ hk => h.holds hk⟩

/-- A first name of ten characters. -/
def konstantin : Call where
  stdin := "Konstantin Lee 123\n".toList
  record
    | .name => "Konstantin".toList
    | .secondName => "Lee".toList
    | .tel => "123".toList
  reads f := by cases f <;> rfl
  announced f := by cases f <;> decide

/-- The name is read back with the second name behind it. -/
theorem not_readsBack_konstantin : ¬ ReadsBack [konstantin] := by
  intro h
  obtain ⟨-, hname, -⟩ := h.fits 0 konstantin rfl (by decide)
  exact absurd hname (by decide)

end UnixLessons.ArrayDirectory
