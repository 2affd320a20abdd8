import UnixLessons.ArrayDirectory.Adding

/-!
# Deleting from the array

The loop of `Delet_abonent` moves the first nine bytes of each field to the record in front
and leaves the tenth where it is. That is right as long as the tenth byte is a terminator
in every field of the array, also of the records that are not in use.

## Main results

* `Settled.addAbonent`: words of at most nine characters keep these terminators
* `deletAbonent_spec`: what is left after a deletion
-/

namespace UnixLessons.ArrayDirectory

open Text

variable {m m' : Memory} {s s' : Directory} {records : List Record} {i a index : ℤ} {n : ℕ}
  {f : Field}

/-! ### The last bytes -/

/-- The directory at the start. -/
theorem settled_init : Settled Directory.init where
  whole := whole_init
  ended := by
    intro i f hi hi'
    have hten : maxAbonent = 10 := rfl
    have haddress := address_bounds i f
    rw [init_abonents, if_pos (by omega)]
  count_nonneg := le_rfl
  count_le := by decide

theorem Ended.get (h : Ended m) (hlow : 0 ≤ a) (hhigh : a < 300) (hlast : a % 10 = 9) :
    m a = some nul := by
  have hten : maxAbonent = 10 := rfl
  obtain ⟨f, hf⟩ : ∃ f : Field, a = address (a / 30) f + 9 := by
    have hfield : a % 30 = 9 ∨ a % 30 = 19 ∨ a % 30 = 29 := by omega
    rcases hfield with hname | hsecond | htel
    · exact ⟨.name, by rw [address, Field.offset]; omega⟩
    · exact ⟨.secondName, by rw [address, Field.offset]; omega⟩
    · exact ⟨.tel, by rw [address, Field.offset]; omega⟩
  rw [hf]
  exact h _ f (by omega) (by omega)

theorem ended_iff : Ended m ↔ ∀ a, 0 ≤ a → a < 300 → a % 10 = 9 → m a = some nul := by
  refine ⟨fun h a => h.get, fun h i f hi hi' => ?_⟩
  have hten : maxAbonent = 10 := rfl
  have haddress := address_bounds i f
  exact h _ (by omega) (by omega) (by omega)

/-- A word of at most nine characters stays in its field. -/
theorem Settled.putAnswer {answer : Option CString} (hwhole : Whole m) (hended : Ended m)
    (hi : 0 ≤ i) (hi' : i < maxAbonent) (f : Field) (hshort : ∀ w ∈ answer, w.length < maxLength) :
    ∃ m', putAnswer (address i f) answer m = some m' ∧ Whole m' ∧ Ended m' := by
  cases answer with
  | none => exact ⟨m, rfl, hwhole, hended⟩
  | some w =>
    have hlength := hshort w rfl
    have hten : maxAbonent = 10 := rfl
    have hmax : maxLength = 10 := rfl
    have haddress := address_bounds i f
    have hput := putAnswer_some hwhole (a := address i f) (w := w) (by omega) (by omega)
    refine ⟨_, hput, hwhole.putAnswer hput, ended_iff.mpr fun a ha ha' hlast => ?_⟩
    -- the last byte of the field is the terminator of the word, or it is not written
    rcases eq_or_ne a (address i f + w.length) with rfl | hne
    · rw [Memory.overwrite_add (by simp), List.getElem?_concat_length]
    · rw [Memory.overwrite_of_lt, hended.get ha ha' hlast]
      rw [List.length_append, List.length_singleton]
      omega

theorem Settled.addAbonent {stdin : Stdin} (h : Settled s)
    (hshort : ∀ f, ∀ w ∈ answers stdin f, w.length < maxLength) :
    ∃ s' rest, addAbonent s stdin = some (s', rest) ∧ Settled s' := by
  have hle := h.count_le
  have hnonneg := h.count_nonneg
  by_cases hcount : s.count < maxAbonent
  · obtain ⟨m₁, h₁, hwhole₁, hended₁⟩ :=
      Settled.putAnswer h.whole h.ended hnonneg hcount .name (hshort .name)
    obtain ⟨m₂, h₂, hwhole₂, hended₂⟩ :=
      Settled.putAnswer hwhole₁ hended₁ hnonneg hcount .secondName (hshort .secondName)
    obtain ⟨m₃, h₃, hwhole₃, hended₃⟩ :=
      Settled.putAnswer hwhole₂ hended₂ hnonneg hcount .tel (hshort .tel)
    refine ⟨_, _, (addAbonent_eq_some hcount).mpr ⟨m₁, m₂, m₃, h₁, h₂, h₃, rfl, rfl⟩,
      hwhole₃, hended₃, ?_, ?_⟩
    · exact Int.add_nonneg hnonneg (by decide)
    · exact Int.add_one_le_of_lt hcount
  · exact ⟨s, stdin, by rw [ArrayDirectory.addAbonent, if_pos (by omega)], h⟩

/-! ### The loops -/

/-- The array with record `i` cleared. -/
def cleared (m : Memory) (i : ℤ) : Memory :=
  fun a => if 30 * i ≤ a ∧ a < 30 * i + 30 then some nul else m a

/-- The array after `n` rounds of the loop that starts at record `i`. -/
def copied (m : Memory) (i : ℤ) (n : ℕ) : Memory :=
  fun a => if 30 * i ≤ a ∧ a < 30 * (i + n) ∧ a % 10 < 9 then m (a + 30) else m a

theorem Whole.cleared (h : Whole m) (hi : 0 ≤ i) (hi' : i < maxAbonent) : Whole (cleared m i) := by
  have hten : maxAbonent = 10 := rfl
  intro a
  unfold ArrayDirectory.cleared
  split
  · simp only [ne_eq, reduceCtorEq, not_false_eq_true, true_iff]
    omega
  · exact h a

theorem Whole.copied (h : Whole m) (hi : 0 ≤ i) (hn : i + n < maxAbonent) :
    Whole (copied m i n) := by
  have hten : maxAbonent = 10 := rfl
  intro a
  unfold ArrayDirectory.copied
  split
  · rw [h (a + 30)]
    omega
  · exact h a

theorem clearAbonent_eq_cleared (h : Whole m) (hi : 0 ≤ i) (hi' : i < maxAbonent) :
    clearAbonent i m = some (cleared m i) := by
  have hten : maxAbonent = 10 := rfl
  have hmax : maxLength = 10 := rfl
  have hcells : ∀ a, a ∈ cells i maxLength ↔ 30 * i ≤ a ∧ a < 30 * i + 30 := by
    intro a
    rw [mem_cells hmax.le]
    omega
  have hstore := @Memory.foldlM_store m (cells i maxLength) (fun _ _ => some nul)
    (fun a ha => (h a).mpr (by rw [hcells] at ha; omega)) (fun _ _ => Option.some_ne_none _)
    (List.pairwise_of_forall fun _ _ _ _ => rfl)
  rw [clearAbonent_eq]
  simp only [Option.bind_some, hcells] at hstore
  exact hstore

/-- Whatever is in the array when `main` starts, the menu finds all records cleared. -/
theorem clearAbonents_eq_init (h : Whole m) :
    clearAbonents m = some Directory.init.abonents := by
  have hten : maxAbonent = 10 := rfl
  have hloop : ∀ n ≤ maxAbonent,
      (List.range n).foldlM (fun m (i : ℕ) => clearAbonent i m) m =
        some fun a : ℤ => if 0 ≤ a ∧ a < 30 * n then some nul else m a := by
    intro n hn
    induction n with
    | zero =>
      have hnone : ∀ a : ℤ, ¬ (0 ≤ a ∧ a < 30 * (0 : ℕ)) := by
        intro a
        omega
      simp only [hnone, if_false]
      rfl
    | succ n ih =>
      have hwhole : Whole fun a : ℤ => if 0 ≤ a ∧ a < 30 * n then some nul else m a := by
        intro a
        dsimp only
        split
        · simp only [ne_eq, reduceCtorEq, not_false_eq_true, true_iff]
          omega
        · exact h a
      have hclear := clearAbonent_eq_cleared hwhole (i := n) (by omega) (by omega)
      rw [List.range_succ, List.foldlM_append, ih (by omega), Option.bind_eq_bind,
        Option.bind_some]
      simp only [List.foldlM_cons, List.foldlM_nil, bind_pure, hclear]
      congr 1
      funext a
      simp only [cleared]
      split_ifs <;> first | rfl | omega
  rw [clearAbonents, hloop maxAbonent le_rfl]
  congr 1
  funext a
  rw [init_abonents]
  split_ifs with hin hall hall
  · rfl
  · omega
  · omega
  · by_contra hne
    exact hall ((h a).mp hne)

/-- The loop moves what is in the first nine bytes of the fields, and no byte is read after
it was written. -/
theorem copyAbonents_eq_copied (h : Whole m) (hi : 0 ≤ i) (hn : i + n < maxAbonent) :
    (List.range n).foldlM (fun m (k : ℕ) => copyAbonent (i + k) m) m = some (copied m i n) := by
  have hten : maxAbonent = 10 := rfl
  have hle : maxLength - 1 ≤ 10 := by decide
  have hnine : ((maxLength - 1 : ℕ) : ℤ) = 9 := rfl
  have hcells : ∀ a, a ∈ (List.range n).flatMap (fun k : ℕ => cells (i + k) (maxLength - 1)) ↔
      30 * i ≤ a ∧ a < 30 * (i + n) ∧ a % 10 < 9 := by
    intro a
    simp only [List.mem_flatMap, List.mem_range, mem_cells hle]
    constructor
    · rintro ⟨k, hk, hlow, hhigh, hbyte⟩
      omega
    · rintro ⟨hlow, hhigh, hbyte⟩
      exact ⟨((a - 30 * i) / 30).toNat, by omega, by omega, by omega, by omega⟩
  have hstore := @Memory.foldlM_store m
    ((List.range n).flatMap fun k : ℕ => cells (i + k) (maxLength - 1)) (fun d m => m (d + 30))
    (fun a ha => (h a).mpr (by rw [hcells] at ha; omega))
    (fun a ha => (h (a + 30)).mpr (by rw [hcells] at ha; omega)) ?_
  · rw [foldlM_flatMap] at hstore
    simp only [hcells] at hstore
    simp only [copyAbonent_eq, hstore]
    rfl
  · -- what is read lies in the record behind the one that is written
    have hreads : ∀ d e : ℤ, d < e + 30 → ∀ (m : Memory) b,
        Function.update m d b (e + 30) = m (e + 30) :=
      fun d e hlt m b => Function.update_of_ne (by omega) _ _
    refine List.pairwise_flatMap.mpr ⟨fun k _ => ?_, ?_⟩
    · refine List.pairwise_of_forall_mem_list fun d hd e he => hreads d e ?_
      rw [mem_cells hle] at hd he
      omega
    · refine List.pairwise_lt_range.imp fun hlt d hd e he => hreads d e ?_
      rw [mem_cells hle] at hd he
      omega

/-! ### What a deletion leaves -/

/-- The array with the records behind record `i` moved up to the place `last`, which is
cleared. -/
def movedUp (m : Memory) (i last : ℤ) : Memory := fun a =>
  if 30 * last ≤ a ∧ a < 30 * last + 30 then some nul
  else if 30 * i ≤ a ∧ a < 30 * last then m (a + 30)
  else m a

/-- The tenth bytes are terminators before and after: record `i` was cleared. -/
theorem cleared_copied_cleared (h : Ended m) (hi : 0 ≤ i) (hn : i + n < maxAbonent) :
    cleared (copied (cleared m i) i n) (i + n) = movedUp m i (i + n) := by
  have hten : maxAbonent = 10 := rfl
  funext a
  simp only [cleared, copied, movedUp]
  by_cases hlast : 30 * (i + n) ≤ a ∧ a < 30 * (i + n) + 30
  · rw [if_pos hlast, if_pos hlast]
  · rw [if_neg hlast, if_neg hlast]
    by_cases hmoved : 30 * i ≤ a ∧ a < 30 * (i + n)
    · rw [if_pos hmoved]
      by_cases hbyte : a % 10 < 9
      · rw [if_pos ⟨hmoved.1, hmoved.2, hbyte⟩, if_neg (by omega)]
      · -- a tenth byte, which is not moved
        rw [if_neg (by omega), h.get (by omega) (by omega) (by omega),
          h.get (by omega) (by omega) (by omega), ite_self]
    · rw [if_neg hmoved, if_neg (by omega), if_neg (by omega)]

/-- The three loops, whatever is in the array. -/
theorem deletAbonent_eq_cleared (h : Whole s.abonents) (hcount : s.count ≤ maxAbonent)
    (hindex : 1 ≤ index) (hle : index ≤ s.count) : ∃ n : ℕ, s.count - 1 = index - 1 + n ∧
      deletAbonent s index = some ⟨cleared (copied (cleared s.abonents (index - 1)) (index - 1) n)
        (s.count - 1), s.count - 1⟩ := by
  have hten : maxAbonent = 10 := rfl
  obtain ⟨n, hn⟩ : ∃ n : ℕ, s.count - 1 - (index - 1) = n := Int.eq_ofNat_of_zero_le (by omega)
  have hlast : s.count - 1 = index - 1 + n := by omega
  have hwhole := h.cleared (i := index - 1) (by omega) (by omega)
  have hcopied := hwhole.copied (i := index - 1) (n := n) (by omega) (by omega)
  refine ⟨n, hlast, ?_⟩
  simp only [deletAbonent, if_neg (show ¬ (index < 1 ∨ s.count < index) by omega),
    clearAbonent_eq_cleared h (i := index - 1) (by omega) (by omega), hn, Int.toNat_natCast,
    copyAbonents_eq_copied hwhole (by omega) (show index - 1 + n < maxAbonent by omega),
    clearAbonent_eq_cleared hcopied (i := s.count - 1) (by omega) (by omega),
    Option.bind_eq_bind, Option.bind_some]

theorem deletAbonent_eq (h : Settled s) (hindex : 1 ≤ index) (hle : index ≤ s.count) :
    deletAbonent s index = some ⟨movedUp s.abonents (index - 1) (s.count - 1), s.count - 1⟩ := by
  have hcount := h.count_le
  obtain ⟨n, hlast, hdelete⟩ := deletAbonent_eq_cleared h.whole hcount hindex hle
  rw [hdelete, hlast, cleared_copied_cleared h.ended (by omega) (by omega)]

theorem Whole.movedUp {last : ℤ} (h : Whole m) (hi : 0 ≤ i) (hlast : last < maxAbonent)
    (hle : i ≤ last) : Whole (movedUp m i last) := by
  have hten : maxAbonent = 10 := rfl
  intro a
  unfold ArrayDirectory.movedUp
  split
  · simp only [ne_eq, reduceCtorEq, not_false_eq_true, true_iff]
    omega
  · split
    · rw [h (a + 30)]
      omega
    · exact h a

theorem Ended.movedUp {last : ℤ} (h : Ended m) (hlast : last < maxAbonent) :
    Ended (movedUp m i last) := by
  have hten : maxAbonent = 10 := rfl
  refine ended_iff.mpr fun a ha ha' hbyte => ?_
  unfold ArrayDirectory.movedUp
  split
  · rfl
  · split
    · exact h.get (by omega) (by omega) (by omega)
    · exact h.get ha ha' hbyte

theorem Settled.deletAbonent (h : Settled s) (hdelete : deletAbonent s index = some s') :
    Settled s' := by
  have hten : maxAbonent = 10 := rfl
  have hcount := h.count_le
  by_cases hindex : index < 1 ∨ s.count < index
  · rw [ArrayDirectory.deletAbonent, if_pos hindex] at hdelete
    rwa [← Option.some.inj hdelete]
  · rw [deletAbonent_eq h (by omega) (by omega)] at hdelete
    rw [← Option.some.inj hdelete]
    exact ⟨h.whole.movedUp (by omega) (by omega) (by omega), h.ended.movedUp (by omega),
      (show (0 : ℤ) ≤ s.count - 1 by omega), (show s.count - 1 ≤ maxAbonent by omega)⟩

/-- The texts end in their fields. -/
theorem Holds.length_le (h : Holds s records) (hsettled : Settled s) {k : ℕ} {r : Record}
    (hr : records[k]? = some r) (f : Field) : (r f).length ≤ 9 := by
  have hk := (List.getElem?_eq_some_iff.mp hr).1
  have hcount := h.count
  have hle := hsettled.count_le
  exact (h.fields k r hr f).length_le (hsettled.ended k f (by omega) (by omega))

theorem Settled.exists_holds (h : Settled s) : ∃ records, Holds s records := by
  have hten : maxAbonent = 10 := rfl
  have hle := h.count_le
  have hnonneg := h.count_nonneg
  have htext : ∀ (i : Fin s.count.toNat) f, ∃ t, TextAt s.abonents (address (i : ℕ) f) t := by
    intro i f
    have hi := i.isLt
    have haddress := address_bounds (i : ℕ) f
    exact exists_textAt (n := 9) (fun j hj => (h.whole _).mpr (by omega))
      (h.ended _ f (by omega) (by omega))
  choose r hr using htext
  refine ⟨List.ofFn r, ?_, fun i t ht f => ?_⟩
  · rw [List.length_ofFn]
    omega
  · obtain ⟨hi, rfl⟩ := List.getElem?_eq_some_iff.mp ht
    rw [List.length_ofFn] at hi
    rw [List.getElem_ofFn]
    exact hr ⟨i, hi⟩ f

/-- The records in front of the deleted one stay, the ones behind it move up. -/
theorem Holds.movedUp (h : Holds s records) (hsettled : Settled s) {k : ℕ}
    (hk : k < records.length) :
    Holds ⟨movedUp s.abonents k (s.count - 1), s.count - 1⟩ (records.eraseIdx k) := by
  have hcount := h.count
  refine ⟨?_, fun i r hr f => ?_⟩
  · rw [List.length_eraseIdx_of_lt hk]
    change s.count - 1 = _
    omega
  · rw [List.getElem?_eraseIdx] at hr
    split at hr
    · rename_i hik
      have hlength := h.length_le hsettled hr f
      refine (h.fields i r hr f).copied fun j hj => ?_
      have haddress := address_bounds i f
      simp only [ArrayDirectory.movedUp]
      rw [if_neg (by omega), if_neg (by omega)]
    · rename_i hik
      have hi := (List.getElem?_eq_some_iff.mp hr).1
      have hlength := h.length_le hsettled hr f
      refine (h.fields (i + 1) r hr f).copied fun j hj => ?_
      have hnext : address (i + 1 : ℕ) f = address i f + 30 := by
        rw [address, address, Nat.cast_succ]
        omega
      have haddress := address_bounds i f
      simp only [ArrayDirectory.movedUp]
      rw [if_neg (by omega), if_pos (by omega), hnext]
      congr 1
      omega

/-- For every directory whose fields end inside themselves, and every number typed: one of
the records is deleted and the others keep their texts and their order, or, if there is no
such record, nothing changes. The start and additions of words of at most nine characters
give such directories, and the deletion does too. -/
theorem deletAbonent_spec (h : Settled s) (index : ℤ) :
    Settled Directory.init ∧
    (∀ stdin, (∀ f, ∀ w ∈ answers stdin f, w.length < maxLength) →
      ∃ s' rest, addAbonent s stdin = some (s', rest) ∧ Settled s') ∧
    ∃ records s', Holds s records ∧ deletAbonent s index = some s' ∧ Settled s' ∧
      if 1 ≤ index ∧ index ≤ s.count then
        Holds s' (records.eraseIdx (index - 1).toNat) ∧ s'.count = s.count - 1 ∧
        ∀ a, 30 * s'.count ≤ a → a < 30 * s'.count + 30 → s'.abonents a = some nul
      else s' = s := by
  refine ⟨settled_init, fun stdin hshort => h.addAbonent hshort, ?_⟩
  obtain ⟨records, hrecords⟩ := h.exists_holds
  by_cases hindex : 1 ≤ index ∧ index ≤ s.count
  · have hdelete := deletAbonent_eq h hindex.1 hindex.2
    refine ⟨records, _, hrecords, hdelete, h.deletAbonent hdelete, ?_⟩
    have hcount := hrecords.count
    have hplace : index - 1 = ((index - 1).toNat : ℤ) := by omega
    rw [if_pos hindex]
    refine ⟨?_, rfl, fun a hlow hhigh => if_pos ⟨hlow, hhigh⟩⟩
    have hmoved := hrecords.movedUp h (k := (index - 1).toNat) (by omega)
    rwa [← hplace] at hmoved
  · have hdelete : deletAbonent s index = some s := by
      rw [ArrayDirectory.deletAbonent, if_pos (by omega)]
    refine ⟨records, s, hrecords, hdelete, h, ?_⟩
    rw [if_neg hindex]

/-- A call with short words while there is room. -/
theorem Settled.addCall {call : Call} (h : Settled s) (hcount : s.count < maxAbonent)
    (hshort : ∀ f, (call.record f).length < maxLength) :
    ∃ s', ArrayDirectory.addCall s call = some s' ∧ Settled s' ∧ s'.count = s.count + 1 := by
  have hanswers : ∀ f, ∀ w ∈ answers call.stdin f, w.length < maxLength := by
    intro f w hw
    rw [call.reads f] at hw
    obtain rfl := Option.some.inj hw
    exact hshort f
  obtain ⟨s', rest, hadd, hsettled⟩ := h.addAbonent hanswers
  obtain ⟨_, _, _, -, -, -, rfl, -⟩ := (addAbonent_eq_some hcount).mp hadd
  exact ⟨_, by rw [ArrayDirectory.addCall, hadd, Option.map_some], hsettled, rfl⟩

def annLee : Call where
  stdin := "Ann Lee 123\n".toList
  record
    | .name => "Ann".toList
    | .secondName => "Lee".toList
    | .tel => "123".toList
  reads f := by cases f <;> rfl
  announced f := by cases f <;> decide

def joKim : Call where
  stdin := "Jo Kim 4567\n".toList
  record
    | .name => "Jo".toList
    | .secondName => "Kim".toList
    | .tel => "4567".toList
  reads f := by cases f <;> rfl
  announced f := by cases f <;> decide

/-- Two records are added. The first one is deleted and the second moves up. -/
theorem deletAbonent_spec_annLee_joKim : ∃ s₁ s₂ records s',
    addCall .init annLee = some s₁ ∧ addCall s₁ joKim = some s₂ ∧ s₂.count = 2 ∧
      Holds s₂ records ∧ deletAbonent s₂ 1 = some s' ∧ Holds s' (records.eraseIdx 0) ∧
      s'.count = 1 := by
  obtain ⟨s₁, hadd₁, hsettled₁, hcount₁⟩ :=
    @Settled.addCall _ annLee settled_init (by decide) fun f => by cases f <;> decide
  have hone : s₁.count = 1 := hcount₁
  obtain ⟨s₂, hadd₂, hsettled₂, hcount₂⟩ :=
    @Settled.addCall _ joKim hsettled₁ (by rw [hone]; decide) fun f => by cases f <;> decide
  have htwo : s₂.count = 2 := by omega
  obtain ⟨-, -, records, s', hrecords, hdelete, -, hresult⟩ := deletAbonent_spec hsettled₂ 1
  rw [if_pos (by omega)] at hresult
  obtain ⟨hholds, hless, -⟩ := hresult
  exact ⟨s₁, s₂, records, s', hadd₁, hadd₂, htwo, hrecords, hdelete, hholds, by omega⟩

end UnixLessons.ArrayDirectory
