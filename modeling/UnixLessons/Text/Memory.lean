import Mathlib.Data.Int.Notation
import Mathlib.Logic.Function.Basic
import UnixLessons.Text.CString

/-!
# Strings in memory

The bytes a function can get at, by their addresses. Reading or writing anywhere else
fails, so a call that succeeds on a part of the memory has touched nothing but that part.

`TextAt` says that a terminated string is stored at an address. Its rules follow a string
through writes elsewhere, and through the write that cuts it in two.
-/

namespace UnixLessons.Text

/-- The byte at each address that may be accessed. -/
abbrev Memory := ℤ → Option Char

namespace Memory

/-- An object that starts at address 0. -/
def ofBytes (bytes : List Char) : Memory :=
  fun a => if a < 0 then none else bytes[a.toNat]?

/-- The part of the memory between two addresses. -/
def restrict (m : Memory) (first last : ℤ) : Memory :=
  fun a => if first ≤ a ∧ a ≤ last then m a else none

def store (m : Memory) (a : ℤ) (c : Char) : Option Memory :=
  (m a).map fun _ => Function.update m a (some c)

/-- The first address from `a` on whose byte meets `p`; `none` when a byte cannot be read
or the fuel runs out. -/
def scan (m : Memory) (p : Char → Bool) : ℕ → ℤ → Option ℤ
  | 0, _ => none
  | fuel + 1, a => do
    let c ← m a
    if p c then some a else scan m p fuel (a + 1)

/-- Some bytes stored one after the other. -/
def storeAll : List Char → Memory → ℤ → Option Memory
  | [], m, _ => some m
  | c :: cs, m, a => (m.store a c).bind fun m => storeAll cs m (a + 1)

/-- What is there after some bytes were stored at `a`. -/
def overwrite (m : Memory) (a : ℤ) (bytes : List Char) : Memory :=
  fun i => if a ≤ i ∧ i < a + bytes.length then bytes[(i - a).toNat]? else m i

end Memory

/-- The string `s` is stored at `a`, with its terminator. -/
structure TextAt (m : Memory) (a : ℤ) (s : CString) : Prop where
  nul_notMem : nul ∉ s
  bytes : ∀ j ≤ s.length, m (a + j) = (s ++ [nul])[j]?

variable {m m' : Memory} {a : ℤ} {p s t : CString} {c : Char} {q : Char → Bool} {fuel : ℕ}

namespace Memory

theorem store_eq_some {b : Memory} : m.store a c = some b ↔
    m a ≠ none ∧ b = Function.update m a (some c) := by
  rw [store]
  cases m a <;> simp [eq_comm]

theorem overwrite_of_lt {bytes : List Char} {i : ℤ} (h : i < a ∨ a + bytes.length ≤ i) :
    m.overwrite a bytes i = m i :=
  if_neg (by omega)

theorem overwrite_add {bytes : List Char} {j : ℕ} (h : j < bytes.length) :
    m.overwrite a bytes (a + j) = bytes[j]? := by
  rw [overwrite, if_pos (by omega), add_sub_cancel_left, Int.toNat_natCast]

/-- A loop that writes one byte in each round. As long as no round reads what an earlier one
has written, each byte is the one that its round finds in the memory before the loop. -/
theorem foldlM_store {ds : List ℤ} (value : ℤ → Memory → Option Char)
    (hmapped : ∀ d ∈ ds, m d ≠ none) (hvalue : ∀ d ∈ ds, value d m ≠ none)
    (hreads : ds.Pairwise fun d e =>
      ∀ (m : Memory) b, value e (Function.update m d b) = value e m) :
    ds.foldlM (fun m d => (value d m).bind (m.store d)) m =
      some fun i => if i ∈ ds then value i m else m i := by
  induction ds generalizing m with
  | nil => simp
  | cons d ds ih =>
    rw [List.pairwise_cons] at hreads
    obtain ⟨b, hb⟩ := Option.ne_none_iff_exists'.mp (hvalue d List.mem_cons_self)
    have hsame : ∀ e ∈ ds, value e (Function.update m d (some b)) = value e m :=
      fun e he => hreads.1 e he m _
    have hstore : m.store d b = some (Function.update m d (some b)) :=
      store_eq_some.mpr ⟨hmapped d List.mem_cons_self, rfl⟩
    rw [List.foldlM_cons, hb, Option.bind_some, hstore, Option.bind_eq_bind, Option.bind_some, ih]
    · congr 1
      funext i
      by_cases hi : i ∈ ds
      · -- a later round writes the byte, perhaps again
        rw [if_pos hi, if_pos (List.mem_cons_of_mem d hi), hsame i hi]
      · rcases eq_or_ne i d with rfl | hne
        · rw [if_neg hi, if_pos List.mem_cons_self, Function.update_self, hb]
        · rw [if_neg hi, if_neg (by simp [hne, hi]), Function.update_of_ne hne]
    · intro e he
      rcases eq_or_ne e d with rfl | hne
      · simp
      · rw [Function.update_of_ne hne]
        exact hmapped e (List.mem_cons_of_mem d he)
    · intro e he
      rw [hsame e he]
      exact hvalue e (List.mem_cons_of_mem d he)
    · exact hreads.2

/-- Bytes can be stored exactly where there are bytes. -/
theorem storeAll_eq_some {bytes : List Char} {m' : Memory} : storeAll bytes m a = some m' ↔
    (∀ j < bytes.length, m (a + j) ≠ none) ∧ m' = m.overwrite a bytes := by
  induction bytes generalizing m a with
  | nil =>
    have hsame : m.overwrite a [] = m := funext fun i => overwrite_of_lt (by simp; omega)
    simp [storeAll, hsame, eq_comm]
  | cons c bytes ih =>
    have hover : overwrite (Function.update m a (some c)) (a + 1) bytes =
        m.overwrite a (c :: bytes) := by
      funext i
      rw [overwrite, overwrite, List.length_cons, Nat.cast_succ]
      rcases lt_trichotomy i a with hlt | rfl | hgt
      · rw [if_neg (by omega), if_neg (by omega), Function.update_of_ne hlt.ne]
      · rw [if_neg (by omega), if_pos (by omega), Function.update_self, sub_self]
        rfl
      · have hnext : (i - a).toNat = (i - (a + 1)).toNat + 1 := by omega
        rw [hnext, List.getElem?_cons_succ, Function.update_of_ne hgt.ne']
        split_ifs <;> first | rfl | omega
    have hmapped : (∀ j < (c :: bytes).length, m (a + j) ≠ none) ↔
        m a ≠ none ∧ ∀ j < bytes.length, Function.update m a (some c) (a + 1 + j) ≠ none := by
      rw [List.length_cons, Nat.forall_lt_succ_left, Nat.cast_zero, add_zero]
      refine and_congr_right fun _ => forall₂_congr fun j _ => ?_
      rw [Function.update_of_ne (by omega), Nat.cast_succ, add_assoc, add_comm (1 : ℤ)]
    rw [storeAll, Option.bind_eq_some_iff, hmapped, ← hover]
    simp only [store_eq_some, ih, and_assoc, exists_and_left, exists_eq_left]

end Memory

/-- A string in an object, wherever it starts. -/
theorem textAt_ofBytes {before behind : List Char} (h : nul ∉ s) :
    TextAt (.ofBytes (before ++ s ++ nul :: behind)) before.length s := by
  refine ⟨h, fun j hj => ?_⟩
  rw [Memory.ofBytes, if_neg (by omega), ← Nat.cast_add, Int.toNat_natCast, List.append_assoc,
    List.getElem?_append_right (Nat.le_add_right _ _), Nat.add_sub_cancel_left]
  rcases Nat.lt_or_eq_of_le hj with hlt | rfl
  · rw [List.getElem?_append_left hlt, List.getElem?_append_left hlt]
  · rw [List.getElem?_append_right le_rfl, List.getElem?_append_right le_rfl, Nat.sub_self]
    rfl

/-- There is a string wherever a terminator comes later. -/
theorem exists_textAt {n : ℕ} (hmapped : ∀ j < n, m (a + j) ≠ none) (hend : m (a + n) = some nul) :
    ∃ s, TextAt m a s := by
  induction n generalizing a with
  | zero =>
    refine ⟨[], List.not_mem_nil, fun j hj => ?_⟩
    obtain rfl := Nat.le_zero.mp hj
    exact hend
  | succ n ih =>
    obtain ⟨c, hc⟩ := Option.ne_none_iff_exists'.mp (hmapped 0 (Nat.succ_pos n))
    rw [Nat.cast_zero, add_zero] at hc
    by_cases hnul : c = nul
    · refine ⟨[], List.not_mem_nil, fun j hj => ?_⟩
      obtain rfl := Nat.le_zero.mp hj
      rw [Nat.cast_zero, add_zero, hc, hnul]
      rfl
    · have hnext : ∀ j : ℕ, a + 1 + j = a + (j + 1 : ℕ) := by
        intro j
        omega
      obtain ⟨s, hs⟩ := @ih (a + 1) (fun j hj => by rw [hnext]; exact hmapped _ (by omega))
        (by rw [hnext]; exact hend)
      refine ⟨c :: s, by simp [Ne.symm hnul, hs.nul_notMem], fun j hj => ?_⟩
      cases j with
      | zero => rw [Nat.cast_zero, add_zero, hc]; rfl
      | succ j =>
        rw [← hnext]
        exact hs.bytes j (Nat.le_of_succ_le_succ hj)

namespace TextAt

theorem congr (h : TextAt m a s) (hsame : ∀ j, a ≤ j → j ≤ a + s.length → m' j = m j) :
    TextAt m' a s := by
  refine ⟨h.nul_notMem, fun j hj => ?_⟩
  rw [hsame (a + j) (by omega) (by omega)]
  exact h.bytes j hj

/-- The string ends where its terminator is, so an address holds one string only. -/
theorem unique (hs : TextAt m a s) (ht : TextAt m a t) : s = t := by
  induction s generalizing a t with
  | nil =>
    cases t with
    | nil => rfl
    | cons d t =>
      have hfirst := (hs.bytes 0 (Nat.zero_le _)).symm.trans (ht.bytes 0 (Nat.zero_le _))
      obtain rfl : nul = d := Option.some.inj hfirst
      exact absurd List.mem_cons_self ht.nul_notMem
  | cons c s ih =>
    have hfirst := fun h => (hs.bytes 0 (Nat.zero_le _)).symm.trans (ht.bytes 0 h)
    cases t with
    | nil =>
      obtain rfl : c = nul := Option.some.inj (hfirst (Nat.zero_le _))
      exact absurd List.mem_cons_self hs.nul_notMem
    | cons d t =>
      obtain rfl : c = d := Option.some.inj (hfirst (Nat.zero_le _))
      have htail : ∀ {u}, TextAt m a (c :: u) → TextAt m (a + 1) u := by
        intro u hu
        refine ⟨fun h => hu.nul_notMem (List.mem_cons_of_mem c h), fun j hj => ?_⟩
        have hbyte := hu.bytes (j + 1) (Nat.succ_le_succ hj)
        rwa [Nat.cast_add, Nat.cast_one, add_comm (j : ℤ), ← add_assoc] at hbyte
      rw [ih (htail hs) (htail ht)]

/-- A copy of a string, terminator included. -/
theorem copied {b : ℤ} (h : TextAt m a s) (hsame : ∀ j : ℕ, j ≤ s.length → m' (b + j) = m (a + j)) :
    TextAt m' b s :=
  ⟨h.nul_notMem, fun j hj => (hsame j hj).trans (h.bytes j hj)⟩

/-- A string ends at the first terminator. -/
theorem length_le (h : TextAt m a s) {j : ℕ} (hj : m (a + j) = some nul) : s.length ≤ j := by
  by_contra hlt
  rw [not_le] at hlt
  have hbyte := h.bytes j hlt.le
  rw [hj, List.getElem?_append_left hlt] at hbyte
  exact h.nul_notMem (List.mem_of_getElem? hbyte.symm)

/-- The end of a string is a string. -/
theorem drop (h : TextAt m a (p ++ s)) : TextAt m (a + p.length) s := by
  refine ⟨fun hmem => h.nul_notMem (List.mem_append_right p hmem), fun j hj => ?_⟩
  have hbyte := h.bytes (p.length + j) (by rw [List.length_append]; omega)
  rw [List.append_assoc, List.getElem?_append_right (Nat.le_add_right _ _),
    Nat.add_sub_cancel_left, Nat.cast_add, ← add_assoc] at hbyte
  exact hbyte

theorem head (h : TextAt m a s) : m a = (s ++ [nul]).head? := by
  have hbyte := h.bytes 0 (Nat.zero_le _)
  rwa [Nat.cast_zero, add_zero, ← List.head?_eq_getElem?] at hbyte

/-- The terminator. -/
theorem get_length (h : TextAt m a s) : m (a + s.length) = some nul := by
  have hbyte := h.bytes s.length le_rfl
  rwa [List.getElem?_append_right le_rfl, Nat.sub_self] at hbyte

/-- A scan stops at the first byte that meets the condition, the terminator at the latest. -/
theorem scan (h : TextAt m a (p ++ s)) (hp : ∀ c ∈ p, q c = false)
    (hs : ∀ c ∈ (s ++ [nul]).head?, q c = true) (hfuel : p.length < fuel) :
    m.scan q fuel a = some (a + p.length) := by
  induction p generalizing a fuel with
  | nil =>
    obtain ⟨fuel, rfl⟩ := Nat.exists_eq_succ_of_ne_zero (Nat.ne_zero_of_lt hfuel)
    have hhead : m a = (s ++ [nul]).head? := h.head
    obtain ⟨c, hc⟩ : ∃ c, (s ++ [nul]).head? = some c := by cases s <;> exact ⟨_, rfl⟩
    have hstop : q c = true := hs c hc
    simp [Memory.scan, hhead, hc, hstop]
  | cons d p ih =>
    obtain ⟨fuel, rfl⟩ := Nat.exists_eq_succ_of_ne_zero (Nat.ne_zero_of_lt hfuel)
    have hhead : m a = some d := h.head
    have hgo : q d = false := hp d List.mem_cons_self
    have hrest : TextAt m (a + 1) (p ++ s) := @drop m a [d] (p ++ s) h
    have hscan := ih hrest (fun c hc => hp c (List.mem_cons_of_mem d hc))
      (Nat.lt_of_succ_lt_succ hfuel)
    simp only [Memory.scan, hhead, Option.bind_eq_bind, Option.bind_some, hgo,
      Bool.false_eq_true, if_false, hscan, List.length_cons, Nat.cast_add, Nat.cast_one]
    congr 1
    omega

/-- Any byte of a string can be overwritten, and its terminator too. -/
theorem store (h : TextAt m a s) {j : ℕ} (hj : j ≤ s.length) (c : Char) :
    m.store (a + j) c = some (Function.update m (a + j) (some c)) := by
  obtain ⟨d, hd⟩ : ∃ d, m (a + j) = some d := by
    rw [h.bytes j hj]
    exact ⟨_, List.getElem?_eq_getElem (by rw [List.length_append, List.length_singleton]; omega)⟩
  rw [Memory.store, hd, Option.map_some]

/-- A terminator written into a string ends it there. -/
theorem cut (h : TextAt m a (p ++ s)) :
    TextAt (Function.update m (a + p.length) (some nul)) a p := by
  refine ⟨fun hmem => h.nul_notMem (List.mem_append_left s hmem), fun j hj => ?_⟩
  rcases Nat.lt_or_eq_of_le hj with hlt | rfl
  · rw [Function.update_of_ne (by omega), h.bytes j (by rw [List.length_append]; omega),
      List.append_assoc, List.getElem?_append_left hlt, List.getElem?_append_left hlt]
  · rw [Function.update_self, List.getElem?_append_right le_rfl, Nat.sub_self]
    rfl

/-- A string is there after it was stored with its terminator. -/
theorem of_overwrite (h : nul ∉ s) : TextAt (m.overwrite a (s ++ [nul])) a s := by
  refine ⟨h, fun j hj => Memory.overwrite_add ?_⟩
  rw [List.length_append, List.length_singleton]
  omega

theorem overwrite {bytes : List Char} {i : ℤ} (h : TextAt m a s)
    (hi : i + bytes.length ≤ a ∨ a + s.length < i) : TextAt (m.overwrite i bytes) a s :=
  h.congr fun j hj hj' => Memory.overwrite_of_lt (by omega)

/-- A write outside a string. -/
theorem update (h : TextAt m a s) {i : ℤ} (hi : i < a ∨ a + s.length < i) (b : Option Char) :
    TextAt (Function.update m i b) a s :=
  h.congr fun j hj hj' => Function.update_of_ne (by omega) _ _

end TextAt

end UnixLessons.Text
