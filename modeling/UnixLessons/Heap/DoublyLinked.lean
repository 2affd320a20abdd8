import Mathlib.Data.List.AList
import Mathlib.Data.List.Induction
import Mathlib.Data.List.Perm.Subperm

/-!
# Doubly linked lists on a heap

A heap is a finite map from addresses to cells, a cell is a value with a pointer
to the next and to the previous cell. Reading, writing or freeing an address
that is not allocated fails.

A list of addresses with their values is laid out as a segment when every cell
points to its neighbours. Loops that follow one of the two links are given with a
fuel; on a whole list one more than the number of cells is enough.

## Main results

* `segment_append`: a segment is cut anywhere
* `Segment.setNext`, `Segment.setPrev`: its ends are redirected
* `Segment.foldLinks_next`, `Segment.foldLinks_prev`, `Segment.findLink_eq`,
  `DList.freeLinks_eq`: what the loops compute
* `DList.push`, `DList.remove`: a cell is linked behind the others, or unlinked
-/

namespace UnixLessons.Linked

variable {α β : Type*}

/-- A value with its two links. -/
structure Cell (α : Type*) where
  value : α
  next : Option ℕ
  prev : Option ℕ
deriving DecidableEq

/-- The allocated cells by address. -/
abbrev Heap (α : Type*) := AList fun _ : ℕ => Cell α

/-- Write to a cell. -/
def modify (h : Heap α) (a : ℕ) (f : Cell α → Cell α) : Option (Heap α) :=
  (h.lookup a).map fun c => h.insert a (f c)

/-- Write the next pointer of a cell, if there is a cell to write to. -/
def linkNext (h : Heap α) (p q : Option ℕ) : Option (Heap α) :=
  match p with
  | some a => modify h a fun c => { c with next := q }
  | none => some h

/-- Write the previous pointer of a cell, if there is a cell to write to. -/
def linkPrev (h : Heap α) (q p : Option ℕ) : Option (Heap α) :=
  match q with
  | some a => modify h a fun c => { c with prev := p }
  | none => some h

/-- Give a cell back. -/
def free (h : Heap α) (a : ℕ) : Option (Heap α) :=
  if a ∈ h then some (h.erase a) else none

/-- The address of the first node, or `q` when there is none. -/
def first : List (ℕ × α) → Option ℕ → Option ℕ
  | [], q => q
  | (a, _) :: _, _ => some a

/-- The address of the last node, or `p` when there is none. -/
def last : Option ℕ → List (ℕ × α) → Option ℕ
  | p, [] => p
  | _, (a, _) :: xs => last (some a) xs

/-- The nodes `xs` are linked up, the first back to `p` and the last on to `q`. -/
def Segment (h : Heap α) : Option ℕ → List (ℕ × α) → Option ℕ → Prop
  | _, [], _ => True
  | p, (a, v) :: xs, q => h.lookup a = some ⟨v, first xs q, p⟩ ∧ Segment h (some a) xs q

variable {h h' : Heap α} {p q p' q' : Option ℕ} {a b : ℕ} {v w : α}
variable {xs ys : List (ℕ × α)} {fuel : ℕ}

@[simp] theorem first_append : first (xs ++ ys) q = first xs (first ys q) := by
  cases xs <;> rfl

@[simp] theorem last_append : last p (xs ++ ys) = last (last p xs) ys := by
  induction xs generalizing p with
  | nil => rfl
  | cons x xs ih => exact ih

/-- A segment is cut anywhere. -/
theorem segment_append :
    Segment h p (xs ++ ys) q ↔ Segment h p xs (first ys q) ∧ Segment h (last p xs) ys q := by
  induction xs generalizing p with
  | nil => simp [Segment, last]
  | cons x xs ih => simp [Segment, last, ih, and_assoc]

/-- A segment depends on its own cells only. -/
theorem Segment.congr (hs : Segment h p xs q)
    (hsame : ∀ a ∈ xs.map Prod.fst, h'.lookup a = h.lookup a) : Segment h' p xs q := by
  induction xs generalizing p with
  | nil => trivial
  | cons x xs ih =>
    exact ⟨(hsame _ (by simp)).trans hs.1, ih hs.2 fun a ha => hsame a (by simp_all)⟩

theorem Segment.lookup (hs : Segment h p (xs ++ (a, v) :: ys) q) :
    h.lookup a = some ⟨v, first ys q, last p xs⟩ :=
  (segment_append.mp hs).2.1

theorem Segment.mem (hs : Segment h p xs q) (ha : a ∈ xs.map Prod.fst) : a ∈ h := by
  induction xs generalizing p with
  | nil => simp at ha
  | cons x xs ih =>
    rcases List.mem_cons.mp ha with rfl | hrest
    · exact AList.lookup_isSome.mp (by rw [hs.1]; rfl)
    · exact ih hs.2 hrest

/-! ### Writing to a cell -/

theorem modify_eq {c : Cell α} (f : Cell α → Cell α) (hc : h.lookup a = some c) :
    modify h a f = some (h.insert a (f c)) := by
  rw [modify, hc]
  rfl

theorem mem_insert_of_lookup {c c' : Cell α} (hc : h.lookup a = some c) :
    b ∈ h.insert a c' ↔ b ∈ h := by
  rw [AList.mem_insert, or_iff_right_of_imp]
  rintro rfl
  exact AList.lookup_isSome.mp (by rw [hc]; rfl)

/-- The last node of a segment is linked to another one. -/
theorem Segment.setNext (hs : Segment h p (xs ++ [(b, w)]) q) (hb : b ∉ xs.map Prod.fst)
    (q' : Option ℕ) :
    Segment (h.insert b ⟨w, q', last p xs⟩) p (xs ++ [(b, w)]) q' := by
  rw [segment_append] at hs ⊢
  refine ⟨hs.1.congr fun a ha => AList.lookup_insert_ne ?_, AList.lookup_insert _, trivial⟩
  rintro rfl
  exact hb ha

/-- The first node of a segment is linked back to another one. -/
theorem Segment.setPrev (hs : Segment h p ((b, w) :: xs) q) (hb : b ∉ xs.map Prod.fst)
    (p' : Option ℕ) : Segment (h.insert b ⟨w, first xs q, p'⟩) p' ((b, w) :: xs) q := by
  refine ⟨AList.lookup_insert _, hs.2.congr fun a ha => AList.lookup_insert_ne ?_⟩
  rintro rfl
  exact hb ha

/-- The last node of a segment, if it has one, is linked to another one. -/
theorem Segment.linkNext (hs : Segment h none xs q) (hn : (xs.map Prod.fst).Nodup)
    (q' : Option ℕ) :
    ∃ h', Linked.linkNext h (last none xs) q' = some h' ∧ Segment h' none xs q' ∧
      (∀ a ∉ xs.map Prod.fst, h'.lookup a = h.lookup a) ∧ ∀ a, a ∈ h' ↔ a ∈ h := by
  induction xs using List.reverseRecOn with
  | nil => exact ⟨h, rfl, trivial, fun _ _ => rfl, fun _ => Iff.rfl⟩
  | append_singleton xs x _ =>
    obtain ⟨b, w⟩ := x
    have hb : b ∉ xs.map Prod.fst := by
      rw [List.map_append, List.nodup_append] at hn
      exact fun hmem => hn.2.2 b hmem b (by simp) rfl
    have hcell := hs.lookup
    refine ⟨_, ?_, hs.setNext hb q', fun a ha => AList.lookup_insert_ne ?_, fun a =>
      mem_insert_of_lookup hcell⟩
    · rw [last_append]
      exact modify_eq _ hcell
    · rintro rfl
      simp at ha

/-- The first node of a segment, if it has one, is linked back to another one. -/
theorem Segment.linkPrev (hs : Segment h p xs none) (hn : (xs.map Prod.fst).Nodup)
    (p' : Option ℕ) :
    ∃ h', Linked.linkPrev h (first xs none) p' = some h' ∧ Segment h' p' xs none ∧
      (∀ a ∉ xs.map Prod.fst, h'.lookup a = h.lookup a) ∧ ∀ a, a ∈ h' ↔ a ∈ h := by
  cases xs with
  | nil => exact ⟨h, rfl, trivial, fun _ _ => rfl, fun _ => Iff.rfl⟩
  | cons x xs =>
    obtain ⟨b, w⟩ := x
    refine ⟨_, modify_eq _ hs.1, hs.setPrev (List.nodup_cons.mp hn).1 p', fun a ha =>
      AList.lookup_insert_ne ?_, fun a => mem_insert_of_lookup hs.1⟩
    rintro rfl
    simp at ha

/-! ### Following a link -/

/-- The nodes a link leads to; `none` when it leads out of the heap or does not
end within the fuel. -/
def follow (link : Cell α → Option ℕ) (h : Heap α) : ℕ → Option ℕ → Option (List (ℕ × α))
  | 0, _ => none
  | _ + 1, none => some []
  | fuel + 1, some a =>
    match h.lookup a with
    | none => none
    | some c => (follow link h fuel (link c)).map ((a, c.value) :: ·)

/-- A loop that goes through the nodes a link leads to. -/
def foldLinks (link : Cell α → Option ℕ) (f : β → α → Option β) (h : Heap α) :
    ℕ → Option ℕ → β → Option β
  | 0, _, _ => none
  | _ + 1, none, b => some b
  | fuel + 1, some a, b =>
    match h.lookup a with
    | none => none
    | some c => (f b c.value).bind fun b => foldLinks link f h fuel (link c) b

/-- A loop that stops at the first node whose value has the property. -/
def findLink (p : α → Option Bool) (h : Heap α) : ℕ → Option ℕ → Option (Option ℕ)
  | 0, _ => none
  | _ + 1, none => some none
  | fuel + 1, some a =>
    match h.lookup a with
    | none => none
    | some c =>
      (p c.value).bind fun found =>
        if found then some (some a) else findLink p h fuel c.next

/-- A loop that frees the nodes, reading the link of each before. -/
def freeLinks : Heap α → ℕ → Option ℕ → Option (Heap α)
  | _, 0, _ => none
  | h, _ + 1, none => some h
  | h, fuel + 1, some a =>
    match h.lookup a with
    | none => none
    | some c => (free h a).bind fun h => freeLinks h fuel c.next

theorem foldLinks_eq {link : Cell α → Option ℕ} {f : β → α → Option β} {b : β}
    (hx : follow link h fuel p = some xs) :
    foldLinks link f h fuel p b = xs.foldlM (fun b x => f b x.2) b := by
  induction fuel generalizing p xs b with
  | zero => cases hx
  | succ fuel ih =>
    cases p with
    | none =>
      obtain rfl := Option.some.inj hx
      rfl
    | some a =>
      unfold follow at hx
      unfold foldLinks
      cases hc : h.lookup a with
      | none => simp [hc] at hx
      | some c =>
        simp only [hc] at hx ⊢
        obtain ⟨ys, hys, rfl⟩ := Option.map_eq_some_iff.mp hx
        rw [List.foldlM_cons]
        exact congrArg _ (funext fun b => ih hys)

/-- Forward, a segment is its own walk. -/
theorem Segment.follow_next (hs : Segment h p xs none) (hfuel : xs.length < fuel) :
    follow Cell.next h fuel (first xs none) = some xs := by
  induction xs generalizing p fuel with
  | nil =>
    obtain ⟨fuel, rfl⟩ := Nat.exists_eq_succ_of_ne_zero (Nat.ne_of_gt hfuel)
    rfl
  | cons x xs ih =>
    obtain ⟨fuel, rfl⟩ := Nat.exists_eq_succ_of_ne_zero (Nat.ne_zero_of_lt hfuel)
    rw [first, follow, hs.1]
    dsimp only
    rw [ih hs.2 (by simpa using hfuel)]
    rfl

/-- Backward, it is the walk reversed. -/
theorem Segment.follow_prev (hs : Segment h none xs q) (hfuel : xs.length < fuel) :
    follow Cell.prev h fuel (last none xs) = some xs.reverse := by
  induction xs using List.reverseRecOn generalizing q fuel with
  | nil =>
    obtain ⟨fuel, rfl⟩ := Nat.exists_eq_succ_of_ne_zero (Nat.ne_of_gt hfuel)
    rfl
  | append_singleton xs x ih =>
    obtain ⟨fuel, rfl⟩ := Nat.exists_eq_succ_of_ne_zero (Nat.ne_zero_of_lt hfuel)
    rw [last_append, last, last, follow, hs.lookup]
    dsimp only
    rw [ih (segment_append.mp hs).1 (by simpa using hfuel)]
    simp

/-- A loop over a segment goes through its values. -/
theorem Segment.foldLinks_next (hs : Segment h p xs none) (hfuel : xs.length < fuel)
    {f : β → α → Option β} {b : β} :
    foldLinks Cell.next f h fuel (first xs none) b = (xs.map Prod.snd).foldlM f b := by
  rw [foldLinks_eq (hs.follow_next hfuel), List.foldlM_map]

theorem Segment.foldLinks_prev (hs : Segment h none xs q) (hfuel : xs.length < fuel)
    {f : β → α → Option β} {b : β} :
    foldLinks Cell.prev f h fuel (last none xs) b = (xs.map Prod.snd).reverse.foldlM f b := by
  rw [foldLinks_eq (hs.follow_prev hfuel), ← List.map_reverse, List.foldlM_map]

/-- The search finds the first node with the property. -/
theorem Segment.findLink_eq (hs : Segment h p xs none) (hfuel : xs.length < fuel)
    {test : α → Option Bool} {P : α → Bool} (htest : ∀ v, test v = some (P v)) :
    findLink test h fuel (first xs none) =
      some ((xs.find? fun x => P x.2).map Prod.fst) := by
  induction xs generalizing p fuel with
  | nil =>
    obtain ⟨fuel, rfl⟩ := Nat.exists_eq_succ_of_ne_zero (Nat.ne_of_gt hfuel)
    rfl
  | cons x xs ih =>
    obtain ⟨fuel, rfl⟩ := Nat.exists_eq_succ_of_ne_zero (Nat.ne_zero_of_lt hfuel)
    rw [first, findLink, hs.1]
    simp only [htest, Option.bind_some]
    cases hP : P x.2 with
    | true => simp [hP]
    | false => simpa [hP] using ih hs.2 (by simpa using hfuel)

/-- Freeing the cells of a segment one after the other leaves the rest of the heap. -/
theorem Segment.freeLinks_eq (hs : Segment h p xs none) (hn : (xs.map Prod.fst).Nodup)
    (hfuel : xs.length < fuel) :
    ∃ h', freeLinks h fuel (first xs none) = some h' ∧
      ∀ a, a ∈ h' ↔ a ∈ h ∧ a ∉ xs.map Prod.fst := by
  induction xs generalizing h p fuel with
  | nil =>
    obtain ⟨fuel, rfl⟩ := Nat.exists_eq_succ_of_ne_zero (Nat.ne_of_gt hfuel)
    exact ⟨h, rfl, by simp⟩
  | cons x xs ih =>
    obtain ⟨a, v⟩ := x
    obtain ⟨fuel, rfl⟩ := Nat.exists_eq_succ_of_ne_zero (Nat.ne_zero_of_lt hfuel)
    obtain ⟨ha, hxs⟩ := List.nodup_cons.mp hn
    have hmem : a ∈ h := hs.mem (by simp)
    have hrest : Segment (h.erase a) (some a) xs none := by
      refine hs.2.congr fun b hb => AList.lookup_erase_ne ?_
      rintro rfl
      exact ha hb
    obtain ⟨h', hfree, hkeys⟩ := ih hrest hxs (by simpa using hfuel)
    refine ⟨h', ?_, fun b => ?_⟩
    · rw [first, freeLinks, hs.1]
      simp only [free, if_pos hmem, Option.bind_some]
      exact hfree
    · rw [hkeys, AList.mem_erase, List.map_cons, List.mem_cons]
      tauto

/-! ### The whole heap as one list -/

/-- The heap consists of the nodes `xs`, linked up from end to end. -/
structure DList (h : Heap α) (xs : List (ℕ × α)) : Prop where
  segment : Segment h none xs none
  nodup : (xs.map Prod.fst).Nodup
  mem_iff : ∀ a, a ∈ h ↔ a ∈ xs.map Prod.fst

namespace DList

theorem empty : DList (∅ : Heap α) [] := ⟨trivial, List.nodup_nil, by simp⟩

/-- One more than the number of cells is enough to walk through the list. -/
theorem length_lt (hd : DList h xs) : xs.length < h.keys.length + 1 := by
  have hsub : xs.map Prod.fst ⊆ h.keys := fun a ha => AList.mem_keys.mp ((hd.mem_iff a).mpr ha)
  have hle := (List.subperm_of_subset hd.nodup hsub).length_le
  rw [List.length_map] at hle
  omega

/-- The first cell of a list is linked to nothing. -/
theorem push_empty (hd : DList h []) (a : ℕ) (v : α) :
    DList (h.insert a ⟨v, none, none⟩) [(a, v)] :=
  ⟨⟨AList.lookup_insert _, trivial⟩, List.nodup_singleton a, fun b => by
    rw [AList.mem_insert, hd.mem_iff]
    simp⟩

/-- A new cell is linked behind the last one. -/
theorem push (hd : DList h (xs ++ [(b, w)])) (ha : a ∉ h) (v : α) :
    ∃ h₁ h₂, modify (h.insert a ⟨v, none, none⟩) b (fun c => { c with next := some a }) = some h₁ ∧
      modify h₁ a (fun c => { c with prev := some b }) = some h₂ ∧
      DList h₂ (xs ++ [(b, w)] ++ [(a, v)]) := by
  have hfresh : a ∉ (xs ++ [(b, w)]).map Prod.fst := fun hmem => ha ((hd.mem_iff a).mpr hmem)
  have hne : ∀ c ∈ (xs ++ [(b, w)]).map Prod.fst, c ≠ a := by
    rintro c hc rfl
    exact hfresh hc
  have hseg : Segment (h.insert a ⟨v, none, none⟩) none (xs ++ [(b, w)]) none :=
    hd.segment.congr fun c hc => AList.lookup_insert_ne (hne c hc)
  obtain ⟨h₁, hlink, hseg₁, hsame, hmem⟩ := hseg.linkNext hd.nodup (some a)
  rw [last_append] at hlink
  have hcell : h₁.lookup a = some ⟨v, none, none⟩ :=
    (hsame a hfresh).trans (AList.lookup_insert _)
  refine ⟨h₁, _, hlink, modify_eq _ hcell, ?_, ?_, fun c => ?_⟩
  · refine segment_append.mpr ⟨hseg₁.congr fun c hc => AList.lookup_insert_ne (hne c hc), ?_⟩
    rw [last_append]
    exact ⟨AList.lookup_insert _, trivial⟩
  · rw [List.map_append, List.nodup_append]
    refine ⟨hd.nodup, List.nodup_singleton a, ?_⟩
    rintro c hc d hd' rfl
    exact hne c hc (List.mem_singleton.mp hd')
  · have haddresses : (xs ++ [(b, w)] ++ [(a, v)]).map Prod.fst =
        (xs ++ [(b, w)]).map Prod.fst ++ [a] := List.map_append
    rw [AList.mem_insert, hmem, AList.mem_insert, hd.mem_iff, haddresses, List.mem_append,
      List.mem_singleton]
    tauto

/-- A cell is unlinked by pointing its neighbours at each other, and given back. -/
theorem remove (hd : DList h (xs ++ (a, v) :: ys)) :
    ∃ h₁ h₂, linkNext h (last none xs) (first ys none) = some h₁ ∧
      h₁.lookup a = h.lookup a ∧
      linkPrev h₁ (first ys none) (last none xs) = some h₂ ∧
      h₂.lookup a = h.lookup a ∧
      free h₂ a = some (h₂.erase a) ∧ DList (h₂.erase a) (xs ++ ys) := by
  have hnodup := hd.nodup
  rw [List.map_append, List.map_cons, List.nodup_append, List.nodup_cons] at hnodup
  obtain ⟨hxs, ⟨haYs, hys⟩, hdisjoint⟩ := hnodup
  have haXs : a ∉ xs.map Prod.fst := fun hmem => hdisjoint a hmem a List.mem_cons_self rfl
  obtain ⟨hsegXs, hcell, hsegYs⟩ := segment_append.mp hd.segment
  obtain ⟨h₁, hlink₁, hseg₁, hsame₁, hmem₁⟩ := hsegXs.linkNext hxs (first ys none)
  have hsegYs₁ : Segment h₁ (some a) ys none := hsegYs.congr fun c hc =>
    hsame₁ c fun hcXs => hdisjoint c hcXs c (List.mem_cons_of_mem _ hc) rfl
  obtain ⟨h₂, hlink₂, hseg₂, hsame₂, hmem₂⟩ := hsegYs₁.linkPrev hys (last none xs)
  have hsegXs₂ : Segment h₂ none xs (first ys none) := hseg₁.congr fun c hc =>
    hsame₂ c fun hcYs => hdisjoint c hc c (List.mem_cons_of_mem _ hcYs) rfl
  have hmem : ∀ c, c ∈ h₂ ↔ c ∈ h := fun c => (hmem₂ c).trans (hmem₁ c)
  have ha : a ∈ h₂ := (hmem a).mpr ((hd.mem_iff a).mpr (by simp))
  refine ⟨h₁, h₂, hlink₁, hsame₁ a haXs, hlink₂, (hsame₂ a haYs).trans (hsame₁ a haXs),
    if_pos ha, ?_, ?_, fun c => ?_⟩
  · refine (segment_append.mpr ⟨hsegXs₂, hseg₂⟩).congr fun c hc => AList.lookup_erase_ne ?_
    rintro rfl
    rw [List.map_append, List.mem_append] at hc
    exact hc.elim haXs haYs
  · rw [List.map_append, List.nodup_append]
    exact ⟨hxs, hys, fun c hc d hd' => hdisjoint c hc d (List.mem_cons_of_mem _ hd')⟩
  · rw [AList.mem_erase, hmem, hd.mem_iff]
    simp only [List.map_append, List.map_cons, List.mem_append, List.mem_cons]
    constructor
    · rintro ⟨hne, hin⟩
      tauto
    · intro hin
      refine ⟨?_, by tauto⟩
      rintro rfl
      exact hin.elim haXs haYs

/-- Freeing the cells one after the other empties the heap. -/
theorem freeLinks_eq (hd : DList h xs) {fuel : ℕ} (hfuel : xs.length < fuel) :
    ∃ h', freeLinks h fuel (first xs none) = some h' ∧ DList h' [] := by
  obtain ⟨h', hfree, hkeys⟩ := hd.segment.freeLinks_eq hd.nodup hfuel
  refine ⟨h', hfree, trivial, List.nodup_nil, fun a => ?_⟩
  rw [hkeys, hd.mem_iff]
  simp

end DList

end UnixLessons.Linked
