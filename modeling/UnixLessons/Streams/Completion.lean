import Mathlib.Algebra.Order.BigOperators.Group.Finset
import UnixLessons.Streams.Destruction
import UnixLessons.Transition.Completion

/-!
# Does the simulation come to its end?

The threads go round in circles: a shopper that has found every shop empty or taken sleeps
and tries again, and the loader never stops by itself. So no number bounds the length of a
run. But wherever the threads have got to, some schedule satisfies every shopper and brings
main to its end, since whoever is in a shop can leave it and the loader can fill one up.

## Main results

* `can_finish`: from every state of every run the simulation can be finished
* `supplied_of_done`: it is finished only after the loader has brought what was missing
-/

namespace UnixLessons.Streams

open Threads Counter Transition

variable {S N : ℕ} {stock : Fin S → ℤ} {need : Fin N → ℤ} {s t : Market S N}
variable {i : Fin S} {j : Fin N} {a : Action N} {acts : List (Action N)} {bound : Fin N → ℕ}

/-! ### The way out of a round

How many statements a thread executes at most before its next round, whatever the others
do: `trylock` never makes it wait.
-/

def Visit.left : Visit → ℕ
  | .check => 6
  | .enter => 5
  | .take => 4
  | .charge _ => 3
  | .clear => 2
  | .leave => 1
  | .empty => 1
  | .unlock => 0

/-- For each shop that is still to come a shopper needs less than ten statements. -/
def ShopperPc.left : ShopperPc S → ℕ
  | .test => 0
  | .scan i => 4 + 10 * (S - i)
  | .inside i v => 6 + 10 * (S - (i + 1)) + v.left
  | .satisfied i => 5 + 10 * (S - (i + 1))
  | .busy i => 6 + 10 * (S - (i + 1))
  | .usleep i => 5 + 10 * (S - (i + 1))
  | .retest => 3
  | .unsatisfied => 2
  | .sleep => 1
  | .farewell => 1
  | .done => 0

def Delivery.left : Delivery → ℕ
  | .enter => 4
  | .read => 3
  | .write _ => 2
  | .leave => 1
  | .unlock => 0

def LoaderPc.left : LoaderPc S → ℕ
  | .sleep => 0
  | .scan i => 1 + 10 * (S - i)
  | .inside i v => 2 + 10 * (S - (i + 1)) + v.left
  | .busy i => 3 + 10 * (S - (i + 1))
  | .usleep i => 2 + 10 * (S - (i + 1))
  | .cancelled _ => 0

theorem ShopperPc.left_eq_zero {pc : ShopperPc S} (h : pc.left = 0) : pc = .test ∨ pc = .done := by
  cases pc with
  | test => exact Or.inl rfl
  | done => exact Or.inr rfl
  | _ => simp [left] at h

theorem LoaderPc.left_eq_zero {pc : LoaderPc S} (h : pc.left = 0) :
    pc = .sleep ∨ ∃ held, pc = .cancelled held := by
  cases pc with
  | sleep => exact Or.inl rfl
  | cancelled held => exact Or.inr ⟨held, rfl⟩
  | _ => simp [left] at h

/-- A shopper in the middle of a round can move, and comes closer to its end. -/
theorem pthreadShopper_left (h : (s.shopperAt j).left ≠ 0) :
    ∃ t, pthreadShopper s j = some t ∧ (t.shopperAt j).left < (s.shopperAt j).left := by
  unfold pthreadShopper
  cases hpc : s.shopperAt j with
  | test | done =>
    rw [hpc] at h
    exact absurd rfl h
  | scan k =>
    by_cases hk : k < S
    · cases hmutex : s.mutex ⟨k, hk⟩ with
      | none =>
        refine ⟨_, by simp only [hmutex, dif_pos hk]; rfl, ?_⟩
        simp only [Market.shopperGoto, Function.update_self, ShopperPc.left, Visit.left]
        omega
      | some t =>
        refine ⟨_, by simp only [hmutex, dif_pos hk]; rfl, ?_⟩
        simp only [Market.shopperGoto, Function.update_self, ShopperPc.left]
        omega
    · refine ⟨_, dif_neg hk, ?_⟩
      simp only [Market.shopperGoto, Function.update_self, ShopperPc.left]
      omega
  | inside i v =>
    refine ⟨_, rfl, ?_⟩
    cases v with
    | check =>
      simp only [visit, Market.shopperGoto, Function.update_self]
      split <;> simp [ShopperPc.left, Visit.left]
    | _ =>
      simp [visit, Market.shopperGoto, ShopperPc.left, Visit.left]
  | satisfied i =>
    refine ⟨_, rfl, ?_⟩
    simp only [Market.shopperGoto, Function.update_self]
    split <;> simp only [ShopperPc.left] <;> omega
  | retest =>
    refine ⟨_, rfl, ?_⟩
    simp only [Market.shopperGoto, Function.update_self]
    split <;> simp [ShopperPc.left]
  | _ =>
    refine ⟨_, rfl, ?_⟩
    simp [Market.shopperGoto, ShopperPc.left]

/-- The loader as well, unless it has been cancelled. -/
theorem pthreadLoader_left (h : s.loaderAt.left ≠ 0) :
    ∃ t, pthreadLoader s = some t ∧ t.loaderAt.left < s.loaderAt.left := by
  unfold pthreadLoader
  cases hpc : s.loaderAt with
  | sleep | cancelled =>
    rw [hpc] at h
    exact absurd rfl h
  | scan k =>
    by_cases hk : k < S
    · cases hmutex : s.mutex ⟨k, hk⟩ with
      | none =>
        refine ⟨_, by simp only [hmutex, dif_pos hk]; rfl, ?_⟩
        simp only [Market.loaderGoto, LoaderPc.left, Delivery.left]
        omega
      | some t =>
        refine ⟨_, by simp only [hmutex, dif_pos hk]; rfl, ?_⟩
        simp only [Market.loaderGoto, LoaderPc.left]
        omega
    · refine ⟨_, dif_neg hk, ?_⟩
      simp [Market.loaderGoto, LoaderPc.left]
  | inside i v =>
    refine ⟨_, rfl, ?_⟩
    cases v <;> simp [deliver, Market.loaderGoto, LoaderPc.left, Delivery.left]
  | _ =>
    refine ⟨_, rfl, ?_⟩
    simp [Market.loaderGoto, LoaderPc.left]

/-! ### What no step can break -/

/-- Nothing is left to a shopper that is done; the others have the goods they still need
before them, and their last message. -/
def Market.hunger (s : Market S N) (j : Fin N) : ℕ :=
  if s.shopperAt j = .done then 0 else (s.shopper j).need.toNat + 1

/-- The books and the order of the joins, as before; the loader ends by the cancellation
only; and nobody gets hungrier. -/
structure Legal (stock : Fin S → ℤ) (need : Fin N → ℤ) (bound : Fin N → ℕ)
    (s : Market S N) : Prop where
  sound : Sound stock need s
  inOrder : InOrder s
  cancelled : ∀ held, s.loaderAt = .cancelled held → s.mainAt.HasCancelled
  requested : s.mainAt.HasCancelled → s.cancelRequested = true
  hunger : ∀ j, s.hunger j ≤ bound j

theorem main_hasCancelled (hstep : main s = some t) :
    (s.mainAt.HasCancelled → t.mainAt.HasCancelled) ∧
      (t.mainAt.HasCancelled → s.mainAt.HasCancelled ∨ t.cancelRequested = true) ∧
      (s.cancelRequested = true → t.cancelRequested = true) := by
  unfold main at hstep
  cases hpc : s.mainAt with
  | create k =>
    simp only [hpc, Option.some_inj] at hstep
    subst hstep
    split_ifs <;> simp [MainPc.HasCancelled]
  | join k =>
    simp only [hpc] at hstep
    split_ifs at hstep
    · obtain rfl := Option.some.inj hstep
      simp [MainPc.HasCancelled]
    · obtain rfl := Option.some.inj hstep
      simp [MainPc.HasCancelled]
  | joinLoader =>
    simp only [hpc] at hstep
    split at hstep
    · obtain rfl := Option.some.inj hstep
      simp [MainPc.HasCancelled]
    · cases hstep
  | destroy k =>
    simp only [hpc, Option.some_inj] at hstep
    subst hstep
    split_ifs <;> simp [MainPc.HasCancelled]
  | done => simp [hpc] at hstep
  | _ =>
    simp only [hpc, Option.some_inj] at hstep
    subst hstep
    simp [MainPc.HasCancelled, Market.print]

/-- A step only changes where one shopper is, and never where one is that is done. -/
theorem done_of_step (hstep : step s a = some t) (h : s.shopperAt j = .done) :
    t.shopperAt j = .done := by
  cases a with
  | main => rw [(main_keeps hstep).1, h]
  | shopper j' =>
    obtain ⟨-, hstep⟩ := shopper_of_step hstep
    obtain ⟨hdone, -, -, -, pc, hshoppers⟩ := pthreadShopper_keeps hstep
    have hne : j ≠ j' := fun he => hdone (he ▸ h)
    rw [hshoppers, Function.update_of_ne hne, h]
  | loader =>
    obtain ⟨-, hstep⟩ := loader_of_step hstep
    rw [(pthreadLoader_keeps hstep).2.2.2.1, h]
  | cancelLoader =>
    obtain ⟨-, -, rfl⟩ := cancelLoader_eq hstep
    exact h

theorem need_le_of_step (hsound : Sound stock need s) (hstep : step s a = some t) :
    (t.shopper j).need ≤ (s.shopper j).need := by
  by_cases hneed : (t.shopper j).need = (s.shopper j).need
  · exact hneed.le
  · obtain ⟨i, amount, hpc, heq⟩ := need_of_step hstep hneed
    have hknows := hsound.knows j
    rw [hpc] at hknows
    obtain ⟨-, hamount, -⟩ := hknows
    omega

theorem hunger_le_of_step (hsound : Sound stock need s) (hstep : step s a = some t) :
    t.hunger j ≤ s.hunger j := by
  have hneed := need_le_of_step (j := j) hsound hstep
  unfold Market.hunger
  by_cases hdone : s.shopperAt j = .done
  · rw [if_pos hdone, if_pos (done_of_step hstep hdone)]
  · rw [if_neg hdone]
    split_ifs <;> omega

namespace Legal

theorem preserved : Preserved step (Legal stock need bound) := by
  intro s a t h hstep
  have hhunger : ∀ j, t.hunger j ≤ bound j := fun j =>
    (hunger_le_of_step h.sound hstep).trans (h.hunger j)
  have hsound := Sound.preserved h.sound hstep
  have horder := InOrder.preserved h.inOrder hstep
  cases a with
  | main =>
    obtain ⟨hkeeps, hnew, hasked⟩ := main_hasCancelled hstep
    refine ⟨hsound, horder, fun held hheld => ?_, fun hcancelled => ?_, hhunger⟩
    · exact hkeeps (h.cancelled held ((main_keeps hstep).2 ▸ hheld))
    · exact (hnew hcancelled).elim (fun hold => hasked (h.requested hold)) id
  | shopper j =>
    obtain ⟨-, hmove⟩ := shopper_of_step hstep
    obtain ⟨-, hmain, hloader, hasked, -⟩ := pthreadShopper_keeps hmove
    refine ⟨hsound, horder, ?_, ?_, hhunger⟩
    · rw [hmain, hloader]
      exact h.cancelled
    · rw [hmain, hasked]
      exact h.requested
  | loader =>
    obtain ⟨-, hmove⟩ := loader_of_step hstep
    obtain ⟨-, hnot, hmain, -, hasked⟩ := pthreadLoader_keeps hmove
    refine ⟨hsound, horder, fun held hheld => absurd hheld (hnot held), ?_, hhunger⟩
    rw [hmain, hasked]
    exact h.requested
  | cancelLoader =>
    obtain ⟨hasked, -, rfl⟩ := cancelLoader_eq hstep
    exact ⟨hsound, horder, fun _ _ => h.inOrder.requested hasked, h.requested, hhunger⟩

theorem reachable (hstock : ∀ i, 0 ≤ stock i) (hrun : run step (creat stock need) acts = some s) :
    Legal stock need s.hunger s := by
  have hstart : Legal stock need (creat stock need).hunger (creat stock need) := by
    refine ⟨.creat hstock, .creat stock need, ?_, ?_, fun _ => Nat.le_refl _⟩
    · simp [creat]
    · exact fun h => h.elim
  have hend := preserved.run hstart hrun
  exact { hend with hunger := fun _ => Nat.le_refl _ }

end Legal

/-! ### Back to the start of a round -/

/-- How many statements are left to main if it never has to wait. -/
def MainPc.left (S N : ℕ) : MainPc → ℕ
  | .create k => 8 + S + N + (N - k)
  | .createLoader => 7 + S + N
  | .join k => 6 + S + (N - k)
  | .cancel => 5 + S
  | .joinLoader => 4 + S
  | .finish => 3 + S
  | .destroy i => 2 + (S - i)
  | .done => 0

theorem main_left (hstep : main s = some t) : t.mainAt.left S N < s.mainAt.left S N := by
  unfold main at hstep
  cases hpc : s.mainAt with
  | create k =>
    simp only [hpc, Option.some_inj] at hstep
    subst hstep
    split_ifs <;> simp only [MainPc.left] <;> omega
  | join k =>
    simp only [hpc] at hstep
    split_ifs at hstep
    · obtain rfl := Option.some.inj hstep
      simp only [MainPc.left]
      omega
    · obtain rfl := Option.some.inj hstep
      simp only [MainPc.left]
      omega
  | joinLoader =>
    simp only [hpc] at hstep
    split at hstep
    · obtain rfl := Option.some.inj hstep
      simp [MainPc.left]
    · cases hstep
  | destroy k =>
    simp only [hpc, Option.some_inj] at hstep
    subst hstep
    split_ifs <;> simp only [MainPc.left] <;> omega
  | done => simp [hpc] at hstep
  | _ =>
    simp only [hpc, Option.some_inj] at hstep
    subst hstep
    simp [MainPc.left]

/-- Main starts the threads without waiting. -/
theorem can_start : CanReach step (fun t => t.mainAt.startedLoader = true) s := by
  refine .of_progress (fun _ => True) (fun t => t.mainAt.left S N) trivial ?_
  intro s _
  have hmain : s.mainAt.startedLoader = true ∨ ∃ t, main s = some t := by
    unfold main
    cases s.mainAt with
    | create k => exact Or.inr ⟨_, rfl⟩
    | createLoader => exact Or.inr ⟨_, rfl⟩
    | _ => exact Or.inl rfl
  rcases hmain with hstarted | ⟨t, hstep⟩
  · exact Or.inl hstarted
  · exact Or.inr (.after (a := .main) hstep (.here ⟨trivial, main_left hstep⟩))

theorem startedShopper_of_startedLoader {pc : MainPc} (h : pc.startedLoader = true) :
    pc.startedShopper j = true := by
  cases pc with
  | create k => cases h
  | _ => rfl

theorem step_shopper (h : s.mainAt.startedLoader = true) (hmove : pthreadShopper s j = some t) :
    step s (.shopper j) = some t := by
  rw [step, if_pos (startedShopper_of_startedLoader h), hmove]

theorem step_loader (h : s.mainAt.startedLoader = true) (hmove : pthreadLoader s = some t) :
    step s .loader = some t := by
  rw [step, if_pos h, hmove]

/-- A shopper between two rounds, or satisfied. -/
def ShopperPc.Resting (pc : ShopperPc S) : Prop := pc = .test ∨ pc = .done

/-- Every shopper can end its round while main and the loader wait. -/
theorem shoppers_can_rest (hstarted : s.mainAt.startedLoader = true) :
    CanReach step (fun t => (∀ j, (t.shopperAt j).Resting) ∧ t.mainAt = s.mainAt ∧
      t.loaderAt = s.loaderAt) s := by
  refine .of_progress (fun t => t.mainAt = s.mainAt ∧ t.loaderAt = s.loaderAt)
    (fun t => ∑ j, (t.shopperAt j).left) ⟨rfl, rfl⟩ ?_
  rintro u ⟨hmain, hloader⟩
  by_cases hrest : ∀ j, (u.shopperAt j).left = 0
  · exact Or.inl ⟨fun j => ShopperPc.left_eq_zero (hrest j), hmain, hloader⟩
  · right
    obtain ⟨j, hj⟩ := not_forall.mp hrest
    obtain ⟨t, hmove, hless⟩ := pthreadShopper_left hj
    obtain ⟨-, hmain', hloader', -, pc, hshoppers⟩ := pthreadShopper_keeps hmove
    have hstep := step_shopper (hmain ▸ hstarted) hmove
    refine .after hstep (.here ⟨⟨hmain'.trans hmain, hloader'.trans hloader⟩, ?_⟩)
    refine Finset.sum_lt_sum (fun j' _ => ?_) ⟨j, Finset.mem_univ j, hless⟩
    by_cases hj' : j' = j
    · exact hj' ▸ hless.le
    · rw [hshoppers, Function.update_of_ne hj']

/-- The loader can end its round while everybody else waits. -/
theorem loader_can_rest (hstarted : s.mainAt.startedLoader = true)
    (hnot : ∀ held, s.loaderAt ≠ .cancelled held) :
    CanReach step (fun t => t.loaderAt = .sleep ∧ t.mainAt = s.mainAt ∧
      t.shopperAt = s.shopperAt) s := by
  refine .of_progress (fun t => (∀ held, t.loaderAt ≠ .cancelled held) ∧
    t.mainAt = s.mainAt ∧ t.shopperAt = s.shopperAt)
    (fun t => t.loaderAt.left) ⟨hnot, rfl, rfl⟩ ?_
  rintro u ⟨hnot, hmain, hshoppers⟩
  by_cases hrest : u.loaderAt.left = 0
  · left
    rcases LoaderPc.left_eq_zero hrest with hsleep | ⟨held, hheld⟩
    · exact ⟨hsleep, hmain, hshoppers⟩
    · exact absurd hheld (hnot held)
  · right
    obtain ⟨t, hmove, hless⟩ := pthreadLoader_left hrest
    obtain ⟨-, hnot', hmain', hshoppers', -⟩ := pthreadLoader_keeps hmove
    have hstep := step_loader (hmain ▸ hstarted) hmove
    exact .after hstep (.here ⟨⟨hnot', hmain'.trans hmain, hshoppers'.trans hshoppers⟩, hless⟩)

/-! ### A shopper is served -/

/-- Between two rounds of all threads no shop is taken. -/
theorem mutex_eq_none (hsound : Sound stock need s) (hrest : ∀ j, (s.shopperAt j).Resting)
    (hloader : s.loaderAt = .sleep) (i : Fin S) : s.mutex i = none := by
  cases hheld : s.mutex i with
  | none => rfl
  | some t =>
    have hplace : s.place t = some i := (hsound.guards i t).mp hheld
    cases t with
    | shopper j =>
      rw [Market.place] at hplace
      rcases hrest j with hpc | hpc <;> rw [hpc] at hplace <;> cases hplace
    | loader =>
      rw [Market.place, hloader] at hplace
      cases hplace

theorem step_deliver {v : Delivery} (hstarted : s.mainAt.startedLoader = true)
    (hpc : s.loaderAt = .inside i v) : step s .loader = some (deliver s i v) :=
  step_loader hstarted (by rw [pthreadLoader, hpc])

theorem step_visit {v : Visit} (hstarted : s.mainAt.startedLoader = true)
    (hpc : s.shopperAt j = .inside i v) : step s (.shopper j) = some (visit s j i v) :=
  step_shopper hstarted (by rw [pthreadShopper, hpc])

/-- The loader fills up the first shop, which is free. -/
theorem can_deliver (hi : (i : ℕ) = 0) (hstarted : s.mainAt.startedLoader = true)
    (hloader : s.loaderAt = .sleep) (hfree : s.mutex i = none) :
    CanReach step (fun t => t.loaderAt = .scan 1 ∧ t.mutex i = none ∧
      (t.shop i).product = (s.shop i).product + delivery ∧ t.mainAt = s.mainAt ∧
      t.shopperAt = s.shopperAt ∧ t.shopper = s.shopper) s := by
  obtain ⟨n, hn⟩ := i
  obtain rfl : n = 0 := hi
  have hawake : step s .loader = some (s.loaderGoto (.scan 0)) :=
    step_loader hstarted (by rw [pthreadLoader, hloader])
  have hlock : step (s.loaderGoto (.scan 0)) .loader =
      some (((s.loaderGoto (.scan 0)).lock ⟨0, hn⟩ .loader).loaderGoto
        (.inside ⟨0, hn⟩ .enter)) := by
    refine step_loader hstarted ?_
    simp [pthreadLoader, Market.loaderGoto, hn, hfree]
  refine .after hawake (.after hlock ?_)
  refine .after (step_deliver hstarted rfl) (.after (step_deliver hstarted rfl) ?_)
  refine .after (step_deliver hstarted rfl) (.after (step_deliver hstarted rfl) ?_)
  refine .after (step_deliver hstarted rfl) (.here ?_)
  refine ⟨rfl, ?_, ?_, rfl, rfl, rfl⟩
  · simp [deliver, Market.unlock, Market.loaderGoto]
  · simp [deliver, Market.unlock, Market.loaderGoto, Market.print, Market.setProduct, Market.lock]

/-- A hungry shopper buys up the first shop, which is free and not empty. -/
theorem can_buy (hi : (i : ℕ) = 0) (hstarted : s.mainAt.startedLoader = true)
    (htest : s.shopperAt j = .test) (hneed : 0 < (s.shopper j).need) (hfree : s.mutex i = none)
    (hproduct : 0 < (s.shop i).product) :
    CanReach step (fun t => (t.shopper j).need < (s.shopper j).need ∧
      t.mainAt = s.mainAt ∧ t.loaderAt = s.loaderAt) s := by
  obtain ⟨n, hn⟩ := i
  obtain rfl : n = 0 := hi
  have hbegin : step s (.shopper j) = some (s.shopperGoto j (.scan 0)) :=
    step_shopper hstarted (by rw [pthreadShopper, htest]; simp only [if_pos hneed])
  have hlock : step (s.shopperGoto j (.scan 0)) (.shopper j) =
      some (((s.shopperGoto j (.scan 0)).lock ⟨0, hn⟩ (.shopper j)).shopperGoto j
        (.inside ⟨0, hn⟩ .check)) := by
    refine step_shopper hstarted ?_
    simp [pthreadShopper, Market.shopperGoto, hn, hfree]
  refine .after hbegin (.after hlock ?_)
  refine .after (step_visit hstarted (Function.update_self ..)) ?_
  refine .after (step_visit (v := .enter) (i := ⟨0, hn⟩) (j := j) hstarted ?_) ?_
  · simp [visit, Market.shopperGoto, Market.lock, hproduct]
  refine .after (step_visit hstarted (Function.update_self ..)) ?_
  refine .after (step_visit hstarted (Function.update_self ..)) (.here ⟨?_, rfl, rfl⟩)
  simp [visit, Market.shopperGoto, Market.lock, Market.setNeed, Market.print, hproduct]

/-- A shopper without need says farewell. -/
theorem can_leave (hstarted : s.mainAt.startedLoader = true) (htest : s.shopperAt j = .test)
    (hneed : (s.shopper j).need ≤ 0) :
    CanReach step (fun t => t.shopperAt j = .done ∧ t.mainAt = s.mainAt ∧
      t.loaderAt = s.loaderAt) s := by
  have hbegin : step s (.shopper j) = some (s.shopperGoto j .farewell) :=
    step_shopper hstarted (by rw [pthreadShopper, htest]; simp only [if_neg hneed.not_gt])
  have hend : step (s.shopperGoto j .farewell) (.shopper j) =
      some (((s.shopperGoto j .farewell).print (.satisfied (s.shopper j).id)).shopperGoto j
        .done) := by
    refine step_shopper hstarted ?_
    simp [pthreadShopper, Market.shopperGoto]
  exact .after hbegin (.after hend (.here ⟨Function.update_self .., rfl, rfl⟩))

/-! ### The whole simulation -/

/-- The threads of all shoppers have been created, and the loader goes round. -/
def Open (s : Market S N) : Prop :=
  s.mainAt.startedLoader = true ∧ ∀ held, s.loaderAt ≠ .cancelled held

theorem Open.congr (h : Open s) (hmain : t.mainAt = s.mainAt) (hloader : t.loaderAt = s.loaderAt) :
    Open t := by
  rw [Open, hmain, hloader]
  exact h

theorem Open.of_sleep (h : Open s) (hmain : t.mainAt = s.mainAt) (hloader : t.loaderAt = .sleep) :
    Open t := by
  refine ⟨hmain ▸ h.1, fun held hheld => ?_⟩
  rw [hloader] at hheld
  cases hheld

theorem sum_hunger_lt (h : Legal stock need bound t) (hless : t.hunger j < bound j) :
    ∑ j, t.hunger j < ∑ j, bound j :=
  Finset.sum_lt_sum (fun j _ => h.hunger j) ⟨j, Finset.mem_univ j, hless⟩

/-- Between two rounds the hunger of a shopper can be stilled a little. -/
theorem can_feed (hS : 0 < S) (hlegal : Legal stock need bound s) (hopen : Open s)
    (hrest : ∀ j, (s.shopperAt j).Resting) (hloader : s.loaderAt = .sleep)
    (htest : s.shopperAt j = .test) :
    CanReach step (fun t => Open t ∧ t.hunger j < s.hunger j) s := by
  have hhungry : s.hunger j = (s.shopper j).need.toNat + 1 := by
    rw [Market.hunger, if_neg (by rw [htest]; simp)]
  rcases le_or_gt (s.shopper j).need 0 with hneed | hneed
  · refine (can_leave hopen.1 htest hneed).mono ?_
    rintro t ⟨hdone, hmain, hloader'⟩
    refine ⟨hopen.congr hmain hloader', ?_⟩
    rw [hhungry, Market.hunger, if_pos hdone]
    omega
  · have hfree := mutex_eq_none hlegal.sound hrest hloader ⟨0, hS⟩
    refine ((can_deliver rfl hopen.1 hloader hfree).keeps Legal.preserved hlegal).trans ?_
    rintro u ⟨-, hscan, hfree', hproduct, hmain, hshoppers, hneeds⟩
    have hstock : 0 < (u.shop ⟨0, hS⟩).product := by
      have := hlegal.sound.nonneg ⟨0, hS⟩
      rw [hproduct, delivery]
      omega
    have hopen' : Open u := by
      refine ⟨hmain ▸ hopen.1, fun held hheld => ?_⟩
      rw [hscan] at hheld
      cases hheld
    have htest' : u.shopperAt j = .test := hshoppers ▸ htest
    refine (can_buy rfl hopen'.1 htest' (hneeds ▸ hneed) hfree' hstock).mono ?_
    rintro t ⟨hless, hmain', hloader'⟩
    refine ⟨hopen'.congr hmain' hloader', ?_⟩
    rw [hneeds] at hless
    rw [hhungry, Market.hunger]
    split_ifs <;> omega

/-- While a shopper is not done, the hunger of all of them can be made less. -/
theorem can_progress (hS : 0 < S) (hlegal : Legal stock need s.hunger s) (hopen : Open s)
    (hhungry : ¬ ∀ j, s.shopperAt j = .done) :
    CanReach step (fun t => (Open t ∧ Legal stock need t.hunger t) ∧
      ∑ j, t.hunger j < ∑ j, s.hunger j) s := by
  -- first all threads come to the end of their rounds
  refine ((shoppers_can_rest hopen.1).keeps Legal.preserved hlegal).trans ?_
  rintro u ⟨hlegal', hrest, hmain, hloader⟩
  have hopen' := hopen.congr hmain hloader
  refine ((loader_can_rest hopen'.1 hopen'.2).keeps Legal.preserved hlegal').trans ?_
  rintro w ⟨hlegal'', hsleep, hmain', hshoppers⟩
  have hopen'' := hopen'.of_sleep hmain' hsleep
  have hrest' : ∀ j, (w.shopperAt j).Resting := hshoppers ▸ hrest
  by_cases hdone : ∀ j, w.shopperAt j = .done
  · -- the last shopper got done on the way
    obtain ⟨j, hj⟩ := not_forall.mp hhungry
    have hless : w.hunger j < s.hunger j := by
      rw [Market.hunger, if_pos (hdone j), Market.hunger, if_neg hj]
      exact Nat.succ_pos _
    refine .here ⟨⟨hopen'', ?_⟩, sum_hunger_lt hlegal'' hless⟩
    exact { hlegal'' with hunger := fun _ => Nat.le_refl _ }
  · obtain ⟨j, hj⟩ := not_forall.mp hdone
    have htest := (hrest' j).resolve_right hj
    have hfeed := can_feed hS hlegal'' hopen'' hrest' hsleep htest
    refine (hfeed.keeps Legal.preserved hlegal'').mono ?_
    rintro t ⟨hlegal₃, hopen₃, hless⟩
    refine ⟨⟨hopen₃, ?_⟩, sum_hunger_lt hlegal₃ (hless.trans_le (hlegal''.hunger j))⟩
    exact { hlegal₃ with hunger := fun _ => Nat.le_refl _ }

theorem can_satisfy (hS : 0 < S) (hlegal : Legal stock need s.hunger s) (hopen : Open s) :
    CanReach step (fun t => ∀ j, t.shopperAt j = .done) s := by
  refine .of_progress (fun t => Open t ∧ Legal stock need t.hunger t)
    (fun t => ∑ j, t.hunger j) ⟨hopen, hlegal⟩ ?_
  rintro u ⟨hopen, hlegal⟩
  by_cases hdone : ∀ j, u.shopperAt j = .done
  · exact Or.inl hdone
  · exact Or.inr (can_progress hS hlegal hopen hdone)

/-- Main waits for nobody but a shopper that is not done and the loader. -/
theorem exists_main (hstarted : s.mainAt.startedLoader = true)
    (hdone : ∀ j, s.shopperAt j = .done) (hend : s.mainAt ≠ .done)
    (hloader : s.mainAt = .joinLoader → ∃ held, s.loaderAt = .cancelled held) :
    ∃ t, main s = some t ∧ t.mainAt.startedLoader = true := by
  unfold main
  cases hpc : s.mainAt with
  | create | createLoader =>
    rw [hpc] at hstarted
    cases hstarted
  | join k =>
    by_cases hk : k < N
    · exact ⟨_, by simp only [dif_pos hk, if_pos (hdone ⟨k, hk⟩)]; rfl, rfl⟩
    · exact ⟨_, dif_neg hk, rfl⟩
  | cancel => exact ⟨_, rfl, rfl⟩
  | joinLoader =>
    obtain ⟨held, hheld⟩ := hloader hpc
    exact ⟨_, by simp only [hheld]; rfl, rfl⟩
  | finish => exact ⟨_, rfl, rfl⟩
  | destroy k =>
    refine ⟨_, rfl, ?_⟩
    split_ifs <;> rfl
  | done => exact absurd hpc hend

/-- Everybody is satisfied, and the threads have been created. -/
structure Satisfied (stock : Fin S → ℤ) (need : Fin N → ℤ) (bound : Fin N → ℕ)
    (s : Market S N) : Prop where
  legal : Legal stock need bound s
  started : s.mainAt.startedLoader = true
  done : ∀ j, s.shopperAt j = .done

theorem Satisfied.main (h : Satisfied stock need bound s) (hend : s.mainAt ≠ .done)
    (hloader : s.mainAt = .joinLoader → ∃ held, s.loaderAt = .cancelled held) :
    CanReach step (fun t => Satisfied stock need bound t ∧
      t.mainAt.left S N < s.mainAt.left S N) s := by
  obtain ⟨t, hmain, hstarted⟩ := exists_main h.started h.done hend hloader
  have hlegal : Legal stock need bound t := Legal.preserved h.legal (a := .main) hmain
  have hdone : ∀ j, t.shopperAt j = .done := by
    rw [(main_keeps hmain).1]
    exact h.done
  exact .after (a := .main) hmain (.here ⟨⟨hlegal, hstarted, hdone⟩, main_left hmain⟩)

/-- The loader can go to sleep, where the cancellation ends it. -/
theorem Satisfied.cancel (h : Satisfied stock need bound s) (hmain : s.mainAt = .joinLoader) :
    CanReach step (fun t => Satisfied stock need bound t ∧ t.mainAt = .joinLoader ∧
      ∃ held, t.loaderAt = .cancelled held) s := by
  by_cases hended : ∃ held, s.loaderAt = .cancelled held
  · exact .here ⟨h, hmain, hended⟩
  · have hnot := not_exists.mp hended
    refine ((loader_can_rest h.started hnot).keeps Legal.preserved h.legal).trans ?_
    rintro u ⟨hlegal, hsleep, hmain', hshoppers⟩
    have hjoin : u.mainAt = .joinLoader := hmain'.trans hmain
    have hasked : u.cancelRequested = true := hlegal.requested (hjoin ▸ trivial)
    have hcancel : step u .cancelLoader = some (u.loaderGoto (.cancelled none)) := by
      rw [step, cancelLoader, if_pos hasked, hsleep]
      rfl
    have hsatisfied : Satisfied stock need bound (u.loaderGoto (.cancelled none)) := by
      refine ⟨Legal.preserved hlegal hcancel, ?_, ?_⟩
      · exact hmain' ▸ h.started
      · exact fun j => (congrFun hshoppers j).trans (h.done j)
    exact .after hcancel (.here ⟨hsatisfied, hjoin, none, rfl⟩)

/-- When the shoppers are done, main can join all threads and come to its end. -/
theorem Satisfied.can_end (h : Satisfied stock need bound s) :
    CanReach step (fun t => t.mainAt = .done) s := by
  refine .of_progress (Satisfied stock need bound)
    (fun t => t.mainAt.left S N) h ?_
  intro u hu
  by_cases hend : u.mainAt = .done
  · exact Or.inl hend
  · right
    by_cases hjoin : u.mainAt = .joinLoader
    · refine (hu.cancel hjoin).trans ?_
      rintro w ⟨hw, hjoin', hended⟩
      rw [hjoin, ← hjoin']
      exact hw.main (hjoin' ▸ by simp) fun _ => hended
    · exact hu.main hend fun hpc => absurd hpc hjoin

/-- The end of main, with all threads at their ends. -/
structure Finished (s : Market S N) : Prop where
  main : s.mainAt = .done
  shoppers : ∀ j, s.shopperAt j = .done
  satisfied : ∀ j, (s.shopper j).need ≤ 0
  loader : ∃ held, s.loaderAt = .cancelled held

theorem Legal.finished (h : Legal stock need bound s) (hmain : s.mainAt = .done) : Finished s := by
  have hdone : ∀ j, s.shopperAt j = .done := fun j => h.inOrder.joined j (by rw [hmain]; trivial)
  refine ⟨hmain, hdone, fun j => ?_, h.inOrder.joinedLoader (by rw [hmain]; trivial)⟩
  have hknows := h.sound.knows j
  rwa [hdone] at hknows

/-- **The simulation can always be finished.** From every state of every run, whatever the
threads are doing and whoever holds which shop, some schedule satisfies every shopper, ends the
loader and brings main to its end. -/
theorem can_finish (hS : 0 < S) (hstock : ∀ i, 0 ≤ stock i)
    (hrun : run step (creat stock need) acts = some s) : CanReach step Finished s := by
  have hlegal := Legal.reachable hstock hrun
  have hend : CanReach step (fun t => t.mainAt = .done) s := by
    refine (can_start.keeps Legal.preserved hlegal).trans ?_
    rintro u ⟨hlegal, hstarted⟩
    by_cases hcancelled : ∃ held, u.loaderAt = .cancelled held
    · -- the loader is cancelled when all shoppers have been joined
      obtain ⟨held, hheld⟩ := hcancelled
      have hmain := hlegal.cancelled held hheld
      have hdone : ∀ j, u.shopperAt j = .done := by
        intro j
        apply hlegal.inOrder.joined
        cases hpc : u.mainAt <;> simp_all [MainPc.HasCancelled, MainPc.Joined]
      exact Satisfied.can_end ⟨hlegal, hstarted, hdone⟩
    · have hopen : Open u := ⟨hstarted, not_exists.mp hcancelled⟩
      have hown : Legal stock need u.hunger u :=
        { hlegal with hunger := fun _ => Nat.le_refl _ }
      refine ((can_satisfy hS hown hopen).keeps Legal.preserved hlegal).trans ?_
      rintro w ⟨hlegal, hdone⟩
      have hkept : Preserved step fun t : Market S N =>
          Legal stock need s.hunger t ∧ ∀ j, t.shopperAt j = .done :=
        fun _ _ _ h hstep => ⟨Legal.preserved h.1 hstep, fun j => done_of_step hstep (h.2 j)⟩
      refine (can_start.keeps hkept ⟨hlegal, hdone⟩).trans ?_
      rintro x ⟨⟨hlegal, hdone⟩, hstarted⟩
      exact Satisfied.can_end ⟨hlegal, hstarted, hdone⟩
  refine (hend.keeps Legal.preserved hlegal).mono ?_
  rintro t ⟨hlegal', hmain⟩
  exact hlegal'.finished hmain

/-- Also when the loader is in one of two shops, and the shoppers have left both empty. -/
theorem can_finish_twoSales :
    ∃ s, run step (creat (fun _ : Fin 2 => 1000) fun _ : Fin 2 => 9100)
        (twoSales.take 28) = some s ∧
      s.loaderAt = .inside 0 .read ∧ CanReach step Finished s := by
  have hend : (run step (creat (fun _ : Fin 2 => 1000) fun _ : Fin 2 => 9100)
      (twoSales.take 28)).map (fun s => s.loaderAt) = some (.inside 0 .read) := by rfl
  obtain ⟨s, hrun, hpc⟩ := Option.map_eq_some_iff.mp hend
  have hstock : ∀ i : Fin 2, (0 : ℤ) ≤ (fun _ => 1000) i := by decide
  exact ⟨s, hrun, hpc, can_finish Nat.two_pos hstock hrun⟩

/-! ### What it takes -/

/-- The satisfied shoppers have got all they needed out of the shops, and the shops had
it from the start or from the loader. -/
theorem supply (h : Sound stock need s) (hdone : ∀ j, s.shopperAt j = .done) :
    ∑ j, need j ≤ ∑ i, stock i + 200 * s.loads.length := by
  have hbought : ∑ j, need j ≤ (s.sales.map Sale.amount).sum := by
    have htally : ∑ j, tally Sale.shopper Sale.amount s.sales j = (s.sales.map Sale.amount).sum :=
      sum_tally s.sales
    rw [← htally]
    refine Finset.sum_le_sum fun j _ => ?_
    have hbook := h.shoppers j
    have hneed := h.knows j
    rw [hdone] at hbook hneed
    have hneed' : (s.shopper j).need ≤ 0 := hneed
    have hpaid : (ShopperPc.done (S := S)).paid s.shop = 0 := rfl
    omega
  have hsold : (s.sales.map Sale.amount).sum ≤
      ∑ i, (stock i + tally id (fun _ => 200) s.loads i) := by
    have htally : ∑ i, tally Sale.shop Sale.amount s.sales i = (s.sales.map Sale.amount).sum :=
      sum_tally s.sales
    rw [← htally]
    refine Finset.sum_le_sum fun i _ => ?_
    have hbook := h.shops i
    have hproduct := h.nonneg i
    simp only [delivery] at hbook
    omega
  calc ∑ j, need j
    _ ≤ (s.sales.map Sale.amount).sum := hbought
    _ ≤ ∑ i, (stock i + tally id (fun _ => 200) s.loads i) := hsold
    _ = ∑ i, stock i + 200 * s.loads.length := by
      rw [Finset.sum_add_distrib, sum_tally, sum_map_const]

/-- The simulation comes to its end only after the loader has brought what the shoppers
needed beyond the first stocks: no shopper leaves hungry, and no goods come from nowhere. -/
theorem supplied_of_done (hstock : ∀ i, 0 ≤ stock i)
    (hrun : run step (creat stock need) acts = some s) (hmain : s.mainAt = .done) :
    (∀ j, (s.shopper j).need ≤ 0) ∧ ∑ j, need j ≤ ∑ i, stock i + 200 * s.loads.length := by
  have hlegal := Legal.reachable hstock hrun
  have hfinished := hlegal.finished hmain
  exact ⟨hfinished.satisfied, supply hlegal.sound hfinished.shoppers⟩

/-- A run to the end in which the shop had enough from the start. -/
theorem supplied_of_done_atOnce :
    ∃ s, run step (creat (fun _ : Fin 1 => 900) fun _ : Fin 1 => 500) (cancellation []) = some s ∧
      (∀ j, (s.shopper j).need ≤ 0) ∧
      ∑ _j : Fin 1, (500 : ℤ) ≤ ∑ _i : Fin 1, 900 + 200 * s.loads.length := by
  have hend : (run step (creat (fun _ : Fin 1 => 900) fun _ : Fin 1 => 500)
      (cancellation [])).map Market.mainAt = some .done := by rfl
  obtain ⟨s, hrun, hmain⟩ := Option.map_eq_some_iff.mp hend
  have hstock : ∀ i : Fin 1, (0 : ℤ) ≤ (fun _ => 900) i := by decide
  exact ⟨s, hrun, supplied_of_done hstock hrun hmain⟩

/-- With the stocks and needs that `creat_shop` and `creat_shoppers` draw, the loader has to
be let into a shop more than a hundred times. -/
theorem loads_of_done {stock : Fin 5 → ℤ} {need : Fin 3 → ℤ} {s : Market 5 3}
    {acts : List (Action 3)} (hstock : ∀ i, 900 ≤ stock i ∧ stock i ≤ 1100)
    (hneed : ∀ j, 9100 ≤ need j) (hrun : run step (creat stock need) acts = some s)
    (hmain : s.mainAt = .done) : 109 ≤ s.loads.length := by
  have hlegal := Legal.reachable (fun i => le_trans (by decide) (hstock i).1) hrun
  have hsupply := supply hlegal.sound (hlegal.finished hmain).shoppers
  have hneeds : 3 * 9100 ≤ ∑ j, need j := by
    simpa using Finset.card_nsmul_le_sum Finset.univ need 9100 fun j _ => hneed j
  have hstocks : ∑ i, stock i ≤ 5 * 1100 := by
    simpa using Finset.sum_le_card_nsmul Finset.univ stock 1100 fun i _ => (hstock i).2
  omega

end UnixLessons.Streams
