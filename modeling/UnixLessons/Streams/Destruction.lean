import UnixLessons.Streams.Conservation

/-!
# Are the mutexes free when they are destroyed?

Main waits for the shoppers, cancels the loader, waits for it and destroys the mutexes.
A loader that acts on the cancellation in one of the two messages it prints inside a shop
ends there, and nobody gives the mutex of that shop back. Once the shoppers are done all
shops are free, so the loader goes into every one of them that is left in its round: what
counts is where it is when main cancels it.

## Main result

* `free_iff_safe`: the mutexes are free, whatever happens afterwards, exactly if no shop is
  left to the loader before its next sleep
-/

namespace UnixLessons.Streams

open Threads Transition

variable {S N : ℕ} {stock : Fin S → ℤ} {need : Fin N → ℤ} {s t : Market S N}
variable {i : Fin S} {j : Fin N} {a : Action N} {acts : List (Action N)}

/-- When main destroys a mutex, no thread holds it. -/
def DestroysFree (s : Market S N) : Prop :=
  ∀ i : Fin S, s.mainAt = .destroy i → s.mutex i = none

/-- The same, and the loader has not been ended between `trylock` and `unlock`. -/
structure Free (s : Market S N) : Prop where
  destroys : DestroysFree s
  ended : ∀ i, s.loaderAt ≠ .cancelled (some i)

/-- The loader sleeps at the end of a round, or for a moment at a shop that is taken. -/
def LoaderPc.Asleep : LoaderPc S → Prop
  | .sleep | .usleep _ => True
  | _ => False

instance : ∀ pc : LoaderPc S, Decidable pc.Asleep
  | .sleep | .usleep _ => inferInstanceAs (Decidable True)
  | .scan _ | .inside _ _ | .busy _ | .cancelled _ => inferInstanceAs (Decidable False)

/-- `sleep` and `usleep` act on a cancellation that is pending: they do not return. -/
def SleepActs (s : Market S N) : Action N → Prop
  | .loader => s.cancelRequested = true → ¬ s.loaderAt.Asleep
  | _ => True

instance (s : Market S N) : ∀ a, Decidable (SleepActs s a)
  | .loader => inferInstanceAs (Decidable (_ → _))
  | .main | .shopper _ | .cancelLoader => inferInstanceAs (Decidable True)

/-- The loader sleeps, or it goes to sleep before it enters another shop: it has found one
taken, or has only to give the mutex of the last one back. -/
def LoaderPc.Safe : LoaderPc S → Prop
  | .sleep | .usleep _ | .busy _ => True
  | .scan k => S ≤ k
  | .inside i .unlock => S ≤ i + 1
  | .inside _ _ => False
  | .cancelled held => held = none

/-- Main cancels the loader when that is safe. -/
def CancelsSafely (s : Market S N) : Action N → Prop
  | .main => s.mainAt = .cancel → s.loaderAt.Safe
  | _ => True

/-! ### Who has ended when -/

/-- Whether main has joined shopper `j`. -/
def MainPc.Joined (j : Fin N) : MainPc → Prop
  | .create _ | .createLoader => False
  | .join k => j < k
  | _ => True

/-- Whether main has joined the loader. -/
def MainPc.JoinedLoader : MainPc → Prop
  | .finish | .destroy _ | .done => True
  | _ => False

/-- Whether main has cancelled the loader. -/
def MainPc.HasCancelled : MainPc → Prop
  | .joinLoader | .finish | .destroy _ | .done => True
  | _ => False

/-- A thread that main has joined has ended, and the loader is cancelled before main waits
for it. -/
structure InOrder (s : Market S N) : Prop where
  joined : ∀ j, s.mainAt.Joined j → s.shopperAt j = .done
  joinedLoader : s.mainAt.JoinedLoader → ∃ held, s.loaderAt = .cancelled held
  requested : s.cancelRequested = true → s.mainAt.HasCancelled

theorem main_keeps (hstep : main s = some t) :
    t.shopperAt = s.shopperAt ∧ t.loaderAt = s.loaderAt := by
  unfold main at hstep
  split at hstep
  · exact Option.some.inj hstep ▸ ⟨rfl, rfl⟩
  · exact Option.some.inj hstep ▸ ⟨rfl, rfl⟩
  · split_ifs at hstep
    · exact Option.some.inj hstep ▸ ⟨rfl, rfl⟩
    · exact Option.some.inj hstep ▸ ⟨rfl, rfl⟩
  · exact Option.some.inj hstep ▸ ⟨rfl, rfl⟩
  · split at hstep
    · exact Option.some.inj hstep ▸ ⟨rfl, rfl⟩
    · cases hstep
  · exact Option.some.inj hstep ▸ ⟨rfl, rfl⟩
  · exact Option.some.inj hstep ▸ ⟨rfl, rfl⟩
  · cases hstep

theorem pthreadShopper_keeps (hstep : pthreadShopper s j = some t) :
    s.shopperAt j ≠ .done ∧ t.mainAt = s.mainAt ∧ t.loaderAt = s.loaderAt ∧
      t.cancelRequested = s.cancelRequested ∧
      ∃ pc, t.shopperAt = Function.update s.shopperAt j pc := by
  unfold pthreadShopper at hstep
  cases hpc : s.shopperAt j with
  | inside i v =>
    simp only [hpc, Option.some_inj] at hstep
    subst hstep
    refine ⟨by simp, ?_⟩
    cases v <;> exact ⟨rfl, rfl, rfl, _, rfl⟩
  | scan k =>
    simp only [hpc] at hstep
    refine ⟨by simp, ?_⟩
    split at hstep
    · split at hstep <;> exact Option.some.inj hstep ▸ ⟨rfl, rfl, rfl, _, rfl⟩
    · exact Option.some.inj hstep ▸ ⟨rfl, rfl, rfl, _, rfl⟩
  | done => simp [hpc] at hstep
  | _ =>
    simp only [hpc, Option.some_inj] at hstep
    exact hstep ▸ ⟨by simp, rfl, rfl, rfl, _, rfl⟩

theorem pthreadLoader_keeps (hstep : pthreadLoader s = some t) :
    (∀ held, s.loaderAt ≠ .cancelled held) ∧ (∀ held, t.loaderAt ≠ .cancelled held) ∧
      t.mainAt = s.mainAt ∧ t.shopperAt = s.shopperAt ∧ t.cancelRequested = s.cancelRequested := by
  unfold pthreadLoader at hstep
  cases hpc : s.loaderAt with
  | inside i v =>
    simp only [hpc, Option.some_inj] at hstep
    subst hstep
    refine ⟨by simp, ?_⟩
    cases v <;> exact ⟨by simp [deliver, Market.loaderGoto], rfl, rfl, rfl⟩
  | scan k =>
    simp only [hpc] at hstep
    refine ⟨by simp, ?_⟩
    split at hstep
    · split at hstep <;> obtain rfl := Option.some.inj hstep
      · exact ⟨by simp [Market.loaderGoto], rfl, rfl, rfl⟩
      · exact ⟨by simp [Market.loaderGoto], rfl, rfl, rfl⟩
    · obtain rfl := Option.some.inj hstep
      exact ⟨by simp [Market.loaderGoto], rfl, rfl, rfl⟩
  | cancelled held => simp [hpc] at hstep
  | _ =>
    simp only [hpc, Option.some_inj] at hstep
    subst hstep
    exact ⟨by simp, by simp [Market.loaderGoto], rfl, rfl, rfl⟩

theorem cancelLoader_eq (hstep : cancelLoader s = some t) :
    s.cancelRequested = true ∧ (∀ held, s.loaderAt ≠ .cancelled held) ∧
      t = s.loaderGoto (.cancelled s.loaderAt.shop) := by
  unfold cancelLoader at hstep
  split at hstep
  · rename_i hrequested
    obtain ⟨held, hcancel, rfl⟩ := Option.map_eq_some_iff.mp hstep
    have hheld : s.loaderAt.shop = held ∧ ∀ held, s.loaderAt ≠ .cancelled held := by
      unfold LoaderPc.cancellable at hcancel
      split at hcancel <;> cases hcancel <;> simp_all [LoaderPc.shop]
    exact ⟨hrequested, hheld.2, by rw [hheld.1]⟩
  · cases hstep

namespace InOrder

theorem creat (stock : Fin S → ℤ) (need : Fin N → ℤ) : InOrder (creat stock need) where
  joined _ h := h.elim
  joinedLoader h := h.elim
  requested h := by cases h

theorem main (h : InOrder s) (hstep : main s = some t) : InOrder t := by
  have hrequested := h.requested
  have hjoined := h.joined
  unfold Streams.main at hstep
  cases hpc : s.mainAt with
  | create k =>
    simp only [hpc, Option.some_inj] at hstep
    rw [hpc] at hrequested
    subst hstep
    split_ifs <;> exact ⟨fun _ h => h.elim, fun h => h.elim, fun h => (hrequested h).elim⟩
  | createLoader =>
    simp only [hpc, Option.some_inj] at hstep
    rw [hpc] at hrequested
    subst hstep
    exact ⟨fun _ h => absurd h (Nat.not_lt_zero _), fun h => h.elim,
      fun h => (hrequested h).elim⟩
  | join k =>
    simp only [hpc] at hstep
    rw [hpc] at hrequested hjoined
    split_ifs at hstep with hk hdone
    · obtain rfl := Option.some.inj hstep
      refine ⟨fun j hj => ?_, fun h => h.elim, fun h => (hrequested h).elim⟩
      rcases Nat.lt_or_eq_of_le (Nat.le_of_lt_succ hj) with hlt | heq
      · exact hjoined j hlt
      · obtain rfl : j = ⟨k, hk⟩ := Fin.ext heq
        exact hdone
    · obtain rfl := Option.some.inj hstep
      exact ⟨fun j _ => hjoined j (lt_of_lt_of_le j.isLt (not_lt.mp hk)), fun h => h.elim,
        fun h => (hrequested h).elim⟩
  | cancel =>
    simp only [hpc, Option.some_inj] at hstep
    rw [hpc] at hjoined
    subst hstep
    exact ⟨fun j _ => hjoined j trivial, fun h => h.elim, fun _ => trivial⟩
  | joinLoader =>
    simp only [hpc] at hstep
    rw [hpc] at hjoined
    split at hstep
    · rename_i held hloader
      obtain rfl := Option.some.inj hstep
      exact ⟨fun j _ => hjoined j trivial, fun _ => ⟨held, hloader⟩, fun _ => trivial⟩
    · cases hstep
  | finish =>
    simp only [hpc, Option.some_inj] at hstep
    rw [hpc] at hjoined
    subst hstep
    exact ⟨fun j _ => hjoined j trivial, fun _ => h.joinedLoader (hpc ▸ trivial), fun _ => trivial⟩
  | destroy k =>
    simp only [hpc, Option.some_inj] at hstep
    rw [hpc] at hjoined
    subst hstep
    split_ifs <;> exact ⟨fun j _ => hjoined j trivial, fun _ => h.joinedLoader (hpc ▸ trivial),
      fun _ => trivial⟩
  | done => simp [hpc] at hstep

theorem shopper (h : InOrder s) (hstep : pthreadShopper s j = some t) : InOrder t := by
  obtain ⟨hdone, hmain, hloader, hrequested, pc, hshoppers⟩ := pthreadShopper_keeps hstep
  refine ⟨fun j' hj' => ?_, fun hj => ?_, fun hc => ?_⟩
  · rw [hmain] at hj'
    -- the shopper that moves has not ended, so main has not joined it
    have hne : j' ≠ j := fun he => hdone (he ▸ h.joined j' hj')
    rw [hshoppers, Function.update_of_ne hne]
    exact h.joined j' hj'
  · rw [hmain] at hj
    rw [hloader]
    exact h.joinedLoader hj
  · rw [hmain]
    exact h.requested (hrequested ▸ hc)

theorem loader (h : InOrder s) (hstep : pthreadLoader s = some t) : InOrder t := by
  obtain ⟨hnot, -, hmain, hshoppers, hrequested⟩ := pthreadLoader_keeps hstep
  refine ⟨fun j hj => ?_, fun hj => ?_, fun hc => ?_⟩
  · rw [hshoppers]
    exact h.joined j (hmain ▸ hj)
  · obtain ⟨held, hheld⟩ := h.joinedLoader (hmain ▸ hj)
    exact absurd hheld (hnot held)
  · rw [hmain]
    exact h.requested (hrequested ▸ hc)

theorem cancelLoader (h : InOrder s) (hstep : cancelLoader s = some t) : InOrder t := by
  obtain ⟨-, -, rfl⟩ := cancelLoader_eq hstep
  exact ⟨h.joined, fun _ => ⟨_, rfl⟩, h.requested⟩

theorem preserved : Preserved step (InOrder (S := S) (N := N)) := by
  intro s a t h hstep
  cases a with
  | main => exact h.main hstep
  | shopper j =>
    obtain ⟨-, hstep⟩ := shopper_of_step hstep
    exact h.shopper hstep
  | loader =>
    obtain ⟨-, hstep⟩ := loader_of_step hstep
    exact h.loader hstep
  | cancelLoader => exact h.cancelLoader hstep

end InOrder

/-! ### The loader's end -/

/-- After the joins only a loader that ended inside a shop can hold a mutex. -/
theorem free_of_ended (hsound : Sound stock need s) (horder : InOrder s)
    (hended : ∀ i, s.loaderAt ≠ .cancelled (some i)) : Free s := by
  refine ⟨fun i hmain => ?_, hended⟩
  cases hheld : s.mutex i with
  | none => rfl
  | some t =>
    have hplace : s.place t = some i := (hsound.guards i t).mp hheld
    cases t with
    | shopper j =>
      -- it has been joined, and a shopper that has ended is in no shop
      have hdone := horder.joined j (by rw [hmain]; trivial)
      rw [Market.place, hdone] at hplace
      cases hplace
    | loader =>
      obtain ⟨held, hloader⟩ := horder.joinedLoader (by rw [hmain]; trivial)
      rw [Market.place, hloader] at hplace
      obtain rfl : held = some i := hplace
      exact absurd hloader (hended i)

/-! ### A safe cancellation -/

/-- Nothing but the cancellation ends the loader, and once it has been asked for the loader is
safe. -/
structure Spared (s : Market S N) : Prop where
  requested : ∀ held, s.loaderAt = .cancelled held → s.cancelRequested = true
  safe : s.cancelRequested = true → s.loaderAt.Safe

theorem main_requests (hstep : main s = some t) :
    (s.cancelRequested = true → t.cancelRequested = true) ∧
      (t.cancelRequested = true → s.cancelRequested = true ∨ s.mainAt = .cancel) := by
  unfold main at hstep
  cases hpc : s.mainAt with
  | join k =>
    simp only [hpc] at hstep
    split_ifs at hstep <;> exact Option.some.inj hstep ▸ ⟨id, .inl⟩
  | joinLoader =>
    simp only [hpc] at hstep
    split at hstep
    · exact Option.some.inj hstep ▸ ⟨id, .inl⟩
    · cases hstep
  | cancel =>
    simp only [hpc, Option.some_inj] at hstep
    exact hstep ▸ ⟨fun _ => rfl, fun _ => .inr rfl⟩
  | done => simp [hpc] at hstep
  | _ =>
    simp only [hpc, Option.some_inj] at hstep
    exact hstep ▸ ⟨id, .inl⟩

/-- From a safe place the loader comes to a safe place until it sleeps. -/
theorem safe_of_pthreadLoader (h : s.loaderAt.Safe) (hawake : ¬ s.loaderAt.Asleep)
    (hstep : pthreadLoader s = some t) : t.loaderAt.Safe := by
  unfold pthreadLoader at hstep
  cases hpc : s.loaderAt with
  | sleep | usleep =>
    rw [hpc] at hawake
    exact absurd trivial hawake
  | scan k =>
    rw [hpc] at h
    simp only [hpc, dif_neg (not_lt.mpr h), Option.some_inj] at hstep
    exact hstep ▸ trivial
  | inside i v =>
    rw [hpc] at h
    simp only [hpc, Option.some_inj] at hstep
    subst hstep
    cases v with
    | unlock => exact h
    | _ => exact h.elim
  | busy i =>
    simp only [hpc, Option.some_inj] at hstep
    exact hstep ▸ trivial
  | cancelled held => simp [hpc] at hstep

/-- In a safe place that is a cancellation point the loader is in no shop. -/
theorem LoaderPc.Safe.shop_eq_none {pc : LoaderPc S} (h : pc.Safe) {held : Option (Fin S)}
    (hpoint : pc.cancellable = some held) : pc.shop = none := by
  cases pc with
  | inside i v =>
    cases v with
    | unlock => cases hpoint
    | _ => exact h.elim
  | cancelled held => cases hpoint
  | _ => rfl

namespace Spared

theorem creat (stock : Fin S → ℤ) (need : Fin N → ℤ) : Spared (creat stock need) where
  requested _ h := by cases h
  safe h := by cases h

theorem main (h : Spared s) (hsafe : s.mainAt = .cancel → s.loaderAt.Safe)
    (hstep : main s = some t) : Spared t := by
  obtain ⟨hkeeps, hnew⟩ := main_requests hstep
  refine ⟨fun held hheld => ?_, fun hrequested => ?_⟩
  · rw [(main_keeps hstep).2] at hheld
    exact hkeeps (h.requested held hheld)
  · rw [(main_keeps hstep).2]
    exact (hnew hrequested).elim h.safe hsafe

theorem step (h : Spared s) (hacts : SleepActs s a) (hsafe : CancelsSafely s a)
    (hstep : step s a = some t) : Spared t := by
  cases a with
  | main => exact h.main hsafe hstep
  | shopper j =>
    obtain ⟨-, hmove⟩ := shopper_of_step hstep
    obtain ⟨-, -, hloader, hrequested, -⟩ := pthreadShopper_keeps hmove
    refine ⟨?_, ?_⟩ <;> rw [hloader, hrequested]
    · exact h.requested
    · exact h.safe
  | loader =>
    obtain ⟨-, hmove⟩ := loader_of_step hstep
    obtain ⟨-, hnot, -, -, hrequested⟩ := pthreadLoader_keeps hmove
    refine ⟨fun held hheld => absurd hheld (hnot held), fun hasked => ?_⟩
    rw [hrequested] at hasked
    exact safe_of_pthreadLoader (h.safe hasked) (hacts hasked) hmove
  | cancelLoader =>
    unfold Streams.step Streams.cancelLoader at hstep
    obtain ⟨hasked, hmap⟩ := Option.ite_none_right_eq_some.mp hstep
    obtain ⟨held, hpoint, -⟩ := Option.map_eq_some_iff.mp hmap
    obtain ⟨-, -, rfl⟩ := cancelLoader_eq hstep
    have hout := (h.safe hasked).shop_eq_none hpoint
    exact ⟨fun _ _ => hasked, fun _ => hout⟩

theorem ended (h : Spared s) (i : Fin S) : s.loaderAt ≠ .cancelled (some i) := by
  intro hended
  have hsafe := h.safe (h.requested _ hended)
  rw [hended] at hsafe
  cases hsafe

end Spared

/-- What is true of all states when main cancels safely. -/
structure Orderly (stock : Fin S → ℤ) (need : Fin N → ℤ) (s : Market S N) : Prop where
  sound : Sound stock need s
  inOrder : InOrder s
  spared : Spared s

theorem Orderly.free (h : Orderly stock need s) : Free s :=
  free_of_ended h.sound h.inOrder h.spared.ended

theorem Orderly.of_step (h : Orderly stock need s) (hcond : SleepActs s a ∧ CancelsSafely s a)
    (hstep : step s a = some t) : Orderly stock need t :=
  ⟨Sound.preserved h.sound hstep, InOrder.preserved h.inOrder hstep,
    h.spared.step hcond.1 hcond.2 hstep⟩

/-! ### An unsafe cancellation -/

/-- Main cannot come to the cancellation once more. -/
theorem hasCancelled_of_step (hstep : step s a = some t) (h : s.mainAt.HasCancelled) :
    t.mainAt.HasCancelled := by
  cases a with
  | main =>
    simp only [step, main] at hstep
    cases hpc : s.mainAt with
    | create | createLoader | join | cancel =>
      rw [hpc] at h
      exact h.elim
    | joinLoader =>
      simp only [hpc] at hstep
      split at hstep
      · exact Option.some.inj hstep ▸ trivial
      · cases hstep
    | finish =>
      simp only [hpc, Option.some_inj] at hstep
      exact hstep ▸ trivial
    | destroy k =>
      simp only [hpc, Option.some_inj] at hstep
      subst hstep
      split_ifs <;> trivial
    | done => simp [hpc] at hstep
  | shopper j =>
    obtain ⟨-, hstep⟩ := shopper_of_step hstep
    rwa [(pthreadShopper_keeps hstep).2.1]
  | loader =>
    obtain ⟨-, hstep⟩ := loader_of_step hstep
    rwa [(pthreadLoader_keeps hstep).2.2.1]
  | cancelLoader =>
    obtain ⟨-, -, rfl⟩ := cancelLoader_eq hstep
    exact h

/-- Main waits for the loader, with the cancellation pending and the shoppers gone. -/
structure Waiting (s : Market S N) : Prop where
  main : s.mainAt = .joinLoader
  requested : s.cancelRequested = true
  shoppers : ∀ j, s.shopperAt j = .done

theorem Waiting.step_loader (h : Waiting s) (hmove : pthreadLoader s = some t) :
    step s .loader = some t := by
  rw [step, h.main]
  exact (if_pos rfl).trans hmove

theorem Waiting.loader (h : Waiting s) (hmove : pthreadLoader s = some t) : Waiting t := by
  obtain ⟨-, -, hmain, hshoppers, hrequested⟩ := pthreadLoader_keeps hmove
  exact ⟨hmain ▸ h.main, hrequested ▸ h.requested, hshoppers ▸ h.shoppers⟩

/-- The loader is about to print inside a shop. -/
def AtMessage (s : Market S N) : Prop := ∃ i, s.loaderAt.cancellable = some (some i)

/-- One statement of a loader that is awake. -/
theorem Waiting.next (h : Waiting s) (hawake : ¬ s.loaderAt.Asleep)
    (hmove : pthreadLoader s = some t)
    (hlater : ∃ u, Leads step SleepActs t u ∧ Waiting u ∧ AtMessage u) :
    ∃ u, Leads step SleepActs s u ∧ Waiting u ∧ AtMessage u := by
  obtain ⟨u, hleads, hwaiting, hat⟩ := hlater
  have hacts : SleepActs s .loader := fun _ => hawake
  exact ⟨u, (Leads.of_step hacts (h.step_loader hmove)).trans hleads, hwaiting, hat⟩

/-- A shop in front of the loader is free, and it enters. -/
theorem Waiting.scan (h : Waiting s) (hsound : Sound stock need s) {k : ℕ}
    (hpc : s.loaderAt = .scan k) (hk : k < S) :
    ∃ u, Leads step SleepActs s u ∧ Waiting u ∧ AtMessage u := by
  have hfree : s.mutex ⟨k, hk⟩ = none := by
    cases hheld : s.mutex ⟨k, hk⟩ with
    | none => rfl
    | some t =>
      have hplace : s.place t = some ⟨k, hk⟩ := (hsound.guards _ t).mp hheld
      cases t with
      | shopper j =>
        rw [Market.place, h.shoppers j] at hplace
        cases hplace
      | loader =>
        rw [Market.place, hpc] at hplace
        cases hplace
  have hmove : pthreadLoader s =
      some ((s.lock ⟨k, hk⟩ .loader).loaderGoto (.inside ⟨k, hk⟩ .enter)) := by
    simp only [pthreadLoader, hpc, dif_pos hk, hfree]
  refine h.next (by rw [hpc]; exact id) hmove ⟨_, .refl, h.loader hmove, ⟨k, hk⟩, rfl⟩

/-- From a place that is not safe the loader comes to a message inside a shop. -/
theorem Waiting.reaches (h : Waiting s) (hsound : Sound stock need s)
    (hnot : ∀ held, s.loaderAt ≠ .cancelled held) (hblocks : ¬ s.loaderAt.Safe) :
    ∃ u, Leads step SleepActs s u ∧ Waiting u ∧ AtMessage u := by
  cases hpc : s.loaderAt with
  | sleep | usleep | busy =>
    rw [hpc] at hblocks
    exact absurd trivial hblocks
  | cancelled held => exact absurd hpc (hnot held)
  | scan k =>
    rw [hpc] at hblocks
    exact h.scan hsound hpc (not_le.mp hblocks)
  | inside i v =>
    have hawake : ¬ s.loaderAt.Asleep := by rw [hpc]; exact id
    have hmove : pthreadLoader s = some (deliver s i v) := by rw [pthreadLoader, hpc]
    have hwaiting := h.loader hmove
    cases v with
    | enter | leave => exact ⟨s, .refl, h, i, by rw [hpc]; rfl⟩
    | read =>
      have hwrite : pthreadLoader (deliver s i .read) = some _ := rfl
      have hthere : ∃ u, Leads step SleepActs (deliver s i .read) u ∧ Waiting u ∧ AtMessage u :=
        hwaiting.next id hwrite ⟨_, .refl, hwaiting.loader hwrite, i, rfl⟩
      exact h.next hawake hmove hthere
    | write product => exact h.next hawake hmove ⟨_, .refl, hwaiting, i, rfl⟩
    | unlock =>
      rw [hpc] at hblocks
      have hstep : step s .loader = some (deliver s i .unlock) := h.step_loader hmove
      have hsound' := Sound.preserved hsound hstep
      exact h.next hawake hmove (hwaiting.scan hsound' rfl (not_le.mp hblocks))

/-- Main goes on from one mutex to the next. -/
theorem destroys {k : ℕ} (hmain : s.mainAt = .destroy k) (hk : k ≤ i) :
    ∃ u, Leads step SleepActs s u ∧ u.mainAt = .destroy i ∧ u.mutex = s.mutex := by
  obtain ⟨n, hn⟩ := Nat.exists_eq_add_of_le hk
  induction n generalizing s k with
  | zero => exact ⟨s, .refl, by rw [hmain, hn, Nat.add_zero], rfl⟩
  | succ n ih =>
    have hstep : step s .main = some { s with mainAt := .destroy (k + 1) } := by
      have hlt : k < S := by omega
      simp only [step, main, hmain, if_pos hlt]
    obtain ⟨u, hleads, hat, hmutex⟩ := @ih { s with mainAt := .destroy (k + 1) } (k + 1) rfl
      (by omega) (by omega)
    exact ⟨u, (Leads.of_step trivial hstep).trans hleads, hat, hmutex⟩

/-- A loader that is about to print inside a shop can end there, and main destroys the mutex
it has kept. -/
theorem Waiting.not_destroysFree (h : Waiting s) (hsound : Sound stock need s) (hat : AtMessage s) :
    ∃ u, Leads step SleepActs s u ∧ ¬ DestroysFree u := by
  obtain ⟨i, hi⟩ := hat
  have hcancel : step s .cancelLoader = some (s.loaderGoto (.cancelled (some i))) := by
    rw [step, cancelLoader, if_pos h.requested, hi, Option.map_some]
  have hsound' := Sound.preserved hsound hcancel
  have hheld : s.mutex i = some .loader := hsound'.guards.holder rfl
  have hjoin : step (s.loaderGoto (.cancelled (some i))) .main =
      some { s.loaderGoto (.cancelled (some i)) with mainAt := .finish } := by
    simp only [step, Streams.main, Market.loaderGoto, h.main]
  obtain ⟨u, hleads, hdestroy, hmutex⟩ := @destroys S N
    { ({ s.loaderGoto (.cancelled (some i)) with mainAt := .finish } :
      Market S N).print .finished with mainAt := .destroy 0 } i 0 rfl (Nat.zero_le _)
  refine ⟨u, ?_, fun hfree => ?_⟩
  · refine (Leads.of_step trivial hcancel).trans ((Leads.of_step trivial hjoin).trans ?_)
    exact (Leads.of_step (a := .main) trivial rfl).trans hleads
  · have hlast := hfree i hdestroy
    rw [hmutex] at hlast
    exact absurd (hlast.symm.trans hheld) (by simp)

/-! ### Whole runs -/

theorem sound_inOrder (hstock : ∀ i, 0 ≤ stock i)
    (hrun : run step (creat stock need) acts = some s) : Sound stock need s ∧ InOrder s :=
  ⟨Sound.preserved.run (.creat hstock) hrun, InOrder.preserved.run (.creat stock need) hrun⟩

/-- The loader does not end before the cancellation is asked for. -/
theorem requested_of_run (hrun : run step (creat stock need) acts = some s)
    {held : Option (Fin S)} (h : s.loaderAt = .cancelled held) : s.cancelRequested = true := by
  have hpreserved : Preserved step fun s : Market S N =>
      ∀ held, s.loaderAt = .cancelled held → s.cancelRequested = true := by
    intro s a t h hstep held hheld
    cases a with
    | main =>
      rw [(main_keeps hstep).2] at hheld
      exact (main_requests hstep).1 (h held hheld)
    | shopper j =>
      obtain ⟨-, hmove⟩ := shopper_of_step hstep
      obtain ⟨-, -, hloader, hrequested, -⟩ := pthreadShopper_keeps hmove
      rw [hrequested]
      exact h held (hloader ▸ hheld)
    | loader =>
      obtain ⟨-, hmove⟩ := loader_of_step hstep
      exact absurd hheld ((pthreadLoader_keeps hmove).2.1 held)
    | cancelLoader =>
      obtain ⟨hasked, -, rfl⟩ := cancelLoader_eq hstep
      exact hasked
  exact hpreserved.run (fun held h => by cases h) hrun held h

/-- From the moment of a safe cancellation on, all is orderly. -/
theorem orderly_of_safe (hstock : ∀ i, 0 ≤ stock i)
    (hrun : run step (creat stock need) acts = some s) (hsafe : s.loaderAt.Safe)
    (hstep : step s .main = some t) : Orderly stock need t := by
  obtain ⟨hsound, horder⟩ := sound_inOrder hstock hrun
  have hspared : Spared s := ⟨fun _ => requested_of_run hrun, fun _ => hsafe⟩
  exact ⟨Sound.preserved hsound hstep, horder.preserved hstep, hspared.main (fun _ => hsafe) hstep⟩

theorem Orderly.leads (h : Orderly stock need t) (hcancelled : t.mainAt.HasCancelled)
    {cs : List (Action N)} {u : Market S N} (halong : Along step SleepActs t cs)
    (hrun : run step t cs = some u) : Free u := by
  have hkeeps : ∀ ⦃s : Market S N⦄ ⦃a t⦄, Orderly stock need s ∧ s.mainAt.HasCancelled →
      SleepActs s a → step s a = some t → Orderly stock need t ∧ t.mainAt.HasCancelled := by
    rintro s a t ⟨horderly, hcancelled⟩ hacts hstep
    refine ⟨horderly.of_step ⟨hacts, ?_⟩ hstep, hasCancelled_of_step hstep hcancelled⟩
    cases a with
    | main =>
      intro hmain
      rw [hmain] at hcancelled
      exact hcancelled.elim
    | _ => trivial
  exact (halong.run hkeeps ⟨h, hcancelled⟩ hrun).1.free

/-- For every interleaving, with `sleep` and `usleep` acting on a pending cancellation and
`printf` acting on it or not. If the loader is safe when main cancels it, the mutexes are free
in all states. And after the call of `pthread_cancel` they stay free, and the loader is never
ended inside a shop, whatever the interleaving, exactly if the loader was safe. -/
theorem free_iff_safe (hstock : ∀ i, 0 ≤ stock i)
    (hrun : run step (creat stock need) acts = some s) :
    (Along step SleepActs (creat stock need) acts →
      Along step CancelsSafely (creat stock need) acts →
      ∀ bs u, bs <+: acts → run step (creat stock need) bs = some u → Free u) ∧
    ∀ t, s.mainAt = .cancel → step s .main = some t →
      ((∀ cs u, Along step SleepActs t cs → run step t cs = some u → Free u) ↔
        s.loaderAt.Safe) ∧
      ((∀ cs u, Along step SleepActs t cs → run step t cs = some u → DestroysFree u) ↔
        s.loaderAt.Safe) := by
  refine ⟨?_, fun t hmain hstep => ?_⟩
  · rintro hacts hsafely bs u ⟨rest, rfl⟩ hu
    have hstart : Orderly stock need (creat stock need) :=
      ⟨.creat hstock, .creat stock need, .creat stock need⟩
    exact (Along.run (fun _ _ _ h hcond => h.of_step hcond) hstart (hacts.left.and hsafely.left)
      hu).free
  · have hafter : t = { s with mainAt := .joinLoader, cancelRequested := true } := by
      simpa [step, main, hmain] using hstep.symm
    have hsafe : s.loaderAt.Safe → ∀ cs u, Along step SleepActs t cs → run step t cs = some u →
        Free u := fun hsafe _ _ halong hrest =>
      (orderly_of_safe hstock hrun hsafe hstep).leads (by rw [hafter]; trivial) halong hrest
    have hblocks : (∀ cs u, Along step SleepActs t cs → run step t cs = some u →
        DestroysFree u) → s.loaderAt.Safe := by
      intro hall
      by_contra hnot
      obtain ⟨hsound, horder⟩ := sound_inOrder hstock hrun
      have hsound' := Sound.preserved hsound hstep
      have hwaiting : Waiting t := by
        rw [hafter]
        exact ⟨rfl, rfl, fun j => horder.joined j (hmain ▸ trivial)⟩
      have hgoes : ∀ held, t.loaderAt ≠ .cancelled held := by
        rw [hafter]
        intro held hheld
        have hcancelled := horder.requested (requested_of_run hrun hheld)
        rw [hmain] at hcancelled
        exact hcancelled
      obtain ⟨u, hleads, hthere, hat⟩ := hwaiting.reaches hsound' hgoes (by rwa [hafter])
      have hsound'' : Sound stock need u :=
        hleads.keeps (fun _ _ _ h _ hstep => Sound.preserved h hstep) hsound'
      obtain ⟨v, hleads', hheld⟩ := hthere.not_destroysFree hsound'' hat
      obtain ⟨cs, hrest, halong⟩ := hleads.trans hleads'
      exact hheld (hall cs v halong hrest)
    exact ⟨⟨fun hall => hblocks fun cs u halong hrest => (hall cs u halong hrest).destroys, hsafe⟩,
      ⟨hblocks, fun h cs u halong hrest => (hsafe h cs u halong hrest).destroys⟩⟩

/-- A shopper satisfied in the only shop, and the cancellation of the loader: the first of
two lists is what the loader does before, the second one what main does after. -/
def cancellation (before : List (Action 1)) : List (Action 1) :=
  List.replicate 3 .main ++ List.replicate 13 (.shopper ⟨0, Nat.one_pos⟩) ++ before ++
    List.replicate 3 .main ++ [.cancelLoader] ++ List.replicate 4 .main

/-- The loader is cancelled in its first `sleep`. -/
theorem free_iff_safe_asleep :
    ∃ s t, run step (creat (fun _ : Fin 1 => 900) fun _ : Fin 1 => 500)
        ((cancellation []).take 18) = some s ∧ step s .main = some t ∧
      s.loaderAt = .sleep ∧
      ∀ cs u, Along step SleepActs t cs → run step t cs = some u → DestroysFree u := by
  have hend : ((run step (creat (fun _ : Fin 1 => 900) fun _ : Fin 1 => 500)
      ((cancellation []).take 18)).bind fun s => (step s .main).map fun t =>
        (s, t)).map (fun x => (x.1.mainAt, x.1.loaderAt)) = some (.cancel, .sleep) := by rfl
  obtain ⟨⟨s, t⟩, hboth, hat⟩ := Option.map_eq_some_iff.mp hend
  obtain ⟨s', hrun, hmap⟩ := Option.bind_eq_some_iff.mp hboth
  obtain ⟨t', hstep, heq⟩ := Option.map_eq_some_iff.mp hmap
  obtain ⟨rfl, rfl⟩ := Prod.mk.inj heq
  obtain ⟨hmain, hsleep⟩ := Prod.mk.inj hat
  have hstock : ∀ i : Fin 1, (0 : ℤ) ≤ (fun _ => 900) i := by decide
  have hiff := ((free_iff_safe hstock hrun).2 t' hmain hstep).2
  exact ⟨s', t', hrun, hstep, hsleep, hiff.mpr (by rw [hsleep]; trivial)⟩

/-- The loader is cancelled in its first message, and main destroys the mutex it holds. -/
theorem not_free_inside :
    ∃ acts s, Along step SleepActs (creat (fun _ : Fin 1 => 900) fun _ : Fin 1 => 500) acts ∧
      run step (creat (fun _ : Fin 1 => 900) fun _ : Fin 1 => 500) acts = some s ∧
      s.mainAt = .destroy 0 ∧ s.mutex 0 = some .loader := by
  let acts := (cancellation [.loader, .loader]).dropLast.dropLast
  have hend : (run step (creat (fun _ : Fin 1 => 900) fun _ : Fin 1 => 500) acts).map
      (fun s => (s.mainAt, s.mutex 0)) = some (.destroy 0, some .loader) := by rfl
  obtain ⟨s, hrun, hs⟩ := Option.map_eq_some_iff.mp hend
  obtain ⟨hmain, hmutex⟩ := by simpa only [Prod.mk.injEq] using hs
  exact ⟨acts, s, by decide, hrun, hmain, hmutex⟩

end UnixLessons.Streams
