import UnixLessons.ServicePool.Exclusivity

/-!
# The search for a free server

The main thread is the only one that makes a server busy, so while it searches
the busy servers can only get fewer: what it finds busy one after the other was
busy together when the search began.

## Main results

* `Searching.preserved`: what a search has found holds of the moment it began
* `pool_exclusive`: one client for each busy server, and what `NULL` means
-/

namespace UnixLessons.ServicePool

open Transition

variable {s t : Pool} {c : ℕ} {i : Fin maxClients}

/-- The client of a search and the number of servers it has found busy. -/
def MainPc.passed : MainPc → Option (ℕ × ℕ)
  | .lock c k => some (c, k)
  | .test c i => some (c, i)
  | .unlockBusy c i => some (c, i + 1)
  | .sendNone c => some (c, maxClients)
  | _ => none

/-- The client has asked the main server and has been accepted. -/
def Accepted (s : Pool) (c : ℕ) : Prop := (s.client c).pc ≠ .start ∧ c ∉ s.backlog

/-- In the search for `c`, what was found busy and what is busy was busy when the
search began. -/
structure Searching (atStart : Fin maxClients → Bool) (c : ℕ) (s : Pool) : Prop where
  accepted : Accepted s c
  found : ∀ k, s.mainAt.passed = some (c, k) → ∀ i : Fin maxClients, i < k → atStart i = true
  busy : ∀ k, s.mainAt.passed = some (c, k) → ∀ i, (s.server i).isBusy = true →
    atStart i = true

private theorem pc_setClient_ne_start {x : Client} {c' : ℕ} (h : (s.client c).pc ≠ .start)
    (hx : x.pc ≠ .start ∨ x.pc = (s.client c').pc) :
    ((s.setClient c' x).client c).pc ≠ .start := by
  by_cases hc : c = c'
  · subst hc
    simp only [Pool.setClient, Function.update_self]
    rcases hx with hx | hx
    · exact hx
    · rwa [hx]
  · simpa only [Pool.setClient, Function.update_of_ne hc] using h

private theorem isBusy_setMutex (holder : Option Thread) (j : Fin maxClients) :
    ((s.setMutex i holder).server j).isBusy = (s.server j).isBusy := by
  by_cases hj : j = i
  · subst hj; simp [Pool.setMutex]
  · simp [Pool.setMutex, hj]

namespace Searching

variable {atStart : Fin maxClients → Bool}

/-- A statement that leaves the main thread where it is and makes no server busy. -/
private theorem frame (h : Searching atStart c s) (hmain : t.mainAt = s.mainAt)
    (hbusy : ∀ i, (t.server i).isBusy = true → (s.server i).isBusy = true)
    (haccepted : Accepted t c) : Searching atStart c t :=
  ⟨haccepted, fun k hk => h.found k (hmain ▸ hk), fun k hk i hi =>
    h.busy k (hmain ▸ hk) i (hbusy i hi)⟩

/-- Outside a search nothing is found. -/
private theorem idle (haccepted : Accepted t c) (hmain : t.mainAt.passed = none) :
    Searching atStart c t :=
  ⟨haccepted, fun k hk => by simp [hmain] at hk, fun k hk => by simp [hmain] at hk⟩

private theorem mainStep (h : Searching atStart c s) (hstep : mainStep s = some t) :
    Searching atStart c t := by
  obtain ⟨⟨hstart, hbacklog⟩, hfound, hbusy⟩ := h
  unfold ServicePool.mainStep at hstep
  cases hmain : s.mainAt with
  | accept =>
    simp only [hmain] at hstep
    cases hb : s.backlog with
    | nil => simp [hb] at hstep
    | cons c' backlog =>
      simp only [hb, Option.some_inj] at hstep
      subst hstep
      rw [hb, List.mem_cons, not_or] at hbacklog
      have hother : ∀ k, MainPc.passed (.lock c' 0) ≠ some (c, k) := by
        simpa [MainPc.passed] using Ne.symm hbacklog.1
      exact ⟨⟨hstart, hbacklog.2⟩, fun k hk => absurd hk (hother k),
        fun k hk => absurd hk (hother k)⟩
  | lock c' k =>
    rw [hmain] at hfound hbusy
    simp only [hmain] at hstep
    split at hstep
    · split at hstep
      · obtain rfl := Option.some.inj hstep
        exact ⟨⟨hstart, hbacklog⟩, hfound, fun k' hk' i hi =>
          hbusy k' hk' i (isBusy_setMutex _ i ▸ hi)⟩
      · cases hstep
    -- The end of the array: the slots found busy on the way are all of them.
    · rename_i hend
      obtain rfl := Option.some.inj hstep
      refine ⟨⟨hstart, hbacklog⟩, fun k' hk' i _ => ?_, fun k' hk' i hi => ?_⟩
      · obtain ⟨rfl, -⟩ := Prod.mk.inj (Option.some.inj hk')
        exact hfound k rfl i (by omega)
      · obtain ⟨rfl, -⟩ := Prod.mk.inj (Option.some.inj hk')
        exact hbusy k rfl i hi
  | test c' i =>
    rw [hmain] at hfound hbusy
    simp only [hmain, Option.some_inj] at hstep
    subst hstep
    split
    · exact idle ⟨hstart, hbacklog⟩ rfl
    -- A slot that tested busy joins those passed over.
    · rename_i hset
      refine ⟨⟨hstart, hbacklog⟩, fun k hk j hj => ?_, fun k hk j hj => ?_⟩
      · obtain ⟨rfl, rfl⟩ := Prod.mk.inj (Option.some.inj hk)
        rcases Nat.lt_succ_iff_lt_or_eq.mp hj with hlt | heq
        · exact hfound _ rfl j hlt
        · obtain rfl := Fin.ext heq
          exact hbusy _ rfl j (Bool.not_eq_false _ ▸ hset)
      · obtain ⟨rfl, rfl⟩ := Prod.mk.inj (Option.some.inj hk)
        exact hbusy _ rfl j hj
  | unlockBusy c' i =>
    rw [hmain] at hfound hbusy
    simp only [hmain, Option.some_inj] at hstep
    subst hstep
    exact ⟨⟨hstart, hbacklog⟩, hfound, fun k hk j hj =>
      hbusy k hk j (isBusy_setMutex _ j ▸ hj)⟩
  | send c' i =>
    simp only [hmain, Option.some_inj] at hstep
    subst hstep
    exact idle ⟨pc_setClient_ne_start hstart (Or.inr rfl), hbacklog⟩ rfl
  | sendNone c' =>
    simp only [hmain, Option.some_inj] at hstep
    subst hstep
    exact idle ⟨pc_setClient_ne_start hstart (Or.inr rfl), hbacklog⟩ rfl
  | _ =>
    simp only [hmain, Option.some_inj] at hstep
    subst hstep
    exact idle ⟨hstart, hbacklog⟩ rfl

private theorem serviceServerThread (h : Searching atStart c s)
    (hstep : serviceServerThread s i = some t) : Searching atStart c t := by
  obtain ⟨hstart, hbacklog⟩ := h.accepted
  unfold ServicePool.serviceServerThread at hstep
  cases hthread : s.threadAt i with
  | accept =>
    simp only [hthread] at hstep
    cases hp : s.pending i with
    | nil => simp [hp] at hstep
    | cons c' pending =>
      simp only [hp, Option.some_inj] at hstep
      subst hstep
      exact h.frame rfl (fun _ => id) ⟨hstart, hbacklog⟩
  | read c' =>
    simp only [hthread] at hstep
    split at hstep
    · obtain rfl := Option.some.inj hstep
      exact h.frame rfl (fun _ => id) ⟨hstart, hbacklog⟩
    · cases hstep
  | reply c' buffer =>
    simp only [hthread] at hstep
    split at hstep
    · obtain rfl := Option.some.inj hstep
      exact h.frame rfl (fun _ => id) ⟨pc_setClient_ne_start hstart (Or.inr rfl), hbacklog⟩
    · obtain rfl := Option.some.inj hstep
      exact h.frame rfl (fun _ => id) ⟨hstart, hbacklog⟩
  | close c' =>
    simp only [hthread, Option.some_inj] at hstep
    subst hstep
    exact h.frame rfl (fun _ => id) ⟨pc_setClient_ne_start hstart (Or.inr rfl), hbacklog⟩
  | lock c' =>
    simp only [hthread] at hstep
    split at hstep
    · obtain rfl := Option.some.inj hstep
      exact h.frame rfl (fun j hj => isBusy_setMutex _ j ▸ hj) ⟨hstart, hbacklog⟩
    · cases hstep
  | reset c' =>
    simp only [hthread, Option.some_inj] at hstep
    subst hstep
    refine h.frame rfl (fun j hj => ?_) ⟨hstart, hbacklog⟩
    by_cases hji : j = i
    · subst hji; simp [Pool.setBusy, Pool.threadGoto] at hj
    · simpa [Pool.setBusy, Pool.threadGoto, hji] using hj
  | unlock =>
    simp only [hthread, Option.some_inj] at hstep
    subst hstep
    exact h.frame rfl (fun j hj => isBusy_setMutex _ j ▸ hj) ⟨hstart, hbacklog⟩

private theorem clientStep {c' : ℕ} (h : Searching atStart c s)
    (hstep : clientStep s c' = some t) : Searching atStart c t := by
  obtain ⟨hstart, hbacklog⟩ := h.accepted
  unfold ServicePool.clientStep at hstep
  have hmove : ∀ x : Client, x.pc ≠ .start → ((s.setClient c' x).client c).pc ≠ .start :=
    fun x hx => pc_setClient_ne_start hstart (Or.inl hx)
  cases hpc : (s.client c').pc with
  | start =>
    simp only [hpc, Option.some_inj] at hstep
    subst hstep
    have hne : c ≠ c' := by
      rintro rfl
      exact hstart hpc
    exact h.frame rfl (fun _ => id) ⟨hmove _ (by simp), by simp [hbacklog, hne]⟩
  | waiting =>
    simp only [hpc] at hstep
    split at hstep
    · cases hstep
    · split at hstep
      · obtain rfl := Option.some.inj hstep
        exact h.frame rfl (fun _ => id) ⟨hmove _ (by simp), hbacklog⟩
      · obtain ⟨e, -, rfl⟩ := Option.map_eq_some_iff.mp hstep
        exact h.frame rfl (fun _ => id) ⟨hmove _ (by simp), hbacklog⟩
  | handed port =>
    simp only [hpc] at hstep
    split at hstep
    · obtain rfl := Option.some.inj hstep
      exact h.frame rfl (fun _ => id) ⟨hmove _ (by simp), hbacklog⟩
    · obtain rfl := Option.some.inj hstep
      exact h.frame rfl (fun _ => id) ⟨hmove _ (by simp), hbacklog⟩
  | connected =>
    simp only [hpc, Option.some_inj] at hstep
    subst hstep
    exact h.frame rfl (fun _ => id) ⟨hmove _ (by simp), hbacklog⟩
  | asked =>
    simp only [hpc] at hstep
    split at hstep
    · obtain rfl := Option.some.inj hstep
      exact h.frame rfl (fun _ => id) ⟨hmove _ (by simp), hbacklog⟩
    · cases hstep
  | refused => simp [hpc] at hstep
  | failed => simp [hpc] at hstep
  | done => simp [hpc] at hstep

/-- During a search the busy servers get fewer only. -/
theorem preserved : Preserved step (Searching atStart c) := by
  intro s a t h hstep
  obtain ⟨hstart, hbacklog⟩ := h.accepted
  cases a with
  | main => exact h.mainStep hstep
  | abortBacklog =>
    simp only [step, abortBacklog] at hstep
    split at hstep
    · rename_i hb
      obtain rfl := Option.some.inj hstep
      rw [hb, List.mem_cons, not_or] at hbacklog
      exact h.frame rfl (fun _ => id)
        ⟨pc_setClient_ne_start hstart (Or.inr rfl), hbacklog.2⟩
    · cases hstep
  | service i =>
    simp only [step] at hstep
    split at hstep
    · exact h.serviceServerThread hstep
    · cases hstep
  | abortPending i =>
    simp only [step, abortPending] at hstep
    split at hstep
    · split at hstep
      · obtain rfl := Option.some.inj hstep
        exact h.frame rfl (fun _ => id) ⟨pc_setClient_ne_start hstart (Or.inr rfl), hbacklog⟩
      · cases hstep
    · cases hstep
  | client c' =>
    simp only [step] at hstep
    split at hstep
    · cases hstep
    · exact h.clientStep hstep
  | vanish c' =>
    simp only [step, Option.some_inj] at hstep
    subst hstep
    exact h.frame rfl (fun _ => id) ⟨pc_setClient_ne_start hstart (Or.inr rfl), hbacklog⟩

end Searching

/-- **The service pool is exclusive.** For any outcome of the initialisation and
any interleaving: a busy server has exactly one client it is reserved for and not
yet reset after, a free one none; a server is given to a client only when it has
none, and its reset ends the reservation of the client its thread has served; and
when the search for `c` comes out with no server, all of them were busy together
at the moment it began. -/
theorem pool_exclusive {outcome : Fin maxClients → InitOutcome}
    (hs : Reachable step (· = initServers outcome) s) :
    (∀ i, (s.server i).isBusy = true → ∃ c, s.reserved i = [c]) ∧
    (∀ i, (s.server i).isBusy = false → s.reserved i = []) ∧
    (∀ c i, s.mainAt = .set c i → s.reserved i = []) ∧
    (∀ c i, s.threadAt i = .reset c → s.reserved i = [c]) ∧
    ∀ c as t, s.mainAt = .lock c 0 → run step s as = some t → t.mainAt = .sendNone c →
      ∀ i, (s.server i).isBusy = true := by
  have h := Exclusive.reachable hs
  refine ⟨h.busy, h.free, fun c i hset => h.reserved_of_set hset, fun c i hreset => ?_,
    fun c as t hbegin hrun hend i => ?_⟩
  · obtain ⟨hres, -⟩ := h.serving i c (by rw [hreset]; rfl)
    exact h.reserved_of_mem hres
  · obtain ⟨hbacklog, hwaiting, -⟩ := h.due c (by rw [hbegin]; rfl)
    have hsearch : Searching (fun i => (s.server i).isBusy) c s := by
      refine ⟨⟨by rw [hwaiting]; simp, hbacklog⟩, fun k hk j hj => ?_, fun k hk j hj => hj⟩
      rw [hbegin] at hk
      obtain ⟨-, rfl⟩ := Prod.mk.inj (Option.some.inj hk)
      exact absurd hj (Nat.not_lt_zero _)
    exact (Searching.preserved.run hsearch hrun).found maxClients (by rw [hend]; rfl) i i.isLt

/-- Three clients are handed a server each, a fourth one is accepted. -/
def fullPool : List Action :=
  [.client 0, .client 1, .client 2, .client 3] ++ List.replicate 31 .main

theorem pool_exclusive_fullPool :
    ∃ s t, run step (initServers fun _ => .ok) fullPool = some s ∧
      run step s (List.replicate 10 .main) = some t ∧ t.mainAt = .sendNone 3 ∧
      (∀ i, (s.server i).isBusy = true) ∧ ∀ i, ∃ c, s.reserved i = [c] := by
  obtain ⟨s, hs⟩ := Option.isSome_iff_exists.mp
    (show (run step (initServers fun _ => .ok) fullPool).isSome from rfl)
  have hend : ∃ t, run step s (List.replicate 10 .main) = some t ∧ t.mainAt = .sendNone 3 := by
    obtain rfl := Option.some.inj hs
    exact ⟨_, rfl, rfl⟩
  have hbegin : s.mainAt = .lock 3 0 := by
    obtain rfl := Option.some.inj hs
    rfl
  obtain ⟨t, ht, hnone⟩ := hend
  obtain ⟨hbusy, -, -, -, hsearch⟩ := pool_exclusive (Reachable.of_run rfl hs)
  have hall := hsearch 3 _ t hbegin ht hnone
  exact ⟨s, t, hs, ht, hnone, hall, fun i => hbusy i (hall i)⟩

end UnixLessons.ServicePool
