import UnixLessons.ServicePool.Exclusivity

/-!
# Are the servers that are handed out there?

When a step of the initialisation of a service server fails, the server is left as
it is, marked free, and the loop goes on with the next one. `find_free_server`
looks at the mark only. So each server is handed out in some run, whatever became
of its initialisation, and clients are sent to living servers only if all three
were initialised.

## Main results

* `alive_of_step`: no statement revives or stops a server
* `handOut_spec`: each server is handed out in some run
* `handsOutAlive_iff`: all endpoints are those of living servers exactly if every
  initialisation succeeds
-/

namespace UnixLessons.ServicePool

open Text Transition

variable {s t : Pool} {c : ℕ} {i : Fin maxClients} {outcome : Fin maxClients → InitOutcome}

/-- The socket is listening and the thread was started. -/
def ServiceServer.Alive (x : ServiceServer) : Prop := x.listening = true ∧ x.started = true

/-- A server that `find_free_server` returns is alive, and so is every server
whose endpoint was sent to a client. -/
structure HandsOutAlive (s : Pool) : Prop where
  found : ∀ i, s.mainAt.found = some i → (s.server i).Alive
  sent : ∀ c i, (s.client c).inbox = some (endpoint (portOf i)) → (s.server i).Alive

theorem initServer_alive {x : InitOutcome} : (initServer i x).Alive ↔ x = .ok := by
  simp [ServiceServer.Alive, initServer]

/-! ### No statement revives or stops a server -/

/-- Marking and locking a server leaves its socket and its thread alone. -/
private theorem alive_update {x : ServiceServer} (hx : x.Alive ↔ (s.server i).Alive)
    (j : Fin maxClients) : (Function.update s.server i x j).Alive ↔ (s.server j).Alive := by
  by_cases hj : j = i
  · subst hj
    rwa [Function.update_self]
  · rw [Function.update_of_ne hj]

private theorem alive_setMutex (holder : Option Thread) (j : Fin maxClients) :
    ((s.setMutex i holder).server j).Alive ↔ (s.server j).Alive := by
  apply alive_update
  rfl

private theorem alive_setBusy (isBusy : Bool) (j : Fin maxClients) :
    ((s.setBusy i isBusy).server j).Alive ↔ (s.server j).Alive := by
  apply alive_update
  rfl

private theorem alive_mainStep (hstep : mainStep s = some t) (j : Fin maxClients) :
    (t.server j).Alive ↔ (s.server j).Alive := by
  cases hat : s.mainAt with
  | accept =>
    cases hbacklog : s.backlog with
    | nil => simp [mainStep, hat, hbacklog] at hstep
    | cons c backlog =>
      simp only [mainStep, hat, hbacklog, Option.some_inj] at hstep
      subst hstep
      rfl
  | lock c k =>
    -- the search goes on with server `k`, or there is none left
    by_cases hk : k < maxClients
    · cases hmutex : (s.server ⟨k, hk⟩).mutex with
      | none =>
        simp only [mainStep, hat, hk, hmutex, dif_pos, Option.some_inj] at hstep
        subst hstep
        exact alive_setMutex _ j
      | some holder => simp [mainStep, hat, hk, hmutex] at hstep
    · simp only [mainStep, hat, hk, dif_neg, not_false_eq_true, Option.some_inj] at hstep
      subst hstep
      rfl
  | set c k =>
    simp only [mainStep, hat, Option.some_inj] at hstep
    subst hstep
    exact alive_setBusy _ j
  | unlockFound c k | unlockBusy c k =>
    simp only [mainStep, hat, Option.some_inj] at hstep
    subst hstep
    exact alive_setMutex _ j
  | test c k | send c k | sendNone c | close =>
    simp only [mainStep, hat, Option.some_inj] at hstep
    subst hstep
    rfl

private theorem alive_serviceServerThread (hstep : serviceServerThread s i = some t)
    (j : Fin maxClients) : (t.server j).Alive ↔ (s.server j).Alive := by
  cases hat : s.threadAt i with
  | accept =>
    cases hpending : s.pending i with
    | nil => simp [serviceServerThread, hat, hpending] at hstep
    | cons c pending =>
      simp only [serviceServerThread, hat, hpending, Option.some_inj] at hstep
      subst hstep
      rfl
  | read c =>
    simp only [serviceServerThread, hat, Option.ite_none_right_eq_some, Option.some_inj] at hstep
    obtain ⟨-, rfl⟩ := hstep
    rfl
  | reply c buffer =>
    simp only [serviceServerThread, hat] at hstep
    split_ifs at hstep with htime
    all_goals
      obtain rfl := Option.some.inj hstep
      rfl
  | close c =>
    simp only [serviceServerThread, hat, Option.some_inj] at hstep
    subst hstep
    rfl
  | lock c =>
    cases hmutex : (s.server i).mutex with
    | none =>
      simp only [serviceServerThread, hat, hmutex, Option.some_inj] at hstep
      subst hstep
      exact alive_setMutex _ j
    | some holder => simp [serviceServerThread, hat, hmutex] at hstep
  | reset c =>
    simp only [serviceServerThread, hat, Option.some_inj] at hstep
    subst hstep
    exact alive_setBusy _ j
  | unlock =>
    simp only [serviceServerThread, hat, Option.some_inj] at hstep
    subst hstep
    exact alive_setMutex _ j

/-- A client changes itself and the connections that wait. -/
theorem server_clientStep (hstep : clientStep s c = some t) : t.server = s.server := by
  cases hpc : (s.client c).pc with
  | start | connected =>
    simp only [clientStep, hpc, Option.some_inj] at hstep
    subst hstep
    rfl
  | waiting =>
    cases hinbox : (s.client c).inbox with
    | none => simp [clientStep, hpc, hinbox] at hstep
    | some buffer =>
      simp only [clientStep, hpc, hinbox] at hstep
      split_ifs at hstep with herror
      · obtain rfl := Option.some.inj hstep
        rfl
      · obtain ⟨e, -, rfl⟩ := Option.map_eq_some_iff.mp hstep
        rfl
  | handed port =>
    cases hlistener : listener s port with
    | none =>
      simp only [clientStep, hpc, hlistener, Option.some_inj] at hstep
      subst hstep
      rfl
    | some k =>
      simp only [clientStep, hpc, hlistener, Option.some_inj] at hstep
      subst hstep
      rfl
  | asked =>
    simp only [clientStep, hpc, Option.ite_none_right_eq_some, Option.some_inj] at hstep
    obtain ⟨-, rfl⟩ := hstep
    rfl
  | refused | failed | done => simp [clientStep, hpc] at hstep

theorem alive_of_step {a : Action} (hstep : step s a = some t) (j : Fin maxClients) :
    (t.server j).Alive ↔ (s.server j).Alive := by
  cases a with
  | main => exact alive_mainStep hstep j
  | abortBacklog =>
    simp only [step, abortBacklog] at hstep
    split at hstep
    · cases hstep
      rfl
    · cases hstep
  | service i =>
    simp only [step] at hstep
    split at hstep
    · exact alive_serviceServerThread hstep j
    · cases hstep
  | abortPending i =>
    simp only [step, abortPending] at hstep
    split at hstep
    · split at hstep
      · cases hstep
        rfl
      · cases hstep
    · cases hstep
  | client c =>
    simp only [step] at hstep
    split at hstep
    · cases hstep
    · rw [server_clientStep hstep]
  | vanish c =>
    cases hstep
    rfl

/-- What the initialisation left is what there is in every later state. -/
theorem alive_iff (hs : Reachable step (· = initServers outcome) s) (j : Fin maxClients) :
    (s.server j).Alive ↔ outcome j = .ok := by
  have hpreserved : Preserved step fun s => (s.server j).Alive ↔ outcome j = .ok :=
    fun _ _ _ h hstep => (alive_of_step hstep j).trans h
  apply hpreserved.reachable _ hs
  rintro _ rfl
  exact initServer_alive

/-! ### Every server is handed out in some run -/

/-- The clients up to `i` ask one after another, and each is sent an endpoint:
the search passes one more busy server for each of them. -/
def handOut (i : Fin maxClients) : List Action :=
  (List.range (i + 1)).map .client ++
    List.replicate (((List.range i).map fun j => 7 + 3 * j).sum + 6 + 3 * i) .main

/-- The run does not depend on how the servers were initialised. -/
theorem handOut_spec (outcome : Fin maxClients → InitOutcome) (i : Fin maxClients) :
    ∃ s, run step (initServers outcome) (handOut i) = some s ∧
      (s.client i).inbox = some (endpoint (portOf i)) := by
  match i with
  -- each of the three runs computes
  | ⟨0, _⟩ => exact ⟨_, rfl, rfl⟩
  | ⟨1, _⟩ => exact ⟨_, rfl, rfl⟩
  | ⟨2, _⟩ => exact ⟨_, rfl, rfl⟩

/-! ### The main result -/

/-- For each outcome of the initialisation: every endpoint that is handed out in
any later run is that of a living server if and only if all servers were
initialised. -/
theorem handsOutAlive_iff :
    (∀ s, Reachable step (· = initServers outcome) s → HandsOutAlive s) ↔
      ∀ i, outcome i = .ok := by
  constructor
  · intro hall i
    obtain ⟨s, hrun, hinbox⟩ := handOut_spec outcome i
    have hs : Reachable step (· = initServers outcome) s := .of_run rfl hrun
    exact (alive_iff hs i).mp ((hall s hs).sent i i hinbox)
  · intro hok s hs
    have halive : ∀ i, (s.server i).Alive := fun i => (alive_iff hs i).mpr (hok i)
    exact ⟨fun i _ => halive i, fun _ i _ => halive i⟩

/-- The socket of the first server cannot be bound, and the first client is sent
to it. -/
theorem not_handsOutAlive_firstUnbound :
    ¬ ∀ outcome s, Reachable step (· = initServers outcome) s → HandsOutAlive s := by
  intro hall
  let outcome : Fin maxClients → InitOutcome := fun i => if i.val = 0 then .bindFails else .ok
  obtain ⟨s, hrun, hinbox⟩ := handOut_spec outcome ⟨0, by decide⟩
  have hs : Reachable step (· = initServers outcome) s := .of_run rfl hrun
  have halive := (alive_iff hs _).mp ((hall outcome s hs).sent _ _ hinbox)
  cases halive

end UnixLessons.ServicePool
