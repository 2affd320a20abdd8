import UnixLessons.Echo.CounterMap

/-!
# What the echo server answers

One round of the datagram loop is one event of the counter map, for every
history that tracks the map. The reply is the message and its number as far as
they fit the reply buffer, which is no larger than the receive buffer: a long
message leaves no room for its number. `meets_iff_fits` states which sequences of
datagrams are answered as the map says.

## Main results

* `serve_spec`: one round of the loop against the map
* `serveAll_spec`: a run of the loop against the map
* `meets_iff_fits`: the rounds that meet the map are those whose reply fits
-/

namespace UnixLessons.Echo

open Text Arrays Counter

/-- The payload as the string functions see it. -/
def Datagram.text (d : Datagram) : CString := cstr d.payload

/-- What the datagram means to the counter map. -/
def Datagram.event (d : Datagram) : Event Key :=
  if d.text = clientShutdown then .leave d.key else .message d.key

/-- The counters after a sequence of datagrams. -/
noncomputable def counters (ds : List Datagram) : Key → Option ℕ :=
  after maxHistory (ds.map Datagram.event)

/-- The whole answer to a datagram: nothing to a good-bye, the message and its
number to a registered client, a refusal to a new client without room. -/
noncomputable def expected (m : Key → Option ℕ) (d : Datagram) : Option CString :=
  if d.text = clientShutdown then none
  else
    match numberFor maxHistory m d.key with
    | some number => some (d.text ++ ' ' :: decimal number)
    | none => some historyFull

/-- Message and number together are shorter than the reply buffer. -/
def Fits (m : Key → Option ℕ) (d : Datagram) : Prop :=
  d.text ≠ clientShutdown → ∀ number, numberFor maxHistory m d.key = some number →
    (d.text ++ ' ' :: decimal number).length < bufferSize

/-! ### The array operations -/

/-- The history is within its array and holds the counters `m`. -/
structure History.Sound (h : History) (m : Key → Option ℕ) : Prop where
  count_le : h.count ≤ maxHistory
  tracks : Tracks h.entries m

namespace History

variable {h : History} {m : Key → Option ℕ}

theorem length_entries (hle : h.count ≤ maxHistory) : h.entries.length = h.count := by
  simp [entries, hle]

theorem entries_getElem? {i : ℕ} (hi : i < h.count) : h.entries[i]? = h.client[i]? := by
  rw [entries, List.getElem?_take_of_lt hi, Vector.getElem?_toList]

theorem entries_set {i : ℕ} (c : Client) :
    entries { h with client := h.client.setIfInBounds i c } = h.entries.set i c := by
  rw [entries, entries, Vector.toList_setIfInBounds, List.take_set]

theorem sound_zero : zero.Sound fun _ => none :=
  ⟨by simp [zero], by simpa [entries, zero] using Tracks.nil⟩

theorem Sound.ncard_registered (hs : h.Sound m) : (registered m).ncard = h.count := by
  rw [hs.tracks.ncard_registered, length_entries hs.count_le]

end History

/-- The search finds the entry of a registered client and nothing else. -/
theorem findClient_spec {h : History} {m : Key → Option ℕ} (hs : h.Sound m) (ipAddr : UInt32)
    (port : UInt16) :
    (findClient ipAddr port h = none ∧ m (ipAddr, port) = none) ∨
      ∃ i e, findClient ipAddr port h = some i ∧ i < h.count ∧ h.entries[i]? = some e ∧
        e.key = (ipAddr, port) := by
  cases hfind : findClient ipAddr port h with
  | none =>
    refine Or.inl ⟨rfl, ?_⟩
    by_contra hreg
    obtain ⟨e, he, hkey⟩ := List.mem_map.mp (hs.tracks.ne_none_iff.mp hreg)
    rw [findClient, List.findIdx?_eq_none_iff] at hfind
    have hno := hfind e he
    obtain ⟨hip, hport⟩ := Prod.mk.inj hkey
    simp [hip, hport] at hno
  | some i =>
    rw [findClient, List.findIdx?_eq_some_iff_getElem] at hfind
    obtain ⟨hlt, hmatch, -⟩ := hfind
    simp only [Bool.and_eq_true, beq_iff_eq] at hmatch
    have hcount : i < h.count := History.length_entries hs.count_le ▸ hlt
    exact Or.inr ⟨i, _, rfl, hcount, List.getElem?_eq_getElem hlt,
      Prod.ext hmatch.1 hmatch.2⟩

/-- Removing a client forgets its counter; an unknown client changes nothing. -/
theorem removeClient_spec {h : History} {m : Key → Option ℕ} (hs : h.Sound m)
    (ipAddr : UInt32) (port : UInt16) :
    ∃ h', removeClient ipAddr port h = some h' ∧
      h'.Sound (Function.update m (ipAddr, port) none) ∧
      (m (ipAddr, port) = none → h' = h) := by
  rcases findClient_spec hs ipAddr port with ⟨hfind, hnone⟩ | ⟨i, e, hfind, hi, he, hkey⟩
  · have hsame : Function.update m (ipAddr, port) none = m :=
      Function.update_eq_self_iff.mpr hnone.symm
    exact ⟨h, by rw [removeClient, hfind], hsame.symm ▸ hs, fun _ => rfl⟩
  · have hle := hs.count_le
    obtain ⟨out, hshift, htake⟩ := take_shiftLeft h.client (i := i) (k := h.count - 1 - i)
      (by omega)
    rw [show i + (h.count - 1 - i) = h.count - 1 by omega,
      show h.count - 1 + 1 = h.count by omega] at htake
    refine ⟨⟨out, h.count - 1⟩, by rw [removeClient, hfind]; simp [hshift], ⟨?_, ?_⟩, ?_⟩
    · exact (Nat.sub_le _ _).trans hle
    · rw [← hkey, History.entries, htake]
      exact hs.tracks.erase he
    · intro hnone
      have hmem := List.mem_of_getElem? he
      rw [← hkey, hs.tracks.counter_of_mem hmem] at hnone
      cases hnone

/-- The reply to the client at index `i` carries the next number of its counter
and counts the message. -/
theorem reply_spec {h : History} {m : Key → Option ℕ} {i c : ℕ} {e : Client} (hs : h.Sound m)
    (buffer : CString) (hi : i < h.count) (he : h.entries[i]? = some e)
    (hc : m e.key = some c) (hsmall : c + 1 < 2 ^ 31 - 1) :
    ∃ h', reply h buffer i =
        some (h', some (snprintf bufferSize (buffer ++ ' ' :: decimal (c + 1 : ℕ)))) ∧
      h'.Sound (Function.update m e.key (some (c + 1))) := by
  have hread : h.client[i]? = some e := by rw [← History.entries_getElem? hi, he]
  have hnum : e.number.toInt = (c + 1 : ℕ) := by
    have hmem := List.mem_of_getElem? he
    have hpos := hs.tracks.positive e hmem
    have hcount := hs.tracks.counter_of_mem hmem
    rw [hc, Option.some_inj] at hcount
    omega
  refine ⟨{ h with client := h.client.setIfInBounds i { e with number := e.number + 1 } },
    by rw [reply, hread]; simp only [hnum], hs.count_le, ?_⟩
  rw [History.entries_set]
  exact hs.tracks.bump he hc hsmall

/-- A new client is registered behind the others exactly when there is room. -/
theorem addClient_spec {h : History} {m : Key → Option ℕ} (hs : h.Sound m)
    (ipAddr : UInt32) (port : UInt16) (hnew : m (ipAddr, port) = none) :
    (addClient ipAddr port h = none ∧ h.count = maxHistory) ∨
      ∃ h' e, addClient ipAddr port h = some (h', h.count) ∧ h.count < maxHistory ∧
        h'.Sound (Function.update m (ipAddr, port) (some 0)) ∧ h.count < h'.count ∧
        h'.entries[h.count]? = some e ∧ e.key = (ipAddr, port) := by
  have hle := hs.count_le
  rw [addClient]
  split
  · exact Or.inl ⟨rfl, by omega⟩
  · rename_i hroom
    have hentries : History.entries
        ⟨h.client.setIfInBounds h.count ⟨port, ipAddr, 1⟩, h.count + 1⟩ =
          h.entries ++ [⟨port, ipAddr, 1⟩] := by
      have hlen : h.count < h.client.toList.length := by simp; omega
      rw [History.entries, History.entries, Vector.toList_setIfInBounds, List.take_set,
        List.take_succ_eq_append_getElem hlen, List.set_append_right _ _ (by simp)]
      simp [hle]
    refine Or.inr ⟨_, ⟨port, ipAddr, 1⟩, rfl, by omega, ⟨?_, ?_⟩, by simp, ?_, rfl⟩
    · dsimp only
      omega
    · rw [hentries]
      exact hs.tracks.append hnew rfl
    · rw [hentries, List.getElem?_append_right (by rw [History.length_entries hle]),
        History.length_entries hle]
      simp

/-! ### One round of the loop -/

/-- One round of the loop: the history moves with the map, the reply is the
expected one as far as it fits, and the good-bye of a stranger changes nothing. -/
theorem serve_spec {h : History} {m : Key → Option ℕ} {d : Datagram} (hs : h.Sound m)
    (hshort : d.payload.length < bufferSize)
    (hsmall : ∀ c, next maxHistory m d.event d.key = some c → c < 2 ^ 31 - 1) :
    ∃ h', serve h d = some (h', (expected m d).map (snprintf bufferSize)) ∧
      h'.Sound (next maxHistory m d.event) ∧
      (d.text = clientShutdown → m d.key = none → h' = h) := by
  unfold serve expected
  rw [stringIn_received hshort, show cstr d.payload = d.text from rfl]
  by_cases hbye : d.text = clientShutdown
  · obtain ⟨h', hremove, hsound, hsame⟩ := removeClient_spec hs d.ipAddr d.port
    have hnext : next maxHistory m d.event = Function.update m d.key none := by
      rw [Datagram.event, if_pos hbye, next]
    exact ⟨h', by simp [hbye, hremove], hnext ▸ hsound, fun _ => hsame⟩
  · have hevent : d.event = .message d.key := by simp [Datagram.event, hbye]
    rw [hevent] at hsmall ⊢
    simp only [if_neg hbye]
    rcases findClient_spec hs d.ipAddr d.port with ⟨hfind, hnone⟩ | ⟨i, e, hfind, hi, he, hkey⟩
    · rcases addClient_spec hs d.ipAddr d.port hnone with
        ⟨hadd, hfull⟩ | ⟨h₁, e, hadd, hroom, hs₁, hlt, he, hkey⟩
      · have hrefused : numberFor maxHistory m d.key = none :=
          numberFor_eq_none_iff.mpr ⟨hnone, by rw [hs.ncard_registered, hfull]⟩
        refine ⟨h, by simp only [hfind, hadd, hrefused]; rfl, ?_, fun h' => absurd h' hbye⟩
        simpa [next, hrefused] using hs
      · have hnumber : numberFor maxHistory m d.key = some 1 :=
          numberFor_of_room hnone (by rw [hs.ncard_registered]; exact hroom)
        have hnext : next maxHistory m (.message d.key) = Function.update m d.key (some 1) := by
          simp [next, hnumber]
        obtain ⟨h', hreply, hs'⟩ := reply_spec hs₁ d.text hlt he
          (c := 0) (by rw [hkey, Function.update_self]) (by decide)
        refine ⟨h', by simp only [hfind, hadd, hnumber, hreply]; rfl, ?_,
          fun h' => absurd h' hbye⟩
        rw [hkey, Function.update_idem] at hs'
        rw [hnext]
        exact hs'
    · obtain ⟨c, hc⟩ : ∃ c, m d.key = some c :=
        ⟨_, hkey ▸ hs.tracks.counter_of_mem (List.mem_of_getElem? he)⟩
      have hnumber : numberFor maxHistory m d.key = some (c + 1) := numberFor_of_some hc
      have hnext : next maxHistory m (.message d.key) =
          Function.update m d.key (some (c + 1)) := by simp [next, hnumber]
      have hbound := hsmall (c + 1) (by rw [hnext, Function.update_self])
      obtain ⟨h', hreply, hs'⟩ := reply_spec hs d.text hi he (hkey ▸ hc) hbound
      refine ⟨h', by simp only [hfind, hnumber, hreply]; rfl, ?_, fun h' => absurd h' hbye⟩
      rw [hkey] at hs'
      rw [hnext]
      exact hs'

/-! ### Runs of the loop -/

theorem serveAll_snoc (h : History) (ds : List Datagram) (d : Datagram) :
    serveAll h (ds ++ [d]) = (serveAll h ds).bind fun s =>
      (serve s.1 d).map fun t => (t.1, s.2 ++ [t.2]) := by
  induction ds generalizing h with
  | nil =>
    simp only [List.nil_append, serveAll, Option.bind_eq_bind, Option.bind_some]
    cases serve h d <;> rfl
  | cons d' ds ih =>
    simp only [List.cons_append, serveAll, Option.bind_eq_bind]
    cases serve h d' with
    | none => rfl
    | some s =>
      simp only [Option.bind_some, ih]
      cases serveAll s.1 ds with
      | none => rfl
      | some t =>
        simp only [Option.bind_some]
        cases serve t.1 d <;> rfl

theorem counters_snoc (ds : List Datagram) (d : Datagram) :
    counters (ds ++ [d]) = next maxHistory (counters ds) d.event := by
  rw [counters, List.map_append, List.map_singleton, after_snoc]
  rfl

/-- In no session does a client send `2^31 - 1` or more messages. -/
def SessionsBounded (ds : List Datagram) : Prop :=
  ∀ pre, pre <+: ds → ∀ k c, counters pre k = some c → c < 2 ^ 31 - 1

theorem sessionsBounded_of_length {ds : List Datagram} (h : ds.length < 2 ^ 31 - 1) :
    SessionsBounded ds := by
  intro pre hpre k c hc
  have hcount := le_length_of_after hc
  have hlen := hpre.length_le
  rw [List.length_map] at hcount
  omega

/-- A run of the loop never leaves its arrays and tracks the counters. -/
theorem serveAll_spec {ds : List Datagram} (hshort : ∀ d ∈ ds, d.payload.length < bufferSize)
    (hsess : SessionsBounded ds) :
    ∃ h rs, serveAll History.zero ds = some (h, rs) ∧ h.Sound (counters ds) := by
  induction ds using List.reverseRecOn with
  | nil => exact ⟨_, _, rfl, History.sound_zero⟩
  | append_singleton ds d ih =>
    obtain ⟨h, rs, hrun, hs⟩ := ih (fun d' hd' => hshort d' (by simp [hd']))
      fun pre hpre => hsess pre (hpre.trans (List.prefix_append _ _))
    have hsmall : ∀ c, next maxHistory (counters ds) d.event d.key = some c → c < 2 ^ 31 - 1 :=
      fun c hc => hsess _ List.prefix_rfl d.key c (by rw [counters_snoc]; exact hc)
    obtain ⟨h', hserve, hs', -⟩ := serve_spec hs (hshort d (by simp)) hsmall
    exact ⟨h', _, by rw [serveAll_snoc, hrun, Option.bind_some, hserve]; rfl,
      by rw [counters_snoc]; exact hs'⟩

/-- A message in a session is answered with its place among the messages of that
session, whatever other clients send in between. -/
theorem expected_in_session {start mid : List Datagram} {first d : Datagram}
    (hfirst : first.key = d.key) (hnew : counters start d.key = none)
    (hadded : counters (start ++ [first]) d.key ≠ none)
    (hstays : ∀ x ∈ mid, x.key = d.key → x.text ≠ clientShutdown)
    (hd : d.text ≠ clientShutdown) :
    expected (counters (start ++ first :: mid)) d =
      some (d.text ++ ' ' :: decimal (mid.countP (fun x => x.key = d.key) + 2 : ℕ)) := by
  have hone : counters (start ++ [first]) d.key = some 1 := by
    rw [counters_snoc] at hadded ⊢
    unfold Datagram.event at hadded ⊢
    rw [hfirst] at hadded ⊢
    split at hadded <;> rename_i hbye
    · simp [next] at hadded
    · rw [if_neg hbye]
      simp only [next, numberFor, hnew] at hadded ⊢
      split_ifs at hadded ⊢ with hroom
      · simp
      · exact absurd hnew hadded
  have hsplit : counters (start ++ first :: mid) d.key =
      some (1 + mid.countP fun x => x.key = d.key) := by
    have hevents : ∀ e ∈ mid.map Datagram.event, e ≠ .leave d.key := by
      intro e he
      obtain ⟨x, hx, rfl⟩ := List.mem_map.mp he
      unfold Datagram.event
      split
      · rename_i hbye
        rintro heq
        exact hstays x hx (Event.leave.inj heq) hbye
      · simp
    have hcount := @foldl_next_eq_count _ maxHistory _ _ _ _ _ hone hevents
    rw [List.countP_map] at hcount
    rw [List.append_cons, counters, List.map_append, after, List.foldl_append]
    refine hcount.trans (congrArg some (congrArg (1 + ·) (List.countP_congr fun x hx => ?_)))
    unfold Datagram.event Function.comp
    by_cases hbye : x.text = clientShutdown
    · simp only [if_pos hbye, Bool.false_eq_true, decide_eq_true_eq, false_iff]
      exact fun hkey => hstays x hx hkey hbye
    · simp [if_neg hbye]
  have hnumber : 1 + mid.countP (fun x => x.key = d.key) + 1 =
      mid.countP (fun x => x.key = d.key) + 2 := by omega
  rw [expected, if_neg hd, numberFor_of_some hsplit, hnumber]

/-- Whether the round that receives `d` after the datagrams `pre` does what the
counter map says: entries and map agree before and after, a stranger is refused
exactly when the history is full, the good-bye of a stranger changes nothing,
the reply is the expected one, and within a session that is the message with its
place in the session. -/
def Meets (pre : List Datagram) (d : Datagram) : Prop :=
  ∃ h rs h' r, serveAll History.zero pre = some (h, rs) ∧ serve h d = some (h', r) ∧
    h.Sound (counters pre) ∧ h'.Sound (counters (pre ++ [d])) ∧
    ((findClient d.ipAddr d.port h = none ∧ addClient d.ipAddr d.port h = none) ↔
      counters pre d.key = none ∧ (registered (counters pre)).ncard = maxHistory) ∧
    (d.text = clientShutdown → counters pre d.key = none → h' = h) ∧
    r = expected (counters pre) d ∧
    ∀ start first mid, pre = start ++ first :: mid → first.key = d.key →
      counters start d.key = none → counters (start ++ [first]) d.key ≠ none →
      (∀ x ∈ mid, x.key = d.key → x.text ≠ clientShutdown) → d.text ≠ clientShutdown →
      r = some (d.text ++ ' ' :: decimal (mid.countP (fun x => x.key = d.key) + 2 : ℕ))

private theorem snprintf_historyFull : snprintf bufferSize historyFull = historyFull :=
  snprintf_eq_self (by decide)

/-- The expected answer arrives whole exactly when it fits. -/
theorem map_snprintf_expected_iff {m : Key → Option ℕ} {d : Datagram} :
    (expected m d).map (snprintf bufferSize) = expected m d ↔ Fits m d := by
  unfold expected Fits
  by_cases hbye : d.text = clientShutdown
  · simp [hbye]
  · rw [if_neg hbye]
    cases hnumber : numberFor maxHistory m d.key with
    | none => simp [snprintf_historyFull]
    | some number =>
      have hsize : 0 < bufferSize := by decide
      dsimp only
      rw [Option.map_some, Option.some_inj, snprintf_eq_self_iff hsize]
      constructor
      · rintro hfit - n hn
        obtain rfl := Option.some.inj hn
        exact hfit
      · exact fun hfit => hfit hbye number rfl

/-- One round after a run: everything but the reply meets the map, and the reply
does when it fits. -/
theorem meets_iff {pre : List Datagram} {d : Datagram}
    (hshort : ∀ x ∈ pre ++ [d], x.payload.length < bufferSize)
    (hsess : SessionsBounded (pre ++ [d])) : Meets pre d ↔ Fits (counters pre) d := by
  obtain ⟨h, rs, hrun, hs⟩ := serveAll_spec (fun x hx => hshort x (by simp [hx]))
    fun p hp => hsess p (hp.trans (List.prefix_append _ _))
  have hsmall : ∀ c, next maxHistory (counters pre) d.event d.key = some c → c < 2 ^ 31 - 1 :=
    fun c hc => hsess _ List.prefix_rfl d.key c (by rw [counters_snoc]; exact hc)
  obtain ⟨h', hserve, hs', hsame⟩ := serve_spec hs (hshort d (by simp)) hsmall
  constructor
  · rintro ⟨h₁, rs₁, h₁', r, hrun₁, hserve₁, -, -, -, -, hr, -⟩
    obtain ⟨rfl, -⟩ := Prod.mk.inj (Option.some.inj (hrun.symm.trans hrun₁))
    obtain ⟨-, rfl⟩ := Prod.mk.inj (Option.some.inj (hserve.symm.trans hserve₁))
    exact map_snprintf_expected_iff.mp hr
  · intro hfits
    rw [map_snprintf_expected_iff.mpr hfits] at hserve
    refine ⟨h, rs, h', _, hrun, hserve, hs, counters_snoc pre d ▸ hs', ?_, hsame, rfl, ?_⟩
    · rw [hs.ncard_registered]
      rcases findClient_spec hs d.ipAddr d.port with ⟨hfind, hnone⟩ | ⟨i, e, hfind, -, he, hkey⟩
      · have hnone' : counters pre d.key = none := hnone
        have hfull : addClient d.ipAddr d.port h = none ↔ h.count = maxHistory := by
          have := hs.count_le
          simp only [addClient, ge_iff_le, ite_eq_left_iff, reduceCtorEq, imp_false, not_not]
          omega
        simp [hfind, hnone', hfull]
      · have hreg : counters pre d.key ≠ none :=
          hs.tracks.ne_none_iff.mpr (List.mem_map.mpr ⟨e, List.mem_of_getElem? he, hkey⟩)
        simp [hfind, hreg]
    · rintro start first mid rfl hfirst hnew hadded hstays hd
      exact expected_in_session hfirst hnew hadded hstays hd

/-- **The echo server and the counter map.** For every sequence of short
datagrams in bounded sessions, the server behaves as the counter map exactly if
every message and its number together fit the reply buffer. -/
theorem meets_iff_fits {ds : List Datagram} (hshort : ∀ d ∈ ds, d.payload.length < bufferSize)
    (hsess : SessionsBounded ds) :
    (∀ pre d post, ds = pre ++ d :: post → Meets pre d) ↔
      ∀ pre d post, ds = pre ++ d :: post → Fits (counters pre) d := by
  refine forall_congr' fun pre => forall_congr' fun d => forall_congr' fun post =>
    forall_congr' fun hds => meets_iff ?_ ?_
  · intro x hx
    refine hshort x ?_
    rw [hds, List.append_cons]
    exact List.mem_append_left _ hx
  · rw [hds, List.append_cons] at hsess
    exact fun p hp => hsess p (hp.trans (List.prefix_append _ _))

/-! ### Short messages and a long one -/

private theorem numberFor_start (k : Key) : numberFor maxHistory (counters []) k = some 1 := by
  have hzero : (registered (counters [])).ncard = 0 :=
    History.sound_zero.ncard_registered
  exact numberFor_of_room rfl (by rw [hzero]; decide)

/-- A client of the local host says hello. -/
def hello (port : UInt16) : Datagram := ⟨2130706433, port, "hello".toList⟩

/-- A client takes its leave. -/
def leave (port : UInt16) : Datagram := ⟨2130706433, port, clientShutdown⟩

/-- Two clients say hello, and the first one again. Then it leaves and comes back. -/
def visits : List Datagram := [hello 5000, hello 5001, hello 5000, leave 5000, hello 5000]

theorem numberFor_le {pre : List Datagram} {k : Key} {number : ℕ}
    (h : numberFor maxHistory (counters pre) k = some number) : number ≤ pre.length + 1 := by
  cases hc : counters pre k with
  | none =>
    simp only [numberFor, hc, Option.ite_none_right_eq_some, Option.some_inj] at h
    omega
  | some c =>
    have hcount := le_length_of_after hc
    rw [List.length_map] at hcount
    rw [numberFor_of_some hc, Option.some_inj] at h
    omega

theorem fits_visits {pre post : List Datagram} {d : Datagram} (hds : visits = pre ++ d :: post) :
    Fits (counters pre) d := by
  intro _ number hnumber
  have htext : ∀ d ∈ visits, d.text.length ≤ 15 := by decide
  have hlength := htext d (hds ▸ List.mem_append_right _ List.mem_cons_self)
  have hlong := congrArg List.length hds
  rw [List.length_append, List.length_cons] at hlong
  -- nobody can have come to a number of two digits
  have hsmall : number < 7 := by
    have hle := numberFor_le hnumber
    have hfive : visits.length = 5 := rfl
    omega
  have hdigit : ∀ n < 7, (decimal (n : ℕ)).length = 1 := by decide
  rw [List.length_append, List.length_cons, hdigit number hsmall]
  exact lt_of_le_of_lt (Nat.add_le_add_right hlength 2) (by decide)

theorem meets_iff_fits_visits :
    Meets [] (hello 5000) ∧ Meets [hello 5000] (hello 5001) ∧
      Meets [hello 5000, hello 5001] (hello 5000) ∧
      Meets [hello 5000, hello 5001, hello 5000] (leave 5000) ∧
      Meets [hello 5000, hello 5001, hello 5000, leave 5000] (hello 5000) := by
  have hmeets := (@meets_iff_fits visits (by decide)
    (sessionsBounded_of_length (by decide))).mpr fun _ _ _ => fits_visits
  exact ⟨hmeets _ _ _ rfl, hmeets _ _ _ rfl, hmeets _ _ _ rfl, hmeets _ _ _ rfl,
    hmeets _ _ _ rfl⟩

/-- A client fills the receive buffer. -/
def shout : Datagram := ⟨2130706433, 5000, List.replicate 1023 'a'⟩

/-- The number of a message that fills the buffer is cut from the reply. -/
theorem not_meets_shout :
    shout.payload.length < bufferSize ∧ SessionsBounded [shout] ∧ ¬ Meets [] shout := by
  have hlen : shout.payload.length = 1023 := List.length_replicate
  have hshort : shout.payload.length < bufferSize := by rw [hlen]; decide
  have hsess : SessionsBounded [shout] :=
    sessionsBounded_of_length (by rw [List.length_singleton]; decide)
  refine ⟨hshort, hsess, fun hmeets => ?_⟩
  have hfits := (meets_iff (by simpa using hshort) hsess).mp hmeets
  have htext : shout.text.length = 1023 := by
    rw [Datagram.text, cstr_of_notMem, hlen]
    intro hnul
    exact absurd (List.eq_of_mem_replicate hnul) (by decide)
  have hbye : shout.text ≠ clientShutdown := by
    intro heq
    rw [heq] at htext
    exact absurd htext (by decide)
  have hroom := hfits hbye 1 (numberFor_start _)
  rw [List.length_append, htext, List.length_cons, bufferSize] at hroom
  omega

end UnixLessons.Echo
