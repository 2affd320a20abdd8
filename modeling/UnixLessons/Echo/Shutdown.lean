import Mathlib.Data.Finset.Dedup
import UnixLessons.Echo.Statements

/-!
# The shutdown notice of the echo server

The signal handler sends a notice to every cell in use, in whatever state the interrupted
statement has left the array. While `remove_client` shifts the cells, one entry is there
twice and the removed one may still be there, but no other is missing; while `add_client`
fills a cell, the cell is not in use.

`Removing` is the shift loop half-way: the cells before the removed entry, those shifted so
far, and those still to be shifted.

## Main result

* `shutdown_reaches`: whenever the signal comes, every registered client is told, and nobody
  who is not a client
-/

namespace UnixLessons.Echo

open Text Arrays Transition

/-- The loop of `signal_handler` from cell `i` on, with `n` rounds to go: the notices sent,
each with its address; `none` when a cell outside the array is read. -/
def notifyFrom (h : History) : ℕ → ℕ → Option (List (Key × CString))
  | _, 0 => some []
  | i, n + 1 => do
    let c ← h.client[i]?
    let rest ← notifyFrom h (i + 1) n
    some ((c.key, serverShutdown) :: rest)

def signalHandler (h : History) : Option (List (Key × CString)) := notifyFrom h 0 h.count

variable {h : History} {d : Datagram} {k : Key} {buffer : CString} {i : ℕ}

theorem notifyFrom_eq {n : ℕ} (hle : i + n ≤ maxHistory) :
    notifyFrom h i n =
      some (((h.client.toList.drop i).take n).map fun c => (c.key, serverShutdown)) := by
  induction n generalizing i with
  | zero => rfl
  | succ n ih =>
    have hlt : i < h.client.toList.length := by
      rw [Vector.length_toList]
      omega
    have hread : h.client[i]? = some h.client.toList[i] := by
      rw [← Vector.getElem?_toList, List.getElem?_eq_getElem hlt]
    rw [notifyFrom, hread, ih (by omega), List.drop_eq_getElem_cons hlt, List.take_succ_cons]
    rfl

/-- The handler goes through the cells in use. -/
theorem signalHandler_eq (hle : h.count ≤ maxHistory) :
    signalHandler h = some (h.entries.map fun c => (c.key, serverShutdown)) := by
  rw [signalHandler, notifyFrom_eq (by omega), List.drop_zero, History.entries]

namespace Server

variable {s t : Server}

/-- The keys of the cells in use. -/
def keys (s : Server) : List Key := s.history.entries.map Client.key

/-- The cells in use are those of the members, one each; all of them but `away` are completed. -/
structure Steady (s : Server) (away : Finset Key) : Prop where
  wellFormed : s.history.WellFormed
  members : s.members = s.keys.toFinset
  completed : s.completed = s.members \ away

/-- The loop of `remove_client`: of the cells from the removed entry on, the first ones have
been shifted. -/
structure Removing (s : Server) (d : Datagram) (i : ℕ) (pre : List Client) (e : Client)
    (post : List Client) (shifted : ℕ) : Prop where
  count_le : s.history.count ≤ maxHistory
  entries : s.history.entries = pre ++ (post.take shifted ++ (e :: post).drop shifted)
  index : i = pre.length + shifted
  shifted_le : shifted ≤ post.length
  key : e.key = d.key
  nodup : ((pre ++ e :: post).map Client.key).Nodup
  members : s.members = ((pre ++ e :: post).map Client.key).toFinset
  completed : s.completed = s.members \ {d.key}

/-- In `add_client`, with what is in the cell behind those in use. -/
structure Adding (s : Server) (d : Datagram) (cell : Client → Prop) : Prop where
  steady : s.Steady ∅
  new : d.key ∉ s.members
  room : s.history.count < maxHistory
  filled : ∃ c, s.history.client[s.history.count]? = some c ∧ cell c

/-- What the array looks like between two statements. -/
def Inv (s : Server) : Prop :=
  match s.pc with
  | .receive | .compare _ | .find _ _ | .takeNumber _ _ | .respond _ _ => s.Steady ∅
  | .findRemoved d => s.Steady {d.key}
  | .shift d i => ∃ pre e post shifted, s.Removing d i pre e post shifted
  | .countOff d => ∃ pre e post, s.Removing d (s.history.count - 1) pre e post post.length
  | .checkRoom d _ => s.Steady ∅ ∧ d.key ∉ s.members
  | .setIpAddr d _ => s.Adding d fun _ => True
  | .setPort d _ => s.Adding d fun c => c.ipAddr = d.ipAddr
  | .setNumber d _ => s.Adding d fun c => c.key = d.key
  | .countIn d _ => s.Adding d fun c => c.key = d.key
  | .addReturn d _ => s.Steady {d.key} ∧ d.key ∈ s.members

/-! ### What the handler sends -/

/-- The notices go to all registered clients and to no stranger. -/
def Reaches (s : Server) : Prop :=
  ∃ sends, signalHandler s.history = some sends ∧
    (∀ k ∈ s.completed, (k, serverShutdown) ∈ sends) ∧
    ∀ x ∈ sends, x.1 ∈ s.members ∧ x.2 = serverShutdown

/-- It is enough to compare the keys in use with the two sets. -/
theorem reaches_of_keys (hle : s.history.count ≤ maxHistory)
    (hall : ∀ k ∈ s.completed, k ∈ s.keys) (honly : ∀ k ∈ s.keys, k ∈ s.members) : s.Reaches := by
  refine ⟨_, signalHandler_eq hle, fun k hk => ?_, fun x hx => ?_⟩
  · obtain ⟨c, hc, rfl⟩ := List.mem_map.mp (hall k hk)
    exact List.mem_map_of_mem hc
  · obtain ⟨c, hc, rfl⟩ := List.mem_map.mp hx
    exact ⟨honly c.key (List.mem_map_of_mem hc), rfl⟩

theorem Steady.reaches {away : Finset Key} (hs : s.Steady away) : s.Reaches := by
  refine reaches_of_keys hs.wellFormed.count_le (fun k hk => ?_) (fun k hk => ?_)
  · rw [hs.completed, Finset.mem_sdiff, hs.members] at hk
    exact List.mem_toFinset.mp hk.1
  · rw [hs.members]
    exact List.mem_toFinset.mpr hk

/-- Half-way through the shift, no entry but the removed one is missing. -/
theorem Removing.reaches {pre post : List Client} {e : Client} {shifted : ℕ}
    (hs : s.Removing d i pre e post shifted) : s.Reaches := by
  have hdrop : ∀ c, c ∈ post.drop shifted → c ∈ (e :: post).drop shifted := by
    intro c hc
    cases shifted with
    | zero => exact List.mem_cons_of_mem e hc
    | succ j =>
      rw [← List.drop_drop] at hc
      exact List.mem_of_mem_drop hc
  refine reaches_of_keys hs.count_le (fun k hk => ?_) (fun k hk => ?_)
  · rw [hs.completed, Finset.mem_sdiff, Finset.mem_singleton, hs.members, List.mem_toFinset] at hk
    obtain ⟨hmem, hne⟩ := hk
    obtain ⟨c, hc, rfl⟩ := List.mem_map.mp hmem
    rw [keys, hs.entries]
    refine List.mem_map_of_mem ?_
    -- It stands before the removed entry, or behind it and then shifted or not yet.
    rcases List.mem_append.mp hc with hpre | hpost
    · exact List.mem_append_left _ hpre
    · refine List.mem_append_right _ ?_
      rcases List.mem_cons.mp hpost with rfl | hpost
      · exact absurd hs.key hne
      · rw [← List.take_append_drop shifted post] at hpost
        rcases List.mem_append.mp hpost with htake | hrest
        · exact List.mem_append_left _ htake
        · exact List.mem_append_right _ (hdrop c hrest)
  · rw [keys, hs.entries] at hk
    rw [hs.members, List.mem_toFinset]
    obtain ⟨c, hc, rfl⟩ := List.mem_map.mp hk
    refine List.mem_map_of_mem ?_
    rcases List.mem_append.mp hc with hpre | hc
    · exact List.mem_append_left _ hpre
    · refine List.mem_append_right _ ?_
      rcases List.mem_append.mp hc with htake | hrest
      · exact List.mem_cons_of_mem e (List.mem_of_mem_take htake)
      · exact List.mem_of_mem_drop hrest

theorem Inv.reaches (h : s.Inv) : s.Reaches := by
  unfold Inv at h
  cases hpc : s.pc with
  | receive | compare _ | find _ _ | takeNumber _ _ | respond _ _ | findRemoved _ =>
    rw [hpc] at h
    exact Steady.reaches h
  | shift d i =>
    rw [hpc] at h
    obtain ⟨pre, e, post, shifted, hremoving⟩ := h
    exact hremoving.reaches
  | countOff d =>
    rw [hpc] at h
    obtain ⟨pre, e, post, hremoving⟩ := h
    exact hremoving.reaches
  | checkRoom _ _ | addReturn _ _ =>
    rw [hpc] at h
    exact h.1.reaches
  | setIpAddr _ _ | setPort _ _ | setNumber _ _ | countIn _ _ =>
    rw [hpc] at h
    exact h.steady.reaches

/-! ### Statements that change nothing in the array -/

theorem Steady.goto {away : Finset Key} (hs : s.Steady away) (pc : ServerPc) :
    (s.goto pc).Steady away :=
  ⟨hs.wellFormed, hs.members, hs.completed⟩

theorem Steady.send (hs : s.Steady ∅) (text : CString) : (s.send text).Inv :=
  ⟨hs.wellFormed, hs.members, hs.completed⟩

theorem Steady.mem_members_iff {away : Finset Key} (hs : s.Steady away) :
    k ∈ s.members ↔ ∃ e ∈ s.history.entries, e.key = k := by
  rw [hs.members, List.mem_toFinset, keys, List.mem_map]

/-- A client that is not found is not a member. -/
theorem Steady.notMem {away : Finset Key} (hs : s.Steady away)
    (hfind : findClient d.ipAddr d.port s.history = none) : d.key ∉ s.members := by
  rw [hs.mem_members_iff]
  rintro ⟨e, he, hkey⟩
  exact findClient_eq_none (k := d.key) hfind e he hkey

/-! ### Removing a client -/

/-- The search has found the client. -/
theorem Steady.removing (hs : s.Steady {d.key})
    (hfind : findClient d.ipAddr d.port s.history = some i) :
    ∃ pre e post, (s.goto (.shift d i)).Removing d i pre e post 0 := by
  obtain ⟨pre, e, post, hentries, hindex, hkey, -⟩ :=
    findClient_eq_some (k := d.key) hs.wellFormed hfind
  refine ⟨pre, e, post, hs.wellFormed.count_le, hentries, hindex.symm, Nat.zero_le _, hkey, ?_, ?_,
    hs.completed⟩
  · rw [← hentries]
    exact hs.wellFormed.nodup
  · rw [← hentries]
    exact hs.members

theorem Removing.count_eq {pre post : List Client} {e : Client} {shifted : ℕ}
    (hs : s.Removing d i pre e post shifted) :
    s.history.count = pre.length + post.length + 1 := by
  have hlength := congrArg List.length hs.entries
  have := hs.shifted_le
  rw [History.length_entries hs.count_le] at hlength
  simp only [List.length_append, List.length_take, List.length_drop, List.length_cons] at hlength
  omega

/-- One more cell is shifted. -/
theorem Removing.shift {pre post : List Client} {e c : Client} {shifted : ℕ}
    (hs : s.Removing d i pre e post shifted) (hmore : i < s.history.count - 1)
    (hread : s.history.client[i + 1]? = some c) :
    Removing { s with
      history := { s.history with client := s.history.client.setIfInBounds i c }
      pc := .shift d (i + 1) } d (i + 1) pre e post (shifted + 1) := by
  have hcount := hs.count_eq
  have hindex := hs.index
  have hlt : shifted < post.length := by omega
  -- The cell that is copied holds the next entry that has not been shifted.
  have hc : c = post[shifted] := by
    rw [← History.entries_getElem? (by omega), hs.entries, hindex, Nat.add_assoc,
      List.getElem?_append_right (by omega), Nat.add_sub_cancel_left,
      List.getElem?_append_right (by rw [List.length_take]; omega), List.length_take,
      min_eq_left hs.shifted_le, Nat.add_sub_cancel_left, List.getElem?_drop,
      List.getElem?_cons_succ, List.getElem?_eq_getElem hlt] at hread
    exact (Option.some.inj hread).symm
  refine { hs with entries := ?_, index := by omega, shifted_le := hlt }
  -- It is written over the removed entry, or over one that has been copied.
  rw [History.entries_set, hs.entries, hindex, List.set_append_right _ _ (by omega),
    Nat.add_sub_cancel_left, List.set_append_right _ _ (by rw [List.length_take]; omega),
    List.length_take, min_eq_left hs.shifted_le, Nat.sub_self]
  have hlt' : shifted < (e :: post).length := Nat.lt_succ_of_lt hlt
  have hdrop : (e :: post).drop shifted = (e :: post)[shifted] :: (e :: post).drop (shifted + 1) :=
    List.drop_eq_getElem_cons hlt'
  rw [hdrop, List.set_cons_zero, ← List.take_append_getElem hlt, hc, List.append_assoc,
    List.singleton_append]

/-- The loop has shifted everything. -/
theorem Removing.done {pre post : List Client} {e : Client} {shifted : ℕ}
    (hs : s.Removing d i pre e post shifted) (hdone : ¬ i < s.history.count - 1) :
    (s.goto (.countOff d)).Removing d (s.history.count - 1) pre e post post.length := by
  have hcount := hs.count_eq
  have hindex := hs.index
  have hle := hs.shifted_le
  -- The loop ends when the index is that of the last cell.
  obtain rfl : shifted = post.length := by omega
  exact { hs with index := by omega }

/-- The last cell, which has been copied, is counted off. -/
theorem Removing.countOff {pre post : List Client} {e : Client}
    (hs : s.Removing d i pre e post post.length) :
    Steady { s with
      history := { s.history with count := s.history.count - 1 }
      pc := .receive, members := s.members.erase d.key } ∅ := by
  have hcount := hs.count_eq
  have hentries :
      History.entries { s.history with count := s.history.count - 1 } = pre ++ post := by
    have hlast : History.entries { s.history with count := s.history.count - 1 } =
        s.history.entries.take (s.history.count - 1) := by
      rw [History.entries, History.entries, List.take_take, min_eq_left (Nat.sub_le _ _)]
    rw [hlast, hs.entries, List.take_length, ← List.append_assoc, List.take_left']
    rw [List.length_append]
    omega
  have hnodup := hs.nodup
  rw [List.map_append, List.map_cons, List.nodup_middle, List.nodup_cons, ← List.map_append]
    at hnodup
  -- No other entry has the key of the removed one.
  have hmembers : s.members.erase d.key = ((pre ++ post).map Client.key).toFinset := by
    rw [hs.members, ← hs.key, List.map_append, List.map_cons]
    ext k
    rw [Finset.mem_erase, List.mem_toFinset, List.mem_toFinset, List.map_append]
    have hnot := hnodup.1
    rw [List.map_append] at hnot
    constructor
    · rintro ⟨hne, hmem⟩
      simpa [hne] using hmem
    · intro hmem
      refine ⟨fun heq => hnot (heq ▸ hmem), ?_⟩
      simp only [List.mem_append, List.mem_cons] at hmem ⊢
      tauto
  refine ⟨⟨?_, ?_⟩, ?_, ?_⟩
  · exact (Nat.sub_le _ _).trans hs.count_le
  · rw [hentries]
    exact hnodup.2
  · rw [hmembers, keys, hentries]
  · rw [hs.completed, Finset.sdiff_empty, Finset.sdiff_singleton_eq_erase]

/-! ### Adding a client -/

/-- The members of the new cell are written behind the cells in use. -/
theorem Adding.write {cell cell' : Client → Prop} {f : Client → Client} {pc : ServerPc}
    (hs : s.Adding d cell) (hwrite : s.write s.history.count f pc = some t)
    (hf : ∀ c, cell c → cell' (f c)) : t.Adding d cell' ∧ t.pc = pc := by
  obtain ⟨c, hread, hcell⟩ := hs.filled
  rw [write_eq hread] at hwrite
  cases hwrite
  have hlength := History.length_entries hs.steady.wellFormed.count_le
  have hentries : History.entries { s.history with
      client := s.history.client.setIfInBounds s.history.count (f c) } = s.history.entries := by
    rw [History.entries_set, List.set_eq_of_length_le hlength.le]
  refine ⟨⟨⟨⟨hs.steady.wellFormed.count_le, ?_⟩, ?_, hs.steady.completed⟩, hs.new, hs.room, ?_⟩,
    rfl⟩
  · rw [hentries]
    exact hs.steady.wellFormed.nodup
  · rw [keys, hentries]
    exact hs.steady.members
  · exact ⟨f c, Vector.getElem?_setIfInBounds_self_of_lt hs.room, hf c hcell⟩

/-- The new cell is in use. -/
theorem Adding.countIn (hs : s.Adding d fun c => c.key = d.key) :
    Steady { s with
      history := { s.history with count := s.history.count + 1 }
      pc := .addReturn d buffer, members := insert d.key s.members } {d.key} := by
  obtain ⟨c, hread, hkey⟩ := hs.filled
  have hentries : History.entries { s.history with count := s.history.count + 1 } =
      s.history.entries ++ [c] := by
    rw [← Vector.getElem?_toList] at hread
    rw [History.entries, History.entries, List.take_add_one, hread]
    rfl
  -- The client was not found before, and nothing was counted since.
  have hnot : d.key ∉ s.keys := by
    have hnew := hs.new
    rwa [hs.steady.members, List.mem_toFinset] at hnew
  have hkeys : (History.entries { s.history with count := s.history.count + 1 }).map Client.key =
      s.keys ++ [d.key] := by
    rw [hentries, List.map_append, List.map_singleton, hkey, keys]
  refine ⟨⟨hs.room, ?_⟩, ?_, ?_⟩
  · rw [hkeys, List.nodup_append]
    refine ⟨hs.steady.wellFormed.nodup, List.nodup_singleton _, ?_⟩
    rintro k hk l hl rfl
    exact hnot (List.mem_singleton.mp hl ▸ hk)
  · rw [keys, hkeys, hs.steady.members]
    ext k
    simp
  · rw [hs.steady.completed, Finset.sdiff_empty, Finset.insert_sdiff_of_mem _ (by simp),
      Finset.sdiff_singleton_eq_erase, Finset.erase_eq_of_notMem hs.new]

/-- The number of a cell does not matter. -/
theorem Steady.writeNumber {f : Client → Client} {pc : ServerPc} (hs : s.Steady ∅)
    (hwrite : s.write i f pc = some t) (hf : ∀ c, (f c).key = c.key) :
    t.Steady ∅ ∧ t.pc = pc := by
  unfold Server.write History.modify at hwrite
  obtain ⟨history, hmodify, rfl⟩ := Option.map_eq_some_iff.mp hwrite
  obtain ⟨c, hread, rfl⟩ := Option.map_eq_some_iff.mp hmodify
  have hkeys : (History.entries { s.history with
      client := s.history.client.setIfInBounds i (f c) }).map Client.key = s.keys := by
    rw [History.entries_set, List.map_set, hf, keys]
    -- A cell in use keeps its key, and a cell behind them is not looked at.
    by_cases hi : i < s.history.count
    · rw [← History.entries_getElem? hi] at hread
      have hmap : (s.history.entries.map Client.key)[i]? = some c.key := by
        rw [List.getElem?_map, hread, Option.map_some]
      obtain ⟨hlt, hget⟩ := List.getElem?_eq_some_iff.mp hmap
      rw [← hget, List.set_getElem_self]
    · apply List.set_eq_of_length_le
      rw [List.length_map, History.length_entries hs.wellFormed.count_le]
      omega
  refine ⟨⟨⟨hs.wellFormed.count_le, ?_⟩, ?_, hs.completed⟩, rfl⟩
  · rw [hkeys]
    exact hs.wellFormed.nodup
  · rw [keys, hkeys]
    exact hs.members

/-! ### All statements -/

/-- A statement leads from one description of the array to the next. -/
theorem Inv.next (h : s.Inv) (hstep : s.next = some t) : t.Inv := by
  unfold Inv at h
  unfold Server.next at hstep
  cases hpc : s.pc with
  | receive => simp [hpc] at hstep
  | compare d =>
    simp only [hpc] at h hstep
    obtain ⟨buffer, -, rfl⟩ := Option.map_eq_some_iff.mp hstep
    split
    -- the call of `remove_client`
    · refine ⟨h.wellFormed, h.members, ?_⟩
      dsimp only
      rw [h.completed, Finset.sdiff_empty, Finset.sdiff_singleton_eq_erase]
    · exact h.goto _
  | findRemoved d =>
    simp only [hpc] at h hstep
    split at hstep <;> cases hstep
    · rename_i hfind
      refine ⟨h.wellFormed, h.members, ?_⟩
      change s.completed = s.members \ ∅
      rw [h.completed, Finset.sdiff_singleton_eq_erase, Finset.erase_eq_of_notMem (h.notMem hfind),
        Finset.sdiff_empty]
    · rename_i i hfind
      obtain ⟨pre, e, post, hremoving⟩ := h.removing hfind
      exact ⟨pre, e, post, 0, hremoving⟩
  | shift d i =>
    simp only [hpc] at h hstep
    obtain ⟨pre, e, post, shifted, hremoving⟩ := h
    split at hstep
    · rename_i hmore
      obtain ⟨c, hread, hwrite⟩ := Option.bind_eq_some_iff.mp hstep
      have hlt : i < maxHistory := by
        have := hremoving.count_le
        omega
      rw [write_eq (Vector.getElem?_eq_getElem hlt)] at hwrite
      cases hwrite
      exact ⟨pre, e, post, shifted + 1, hremoving.shift hmore hread⟩
    · rename_i hdone
      cases hstep
      exact ⟨pre, e, post, hremoving.done hdone⟩
  | countOff d =>
    simp only [hpc, Option.some_inj] at h hstep
    obtain ⟨pre, e, post, hremoving⟩ := h
    exact hstep ▸ hremoving.countOff
  | find d buffer =>
    simp only [hpc] at h hstep
    split at hstep <;> cases hstep
    · exact h.goto _
    · rename_i hfind
      exact ⟨h.goto _, h.notMem hfind⟩
  | checkRoom d buffer =>
    simp only [hpc] at h hstep
    split at hstep <;> cases hstep
    · exact h.1.send _
    · rename_i hroom
      have hlt : s.history.count < maxHistory := not_le.mp hroom
      exact ⟨h.1.goto _, h.2, hlt, _, Vector.getElem?_eq_getElem hlt, trivial⟩
  | setIpAddr d buffer =>
    simp only [hpc] at h hstep
    obtain ⟨hadding, hpc'⟩ : t.Adding d (fun c => c.ipAddr = d.ipAddr) ∧ _ :=
      h.write hstep fun _ _ => rfl
    rw [Inv, hpc']
    exact hadding
  | setPort d buffer =>
    simp only [hpc] at h hstep
    obtain ⟨hadding, hpc'⟩ : t.Adding d (fun c => c.key = d.key) ∧ _ :=
      h.write hstep fun c hc => Prod.ext hc rfl
    rw [Inv, hpc']
    exact hadding
  | setNumber d buffer =>
    simp only [hpc] at h hstep
    obtain ⟨hadding, hpc'⟩ : t.Adding d (fun c => c.key = d.key) ∧ _ :=
      h.write hstep fun _ hc => hc
    rw [Inv, hpc']
    exact hadding
  | countIn d buffer =>
    simp only [hpc, Option.some_inj] at h hstep
    exact hstep ▸ ⟨h.countIn, Finset.mem_insert_self _ _⟩
  | addReturn d buffer =>
    simp only [hpc, Option.some_inj] at h hstep
    -- From here on the client counts as registered.
    obtain ⟨hsteady, hmem⟩ := h
    subst hstep
    refine ⟨hsteady.wellFormed, hsteady.members, ?_⟩
    dsimp only
    rw [hsteady.completed, Finset.sdiff_singleton_eq_erase, Finset.insert_erase hmem,
      Finset.sdiff_empty]
  | takeNumber i buffer =>
    simp only [hpc] at h hstep
    obtain ⟨c, -, hwrite⟩ := Option.bind_eq_some_iff.mp hstep
    obtain ⟨hsteady, hpc'⟩ := h.writeNumber hwrite fun _ => rfl
    rw [Inv, hpc']
    exact hsteady
  | respond buffer number =>
    simp only [hpc, Option.some_inj] at h hstep
    exact hstep ▸ h.send _

theorem inv_preserved : Preserved step Inv := by
  intro s a t h hstep
  cases a with
  | datagram d =>
    obtain ⟨hpc, hgoto⟩ := Option.ite_none_right_eq_some.mp hstep
    cases hgoto
    rw [Inv, hpc] at h
    exact Steady.goto h _
  | next => exact h.next hstep

theorem inv_start : start.Inv := by
  refine ⟨History.wellFormed_zero, ?_, rfl⟩
  rw [keys, start, History.entries]
  rfl

/-- **The shutdown notice.** Whatever the server has received, and at whatever statement the
signal comes, the handler stays in the array and sends the notice to every client whose
`add_client` has returned and whose `remove_client` was not called, and only to clients that
have been counted in and not yet counted off. -/
theorem shutdown_reaches {inputs : List Input} (hrun : run step start inputs = some s) :
    ∃ sends, signalHandler s.history = some sends ∧
      (∀ k ∈ s.completed, (k, serverShutdown) ∈ sends) ∧
      ∀ x ∈ sends, x.1 ∈ s.members ∧ x.2 = serverShutdown :=
  (inv_preserved.run inv_start hrun).reaches

set_option maxRecDepth 2000 in
/-- Two clients say hello and the first one good-bye. The signal comes when the second has
been copied over the first and not yet counted off: it is told twice. -/
theorem shutdown_reaches_twice :
    let inputs : List Input :=
      .datagram ⟨1, 1, "a".toList⟩ :: List.replicate 10 .next ++
        .datagram ⟨2, 2, "b".toList⟩ :: List.replicate 10 .next ++
        .datagram ⟨1, 1, clientShutdown⟩ :: List.replicate 3 .next
    ∃ s, run step start inputs = some s ∧ s.completed = {(2, 2)} ∧
      signalHandler s.history = some [((2, 2), serverShutdown), ((2, 2), serverShutdown)] ∧
      s.Reaches := by
  intro inputs
  have hend : (run step start inputs).map (fun s => (s.completed, signalHandler s.history)) =
      some ({(2, 2)}, some [((2, 2), serverShutdown), ((2, 2), serverShutdown)]) := by decide
  obtain ⟨s, hrun, heq⟩ := Option.map_eq_some_iff.mp hend
  obtain ⟨hcompleted, hsends⟩ := Prod.mk.inj heq
  exact ⟨s, hrun, hcompleted, hsends, shutdown_reaches hrun⟩

end Server

end UnixLessons.Echo
