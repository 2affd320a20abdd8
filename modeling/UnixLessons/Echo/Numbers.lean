import UnixLessons.Echo.Refinement

/-!
# The numbers in the history

What one round of the server does to the number each client is given next, without
any bound on how many messages a client sends: the numbers are those of an `int`.

## Main results

* `serve_bye`: a good-bye forgets the number of its sender
* `serve_message`: a message is answered with the number of its sender, which is
  one more afterwards
* `serve_isSome`: no round leaves an array
-/

namespace UnixLessons.Echo

open Text Arrays

variable {h : History} {k l : Key} {d : Datagram} {e : Client} {i : ℕ}

namespace History

/-- The number the next message of a registered client gets. -/
def number (h : History) (k : Key) : Option Int32 :=
  (h.entries.find? (·.key = k)).map Client.number

/-- The cells in use are in the array, and no client has two of them. -/
structure WellFormed (h : History) : Prop where
  count_le : h.count ≤ maxHistory
  nodup : (h.entries.map Client.key).Nodup

theorem wellFormed_zero : zero.WellFormed := ⟨by simp [zero], by simp [entries, zero]⟩

theorem number_zero (k : Key) : zero.number k = none := by
  simp [number, entries, zero]

end History

/-- The cell the search finds, with the cells before and behind it. -/
theorem findClient_eq_some (hw : h.WellFormed) (hfind : findClient k.1 k.2 h = some i) :
    ∃ pre e post, h.entries = pre ++ e :: post ∧ pre.length = i ∧ e.key = k ∧
      (∀ x ∈ pre ++ post, x.key ≠ k) := by
  rw [findClient, List.findIdx?_eq_some_iff_getElem] at hfind
  obtain ⟨hlt, hmatch, -⟩ := hfind
  have hsplit : h.entries = h.entries.take i ++ h.entries[i] :: h.entries.drop (i + 1) := by simp
  have hkey : h.entries[i].key = k := by
    simp only [Bool.and_eq_true, beq_iff_eq] at hmatch
    exact Prod.ext hmatch.1 hmatch.2
  refine ⟨_, _, _, hsplit, by simp; omega, hkey, fun x hx heq => ?_⟩
  -- the keys are distinct, so no other entry has this one
  have hnodup := hw.nodup
  rw [hsplit, List.map_append, List.map_cons, List.nodup_middle, List.nodup_cons,
    ← List.map_append] at hnodup
  exact hnodup.1 (hkey ▸ heq ▸ List.mem_map_of_mem hx)

theorem findClient_eq_none (hfind : findClient k.1 k.2 h = none) : ∀ e ∈ h.entries, e.key ≠ k := by
  rw [findClient, List.findIdx?_eq_none_iff] at hfind
  rintro e he rfl
  have hno := hfind e he
  simp [Client.key] at hno

/-! ### The operations of the array -/

namespace History

/-- The numbers of a history with one entry set apart that has a key of its own. -/
theorem number_middle {pre post : List Client} (hsplit : h.entries = pre ++ e :: post)
    (hother : ∀ x ∈ pre ++ post, x.key ≠ e.key) :
    h.number = Function.update (fun l => ((pre ++ post).find? (·.key = l)).map Client.number)
      e.key (some e.number) := by
  ext1 l
  rw [number, hsplit]
  rcases eq_or_ne l e.key with rfl | hne
  · have hnone : pre.find? (·.key = e.key) = none := by
      rw [List.find?_eq_none]
      intro x hx
      simpa using hother x (List.mem_append_left _ hx)
    simp [List.find?_append, hnone]
  · rw [Function.update_of_ne hne, List.find?_append, List.find?_append, List.find?_cons]
    simp [hne.symm]

/-- The numbers of a history in which no entry has the key `k`. -/
theorem number_without {es : List Client} (hentries : h.entries = es)
    (hother : ∀ x ∈ es, x.key ≠ k) :
    h.number = Function.update (fun l => (es.find? (·.key = l)).map Client.number) k none := by
  ext1 l
  rw [number, hentries]
  rcases eq_or_ne l k with rfl | hne
  · have hnone : es.find? (·.key = l) = none := by
      rw [List.find?_eq_none]
      simpa using hother
    simp [hnone]
  · rw [Function.update_of_ne hne]

end History

/-- Removing a client forgets its number. -/
theorem removeClient_number (hw : h.WellFormed) (k : Key) :
    ∃ h', removeClient k.1 k.2 h = some h' ∧ h'.WellFormed ∧
      h'.number = Function.update h.number k none := by
  cases hfind : findClient k.1 k.2 h with
  | none =>
    have hother := findClient_eq_none hfind
    have hsame := History.number_without rfl hother
    refine ⟨h, by rw [removeClient, hfind], hw, ?_⟩
    rw [hsame, Function.update_idem]
  | some i =>
    obtain ⟨pre, e, post, hsplit, rfl, rfl, hother⟩ := findClient_eq_some hw hfind
    have hle := hw.count_le
    have hlength := History.length_entries hle
    have hcount : h.count = pre.length + post.length + 1 := by
      rw [← hlength, hsplit]
      simp
      omega
    -- the entries behind the client are moved one cell down
    obtain ⟨out, hshift, htake⟩ := take_shiftLeft h.client (i := pre.length)
      (k := h.count - 1 - pre.length) (by omega)
    rw [show pre.length + (h.count - 1 - pre.length) = h.count - 1 by omega,
      show h.count - 1 + 1 = h.count by omega] at htake
    have hafter : History.entries ⟨out, h.count - 1⟩ = pre ++ post := by
      rw [History.entries, htake]
      change h.entries.eraseIdx pre.length = _
      rw [hsplit]
      simp [List.eraseIdx_append_of_length_le]
    refine ⟨⟨out, h.count - 1⟩, by rw [removeClient, hfind]; simp [hshift], ⟨?_, ?_⟩, ?_⟩
    · exact (Nat.sub_le _ _).trans hle
    · have hnodup := hw.nodup
      rw [hsplit, List.map_append, List.map_cons, List.nodup_middle] at hnodup
      rw [hafter, List.map_append]
      exact hnodup.of_cons
    · rw [History.number_without hafter hother, History.number_middle hsplit hother,
        Function.update_idem]

/-- The reply carries the number of the client, which is counted up. -/
theorem reply_number {pre post : List Client} (hw : h.WellFormed) (buffer : CString)
    (hsplit : h.entries = pre ++ e :: post) (hother : ∀ x ∈ pre ++ post, x.key ≠ e.key) :
    ∃ h', reply h buffer pre.length =
        some (h', some (snprintf bufferSize (buffer ++ ' ' :: decimal e.number.toInt))) ∧
      h'.WellFormed ∧ h'.count = h.count ∧
      h'.number = Function.update h.number e.key (some (e.number + 1)) := by
  have hat : h.entries[pre.length]? = some e := by rw [hsplit]; simp
  have hlt : pre.length < h.count := by
    rw [← History.length_entries hw.count_le]
    exact (List.getElem?_eq_some_iff.mp hat).1
  have hread : h.client[pre.length]? = some e := by rw [← History.entries_getElem? hlt, hat]
  -- the reply has the number as it was, the entry the next one
  let counted : Client := { e with number := e.number + 1 }
  have hafter : History.entries { h with client := h.client.setIfInBounds pre.length counted } =
      pre ++ counted :: post := by
    rw [History.entries_set, hsplit]
    simp
  refine ⟨{ h with client := h.client.setIfInBounds pre.length counted }, by rw [reply, hread],
    ⟨hw.count_le, ?_⟩, rfl, ?_⟩
  · have hnodup := hw.nodup
    rw [hsplit] at hnodup
    rw [hafter]
    simpa [counted, Client.key] using hnodup
  · rw [History.number_middle hafter hother, History.number_middle hsplit hother,
      Function.update_idem]
    rfl

/-- A new client gets the number 1. -/
theorem addClient_number (hw : h.WellFormed) (k : Key) (hfind : findClient k.1 k.2 h = none)
    (hroom : h.count < maxHistory) :
    ∃ h' e, addClient k.1 k.2 h = some (h', h.count) ∧ h'.WellFormed ∧ h'.count = h.count + 1 ∧
      h'.entries = h.entries ++ [e] ∧ e.key = k ∧ e.number = 1 := by
  have hle := hw.count_le
  have hother := findClient_eq_none hfind
  have hentries : History.entries
      ⟨h.client.setIfInBounds h.count ⟨k.2, k.1, 1⟩, h.count + 1⟩ =
        h.entries ++ [⟨k.2, k.1, 1⟩] := by
    -- the new entry is written behind the last one
    have hlen : h.count < h.client.toList.length := by simpa using hroom
    rw [History.entries, History.entries, Vector.toList_setIfInBounds, List.take_set,
      List.take_succ_eq_append_getElem hlen, List.set_append_right _ _ (by simp)]
    simp [hle]
  refine ⟨⟨h.client.setIfInBounds h.count ⟨k.2, k.1, 1⟩, h.count + 1⟩, ⟨k.2, k.1, 1⟩,
    by rw [addClient, if_neg (by omega)], ⟨hroom, ?_⟩, rfl, hentries, rfl, rfl⟩
  rw [hentries, List.map_append, List.map_singleton, List.nodup_append_comm]
  refine List.nodup_cons.mpr ⟨fun hmem => ?_, hw.nodup⟩
  obtain ⟨e, he, hkey⟩ := List.mem_map.mp hmem
  exact hother e he hkey

/-! ### One round of the loop -/

/-- A good-bye is not answered, and the number of its sender is forgotten. -/
theorem serve_bye (hw : h.WellFormed) (hshort : d.payload.length < bufferSize)
    (hbye : d.text = clientShutdown) :
    ∃ h', serve h d = some (h', none) ∧ h'.WellFormed ∧
      h'.number = Function.update h.number d.key none := by
  obtain ⟨h', hremove, hw', hnumber⟩ := removeClient_number hw d.key
  refine ⟨h', ?_, hw', hnumber⟩
  have hremove' : removeClient d.ipAddr d.port h = some h' := hremove
  have htext : cstr d.payload = clientShutdown := hbye
  rw [serve, stringIn_received hshort]
  simp [htext, hremove']

/-- A message is answered with the number of its sender. -/
theorem serve_message (hw : h.WellFormed) (hshort : d.payload.length < bufferSize)
    (hmessage : d.text ≠ clientShutdown) (hroom : h.count < maxHistory) :
    ∃ h', serve h d = some (h', some (snprintf bufferSize
        (d.text ++ ' ' :: decimal ((h.number d.key).getD 1).toInt))) ∧
      h'.WellFormed ∧
      h'.number = Function.update h.number d.key (some ((h.number d.key).getD 1 + 1)) ∧
      h'.count = if (h.number d.key).isSome then h.count else h.count + 1 := by
  have htext : cstr d.payload ≠ clientShutdown := hmessage
  rw [serve, stringIn_received hshort]
  simp only [if_neg htext]
  cases hfind : findClient d.ipAddr d.port h with
  -- a known client has its number counted up
  | some i =>
    have hfind' : findClient d.key.1 d.key.2 h = some i := hfind
    obtain ⟨pre, e, post, hsplit, rfl, hkey, hother⟩ := findClient_eq_some hw hfind'
    obtain ⟨h', hreply, hw', hcount, hnumber⟩ := reply_number hw d.text hsplit (hkey ▸ hother)
    have hbefore : h.number d.key = some e.number := by
      rw [History.number_middle hsplit (hkey ▸ hother), hkey, Function.update_self]
    refine ⟨h', ?_, hw', ?_, ?_⟩
    · rw [hbefore]
      exact hreply
    · rw [hnumber, hkey, hbefore]
      rfl
    · rw [hcount, hbefore]
      rfl
  -- a new client gets an entry first
  | none =>
    have hfind' : findClient d.key.1 d.key.2 h = none := hfind
    obtain ⟨h₁, e, hadd, hw₁, hcount₁, hentries, hkey, hone⟩ :=
      addClient_number hw d.key hfind' hroom
    have hother := findClient_eq_none hfind'
    obtain ⟨h', hreply, hw', hcount, hnumber⟩ := reply_number hw₁ d.text hentries
      (by simpa [hkey] using hother)
    have hbefore : h.number d.key = none := by
      rw [History.number_without rfl hother, Function.update_self]
    refine ⟨h', ?_, hw', ?_, ?_⟩
    · have hadd' : addClient d.ipAddr d.port h = some (h₁, h.count) := hadd
      rw [History.length_entries hw.count_le, hone] at hreply
      simp only [hadd', hbefore]
      exact hreply
    · rw [hnumber, hkey, hbefore, hone,
        History.number_middle hentries (by simpa [hkey] using hother), hkey,
        Function.update_idem, List.append_nil]
      rfl
    · rw [hcount, hcount₁, hbefore]
      rfl

/-- The server gets through every round. -/
theorem serve_isSome (hw : h.WellFormed) (hshort : d.payload.length < bufferSize) :
    (serve h d).isSome = true := by
  by_cases hbye : d.text = clientShutdown
  · obtain ⟨h', hserve, -⟩ := serve_bye hw hshort hbye
    rw [hserve]
    rfl
  · by_cases hroom : h.count < maxHistory
    · obtain ⟨h', hserve, -⟩ := serve_message hw hshort hbye hroom
      rw [hserve]
      rfl
    -- Nobody is added, but who is known is answered.
    · have htext : cstr d.payload ≠ clientShutdown := hbye
      rw [serve, stringIn_received hshort]
      simp only [if_neg htext]
      cases hfind : findClient d.ipAddr d.port h with
      | some i =>
        have hfind' : findClient d.key.1 d.key.2 h = some i := hfind
        obtain ⟨pre, e, post, hsplit, rfl, hkey, hother⟩ := findClient_eq_some hw hfind'
        obtain ⟨h', hreply, -⟩ := reply_number hw d.text hsplit (hkey ▸ hother)
        have hreply' : reply h (cstr d.payload) pre.length = _ := hreply
        simp [hreply']
      | none => simp [addClient, show h.count ≥ maxHistory by omega]

end UnixLessons.Echo
