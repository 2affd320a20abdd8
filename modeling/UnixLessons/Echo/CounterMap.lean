import UnixLessons.Counter.Capped
import UnixLessons.Echo.Server

/-!
# The echo server refines a counter map

The history array is compared with `Counter`, the map from clients to the number
of messages of their present session. `Tracks` is the relation between the
entries of the array and the map; each of the array operations is one operation
of the map under it.

The replies agree with the map as far as they fit. The reply buffer is no larger
than the receive buffer, so a long message leaves no room for its number:
`meets_iff_fits` states exactly which histories of datagrams are answered as the
map says.
-/

namespace UnixLessons.Echo

open Text Arrays Counter

/-- Address and port of a client. -/
abbrev Key := UInt32 × UInt16

def Client.key (c : Client) : Key := (c.ipAddr, c.port)

def Datagram.key (d : Datagram) : Key := (d.ipAddr, d.port)

/-- The entries hold the counters `m`: one entry for each registered client,
whose stored number is that of its next message. -/
structure Tracks (es : List Client) (m : Key → Option ℕ) : Prop where
  nodup : (es.map Client.key).Nodup
  positive : ∀ e ∈ es, 1 ≤ e.number.toInt
  counter : ∀ k c, m k = some c ↔ ∃ e ∈ es, e.key = k ∧ e.number.toInt = c + 1

namespace Tracks

variable {es : List Client} {m : Key → Option ℕ} {k : Key} {c i : ℕ} {e : Client}

theorem nil : Tracks [] fun _ => none := ⟨by simp, by simp, by simp⟩

theorem counter_of_mem (h : Tracks es m) (he : e ∈ es) :
    m e.key = some (e.number.toInt - 1).toNat := by
  have := h.positive e he
  exact (h.counter _ _).mpr ⟨e, he, rfl, by omega⟩

theorem ne_none_iff (h : Tracks es m) : m k ≠ none ↔ k ∈ es.map Client.key := by
  rw [Option.ne_none_iff_exists', List.mem_map]
  constructor
  · rintro ⟨c, hc⟩
    obtain ⟨e, he, hk, -⟩ := (h.counter k c).mp hc
    exact ⟨e, he, hk⟩
  · rintro ⟨e, he, rfl⟩
    exact ⟨_, h.counter_of_mem he⟩

/-- The map has as many keys as the array has entries. -/
theorem ncard_registered (h : Tracks es m) : (registered m).ncard = es.length := by
  have hset : registered m = ((es.map Client.key).toFinset : Set Key) := by
    ext k
    simpa using h.ne_none_iff
  rw [hset, Set.ncard_coe_finset, List.toFinset_card_of_nodup h.nodup, List.length_map]

/-- Appending a new client registers it with no message counted yet. -/
theorem append (h : Tracks es m) (hnew : m e.key = none) (hone : e.number = 1) :
    Tracks (es ++ [e]) (Function.update m e.key (some 0)) := by
  have hfresh : e.key ∉ es.map Client.key := fun hmem => h.ne_none_iff.mpr hmem hnew
  refine ⟨?_, ?_, ?_⟩
  · rw [List.map_append, List.map_singleton, List.nodup_append]
    refine ⟨h.nodup, List.nodup_singleton _, ?_⟩
    rintro k hk k' hk' rfl
    exact hfresh (List.mem_singleton.mp hk' ▸ hk)
  · intro e' he'
    rcases List.mem_append.mp he' with hold | hlast
    · exact h.positive e' hold
    · rw [List.mem_singleton.mp hlast, hone]
      decide
  · intro k c
    by_cases hk : k = e.key
    · subst hk
      have hno : ∀ e' ∈ es, e'.key ≠ e.key := fun e' he' heq =>
        hfresh (heq ▸ List.mem_map_of_mem he')
      have h1 : (1 : Int32).toInt = 1 := by decide
      simp only [Function.update_self, Option.some_inj, List.mem_append, List.mem_singleton]
      constructor
      · rintro rfl
        exact ⟨e, Or.inr rfl, rfl, by rw [hone, h1]; rfl⟩
      · rintro ⟨e', he' | rfl, hkey, hnum⟩
        · exact absurd hkey (hno e' he')
        · rw [hone, h1] at hnum
          omega
    · rw [Function.update_of_ne hk, h.counter]
      constructor
      · rintro ⟨e', he', hkey, hnum⟩
        exact ⟨e', by simp [he'], hkey, hnum⟩
      · rintro ⟨e', he', hkey, hnum⟩
        rcases List.mem_append.mp he' with hold | hlast
        · exact ⟨e', hold, hkey, hnum⟩
        · exact absurd (List.mem_singleton.mp hlast ▸ hkey.symm) hk

/-- The entries around index `i`. -/
private theorem split_at (hi : es[i]? = some e) :
    ∃ pre post, es = pre ++ e :: post ∧ pre.length = i := by
  obtain ⟨hlt, rfl⟩ := List.getElem?_eq_some_iff.mp hi
  exact ⟨es.take i, es.drop (i + 1), by simp, by simp; omega⟩

/-- Keys before and after an entry differ from its own. -/
private theorem key_ne_of_split {pre post : List Client} (h : Tracks (pre ++ e :: post) m)
    {e' : Client} (he' : e' ∈ pre ++ post) : e'.key ≠ e.key := by
  have hnodup := h.nodup
  rw [List.map_append, List.map_cons, List.nodup_middle, List.nodup_cons] at hnodup
  intro heq
  refine hnodup.1 (heq ▸ ?_)
  rw [← List.map_append]
  exact List.mem_map_of_mem he'

/-- An entry with another key plays no part in the counter of `k`. -/
private theorem exists_mem_split {pre post : List Client} (hne : e.key ≠ k) :
    (∃ e' ∈ pre ++ e :: post, e'.key = k ∧ e'.number.toInt = c + 1) ↔
      ∃ e' ∈ pre ++ post, e'.key = k ∧ e'.number.toInt = c + 1 := by
  constructor
  · rintro ⟨e', he', hkey, hnum⟩
    have : e' ≠ e := fun heq => hne (heq ▸ hkey)
    exact ⟨e', by simp only [List.mem_append, List.mem_cons] at he' ⊢; tauto, hkey, hnum⟩
  · rintro ⟨e', he', hrest⟩
    exact ⟨e', by simp only [List.mem_append, List.mem_cons] at he' ⊢; tauto, hrest⟩

/-- Counting a message of the client at index `i`. -/
theorem bump (h : Tracks es m) (hi : es[i]? = some e)
    (hc : m e.key = some c) (hsmall : c + 1 < 2 ^ 31 - 1) :
    Tracks (es.set i { e with number := e.number + 1 })
      (Function.update m e.key (some (c + 1))) := by
  obtain ⟨pre, post, rfl, rfl⟩ := split_at hi
  have hother := fun e' he' => @key_ne_of_split _ _ _ _ h e' he'
  -- `number` is the next number to give out, one above the last counter.
  have hnum : e.number.toInt = c + 1 := by
    have hcount := h.counter_of_mem (List.mem_append_right pre List.mem_cons_self)
    have hpos := h.positive e (by simp)
    rw [hc, Option.some_inj] at hcount
    omega
  have hnext : (e.number + 1).toInt = c + 2 := by
    have h1 : (1 : Int32).toInt = 1 := by decide
    rw [Int32.toInt_add, hnum, h1, Int.bmod_eq_of_le] <;> omega
  set bumped : Client := { e with number := e.number + 1 } with hbumped
  have hkey : bumped.key = e.key := rfl
  have hset : (pre ++ e :: post).set pre.length bumped = pre ++ bumped :: post := by simp
  rw [hset]
  refine ⟨?_, ?_, ?_⟩
  · rw [List.map_append, List.map_cons, hkey, ← List.map_cons, ← List.map_append]
    exact h.nodup
  · intro e' he'
    rw [List.mem_append, List.mem_cons] at he'
    rcases he' with hpre | rfl | hpost
    · exact h.positive e' (by simp [hpre])
    · rw [hbumped]
      dsimp only
      omega
    · exact h.positive e' (by simp [hpost])
  · intro k c'
    by_cases hk : e.key = k
    · subst hk
      rw [Function.update_self, Option.some_inj]
      constructor
      · rintro rfl
        exact ⟨bumped, by simp, hkey, by simp only [hbumped, hnext]; omega⟩
      · rintro ⟨e', he', hkey', hnum'⟩
        rcases List.mem_cons.mp (List.perm_middle.mem_iff.mp he') with rfl | hrest
        · simp only [hbumped, hnext] at hnum'
          omega
        · exact absurd hkey' (hother e' hrest)
    · rw [Function.update_of_ne (Ne.symm hk), h.counter, exists_mem_split hk,
        exists_mem_split (hkey.trans_ne hk)]

/-- Erasing the client at index `i` forgets its counter and no other. -/
theorem erase (h : Tracks es m) (hi : es[i]? = some e) :
    Tracks (es.eraseIdx i) (Function.update m e.key none) := by
  obtain ⟨pre, post, rfl, rfl⟩ := split_at hi
  have hother := fun e' he' => @key_ne_of_split _ _ _ _ h e' he'
  have herase : (pre ++ e :: post).eraseIdx pre.length = pre ++ post := by
    simp [List.eraseIdx_append_of_length_le]
  have hnodup := h.nodup
  rw [List.map_append, List.map_cons, List.nodup_middle, List.nodup_cons] at hnodup
  rw [herase]
  refine ⟨by simpa using hnodup.2, ?_, ?_⟩
  · intro e' he'
    exact h.positive e' (by simp only [List.mem_append, List.mem_cons] at he' ⊢; tauto)
  · intro k c
    by_cases hk : e.key = k
    · subst hk
      simp only [Function.update_self, reduceCtorEq, false_iff, not_exists, not_and]
      intro e' he' hkey
      exact absurd hkey (hother e' he')
    · rw [Function.update_of_ne (Ne.symm hk), h.counter, exists_mem_split hk]

end Tracks

end UnixLessons.Echo
