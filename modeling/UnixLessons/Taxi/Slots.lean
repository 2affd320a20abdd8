import UnixLessons.Taxi.Dispatcher

/-!
# The slots of the dispatcher

What the dispatcher knows about its drivers, apart from what it says to them: the
slots, its descriptors, the ends it closed, and the children with their pids. Only
creating and collecting drivers changes this.

Slots that are not active keep the pid of the driver they were given to last, and
a new driver may have the same pid. `Valid.first` is why the first slot with a pid
is still the right one: in front of an active slot no slot, active or not, has its
pid.

## Main results

* `Valid.opened`, `Valid.extended`, `Valid.forked`, `Valid.collected`: the
  invariant is kept
* `Valid.findIdx?_pid`: the first slot with the pid of a child that was not waited
  for is its own
-/

namespace UnixLessons.Taxi

open Descriptors

/-- A child as the dispatcher can tell. -/
structure Child where
  pid : Int32
  waited : Bool
  command : ℕ
  reply : ℕ
deriving DecidableEq

/-- The part of the system that `create_driver` and `cleanup_zombies` work on. -/
structure Registry where
  drivers : List Driver
  fds : Table
  pipes : ℕ
  closed : List (Option PipeEnd)
  children : List Child

namespace Registry

/-- Slots, children and descriptors agree. -/
structure Valid (r : Registry) : Prop where
  length_le : r.drivers.length ≤ maxDrivers
  pid_inj : ∀ (k l : ℕ) (c c' : Child), r.children[k]? = some c → r.children[l]? = some c' →
    c.waited = false → c'.waited = false → c.pid = c'.pid → k = l
  /-- No slot in front of an active one has its pid. -/
  first : ∀ (i j : ℕ) (d e : Driver), i < j → r.drivers[i]? = some d →
    r.drivers[j]? = some e → e.active = true → d.pid ≠ e.pid
  slot : ∀ c ∈ r.children, c.waited = false → ∃ d ∈ r.drivers, d.active = true ∧ d.pid = c.pid
  child : ∀ d ∈ r.drivers, d.active = true → ∃ c ∈ r.children, c.waited = false ∧
    c.pid = d.pid ∧ r.fds.lookup d.writeFd = some ⟨c.command, .write⟩ ∧
    r.fds.lookup d.readFd = some ⟨c.reply, .read⟩
  pipes_inj : ∀ (k l : ℕ) (c c' : Child), r.children[k]? = some c → r.children[l]? = some c' →
    c.command = c'.command ∨ c.reply = c'.reply → k = l
  pipes_ne : ∀ c ∈ r.children, ∀ c' ∈ r.children, c.command ≠ c'.reply
  pipes_lt : ∀ c ∈ r.children, c.command < r.pipes ∧ c.reply < r.pipes
  below : Below r.fds r.pipes
  closed_count : ∀ c ∈ r.children,
    r.closed.count (some ⟨c.command, .write⟩) = c.waited.toNat ∧
    r.closed.count (some ⟨c.reply, .read⟩) = c.waited.toNat
  closed_of : ∀ x ∈ r.closed, ∃ c ∈ r.children, c.waited = true ∧
    (x = some ⟨c.command, .write⟩ ∨ x = some ⟨c.reply, .read⟩)

variable {r : Registry} {c c' : Child} {d d' : Driver} {i j k : ℕ}

namespace Valid

theorem init : Valid ⟨[], ∅, 0, [], []⟩ := by
  constructor <;> simp [Below]

theorem eq_of_pid (h : r.Valid) (hc : c ∈ r.children) (hc' : c' ∈ r.children)
    (hw : c.waited = false) (hw' : c'.waited = false) (hpid : c.pid = c'.pid) : c = c' := by
  obtain ⟨k, hk⟩ := List.mem_iff_getElem?.mp hc
  obtain ⟨l, hl⟩ := List.mem_iff_getElem?.mp hc'
  obtain rfl := h.pid_inj k l c c' hk hl hw hw' hpid
  exact Option.some.inj (hk.symm.trans hl)

/-- Two active slots have different pids. -/
theorem pid_ne (h : r.Valid) (hi : r.drivers[i]? = some d) (hj : r.drivers[j]? = some d')
    (ha : d.active = true) (ha' : d'.active = true) (hne : i ≠ j) : d.pid ≠ d'.pid := by
  rcases Nat.lt_or_gt_of_ne hne with hlt | hgt
  · exact h.first i j d d' hlt hi hj ha'
  · exact (h.first j i d' d hgt hj hi ha).symm

/-- Different children have different pipes. -/
theorem pipes_ne_of_ne (h : r.Valid) (hc : c ∈ r.children) (hc' : c' ∈ r.children) (hne : c ≠ c') :
    c.command ≠ c'.command ∧ c.reply ≠ c'.reply := by
  obtain ⟨k, hk⟩ := List.mem_iff_getElem?.mp hc
  obtain ⟨l, hl⟩ := List.mem_iff_getElem?.mp hc'
  have hkl : ¬ (c.command = c'.command ∨ c.reply = c'.reply) := by
    intro heq
    obtain rfl := h.pipes_inj k l c c' hk hl heq
    exact hne (Option.some.inj (hk.symm.trans hl))
  exact not_or.mp hkl

/-- The slot that is found for a child is its active slot. -/
theorem findIdx?_pid (h : r.Valid) (hc : c ∈ r.children) (hw : c.waited = false) :
    ∃ i d, r.drivers.findIdx? (fun d => d.pid == c.pid) = some i ∧ r.drivers[i]? = some d ∧
      d.active = true ∧ d.pid = c.pid := by
  obtain ⟨e, he, hactive, hpid⟩ := h.slot c hc hw
  obtain ⟨j, hj⟩ := List.mem_iff_getElem?.mp he
  cases hfind : r.drivers.findIdx? (fun d => d.pid == c.pid) with
  | none =>
    rw [List.findIdx?_eq_none_iff] at hfind
    simp only [beq_eq_false_iff_ne] at hfind
    exact absurd hpid (hfind e he)
  | some i =>
    obtain ⟨hi, hpidI, hbefore⟩ := List.findIdx?_eq_some_iff_getElem.mp hfind
    have hget : r.drivers[i]? = some r.drivers[i] := List.getElem?_eq_getElem hi
    have hpid' : r.drivers[i].pid = c.pid := by simpa using hpidI
    obtain ⟨hj', hje⟩ := List.getElem?_eq_some_iff.mp hj
    obtain hlt | rfl | hgt := Nat.lt_trichotomy i j
    · exact absurd (hpid'.trans hpid.symm) (h.first i j _ e hlt hget hj hactive)
    · exact ⟨i, e, rfl, hj, hactive, hpid⟩
    · have := hbefore j hgt
      simp [hje, hpid] at this

/-- Active slots have different pids. -/
theorem active_pids_nodup (h : r.Valid) :
    ((r.drivers.filter (·.active)).map Driver.pid).Nodup := by
  have hpairs : r.drivers.Pairwise fun d e => e.active = true → d.pid ≠ e.pid :=
    List.pairwise_iff_getElem.mpr fun i j hi hj hij =>
      h.first i j _ _ hij (List.getElem?_eq_getElem hi) (List.getElem?_eq_getElem hj)
  refine List.pairwise_map.mpr ((hpairs.filter _).imp_of_mem fun _ he hne => hne ?_)
  exact (List.mem_filter.mp he).2

/-- Children that were not waited for have different pids. -/
theorem unwaited_pids_nodup (h : r.Valid) :
    ((r.children.filter (!·.waited)).map Child.pid).Nodup := by
  have hpairs : r.children.Pairwise fun c c' =>
      c.waited = false → c'.waited = false → c.pid ≠ c'.pid :=
    List.pairwise_iff_getElem.mpr fun i j hi hj hij hw hw' heq =>
      Nat.ne_of_lt hij (h.pid_inj i j _ _ (List.getElem?_eq_getElem hi)
        (List.getElem?_eq_getElem hj) hw hw' heq)
  refine List.pairwise_map.mpr ((hpairs.filter _).imp_of_mem fun hc hc' hne => hne ?_ ?_)
  · simpa using (List.mem_filter.mp hc).2
  · simpa using (List.mem_filter.mp hc').2

/-- Active slots and children that were not waited for have the same pids. -/
theorem active_pids_perm (h : r.Valid) :
    ((r.drivers.filter (·.active)).map Driver.pid).Perm
      ((r.children.filter (!·.waited)).map Child.pid) := by
  rw [List.perm_ext_iff_of_nodup h.active_pids_nodup h.unwaited_pids_nodup]
  intro pid
  simp only [List.mem_map, List.mem_filter, Bool.not_eq_true']
  constructor
  · rintro ⟨d, ⟨hd, hactive⟩, rfl⟩
    obtain ⟨c, hc, hw, hpid, -⟩ := h.child d hd hactive
    exact ⟨c, ⟨hc, hw⟩, hpid⟩
  · rintro ⟨c, ⟨hc, hw⟩, rfl⟩
    obtain ⟨d, hd, hactive, hpid⟩ := h.slot c hc hw
    exact ⟨d, ⟨hd, hactive⟩, hpid⟩

/-- No descriptor belongs to two active slots. -/
theorem active_fds_nodup (h : r.Valid) :
    ((r.drivers.filter (·.active)).flatMap fun d => [d.writeFd, d.readFd]).Nodup := by
  have hpairs : r.drivers.Pairwise fun d e => d.active = true → e.active = true →
      List.Disjoint [d.writeFd, d.readFd] [e.writeFd, e.readFd] := by
    refine List.pairwise_iff_getElem.mpr fun i j hi hj hij hactive hactive' => ?_
    have hpid := h.pid_ne (List.getElem?_eq_getElem hi) (List.getElem?_eq_getElem hj) hactive
      hactive' (Nat.ne_of_lt hij)
    obtain ⟨c, hc, -, hcpid, hwrite, hread⟩ := h.child _ (List.getElem_mem hi) hactive
    obtain ⟨c', hc', -, hcpid', hwrite', hread'⟩ := h.child _ (List.getElem_mem hj) hactive'
    have hne : c ≠ c' := by
      rintro rfl
      exact hpid (hcpid.symm.trans hcpid')
    obtain ⟨hcommand, hreply⟩ := h.pipes_ne_of_ne hc hc' hne
    intro fd hfd hfd'
    simp only [List.mem_cons, List.not_mem_nil, or_false] at hfd hfd'
    rcases hfd with rfl | rfl <;> rcases hfd' with heq | heq
    · exact ne_of_lookup hwrite hwrite' (by simp [hcommand]) heq
    · exact ne_of_lookup hwrite hread' (by simp) heq
    · exact ne_of_lookup hread hwrite' (by simp) heq
    · exact ne_of_lookup hread hread' (by simp [hreply]) heq
  refine List.nodup_flatMap.mpr ⟨fun d hd => ?_, (hpairs.filter _).imp_of_mem
    fun hd he hdisjoint => hdisjoint (List.mem_filter.mp hd).2 (List.mem_filter.mp he).2⟩
  obtain ⟨hd, hactive⟩ := List.mem_filter.mp hd
  obtain ⟨c, -, -, -, hwrite, hread⟩ := h.child d hd hactive
  simpa using ne_of_lookup hwrite hread (by simp)

/-! ### Creating a driver -/

/-- More descriptors are open. -/
theorem opened (h : r.Valid) {fds : Table} {pipes : ℕ} (hpipes : r.pipes ≤ pipes)
    (hbelow : Below fds pipes) (hfds : ∀ fd e, r.fds.lookup fd = some e → fds.lookup fd = some e) :
    Valid { r with fds, pipes } :=
  { h with
    child := fun d hd hactive => by
      obtain ⟨c, hc, hw, hpid, hwrite, hread⟩ := h.child d hd hactive
      exact ⟨c, hc, hw, hpid, hfds _ _ hwrite, hfds _ _ hread⟩
    pipes_lt := fun c hc =>
      ⟨(h.pipes_lt c hc).1.trans_le hpipes, (h.pipes_lt c hc).2.trans_le hpipes⟩
    below := hbelow }

/-- A slot that was never used is added behind the others. -/
theorem extended (h : r.Valid) (hlt : r.drivers.length < maxDrivers) :
    Valid { r with drivers := r.drivers ++ [.zero] } :=
  { h with
    length_le := by
      rw [List.length_append]
      exact hlt
    first := fun i j d e hij hd he hactive => by
      have hj : r.drivers[j]? = some e := by
        rw [List.getElem?_append] at he
        split at he
        · exact he
        · cases hn : j - r.drivers.length with
          | zero =>
            rw [hn] at he
            cases he
            cases hactive
          | succ n => simp [hn] at he
      have hi : r.drivers[i]? = some d := by
        have hlen := (List.getElem?_eq_some_iff.mp hj).1
        rwa [List.getElem?_append_left (hij.trans hlen)] at hd
      exact h.first i j d e hij hi hj hactive
    slot := fun c hc hw => by
      obtain ⟨d, hd, hslot⟩ := h.slot c hc hw
      exact ⟨d, List.mem_append_left _ hd, hslot⟩
    child := fun d hd hactive => by
      rcases List.mem_append.mp hd with hd | hd
      · exact h.child d hd hactive
      · rw [List.mem_singleton.mp hd] at hactive
        cases hactive }

theorem getElem?_concat {α : Type*} {l : List α} {a x : α} {k : ℕ}
    (h : (l ++ [a])[k]? = some x) :
    l[k]? = some x ∨ k = l.length ∧ x = a := by
  grind

/-- Two pipes are opened, a child is forked and the free slot `i` is filled. -/
theorem forked (h : r.Valid) {r₁ w₁ r₂ w₂ : ℕ} {pid : Int32} (hslot : r.drivers[i]? = some d)
    (hfree : d.active = false)
    (hbefore : ∀ (j : ℕ) (e : Driver), j < i → r.drivers[j]? = some e → e.active = true)
    (hpid : ∀ c ∈ r.children, c.waited = false → c.pid ≠ pid)
    (h₁ : Unused r.fds r₁ w₁) (h₂ : Unused (openPipe r.fds r₁ w₁ r.pipes) r₂ w₂) :
    Valid ⟨r.drivers.set i ⟨pid, w₁, r₂, true⟩, keepTwo r.fds r₁ w₁ r₂ w₂ r.pipes,
      r.pipes + 2, r.closed, r.children ++ [⟨pid, false, r.pipes, r.pipes + 1⟩]⟩ where
  length_le := by
    rw [List.length_set]
    exact h.length_le
  pid_inj := fun k l c c' hk hl hw hw' heq => by
    rcases getElem?_concat hk with hk | ⟨rfl, rfl⟩ <;>
      rcases getElem?_concat hl with hl | ⟨rfl, rfl⟩
    · exact h.pid_inj k l c c' hk hl hw hw' heq
    · exact absurd heq (hpid c (List.mem_of_getElem? hk) hw)
    · exact absurd heq.symm (hpid c' (List.mem_of_getElem? hl) hw')
    · rfl
  first := fun j k d' e hjk hd' he hactive => by
    have hother : ∀ d ∈ r.drivers, d.active = true → d.pid ≠ pid := by
      intro d hd hactive heq
      obtain ⟨c, hc, hw, hcpid, -⟩ := h.child d hd hactive
      exact hpid c hc hw (hcpid.trans heq)
    -- The claimed slot is the first free one, so the slots before it are all of live drivers.
    by_cases hk : i = k
    · subst hk
      rw [List.getElem?_set_ne (Nat.ne_of_gt hjk)] at hd'
      rw [List.getElem?_set_self (List.getElem?_eq_some_iff.mp hslot).1] at he
      cases he
      exact hother d' (List.mem_of_getElem? hd') (hbefore j d' hjk hd')
    · rw [List.getElem?_set_ne hk] at he
      by_cases hj : i = j
      · subst hj
        rw [List.getElem?_set_self (List.getElem?_eq_some_iff.mp hslot).1] at hd'
        cases hd'
        exact (hother e (List.mem_of_getElem? he) hactive).symm
      · rw [List.getElem?_set_ne hj] at hd'
        exact h.first j k d' e hjk hd' he hactive
  slot := fun c hc hw => by
    rcases List.mem_append.mp hc with hc | hc
    · obtain ⟨e, he, hactive, hcpid⟩ := h.slot c hc hw
      -- The claimed slot was free, so it was not the slot of an earlier child.
      obtain ⟨j, hj⟩ := List.mem_iff_getElem?.mp he
      have hne : i ≠ j := by
        rintro rfl
        rw [Option.some.inj (hslot.symm.trans hj), hactive] at hfree
        cases hfree
      exact ⟨e, List.mem_of_getElem? ((List.getElem?_set_ne hne).trans hj), hactive, hcpid⟩
    · rw [List.mem_singleton.mp hc]
      exact ⟨_, List.mem_set (List.getElem?_eq_some_iff.mp hslot).1 _, rfl, rfl⟩
  child := fun d' hd' hactive => by
    rcases List.mem_or_eq_of_mem_set hd' with hd' | rfl
    · obtain ⟨c, hc, hw, hcpid, hwrite, hread⟩ := h.child d' hd' hactive
      exact ⟨c, List.mem_append_left _ hc, hw, hcpid, lookup_keepTwo_of_lookup h₁ h₂ hwrite,
        lookup_keepTwo_of_lookup h₁ h₂ hread⟩
    · obtain ⟨hwrite, hread⟩ := lookup_keepTwo_parent h₁ h₂
      exact ⟨_, List.mem_append_right _ List.mem_cons_self, rfl, rfl, hwrite, hread⟩
  pipes_inj := fun k l c c' hk hl heq => by
    rcases getElem?_concat hk with hk | ⟨rfl, rfl⟩ <;>
      rcases getElem?_concat hl with hl | ⟨rfl, rfl⟩
    · exact h.pipes_inj k l c c' hk hl heq
    · have := h.pipes_lt c (List.mem_of_getElem? hk)
      simp only at heq
      omega
    · have := h.pipes_lt c' (List.mem_of_getElem? hl)
      simp only at heq
      omega
    · rfl
  pipes_ne := fun c hc c' hc' => by
    rw [List.mem_append, List.mem_singleton] at hc hc'
    rcases hc with hc | rfl <;> rcases hc' with hc' | rfl
    · exact h.pipes_ne c hc c' hc'
    · have := h.pipes_lt c hc
      simp only
      omega
    · have := h.pipes_lt c' hc'
      simp only
      omega
    · simp
  pipes_lt := fun c hc => by
    rw [List.mem_append, List.mem_singleton] at hc
    rcases hc with hc | rfl
    · have := h.pipes_lt c hc
      simp only
      omega
    · simp
  below := h.below.keepTwo h₁ h₂
  closed_count := fun c hc => by
    rw [List.mem_append, List.mem_singleton] at hc
    -- The two pipes are numbered above every pipe so far, so no end of them was closed.
    rcases hc with hc | rfl
    · exact h.closed_count c hc
    · have hnew : ∀ e ∈ r.closed, e ≠ some ⟨r.pipes, .write⟩ ∧ e ≠ some ⟨r.pipes + 1, .read⟩ := by
        intro e he
        obtain ⟨c, hc, -, rfl | rfl⟩ := h.closed_of e he <;>
        · have := h.pipes_lt c hc
          simp only [ne_eq, Option.some.injEq, PipeEnd.mk.injEq, reduceCtorEq, and_false,
            not_false_eq_true, and_true, true_and]
          omega
      exact ⟨List.count_eq_zero.mpr fun hmem => (hnew _ hmem).1 rfl,
        List.count_eq_zero.mpr fun hmem => (hnew _ hmem).2 rfl⟩
  closed_of := fun x hx => by
    obtain ⟨c, hc, hclosed⟩ := h.closed_of x hx
    exact ⟨c, List.mem_append_left _ hc, hclosed⟩

/-! ### Collecting a driver -/

theorem getElem?_set_some {α : Type*} {l : List α} {a x : α} {i j : ℕ}
    (h : (l.set i a)[j]? = some x) : i = j ∧ x = a ∨ i ≠ j ∧ l[j]? = some x := by
  grind

/-- A child is waited for, its slot is given up and its two ends are closed. -/
theorem collected (h : r.Valid) (hk : r.children[k]? = some c) (hw : c.waited = false)
    (hi : r.drivers[i]? = some d) (hactive : d.active = true) (hpid : d.pid = c.pid) :
    r.fds.lookup d.writeFd = some ⟨c.command, .write⟩ ∧
      (r.fds.erase d.writeFd).lookup d.readFd = some ⟨c.reply, .read⟩ ∧
      Valid ⟨r.drivers.set i { d with active := false },
        (r.fds.erase d.writeFd).erase d.readFd, r.pipes,
        r.closed ++ [some ⟨c.command, .write⟩, some ⟨c.reply, .read⟩],
        r.children.set k { c with waited := true }⟩ := by
  have hcmem := List.mem_of_getElem? hk
  obtain ⟨c₀, hc₀, hw₀, hpid₀, hwrite, hread⟩ := h.child d (List.mem_of_getElem? hi) hactive
  obtain rfl := h.eq_of_pid hc₀ hcmem hw₀ hw (hpid₀.trans hpid)
  have hread' : (r.fds.erase d.writeFd).lookup d.readFd = some ⟨c₀.reply, .read⟩ :=
    lookup_erase_of_ne hread hwrite (by simp)
  -- A child in the new list is one of the old list, with the same pid and pipes.
  have hold : ∀ (l : ℕ) (x : Child), (r.children.set k { c₀ with waited := true })[l]? = some x →
      ∃ y, r.children[l]? = some y ∧ x.command = y.command ∧ x.reply = y.reply := by
    intro l x hx
    rcases getElem?_set_some hx with ⟨rfl, rfl⟩ | ⟨-, hx⟩
    · exact ⟨c₀, hk, rfl, rfl⟩
    · exact ⟨x, hx, rfl, rfl⟩
  have hkeep : ∀ c' ∈ r.children, c' ≠ c₀ → c' ∈ r.children.set k { c₀ with waited := true } := by
    intro c' hc' hne
    obtain ⟨l, hl⟩ := List.mem_iff_getElem?.mp hc'
    have hkl : k ≠ l := by
      rintro rfl
      exact hne (Option.some.inj (hl.symm.trans hk))
    exact List.mem_of_getElem? ((List.getElem?_set_ne hkl).trans hl)
  have hset : { c₀ with waited := true } ∈ r.children.set k { c₀ with waited := true } :=
    List.mem_set (List.getElem?_eq_some_iff.mp hk).1 _
  refine ⟨hwrite, hread', ?_⟩
  constructor
  · rw [List.length_set]
    exact h.length_le
  · intro l m x y hx hy hxw hyw hxy
    rcases getElem?_set_some hx with ⟨rfl, rfl⟩ | ⟨-, hx⟩
    · cases hxw
    rcases getElem?_set_some hy with ⟨rfl, rfl⟩ | ⟨-, hy⟩
    · cases hyw
    exact h.pid_inj l m x y hx hy hxw hyw hxy
  · intro j m d' e hjm hd' he heactive
    rcases getElem?_set_some he with ⟨rfl, rfl⟩ | ⟨-, he⟩
    · cases heactive
    -- A slot that is given up keeps its pid, which a later live slot still differs from.
    rcases getElem?_set_some hd' with ⟨rfl, rfl⟩ | ⟨-, hd'⟩
    · exact h.first i m d e hjm hi he heactive
    · exact h.first j m d' e hjm hd' he heactive
  · intro x hx hxw
    obtain ⟨l, hl⟩ := List.mem_iff_getElem?.mp hx
    rcases getElem?_set_some hl with ⟨rfl, rfl⟩ | ⟨hkl, hl⟩
    · cases hxw
    obtain ⟨e, he, heactive, hepid⟩ := h.slot x (List.mem_of_getElem? hl) hxw
    obtain ⟨j, hj⟩ := List.mem_iff_getElem?.mp he
    -- Another child with this slot would have the pid of the one waited for.
    have hij : i ≠ j := by
      rintro rfl
      obtain rfl := Option.some.inj (hi.symm.trans hj)
      exact hkl (h.pid_inj k l c₀ x hk hl hw hxw (hpid.symm.trans hepid))
    exact ⟨e, List.mem_of_getElem? ((List.getElem?_set_ne hij).trans hj), heactive, hepid⟩
  · intro e he heactive
    obtain ⟨j, hj⟩ := List.mem_iff_getElem?.mp he
    rcases getElem?_set_some hj with ⟨rfl, rfl⟩ | ⟨hij, hslot⟩
    · cases heactive
    obtain ⟨c', hc', hw', hpid', hwrite', hread''⟩ :=
      h.child e (List.mem_of_getElem? hslot) heactive
    have hne : c' ≠ c₀ := by
      rintro rfl
      exact h.pid_ne hi hslot hactive heactive hij (hpid.trans hpid')
    obtain ⟨hcommand, hreply⟩ := h.pipes_ne_of_ne hc' hcmem hne
    refine ⟨c', hkeep c' hc' hne, hw', hpid', ?_, ?_⟩
    · exact lookup_erase_of_ne (lookup_erase_of_ne hwrite' hwrite (by simp [hcommand])) hread'
        (by simp)
    · exact lookup_erase_of_ne (lookup_erase_of_ne hread'' hwrite (by simp)) hread'
        (by simp [hreply])
  · intro l m x y hx hy hxy
    obtain ⟨x', hx', hxc, hxr⟩ := hold l x hx
    obtain ⟨y', hy', hyc, hyr⟩ := hold m y hy
    rw [hxc, hxr, hyc, hyr] at hxy
    exact h.pipes_inj l m x' y' hx' hy' hxy
  · intro x hx y hy
    obtain ⟨l, hl⟩ := List.mem_iff_getElem?.mp hx
    obtain ⟨m, hm⟩ := List.mem_iff_getElem?.mp hy
    obtain ⟨x', hx', hxc, -⟩ := hold l x hl
    obtain ⟨y', hy', -, hyr⟩ := hold m y hm
    rw [hxc, hyr]
    exact h.pipes_ne x' (List.mem_of_getElem? hx') y' (List.mem_of_getElem? hy')
  · intro x hx
    obtain ⟨l, hl⟩ := List.mem_iff_getElem?.mp hx
    obtain ⟨x', hx', hxc, hxr⟩ := hold l x hl
    rw [hxc, hxr]
    exact h.pipes_lt x' (List.mem_of_getElem? hx')
  · exact (h.below.erase _).erase _
  · intro x hx
    obtain ⟨l, hl⟩ := List.mem_iff_getElem?.mp hx
    rw [List.count_append, List.count_append]
    rcases getElem?_set_some hl with ⟨rfl, rfl⟩ | ⟨hkl, hl⟩
    -- The ends of the child waited for were open till now and are closed this once.
    · obtain ⟨hcount, hcount'⟩ := h.closed_count c₀ hc₀
      simp [hcount, hcount', hw]
    · obtain ⟨hcount, hcount'⟩ := h.closed_count x (List.mem_of_getElem? hl)
      have hne := mt (h.pipes_inj k l c₀ x hk hl) hkl
      rw [not_or] at hne
      simp [hcount, hcount', hne.1, hne.2]
  · intro x hx
    rcases List.mem_append.mp hx with hx | hx
    · obtain ⟨c', hc', hw', hclosed⟩ := h.closed_of x hx
      have hne : c' ≠ c₀ := by
        rintro rfl
        rw [hw] at hw'
        cases hw'
      exact ⟨c', hkeep c' hc' hne, hw', hclosed⟩
    · exact ⟨_, hset, rfl, by simpa using hx⟩

end Valid

end Registry

end UnixLessons.Taxi
