import Mathlib.Algebra.Group.Prod
import Mathlib.Algebra.Ring.Int.Defs
import Mathlib.Data.Int.Cast.Basic
import Mathlib.Data.List.Chain
import Mathlib.Data.List.Nodup
import Mathlib.Logic.Function.Iterate

/-!
# Walking over a grid

A walker on the cells of a grid, any region of it, who keeps the path behind: each step goes
ahead as long as the cell ahead is free, inside the region and not on the path yet, and
otherwise turns clockwise first. Where the cells in front are free the steps follow a ray.

## Main results

* `Walk.iterate_next_leg`: the steps along a ray of free cells, after a turn or without one
* `Walk.Covers.exists_leg`: the steps from corner to corner
* `Walk.isChain_path`: neighbours on the path are neighbours on the grid
-/

namespace UnixLessons.Grid

/-- A cell is given by its row and its column; the rows go down. -/
abbrev Cell := ℤ × ℤ

inductive Direction
  | right
  | down
  | left
  | up
deriving DecidableEq

namespace Direction

/-- The way to the next cell. -/
def step : Direction → Cell
  | right => (0, 1)
  | down => (1, 0)
  | left => (0, -1)
  | up => (-1, 0)

/-- The next direction clockwise. -/
def turn : Direction → Direction
  | right => down
  | down => left
  | left => up
  | up => right

end Direction

/-- The cell `j` steps in front of `c`. -/
theorem add_nsmul_step (c : Cell) (d : Direction) (j : ℕ) :
    c + j • d.step =
      match d with
      | .right => (c.1, c.2 + j)
      | .down => (c.1 + j, c.2)
      | .left => (c.1, c.2 - j)
      | .up => (c.1 - j, c.2) := by
  cases d <;> simp [Direction.step, Prod.ext_iff, sub_eq_add_neg]

/-- The two cells have a side in common. -/
def Adjacent (c c' : Cell) : Prop := (c.1 - c'.1).natAbs + (c.2 - c'.2).natAbs = 1

theorem adjacent_step (c : Cell) (d : Direction) : Adjacent c (c + d.step) := by
  cases d <;> simp [Adjacent, Direction.step]

/-! ### Rays -/

/-- The `k` cells in front of `c`. -/
def ray (c : Cell) (d : Direction) (k : ℕ) : List Cell :=
  (List.range k).map fun j => c + (j + 1) • d.step

variable {a b : ℤ} {c x : Cell} {d : Direction} {k : ℕ}

@[simp] theorem ray_zero : ray c d 0 = [] := rfl

theorem ray_succ : ray c d (k + 1) = ray c d k ++ [c + (k + 1) • d.step] := by
  rw [ray, List.range_succ, List.map_append, List.map_singleton, ray]

@[simp] theorem length_ray : (ray c d k).length = k := by simp [ray]

theorem mem_ray : x ∈ ray c d k ↔ ∃ j < k, c + (j + 1) • d.step = x := by
  simp [ray]

theorem nodup_ray (c : Cell) (d : Direction) (k : ℕ) : (ray c d k).Nodup := by
  refine List.Nodup.map (fun i j hij => ?_) List.nodup_range
  cases d <;> simpa [Direction.step] using hij

/-- A ray is a part of a row or of a column. -/
theorem mem_ray_iff : x ∈ ray (a, b) d k ↔
    match d with
    | .right => x.1 = a ∧ b < x.2 ∧ x.2 ≤ b + k
    | .down => x.2 = b ∧ a < x.1 ∧ x.1 ≤ a + k
    | .left => x.1 = a ∧ x.2 < b ∧ b - k ≤ x.2
    | .up => x.2 = b ∧ x.1 < a ∧ a - k ≤ x.1 := by
  simp only [mem_ray, add_nsmul_step, Prod.ext_iff]
  constructor
  · rintro ⟨j, hj, hrow, hcolumn⟩
    cases d <;> simp only at hrow hcolumn ⊢ <;> omega
  · intro h
    refine ⟨(x.1 - a).natAbs + (x.2 - b).natAbs - 1, ?_⟩
    cases d <;> simp only at h ⊢ <;> omega

/-! ### The walker -/

structure Walk where
  cell : Cell
  heading : Direction
  /-- The cells walked over, in order. -/
  path : List Cell

namespace Walk

variable (inside : Cell → Prop) {w : Walk}

/-- The cell can be walked to. -/
def Free (w : Walk) (c : Cell) : Prop := inside c ∧ c ∉ w.path

instance [DecidablePred inside] (w : Walk) (c : Cell) : Decidable (w.Free inside c) :=
  inferInstanceAs (Decidable (_ ∧ _))

/-- The cell in front of the walker. -/
def ahead (w : Walk) : Cell := w.cell + w.heading.step

/-- One step in direction `d`. -/
def go (w : Walk) (d : Direction) : Walk := ⟨w.cell + d.step, d, w.path ++ [w.cell + d.step]⟩

/-- The next step of the walker. -/
def next [DecidablePred inside] (w : Walk) : Walk :=
  w.go (if w.Free inside w.ahead then w.heading else w.heading.turn)

/-- If the cell in direction `d` is free, the next step goes there. -/
def Heads (w : Walk) (d : Direction) : Prop :=
  w.heading = d ∨ w.heading.turn = d ∧ ¬ w.Free inside w.ahead

variable {inside}

theorem Heads.next_eq [DecidablePred inside] (h : w.Heads inside d)
    (hfree : w.Free inside (w.cell + d.step)) : w.next inside = w.go d := by
  rcases h with rfl | ⟨rfl, hblocked⟩
  · rw [next, ahead, if_pos hfree]
  · rw [next, if_neg hblocked]

/-- In front of a cell that is not free the walker turns. -/
theorem heads_turn (hcell : w.cell = c) (hheading : w.heading = d)
    (hblocked : ¬ w.Free inside (c + d.step)) : w.Heads inside d.turn := by
  subst hcell hheading
  exact .inr ⟨rfl, hblocked⟩

variable [DecidablePred inside]

/-- The induction is on the length of the ray: at its start the walker may have to turn,
later on it goes straight. -/
theorem iterate_next_leg (hw : 0 < k → w.cell = c ∧ w.Heads inside d)
    (hfree : ∀ x ∈ ray c d k, w.Free inside x) :
    ((next inside)^[k] w).path = w.path ++ ray c d k ∧
      (0 < k → ((next inside)^[k] w).cell = c + k • d.step ∧
        ((next inside)^[k] w).heading = d) := by
  induction k with
  | zero => simp
  | succ k ih =>
    obtain ⟨hcell, hheads⟩ := hw (Nat.succ_pos k)
    rw [ray_succ] at hfree
    obtain ⟨hpath, hlast⟩ := ih (fun _ => ⟨hcell, hheads⟩) fun x hx =>
      hfree x (List.mem_append_left _ hx)
    have hat : ((next inside)^[k] w).cell = c + k • d.step ∧
        ((next inside)^[k] w).Heads inside d := by
      rcases Nat.eq_zero_or_pos k with rfl | hpos
      · exact ⟨by rw [zero_nsmul, add_zero]; exact hcell, hheads⟩
      · exact ⟨(hlast hpos).1, .inl (hlast hpos).2⟩
    have htarget : ((next inside)^[k] w).cell + d.step = c + (k + 1) • d.step := by
      rw [hat.1, succ_nsmul, add_assoc]
    have hfront : ((next inside)^[k] w).Free inside
        (((next inside)^[k] w).cell + d.step) := by
      rw [htarget]
      obtain ⟨hinside, hnew⟩ := hfree (c + (k + 1) • d.step) (by simp)
      refine ⟨hinside, ?_⟩
      have hray := nodup_ray c d (k + 1)
      rw [ray_succ, List.nodup_append] at hray
      rw [hpath, List.mem_append, not_or]
      exact ⟨hnew, fun hmem => hray.2.2 _ hmem _ (by simp) rfl⟩
    rw [Function.iterate_succ_apply', hat.2.next_eq hfront, go, htarget, hpath, ray_succ,
      List.append_assoc]
    exact ⟨rfl, fun _ => ⟨rfl, rfl⟩⟩

/-- The path goes through the cells of `P`, each of them once. -/
structure Covers (w : Walk) (P : Cell → Prop) : Prop where
  mem_iff : ∀ x, x ∈ w.path ↔ P x
  nodup : w.path.Nodup

/-- From corner to corner: along a ray of cells that are free, up to a cell in front of which
the next one is not, if there is another ray of `k'` cells to follow. -/
theorem Covers.exists_leg {P : Cell → Prop} (h : w.Covers P) (c' : Cell) (k' : ℕ)
    (hw : 0 < k → w.cell = c ∧ w.Heads inside d) (hfree : ∀ x ∈ ray c d k, inside x ∧ ¬ P x)
    (hcorner : 0 < k' → (0 < k ∧ c + k • d.step = c') ∧
      (inside (c' + d.step) → P (c' + d.step))) :
    ∃ w', (next inside)^[k] w = w' ∧ w'.path = w.path ++ ray c d k ∧
      w'.Covers (fun x => P x ∨ x ∈ ray c d k) ∧
      (0 < k' → w'.cell = c' ∧ w'.Heads inside d.turn) := by
  have hfree' : ∀ x ∈ ray c d k, w.Free inside x := fun x hx =>
    ⟨(hfree x hx).1, fun hmem => (hfree x hx).2 ((h.mem_iff x).mp hmem)⟩
  obtain ⟨hpath, hlast⟩ := iterate_next_leg hw hfree'
  have hmem : ∀ x, x ∈ ((next inside)^[k] w).path ↔ P x ∨ x ∈ ray c d k := fun x => by
    rw [hpath, List.mem_append, h.mem_iff]
  have hnodup : ((next inside)^[k] w).path.Nodup := by
    rw [hpath, List.nodup_append]
    exact ⟨h.nodup, nodup_ray c d k, fun _ ha b hb hab => (hfree' b hb).2 (hab ▸ ha)⟩
  refine ⟨_, rfl, hpath, ⟨hmem, hnodup⟩, fun hk' => ?_⟩
  obtain ⟨⟨hk, hc'⟩, hblocked⟩ := hcorner hk'
  obtain ⟨hcell, hheading⟩ := hlast hk
  exact ⟨hcell.trans hc', heads_turn (hcell.trans hc') hheading fun hahead =>
    hahead.2 ((hmem _).mpr (.inl (hblocked hahead.1)))⟩

/-! ### Any number of steps -/

/-- Each step makes the path longer by one cell. -/
theorem length_path (w : Walk) (k : ℕ) :
    ((next inside)^[k] w).path.length = w.path.length + k := by
  induction k with
  | zero => rfl
  | succ k ih =>
    rw [Function.iterate_succ_apply', next, go, List.length_append, List.length_singleton, ih,
      Nat.add_assoc]

/-- The path hangs together and ends where the walker is. -/
structure Connected (w : Walk) : Prop where
  isChain : w.path.IsChain Adjacent
  last : ∀ c ∈ w.path.getLast?, c = w.cell

theorem Connected.next (h : w.Connected) : (w.next inside).Connected where
  isChain := by
    rw [Walk.next, go]
    refine List.isChain_append.mpr ⟨h.isChain, .singleton _, fun c hc c' hc' => ?_⟩
    rw [h.last c hc, ← Option.some.inj hc']
    exact adjacent_step _ _
  last c hc := by
    rw [Walk.next, go, List.getLast?_concat] at hc
    exact (Option.some.inj hc).symm

/-- Whatever the region, the walker goes from neighbour to neighbour. -/
theorem isChain_path (h : w.path = []) (k : ℕ) :
    ((Walk.next inside)^[k] w).path.IsChain Adjacent := by
  have hall : ((Walk.next inside)^[k] w).Connected := by
    induction k with
    | zero => exact ⟨by simp [h], by simp [h]⟩
    | succ k ih =>
      rw [Function.iterate_succ_apply']
      exact ih.next
  exact hall.isChain

end Walk

end UnixLessons.Grid
