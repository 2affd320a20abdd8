import UnixLessons.Grid.Walk
import Mathlib.Data.Nat.Cast.Order.Basic
import Mathlib.Tactic.Ring

/-!
# The spiral in a square

The clockwise spiral from the top left inwards is the path of the walker who starts in front
of the first row. It consists of laps: lap `r` goes along the four sides of what is left of
the square inside the laps before it. The last lap is a single cell for an odd side, and
two cells by two for an even one.

## Main results

* `spiral_eq_laps`: the spiral, lap by lap
* `mem_spiral`, `nodup_spiral`, `isChain_spiral`: it goes through each cell of the square
  once, from neighbour to neighbour
-/

namespace UnixLessons.Grid

open Walk

variable {n r : ℕ} {w : Walk} {c : Cell}

/-- The cells of the square with `n` rows and columns. -/
def Square (n : ℕ) (c : Cell) : Prop := (0 ≤ c.1 ∧ c.1 < n) ∧ 0 ≤ c.2 ∧ c.2 < n

instance (n : ℕ) : DecidablePred (Square n) := fun _ => inferInstanceAs (Decidable (_ ∧ _))

/-- The walker in front of the first row. -/
def start : Walk := ⟨(0, -1), .right, []⟩

/-- The spiral takes as many steps as there are cells. -/
def spiral (n : ℕ) : List Cell := ((next (Square n))^[n * n] start).path

example : spiral 3 = [(0, 0), (0, 1), (0, 2), (1, 2), (2, 2), (2, 1), (2, 0), (1, 0), (1, 1)] := by
  decide

/-- What is left of the square inside the first `r` laps. -/
def Inner (n r : ℕ) (c : Cell) : Prop := (r ≤ c.1 ∧ c.1 < n - r) ∧ r ≤ c.2 ∧ c.2 < n - r

/-- Lap `r`, side by side; a corner belongs to the side that reaches it first. -/
def lap (n r : ℕ) : List Cell :=
  ray (r, r - 1) .right (n - 2 * r) ++ ray (r, n - 1 - r) .down (n - 2 * r - 1) ++
    ray (n - 1 - r, n - 1 - r) .left (n - 2 * r - 1) ++ ray (n - 1 - r, r) .up (n - 2 * r - 2)

/-- A lap stays inside the square. -/
theorem square_of_mem_lap (hr : 2 * r < n) (h : c ∈ lap n r) : Square n c := by
  simp only [lap, List.mem_append, mem_ray_iff] at h
  rw [Square]
  omega

/-- What is left after a lap is what was left before it, without the cells of the lap. -/
theorem inner_succ_iff (hr : 2 * r < n) : Inner n (r + 1) c ↔ Inner n r c ∧ c ∉ lap n r := by
  simp only [lap, List.mem_append, mem_ray_iff, Inner]
  push_cast
  omega

/-- The first `r` laps. -/
def laps (n r : ℕ) : List Cell := (List.range r).flatMap (lap n)

theorem laps_succ : laps n (r + 1) = laps n r ++ lap n r := by
  simp [laps, List.range_succ]

/-- The laps have as many cells as the square has outside what is left. -/
theorem length_laps (hr : 2 * r ≤ n + 1) :
    (laps n r).length + (n - 2 * r) * (n - 2 * r) = n * n := by
  induction r with
  | zero => simp [laps]
  | succ r ih =>
    have hlength := ih (by omega)
    rw [laps_succ, List.length_append, lap]
    simp only [List.length_append, length_ray]
    obtain ⟨side, hside⟩ : ∃ side, n - 2 * r = side + 1 := ⟨n - 2 * r - 1, by omega⟩
    have hinner : n - 2 * (r + 1) = side - 1 := by omega
    rw [hside] at hlength ⊢
    rw [hinner, ← hlength]
    cases side with
    | zero => simp
    | succ side =>
      have hlast : side + 1 + 1 - 2 = side := rfl
      rw [Nat.add_sub_cancel, Nat.add_sub_cancel, hlast]
      ring

/-- The walker has gone through the first `r` laps and is in front of the next one. -/
structure AtLap (n r : ℕ) (w : Walk) : Prop where
  covers : w.Covers fun c => Square n c ∧ ¬ Inner n r c
  ready : 0 < n - 2 * r → w.cell = ((r, r - 1) : Cell) ∧ w.Heads (Square n) .right

theorem atLap_start : AtLap n 0 start where
  covers := by
    refine ⟨fun c => ?_, List.nodup_nil⟩
    have hinner : Inner n 0 c ↔ Square n c := by simp [Inner, Square]
    simp [start, hinner]
  ready _ := ⟨rfl, .inl rfl⟩

/-- One lap: a side ends where the next cell is outside the square or on the path. A side
without cells is behind the last one of the spiral. -/
theorem AtLap.exists_next (h : AtLap n r w) (hr : 2 * r < n) :
    ∃ k, AtLap n (r + 1) ((next (Square n))^[k] w) ∧
      ((next (Square n))^[k] w).path = w.path ++ lap n r := by
  -- to the right, along the upper side
  obtain ⟨w₁, hw₁, hpath₁, hcovers₁, hready₁⟩ := h.covers.exists_leg (r, n - 1 - r)
    (n - 2 * r - 1) h.ready
    (fun x hx => by simp only [mem_ray_iff, Square, Inner] at hx ⊢; omega)
    (fun hpos => by simp [Direction.step, Square, Inner]; omega)
  -- down, along the right side
  obtain ⟨w₂, hw₂, hpath₂, hcovers₂, hready₂⟩ := hcovers₁.exists_leg (n - 1 - r, n - 1 - r)
    (n - 2 * r - 1) hready₁
    (fun x hx => by simp only [Direction.turn, mem_ray_iff, Square, Inner] at hx ⊢; omega)
    (fun hpos => by simp [Direction.turn, Direction.step, mem_ray_iff, Square, Inner]; omega)
  -- to the left, along the lower side
  obtain ⟨w₃, hw₃, hpath₃, hcovers₃, hready₃⟩ := hcovers₂.exists_leg (n - 1 - r, r)
    (n - 2 * r - 2) hready₂
    (fun x hx => by simp only [Direction.turn, mem_ray_iff, Square, Inner] at hx ⊢; omega)
    (fun hpos => by simp [Direction.turn, Direction.step, mem_ray_iff, Square, Inner]; omega)
  -- up, along the left side
  obtain ⟨w₄, hw₄, hpath₄, hcovers₄, hready₄⟩ := hcovers₃.exists_leg
    ((r + 1 : ℕ), (r + 1 : ℕ) - 1) (n - 2 * (r + 1)) hready₃
    (fun x hx => by simp only [Direction.turn, mem_ray_iff, Square, Inner] at hx ⊢; omega)
    (fun hpos => by simp [Direction.turn, Direction.step, mem_ray_iff, Square, Inner]; omega)
  refine ⟨(n - 2 * r - 2) + ((n - 2 * r - 1) + ((n - 2 * r - 1) + (n - 2 * r))), ?_⟩
  rw [Function.iterate_add_apply, Function.iterate_add_apply, Function.iterate_add_apply, hw₁,
    hw₂, hw₃, hw₄]
  have hpath : w₄.path = w.path ++ lap n r := by
    rw [hpath₄, hpath₃, hpath₂, hpath₁, lap]
    simp only [Direction.turn, List.append_assoc]
  refine ⟨⟨⟨fun x => ?_, hcovers₄.nodup⟩, hready₄⟩, hpath⟩
  rw [hpath, List.mem_append, h.covers.mem_iff, inner_succ_iff hr]
  by_cases hx : x ∈ lap n r
  · simp [hx, square_of_mem_lap hr hx]
  · simp [hx]

/-- The induction is on the number of laps. -/
theorem exists_atLap (hr : 2 * r ≤ n + 1) :
    ∃ k, AtLap n r ((next (Square n))^[k] start) ∧
      ((next (Square n))^[k] start).path = laps n r := by
  induction r with
  | zero => exact ⟨0, atLap_start, rfl⟩
  | succ r ih =>
    obtain ⟨k, hlap, hpath⟩ := ih (by omega)
    obtain ⟨j, hlap', hpath'⟩ := hlap.exists_next (by omega)
    rw [← Function.iterate_add_apply] at hlap' hpath'
    exact ⟨j + k, hlap', by rw [hpath', hpath, laps_succ]⟩

/-! ### The whole spiral -/

/-- After half as many laps as there are rows nothing is left of the square. -/
theorem exists_spiral_eq (n : ℕ) :
    ∃ w, AtLap n ((n + 1) / 2) w ∧ w.path = laps n ((n + 1) / 2) ∧ w.path = spiral n := by
  obtain ⟨k, hlap, hpath⟩ := exists_atLap (show 2 * ((n + 1) / 2) ≤ n + 1 by omega)
  have hk : k = n * n := by
    have hlength := length_laps (show 2 * ((n + 1) / 2) ≤ n + 1 by omega)
    have hnone : n - 2 * ((n + 1) / 2) = 0 := by omega
    rw [hnone, ← hpath, length_path] at hlength
    simpa [start] using hlength
  exact ⟨_, hlap, hpath, by rw [hk, spiral]⟩

theorem spiral_eq_laps (n : ℕ) : spiral n = laps n ((n + 1) / 2) := by
  obtain ⟨w, -, hlaps, hspiral⟩ := exists_spiral_eq n
  exact hspiral.symm.trans hlaps

@[simp] theorem length_spiral (n : ℕ) : (spiral n).length = n * n := by
  rw [spiral, length_path]
  exact Nat.zero_add _

theorem mem_spiral : c ∈ spiral n ↔ Square n c := by
  obtain ⟨w, hlap, -, hspiral⟩ := exists_spiral_eq n
  rw [← hspiral, hlap.covers.mem_iff, and_iff_left]
  rw [Inner]
  omega

theorem nodup_spiral (n : ℕ) : (spiral n).Nodup := by
  obtain ⟨w, hlap, -, hspiral⟩ := exists_spiral_eq n
  exact hspiral ▸ hlap.covers.nodup

theorem isChain_spiral (n : ℕ) : (spiral n).IsChain Adjacent := isChain_path rfl _

end UnixLessons.Grid
