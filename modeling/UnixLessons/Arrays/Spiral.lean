import UnixLessons.Grid.Spiral

/-!
# Filling a matrix in a spiral

The lesson fills a square matrix with 1, 2, 3, … from the top left clockwise inwards. Four
bounds say which rows and columns are not filled yet; in each round a loop goes along each of
the four sides, and behind it the bound of that side moves. Only the outer loop looks at the
value, so the last round runs through all of its loops: what keeps them inside the matrix is
that they go along no cells then.

## Main results

* `round_eq`: a round of the four loops is a lap of the spiral
* `fill_spiral`: the numbers are written along the spiral, for each size of the matrix
* `main_spiral`: where they are printed
-/

namespace UnixLessons.Arrays

open Grid

/-- Largest value of an `int`. -/
def maxInt : ℤ := 2 ^ 31 - 1

/-- A result of an `int` operation; `none` when it overflows. -/
def int (x : ℤ) : Option ℤ := if -maxInt - 1 ≤ x ∧ x ≤ maxInt then some x else none

/-- The matrix and the next value, with the writes so far: each with its cell and the value
written there. -/
structure Filling where
  matrix : Cell → ℤ
  value : ℤ
  written : List (Cell × ℤ)

/-- The assignment of `value++` to a cell; `none` when the cell is outside the matrix. -/
def Filling.put (n : ℕ) (f : Filling) (c : Cell) : Option Filling := do
  let value ← int (f.value + 1)
  if Square n c then
    some ⟨Function.update f.matrix c f.value, value, f.written ++ [(c, f.value)]⟩
  else none

/-- The indices of `for (i = first; i <= last; i++)`. -/
def upTo (first last : ℤ) : List ℤ :=
  (List.range (last + 1 - first).toNat).map fun j : ℕ => first + j

/-- The indices of `for (i = first; i >= last; i--)`. -/
def downTo (first last : ℤ) : List ℤ :=
  (List.range (first + 1 - last).toNat).map fun j : ℕ => first - j

/-- The variables of the outer loop. -/
structure State where
  filling : Filling
  leght : ℤ
  top : ℤ
  right : ℤ
  bottom : ℤ

/-- The body of the outer loop. -/
def round (n : ℕ) (s : State) : Option State := do
  -- from left to right
  let filling ← (upTo s.leght s.right).foldlM (fun f i => f.put n (s.top, i)) s.filling
  let top ← int (s.top + 1)
  -- from top to bottom
  let filling ← (upTo top s.bottom).foldlM (fun f i => f.put n (i, s.right)) filling
  let right ← int (s.right - 1)
  -- from right to left
  let filling ← (downTo right s.leght).foldlM (fun f i => f.put n (s.bottom, i)) filling
  let bottom ← int (s.bottom - 1)
  -- from bottom to top
  let filling ← (downTo bottom top).foldlM (fun f i => f.put n (i, s.leght)) filling
  let leght ← int (s.leght + 1)
  some ⟨filling, leght, top, right, bottom⟩

/-- The outer loop; `none` also when it does not end within the fuel. -/
def fillLoop (n : ℕ) : ℕ → State → Option State
  | 0, _ => none
  | fuel + 1, s => do
    let size ← int (n * n)
    if s.filling.value ≤ size then (round n s).bind (fillLoop n fuel) else some s

/-- The matrix with `n` rows is filled, whatever was in it before. -/
def fill (n : ℕ) (matrix : Cell → ℤ) : Option State :=
  fillLoop n (n + 1) ⟨⟨matrix, 1, []⟩, 0, 0, n - 1, n - 1⟩

/-- The rows of numbers that are printed in the end. -/
def rows (n : ℕ) (s : State) : List (List ℤ) :=
  (List.range n).map fun i : ℕ => (List.range n).map fun j : ℕ => s.filling.matrix (i, j)

/-- The whole lesson: what is printed. -/
def main (n : ℕ) (matrix : Cell → ℤ) : Option (List (List ℤ)) := (fill n matrix).map (rows n)

/-! ### Writing along a list of cells -/

variable {n r k : ℕ} {f : Filling} {c : Cell} {cells : List Cell} {first last : ℤ}

theorem int_eq {x : ℤ} (h : -maxInt - 1 ≤ x ∧ x ≤ maxInt) : int x = some x := if_pos h

/-- The next value is written to a cell of the matrix. -/
def Filling.writtenAt (f : Filling) (c : Cell) : Filling :=
  ⟨Function.update f.matrix c f.value, f.value + 1, f.written ++ [(c, f.value)]⟩

/-- The next values are written, one to each of the cells. -/
def Filling.wrote (f : Filling) (cells : List Cell) : Filling := cells.foldl Filling.writtenAt f

@[simp] theorem Filling.wrote_nil (f : Filling) : f.wrote [] = f := rfl

@[simp] theorem Filling.wrote_cons (f : Filling) (c : Cell) (cells : List Cell) :
    f.wrote (c :: cells) = (f.writtenAt c).wrote cells := rfl

theorem Filling.wrote_append (f : Filling) (cells cells' : List Cell) :
    f.wrote (cells ++ cells') = (f.wrote cells).wrote cells' := List.foldl_append

@[simp] theorem Filling.value_writtenAt (f : Filling) (c : Cell) :
    (f.writtenAt c).value = f.value + 1 := rfl

@[simp] theorem Filling.written_writtenAt (f : Filling) (c : Cell) :
    (f.writtenAt c).written = f.written ++ [(c, f.value)] := rfl

@[simp] theorem Filling.matrix_writtenAt (f : Filling) (c : Cell) :
    (f.writtenAt c).matrix = Function.update f.matrix c f.value := rfl

theorem Filling.put_eq (hc : Square n c) (h0 : 0 ≤ f.value) (hvalue : f.value < maxInt) :
    f.put n c = some (f.writtenAt c) := by
  rw [put, int_eq (by rw [maxInt] at *; omega), Option.bind_eq_bind, Option.bind_some, if_pos hc]
  rfl

@[simp] theorem Filling.value_wrote (f : Filling) (cells : List Cell) :
    (f.wrote cells).value = f.value + cells.length := by
  induction cells generalizing f with
  | nil => simp
  | cons c cells ih =>
    rw [wrote_cons, ih, value_writtenAt, List.length_cons]
    push_cast
    omega

theorem Filling.cells_wrote (f : Filling) (cells : List Cell) :
    (f.wrote cells).written.map Prod.fst = f.written.map Prod.fst ++ cells := by
  induction cells generalizing f with
  | nil => simp
  | cons c cells ih => simp [ih]

theorem Filling.values_wrote (f : Filling) (cells : List Cell) :
    (f.wrote cells).written.map Prod.snd =
      f.written.map Prod.snd ++ (List.range cells.length).map fun k : ℕ => f.value + k := by
  induction cells generalizing f with
  | nil => simp
  | cons c cells ih =>
    rw [wrote_cons, ih, written_writtenAt, value_writtenAt, List.length_cons,
      List.range_succ_eq_map]
    have hshift : (List.range cells.length).map (fun k : ℕ => f.value + 1 + k) =
        ((List.range cells.length).map Nat.succ).map fun k : ℕ => f.value + k := by
      rw [List.map_map]
      refine List.map_congr_left fun k _ => ?_
      rw [Function.comp_apply]
      push_cast
      omega
    simp [hshift]

/-- What was written to a cell is still there, if no cell is written twice. -/
theorem Filling.matrix_wrote (hf : ∀ p ∈ f.written, f.matrix p.1 = p.2)
    (hnodup : (f.written.map Prod.fst ++ cells).Nodup) :
    ∀ p ∈ (f.wrote cells).written, (f.wrote cells).matrix p.1 = p.2 := by
  induction cells generalizing f with
  | nil => exact hf
  | cons c cells ih =>
    refine @ih (f.writtenAt c) (fun p hp => ?_) (by simpa using hnodup)
    rw [written_writtenAt, List.mem_append, List.mem_singleton] at hp
    rw [matrix_writtenAt]
    rcases hp with hp | rfl
    · have hne : p.1 ≠ c := by
        rintro rfl
        exact (List.nodup_append.mp hnodup).2.2 _ (List.mem_map_of_mem hp) _
          List.mem_cons_self rfl
      rw [Function.update_of_ne hne]
      exact hf p hp
    · rw [Function.update_self]

/-- A loop that goes through a list of cells inside the matrix. -/
theorem foldlM_put {g : ℤ → Cell} {is : List ℤ} (hcells : is.map g = cells)
    (hinside : ∀ c ∈ cells, Square n c) (h0 : 0 ≤ f.value)
    (hvalue : f.value + cells.length ≤ maxInt) :
    is.foldlM (fun f i => f.put n (g i)) f = some (f.wrote cells) := by
  subst hcells
  induction is generalizing f with
  | nil => rfl
  | cons i is ih =>
    rw [List.map_cons, List.length_cons, Nat.cast_add, Nat.cast_one] at hvalue
    have hrest := @ih (f.writtenAt (g i)) (by rw [Filling.value_writtenAt]; omega)
      (fun c hc => hinside c (List.mem_cons_of_mem _ hc))
      (by rw [Filling.value_writtenAt]; omega)
    rw [List.foldlM_cons, Filling.put_eq (hinside _ List.mem_cons_self) h0 (by omega),
      Option.bind_eq_bind, Option.bind_some, hrest, List.map_cons, Filling.wrote_cons]

/-! ### The rounds -/

/-- The cells of each loop are a ray, which starts next to the first of them. -/
theorem map_upTo_row {t a : ℤ} (ha : first = a + 1) (hk : (last - a).toNat = k) :
    (upTo first last).map (fun i => (t, i)) = ray (t, a) .right k := by
  rw [upTo, show last + 1 - first = last - a by omega, hk, List.map_map, ray]
  refine List.map_congr_left fun j _ => ?_
  rw [Function.comp_apply, add_nsmul_step]
  exact Prod.ext rfl (by push_cast; omega)

theorem map_upTo_column {t a : ℤ} (ha : first = a + 1) (hk : (last - a).toNat = k) :
    (upTo first last).map (fun i => (i, t)) = ray (a, t) .down k := by
  rw [upTo, show last + 1 - first = last - a by omega, hk, List.map_map, ray]
  refine List.map_congr_left fun j _ => ?_
  rw [Function.comp_apply, add_nsmul_step]
  exact Prod.ext (by push_cast; omega) rfl

theorem map_downTo_row {t a : ℤ} (ha : first = a - 1) (hk : (a - last).toNat = k) :
    (downTo first last).map (fun i => (t, i)) = ray (t, a) .left k := by
  rw [downTo, show first + 1 - last = a - last by omega, hk, List.map_map, ray]
  refine List.map_congr_left fun j _ => ?_
  rw [Function.comp_apply, add_nsmul_step]
  exact Prod.ext rfl (by push_cast; omega)

theorem map_downTo_column {t a : ℤ} (ha : first = a - 1) (hk : (a - last).toNat = k) :
    (downTo first last).map (fun i => (i, t)) = ray (a, t) .up k := by
  rw [downTo, show first + 1 - last = a - last by omega, hk, List.map_map, ray]
  refine List.map_congr_left fun j _ => ?_
  rw [Function.comp_apply, add_nsmul_step]
  exact Prod.ext (by push_cast; omega) rfl

/-- The variables in front of lap `r`. -/
def atLap (n r : ℕ) (f : Filling) : State := ⟨f, r, r, n - 1 - r, n - 1 - r⟩

@[simp] theorem filling_atLap (n r : ℕ) (f : Filling) : (atLap n r f).filling = f := rfl

/-- The four loops write along the next lap. -/
theorem round_eq (hr : 2 * r < n) (hn : (n : ℤ) ≤ maxInt) (h0 : 0 ≤ f.value)
    (hvalue : f.value + (lap n r).length ≤ maxInt) :
    round n (atLap n r f) = some (atLap n (r + 1) (f.wrote (lap n r))) := by
  have hside : ∀ c ∈ lap n r, Square n c := fun c hc => square_of_mem_lap hr hc
  simp only [lap, List.mem_append, List.length_append, Nat.cast_add] at hside hvalue
  obtain ⟨upper, hupper⟩ : ∃ side, ray (r, r - 1) .right (n - 2 * r) = side := ⟨_, rfl⟩
  obtain ⟨right, hright⟩ : ∃ side, ray (r, n - 1 - r) .down (n - 2 * r - 1) = side := ⟨_, rfl⟩
  obtain ⟨lower, hlower⟩ : ∃ side, ray (n - 1 - r, n - 1 - r) .left (n - 2 * r - 1) = side :=
    ⟨_, rfl⟩
  obtain ⟨left, hleft⟩ : ∃ side, ray (n - 1 - r, r) .up (n - 2 * r - 2) = side := ⟨_, rfl⟩
  rw [hupper, hright, hlower, hleft] at hside hvalue
  have hloop₁ : (upTo r (n - 1 - r)).foldlM (fun f i => f.put n (r, i)) f = some (f.wrote upper) :=
    foldlM_put (hupper ▸ map_upTo_row (by omega) (by omega))
      (fun c hc => hside c (.inl (.inl (.inl hc)))) h0 (by omega)
  have hloop₂ : (upTo (r + 1) (n - 1 - r)).foldlM (fun f i => f.put n (i, n - 1 - r))
      (f.wrote upper) = some ((f.wrote upper).wrote right) :=
    foldlM_put (hright ▸ map_upTo_column (by omega) (by omega))
      (fun c hc => hside c (.inl (.inl (.inr hc)))) (by simp only [Filling.value_wrote]; omega)
      (by simp only [Filling.value_wrote]; omega)
  have hloop₃ : (downTo (n - 1 - r - 1) r).foldlM (fun f i => f.put n (n - 1 - r, i))
      ((f.wrote upper).wrote right) = some (((f.wrote upper).wrote right).wrote lower) :=
    foldlM_put (hlower ▸ map_downTo_row (by omega) (by omega))
      (fun c hc => hside c (.inl (.inr hc))) (by simp only [Filling.value_wrote]; omega)
      (by simp only [Filling.value_wrote]; omega)
  have hloop₄ : (downTo (n - 1 - r - 1) (r + 1)).foldlM (fun f i => f.put n (i, r))
      (((f.wrote upper).wrote right).wrote lower) =
        some ((((f.wrote upper).wrote right).wrote lower).wrote left) :=
    foldlM_put (hleft ▸ map_downTo_column (by omega) (by omega))
      (fun c hc => hside c (.inr hc)) (by simp only [Filling.value_wrote]; omega)
      (by simp only [Filling.value_wrote]; omega)
  have hmax : maxInt = 2147483647 := rfl
  have hplus : int (r + 1) = some (r + 1 : ℤ) := int_eq (by omega)
  have hminus : int (n - 1 - r - 1) = some (n - 1 - r - 1 : ℤ) := int_eq (by omega)
  have hlap : f.wrote (lap n r) = (((f.wrote upper).wrote right).wrote lower).wrote left := by
    rw [lap, hupper, hright, hlower, hleft]
    simp only [Filling.wrote_append]
  rw [round, atLap, atLap, hlap, Nat.cast_succ, sub_add_eq_sub_sub]
  simp only [hloop₁, hplus, hloop₂, hminus, hloop₃, hloop₄, Option.bind_eq_bind, Option.bind_some]

/-- The matrix as it was, and nothing written yet. -/
def unwritten (matrix : Cell → ℤ) : Filling := ⟨matrix, 1, []⟩

/-- The induction is on the fuel: the loop goes on as long as there is a lap left. -/
theorem fillLoop_eq {fuel : ℕ} (matrix : Cell → ℤ) (hn : n * n + 1 ≤ maxInt)
    (hr : 2 * r ≤ n + 1) (hfuel : (n + 1) / 2 < r + fuel) :
    fillLoop n fuel (atLap n r ((unwritten matrix).wrote (laps n r))) =
      some (atLap n ((n + 1) / 2) ((unwritten matrix).wrote (spiral n))) := by
  have hsquare : ((n * n : ℕ) : ℤ) = n * n := Nat.cast_mul n n
  have hsize : int (n * n) = some (n * n : ℤ) := int_eq (by rw [maxInt] at *; omega)
  induction fuel generalizing r with
  | zero => omega
  | succ fuel ih =>
    have hlength := length_laps hr
    have hvalue : ((unwritten matrix).wrote (laps n r)).value = 1 + (laps n r).length :=
      Filling.value_wrote _ _
    rw [fillLoop, hsize, Option.bind_eq_bind, Option.bind_some, filling_atLap, hvalue]
    by_cases hmore : 2 * r < n
    · have hleft : 0 < (n - 2 * r) * (n - 2 * r) := Nat.mul_pos (by omega) (by omega)
      have hnext := length_laps (show 2 * (r + 1) ≤ n + 1 by omega)
      rw [laps_succ, List.length_append] at hnext
      have hside : n ≤ n * n := Nat.le_mul_self n
      have hround := @round_eq n r ((unwritten matrix).wrote (laps n r)) hmore (by omega)
        (by omega) (by omega)
      rw [if_pos (by omega), hround, Option.bind_some, ← Filling.wrote_append, ← laps_succ]
      exact ih (by omega) (by omega)
    · have hnone : n - 2 * r = 0 := by omega
      have hlast : r = (n + 1) / 2 := by omega
      rw [hnone] at hlength
      rw [if_neg (by omega), spiral_eq_laps, hlast]

/-- The numbers 1, 2, 3, … are written along the spiral. -/
structure SpiralFilled (n : ℕ) (f : Filling) : Prop where
  /-- Each write is to a cell of the matrix, and each of these cells is written. -/
  mem_iff : ∀ c, c ∈ f.written.map Prod.fst ↔ Square n c
  /-- No cell is written twice. -/
  nodup : (f.written.map Prod.fst).Nodup
  values : f.written.map Prod.snd = (List.range (n * n)).map fun k : ℕ => (k + 1 : ℤ)
  adjacent : (f.written.map Prod.fst).IsChain Adjacent
  cells : f.written.map Prod.fst = spiral n
  /-- The matrix holds what was written. -/
  matrix : ∀ p ∈ f.written, f.matrix p.1 = p.2

theorem spiralFilled_wrote (n : ℕ) (matrix : Cell → ℤ) :
    SpiralFilled n ((unwritten matrix).wrote (spiral n)) := by
  have hcells : ((unwritten matrix).wrote (spiral n)).written.map Prod.fst = spiral n :=
    Filling.cells_wrote _ _
  refine ⟨fun c => ?_, ?_, ?_, ?_, hcells, ?_⟩
  · rw [hcells, mem_spiral]
  · rw [hcells]
    exact nodup_spiral n
  · rw [Filling.values_wrote, length_spiral]
    simp [unwritten, add_comm]
  · rw [hcells]
    exact isChain_spiral n
  · exact Filling.matrix_wrote (by simp [unwritten]) (by simpa [unwritten] using nodup_spiral n)

theorem fill_eq (matrix : Cell → ℤ) (hn : n * n + 1 ≤ maxInt) :
    fill n matrix = some (atLap n ((n + 1) / 2) ((unwritten matrix).wrote (spiral n))) := by
  have hloop := @fillLoop_eq n 0 (n + 1) matrix hn (by omega) (by omega)
  simpa [fill, atLap, laps, unwritten] using hloop

/-- For every size whose numbers fit an `int`: the loop ends, and the matrix is filled along
the spiral. -/
theorem fill_spiral (n : ℕ) (matrix : Cell → ℤ) (hn : n * n + 1 ≤ maxInt) :
    ∃ s, fill n matrix = some s ∧ SpiralFilled n s.filling :=
  ⟨_, fill_eq matrix hn, spiralFilled_wrote n matrix⟩

/-- The size in the lesson. -/
theorem fill_spiral_five : ∃ s, fill 5 (fun _ => 0) = some s ∧ SpiralFilled 5 s.filling :=
  fill_spiral 5 _ (by decide)

/-- Value `k + 1` is in the cell that the spiral reaches after `k` others. -/
theorem SpiralFilled.matrix_eq {k : ℕ} (h : SpiralFilled n f) (hk : (spiral n)[k]? = some c) :
    f.matrix c = k + 1 := by
  obtain ⟨hlt, -⟩ := List.getElem?_eq_some_iff.mp hk
  rw [length_spiral] at hlt
  rw [← h.cells, List.getElem?_map, Option.map_eq_some_iff] at hk
  obtain ⟨p, hp, rfl⟩ := hk
  have hvalue : (f.written.map Prod.snd)[k]? = some (k + 1 : ℤ) := by
    rw [h.values, List.getElem?_map, List.getElem?_range hlt, Option.map_some]
  rw [List.getElem?_map, hp, Option.map_some] at hvalue
  rw [h.matrix p (List.mem_of_getElem? hp), Option.some.inj hvalue]

/-- The numbers are printed where the spiral has them. -/
theorem main_spiral (matrix : Cell → ℤ) (hn : n * n + 1 ≤ maxInt) :
    ∃ printed, main n matrix = some printed ∧
      ∀ k i j : ℕ, (spiral n)[k]? = some ((i, j) : Cell) →
        ∃ row, printed[i]? = some row ∧ row[j]? = some (k + 1 : ℤ) := by
  refine ⟨_, by rw [main, fill_eq matrix hn, Option.map_some], fun k i j hk => ?_⟩
  have hinside := mem_spiral.mp (List.mem_of_getElem? hk)
  rw [Square] at hinside
  have hvalue := (spiralFilled_wrote n matrix).matrix_eq hk
  refine ⟨_, by rw [rows, List.getElem?_map, List.getElem?_range (by omega), Option.map_some], ?_⟩
  rw [List.getElem?_map, List.getElem?_range (by omega), Option.map_some, filling_atLap, hvalue]

end UnixLessons.Arrays
