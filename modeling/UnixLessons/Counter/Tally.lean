import Mathlib.Algebra.BigOperators.Fin
import Mathlib.Data.Fintype.BigOperators

/-!
# Tallies of a list of entries

The entries of a ledger, summed up by account. Adding up the tallies of all
accounts counts every entry once, so two ways of splitting one ledger into
accounts have the same total.

## Main results

* `tally_append`: an entry at the end changes the tally of its account only
* `sum_tally`: the tallies of all accounts add up to the whole ledger
-/

namespace UnixLessons.Counter

variable {ι ε : Type*} [DecidableEq ι] {account : ε → ι} {value : ε → ℤ}

/-- The sum of the values of the entries that belong to the account `i`. -/
def tally (account : ε → ι) (value : ε → ℤ) (entries : List ε) (i : ι) : ℤ :=
  (entries.map fun e => if account e = i then value e else 0).sum

@[simp] theorem tally_nil (i : ι) : tally account value [] i = 0 := rfl

/-- An entry at the end changes the tally of its account only. -/
theorem tally_append (entries : List ε) (e : ε) (i : ι) :
    tally account value (entries ++ [e]) i =
      tally account value entries i + if account e = i then value e else 0 := by
  simp [tally]

/-- The tallies of all accounts add up to the whole ledger. -/
theorem sum_tally [Fintype ι] (entries : List ε) :
    ∑ i, tally account value entries i = (entries.map value).sum := by
  induction entries with
  | nil => simp
  | cons e entries ih =>
    simp only [tally, List.map_cons, List.sum_cons] at ih ⊢
    rw [Finset.sum_add_distrib, ih, Finset.sum_ite_eq, if_pos (Finset.mem_univ _)]

/-- A ledger whose entries all have one value counts them. -/
theorem sum_map_const (entries : List ε) (c : ℤ) :
    (entries.map fun _ => c).sum = c * entries.length := by
  simp [mul_comm]

end UnixLessons.Counter
