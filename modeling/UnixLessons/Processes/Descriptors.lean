import Mathlib.Data.List.AList

/-!
# Descriptors and pipes

A process has a table from descriptors to the ends of pipes. `pipe` adds two
entries, `close` removes one, and a forked child starts with a copy. Whether an
end is still open anywhere is a question about all the tables, so the lemmas here
say what each of these does to the ends a table holds.
-/

namespace UnixLessons.Descriptors

/-- The two ends of a pipe. -/
inductive Side
  | read
  | write
deriving DecidableEq

/-- One end of a pipe. -/
structure PipeEnd where
  pipe : ℕ
  side : Side
deriving DecidableEq

/-- The open descriptors of a process. -/
abbrev Table := AList fun _ : ℕ => PipeEnd

variable {t : Table} {e e' : PipeEnd} {fd fd' r w pipe n : ℕ}

/-- Some descriptor of the table refers to the end. -/
def Holds (t : Table) (e : PipeEnd) : Prop := ∃ fd, t.lookup fd = some e

theorem holds_iff : Holds t e ↔ ∃ x ∈ t.entries, x.2 = e := by
  constructor
  · rintro ⟨fd, hfd⟩
    exact ⟨⟨fd, e⟩, AList.mem_lookup_iff.mp hfd, rfl⟩
  · rintro ⟨⟨fd, e'⟩, hmem, rfl⟩
    exact ⟨fd, AList.mem_lookup_iff.mpr hmem⟩

instance (t : Table) (e : PipeEnd) : Decidable (Holds t e) :=
  decidable_of_iff _ holds_iff.symm

/-- Every end in the table belongs to one of the first `n` pipes. -/
def Below (t : Table) (n : ℕ) : Prop := ∀ fd e, t.lookup fd = some e → e.pipe < n

theorem Below.mono (h : Below t n) {m : ℕ} (hnm : n ≤ m) : Below t m :=
  fun fd e hfd => Nat.lt_of_lt_of_le (h fd e hfd) hnm

theorem Below.not_holds (h : Below t n) (hn : n ≤ e.pipe) : ¬ Holds t e :=
  fun ⟨fd, hfd⟩ => absurd (h fd e hfd) (by omega)

/-- Entries for different ends are at different descriptors. -/
theorem ne_of_lookup (h : t.lookup fd = some e) (h' : t.lookup fd' = some e') (hne : e ≠ e') :
    fd ≠ fd' := by
  rintro rfl
  exact hne (Option.some.inj (h.symm.trans h'))

/-! ### Closing -/

theorem lookup_erase_eq (t : Table) (fd fd' : ℕ) :
    (t.erase fd').lookup fd = if fd = fd' then none else t.lookup fd := by
  split
  · rename_i h
    exact h ▸ AList.lookup_erase fd' t
  · rename_i h
    exact AList.lookup_erase_ne h

theorem lookup_of_erase (h : (t.erase fd').lookup fd = some e) : t.lookup fd = some e := by
  rw [lookup_erase_eq] at h
  split at h
  · cases h
  · exact h

theorem Below.erase (h : Below t n) (fd : ℕ) : Below (t.erase fd) n :=
  fun fd' e hfd => h fd' e (lookup_of_erase hfd)

theorem Holds.of_erase (h : Holds (t.erase fd) e) : Holds t e :=
  h.imp fun _ => lookup_of_erase

/-- An entry stays when an entry for another end is closed. -/
theorem lookup_erase_of_ne (h : t.lookup fd = some e) (h' : t.lookup fd' = some e') (hne : e ≠ e') :
    (t.erase fd').lookup fd = some e := by
  rw [lookup_erase_eq, if_neg (ne_of_lookup h h' hne), h]

/-! ### Opening a pipe -/

/-- `pipe` finds two descriptors that are not in use. -/
def Unused (t : Table) (r w : ℕ) : Prop := r ∉ t ∧ w ∉ t ∧ r ≠ w

instance (t : Table) (r w : ℕ) : Decidable (Unused t r w) :=
  inferInstanceAs (Decidable (_ ∧ _ ∧ _))

/-- The two ends of a new pipe are entered. -/
def openPipe (t : Table) (r w pipe : ℕ) : Table :=
  (t.insert r ⟨pipe, .read⟩).insert w ⟨pipe, .write⟩

theorem lookup_openPipe (h : r ≠ w) (fd : ℕ) :
    (openPipe t r w pipe).lookup fd =
      if fd = r then some ⟨pipe, .read⟩ else if fd = w then some ⟨pipe, .write⟩
      else t.lookup fd := by
  unfold openPipe
  by_cases hw : fd = w
  · subst hw
    rw [AList.lookup_insert, if_neg h.symm, if_pos rfl]
  · rw [AList.lookup_insert_ne hw, if_neg hw]
    by_cases hr : fd = r
    · rw [hr, AList.lookup_insert, if_pos rfl]
    · rw [AList.lookup_insert_ne hr, if_neg hr]

theorem Below.openPipe (h : Below t n) (hrw : r ≠ w) : Below (openPipe t r w n) (n + 1) := by
  intro fd e hfd
  rw [lookup_openPipe hrw] at hfd
  split at hfd
  · cases hfd
    exact Nat.lt_succ_self n
  · split at hfd
    · cases hfd
      exact Nat.lt_succ_self n
    · exact Nat.lt_succ_of_lt (h fd e hfd)

/-- The entries that were there stay. -/
theorem lookup_openPipe_of_lookup (hunused : Unused t r w) (h : t.lookup fd = some e) :
    (Descriptors.openPipe t r w pipe).lookup fd = some e := by
  have hmem : fd ∈ t := AList.lookup_isSome.mp (by rw [h]; rfl)
  rw [lookup_openPipe hunused.2.2, if_neg, if_neg, h]
  · rintro rfl
    exact hunused.2.1 hmem
  · rintro rfl
    exact hunused.1 hmem

/-- Two descriptors more are in use. -/
theorem length_keys_openPipe (hunused : Unused t r w) :
    (Descriptors.openPipe t r w pipe).keys.length = t.keys.length + 2 := by
  have hw : w ∉ (t.insert r ⟨pipe, .read⟩).keys := by
    rw [← AList.mem_keys, AList.mem_insert, not_or]
    exact ⟨hunused.2.2.symm, hunused.2.1⟩
  rw [Descriptors.openPipe, AList.keys_insert, List.erase_of_not_mem hw, AList.keys_insert,
    List.erase_of_not_mem hunused.1]
  rfl

/-- An end of another pipe was held before. -/
theorem Holds.of_openPipe (hrw : r ≠ w) (h : Holds (Descriptors.openPipe t r w pipe) e)
    (hne : e.pipe ≠ pipe) : Holds t e := by
  obtain ⟨fd, hfd⟩ := h
  rw [lookup_openPipe hrw] at hfd
  split at hfd
  · cases hfd
    exact absurd rfl hne
  · split at hfd
    · cases hfd
      exact absurd rfl hne
    · exact ⟨fd, hfd⟩

/-! ### Two pipes at once

A parent that talks to its child both ways opens two pipes, forks, and closes the
end of each that belongs to the child. -/

/-- The table after two calls of `pipe`, as the child gets it. -/
def openTwo (t : Table) (r₁ w₁ r₂ w₂ n : ℕ) : Table :=
  Descriptors.openPipe (Descriptors.openPipe t r₁ w₁ n) r₂ w₂ (n + 1)

/-- The table of the parent after `fork`. -/
def keepTwo (t : Table) (r₁ w₁ r₂ w₂ n : ℕ) : Table :=
  ((openTwo t r₁ w₁ r₂ w₂ n).erase r₁).erase w₂

section

variable {r₁ w₁ r₂ w₂ : ℕ} (h₁ : Unused t r₁ w₁)
  (h₂ : Unused (Descriptors.openPipe t r₁ w₁ n) r₂ w₂)
include h₁ h₂

theorem openTwo_distinct : r₁ ≠ w₁ ∧ r₂ ≠ w₂ ∧ r₂ ≠ r₁ ∧ r₂ ≠ w₁ ∧ w₂ ≠ r₁ ∧ w₂ ≠ w₁ := by
  obtain ⟨hr, hw, hrw⟩ := h₂
  simp only [Descriptors.openPipe, AList.mem_insert, not_or] at hr hw
  exact ⟨h₁.2.2, hrw, hr.2.1, hr.1, hw.2.1, hw.1⟩

theorem lookup_openTwo_of_lookup (h : t.lookup fd = some e) :
    (openTwo t r₁ w₁ r₂ w₂ n).lookup fd = some e :=
  lookup_openPipe_of_lookup h₂ (lookup_openPipe_of_lookup h₁ h)

theorem lookup_openTwo (fd : ℕ) :
    (openTwo t r₁ w₁ r₂ w₂ n).lookup fd =
      if fd = r₂ then some ⟨n + 1, .read⟩ else if fd = w₂ then some ⟨n + 1, .write⟩
      else if fd = r₁ then some ⟨n, .read⟩ else if fd = w₁ then some ⟨n, .write⟩
      else t.lookup fd := by
  rw [openTwo, lookup_openPipe h₂.2.2, lookup_openPipe h₁.2.2]

theorem Below.openTwo (h : Below t n) : Below (openTwo t r₁ w₁ r₂ w₂ n) (n + 2) :=
  (h.openPipe h₁.2.2).openPipe h₂.2.2

theorem Holds.of_openTwo (h : Holds (openTwo t r₁ w₁ r₂ w₂ n) e) (hlt : e.pipe < n) :
    Holds t e :=
  (h.of_openPipe h₂.2.2 (by omega)).of_openPipe h₁.2.2 (by omega)

/-- What the child reads from and writes to, and what it has to close. -/
theorem lookup_openTwo_child :
    (openTwo t r₁ w₁ r₂ w₂ n).lookup r₁ = some ⟨n, .read⟩ ∧
      (openTwo t r₁ w₁ r₂ w₂ n).lookup w₂ = some ⟨n + 1, .write⟩ ∧
      (openTwo t r₁ w₁ r₂ w₂ n).lookup w₁ = some ⟨n, .write⟩ ∧
      (openTwo t r₁ w₁ r₂ w₂ n).lookup r₂ = some ⟨n + 1, .read⟩ := by
  obtain ⟨hrw₁, hrw₂, hrr, hrw, hwr, hww⟩ := openTwo_distinct h₁ h₂
  simp [lookup_openTwo h₁ h₂, hrr.symm, hrw₂.symm, hwr.symm, hrw.symm, hww.symm, hrw₁.symm]

/-- What the parent writes to and reads from. -/
theorem lookup_keepTwo_parent :
    (keepTwo t r₁ w₁ r₂ w₂ n).lookup w₁ = some ⟨n, .write⟩ ∧
      (keepTwo t r₁ w₁ r₂ w₂ n).lookup r₂ = some ⟨n + 1, .read⟩ := by
  obtain ⟨hrw₁, hrw₂, hrr, hrw, hwr, hww⟩ := openTwo_distinct h₁ h₂
  simp [keepTwo, lookup_openTwo h₁ h₂, hrr, hrw₂, hrw.symm, hww.symm, hrw₁.symm]

/-- The descriptors of the parent that were open before stay open. -/
theorem lookup_keepTwo_of_lookup (h : t.lookup fd = some e) :
    (keepTwo t r₁ w₁ r₂ w₂ n).lookup fd = some e := by
  have hmem : fd ∈ t := AList.lookup_isSome.mp (by rw [h]; rfl)
  have hmem' : fd ∈ Descriptors.openPipe t r₁ w₁ n :=
    AList.lookup_isSome.mp (by rw [lookup_openPipe_of_lookup h₁ h]; rfl)
  have hr : fd ≠ r₁ := fun he => h₁.1 (he ▸ hmem)
  have hw : fd ≠ w₂ := fun he => h₂.2.1 (he ▸ hmem')
  rw [keepTwo, lookup_erase_eq, if_neg hw, lookup_erase_eq, if_neg hr]
  exact lookup_openTwo_of_lookup h₁ h₂ h

theorem Below.keepTwo (h : Below t n) : Below (keepTwo t r₁ w₁ r₂ w₂ n) (n + 2) :=
  ((h.openTwo h₁ h₂).erase r₁).erase w₂

/-- Of the two pipes, the parent holds its own ends only. -/
theorem keepTwo_not_holds (h : Below t n) :
    ¬ Holds (keepTwo t r₁ w₁ r₂ w₂ n) ⟨n, .read⟩ ∧
      ¬ Holds (keepTwo t r₁ w₁ r₂ w₂ n) ⟨n + 1, .write⟩ := by
  have hold : ∀ fd e, t.lookup fd = some e → e.pipe < n := h
  constructor <;>
  · rintro ⟨fd, hfd⟩
    rw [keepTwo, lookup_erase_eq, lookup_erase_eq, lookup_openTwo h₁ h₂] at hfd
    have hlt := hold fd
    grind

end

end UnixLessons.Descriptors
