import Mathlib.Data.List.Basic

/-!
# Kernel objects with a name

Shared memory and semaphores are found by a name or a key and outlive the processes
that use them. When the name is removed, the object stays for those who have it open,
and the next to ask for the name gets a new object. So two processes that use one name
may have different objects, depending on when they asked.
-/

namespace UnixLessons.Processes

/-- All objects created under one name, and the one that the name stands for now. -/
structure Objects (α : Type) where
  all : List α
  name : Option ℕ
  valid : ∀ i ∈ name, i < all.length

namespace Objects

variable {α β : Type} {o : Objects α} {x y : α} {i j : ℕ}

/-- No object has been created. -/
def empty : Objects α where
  all := []
  name := none
  valid _ h := by cases h

def get (o : Objects α) (i : ℕ) : Option α := o.all[i]?

/-- A new object gets the name. -/
def create (o : Objects α) (x : α) : Objects α where
  all := o.all ++ [x]
  name := some o.all.length
  valid i h := by
    cases h
    simp

/-- The flag `O_CREAT` or `IPC_CREAT`: an object that exists is opened as it is. -/
def openOrCreate (o : Objects α) (x : α) : Objects α × ℕ :=
  match o.name with
  | some i => (o, i)
  | none => (o.create x, o.all.length)

/-- The name is removed. -/
def unlink (o : Objects α) : Objects α where
  all := o.all
  name := none
  valid _ h := by cases h

/-- The object has a new value. -/
def put (o : Objects α) (i : ℕ) (x : α) : Objects α where
  all := o.all.set i x
  name := o.name
  valid j h := by
    rw [List.length_set]
    exact o.valid j h

def map (f : α → β) (o : Objects α) : Objects β where
  all := o.all.map f
  name := o.name
  valid j h := by
    rw [List.length_map]
    exact o.valid j h

@[simp] theorem name_put : (o.put i x).name = o.name := rfl

@[simp] theorem get_map {f : α → β} : (o.map f).get i = (o.get i).map f :=
  List.getElem?_map

@[simp] theorem length_create : (o.create x).all.length = o.all.length + 1 := by
  simp [create]

theorem lt_of_get (h : o.get i = some x) : i < o.all.length := by
  unfold get at h
  by_contra hi
  rw [List.getElem?_eq_none (Nat.le_of_not_lt hi)] at h
  cases h

theorem exists_get (h : i < o.all.length) : ∃ x, o.get i = some x :=
  ⟨o.all[i], List.getElem?_eq_getElem h⟩

theorem get_create (h : i < o.all.length) : (o.create x).get i = o.get i :=
  List.getElem?_append_left h

@[simp] theorem get_create_new : (o.create x).get o.all.length = some x :=
  List.getElem?_concat_length

theorem get_put (h : o.get i = some y) : (o.put i x).get i = some x :=
  List.getElem?_set_self (lt_of_get h)

theorem get_put_of_ne (h : i ≠ j) : (o.put i x).get j = o.get j :=
  List.getElem?_set_ne h

/-- Without a name, `openOrCreate` makes a new object. -/
theorem openOrCreate_of_none (h : o.name = none) :
    o.openOrCreate x = (o.create x, o.all.length) := by
  rw [openOrCreate, h]

theorem openOrCreate_of_some (h : o.name = some i) : o.openOrCreate x = (o, i) := by
  rw [openOrCreate, h]

/-! ### Who has the present object -/

/-- An object that was opened is the one that the name stands for now. -/
def Current (o : Objects α) (id : Option ℕ) : Prop := ∀ i ∈ id, o.name = some i

namespace Current

variable {id : Option ℕ}

theorem none : o.Current none := by
  intro i h
  cases h

theorem of_name (h : o.name = some i) : o.Current (some i) := by
  intro j hj
  cases hj
  exact h

theorem put (h : o.Current id) : (o.put i x).Current id := h

/-- Two processes with the present object have the same. -/
theorem eq (hi : o.Current (some i)) (hj : o.Current (some j)) : i = j := by
  have hname : o.name = some i := hi i rfl
  rw [hj j rfl] at hname
  exact (Option.some.inj hname).symm

theorem exists_get (h : o.Current (some i)) : ∃ x, o.get i = some x :=
  Objects.exists_get (o.valid i (h i rfl))

/-- An object is only created when nobody has one. -/
theorem openOrCreate (h : o.Current id) : (o.openOrCreate x).1.Current id := by
  cases hname : o.name with
  | some i =>
    rw [openOrCreate_of_some hname]
    exact h
  | none =>
    intro i hi
    rw [h i hi] at hname
    cases hname

theorem opened : (o.openOrCreate x).1.Current (some (o.openOrCreate x).2) := by
  apply of_name
  cases hname : o.name with
  | some i =>
    rw [openOrCreate_of_some hname]
    exact hname
  | none =>
    rw [openOrCreate_of_none hname]
    rfl

end Current

/-- What is in the objects afterwards was there before or is new. -/
theorem get_openOrCreate (h : (o.openOrCreate x).1.get i = some y) : o.get i = some y ∨ y = x := by
  cases hname : o.name with
  | some j =>
    rw [openOrCreate_of_some hname] at h
    exact .inl h
  | none =>
    rw [openOrCreate_of_none hname] at h
    have hlt := lt_of_get h
    rw [length_create] at hlt
    rcases Nat.lt_succ_iff_lt_or_eq.mp hlt with hold | rfl
    · exact .inl ((get_create hold).symm.trans h)
    · rw [get_create_new] at h
      exact .inr (Option.some.inj h).symm

/-! ### From one run to the next -/

/-- What stays when no process has anything open: the object with the name. -/
def left (o : Objects α) : Option α := o.name.bind o.get

/-- Only what was left is there. -/
def ofLeft : Option α → Objects α
  | none => empty
  | some x => empty.create x

@[simp] theorem name_ofLeft_some : (ofLeft (some x)).name = some 0 := rfl

@[simp] theorem get_ofLeft_some : (ofLeft (some x)).get 0 = some x := rfl

@[simp] theorem put_ofLeft : (ofLeft (some x)).put 0 y = ofLeft (some y) := rfl

/-- After `openOrCreate` there is one object, what was left or a new one. -/
@[simp] theorem openOrCreate_ofLeft (l : Option α) :
    (ofLeft l).openOrCreate x = (ofLeft (some (l.getD x)), 0) := by
  cases l with
  | none => rfl
  | some y => rfl

/-! ### What all objects have in common -/

/-- All objects have the property, with the name or without. -/
def All (o : Objects α) (P : α → Prop) : Prop := ∀ x ∈ o.all, P x

namespace All

variable {P Q : α → Prop}

theorem of_get (h : o.All P) (hget : o.get i = some x) : P x :=
  h x (List.mem_of_getElem? hget)

theorem mono (h : o.All P) (hPQ : ∀ x, P x → Q x) : o.All Q :=
  fun x hx => hPQ x (h x hx)

theorem put (h : o.All P) (hx : P x) : (o.put i x).All P := by
  intro y hy
  rcases List.mem_or_eq_of_mem_set hy with hy | rfl
  · exact h y hy
  · exact hx

theorem openOrCreate (h : o.All P) (hx : P x) : (o.openOrCreate x).1.All P := by
  intro y hy
  obtain ⟨i, hi⟩ := List.mem_iff_getElem?.mp hy
  rcases get_openOrCreate hi with hi | rfl
  · exact h.of_get hi
  · exact hx

theorem ofLeft {l : Option α} (h : ∀ x ∈ l, P x) : (ofLeft l).All P := by
  cases l with
  | none => simp [All, Objects.ofLeft, empty]
  | some x => simpa [All, Objects.ofLeft, create, empty] using h

end All

end Objects

end UnixLessons.Processes
