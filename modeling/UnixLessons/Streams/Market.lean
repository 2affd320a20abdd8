import Mathlib.Data.Int.Notation
import UnixLessons.Threads.Mutex
import UnixLessons.Transition.Run

/-!
# The shop simulation

Shoppers buy up shops one after the other, a loader fills the shops up, and each
shop has a mutex that both take with `trylock`, passing by a shop that is taken.
Main starts the threads, waits for the shoppers, cancels the loader and destroys
the mutexes.

`step` is the interleaving of the statements of all threads. A statement that
reads and writes a shared variable is split into the read and the write.
-/

namespace UnixLessons.Streams

open Threads

variable {S N : ℕ}

structure Shop where
  product : ℤ
  id : ℤ
deriving DecidableEq

structure Shopper where
  need : ℤ
  id : ℤ
deriving DecidableEq

/-- The threads that take the mutexes. -/
inductive Thread (N : ℕ) where
  | shopper (j : Fin N)
  | loader
deriving DecidableEq

/-- What a call of `printf` shows. -/
inductive Line where
  | entered (shopper shop product need : ℤ)
  | left (shopper shop need : ℤ)
  | foundEmpty (shopper shop : ℤ)
  | foundBusy (shopper shop : ℤ)
  | unsatisfied (shopper : ℤ)
  | satisfied (shopper : ℤ)
  | loaderEntered (shop product : ℤ)
  | loaderLeft (shop product : ℤ)
  | loaderFoundBusy (shop : ℤ)
  | finished
deriving DecidableEq

/-- The statements of a shopper between `trylock` and `unlock`. -/
inductive Visit where
  | check
  | enter
  | take
  | charge (amount : ℤ)
  | clear
  | leave
  | empty
  | unlock
deriving DecidableEq

inductive ShopperPc (S : ℕ) where
  | test
  | scan (i : ℕ)
  | inside (i : Fin S) (v : Visit)
  | satisfied (i : Fin S)
  | busy (i : Fin S)
  | usleep (i : Fin S)
  | retest
  | unsatisfied
  | sleep
  | farewell
  | done
deriving DecidableEq

/-- The statements of the loader between `trylock` and `unlock`. -/
inductive Delivery where
  | enter
  | read
  | write (product : ℤ)
  | leave
  | unlock
deriving DecidableEq

/-- `cancelled held` is the loader ended by `pthread_cancel`, in the section of
`held` if it was in one. -/
inductive LoaderPc (S : ℕ) where
  | sleep
  | scan (i : ℕ)
  | inside (i : Fin S) (v : Delivery)
  | busy (i : Fin S)
  | usleep (i : Fin S)
  | cancelled (held : Option (Fin S))
deriving DecidableEq

inductive MainPc where
  | create (j : ℕ)
  | createLoader
  | join (j : ℕ)
  | cancel
  | joinLoader
  | finish
  | destroy (i : ℕ)
  | done
deriving DecidableEq

/-- Goods taken out of a shop. -/
structure Sale (S N : ℕ) where
  shopper : Fin N
  shop : Fin S
  amount : ℤ
deriving DecidableEq

/-- The shared variables and the threads. The histories `sales` and `loads` of
goods taken out of and brought into the shops are read by no statement. -/
structure Market (S N : ℕ) where
  shop : Fin S → Shop
  shopper : Fin N → Shopper
  mutex : Fin S → Option (Thread N)
  shopperAt : Fin N → ShopperPc S
  loaderAt : LoaderPc S
  mainAt : MainPc
  cancelRequested : Bool
  out : List Line
  sales : List (Sale S N)
  loads : List (Fin S)

namespace Market

/-! ### Writes to the state -/

def shopperGoto (s : Market S N) (j : Fin N) (pc : ShopperPc S) : Market S N :=
  { s with shopperAt := Function.update s.shopperAt j pc }

def loaderGoto (s : Market S N) (pc : LoaderPc S) : Market S N :=
  { s with loaderAt := pc }

def lock (s : Market S N) (i : Fin S) (t : Thread N) : Market S N :=
  { s with mutex := Function.update s.mutex i (some t) }

def unlock (s : Market S N) (i : Fin S) : Market S N :=
  { s with mutex := Function.update s.mutex i none }

def setProduct (s : Market S N) (i : Fin S) (product : ℤ) : Market S N :=
  { s with shop := Function.update s.shop i { s.shop i with product } }

def setNeed (s : Market S N) (j : Fin N) (need : ℤ) : Market S N :=
  { s with shopper := Function.update s.shopper j { s.shopper j with need } }

def print (s : Market S N) (line : Line) : Market S N :=
  { s with out := s.out ++ [line] }

end Market

open Market

/-- The goods the loader brings to a shop. -/
def delivery : ℤ := 200

/-- The shops and shoppers after `creat_shop` and `creat_shoppers`, with the
random numbers drawn there. -/
def creat (stock : Fin S → ℤ) (need : Fin N → ℤ) : Market S N where
  shop i := ⟨stock i, i + 1⟩
  shopper j := ⟨need j, j + 1⟩
  mutex _ := none
  shopperAt _ := .test
  loaderAt := .sleep
  mainAt := .create 0
  cancelRequested := false
  out := []
  sales := []
  loads := []

/-- Whether main has created the thread of shopper `j`. -/
def MainPc.startedShopper (j : Fin N) : MainPc → Bool
  | .create k => j < k
  | _ => true

/-- Whether main has created the thread of the loader. -/
def MainPc.startedLoader : MainPc → Bool
  | .create _ => false
  | .createLoader => false
  | _ => true

/-- A statement of a shopper inside a shop. -/
def visit (s : Market S N) (j : Fin N) (i : Fin S) : Visit → Market S N
  | .check =>
    s.shopperGoto j (.inside i (if (s.shop i).product > 0 then .enter else .empty))
  | .enter =>
    (s.print (.entered (s.shopper j).id (s.shop i).id (s.shop i).product
      (s.shopper j).need)).shopperGoto j (.inside i .take)
  | .take => s.shopperGoto j (.inside i (.charge (s.shop i).product))
  | .charge amount =>
    (s.setNeed j ((s.shopper j).need - amount)).shopperGoto j (.inside i .clear)
  | .clear =>
    { (s.setProduct i 0).shopperGoto j (.inside i .leave) with
      sales := s.sales ++ [⟨j, i, (s.shop i).product⟩] }
  | .leave =>
    (s.print (.left (s.shopper j).id (s.shop i).id (s.shopper j).need)).shopperGoto
      j (.inside i .unlock)
  | .empty =>
    (s.print (.foundEmpty (s.shopper j).id (s.shop i).id)).shopperGoto j (.inside i .unlock)
  | .unlock => (s.unlock i).shopperGoto j (.satisfied i)

/-- The next statement of shopper `j`. -/
def pthreadShopper (s : Market S N) (j : Fin N) : Option (Market S N) :=
  match s.shopperAt j with
  | .test => some (s.shopperGoto j (if (s.shopper j).need > 0 then .scan 0 else .farewell))
  | .scan i =>
    if h : i < S then
      match s.mutex ⟨i, h⟩ with
      | none => some ((s.lock ⟨i, h⟩ (.shopper j)).shopperGoto j (.inside ⟨i, h⟩ .check))
      | some _ => some (s.shopperGoto j (.busy ⟨i, h⟩))
    else some (s.shopperGoto j .retest)
  | .inside i v => some (visit s j i v)
  | .satisfied i =>
    some (s.shopperGoto j (if (s.shopper j).need ≤ 0 then .retest else .scan (i + 1)))
  | .busy i =>
    some ((s.print (.foundBusy (s.shopper j).id (s.shop i).id)).shopperGoto j (.usleep i))
  | .usleep i => some (s.shopperGoto j (.scan (i + 1)))
  | .retest => some (s.shopperGoto j (if (s.shopper j).need > 0 then .unsatisfied else .test))
  | .unsatisfied => some ((s.print (.unsatisfied (s.shopper j).id)).shopperGoto j .sleep)
  | .sleep => some (s.shopperGoto j .test)
  | .farewell => some ((s.print (.satisfied (s.shopper j).id)).shopperGoto j .done)
  | .done => none

/-- A statement of the loader inside a shop. -/
def deliver (s : Market S N) (i : Fin S) : Delivery → Market S N
  | .enter =>
    (s.print (.loaderEntered (s.shop i).id (s.shop i).product)).loaderGoto (.inside i .read)
  | .read => s.loaderGoto (.inside i (.write (s.shop i).product))
  | .write product =>
    { (s.setProduct i (product + delivery)).loaderGoto (.inside i .leave) with
      loads := s.loads ++ [i] }
  | .leave =>
    (s.print (.loaderLeft (s.shop i).id (s.shop i).product)).loaderGoto (.inside i .unlock)
  | .unlock => (s.unlock i).loaderGoto (.scan (i + 1))

/-- The next statement of the loader. -/
def pthreadLoader (s : Market S N) : Option (Market S N) :=
  match s.loaderAt with
  | .sleep => some (s.loaderGoto (.scan 0))
  | .scan i =>
    if h : i < S then
      match s.mutex ⟨i, h⟩ with
      | none => some ((s.lock ⟨i, h⟩ .loader).loaderGoto (.inside ⟨i, h⟩ .enter))
      | some _ => some (s.loaderGoto (.busy ⟨i, h⟩))
    else some (s.loaderGoto .sleep)
  | .inside i v => some (deliver s i v)
  | .busy i => some ((s.print (.loaderFoundBusy (s.shop i).id)).loaderGoto (.usleep i))
  | .usleep i => some (s.loaderGoto (.scan (i + 1)))
  | .cancelled _ => none

/-- The shop in whose section the loader is, if it is at a cancellation point:
`sleep`, `usleep` or `printf`. -/
def LoaderPc.cancellable : LoaderPc S → Option (Option (Fin S))
  | .sleep => some none
  | .inside i .enter => some (some i)
  | .inside i .leave => some (some i)
  | .busy _ => some none
  | .usleep _ => some none
  | _ => none

/-- The loader acts on a pending cancellation. -/
def cancelLoader (s : Market S N) : Option (Market S N) :=
  if s.cancelRequested then
    (s.loaderAt.cancellable).map fun held => s.loaderGoto (.cancelled held)
  else none

/-- The next statement of main; a join waits for its thread to end. -/
def main (s : Market S N) : Option (Market S N) :=
  match s.mainAt with
  | .create j => some { s with mainAt := if j < N then .create (j + 1) else .createLoader }
  | .createLoader => some { s with mainAt := .join 0 }
  | .join j =>
    if h : j < N then
      if s.shopperAt ⟨j, h⟩ = .done then some { s with mainAt := .join (j + 1) } else none
    else some { s with mainAt := .cancel }
  | .cancel => some { s with mainAt := .joinLoader, cancelRequested := true }
  | .joinLoader =>
    match s.loaderAt with
    | .cancelled _ => some { s with mainAt := .finish }
    | _ => none
  | .finish => some { s.print .finished with mainAt := .destroy 0 }
  | .destroy i => some { s with mainAt := if i < S then .destroy (i + 1) else .done }
  | .done => none

/-- Who moves next. -/
inductive Action (N : ℕ) where
  | main
  | shopper (j : Fin N)
  | loader
  | cancelLoader
deriving DecidableEq

/-- One statement of one thread. -/
def step (s : Market S N) : Action N → Option (Market S N)
  | .main => main s
  | .shopper j => if s.mainAt.startedShopper j then pthreadShopper s j else none
  | .loader => if s.mainAt.startedLoader then pthreadLoader s else none
  | .cancelLoader => cancelLoader s

variable {s t : Market S N} {j : Fin N}

/-- A shopper moves once main has created it. -/
theorem shopper_of_step (h : step s (.shopper j) = some t) :
    s.mainAt.startedShopper j = true ∧ pthreadShopper s j = some t :=
  Option.ite_none_right_eq_some.mp h

theorem loader_of_step (h : step s .loader = some t) :
    s.mainAt.startedLoader = true ∧ pthreadLoader s = some t :=
  Option.ite_none_right_eq_some.mp h

end UnixLessons.Streams
