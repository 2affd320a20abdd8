import UnixLessons.Counter.Tally
import UnixLessons.Streams.Market

/-!
# Goods are conserved in the shop simulation

Each shop keeps a ledger of what was brought in and taken out, each shopper one
of what it took. The ledgers of the shops balance in every state. The ledger of
a shopper balances but for the goods it has paid and not yet taken off the shelf,
and only a shopper inside a shop has such goods. The mutexes keep the product of
a shop still while somebody is in it.

## Main results

* `Sound.preserved`: every statement of every thread keeps the books
* `goods_conserved`: the account of goods in all reachable states
-/

namespace UnixLessons.Streams

open Threads Counter Transition

variable {S N : ℕ} {stock : Fin S → ℤ} {need : Fin N → ℤ} {s t : Market S N}
variable {i : Fin S} {j : Fin N}

/-! ### What a thread knows at its place in the code -/

/-- The shop a shopper is in. -/
def ShopperPc.shop : ShopperPc S → Option (Fin S)
  | .inside i _ => some i
  | _ => none

/-- The shop the loader is in. -/
def LoaderPc.shop : LoaderPc S → Option (Fin S)
  | .inside i _ => some i
  | .cancelled held => held
  | _ => none

def Market.place (s : Market S N) : Thread N → Option (Fin S)
  | .shopper j => (s.shopperAt j).shop
  | .loader => s.loaderAt.shop

/-- What a shopper knows about its need and about the shop it is in. -/
def ShopperPc.Knows (shop : Fin S → Shop) (need : ℤ) : ShopperPc S → Prop
  | .scan _ => 0 < need
  | .busy _ => 0 < need
  | .usleep _ => 0 < need
  | .inside _ .check => 0 < need
  | .inside i .enter => 0 < need ∧ 0 < (shop i).product
  | .inside i .take => 0 < need ∧ 0 < (shop i).product
  | .inside i (.charge amount) => 0 < need ∧ 0 < amount ∧ amount = (shop i).product
  | .farewell => need ≤ 0
  | .done => need ≤ 0
  | _ => True

/-- The goods a shopper has paid but not yet taken off the shelf. -/
def ShopperPc.paid (shop : Fin S → Shop) : ShopperPc S → ℤ
  | .inside i .clear => (shop i).product
  | _ => 0

/-- The loader adds to the product it has read. -/
def LoaderPc.Knows (shop : Fin S → Shop) : LoaderPc S → Prop
  | .inside i (.write product) => product = (shop i).product
  | _ => True

/-- The books of the shops and of the shoppers. -/
structure Sound (stock : Fin S → ℤ) (need : Fin N → ℤ) (s : Market S N) : Prop where
  guards : Guards s.mutex s.place
  knows : ∀ j, (s.shopperAt j).Knows s.shop (s.shopper j).need
  loader : s.loaderAt.Knows s.shop
  nonneg : ∀ i, 0 ≤ (s.shop i).product
  shops : ∀ i, (s.shop i).product + tally Sale.shop Sale.amount s.sales i =
    stock i + tally id (fun _ => delivery) s.loads i
  shoppers : ∀ j, (s.shopper j).need + (s.shopperAt j).paid s.shop +
    tally Sale.shopper Sale.amount s.sales j = need j

/-! ### Frame rules

What a thread knows depends on the product of the shop it is in only.
-/

private theorem ShopperPc.Knows.congr {pc : ShopperPc S} {shop shop' : Fin S → Shop} {n : ℤ}
    (h : pc.Knows shop n) (hsame : ∀ i, pc.shop = some i → shop' i = shop i) :
    pc.Knows shop' n := by
  cases pc with
  | inside i v =>
    have hi := hsame i rfl
    cases v with
    | check => exact h
    | enter => rwa [Knows, hi]
    | take => rwa [Knows, hi]
    | charge amount => rwa [Knows, hi]
    | _ => trivial
  | _ => exact h

private theorem ShopperPc.paid_congr {pc : ShopperPc S} {shop shop' : Fin S → Shop}
    (hsame : ∀ i, pc.shop = some i → shop' i = shop i) : pc.paid shop' = pc.paid shop := by
  cases pc with
  | inside i v =>
    have hi := hsame i rfl
    cases v with
    | clear => rw [paid, paid, hi]
    | _ => rfl
  | _ => rfl

private theorem LoaderPc.Knows.congr {pc : LoaderPc S} {shop shop' : Fin S → Shop}
    (h : pc.Knows shop) (hsame : ∀ i, pc.shop = some i → shop' i = shop i) :
    pc.Knows shop' := by
  cases pc with
  | inside i v =>
    have hi := hsame i rfl
    cases v with
    | write product => rwa [Knows, hi]
    | _ => trivial
  | _ => trivial

private theorem place_shopperGoto (pc : ShopperPc S) :
    (s.shopperGoto j pc).place = Function.update s.place (.shopper j) pc.shop := by
  funext t
  cases t with
  | shopper j' =>
    by_cases hj : j' = j
    · subst hj
      simp [Market.place, Market.shopperGoto]
    · simp [Market.place, Market.shopperGoto, hj]
  | loader => simp [Market.place, Market.shopperGoto]

private theorem place_loaderGoto (pc : LoaderPc S) :
    (s.loaderGoto pc).place = Function.update s.place .loader pc.shop := by
  funext t
  cases t with
  | shopper j' => simp [Market.place, Market.loaderGoto]
  | loader => simp [Market.place, Market.loaderGoto]

/-- A move within a section, or outside of all, changes no mutex. -/
private theorem guards_shopperGoto (h : Guards s.mutex s.place) {old pc : ShopperPc S}
    (hat : s.shopperAt j = old) (hshop : pc.shop = old.shop) :
    Guards s.mutex (s.shopperGoto j pc).place := by
  rw [place_shopperGoto, hshop, ← hat]
  exact (Function.update_eq_self (Thread.shopper j) s.place).symm ▸ h

private theorem guards_loaderGoto (h : Guards s.mutex s.place) {old pc : LoaderPc S}
    (hat : s.loaderAt = old) (hshop : pc.shop = old.shop) :
    Guards s.mutex (s.loaderGoto pc).place := by
  rw [place_loaderGoto, hshop, ← hat]
  exact (Function.update_eq_self Thread.loader s.place).symm ▸ h

namespace Sound

theorem creat (hstock : ∀ i, 0 ≤ stock i) : Sound stock need (creat stock need) where
  guards := by
    have hplace : (Streams.creat stock need).place = fun _ => none := by
      funext t
      cases t <;> rfl
    exact hplace ▸ Guards.free
  knows _ := trivial
  loader := trivial
  nonneg := hstock
  shops i := by simp [Streams.creat]
  shoppers j := by simp [Streams.creat, ShopperPc.paid]

theorem print (h : Sound stock need s) (line : Line) : Sound stock need (s.print line) :=
  ⟨h.guards, h.knows, h.loader, h.nonneg, h.shops, h.shoppers⟩

theorem mainGoto (h : Sound stock need s) (pc : MainPc) :
    Sound stock need { s with mainAt := pc } :=
  ⟨h.guards, h.knows, h.loader, h.nonneg, h.shops, h.shoppers⟩

/-- Moves of a shopper that stay in or out of its shop. -/
theorem shopperGoto (h : Sound stock need s) {old pc : ShopperPc S}
    (hat : s.shopperAt j = old) (hshop : pc.shop = old.shop)
    (hknows : pc.Knows s.shop (s.shopper j).need) (hpaid : pc.paid s.shop = old.paid s.shop) :
    Sound stock need (s.shopperGoto j pc) where
  guards := guards_shopperGoto h.guards hat hshop
  knows j' := by
    by_cases hj : j' = j
    · subst hj
      simpa [Market.shopperGoto] using hknows
    · simpa [Market.shopperGoto, hj] using h.knows j'
  loader := h.loader
  nonneg := h.nonneg
  shops := h.shops
  shoppers j' := by
    by_cases hj : j' = j
    · subst hj hat
      simpa [Market.shopperGoto, hpaid] using h.shoppers j'
    · simpa [Market.shopperGoto, hj] using h.shoppers j'

/-- Messages of a shopper. -/
theorem shopperPrint (h : Sound stock need s) (line : Line) {old pc : ShopperPc S}
    (hat : s.shopperAt j = old) (hshop : pc.shop = old.shop)
    (hknows : pc.Knows s.shop (s.shopper j).need) (hpaid : pc.paid s.shop = old.paid s.shop) :
    Sound stock need ((s.print line).shopperGoto j pc) :=
  (h.print line).shopperGoto hat hshop hknows hpaid

/-- Moves of the loader that stay in or out of its shop. -/
theorem loaderGoto (h : Sound stock need s) {old pc : LoaderPc S}
    (hat : s.loaderAt = old) (hshop : pc.shop = old.shop) (hknows : pc.Knows s.shop) :
    Sound stock need (s.loaderGoto pc) where
  guards := guards_loaderGoto h.guards hat hshop
  knows := h.knows
  loader := hknows
  nonneg := h.nonneg
  shops := h.shops
  shoppers := h.shoppers

/-- Messages of the loader. -/
theorem loaderPrint (h : Sound stock need s) (line : Line) {old pc : LoaderPc S}
    (hat : s.loaderAt = old) (hshop : pc.shop = old.shop) (hknows : pc.Knows s.shop) :
    Sound stock need ((s.print line).loaderGoto pc) :=
  (h.print line).loaderGoto hat hshop hknows

/-! ### Entering and leaving a shop -/

theorem shopperLock (h : Sound stock need s) {k : ℕ} (hat : s.shopperAt j = .scan k)
    (hfree : s.mutex i = none) :
    Sound stock need ((s.lock i (.shopper j)).shopperGoto j (.inside i .check)) where
  guards := by
    have hout : s.place (.shopper j) = none := by
      rw [Market.place, hat]
      rfl
    rw [place_shopperGoto]
    exact h.guards.lock hfree hout
  knows j' := by
    by_cases hj : j' = j
    · subst hj
      have hknows := h.knows j'
      rw [hat] at hknows
      simpa [Market.shopperGoto, Market.lock, ShopperPc.Knows] using hknows
    · simpa [Market.shopperGoto, Market.lock, hj] using h.knows j'
  loader := h.loader
  nonneg := h.nonneg
  shops := h.shops
  shoppers j' := by
    by_cases hj : j' = j
    · subst hj
      simpa [Market.shopperGoto, Market.lock, ShopperPc.paid, hat] using h.shoppers j'
    · simpa [Market.shopperGoto, Market.lock, hj] using h.shoppers j'

theorem shopperUnlock (h : Sound stock need s) (hin : s.shopperAt j = .inside i .unlock) :
    Sound stock need ((s.unlock i).shopperGoto j (.satisfied i)) where
  guards := by
    rw [place_shopperGoto]
    exact h.guards.unlock (by rw [Market.place, hin]; rfl)
  knows j' := by
    by_cases hj : j' = j
    · subst hj
      simp [Market.shopperGoto, ShopperPc.Knows]
    · simpa [Market.shopperGoto, Market.unlock, hj] using h.knows j'
  loader := h.loader
  nonneg := h.nonneg
  shops := h.shops
  shoppers j' := by
    by_cases hj : j' = j
    · subst hj
      simpa [Market.shopperGoto, Market.unlock, ShopperPc.paid, hin] using h.shoppers j'
    · simpa [Market.shopperGoto, Market.unlock, hj] using h.shoppers j'

theorem loaderLock (h : Sound stock need s) {k : ℕ} (hat : s.loaderAt = .scan k)
    (hfree : s.mutex i = none) :
    Sound stock need ((s.lock i .loader).loaderGoto (.inside i .enter)) where
  guards := by
    have hout : s.place .loader = none := by
      rw [Market.place, hat]
      rfl
    rw [place_loaderGoto]
    exact h.guards.lock hfree hout
  knows := h.knows
  loader := trivial
  nonneg := h.nonneg
  shops := h.shops
  shoppers := h.shoppers

theorem loaderUnlock (h : Sound stock need s) (hin : s.loaderAt = .inside i .unlock) (k : ℕ) :
    Sound stock need ((s.unlock i).loaderGoto (.scan k)) where
  guards := by
    rw [place_loaderGoto]
    exact h.guards.unlock (by rw [Market.place, hin]; rfl)
  knows := h.knows
  loader := trivial
  nonneg := h.nonneg
  shops := h.shops
  shoppers := h.shoppers

/-! ### Paying, taking and bringing goods -/

/-- The need goes down by what is still on the shelf. -/
theorem charge (h : Sound stock need s) {amount : ℤ}
    (hin : s.shopperAt j = .inside i (.charge amount)) :
    Sound stock need
      ((s.setNeed j ((s.shopper j).need - amount)).shopperGoto j (.inside i .clear)) where
  guards := guards_shopperGoto h.guards hin rfl
  knows j' := by
    by_cases hj : j' = j
    · subst hj
      simp [Market.shopperGoto, ShopperPc.Knows]
    · simpa [Market.shopperGoto, Market.setNeed, hj] using h.knows j'
  loader := h.loader
  nonneg := h.nonneg
  shops := h.shops
  shoppers j' := by
    by_cases hj : j' = j
    · subst hj
      have hbook := h.shoppers j'
      have hknows := h.knows j'
      simp only [hin, ShopperPc.paid, ShopperPc.Knows] at hbook hknows
      simp only [Market.shopperGoto, Market.setNeed, Function.update_self, ShopperPc.paid]
      omega
    · simpa [Market.shopperGoto, Market.setNeed, hj] using h.shoppers j'

/-- Other threads are not in the shop of a thread that is in one. -/
private theorem place_ne {u v : Thread N} (h : Sound stock need s) (hu : s.place u = some i)
    (hne : v ≠ u) : s.place v ≠ some i :=
  fun hv => hne (h.guards.unique hv hu)

/-- The product of a shop is changed by the thread in it, so the others know what
they knew. -/
private theorem setProduct_of_ne {i' : Fin S} (product : ℤ) (hi : i' ≠ i) :
    (s.setProduct i product).shop i' = s.shop i' :=
  Function.update_of_ne hi _ _

/-- The goods paid leave the shelf. -/
theorem clear (h : Sound stock need s) (hin : s.shopperAt j = .inside i .clear) :
    Sound stock need { (s.setProduct i 0).shopperGoto j (.inside i .leave) with
      sales := s.sales ++ [⟨j, i, (s.shop i).product⟩] } := by
  have hplace : s.place (.shopper j) = some i := by
    rw [Market.place, hin]
    rfl
  have hframe : ∀ v, v ≠ Thread.shopper j → ∀ i', s.place v = some i' →
      (s.setProduct i 0).shop i' = s.shop i' := by
    intro v hv i' hi'
    refine setProduct_of_ne 0 ?_
    rintro rfl
    exact place_ne h hplace hv hi'
  refine ⟨?_, ?_, ?_, ?_, ?_, ?_⟩
  · exact guards_shopperGoto h.guards hin rfl
  · intro j'
    by_cases hj : j' = j
    · subst hj
      simp [Market.shopperGoto, ShopperPc.Knows]
    · have hknows := (h.knows j').congr (hframe (.shopper j') (by simpa using hj))
      simpa [Market.shopperGoto, Market.setProduct, hj] using hknows
  · exact h.loader.congr (hframe .loader (by simp))
  · intro i'
    by_cases hi : i' = i
    · subst hi
      simp [Market.shopperGoto, Market.setProduct]
    · simpa [Market.shopperGoto, Market.setProduct, hi] using h.nonneg i'
  · intro i'
    have hbook := h.shops i'
    by_cases hi : i' = i
    · subst hi
      simp only [Market.shopperGoto, Market.setProduct, Function.update_self, tally_append]
      rw [if_pos trivial]
      omega
    · simpa [Market.shopperGoto, Market.setProduct, hi, tally_append, Ne.symm hi] using hbook
  · intro j'
    have hbook := h.shoppers j'
    by_cases hj : j' = j
    · subst hj
      simp only [hin, ShopperPc.paid] at hbook
      simp only [Market.shopperGoto, Market.setProduct, Function.update_self, tally_append,
        ShopperPc.paid]
      rw [if_pos trivial]
      omega
    · have hpaid := ShopperPc.paid_congr (hframe (.shopper j') (by simpa using hj))
      simpa [Market.shopperGoto, Market.setProduct, hj, tally_append, Ne.symm hj, ← hpaid]
        using hbook

/-- The loader fills a shop up. -/
theorem load (h : Sound stock need s) {product : ℤ}
    (hin : s.loaderAt = .inside i (.write product)) :
    Sound stock need { (s.setProduct i (product + delivery)).loaderGoto (.inside i .leave) with
      loads := s.loads ++ [i] } := by
  have hplace : s.place .loader = some i := by
    rw [Market.place, hin]
    rfl
  have hread : product = (s.shop i).product := by
    have := h.loader
    rwa [hin] at this
  have hframe : ∀ j i', (s.shopperAt j).shop = some i' →
      (s.setProduct i (product + delivery)).shop i' = s.shop i' := by
    intro j i' hi'
    refine setProduct_of_ne _ ?_
    rintro rfl
    exact @place_ne _ _ _ _ _ _ _ (.shopper j) h hplace (by simp) hi'
  refine ⟨?_, ?_, trivial, ?_, ?_, ?_⟩
  · exact guards_loaderGoto h.guards hin rfl
  · exact fun j => (h.knows j).congr (hframe j)
  · intro i'
    have hnonneg := h.nonneg i'
    by_cases hi : i' = i
    · subst hi
      simp only [Market.loaderGoto, Market.setProduct, Function.update_self, delivery]
      omega
    · simpa [Market.loaderGoto, Market.setProduct, hi] using hnonneg
  · intro i'
    have hbook := h.shops i'
    by_cases hi : i' = i
    · subst hi
      simp only [Market.loaderGoto, Market.setProduct, Function.update_self, tally_append, id]
      rw [if_pos trivial]
      omega
    · simpa [Market.loaderGoto, Market.setProduct, hi, tally_append, Ne.symm hi] using hbook
  · intro j
    have hbook := h.shoppers j
    rw [← ShopperPc.paid_congr (hframe j)] at hbook
    exact hbook

/-! ### Every statement of every thread -/

private theorem visit {v : Visit} (h : Sound stock need s) (hin : s.shopperAt j = .inside i v) :
    Sound stock need (visit s j i v) := by
  have hknows := h.knows j
  rw [hin] at hknows
  cases v with
  | check =>
    rw [Streams.visit]
    split
    · rename_i hproduct
      exact h.shopperGoto hin rfl ⟨hknows, hproduct⟩ rfl
    · exact h.shopperGoto hin rfl trivial rfl
  | enter => exact h.shopperPrint _ hin rfl hknows rfl
  | take => exact h.shopperGoto hin rfl ⟨hknows.1, hknows.2, rfl⟩ rfl
  | charge amount => exact h.charge hin
  | clear => exact h.clear hin
  | leave => exact h.shopperPrint _ hin rfl trivial rfl
  | empty => exact h.shopperPrint _ hin rfl trivial rfl
  | unlock => exact h.shopperUnlock hin

private theorem pthreadShopper (h : Sound stock need s) (hstep : pthreadShopper s j = some t) :
    Sound stock need t := by
  have hknows := h.knows j
  unfold Streams.pthreadShopper at hstep
  cases hpc : s.shopperAt j with
  | test =>
    simp only [hpc, Option.some_inj] at hstep
    subst hstep
    split
    · rename_i hneed
      exact h.shopperGoto hpc rfl hneed rfl
    · rename_i hneed
      exact h.shopperGoto hpc rfl (not_lt.mp hneed) rfl
  | scan k =>
    rw [hpc] at hknows
    simp only [hpc] at hstep
    split at hstep
    · split at hstep <;> obtain rfl := Option.some.inj hstep
      · rename_i hfree
        exact h.shopperLock hpc hfree
      · exact h.shopperGoto hpc rfl hknows rfl
    · obtain rfl := Option.some.inj hstep
      exact h.shopperGoto hpc rfl trivial rfl
  | inside i v =>
    simp only [hpc, Option.some_inj] at hstep
    exact hstep ▸ h.visit hpc
  | satisfied i =>
    simp only [hpc, Option.some_inj] at hstep
    subst hstep
    split
    · exact h.shopperGoto hpc rfl trivial rfl
    · rename_i hneed
      exact h.shopperGoto hpc rfl (not_le.mp hneed) rfl
  | busy i =>
    rw [hpc] at hknows
    simp only [hpc, Option.some_inj] at hstep
    subst hstep
    exact h.shopperPrint _ hpc rfl hknows rfl
  | usleep i =>
    rw [hpc] at hknows
    simp only [hpc, Option.some_inj] at hstep
    subst hstep
    exact h.shopperGoto hpc rfl hknows rfl
  | retest =>
    simp only [hpc, Option.some_inj] at hstep
    subst hstep
    split
    · exact h.shopperGoto hpc rfl trivial rfl
    · exact h.shopperGoto hpc rfl trivial rfl
  | unsatisfied =>
    simp only [hpc, Option.some_inj] at hstep
    subst hstep
    exact h.shopperPrint _ hpc rfl trivial rfl
  | sleep =>
    simp only [hpc, Option.some_inj] at hstep
    subst hstep
    exact h.shopperGoto hpc rfl trivial rfl
  | farewell =>
    rw [hpc] at hknows
    simp only [hpc, Option.some_inj] at hstep
    subst hstep
    exact h.shopperPrint _ hpc rfl hknows rfl
  | done => simp [hpc] at hstep

private theorem pthreadLoader (h : Sound stock need s) (hstep : pthreadLoader s = some t) :
    Sound stock need t := by
  unfold Streams.pthreadLoader at hstep
  cases hpc : s.loaderAt with
  | sleep =>
    simp only [hpc, Option.some_inj] at hstep
    subst hstep
    exact h.loaderGoto hpc rfl trivial
  | scan k =>
    simp only [hpc] at hstep
    split at hstep
    · split at hstep <;> obtain rfl := Option.some.inj hstep
      · rename_i hfree
        exact h.loaderLock hpc hfree
      · exact h.loaderGoto hpc rfl trivial
    · obtain rfl := Option.some.inj hstep
      exact h.loaderGoto hpc rfl trivial
  | inside i v =>
    simp only [hpc, Option.some_inj] at hstep
    subst hstep
    cases v with
    | enter => exact h.loaderPrint _ hpc rfl trivial
    | read => exact h.loaderGoto hpc rfl rfl
    | write product => exact h.load hpc
    | leave => exact h.loaderPrint _ hpc rfl trivial
    | unlock => exact h.loaderUnlock hpc _
  | busy i =>
    simp only [hpc, Option.some_inj] at hstep
    subst hstep
    exact h.loaderPrint _ hpc rfl trivial
  | usleep i =>
    simp only [hpc, Option.some_inj] at hstep
    subst hstep
    exact h.loaderGoto hpc rfl trivial
  | cancelled held => simp [hpc] at hstep

/-- A cancelled loader stays in the section it was in. -/
private theorem cancelLoader (h : Sound stock need s) (hstep : cancelLoader s = some t) :
    Sound stock need t := by
  have hheld : ∀ pc : LoaderPc S, ∀ held, pc.cancellable = some held → pc.shop = held := by
    intro pc held
    unfold LoaderPc.cancellable
    split <;> simp [LoaderPc.shop]
  unfold Streams.cancelLoader at hstep
  split at hstep
  · obtain ⟨held, hcancel, rfl⟩ := Option.map_eq_some_iff.mp hstep
    exact h.loaderGoto rfl (hheld _ _ hcancel).symm trivial
  · cases hstep

private theorem main (h : Sound stock need s) (hstep : main s = some t) :
    Sound stock need t := by
  unfold Streams.main at hstep
  split at hstep
  · exact Option.some.inj hstep ▸ h.mainGoto _
  · exact Option.some.inj hstep ▸ h.mainGoto _
  · split_ifs at hstep
    · exact Option.some.inj hstep ▸ h.mainGoto _
    · exact Option.some.inj hstep ▸ h.mainGoto _
  · obtain rfl := Option.some.inj hstep
    exact ⟨h.guards, h.knows, h.loader, h.nonneg, h.shops, h.shoppers⟩
  · split at hstep
    · exact Option.some.inj hstep ▸ h.mainGoto _
    · cases hstep
  · exact Option.some.inj hstep ▸ (h.print _).mainGoto _
  · exact Option.some.inj hstep ▸ h.mainGoto _
  · cases hstep

/-- Every statement of every thread keeps the books. -/
theorem preserved : Preserved step (Sound stock need) := by
  intro s a t h hstep
  cases a with
  | main => exact h.main hstep
  | shopper j =>
    obtain ⟨-, hstep⟩ := shopper_of_step hstep
    exact h.pthreadShopper hstep
  | loader =>
    obtain ⟨-, hstep⟩ := loader_of_step hstep
    exact h.pthreadLoader hstep
  | cancelLoader => exact h.cancelLoader hstep

theorem reachable (hstock : ∀ i, 0 ≤ stock i)
    (hs : Reachable step (· = Streams.creat stock need) s) : Sound stock need s :=
  preserved.reachable (fun _ h₀ => by subst h₀; exact creat hstock) hs

end Sound

/-! ### The account of goods -/

/-- No thread is inside a critical section. -/
def Quiet (s : Market S N) : Prop :=
  (∀ j i v, s.shopperAt j ≠ .inside i v) ∧ ∀ i v, s.loaderAt ≠ .inside i v

private theorem shopper_main (hstep : main s = some t) : t.shopper = s.shopper := by
  unfold main at hstep
  split at hstep
  · exact Option.some.inj hstep ▸ rfl
  · exact Option.some.inj hstep ▸ rfl
  · split_ifs at hstep
    · exact Option.some.inj hstep ▸ rfl
    · exact Option.some.inj hstep ▸ rfl
  · exact Option.some.inj hstep ▸ rfl
  · split at hstep
    · exact Option.some.inj hstep ▸ rfl
    · cases hstep
  · exact Option.some.inj hstep ▸ rfl
  · exact Option.some.inj hstep ▸ rfl
  · cases hstep

private theorem shopper_pthreadLoader (hstep : pthreadLoader s = some t) :
    t.shopper = s.shopper := by
  unfold pthreadLoader at hstep
  split at hstep
  · exact Option.some.inj hstep ▸ rfl
  · split at hstep
    · split at hstep
      · exact Option.some.inj hstep ▸ rfl
      · exact Option.some.inj hstep ▸ rfl
    · exact Option.some.inj hstep ▸ rfl
  · obtain rfl := Option.some.inj hstep
    rename_i v _
    cases v <;> rfl
  · exact Option.some.inj hstep ▸ rfl
  · exact Option.some.inj hstep ▸ rfl
  · cases hstep

private theorem shopper_cancelLoader (hstep : cancelLoader s = some t) :
    t.shopper = s.shopper := by
  unfold cancelLoader at hstep
  split at hstep
  · obtain ⟨held, -, rfl⟩ := Option.map_eq_some_iff.mp hstep
    rfl
  · cases hstep

private theorem shopper_pthreadShopper (hstep : pthreadShopper s j = some t) :
    t.shopper = s.shopper ∨ ∃ i amount, s.shopperAt j = .inside i (.charge amount) ∧
      t.shopper = (s.setNeed j ((s.shopper j).need - amount)).shopper := by
  unfold pthreadShopper at hstep
  cases hpc : s.shopperAt j with
  | inside i v =>
    simp only [hpc, Option.some_inj] at hstep
    subst hstep
    cases v with
    | charge amount => exact Or.inr ⟨i, amount, rfl, rfl⟩
    | _ => exact Or.inl rfl
  | scan k =>
    simp only [hpc] at hstep
    split at hstep
    · split at hstep
      · exact Or.inl (Option.some.inj hstep ▸ rfl)
      · exact Or.inl (Option.some.inj hstep ▸ rfl)
    · exact Or.inl (Option.some.inj hstep ▸ rfl)
  | done => simp [hpc] at hstep
  | _ =>
    simp only [hpc, Option.some_inj] at hstep
    exact Or.inl (hstep ▸ rfl)

/-- The need of a shopper changes only when the shopper pays for goods. -/
theorem need_of_step {a : Action N} (hstep : step s a = some t)
    (hneed : (t.shopper j).need ≠ (s.shopper j).need) :
    ∃ i amount, s.shopperAt j = .inside i (.charge amount) ∧
      (t.shopper j).need = (s.shopper j).need - amount := by
  have hother : t.shopper ≠ s.shopper := fun heq => hneed (by rw [heq])
  cases a with
  | main => exact (hother (shopper_main hstep)).elim
  | loader =>
    obtain ⟨-, hstep⟩ := loader_of_step hstep
    exact (hother (shopper_pthreadLoader hstep)).elim
  | cancelLoader => exact (hother (shopper_cancelLoader hstep)).elim
  | shopper j' =>
    obtain ⟨-, hstep⟩ := shopper_of_step hstep
    rcases shopper_pthreadShopper hstep with heq | ⟨i, amount, hpc, heq⟩
    · exact (hother heq).elim
    · by_cases hj : j = j'
      · subst hj
        exact ⟨i, amount, hpc, by rw [heq]; simp [Market.setNeed]⟩
      · refine (hneed ?_).elim
        rw [heq]
        simp [Market.setNeed, hj]

private theorem Quiet.paid (h : Quiet s) (j : Fin N) : (s.shopperAt j).paid s.shop = 0 := by
  have hout := h.1 j
  cases hpc : s.shopperAt j with
  | inside i v => exact (hout i v hpc).elim
  | _ => rfl

/-- **Goods are conserved.** In every reachable state of every interleaving no
product is negative; while no thread is inside a critical section what the
shoppers have got and what is left in the shops is what was there and what was
brought in, shop by shop and shopper by shopper as well as in total; a need goes
down only while it is positive; and a shopper is done only when satisfied. -/
theorem goods_conserved (hstock : ∀ i, 0 ≤ stock i)
    (hs : Reachable step (· = creat stock need) s) :
    (∀ i, 0 ≤ (s.shop i).product) ∧
    (Quiet s →
      ∑ i, (s.shop i).product + ∑ j, (need j - (s.shopper j).need) =
        ∑ i, stock i + 200 * s.loads.length ∧
      (∀ i, (s.shop i).product =
        stock i + tally id (fun _ => 200) s.loads i - tally Sale.shop Sale.amount s.sales i) ∧
      ∀ j, need j - (s.shopper j).need = tally Sale.shopper Sale.amount s.sales j) ∧
    (∀ a t, step s a = some t → ∀ j, (t.shopper j).need ≠ (s.shopper j).need →
      0 < (s.shopper j).need ∧ (t.shopper j).need < (s.shopper j).need) ∧
    ∀ j, s.shopperAt j = .done → (s.shopper j).need ≤ 0 := by
  have hsound := Sound.reachable hstock hs
  refine ⟨hsound.nonneg, fun hquiet => ?_, fun a t hstep j hneed => ?_, fun j hdone => ?_⟩
  · have hshops : ∀ i, (s.shop i).product =
        stock i + tally id (fun _ => 200) s.loads i - tally Sale.shop Sale.amount s.sales i := by
      intro i
      have hbook := hsound.shops i
      simp only [delivery] at hbook
      omega
    have hshoppers : ∀ j, need j - (s.shopper j).need =
        tally Sale.shopper Sale.amount s.sales j := by
      intro j
      have hbook := hsound.shoppers j
      rw [hquiet.paid] at hbook
      omega
    refine ⟨?_, hshops, hshoppers⟩
    calc ∑ i, (s.shop i).product + ∑ j, (need j - (s.shopper j).need)
      _ = ∑ i, stock i + (s.loads.map fun _ => (200 : ℤ)).sum - (s.sales.map Sale.amount).sum +
          (s.sales.map Sale.amount).sum := by
        simp only [hshops, hshoppers, Finset.sum_sub_distrib, Finset.sum_add_distrib, sum_tally]
      _ = ∑ i, stock i + 200 * s.loads.length := by
        rw [sub_add_cancel, sum_map_const]
  · obtain ⟨i, amount, hpc, heq⟩ := need_of_step hstep hneed
    have hknows := hsound.knows j
    rw [hpc] at hknows
    obtain ⟨hpos, hamount, -⟩ := hknows
    exact ⟨hpos, by omega⟩
  · have hknows := hsound.knows j
    rwa [hdone] at hknows

/-- Two shops and two shoppers. The first shopper buys up the first shop and the loader comes
in to fill it up, so the second shopper passes by and buys up the second shop. -/
def twoSales : List (Action 2) :=
  List.replicate 4 .main ++ List.replicate 9 (.shopper ⟨0, by decide⟩) ++
    List.replicate 3 .loader ++ List.replicate 12 (.shopper ⟨1, by decide⟩) ++
    List.replicate 4 .loader

theorem goods_conserved_twoSales :
    ∃ s, run step (creat (fun _ : Fin 2 => 1000) fun _ => 9100) twoSales = some s ∧
      s.sales = [⟨0, 0, 1000⟩, ⟨1, 1, 1000⟩] ∧ s.loads = [0] ∧
      ∑ i, (s.shop i).product + ∑ j, (9100 - (s.shopper j).need) =
        ∑ _i : Fin 2, 1000 + 200 * s.loads.length := by
  have hend : (run step (creat (fun _ : Fin 2 => 1000) fun _ => 9100) twoSales).map
      (fun s => (s.sales, s.loads, s.shopperAt 0, s.shopperAt 1, s.loaderAt)) =
      some ([⟨0, 0, 1000⟩, ⟨1, 1, 1000⟩], [0], .satisfied 0, .satisfied 1, .scan 1) := by rfl
  obtain ⟨s, hrun, hat⟩ := Option.map_eq_some_iff.mp hend
  simp only [Prod.mk.injEq] at hat
  obtain ⟨hsales, hloads, hfirst, hsecond, hloader⟩ := hat
  have hstock : ∀ i : Fin 2, (0 : ℤ) ≤ (fun _ => 1000) i := by decide
  have hquiet : Quiet s := by
    refine ⟨Fin.forall_fin_two.mpr ⟨?_, ?_⟩, ?_⟩
    · simp [hfirst]
    · simp [hsecond]
    · simp [hloader]
  exact ⟨s, hrun, hsales, hloads, ((goods_conserved hstock (Reachable.of_run rfl hrun)).2.1
    hquiet).1⟩

end UnixLessons.Streams
