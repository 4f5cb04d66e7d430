import B3Coin.FlowMesh.Clearing
import B3Coin.FlowMesh.LedgerSpec

/-!
# What a settlement moves

Matching pays every seller for what it delivered and every buyer what it bought,
whatever the order of the pairwise fills: the changes depend on the fills of each
account alone. Fees only move available funds. No step fails when the fills are
backed by reservations and the totals stay in the monetary range.
-/
namespace B3Coin.FlowMesh

open Ledger List Book

/-- What the fills assign to one account. -/
def amountOf (fills : List (AccountId × Int)) (x : AccountId) : Int :=
  (fills.map fun e => if e.1 = x then e.2 else 0).sum

/-- The fills of every account, valued in one asset. -/
def spread (asset : AssetId) (price : Int) (fills : List (AccountId × Int)) :
    AccountId → AssetId → Int :=
  fun x s => if s = asset then amountOf fills x * price else 0

@[simp] theorem amountOf_nil (x : AccountId) : amountOf [] x = 0 := rfl

theorem amountOf_cons (e : AccountId × Int) (fills : List (AccountId × Int)) (x : AccountId) :
    amountOf (e :: fills) x = (if e.1 = x then e.2 else 0) + amountOf fills x := rfl

variable {fills : List (AccountId × Int)}

theorem amountOf_nonneg (h : ∀ e ∈ fills, 0 ≤ e.2) (x : AccountId) : 0 ≤ amountOf fills x := by
  refine sum_nonneg fun y hy => ?_
  obtain ⟨e, he, rfl⟩ := mem_map.mp hy
  split_ifs
  · exact h e he
  · exact le_refl 0

theorem amountOf_eq_zero (h : ∀ e ∈ fills, 0 ≤ e.2)
    (hsum : (fills.map (·.2)).sum = 0) (x : AccountId) : amountOf fills x = 0 := by
  induction fills with
  | nil => rfl
  | cons e rest ih =>
    have he := h e (by simp)
    have hrest : 0 ≤ (rest.map (·.2)).sum := by
      refine sum_nonneg fun y hy => ?_
      obtain ⟨r, hr, rfl⟩ := mem_map.mp hy
      exact h r (by simp [hr])
    simp only [map_cons, sum_cons] at hsum
    have hz : e.2 = 0 := by omega
    rw [amountOf_cons, ih (fun r hr => h r (by simp [hr])) (by omega), hz]
    simp

theorem amountOf_of_mem (hnd : (fills.map (·.1)).Nodup)
    {e : AccountId × Int} (he : e ∈ fills) : amountOf fills e.1 = e.2 := by
  induction fills with
  | nil => simp at he
  | cons f rest ih =>
    obtain ⟨hf, hrest⟩ := nodup_cons.mp hnd
    rw [amountOf_cons]
    rcases mem_cons.mp he with rfl | he
    · have hnot : amountOf rest e.1 = 0 := by
        refine sum_eq_zero fun y hy => ?_
        obtain ⟨r, hr, rfl⟩ := mem_map.mp hy
        rw [if_neg]
        intro heq
        exact hf (mem_map.mpr ⟨r, hr, heq⟩)
      rw [hnot]
      simp
    · have hne : f.1 ≠ e.1 := fun heq => hf (mem_map.mpr ⟨e, he, heq.symm⟩)
      rw [ih hrest he, if_neg hne, zero_add]

theorem amountOf_of_not_mem {x : AccountId} (h : ∀ e ∈ fills, e.1 ≠ x) : amountOf fills x = 0 := by
  refine sum_eq_zero fun y hy => ?_
  obtain ⟨r, hr, rfl⟩ := mem_map.mp hy
  exact if_neg (h r hr)

theorem spread_eq_zero (h : ∀ x, amountOf fills x = 0)
    (asset : AssetId) (price : Int) : spread asset price fills = 0 := by
  funext x s
  simp [spread, h]

theorem spread_cons (asset : AssetId) (price : Int) (e : AccountId × Int)
    (fills : List (AccountId × Int)) : spread asset price (e :: fills) =
      delta e.1 asset (e.2 * price) + spread asset price fills := by
  funext x s
  simp only [spread, delta, amountOf_cons, Pi.add_apply]
  by_cases hs : s = asset <;> by_cases hx : e.1 = x
  · simp [hs, hx, add_mul]
  · simp [hx, Ne.symm hx]
  · simp [hs]
  · simp [hs]

/-! ## One fill -/

section Fill

variable {b : Book} {l : Ledger} {price : Int}

/-- What matching needs of the ledger: no negative balance, totals in range. -/
structure Sound (b : Book) (l : Ledger) : Prop where
  nonneg : l.Nonneg
  quoteCap : l.held b.quote ≤ MAX_MONEY
  baseCap : l.held b.base ≤ MAX_MONEY

theorem Sound.of_moved {l' : Ledger} {dA dR : AccountId → AssetId → Int} (h : Sound b l)
    (hm : Moved l l' dA dR) (hA : ∀ a s, 0 ≤ l.available a s + dA a s)
    (hR : ∀ a s, 0 ≤ l.reserved a s + dR a s) : Sound b l' where
  nonneg a s := ⟨by rw [hm.available]; exact hA a s, by rw [hm.reserved]; exact hR a s⟩
  quoteCap := by simpa [hm.held] using h.quoteCap
  baseCap := by simpa [hm.held] using h.baseCap

theorem settleFill_ok (bid ask : AccountId) (hs : Sound b l) (hp : 0 ≤ price) {fill : Int}
    (hf : 0 < fill) (hb : fill * price ≤ l.reserved bid b.quote)
    (ha : fill ≤ l.reserved ask b.base) :
    ∃ l', b.settleFill l price bid ask fill = some l' ∧ Sound b l' ∧
      Moved l l' (delta ask b.quote (fill * price) + delta bid b.base fill)
        (delta bid b.quote (-(fill * price)) + delta ask b.base (-fill)) := by
  have hcost : 0 ≤ fill * price := mul_nonneg hf.le hp
  have hle := hs.nonneg.le_held bid b.quote
  have hnn := (hs.nonneg bid b.quote).1
  have hquote : FlowMesh.quote fill price = some (fill * price) :=
    quote_of_le hf.le hp (by have := hs.quoteCap; omega)
  -- the paying leg, which is skipped at a zero quote
  obtain ⟨paid, hpaid, hmoved⟩ : ∃ paid,
      (if fill * price > 0 then l.moveReservedToAvailable bid ask b.quote (fill * price)
        else some l) = some paid ∧
      Moved l paid (delta ask b.quote (fill * price)) (delta bid b.quote (-(fill * price))) := by
    by_cases hz : fill * price > 0
    · obtain ⟨paid, hpaid⟩ := moveReservedToAvailable_of_le bid ask hs.nonneg hs.quoteCap hz hb
      exact ⟨paid, by rw [if_pos hz, hpaid], (moveReservedToAvailable_some hpaid).2.2⟩
    · have hzero : fill * price = 0 := by omega
      refine ⟨l, by rw [if_neg hz], (Moved.refl l).congr ?_ ?_ rfl⟩
      · rw [hzero, delta_zero]
      · rw [hzero, neg_zero, delta_zero]
  have hsound : Sound b paid := by
    refine hs.of_moved hmoved (fun a s => ?_) (fun a s => ?_)
    · have := (hs.nonneg a s).1
      unfold delta
      split_ifs <;> omega
    · have := (hs.nonneg a s).2
      unfold delta
      split_ifs with h
      · obtain ⟨rfl, rfl⟩ := h
        omega
      · omega
  -- the delivery leg touches the other asset
  have hdeliver : fill ≤ paid.reserved ask b.base := by
    rw [hmoved.reserved, delta, if_neg (fun h => b.distinct h.2), add_zero]
    exact ha
  obtain ⟨l', hl'⟩ := moveReservedToAvailable_of_le ask bid hsound.nonneg hsound.baseCap hf
    hdeliver
  have hmoved' := (moveReservedToAvailable_some hl').2.2
  refine ⟨l', by simp [settleFill, hquote, hpaid, hl'], ?_,
    (hmoved.trans hmoved').congr rfl rfl (add_zero 0)⟩
  refine hsound.of_moved hmoved' (fun a s => ?_) (fun a s => ?_)
  · have := (hsound.nonneg a s).1
    unfold delta
    split_ifs <;> omega
  · have := (hsound.nonneg a s).2
    unfold delta
    split_ifs with h
    · obtain ⟨rfl, rfl⟩ := h
      omega
    · omega

end Fill

/-! ## The matching loop -/

/-- The fills still to match, backed by what the ledger has reserved. -/
structure Backed (b : Book) (price : Int) (bids asks : List (AccountId × Int)) (l : Ledger) :
    Prop where
  sound : Sound b l
  bidNonneg : ∀ e ∈ bids, 0 ≤ e.2
  askNonneg : ∀ e ∈ asks, 0 ≤ e.2
  bidBacked : ∀ x, amountOf bids x * price ≤ l.reserved x b.quote
  askBacked : ∀ x, amountOf asks x ≤ l.reserved x b.base
  balanced : (bids.map (·.2)).sum = (asks.map (·.2)).sum

/-- One turn of the loop on two open fills keeps the rest backed. -/
theorem Backed.settleHead {b : Book} {price : Int} (hp : 0 ≤ price) {bid ask : AccountId}
    {bRem aRem : Int} {bids asks : List (AccountId × Int)} {l : Ledger}
    (h : Backed b price ((bid, bRem) :: bids) ((ask, aRem) :: asks) l) (hb : bRem ≠ 0)
    (ha : aRem ≠ 0) : ∃ l', b.settleFill l price bid ask (min bRem aRem) = some l' ∧
      Backed b price ((bid, bRem - min bRem aRem) :: bids) ((ask, aRem - min bRem aRem) :: asks) l' ∧
      Moved l l' (delta ask b.quote (min bRem aRem * price) + delta bid b.base (min bRem aRem))
        (delta bid b.quote (-(min bRem aRem * price)) + delta ask b.base (-min bRem aRem)) := by
  have hb0 : 0 ≤ bRem := h.bidNonneg (bid, bRem) (by simp)
  have ha0 : 0 ≤ aRem := h.askNonneg (ask, aRem) (by simp)
  have hbids : ∀ e ∈ bids, 0 ≤ e.2 := fun e he => h.bidNonneg e (by simp [he])
  have hasks : ∀ e ∈ asks, 0 ≤ e.2 := fun e he => h.askNonneg e (by simp [he])
  generalize hfill : min bRem aRem = fill
  have hf : 0 < fill ∧ fill ≤ bRem ∧ fill ≤ aRem := by omega
  have hbid := h.bidBacked bid
  have hask := h.askBacked ask
  rw [amountOf_cons, if_pos rfl] at hbid hask
  have hb1 : 0 ≤ amountOf bids bid := amountOf_nonneg hbids bid
  have ha1 : 0 ≤ amountOf asks ask := amountOf_nonneg hasks ask
  obtain ⟨l', hl', hs, hm⟩ := settleFill_ok bid ask h.sound hp hf.1
    (by nlinarith) (by simp only at hask; omega)
  refine ⟨l', hl', ⟨hs, ?_, ?_, fun x => ?_, fun x => ?_, ?_⟩, hm⟩
  · intro e he
    rcases mem_cons.mp he with rfl | he
    · exact sub_nonneg.mpr hf.2.1
    · exact hbids e he
  · intro e he
    rcases mem_cons.mp he with rfl | he
    · exact sub_nonneg.mpr hf.2.2
    · exact hasks e he
  · have := h.bidBacked x
    rw [amountOf_cons] at this ⊢
    simp only [hm.reserved, Pi.add_apply, delta, b.distinct.symm, and_false, if_false, and_true]
    by_cases hx : bid = x
    · simp only [hx, if_true] at this ⊢
      nlinarith
    · simp only [hx, Ne.symm hx, if_false] at this ⊢
      omega
  · have := h.askBacked x
    rw [amountOf_cons] at this ⊢
    simp only [hm.reserved, Pi.add_apply, delta, b.distinct, and_false, if_false, and_true]
    by_cases hx : ask = x
    · simp only [hx, if_true] at this ⊢
      omega
    · simp only [hx, Ne.symm hx, if_false] at this ⊢
      omega
  · have := h.balanced
    simp only [map_cons, sum_cons] at this ⊢
    omega

/-- The whole loop: it succeeds, and its effect is the sum of the fills of each account. -/
theorem matchFills_ok {b : Book} {price : Int} (hp : 0 ≤ price) (bids asks : List (AccountId × Int))
    (l : Ledger) (h : Backed b price bids asks l) :
    ∃ l', b.matchFills price bids asks l = some l' ∧ Sound b l' ∧
      Moved l l' (spread b.quote price asks + spread b.base 1 bids)
        (-spread b.quote price bids - spread b.base 1 asks) := by
  induction bids, asks, l using matchFills.induct b price with
  | case1 asks l =>
    have hz := amountOf_eq_zero h.askNonneg (by simpa using h.balanced.symm)
    refine ⟨l, by rw [matchFills], h.sound, (Moved.refl l).congr ?_ ?_ rfl⟩
    · rw [spread_eq_zero hz, spread_eq_zero amountOf_nil, add_zero]
    · rw [spread_eq_zero hz, spread_eq_zero amountOf_nil, neg_zero, sub_zero]
  | case2 e bids l =>
    have hz := amountOf_eq_zero h.bidNonneg (by simpa using h.balanced)
    refine ⟨l, by rw [matchFills], h.sound, (Moved.refl l).congr ?_ ?_ rfl⟩
    · rw [spread_eq_zero hz, spread_eq_zero amountOf_nil, add_zero]
    · rw [spread_eq_zero hz, spread_eq_zero amountOf_nil, neg_zero, sub_zero]
  | case3 bid bids ask aRem asks l ih =>
    have hsame : ∀ x, amountOf ((bid, 0) :: bids) x = amountOf bids x := by
      simp [amountOf_cons]
    obtain ⟨l', hl', hs, hm⟩ := ih ⟨h.sound, fun e he => h.bidNonneg e (by simp [he]),
      h.askNonneg, fun x => by simpa [hsame] using h.bidBacked x, h.askBacked,
      by simpa using h.balanced⟩
    refine ⟨l', by rw [matchFills, dif_pos rfl, hl'], hs, hm.congr ?_ ?_ rfl⟩
    · rw [spread_cons b.base, zero_mul, delta_zero, zero_add]
    · rw [spread_cons b.quote, zero_mul, delta_zero, zero_add]
  | case4 bid bRem bids ask asks l hb ih =>
    have hsame : ∀ x, amountOf ((ask, 0) :: asks) x = amountOf asks x := by
      simp [amountOf_cons]
    obtain ⟨l', hl', hs, hm⟩ := ih ⟨h.sound, h.bidNonneg,
      fun e he => h.askNonneg e (by simp [he]), h.bidBacked,
      fun x => by simpa [hsame] using h.askBacked x, by simpa using h.balanced⟩
    refine ⟨l', by rw [matchFills, dif_neg hb, dif_pos rfl, hl'], hs, hm.congr ?_ ?_ rfl⟩
    · rw [spread_cons b.quote, zero_mul, delta_zero, zero_add]
    · rw [spread_cons b.base, zero_mul, delta_zero, zero_add]
  | case5 bid bRem bids ask aRem asks l hb ha hnone =>
    obtain ⟨l1, hl1, _⟩ := h.settleHead hp hb ha
    rw [hnone] at hl1
    cases hl1
  | case6 bid bRem bids ask aRem asks l hb ha l1 hsome ih =>
    obtain ⟨l2, hl2, hback, hm⟩ := h.settleHead hp hb ha
    obtain rfl : l1 = l2 := Option.some.inj (hsome.symm.trans hl2)
    obtain ⟨l', hl', hs, hm'⟩ := ih hback
    refine ⟨l', by rw [matchFills, dif_neg hb, dif_neg ha]; simp [hsome, hl'], hs,
      (hm.trans hm').congr ?_ ?_ (add_zero 0)⟩
    · simp only [spread_cons, mul_one, sub_mul, delta_sub]
      abel
    · simp only [spread_cons, mul_one, sub_mul, delta_sub, delta_neg]
      abel

/-! ## Fees -/

section Fees

variable {l l' : Ledger} {asset : AssetId}

theorem moveAvailableToAvailable_nonneg {src dst : AccountId} {x : Int} (hl : l.Nonneg)
    (h : l.moveAvailableToAvailable src dst asset x = some l') :
    Moved l l' (delta src asset (-x) + delta dst asset x) 0 ∧ l'.Nonneg := by
  obtain ⟨hx, hne, hle, hm⟩ := moveAvailableToAvailable_some h
  refine ⟨hm, fun a s => ?_⟩
  have := hl a s
  rw [hm.available, hm.reserved]
  simp only [Pi.add_apply, delta, Pi.zero_apply]
  by_cases hs : s = asset
  · by_cases ha : a = src
    · simp only [ha, hs, hne, and_true, if_true, if_false]
      rw [ha, hs] at this
      omega
    · simp only [ha, hs, and_true, if_false]
      rw [hs] at this
      split_ifs <;> omega
  · simp only [hs, and_false, if_false]
    omega

/-- One positive payment, or none, and then the remaining ones. -/
theorem payment_moved {fee : Int} {pay : Ledger → Option Ledger} (hl : l.Nonneg)
    (ih : ∀ {l₁ : Ledger}, l₁.Nonneg → pay l₁ = some l' → ∃ dA, Moved l₁ l' dA 0 ∧ l'.Nonneg)
    (h : (match (if fee > 0 then l.moveAvailableToAvailable payer payee asset fee else some l) with
      | none => none
      | some l₁ => pay l₁) = some l') : ∃ dA, Moved l l' dA 0 ∧ l'.Nonneg := by
  split_ifs at h
  · cases hc : l.moveAvailableToAvailable payer payee asset fee with
    | none => simp [hc] at h
    | some l₁ =>
      obtain ⟨hm, hnn⟩ := moveAvailableToAvailable_nonneg hl hc
      simp only [hc] at h
      obtain ⟨dA, hm', hnn'⟩ := ih hnn h
      exact ⟨_, (hm.trans hm').congr rfl (add_zero 0) (add_zero 0), hnn'⟩
  · exact ih hl h

theorem chargeSellers_moved {shares : List SellerFeeShare} (hl : l.Nonneg)
    (h : chargeSellers asset shares l = some l') : ∃ dA, Moved l l' dA 0 ∧ l'.Nonneg := by
  induction shares generalizing l with
  | nil =>
    obtain rfl := Option.some.inj h
    exact ⟨0, Moved.refl l, hl⟩
  | cons x rest ih => exact payment_moved hl ih h

theorem payRewards_moved {rewards : List (AccountId × Int)} (hl : l.Nonneg)
    (h : payRewards asset rewards l = some l') : ∃ dA, Moved l l' dA 0 ∧ l'.Nonneg := by
  induction rewards generalizing l with
  | nil =>
    obtain rfl := Option.some.inj h
    exact ⟨0, Moved.refl l, hl⟩
  | cons x rest ih => exact payment_moved hl ih h

/-- Whatever the context, a fee section that succeeds has moved available funds only. -/
theorem collectFees_moved {pr : Primitives} {b : Book} {r : ClearingResult}
    {c : FlowMeshFeeContext} {fees : FlowMeshFeeAllocation} (hl : l.Nonneg)
    (h : collectFees pr b l r c = some (fees, l')) : ∃ dA, Moved l l' dA 0 ∧ l'.Nonneg := by
  unfold collectFees at h
  rw [Option.ite_none_left_eq_some] at h
  replace h := h.2
  split at h
  · split at h
    · cases h
    · split at h
      · cases h
      · rename_i charged hc
        obtain ⟨dA, hm, hnn⟩ := chargeSellers_moved hl hc
        split at h
        · cases h
        · rename_i paid hp
          obtain ⟨dA', hm', hnn'⟩ := payRewards_moved hnn hp
          obtain rfl : paid = l' := by simpa using (Prod.mk.inj (Option.some.inj h)).2
          exact ⟨_, (hm.trans hm').congr rfl (add_zero 0) (add_zero 0), hnn'⟩
  · cases h

/-- Sellers that can pay their shares are charged, and the fee account receives the total. -/
theorem chargeSellers_ok (shares : List SellerFeeShare) (hl : l.Nonneg)
    (hcap : l.held asset ≤ MAX_MONEY) (hfee : ∀ x ∈ shares, x.account ≠ FeeAccount ∧ 0 ≤ x.fee)
    (hpay : ∀ a, a ≠ FeeAccount →
      amountOf (shares.map fun x => (x.account, x.fee)) a ≤ l.available a asset) :
    ∃ l', chargeSellers asset shares l = some l' ∧ l'.Nonneg ∧ l'.held asset ≤ MAX_MONEY ∧
      l'.available FeeAccount asset = l.available FeeAccount asset + (shares.map (·.fee)).sum := by
  induction shares generalizing l with
  | nil => exact ⟨l, rfl, hl, hcap, by simp⟩
  | cons x rest ih =>
    obtain ⟨hxa, hxf⟩ := hfee x (by simp)
    have hrest : ∀ y ∈ rest, y.account ≠ FeeAccount ∧ 0 ≤ y.fee := fun y hy => hfee y (by simp [hy])
    have hlater : ∀ a, 0 ≤ amountOf (rest.map fun x => (x.account, x.fee)) a := amountOf_nonneg
      fun e he => by
        obtain ⟨y, hy, rfl⟩ := mem_map.mp he
        exact (hrest y hy).2
    simp only [map_cons, amountOf_cons] at hpay
    simp only [map_cons, sum_cons]
    rw [chargeSellers]
    by_cases hx : x.fee > 0
    · have hle : x.fee ≤ l.available x.account asset := by
        have := hpay x.account hxa
        have := hlater x.account
        simp only [if_true] at *
        omega
      obtain ⟨l1, hl1⟩ := moveAvailableToAvailable_of_le _ FeeAccount hl hcap hx hxa hle
      obtain ⟨hm, hnn⟩ := moveAvailableToAvailable_nonneg hl hl1
      have hav : ∀ a, l1.available a asset = l.available a asset +
          (if a = x.account then -x.fee else 0) + if a = FeeAccount then x.fee else 0 := by
        intro a
        rw [hm.available]
        simp only [Pi.add_apply, delta, and_true]
        ring
      obtain ⟨l', hl', hnn', hcap', hav'⟩ := ih hnn (by simpa [hm.held] using hcap) hrest (by
        intro a ha
        have := hpay a ha
        rw [hav, if_neg ha]
        by_cases hax : x.account = a
        · simp only [hax, if_true] at this ⊢
          omega
        · simp only [hax, Ne.symm hax, if_false] at this ⊢
          omega)
      refine ⟨l', ?_, hnn', hcap', ?_⟩
      · rw [if_pos hx, Ledger.chargeFee, hl1]
        exact hl'
      · rw [hav', hav, if_neg (Ne.symm hxa), if_pos rfl]
        ring
    · have hz : x.fee = 0 := by omega
      obtain ⟨l', hl', hnn', hcap', hav'⟩ := ih hl hcap hrest (by
        intro a ha
        have := hpay a ha
        rw [hz] at this
        simpa using this)
      exact ⟨l', by rw [if_neg hx]; exact hl', hnn', hcap', by rw [hav', hz, zero_add]⟩

theorem payRewards_ok (rewards : List (AccountId × Int)) (hl : l.Nonneg)
    (hcap : l.held asset ≤ MAX_MONEY) (hr : ∀ x ∈ rewards, x.1 ≠ FeeAccount ∧ 0 ≤ x.2)
    (hpay : (rewards.map (·.2)).sum ≤ l.available FeeAccount asset) :
    ∃ l', payRewards asset rewards l = some l' := by
  induction rewards generalizing l with
  | nil => exact ⟨l, rfl⟩
  | cons x rest ih =>
    obtain ⟨hxa, hx0⟩ := hr x (by simp)
    have hrest : ∀ y ∈ rest, y.1 ≠ FeeAccount ∧ 0 ≤ y.2 := fun y hy => hr y (by simp [hy])
    have hlater : 0 ≤ (rest.map (·.2)).sum := by
      refine sum_nonneg fun y hy => ?_
      obtain ⟨r, hr', rfl⟩ := mem_map.mp hy
      exact (hrest r hr').2
    simp only [map_cons, sum_cons] at hpay
    rw [payRewards]
    by_cases hx : x.2 > 0
    · obtain ⟨l1, hl1⟩ := moveAvailableToAvailable_of_le FeeAccount x.1 hl hcap hx
        (Ne.symm hxa) (by omega)
      obtain ⟨hm, hnn⟩ := moveAvailableToAvailable_nonneg hl hl1
      rw [if_pos hx, hl1]
      refine ih hnn (by simpa [hm.held] using hcap) hrest ?_
      rw [hm.available]
      simp only [Pi.add_apply, delta, and_true, if_true, Ne.symm hxa, if_false]
      omega
    · rw [if_neg hx]
      exact ih hl hcap hrest (by omega)

end Fees

end B3Coin.FlowMesh
