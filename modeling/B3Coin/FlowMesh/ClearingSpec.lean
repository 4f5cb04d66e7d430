import B3Coin.FlowMesh.Accounting

/-!
# A slot always clears

In a market whose book and ledger agree, the preflight passes, the matching loop
and both consumptions succeed, and book and ledger agree again afterwards. Only
the fee section can refuse, and it does not for a canonical context whose
accounts are not the fee account.
-/
namespace B3Coin.FlowMesh

open Ledger List OrderedMap
open Book (consumed consume applyFees settleAndConsume clearSlot)

variable {pr : Primitives} {b : Book} {l : Ledger} {r : ClearingResult}

/-- The result of the price search and the rationing. -/
structure Cleared (b : Book) (r : ClearingResult) : Prop where
  price : 0 ≤ r.price
  volume : 0 < r.volume
  bids : FillsOk b .BID r.price r.bidFill
  asks : FillsOk b .ASK r.price r.askFill
  bidSum : (r.bidFill.map (·.2)).sum = r.volume
  askSum : (r.askFill.map (·.2)).sum = r.volume

variable {side : Side} {price : Int} {fills : List (AccountId × Int)}

/-- Every fill is covered by its curve and by the ledger. -/
theorem MarketOk.fill_le (h : MarketOk b l) (hp : 0 ≤ price)
    (hf : FillsOk b side price fills) {e : AccountId × Int} (he : e ∈ fills) (hpos : 0 < e.2) :
    ∃ c, (b.side side).find? e.1 = some c ∧ e.2 * lotPrice side price ≤ c.reserved ∧
      c.reserved = l.reserved e.1 (b.reserveAsset side) ∧
      consumed side e.2 price = some (e.2 * lotPrice side price) := by
  obtain ⟨c, hc, hle⟩ := hf.within e he hpos
  obtain ⟨a, rest, hok⟩ := h.covered side e.1 c hc
  refine ⟨c, hc, (hok.fill hp hpos hle).1, ?_, consumed_eq hok hp hpos hle⟩
  rw [h.reserved_eq]
  simp [Book.curveReserved, hc]

theorem MarketOk.amount_le (h : MarketOk b l) (hp : 0 ≤ price)
    (hf : FillsOk b side price fills) (x : AccountId) :
    amountOf fills x * lotPrice side price ≤ l.reserved x (b.reserveAsset side) := by
  have hnn := (h.nonneg x (b.reserveAsset side)).2
  by_cases hx : ∃ e ∈ fills, e.1 = x
  · obtain ⟨e, he, rfl⟩ := hx
    rw [amountOf_of_mem hf.nodup he]
    by_cases hpos : 0 < e.2
    · obtain ⟨c, _, hle, heq, _⟩ := h.fill_le hp hf he hpos
      exact hle.trans heq.le
    · have : e.2 = 0 := le_antisymm (not_lt.mp hpos) (hf.nonneg e he)
      rw [this, zero_mul]
      exact hnn
  · rw [amountOf_of_not_mem fun e he heq => hx ⟨e, he, heq⟩, zero_mul]
    exact hnn

theorem MarketOk.backed (h : MarketOk b l) (hr : Cleared b r) :
    Backed b r.price r.bidFill r.askFill l where
  sound := h.sound
  bidNonneg := hr.bids.nonneg
  askNonneg := hr.asks.nonneg
  bidBacked x := h.amount_le hr.price hr.bids x
  askBacked x := by
    have := h.amount_le hr.price hr.asks x
    rw [lotPrice, mul_one] at this
    exact this
  balanced := hr.bidSum.trans hr.askSum.symm

theorem MarketOk.bidPreflight (h : MarketOk b l) (hr : Cleared b r) :
    r.bidFill.all (b.bidPreflight l r.price) = true := by
  refine all_eq_true.mpr fun e he => ?_
  unfold Book.bidPreflight
  by_cases hpos : 0 < e.2
  · obtain ⟨c, hc, hle, heq, hq⟩ := h.fill_le hr.price hr.bids he hpos
    rw [show FlowMesh.quote e.2 r.price = _ from hq, show b.bids.find? e.1 = some c from hc]
    have : l.reserved e.1 b.quote = c.reserved := heq.symm
    simp only [Bool.or_eq_true, Bool.and_eq_true, decide_eq_true_eq, this]
    exact .inr ⟨hle, hle⟩
  · simp [not_lt.mp hpos]

theorem MarketOk.askPreflight (h : MarketOk b l) (hr : Cleared b r) :
    r.askFill.all (b.askPreflight l) = true := by
  refine all_eq_true.mpr fun e he => ?_
  unfold Book.askPreflight
  by_cases hpos : 0 < e.2
  · obtain ⟨c, hc, hle, heq, _⟩ := h.fill_le hr.price hr.asks he hpos
    rw [show b.asks.find? e.1 = some c from hc]
    have : l.reserved e.1 b.base = c.reserved := heq.symm
    simp only [lotPrice, mul_one] at hle
    simp only [Bool.or_eq_true, Bool.and_eq_true, decide_eq_true_eq, this]
    exact .inr ⟨hle, hle⟩
  · simp [not_lt.mp hpos]

variable {settled : Ledger} {dA dA' : AccountId → AssetId → Int}

/-- After the matching loop the ledger owes the curves exactly their fills. -/
theorem reconciled_of_moved {paid : Ledger} {bids asks : List (AccountId × Int)} (h : MarketOk b l)
    (hm : Moved l settled dA (-spread b.quote price bids - spread b.base 1 asks))
    (hm' : Moved settled paid dA' 0) :
    Reconciled b paid (spread b.quote price bids + spread b.base 1 asks) := by
  intro x s
  rw [hm'.reserved, hm.reserved, h.reconciled]
  simp only [Pi.zero_apply, Pi.add_apply, Pi.sub_apply, Pi.neg_apply]
  ring

theorem spread_other {asset other : AssetId} (hne : other ≠ asset) (price : Int)
    (fills : List (AccountId × Int)) (x : AccountId) : spread asset price fills x other = 0 :=
  if_neg hne

/-- Both sides are consumed once the fees are paid, and the market is in order again. -/
theorem consume_both (h : MarketOk b l) (hr : Cleared b r) {paid : Ledger}
    (hm : Moved l settled dA (-spread b.quote r.price r.bidFill - spread b.base 1 r.askFill))
    (hm' : Moved settled paid dA' 0) (hnn : paid.Nonneg) :
    ∃ b₁ l₁ b₂ l₂ dA₂ dR₂, consume .BID r.price r.bidFill b paid = some (b₁, l₁) ∧
      consume .ASK r.price r.askFill b₁ l₁ = some (b₂, l₂) ∧ MarketOk b₂ l₂ ∧
      Moved l l₂ dA₂ dR₂ ∧ b₂.base = b.base ∧ b₂.quote = b.quote ∧ b₂.maxK = b.maxK := by
  obtain ⟨b₁, l₁, dA1, dR1, hc1, hsame1, hcov1, hrec1, hm1, hnn1⟩ :=
    consume_ok hr.price (spread b.base 1 r.askFill) r.bidFill b paid hr.bids
      (spread_other b.distinct.symm 1 r.askFill) (reconciled_of_moved h hm hm') h.covered hnn
  have hasks : FillsOk b₁ .ASK r.price r.askFill := by
    refine ⟨hr.asks.sorted, hr.asks.nonneg, fun e he hpos => ?_⟩
    rw [hsame1.other .ASK (by decide)]
    exact hr.asks.within e he hpos
  obtain ⟨b₂, l₂, dA₂, dR₂, hc2, hsame2, hcov2, hrec2, hm2, hnn2⟩ :=
    consume_ok hr.price 0 r.askFill b₁ l₁ hasks (fun _ => rfl)
      (by rw [hsame1.reserveAsset, add_zero]; exact hrec1) hcov1 hnn1
  have hall := ((hm.trans hm').trans hm1).trans hm2
  refine ⟨b₁, l₁, b₂, l₂, _, _, hc1, hc2, ⟨hcov2, hrec2, hnn2, fun s => ?_⟩,
    hall.congr rfl rfl (by simp), hsame2.base.trans hsame1.base, hsame2.quote.trans hsame1.quote,
    hsame2.maxK.trans hsame1.maxK⟩
  have := hall.held s
  simp only [Pi.add_apply, Pi.zero_apply, add_zero] at this
  rw [this]
  exact h.cap s

/-- What clearing a slot leaves: the market in order, with the same totals. -/
structure Settled (b b' : Book) (l l' : Ledger) : Prop where
  market : MarketOk b' l'
  rest : l' = { l with balances := l'.balances }
  held : ∀ s, l'.held s = l.held s
  base : b'.base = b.base
  quote : b'.quote = b.quote
  maxK : b'.maxK = b.maxK

/-- `SettleAndConsume` fails only where the fee section does. -/
theorem settleAndConsume_cases (pr : Primitives) (h : MarketOk b l) (hr : Cleared b r)
    (fee : Option FlowMeshFeeContext) : ∃ settled, Sound b settled ∧
      Moved l settled (spread b.quote r.price r.askFill + spread b.base 1 r.bidFill)
        (-spread b.quote r.price r.bidFill - spread b.base 1 r.askFill) ∧
      ((applyFees pr b settled r fee = none ∧ settleAndConsume pr b l r fee = none) ∨
        ∃ fees paid b' l', applyFees pr b settled r fee = some (fees, paid) ∧
          settleAndConsume pr b l r fee = some ({ r with fees := fees }, b', l') ∧
          Settled b b' l l') := by
  obtain ⟨settled, hmatch, hsound, hm⟩ :=
    matchFills_ok hr.price r.bidFill r.askFill l (h.backed hr)
  have hsums : ¬ ((∃ e ∈ r.bidFill ++ r.askFill, e.2 < 0) ∨ (r.bidFill.map (·.2)).sum ≠ r.volume ∨
      (r.askFill.map (·.2)).sum ≠ r.volume) := by
    rintro (⟨e, he, hneg⟩ | hne | hne)
    · rcases mem_append.mp he with he | he
      · have := hr.bids.nonneg e he
        omega
      · have := hr.asks.nonneg e he
        omega
    · exact hne hr.bidSum
    · exact hne hr.askSum
  have hpre : ¬ (¬ r.bidFill.all (b.bidPreflight l r.price) ∨
      ¬ r.askFill.all (b.askPreflight l)) := by
    rintro (hc | hc)
    · exact hc (h.bidPreflight hr)
    · exact hc (h.askPreflight hr)
  refine ⟨settled, hsound, hm, ?_⟩
  cases hfee : applyFees pr b settled r fee with
  | none =>
    refine .inl ⟨rfl, ?_⟩
    rw [settleAndConsume, if_neg hsums, if_neg hpre, hmatch]
    simp [hfee]
  | some result =>
    obtain ⟨fees, paid⟩ := result
    obtain ⟨dA', hm', hnn⟩ : ∃ dA, Moved settled paid dA 0 ∧ paid.Nonneg := by
      cases fee with
      | none =>
        obtain rfl : settled = paid := (Prod.mk.inj (Option.some.inj hfee)).2
        exact ⟨0, Moved.refl settled, hsound.nonneg⟩
      | some c => exact collectFees_moved hsound.nonneg hfee
    obtain ⟨b1, l1, b2, l2, dA2, dR2, hc1, hc2, hok, hmoved, hbase, hquote, hmaxK⟩ :=
      consume_both h hr hm hm' hnn
    refine .inr ⟨fees, paid, b2, l2, rfl, ?_, hok, hmoved.rest,
      fun s => by simpa using hmoved.held s, hbase, hquote, hmaxK⟩
    rw [settleAndConsume, if_neg hsums, if_neg hpre, hmatch]
    simp [hfee, hc1, hc2]

/-! ## The fee section -/

/-- The sellers' proceeds add up to the matched notional. -/
theorem sellerProceeds_ok (hp : 0 ≤ price)
    (hsorted : fills.Pairwise (fun x y => x.1 < y.1)) (hnn : ∀ e ∈ fills, 0 ≤ e.2)
    (hmax : (fills.map (·.2)).sum * price ≤ MAX_MONEY) :
    ∃ ps, Book.sellerProceeds price fills = some ps ∧
      Proceeds ((fills.map (·.2)).sum * price) ps ∧
      ∀ s ∈ ps, ∃ e ∈ fills, e.1 = s.account ∧ 0 < e.2 ∧ s.amount = e.2 * price := by
  induction fills with
  | nil => exact ⟨[], rfl, ⟨.nil, by simp, by simp⟩, by simp⟩
  | cons e rest ih =>
    obtain ⟨hhead, htail⟩ := pairwise_cons.mp hsorted
    have he := hnn e (by simp)
    have hrest : ∀ f ∈ rest, 0 ≤ f.2 := fun f hf => hnn f (by simp [hf])
    have hsum : 0 ≤ (rest.map (·.2)).sum := by
      refine sum_nonneg fun y hy => ?_
      obtain ⟨f, hf, rfl⟩ := mem_map.mp hy
      exact hrest f hf
    have hcost : 0 ≤ e.2 * price := mul_nonneg he hp
    have hlater : 0 ≤ (rest.map (·.2)).sum * price := mul_nonneg hsum hp
    simp only [map_cons, sum_cons, add_mul] at hmax ⊢
    obtain ⟨ps, hps, hok, hfrom⟩ := ih htail hrest (by omega)
    have hfrom' : ∀ s ∈ ps, ∃ f ∈ e :: rest, f.1 = s.account ∧ 0 < f.2 ∧ s.amount = f.2 * price :=
      fun s hs => by
        obtain ⟨f, hf, hfs⟩ := hfrom s hs
        exact ⟨f, by simp [hf], hfs⟩
    rw [Book.sellerProceeds]
    by_cases hz : e.2 ≤ 0
    · have hzero : e.2 = 0 := le_antisymm hz he
      refine ⟨ps, by rw [if_pos hz, hps], ?_, hfrom'⟩
      rwa [hzero, zero_mul, zero_add]
    · rw [if_neg hz, quote_of_le he hp (by omega), hps]
      by_cases hg : e.2 * price > 0
      · refine ⟨⟨e.1, e.2 * price⟩ :: ps, by simp [if_pos hg], ⟨?_, ?_, ?_⟩, ?_⟩
        · refine pairwise_cons.mpr ⟨fun s hs => ?_, hok.sorted⟩
          obtain ⟨f, hf, hfs, _⟩ := hfrom s hs
          exact hfs ▸ hhead f hf
        · intro s hs
          rcases mem_cons.mp hs with rfl | hs
          · exact hg
          · exact hok.positive s hs
        · simp [hok.total]
        · intro s hs
          rcases mem_cons.mp hs with rfl | hs
          · exact ⟨e, by simp, rfl, not_le.mp hz, rfl⟩
          · exact hfrom' s hs
      · have hzero : e.2 * price = 0 := by omega
        refine ⟨ps, by simp [if_neg hg], ?_, hfrom'⟩
        rwa [hzero, zero_add]

/-- What a side gives up for its fills is at most what it has reserved. -/
theorem MarketOk.cost_le (h : MarketOk b l) (hp : 0 ≤ price) (hf : FillsOk b side price fills) :
    (fills.map (·.2)).sum * lotPrice side price ≤ MAX_MONEY := by
  have hsum : ∀ part : List (AccountId × Int), (∀ e ∈ part, e ∈ fills) →
      (part.map (·.2)).sum * lotPrice side price ≤ (part.map fun e =>
        l.available e.1 (b.reserveAsset side) + l.reserved e.1 (b.reserveAsset side)).sum := by
    intro part
    induction part with
    | nil => simp
    | cons e rest ih =>
      intro hsub
      have hrest := ih fun f hf => hsub f (by simp [hf])
      have hle := h.amount_le hp hf e.1
      rw [amountOf_of_mem hf.nodup (hsub e (by simp))] at hle
      have hnn := (h.nonneg e.1 (b.reserveAsset side)).1
      simp only [map_cons, sum_cons, add_mul]
      omega
  have hheld := h.nonneg.sum_le_held _ hf.nodup (b.reserveAsset side)
  rw [map_map, Function.comp_def] at hheld
  exact ((hsum fills fun e he => he).trans hheld).trans (h.cap _)

/-- The matched notional is at most what the buyers have reserved. -/
theorem MarketOk.notional_le (h : MarketOk b l) (hr : Cleared b r) :
    r.volume * r.price ≤ MAX_MONEY :=
  hr.bidSum ▸ h.cost_le hr.price hr.bids

theorem MarketOk.volume_le (h : MarketOk b l) (hr : Cleared b r) : r.volume ≤ MAX_MONEY := by
  have := h.cost_le hr.price hr.asks
  rwa [hr.askSum, lotPrice, mul_one] at this

/-- A context the fee section accepts: canonical, in the native asset, with recipients and
sellers other than the fee account. -/
structure FeeReady (pr : Primitives) (b : Book) (c : FlowMeshFeeContext) : Prop where
  native : b.quote = NativeAsset
  canonical : c.isCanonical pr = true
  treasury : c.treasuryAccount pr ≠ FeeAccount
  seats : ∀ s ∈ c.seats, c.seatAccount pr s ≠ FeeAccount
  sellers : ∀ x curve, b.asks.find? x = some curve → x ≠ FeeAccount

theorem collectFees_ok (h : MarketOk b l) (hr : Cleared b r)
    {dR : AccountId → AssetId → Int} (hs : Sound b settled)
    (hm : Moved l settled (spread b.quote r.price r.askFill + spread b.base 1 r.bidFill) dR)
    {c : FlowMeshFeeContext} (hc : FeeReady pr b c) :
    ∃ fees paid, Book.collectFees pr b settled r c = some (fees, paid) := by
  have hcanon := hc.canonical
  simp only [FlowMeshFeeContext.isCanonical, Bool.and_eq_true, decide_eq_true_eq] at hcanon
  obtain ⟨⟨⟨⟨⟨_, hmin⟩, hmax⟩, _⟩, _⟩, hchain⟩ := hcanon
  have hnotional := h.notional_le hr
  obtain ⟨ps, hps, hproc, hfrom⟩ := sellerProceeds_ok hr.price hr.asks.sorted hr.asks.nonneg
    (by rwa [hr.askSum])
  rw [hr.askSum] at hproc
  have hvp : 0 ≤ r.volume * r.price := mul_nonneg hr.volume.le hr.price
  obtain ⟨out, hout, hall⟩ := allocateFlowMeshFees_ok hproc ⟨hvp, hnotional⟩ hchain
    (by intro hnil; simp only [map_eq_nil_iff] at hnil; simp [hnil] at hmin)
    (by simpa using hmax)
  -- a seller holds its gross proceeds, so it can pay its share of the fee
  have hshare : ∀ x ∈ out.sellerFees, x.account ≠ FeeAccount ∧ 0 ≤ x.fee ∧
      x.fee ≤ settled.available x.account b.quote := by
    intro x hx
    obtain ⟨s, hs', hacc, hx0, hxs⟩ := hall.sellerFee x hx
    obtain ⟨e, he, hea, hpos, hamt⟩ := hfrom s hs'
    obtain ⟨curve, hcurve, _⟩ := hr.asks.within e he hpos
    refine ⟨hacc ▸ hea ▸ hc.sellers e.1 curve hcurve, hx0, ?_⟩
    rw [hm.available, ← hacc, ← hea, Pi.add_apply, Pi.add_apply,
      spread_other b.distinct.symm, spread, if_pos rfl, amountOf_of_mem hr.asks.nodup he]
    have := (h.nonneg e.1 b.quote).1
    omega
  have hnd : ((out.sellerFees.map fun x => (x.account, x.fee)).map (·.1)).Nodup := by
    rw [map_map, Function.comp_def]
    exact hall.sellers ▸ hproc.nodup
  obtain ⟨charged, hcharged, hnn, hcap, hav⟩ := chargeSellers_ok out.sellerFees hs.nonneg hs.quoteCap
    (fun x hx => ⟨(hshare x hx).1, (hshare x hx).2.1⟩) (by
      intro a _
      by_cases ha : ∃ x ∈ out.sellerFees, x.account = a
      · obtain ⟨x, hx, rfl⟩ := ha
        have hmem : (x.account, x.fee) ∈ out.sellerFees.map fun x => (x.account, x.fee) :=
          mem_map.mpr ⟨x, hx, rfl⟩
        rw [amountOf_of_mem (e := (x.account, x.fee)) hnd hmem]
        exact (hshare x hx).2.2
      · rw [amountOf_of_not_mem]
        · exact (hs.nonneg a b.quote).1
        · intro e he heq
          obtain ⟨x, hx, rfl⟩ := mem_map.mp he
          exact ha ⟨x, hx, heq⟩)
  have hzip : ((c.seats.zip out.seatRewards).map fun x => x.2.reward) =
      out.seatRewards.map (·.reward) := by
    have : (c.seats.zip out.seatRewards).map (·.2) = out.seatRewards :=
      map_snd_zip (by rw [hall.seats, length_map])
    conv_rhs => rw [← this, map_map]
    rfl
  obtain ⟨paid, hpaid⟩ := payRewards_ok ((c.treasuryAccount pr, out.treasuryFee) ::
      (c.seats.zip out.seatRewards).map fun x => (c.seatAccount pr x.1, x.2.reward)) hnn hcap (by
      intro x hx
      rcases mem_cons.mp hx with rfl | hx
      · exact ⟨hc.treasury, hall.treasury⟩
      · obtain ⟨y, hy, rfl⟩ := mem_map.mp hx
        exact ⟨hc.seats y.1 (of_mem_zip hy).1, hall.seatReward y.2 (of_mem_zip hy).2⟩) (by
      have := (hs.nonneg FeeAccount b.quote).1
      have := hall.recipients
      have := hall.sellerTotal
      simp only [map_cons, sum_cons, map_map, Function.comp_def, hzip]
      omega)
  refine ⟨out, paid, ?_⟩
  rw [Book.collectFees, if_neg (by simp [hc.native, hc.canonical]), hps,
    quote_of_le hr.volume.le hr.price hnotional]
  simp [hout, hcharged, hpaid]

/-! ## Submissions and cancellations -/

variable {l' : Ledger} {x : AccountId}

/-- Writing one curve, with its account's reservation adjusted to it, keeps the market. -/
theorem MarketOk.write (h : MarketOk b l) {m : OrderedMap AccountId Curve} {r : Int}
    (hm : ∀ y, y ≠ x → m.find? y = (b.side side).find? y) (hcov : (b.withSide side m).Covered)
    (hr : ((m.find? x).map (·.reserved)).getD 0 = b.curveReserved side x - r)
    (hmoved : Moved l l' (delta x (b.reserveAsset side) r) (delta x (b.reserveAsset side) (-r)))
    (hav : 0 ≤ l.available x (b.reserveAsset side) + r)
    (hres : 0 ≤ l.reserved x (b.reserveAsset side) - r) : Settled b (b.withSide side m) l l' := by
  have hsame := b.sameMarket_withSide side m
  have hheld : ∀ s, l'.held s = l.held s := fun s => by simpa using hmoved.held s
  refine ⟨⟨hcov, ?_, fun y s => ?_, fun s => hheld s ▸ h.cap s⟩, hmoved.rest, hheld, hsame.base,
    hsame.quote, hsame.maxK⟩
  · refine h.reconciled.write hm (r := r)
      (fun y s => by rw [hmoved.reserved, delta_neg, Pi.neg_apply, Pi.neg_apply, sub_eq_add_neg])
      fun y s => ?_
    rw [hr, sub_sub_cancel, sub_self, delta_zero]
    rfl
  · have := h.nonneg y s
    rw [hmoved.available, hmoved.reserved]
    unfold delta
    split_ifs with hys
    · obtain ⟨rfl, rfl⟩ := hys
      omega
    · omega

variable {b' : Book}

variable {points : List Breakpoint}

/-- What an accepted submission did: the reservation moved by the difference, whichever way. -/
theorem submitCurve_some (hs : b.submitCurve l x side points = some (b', l')) :
    ∃ need, curveIsValid b.maxK side points = true ∧ worstCaseReservation side points = some need ∧
      b' = b.withSide side ((b.side side).insert x ⟨points, 0, need⟩) ∧
      Moved l l' (delta x (b.reserveAsset side) (b.curveReserved side x - need))
        (delta x (b.reserveAsset side) (-(b.curveReserved side x - need))) ∧
      (0 ≤ need → 0 ≤ l.available x (b.reserveAsset side) →
        0 ≤ l.available x (b.reserveAsset side) + (b.curveReserved side x - need)) := by
  unfold Book.submitCurve at hs
  rw [Option.ite_none_left_eq_some, not_not] at hs
  obtain ⟨hvalid, hs⟩ := hs
  cases hneed : worstCaseReservation side points with
  | none => simp [hneed] at hs
  | some need =>
    refine ⟨need, hvalid, rfl, ?_⟩
    simp only [hneed] at hs
    by_cases hgt : need > b.curveReserved side x
    · simp only [hgt, if_true] at hs
      cases hres : l.reserve x (b.reserveAsset side) (need - b.curveReserved side x) with
      | none => simp [hres] at hs
      | some l1 =>
        simp only [hres, Option.some.injEq, Prod.mk.injEq] at hs
        obtain ⟨rfl, rfl⟩ := hs
        obtain ⟨_, hle, hm⟩ := reserve_some hres
        exact ⟨rfl, hm.congr (by rw [neg_sub]) (by rw [neg_sub]) rfl, by omega⟩
    · by_cases hlt : need < b.curveReserved side x
      · simp only [hgt, if_false, hlt, if_true] at hs
        cases hrel : l.release x (b.reserveAsset side) (b.curveReserved side x - need) with
        | none => simp [hrel] at hs
        | some l1 =>
          simp only [hrel, Option.some.injEq, Prod.mk.injEq] at hs
          obtain ⟨rfl, rfl⟩ := hs
          obtain ⟨_, hle, hm⟩ := release_some hrel
          exact ⟨rfl, hm, by omega⟩
      · simp only [hgt, if_false, hlt, Option.some.injEq, Prod.mk.injEq] at hs
        obtain ⟨rfl, rfl⟩ := hs
        have hzero : b.curveReserved side x - need = 0 := by omega
        exact ⟨rfl, (Moved.refl l).congr (by rw [hzero, delta_zero])
          (by rw [hzero, neg_zero, delta_zero]) rfl, by omega⟩

theorem submitCurve_settled (h : MarketOk b l)
    (hs : b.submitCurve l x side points = some (b', l')) :
    Settled b b' l l' ∧ ∃ need, curveIsValid b.maxK side points = true ∧
      worstCaseReservation side points = some need ∧
      b' = b.withSide side ((b.side side).insert x ⟨points, 0, need⟩) := by
  obtain ⟨need, hvalid, hneed, rfl, hmoved, havailable⟩ := submitCurve_some hs
  obtain ⟨a, rest, hok⟩ := curveOk_submitted hvalid hneed
  have hneed0 : 0 ≤ need := hok.reserved.1
  have hold := h.reserved_eq side x
  have hnn := h.nonneg x (b.reserveAsset side)
  refine ⟨h.write (fun y hy => by rw [find?_insert, if_neg hy])
    (Book.covered_insert h.covered hok) ?_ hmoved (havailable hneed0 hnn.1) (by omega), need, hvalid,
    hneed, rfl⟩
  simp

theorem cancelCurve_settled (h : MarketOk b l) (hs : b.cancelCurve l x side = some (b', l')) :
    Settled b b' l l' ∧ b' = b.withSide side ((b.side side).erase x) := by
  unfold Book.cancelCurve at hs
  cases hc : (b.side side).find? x with
  | none => simp [hc] at hs
  | some c =>
    obtain ⟨a, rest, hok⟩ := h.covered side x c hc
    have hcr : b.curveReserved side x = c.reserved := by simp [Book.curveReserved, hc]
    have hres := h.reserved_eq side x
    have hnn := h.nonneg x (b.reserveAsset side)
    obtain ⟨hm, hb'⟩ : ∃ hmoved : Moved l l' (delta x (b.reserveAsset side) c.reserved)
          (delta x (b.reserveAsset side) (-c.reserved)),
        b' = b.withSide side ((b.side side).erase x) := by
      simp only [hc] at hs
      by_cases hpos : c.reserved > 0
      · simp only [hpos, if_true] at hs
        cases hrel : l.release x (b.reserveAsset side) c.reserved with
        | none => simp [hrel] at hs
        | some l1 =>
          simp only [hrel, Option.some.injEq, Prod.mk.injEq] at hs
          obtain ⟨rfl, rfl⟩ := hs
          exact ⟨(release_some hrel).2.2, rfl⟩
      · simp only [hpos, if_false, Option.some.injEq, Prod.mk.injEq] at hs
        obtain ⟨rfl, rfl⟩ := hs
        have hzero : c.reserved = 0 := le_antisymm (not_lt.mp hpos) hok.reserved.1
        exact ⟨(Moved.refl l).congr (by rw [hzero, delta_zero])
          (by rw [hzero, neg_zero, delta_zero]) rfl, rfl⟩
    subst hb'
    refine ⟨h.write (fun y hy => by rw [find?_erase, if_neg hy])
      (Book.covered_erase h.covered side x) ?_ hm (by omega) (by omega), rfl⟩
    rw [find?_erase_self, hcr]
    simp

/-! ## The whole slot -/

theorem MarketOk.settled_refl (h : MarketOk b l) : Settled b b l l :=
  ⟨h, rfl, fun _ => rfl, rfl, rfl, rfl⟩

/-- The price loop and the rationing never fail; what is left is the settlement. -/
theorem clearSlot_cases (pr : Primitives) (h : MarketOk b l) (fee : Option FlowMeshFeeContext) :
    clearSlot pr b l fee = some ({}, b, l.advanceSlot) ∨
      ∃ r, Cleared b r ∧ clearSlot pr b l fee =
        (settleAndConsume pr b l r fee).map fun x => (x.1, x.2.1, x.2.2.advanceSlot) := by
  obtain ⟨best, hsearch, htrade⟩ :=
    h.searchPrice b.candidatePrices none (fun p hp => (h.candidate hp).1) trivial
  rw [clearSlot, hsearch]
  cases best with
  | none => exact .inl rfl
  | some x =>
    obtain ⟨hprice, hvol, hbid, hask⟩ := htrade
    obtain ⟨hbids, hbidSum⟩ := b.allocate_ok .BID hvol hbid
    obtain ⟨hasks, haskSum⟩ := b.allocate_ok .ASK hvol hask
    refine .inr ⟨b.plan x, ⟨hprice, hvol, hbids, hasks, hbidSum, haskSum⟩, ?_⟩
    simp only
    cases settleAndConsume pr b l (b.plan x) fee <;> rfl

variable {fee : Option FlowMeshFeeContext}

theorem clearSlot_settled (h : MarketOk b l)
    (hclear : clearSlot pr b l fee = some (r, b', l')) :
    ∃ settled, Settled b b' l settled ∧ l' = settled.advanceSlot := by
  rcases clearSlot_cases pr h fee with heq | ⟨plan, hplan, heq⟩
  · rw [heq] at hclear
    obtain ⟨rfl, rfl, rfl⟩ := hclear
    exact ⟨l, h.settled_refl, rfl⟩
  · rw [heq] at hclear
    obtain ⟨x, hx, hxr⟩ := Option.map_eq_some_iff.mp hclear
    obtain ⟨settled, _, _, hcase⟩ := settleAndConsume_cases pr h hplan fee
    rcases hcase with ⟨_, hnone⟩ | ⟨fees, paid, b2, l2, _, hsome, hsettled⟩
    · rw [hnone] at hx
      cases hx
    · rw [hsome] at hx
      obtain rfl := Option.some.inj hx
      obtain ⟨rfl, rfl, rfl⟩ := hxr
      exact ⟨l2, hsettled, rfl⟩

/-- What a slot that clears reports: nothing, or fills that the book covers. -/
def Reported (b : Book) (r : ClearingResult) : Prop := r = {} ∨ Cleared b r

theorem clearSlot_ok (h : MarketOk b l) (hfee : ∀ c ∈ fee, FeeReady pr b c) :
    ∃ r b' l', clearSlot pr b l fee = some (r, b', l') ∧ Reported b r := by
  rcases clearSlot_cases pr h fee with heq | ⟨plan, hplan, heq⟩
  · exact ⟨_, _, _, heq, .inl rfl⟩
  · obtain ⟨settled, hs, hm, hcase⟩ := settleAndConsume_cases pr h hplan fee
    rcases hcase with ⟨hnone, _⟩ | ⟨fees, paid, b', l', _, hsome, _⟩
    · cases fee with
      | none => cases hnone
      | some c =>
        obtain ⟨fees, paid, hok⟩ := collectFees_ok h hplan hs hm (hfee c rfl)
        rw [applyFees, hok] at hnone
        cases hnone
    · refine ⟨{ plan with fees := fees }, b', l'.advanceSlot, by rw [heq, hsome]; rfl, .inr ?_⟩
      exact { hplan with }

/-! ## Who stands in the book -/

variable {y : AccountId}

theorem Book.find?_withSide_erase (b : Book) (side side' : Side)
    (h : (b.side side').find? y = none) :
    ((b.withSide side ((b.side side).erase x)).side side').find? y = none := by
  by_cases hs : side' = side
  · subst hs
    rw [Book.side_withSide, find?_erase]
    split_ifs
    · rfl
    · exact h
  · rwa [(b.sameMarket_withSide side _).other side' hs]

theorem Book.find?_withSide_insert (b : Book) (side side' : Side) {c : Curve}
    (hne : side' = side → y ≠ x) (h : (b.side side').find? y = none) :
    ((b.withSide side ((b.side side).insert x c)).side side').find? y = none := by
  by_cases hs : side' = side
  · subst hs
    rwa [Book.side_withSide, find?_insert, if_neg (hne rfl)]
  · rwa [(b.sameMarket_withSide side _).other side' hs]

/-- What one turn of `Consume` keeps, whichever way the turn ends, the loop keeps. -/
theorem consume_invariant {I : Book → Ledger → Prop}
    (hfill : ∀ b l x c amount cost, I b l → 0 < amount → (b.side side).find? x = some c →
      consumed side amount price = some cost →
      Book.Curve.exhausted { c with filled := c.filled + amount, reserved := c.reserved - cost } =
        false →
      I (b.withSide side ((b.side side).insert x
        { c with filled := c.filled + amount, reserved := c.reserved - cost })) l)
    (hdone : ∀ b l l' x c rest, I b l → (b.side side).find? x = some c →
      (l' = l ∨ l.release x (b.reserveAsset side) rest = some l') →
      I (b.withSide side ((b.side side).erase x)) l')
    (fills : List (AccountId × Int)) (b : Book) (l : Ledger)
    (hc : consume side price fills b l = some (b', l')) (h : I b l) : I b' l' := by
  induction fills generalizing b l with
  | nil =>
    obtain ⟨rfl, rfl⟩ := Prod.mk.inj (Option.some.inj hc)
    exact h
  | cons e rest ih =>
    rw [consume] at hc
    by_cases hz : e.2 ≤ 0
    · rw [if_pos hz] at hc
      exact ih b l hc h
    rw [if_neg hz] at hc
    cases hf : (b.side side).find? e.1 with
    | none =>
      simp only [hf] at hc
      exact ih b l hc h
    | some c =>
      cases hx : consumed side e.2 price with
      | none => simp [hf, hx] at hc
      | some x =>
        simp only [hf, hx, Option.ite_none_left_eq_some] at hc
        obtain ⟨_, hc⟩ := hc
        split at hc
        · split at hc
          · cases hc
          · rename_i l1 hrel
            refine ih _ _ hc (hdone b l l1 e.1 c (c.reserved - x) h hf ?_)
            split_ifs at hrel
            · exact .inr hrel
            · exact .inl (Option.some.inj hrel).symm
        · rename_i hopen
          exact ih _ _ hc (hfill b l e.1 c e.2 x h (not_le.mp hz) hf hx (by simpa using hopen))

theorem consume_find?_none {side' : Side} (fills : List (AccountId × Int)) (b : Book) (l : Ledger)
    (hc : consume side price fills b l = some (b', l')) (h : (b.side side').find? y = none) :
    (b'.side side').find? y = none := by
  refine consume_invariant (I := fun b _ => (b.side side').find? y = none) ?_ ?_ fills b l hc h
  · intro b _ x c _ _ hnone _ hx _ _
    refine b.find?_withSide_insert side side' ?_ hnone
    rintro rfl rfl
    rw [hnone] at hx
    cases hx
  · exact fun b _ _ _ _ _ hnone _ _ => b.find?_withSide_erase side side' hnone

/-- The stages of a slot that clears; without a price only the slot advances. -/
theorem clearSlot_stages (hclear : clearSlot pr b l fee = some (r, b', l')) :
    (b' = b ∧ l' = l.advanceSlot) ∨
      ∃ best settled fees paid b₁ l₁ l₂,
        b.matchFills (b.plan best).price (b.plan best).bidFill (b.plan best).askFill l =
          some settled ∧
        applyFees pr b settled (b.plan best) fee = some (fees, paid) ∧
        consume .BID (b.plan best).price (b.plan best).bidFill b paid = some (b₁, l₁) ∧
        consume .ASK (b.plan best).price (b.plan best).askFill b₁ l₁ = some (b', l₂) ∧
        l' = l₂.advanceSlot := by
  unfold clearSlot at hclear
  split at hclear
  · cases hclear
  · obtain ⟨rfl, rfl, rfl⟩ := hclear
    exact .inl ⟨rfl, rfl⟩
  · split at hclear
    · cases hclear
    · rename_i _ best _ _ r1 b₁ l₁ hsettle
      obtain ⟨rfl, rfl, rfl⟩ := hclear
      unfold settleAndConsume at hsettle
      simp only [Option.ite_none_left_eq_some] at hsettle
      obtain ⟨_, _, hsettle⟩ := hsettle
      split at hsettle
      · cases hsettle
      rename_i hmatch
      split at hsettle
      · cases hsettle
      rename_i hfees
      split at hsettle
      · cases hsettle
      rename_i hbid
      split at hsettle
      · cases hsettle
      rename_i hask
      obtain ⟨rfl, rfl, rfl⟩ := hsettle
      exact .inr ⟨best, _, _, _, _, _, _, hmatch, hfees, hbid, hask, rfl⟩

theorem clearSlot_find?_none (hclear : clearSlot pr b l fee = some (r, b', l'))
    (h : (b.side side).find? y = none) : (b'.side side).find? y = none := by
  rcases clearSlot_stages hclear with ⟨rfl, _⟩ | ⟨_, _, _, _, _, _, _, _, _, hbid, hask, _⟩
  · exact h
  · exact consume_find?_none _ _ _ hask (consume_find?_none _ _ _ hbid h)

/-! ## Widened arithmetic -/

/-- The 128-bit intermediates of a slot stay in range. A `std::map` has fewer than `2 ^ 64`
entries, which is what bounds the demand. -/
structure Fits (b : Book) (r : ClearingResult) : Prop where
  interpolants : ∀ side, ∀ e ∈ (b.side side).entries, ∀ p ∈ e.2.points, ∀ q ∈ e.2.points,
    ∀ price ∈ b.candidatePrices, |(q.qty - p.qty) * (price - p.price)| < 2 ^ 127
  totals : ∀ side, (b.side side).size < 2 ^ 64 → ∀ price, b.sideTotal side price < 2 ^ 127
  rations : ∀ side, ∀ e ∈ b.desired side r.price, e.2 * r.volume < 2 ^ 128
  quotes : ∀ e ∈ r.bidFill ++ r.askFill, quote e.2 r.price = some (e.2 * r.price)
  notional : quote r.volume r.price = some (r.volume * r.price)
  fees : ∀ e ∈ r.askFill,
    e.2 * r.price * (r.volume * r.price / FLOWMESH_FEE_DENOMINATOR) < 2 ^ 128
  treasury : r.volume * r.price / FLOWMESH_FEE_DENOMINATOR * FLOWMESH_TREASURY_PERCENT < 2 ^ 128

theorem abs_mul_lt {x y : Int} (hx : |x| ≤ MAX_MONEY) (hy : |y| ≤ MAX_MONEY) :
    |x * y| < 2 ^ 127 := by
  rw [abs_mul]
  calc |x| * |y| ≤ MAX_MONEY * MAX_MONEY := mul_le_mul hx hy (abs_nonneg y) (by decide)
    _ < 2 ^ 127 := by decide

theorem mul_lt_wide {x y : Int} (hx : MoneyRange x) (hy : MoneyRange y) : x * y < 2 ^ 128 :=
  calc x * y ≤ MAX_MONEY * MAX_MONEY := mul_le_mul hx.2 hy.2 hy.1 (by decide)
    _ < 2 ^ 128 := by decide

theorem MarketOk.entry (h : MarketOk b l) {e : AccountId × Curve} (he : e ∈ (b.side side).entries) :
    (∀ p ∈ e.2.points, p.inRange) ∧ ∀ price, MoneyRange (e.2.effectiveQty price) := by
  obtain ⟨⟨a, rest, hok⟩, _⟩ := h.curve side he
  refine ⟨fun p hp => hok.valid.inRange p (hok.points ▸ hp), fun price => ?_⟩
  have hf := hok.filled
  have htop : evalCurve e.2.points price ≤ MAX_MONEY := by
    rw [hok.points]
    cases side with
    | BID => exact (hok.valid.eval_bid price).2.1.trans (hok.valid.inRange a (by simp)).1.2
    | ASK =>
      exact (hok.valid.eval_ask price).1.trans (hok.valid.inRange _ (lastPoint_mem a rest)).1.2
  have := MAX_MONEY_eq
  exact ⟨le_max_left _ _, max_le (by omega) (by omega)⟩

/-- The demand of a side is bounded by its number of curves. -/
theorem MarketOk.sideTotal_le (h : MarketOk b l) (side : Side) (price : Int) :
    b.sideTotal side price ≤ (b.side side).size * MAX_MONEY := by
  have hle := sum_le_card_nsmul
    ((b.side side).entries.map fun e => e.2.effectiveQty price) MAX_MONEY fun x hx => by
      obtain ⟨e, he, rfl⟩ := mem_map.mp hx
      exact ((h.entry he).2 price).2
  rw [length_map, nsmul_eq_mul] at hle
  exact hle

theorem MarketOk.fits_book (h : MarketOk b l) :
    (∀ side, ∀ e ∈ (b.side side).entries, ∀ p ∈ e.2.points, ∀ q ∈ e.2.points,
      ∀ price ∈ b.candidatePrices, |(q.qty - p.qty) * (price - p.price)| < 2 ^ 127) ∧
    ∀ side, (b.side side).size < 2 ^ 64 → ∀ price, b.sideTotal side price < 2 ^ 127 := by
  refine ⟨fun side e he p hp q hq price hprice => ?_, fun side hsize price => ?_⟩
  · have hp' := (h.entry he).1 p hp
    have hq' := (h.entry he).1 q hq
    have hc := h.candidate hprice
    exact abs_mul_lt (abs_sub_le_of_nonneg_of_le hq'.1.1 hq'.1.2 hp'.1.1 hp'.1.2)
      (abs_sub_le_of_nonneg_of_le hc.1 hc.2 hp'.2.1 hp'.2.2)
  · have hle := h.sideTotal_le side price
    have hmax := MAX_MONEY_eq
    rw [hmax] at hle
    omega

theorem MarketOk.fits (h : MarketOk b l) (hr : Cleared b r) : Fits b r := by
  have hnotional := h.notional_le hr
  have hvp : 0 ≤ r.volume * r.price := mul_nonneg hr.volume.le hr.price
  have hask : ∀ e ∈ r.askFill, MoneyRange (e.2 * r.price) := by
    intro e he
    have hle : e.2 ≤ r.volume := hr.askSum ▸ single_le_sum
      (fun x hx => by obtain ⟨f, hf, rfl⟩ := mem_map.mp hx; exact hr.asks.nonneg f hf) e.2
      (mem_map.mpr ⟨e, he, rfl⟩)
    exact ⟨mul_nonneg (hr.asks.nonneg e he) hr.price,
      (mul_le_mul_of_nonneg_right hle hr.price).trans hnotional⟩
  have hfee : MoneyRange (r.volume * r.price / FLOWMESH_FEE_DENOMINATOR) := by
    unfold FLOWMESH_FEE_DENOMINATOR
    exact ⟨by omega, by omega⟩
  have hvol : MoneyRange r.volume := ⟨hr.volume.le, h.volume_le hr⟩
  refine ⟨h.fits_book.1, h.fits_book.2, fun side e he => ?_, fun e he => ?_,
    quote_of_le hr.volume.le hr.price hnotional, fun e he => mul_lt_wide (hask e he) hfee, ?_⟩
  · obtain ⟨c, hc, heq, _⟩ := Book.mem_desired he
    rw [heq]
    exact mul_lt_wide ((h.entry (find?_eq_some.mp hc)).2 _) hvol
  · rcases mem_append.mp he with he | he
    · by_cases hpos : 0 < e.2
      · obtain ⟨c, _, _, _, hq⟩ := h.fill_le hr.price hr.bids he hpos
        exact hq
      · have hz : e.2 = 0 := le_antisymm (not_lt.mp hpos) (hr.bids.nonneg e he)
        rw [hz]
        exact quote_of_le (le_refl 0) hr.price (by rw [zero_mul]; decide)
    · exact quote_of_le (hr.asks.nonneg e he) hr.price (hask e he).2
  · exact mul_lt_wide hfee (by decide)

end B3Coin.FlowMesh
