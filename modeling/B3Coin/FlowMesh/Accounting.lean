import B3Coin.FlowMesh.Settlement
import Mathlib.Data.List.Dedup

/-!
# The book and the ledger agree

A standing bid keeps at least the staircase cost of its unfilled lots, a standing
ask exactly its unfilled lots, and every account's reserved balance is the sum of
what its curves keep. Submissions, cancellations and fills preserve this; the last
section shows that a cleared slot always settles.
-/
namespace B3Coin.FlowMesh

open Ledger List OrderedMap LargestRemainder Curve

/-! ## Curves -/

/-- What one lot of this side takes from its curve's reservation. -/
def lotPrice : Side → Int → Int
  | .BID, price => price
  | .ASK, _ => 1

/-- The reservation of a standing curve covers everything it can still be asked for. -/
structure CurveOk (side : Side) (c : Curve) (a : Breakpoint) (rest : List Breakpoint) : Prop where
  points : c.points = a :: rest
  valid : ValidCurve side a rest
  filled : 0 ≤ c.filled
  reserved : MoneyRange c.reserved
  covered : match side with
    | .BID => remainingCost c.filled a rest ≤ c.reserved
    | .ASK => c.reserved = (lastPoint a rest).qty - c.filled

variable {side : Side}

theorem curveOk_submitted {maxK : Nat} {points : List Breakpoint} {need : Int}
    (hv : curveIsValid maxK side points = true) (hn : worstCaseReservation side points = some need) :
    ∃ a rest, CurveOk side ⟨points, 0, need⟩ a rest := by
  obtain ⟨a, rest, rfl, hvalid⟩ := curveIsValid_cons hv
  refine ⟨a, rest, rfl, hvalid, le_refl 0, ?_, ?_⟩
  · cases side with
    | BID => exact (bidWorst_some hvalid.inRange ⟨le_refl 0, by decide⟩ hn).2
    | ASK =>
      obtain rfl := Option.some.inj hn
      exact (hvalid.inRange _ (lastPoint_mem a rest)).1
  · cases side with
    | BID =>
      have := (bidWorst_some hvalid.inRange ⟨le_refl 0, by decide⟩ hn).1
      simp only
      omega
    | ASK =>
      obtain rfl := Option.some.inj hn
      exact (sub_zero _).symm

variable {side : Side} {c : Curve} {a : Breakpoint} {rest : List Breakpoint} {x price : Int}

/-- The curve after `x` lots at `price`. -/
def Curve.fill (c : Curve) (side : Side) (x price : Int) : Curve :=
  { c with filled := c.filled + x, reserved := c.reserved - x * lotPrice side price }

section

variable (h : CurveOk side c a rest) (hp : 0 ≤ price) (hx : 0 < x) (hle : x ≤ c.effectiveQty price)

include h hp hx hle

/-- A fill within the effective quantity is paid for, and leaves the rest covered. -/
theorem CurveOk.fill :
    x * lotPrice side price ≤ c.reserved ∧ CurveOk side (c.fill side x price) a rest := by
  have heval : c.filled + x ≤ evalCurve (a :: rest) price := by
    have := hle
    rw [effectiveQty, h.points] at this
    omega
  have hf := h.filled
  cases side with
  | BID =>
    have hcost := h.valid.fill_cost hf (by omega) heval
    have hrest : 0 ≤ remainingCost (c.filled + x) a rest :=
      remainingCost_nonneg h.valid.inRange h.valid.chain
    have hcov := h.covered
    have hnn : 0 ≤ x * price := mul_nonneg hx.le hp
    have hfill : (c.filled + x - c.filled) * price = x * price := by ring
    have hmax := h.reserved.2
    simp only [lotPrice]
    refine ⟨by omega, h.points, h.valid, by simp only [fill]; omega, ⟨?_, ?_⟩, ?_⟩ <;>
      simp only [fill, lotPrice] <;> omega
  | ASK =>
    have htop := (h.valid.eval_ask price).1
    have hcov := h.covered
    have hmax := h.reserved.2
    simp only [lotPrice, mul_one]
    refine ⟨by omega, h.points, h.valid, by simp only [fill]; omega, ⟨?_, ?_⟩, ?_⟩ <;>
      simp only [fill, lotPrice, mul_one] <;> omega

theorem consumed_eq : Book.consumed side x price = some (x * lotPrice side price) := by
  have := (h.fill hp hx hle).1
  have := h.reserved.2
  cases side with
  | BID => exact quote_of_le hx.le hp (by simp only [lotPrice] at *; omega)
  | ASK => simp [Book.consumed, lotPrice]

end

/-! ## The book -/

/-- What the standing curves of an account reserve in an asset. -/
def Book.reservedFor (b : Book) (x : AccountId) (s : AssetId) : Int :=
  (if s = b.quote then b.curveReserved .BID x else 0) +
    (if s = b.base then b.curveReserved .ASK x else 0)

theorem Book.reservedFor_side (b : Book) (side : Side) (x : AccountId) :
    b.reservedFor x (b.reserveAsset side) = b.curveReserved side x := by
  unfold reservedFor
  cases side with
  | BID => simp [reserveAsset, b.distinct.symm]
  | ASK => simp [reserveAsset, b.distinct]

/-- Every standing curve is covered. -/
def Book.Covered (b : Book) : Prop :=
  ∀ side x c, (b.side side).find? x = some c → ∃ a rest, CurveOk side c a rest

/-- Two books of one market, equal on the other side. -/
structure Book.SameMarket (b b' : Book) (side : Side) : Prop where
  base : b'.base = b.base
  quote : b'.quote = b.quote
  maxK : b'.maxK = b.maxK
  other : ∀ side', side' ≠ side → b'.side side' = b.side side'

theorem Book.sameMarket_withSide (b : Book) (side : Side) (m : OrderedMap AccountId Curve) :
    b.SameMarket (b.withSide side m) side where
  base := by cases side <;> rfl
  quote := by cases side <;> rfl
  maxK := by cases side <;> rfl
  other side' h := by cases side <;> cases side' <;> first | rfl | exact absurd rfl h

@[simp] theorem Book.side_withSide (b : Book) (side : Side) (m : OrderedMap AccountId Curve) :
    (b.withSide side m).side side = m := by cases side <;> rfl

variable {b : Book}

theorem Book.SameMarket.trans {b' b'' : Book} (h : b.SameMarket b' side)
    (h' : b'.SameMarket b'' side) : b.SameMarket b'' side where
  base := h'.base.trans h.base
  quote := h'.quote.trans h.quote
  maxK := h'.maxK.trans h.maxK
  other s hs := (h'.other s hs).trans (h.other s hs)

theorem Book.SameMarket.reserveAsset {b' : Book} (h : b.SameMarket b' side)
    (s : Side) : b'.reserveAsset s = b.reserveAsset s := by
  cases s
  · exact h.quote
  · exact h.base

/-- Changing one side changes the reservations of that side's asset only. -/
theorem Book.reservedFor_withSide (b : Book) (side : Side) (m : OrderedMap AccountId Curve)
    (x : AccountId) (s : AssetId) : (b.withSide side m).reservedFor x s = b.reservedFor x s +
      if s = b.reserveAsset side then
        (((m.find? x).map (·.reserved)).getD 0 - b.curveReserved side x) else 0 := by
  cases side with
  | BID =>
    simp only [reservedFor, withSide, reserveAsset, curveReserved, Book.side]
    by_cases hq : s = b.quote
    · simp only [hq, ↓reduceIte]
      ring
    · by_cases hb : s = b.base <;> simp [hq, hb, b.distinct]
  | ASK =>
    simp only [reservedFor, withSide, reserveAsset, curveReserved, Book.side]
    by_cases hb : s = b.base
    · simp only [hb, ↓reduceIte]
      ring
    · by_cases hq : s = b.quote <;> simp [hq, hb, b.distinct.symm]

theorem Book.covered_insert (h : b.Covered) {x : AccountId} (hc : CurveOk side c a rest) :
    (b.withSide side ((b.side side).insert x c)).Covered := by
  intro side' y c' hy
  by_cases hs : side' = side
  · subst hs
    rw [side_withSide, find?_insert] at hy
    split_ifs at hy with hyx
    · obtain rfl := Option.some.inj hy
      exact ⟨a, rest, hc⟩
    · exact h side' y c' hy
  · rw [(b.sameMarket_withSide side _).other side' hs] at hy
    exact h side' y c' hy

theorem Book.covered_erase (h : b.Covered) (side : Side) (x : AccountId) :
    (b.withSide side ((b.side side).erase x)).Covered := by
  intro side' y c' hy
  by_cases hs : side' = side
  · subst hs
    rw [side_withSide, find?_erase] at hy
    split_ifs at hy
    exact h side' y c' hy
  · rw [(b.sameMarket_withSide side _).other side' hs] at hy
    exact h side' y c' hy

/-! ## Consuming fills -/

/-- The fills of one side: one per account, each within what its curve still wants. -/
structure FillsOk (b : Book) (side : Side) (price : Int) (fills : List (AccountId × Int)) :
    Prop where
  sorted : fills.Pairwise (fun x y => x.1 < y.1)
  nonneg : ∀ e ∈ fills, 0 ≤ e.2
  within : ∀ e ∈ fills, 0 < e.2 →
    ∃ c, (b.side side).find? e.1 = some c ∧ e.2 ≤ c.effectiveQty price

variable {fills : List (AccountId × Int)}

theorem FillsOk.nodup (h : FillsOk b side price fills) : (fills.map (·.1)).Nodup :=
  (pairwise_map.mpr h.sorted).imp fun hlt => ne_of_lt hlt

/-- The ledger's reservations are those of the book, less what is owed to the curves. -/
def Reconciled (b : Book) (l : Ledger) (owed : AccountId → AssetId → Int) : Prop :=
  ∀ x s, l.reserved x s = b.reservedFor x s - owed x s

variable {m : OrderedMap AccountId Curve}

/-- The fills after the first one are still within their curves once that one is consumed. -/
theorem FillsOk.tail {e : AccountId × Int} (h : FillsOk b side price (e :: fills))
    (hm : ∀ x, x ≠ e.1 → m.find? x = (b.side side).find? x) :
    FillsOk (b.withSide side m) side price fills := by
  obtain ⟨hhead, htail⟩ := pairwise_cons.mp h.sorted
  refine ⟨htail, fun f hf => h.nonneg f (by simp [hf]), fun f hf hpos => ?_⟩
  obtain ⟨c, hc, hle⟩ := h.within f (by simp [hf]) hpos
  refine ⟨c, ?_, hle⟩
  rw [Book.side_withSide, hm f.1 (ne_of_gt (hhead f hf)), hc]

variable {other : AccountId → AssetId → Int}

/-- Writing one curve of a side settles what is owed to it. -/
theorem Reconciled.write {l l' : Ledger} {owed : AccountId → AssetId → Int}
    {y : AccountId} (h : Reconciled b l owed)
    (hm : ∀ x, x ≠ y → m.find? x = (b.side side).find? x) {r : Int}
    (hl : ∀ x s, l'.reserved x s = l.reserved x s - delta y (b.reserveAsset side) r x s)
    (howed : ∀ x s, owed x s = other x s + delta y (b.reserveAsset side)
      (b.curveReserved side y - ((m.find? y).map (·.reserved)).getD 0 - r) x s) :
    Reconciled (b.withSide side m) l' other := by
  intro x s
  rw [hl, h x s, howed, Book.reservedFor_withSide]
  simp only [delta]
  by_cases hs : s = b.reserveAsset side
  · by_cases hx : x = y
    · simp only [hs, hx, and_self, ↓reduceIte]
      ring
    · have : ((m.find? x).map (·.reserved)).getD 0 = b.curveReserved side x := by
        rw [hm x hx]
        rfl
      simp only [hs, hx, false_and, ↓reduceIte, this]
      ring
  · simp only [hs, and_false, ↓reduceIte]
    ring

/-- One turn of the loop: the curve is filled, or exhausted and released, and what was owed
to it is settled. -/
theorem consume_step (hp : 0 ≤ price) {e : AccountId × Int} {l : Ledger}
    (hf : FillsOk b side price (e :: fills)) (hpos : 0 < e.2)
    (hother : ∀ x, other x (b.reserveAsset side) = 0)
    (hr : Reconciled b l (spread (b.reserveAsset side) (lotPrice side price) (e :: fills) + other))
    (hb : b.Covered) (hl : l.Nonneg) : ∃ m l' dA dR, Book.consume side price (e :: fills) b l =
        Book.consume side price fills (b.withSide side m) l' ∧
      (∀ x, x ≠ e.1 → m.find? x = (b.side side).find? x) ∧ (b.withSide side m).Covered ∧
      Reconciled (b.withSide side m) l'
        (spread (b.reserveAsset side) (lotPrice side price) fills + other) ∧
      Moved l l' dA dR ∧ l'.Nonneg := by
  obtain ⟨c, hc, hle⟩ := hf.within e (by simp) hpos
  obtain ⟨a, rest, hok⟩ := hb side e.1 c hc
  obtain ⟨hcost, hok'⟩ := hok.fill hp hpos hle
  have hcr : b.curveReserved side e.1 = c.reserved := by simp [Book.curveReserved, hc]
  have hfilled : (c.fill side e.2 price).reserved = c.reserved - e.2 * lotPrice side price := rfl
  have hlater : amountOf fills e.1 = 0 := amountOf_of_not_mem fun f hf' =>
    ne_of_gt ((pairwise_cons.mp hf.sorted).1 f hf')
  -- what the ledger still holds for this curve is what the curve keeps after the fill
  have hkept : l.reserved e.1 (b.reserveAsset side) = (c.fill side e.2 price).reserved := by
    have := hr e.1 (b.reserveAsset side)
    rw [Book.reservedFor_side, hcr, Pi.add_apply, Pi.add_apply, hother, spread, if_pos rfl,
      amountOf_cons, if_pos rfl, hlater] at this
    rw [this, hfilled]
    ring
  have hbody : Book.consume side price (e :: fills) b l =
      if Book.Curve.exhausted (c.fill side e.2 price) then
        (if (c.fill side e.2 price).reserved > 0 then
            l.release e.1 (b.reserveAsset side) (c.fill side e.2 price).reserved else some l).bind
          (Book.consume side price fills (b.withSide side ((b.side side).erase e.1)))
      else Book.consume side price fills
        (b.withSide side ((b.side side).insert e.1 (c.fill side e.2 price))) l := by
    rw [Book.consume, if_neg (not_le.mpr hpos), hc]
    simp only [consumed_eq hok hp hpos hle, if_neg (not_lt.mpr hcost)]
    refine if_congr Iff.rfl ?_ rfl
    rw [hfilled]
    split_ifs
    · cases l.release e.1 (b.reserveAsset side) (c.reserved - e.2 * lotPrice side price) <;> rfl
    · rfl
  by_cases hex : Book.Curve.exhausted (c.fill side e.2 price) = true
  · -- exhausted: the remainder is released and the curve removed
    obtain ⟨l', dA, hrel, hm, hnn⟩ : ∃ l' dA,
        (if (c.fill side e.2 price).reserved > 0 then
          l.release e.1 (b.reserveAsset side) (c.fill side e.2 price).reserved else some l) =
          some l' ∧
        Moved l l' dA (delta e.1 (b.reserveAsset side) (-(c.fill side e.2 price).reserved)) ∧
        l'.Nonneg := by
      by_cases hz : (c.fill side e.2 price).reserved > 0
      · obtain ⟨l', hl'⟩ := release_of_le hz hkept.ge
        obtain ⟨_, _, hm⟩ := release_some hl'
        refine ⟨l', _, by rw [if_pos hz, hl'], hm, fun x s => ?_⟩
        have := hl x s
        rw [hm.available, hm.reserved]
        unfold delta
        split_ifs with h
        · obtain ⟨rfl, rfl⟩ := h
          omega
        · omega
      · have hzero : (c.fill side e.2 price).reserved = 0 := by
          omega
        exact ⟨l, 0, by rw [if_neg hz],
          (Moved.refl l).congr rfl (by rw [hzero, neg_zero, delta_zero]) rfl, hl⟩
    refine ⟨(b.side side).erase e.1, l', dA, _, by rw [hbody, if_pos hex, hrel, Option.bind_some],
      fun x hx => by rw [find?_erase, if_neg hx], Book.covered_erase hb side e.1, ?_, hm,
      hnn⟩
    refine hr.write (y := e.1) (r := (c.fill side e.2 price).reserved)
      (fun x hx => by rw [find?_erase, if_neg hx])
      (fun x s => by rw [hm.reserved, delta_neg, Pi.neg_apply, Pi.neg_apply, sub_eq_add_neg])
      fun x s => ?_
    rw [spread_cons, find?_erase_self, hcr, hfilled]
    simp only [Option.map_none, Option.getD_none, sub_zero, sub_sub_cancel, Pi.add_apply]
    ring
  · -- the curve stays, with less to reserve
    refine ⟨(b.side side).insert e.1 (c.fill side e.2 price), l, 0, 0,
      by rw [hbody, if_neg hex], fun x hx => by rw [find?_insert, if_neg hx],
      Book.covered_insert hb hok', ?_, Moved.refl l, hl⟩
    refine hr.write (y := e.1) (r := 0)
      (fun x hx => by rw [find?_insert, if_neg hx])
      (fun x s => by rw [delta_zero]; exact (sub_zero _).symm) fun x s => ?_
    rw [spread_cons, find?_insert_self, hcr]
    simp only [Option.map_some, Option.getD_some, hfilled, sub_zero, sub_sub_cancel, Pi.add_apply]
    ring

/-- The loop of `Consume`: no failure, and nothing is owed to this side any more. -/
theorem consume_ok (hp : 0 ≤ price) (other : AccountId → AssetId → Int)
    (fills : List (AccountId × Int)) (b : Book) (l : Ledger) (hf : FillsOk b side price fills)
    (hother : ∀ x, other x (b.reserveAsset side) = 0)
    (hr : Reconciled b l (spread (b.reserveAsset side) (lotPrice side price) fills + other))
    (hb : b.Covered) (hl : l.Nonneg) :
    ∃ b' l' dA dR, Book.consume side price fills b l = some (b', l') ∧ b.SameMarket b' side ∧
      b'.Covered ∧ Reconciled b' l' other ∧ Moved l l' dA dR ∧ l'.Nonneg := by
  induction fills generalizing b l with
  | nil =>
    refine ⟨b, l, 0, 0, rfl, ⟨rfl, rfl, rfl, fun _ _ => rfl⟩, hb, ?_, Moved.refl l, hl⟩
    intro x s
    have := hr x s
    rwa [spread_eq_zero amountOf_nil, zero_add] at this
  | cons e fills ih =>
    by_cases hpos : 0 < e.2
    · obtain ⟨m, l1, dA, dR, hstep, hm, hcov, hrec, hmoved, hnn⟩ :=
        consume_step hp hf hpos hother hr hb hl
      have hasset := (b.sameMarket_withSide side m).reserveAsset side
      obtain ⟨b', l', dA', dR', hb', hsame, hcov', hrec', hmoved', hnn'⟩ :=
        ih (b.withSide side m) l1 (hf.tail hm) (by rwa [hasset]) (by rwa [hasset]) hcov hnn
      exact ⟨b', l', _, _, hstep.trans hb', (b.sameMarket_withSide side m).trans hsame, hcov', hrec',
        (hmoved.trans hmoved').congr rfl rfl (add_zero 0), hnn'⟩
    · have hz : e.2 = 0 := le_antisymm (not_lt.mp hpos) (hf.nonneg e (by simp))
      have htail : FillsOk b side price fills :=
        ⟨(pairwise_cons.mp hf.sorted).2, fun f h => hf.nonneg f (by simp [h]),
          fun f h => hf.within f (by simp [h])⟩
      obtain ⟨b', l', dA, dR, hb', hrest⟩ := ih b l htail hother
        (by rwa [spread_cons, hz, zero_mul, delta_zero, zero_add] at hr) hb hl
      exact ⟨b', l', dA, dR, by rw [Book.consume, if_pos (not_lt.mp hpos), hb'], hrest⟩

/-! ## Supply, prices and rations -/

/-- Book and ledger of one market between two operations. -/
structure MarketOk (b : Book) (l : Ledger) : Prop where
  covered : b.Covered
  reconciled : Reconciled b l 0
  nonneg : l.Nonneg
  cap : ∀ s, l.held s ≤ MAX_MONEY

section Market

variable {b : Book} {l : Ledger}

section

variable (h : MarketOk b l)

include h

theorem MarketOk.reserved_eq (side : Side) (x : AccountId) :
    l.reserved x (b.reserveAsset side) = b.curveReserved side x := by
  rw [h.reconciled, Book.reservedFor_side]
  exact sub_zero _

theorem MarketOk.sound : Sound b l := ⟨h.nonneg, h.cap _, h.cap _⟩

theorem MarketOk.curve (side : Side) {e : AccountId × Curve} (he : e ∈ (b.side side).entries) :
    (∃ a rest, CurveOk side e.2 a rest) ∧ b.curveReserved side e.1 = e.2.reserved := by
  have hf : (b.side side).find? e.1 = some e.2 := find?_eq_some.mpr he
  exact ⟨h.covered side e.1 e.2 hf, by simp [Book.curveReserved, hf]⟩

theorem MarketOk.reserved_le (side : Side) :
    (b.side side).total (fun _ c => c.reserved) ≤ l.held (b.reserveAsset side) := by
  refine le_trans ?_ (h.nonneg.sum_le_held _ (b.side side).keys_nodup (b.reserveAsset side))
  unfold OrderedMap.total OrderedMap.keys
  rw [map_map]
  refine sum_le_sum fun e he => ?_
  have := (h.nonneg e.1 (b.reserveAsset side)).1
  simp only [Function.comp_apply]
  rw [← (h.curve side he).2, ← h.reserved_eq]
  omega

theorem MarketOk.supply_le (price : Int) : b.sideTotal .ASK price ≤ MAX_MONEY := by
  refine le_trans ?_ ((h.reserved_le .ASK).trans (h.cap _))
  refine sum_le_sum fun e he => ?_
  obtain ⟨⟨a, rest, hok⟩, _⟩ := h.curve .ASK he
  have htop := (hok.valid.eval_ask price).1
  have hcov := hok.covered
  have hnn := hok.reserved.1
  simp only [effectiveQty, hok.points] at hcov ⊢
  omega

theorem MarketOk.candidate {p : Int} (hp : p ∈ b.candidatePrices) : MoneyRange p := by
  simp only [Book.candidatePrices, mem_insertionSort, mem_dedup, mem_flatMap,
    mem_append, mem_map] at hp
  obtain ⟨e, he, pt, hpt, rfl⟩ := hp
  have hcurve : ∃ side a rest, CurveOk side e.2 a rest := by
    rcases he with he | he
    · exact ⟨.BID, (h.curve .BID he).1⟩
    · exact ⟨.ASK, (h.curve .ASK he).1⟩
  obtain ⟨side, a, rest, hok⟩ := hcurve
  rw [hok.points] at hpt
  exact (hok.valid.inRange pt hpt).2

end

/-- What the price loop has found: a volume that both sides can trade. -/
def Book.Tradable (b : Book) : Option Book.Best → Prop
  | none => True
  | some x => 0 ≤ x.price ∧ 0 < x.volume ∧ x.volume ≤ b.sideTotal .BID x.price ∧
      x.volume ≤ b.sideTotal .ASK x.price

/-- The loop never meets a volume outside the monetary range. -/
theorem MarketOk.searchPrice (h : MarketOk b l) (ps : List Int) (best : Option Book.Best)
    (hps : ∀ p ∈ ps, 0 ≤ p) (hbest : b.Tradable best) :
    ∃ r, b.searchPrice ps best = some r ∧ b.Tradable r := by
  induction ps generalizing best with
  | nil => exact ⟨best, rfl, hbest⟩
  | cons p ps ih =>
    have hrest : ∀ q ∈ ps, 0 ≤ q := fun q hq => hps q (by simp [hq])
    have hsupply := h.supply_le p
    simp only [Book.searchPrice]
    generalize hv : (if b.sideTotal .BID p < b.sideTotal .ASK p then b.sideTotal .BID p
      else b.sideTotal .ASK p) = volume
    have hvol : volume ≤ b.sideTotal .BID p ∧ volume ≤ b.sideTotal .ASK p := by
      split_ifs at hv <;> omega
    generalize (if b.sideTotal .BID p > b.sideTotal .ASK p then
      b.sideTotal .BID p - b.sideTotal .ASK p else b.sideTotal .ASK p - b.sideTotal .BID p) = gap
    by_cases hpos : volume ≤ 0
    · simp only [hpos, if_true]
      exact ih best hrest hbest
    · split_ifs with hbetter hmax
      · omega
      · exact ih _ hrest ⟨hps p (by simp), not_le.mp hpos, hvol⟩
      · exact ih best hrest hbest

theorem Curve.effectiveQty_nonneg (c : Curve) (price : Int) : 0 ≤ c.effectiveQty price :=
  le_max_left _ _

section

variable (b : Book) (side : Side) (price : Int)

theorem Book.desired_sum : ((b.desired side price).map (·.2)).sum = b.sideTotal side price := by
  unfold desired sideTotal OrderedMap.total
  induction (b.side side).entries with
  | nil => rfl
  | cons e rest ih =>
    have := e.2.effectiveQty_nonneg price
    simp only [map_cons, sum_cons, filter_cons] at ih ⊢
    split_ifs with hpos
    · simp [ih]
    · simp only [decide_eq_true_eq, not_lt] at hpos
      omega

theorem Book.desired_sorted : (b.desired side price).Pairwise (fun x y => x.1 < y.1) := by
  refine List.Pairwise.filter _ (pairwise_map.mpr ?_)
  exact (b.side side).sorted

end

theorem Book.mem_desired {e : AccountId × Int} (he : e ∈ b.desired side price) :
    ∃ c, (b.side side).find? e.1 = some c ∧ e.2 = c.effectiveQty price ∧ 0 < e.2 := by
  obtain ⟨hm, hpos⟩ := mem_filter.mp he
  obtain ⟨f, hf, rfl⟩ := mem_map.mp hm
  exact ⟨f.2, find?_eq_some.mpr hf, rfl, by simpa using hpos⟩

instance : Std.Total Book.byRem := ⟨fun a b => le_total b.rem a.rem⟩

instance : IsTrans _ Book.byRem := ⟨fun _ _ _ hab hbc => le_trans hbc hab⟩

/-- A side that wants at least the volume is rationed to it exactly. -/
theorem Book.allocate_ok (b : Book) (side : Side) {volume : Int} (hv : 0 < volume)
    (hle : volume ≤ b.sideTotal side price) : FillsOk b side price (b.allocate side price volume) ∧
      ((b.allocate side price volume).map (·.2)).sum = volume := by
  unfold allocate
  simp only [desired_sum]
  split_ifs with hshort
  · refine ⟨⟨b.desired_sorted side price, fun e he => ?_, fun e he _ => ?_⟩, ?_⟩
    · obtain ⟨_, _, _, hpos⟩ := mem_desired he
      exact hpos.le
    · obtain ⟨c, hc, heq, _⟩ := mem_desired he
      exact ⟨c, hc, heq.le⟩
    · rw [desired_sum]
      omega
  · have htotal : 0 < b.sideTotal side price := by omega
    have hnd : ((b.desired side price).map (·.1)).Nodup :=
      (pairwise_map.mpr (b.desired_sorted side price)).imp fun hlt => ne_of_lt hlt
    have hshare : ∀ e ∈ apportion byRem volume (b.sideTotal side price)
        (b.desired side price), ∃ w, (e.1, w) ∈ b.desired side price ∧ 0 ≤ e.2 ∧ e.2 ≤ w :=
      fun e he => apportion_le (fun _ _ h => h) htotal (desired_sum ..) hnd
        (fun w hw => by obtain ⟨_, _, _, hpos⟩ := mem_desired hw; exact hpos.le) hv.le hle he
    refine ⟨⟨?_, fun e he => ?_, fun e he _ => ?_⟩,
      apportion_sum htotal (desired_sum ..) hnd⟩
    · rw [← pairwise_map (f := Prod.fst) (R := fun x y => x < y),
        apportion_keys, pairwise_map]
      exact b.desired_sorted side price
    · obtain ⟨_, _, hnn, _⟩ := hshare e he
      exact hnn
    · obtain ⟨w, hw, _, hle'⟩ := hshare e he
      obtain ⟨c, hc, heq, _⟩ := mem_desired hw
      exact ⟨c, hc, heq ▸ hle'⟩

end Market

end B3Coin.FlowMesh
