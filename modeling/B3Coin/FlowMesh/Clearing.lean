import B3Coin.FlowMesh.Curve
import B3Coin.FlowMesh.FeeAllocation

/-!
# Batch clearing

`ClearingEngine` of `flowmesh/clearing.h`: the persistent book, its submissions and
cancellations, and the clearing of a slot at one uniform price. The book's
`std::map<std::pair<Side, AccountId>, Curve>` is one map per side; its iteration
order is all bids, then all asks, each by account. `none` is the fatal `nullopt`
and leaves book and ledger as they were, since settlement is staged on copies.
-/
namespace B3Coin.FlowMesh

open LargestRemainder

structure Curve where
  points : List Breakpoint
  filled : Int := 0
  reserved : Int := 0
  deriving DecidableEq

/-- `ClearingEngine`; its constructor throws unless the last three fields hold. -/
structure Book where
  base : AssetId
  quote : AssetId
  maxK : Nat
  bids : OrderedMap AccountId Curve := ∅
  asks : OrderedMap AccountId Curve := ∅
  distinct : base ≠ quote
  maxK_pos : 0 < maxK
  maxK_le : maxK ≤ HARD_MAX_CURVE_POINTS
  deriving DecidableEq

namespace Book

def side (b : Book) : Side → OrderedMap AccountId Curve
  | .BID => b.bids
  | .ASK => b.asks

section

variable (b : Book) (l : Ledger) (account : AccountId) (side : Side)

def withSide : Side → OrderedMap AccountId Curve → Book
  | .BID, m => { b with bids := m }
  | .ASK, m => { b with asks := m }

/-- The asset a curve of this side reserves. -/
def reserveAsset : Side → AssetId
  | .BID => b.quote
  | .ASK => b.base

def curveReserved (account : AccountId) : Int :=
  (((b.side side).find? account).map (·.reserved)).getD 0

/-- `SubmitCurve`: adjust the reservation by the difference, then replace the curve. -/
def submitCurve (points : List Breakpoint) : Option (Book × Ledger) :=
  if ¬ curveIsValid b.maxK side points then none
  else
    match worstCaseReservation side points with
    | none => none
    | some need =>
      let old := b.curveReserved side account
      let asset := b.reserveAsset side
      let adjusted :=
        if need > old then l.reserve account asset (need - old)
        else if need < old then l.release account asset (old - need)
        else some l
      match adjusted with
      | none => none
      | some l' => some (b.withSide side ((b.side side).insert account ⟨points, 0, need⟩), l')

/-- `CancelCurve`. -/
def cancelCurve : Option (Book × Ledger) :=
  match (b.side side).find? account with
  | none => none
  | some c =>
    match (if c.reserved > 0 then l.release account (b.reserveAsset side) c.reserved
        else some l) with
    | none => none
    | some l' => some (b.withSide side ((b.side side).erase account), l')

end

end Book

/-- What a curve still demands or offers at a price. -/
def Curve.effectiveQty (c : Curve) (price : Int) : Int := max 0 (evalCurve c.points price - c.filled)

structure ClearingResult where
  cleared : Bool := false
  price : Int := 0
  volume : Int := 0
  imbalance : Int := 0
  bidFill : List (AccountId × Int) := []
  askFill : List (AccountId × Int) := []
  fees : FlowMeshFeeAllocation := {}
  deriving DecidableEq

namespace Book

/-- `CandidatePrices`: every breakpoint price of the book, ascending. -/
def candidatePrices (b : Book) : List Int :=
  (((b.bids.entries ++ b.asks.entries).flatMap fun e => e.2.points.map (·.price)).dedup).insertionSort
    (· ≤ ·)

/-- `SideTotal128`. -/
def sideTotal (b : Book) (side : Side) (price : Int) : Int :=
  (b.side side).total fun _ c => c.effectiveQty price

/-- The best price found so far; the imbalance is exact. -/
structure Best where
  price : Int
  volume : Int
  imbalance : Int
  deriving DecidableEq

/-- The price loop of `ClearSlot`: more volume, then less imbalance, then the lower price. -/
def searchPrice (b : Book) : List Int → Option Best → Option (Option Best)
  | [], best => some best
  | p :: ps, best =>
    let demand := b.sideTotal .BID p
    let supply := b.sideTotal .ASK p
    let volume := if demand < supply then demand else supply
    let imbalance := if demand > supply then demand - supply else supply - demand
    let better := match best with
      | none => true
      | some x => volume > x.volume || (volume == x.volume && imbalance < x.imbalance)
    if volume ≤ 0 then b.searchPrice ps best
    else if better then
      if volume > MAX_MONEY then none else b.searchPrice ps (some ⟨p, volume, imbalance⟩)
    else b.searchPrice ps best

/-- What each account of a side wants at a price; accounts that want nothing are left out. -/
def desired (b : Book) (side : Side) (price : Int) : List (AccountId × Int) :=
  ((b.side side).entries.map fun e => (e.1, e.2.effectiveQty price)).filter (0 < ·.2)

/-- The rationing order: larger remainders first, equal ones in account order. -/
def byRem (a b : Quota AccountId) : Prop := b.rem ≤ a.rem

instance : DecidableRel byRem := fun _ _ => inferInstanceAs (Decidable (_ ≤ _))

section

variable (b : Book) (l : Ledger) (price : Int) (e : AccountId × Int)

/-- `Allocate`: the short side is filled, the long side rationed to `volume`. -/
def allocate (side : Side) (price volume : Int) : List (AccountId × Int) :=
  let total := ((b.desired side price).map (·.2)).sum
  if total ≤ volume then b.desired side price
  else apportion byRem volume total (b.desired side price)

/-! ## Settlement -/

/-- The checks on every bid fill before the first mutation. -/
def bidPreflight : Bool :=
  e.2 ≤ 0 ||
    match FlowMesh.quote e.2 price, b.bids.find? e.1 with
    | some q, some c => q ≤ c.reserved && q ≤ l.reserved e.1 b.quote
    | _, _ => false

def askPreflight : Bool :=
  e.2 ≤ 0 ||
    match b.asks.find? e.1 with
    | some c => e.2 ≤ c.reserved && e.2 ≤ l.reserved e.1 b.base
    | none => false

/-- One pairwise fill: the buyer pays, unless the quote is zero, then the seller delivers. -/
def settleFill (bid ask : AccountId) (fill : Int) : Option Ledger :=
  match FlowMesh.quote fill price with
  | none => none
  | some q =>
    match (if q > 0 then l.moveReservedToAvailable bid ask b.quote q else some l) with
    | none => none
    | some paid => paid.moveReservedToAvailable ask bid b.base fill

end

/-- Fills left to match, counted so that emptying one is progress. -/
def openFills (fills : List (AccountId × Int)) : Nat :=
  (fills.map fun e => if e.2 = 0 then 1 else 2).sum

/-- The two-pointer loop of `SettleAndConsume`. -/
def matchFills (b : Book) (price : Int) :
    List (AccountId × Int) → List (AccountId × Int) → Ledger → Option Ledger
  | [], _, l => some l
  | _ :: _, [], l => some l
  | (bid, bRem) :: bids, (ask, aRem) :: asks, l =>
    if _hb : bRem = 0 then b.matchFills price bids ((ask, aRem) :: asks) l
    else if _ha : aRem = 0 then b.matchFills price ((bid, bRem) :: bids) asks l
    else
      match b.settleFill l price bid ask (min bRem aRem) with
      | none => none
      | some l' =>
        b.matchFills price ((bid, bRem - min bRem aRem) :: bids) ((ask, aRem - min bRem aRem) :: asks)
          l'
  termination_by bids asks => openFills bids + openFills asks
  decreasing_by
    · simp only [openFills, List.map_cons, List.sum_cons, if_pos _hb]
      omega
    · simp only [openFills, List.map_cons, List.sum_cons, if_pos _ha]
      omega
    · simp only [openFills, List.map_cons, List.sum_cons, if_neg _hb, if_neg _ha]
      rcases min_choice bRem aRem with h | h <;> rw [h, sub_self, if_pos rfl] <;> split_ifs <;> omega

/-- The sellers' gross proceeds in account order. -/
def sellerProceeds (price : Int) : List (AccountId × Int) → Option (List SellerQuoteProceeds)
  | [] => some []
  | e :: rest =>
    if e.2 ≤ 0 then sellerProceeds price rest
    else
      match FlowMesh.quote e.2 price, sellerProceeds price rest with
      | some gross, some ps => some (if gross > 0 then ⟨e.1, gross⟩ :: ps else ps)
      | _, _ => none

def chargeSellers (asset : AssetId) : List SellerFeeShare → Ledger → Option Ledger
  | [], l => some l
  | x :: rest, l =>
    match (if x.fee > 0 then l.chargeFee x.account asset x.fee else some l) with
    | none => none
    | some l' => chargeSellers asset rest l'

/-- Rewards leave the fee account in seat order. -/
def payRewards (asset : AssetId) : List (AccountId × Int) → Ledger → Option Ledger
  | [], l => some l
  | x :: rest, l =>
    match (if x.2 > 0 then l.moveAvailableToAvailable FeeAccount x.1 asset x.2 else some l) with
    | none => none
    | some l' => payRewards asset rest l'

section

variable (pr : Primitives) (b : Book) (l : Ledger) (r : ClearingResult)

/-- The fee section of `SettleAndConsume`. -/
def collectFees (c : FlowMeshFeeContext) : Option (FlowMeshFeeAllocation × Ledger) :=
  if b.quote ≠ NativeAsset ∨ ¬ c.isCanonical pr then none
  else
    match sellerProceeds r.price r.askFill, FlowMesh.quote r.volume r.price with
    | some proceeds, some matched =>
      match allocateFlowMeshFees matched proceeds (c.seats.map (·.seatId)) with
      | .error _ => none
      | .ok allocation =>
        match chargeSellers b.quote allocation.sellerFees l with
        | none => none
        | some charged =>
          match payRewards b.quote ((c.treasuryAccount pr, allocation.treasuryFee) ::
              (c.seats.zip allocation.seatRewards).map fun x => (c.seatAccount pr x.1, x.2.reward))
              charged with
          | none => none
          | some paid => some (allocation, paid)
    | _, _ => none

/-- No context means no fee. -/
def applyFees : Option FlowMeshFeeContext → Option (FlowMeshFeeAllocation × Ledger)
  | none => some (r.fees, l)
  | some c => collectFees pr b l r c

end

/-- What one fill takes from the reservation of its curve. -/
def consumed : Side → Int → Int → Option Int
  | .BID, fill, price => FlowMesh.quote fill price
  | .ASK, fill, _ => some fill

def Curve.exhausted (c : Curve) : Bool :=
  match c.points with
  | [] => true
  | a :: rest =>
    evalCurve c.points (lastPoint a rest).price - c.filled ≤ 0 &&
      evalCurve c.points a.price - c.filled ≤ 0

/-- The loop of `Consume`. -/
def consume (side : Side) (price : Int) : List (AccountId × Int) → Book → Ledger →
    Option (Book × Ledger)
  | [], b, l => some (b, l)
  | e :: rest, b, l =>
    if e.2 ≤ 0 then consume side price rest b l
    else
      match (b.side side).find? e.1 with
      | none => consume side price rest b l
      | some c =>
        match consumed side e.2 price with
        | none => none
        | some x =>
          if x > c.reserved then none
          else
            let c' := { c with filled := c.filled + e.2, reserved := c.reserved - x }
            if Curve.exhausted c' then
              match (if c'.reserved > 0 then l.release e.1 (b.reserveAsset side) c'.reserved
                  else some l) with
              | none => none
              | some l' => consume side price rest (b.withSide side ((b.side side).erase e.1)) l'
            else consume side price rest (b.withSide side ((b.side side).insert e.1 c')) l

/-- `SettleAndConsume`. -/
def settleAndConsume (pr : Primitives) (b : Book) (l : Ledger) (r : ClearingResult)
    (fee : Option FlowMeshFeeContext) : Option (ClearingResult × Book × Ledger) :=
  if (∃ e ∈ r.bidFill ++ r.askFill, e.2 < 0) ∨ (r.bidFill.map (·.2)).sum ≠ r.volume ∨
      (r.askFill.map (·.2)).sum ≠ r.volume then none
  else if ¬ r.bidFill.all (b.bidPreflight l r.price) ∨ ¬ r.askFill.all (b.askPreflight l) then none
  else
    match b.matchFills r.price r.bidFill r.askFill l with
    | none => none
    | some settled =>
      match applyFees pr b settled r fee with
      | none => none
      | some (fees, paid) =>
        match consume .BID r.price r.bidFill b paid with
        | none => none
        | some (b₁, l₁) =>
          match consume .ASK r.price r.askFill b₁ l₁ with
          | none => none
          | some (b₂, l₂) => some ({ r with fees := fees }, b₂, l₂)

/-- The result at the best price, before it is settled. -/
def plan (b : Book) (best : Best) : ClearingResult where
  cleared := true
  price := best.price
  volume := best.volume
  imbalance := min best.imbalance MAX_MONEY
  bidFill := b.allocate .BID best.price best.volume
  askFill := b.allocate .ASK best.price best.volume

/-- `ClearSlot`. -/
def clearSlot (pr : Primitives) (b : Book) (l : Ledger) (fee : Option FlowMeshFeeContext) :
    Option (ClearingResult × Book × Ledger) :=
  match b.searchPrice b.candidatePrices none with
  | none => none
  | some none => some ({}, b, l.advanceSlot)
  | some (some best) =>
    match settleAndConsume pr b l (b.plan best) fee with
    | none => none
    | some (r, b', l') => some (r, b', l'.advanceSlot)

end Book

end B3Coin.FlowMesh
