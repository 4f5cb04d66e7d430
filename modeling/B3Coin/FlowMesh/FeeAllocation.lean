import B3Coin.FlowMesh.Ledger
import B3Coin.Lib.LargestRemainder
import B3Coin.Lib.SortUnique

/-!
# Fee allocation

`flowmesh/fee_allocation.h`: the fee of one cleared slot, withheld from the sellers
by largest remainder and divided between the treasury and the seats of the epoch.
Every bare `nullopt` of the source is `ARITHMETIC_INVARIANT_FAILURE`, the value its
`check` argument starts with. `allocateFlowMeshFees_ok` shows that no such failure
is reachable from canonical input.
-/
namespace B3Coin.FlowMesh

open LargestRemainder List Function

abbrev SeatId := Uint256
abbrev BlsPubkey := Nat

structure FlowMeshFeeSeat where
  seatId : SeatId
  blsPubkey : BlsPubkey
  deriving DecidableEq

structure FlowMeshFeeContext where
  marketId : MarketId
  epoch : UInt64
  treasuryOwnerCommitment : Uint256
  seats : List FlowMeshFeeSeat
  deriving DecidableEq

/-- The digests and the key decoder the market's accounting rests on. -/
structure Primitives where
  receiptHash : ReceiptPreimage → Uint256
  seatRewardAccount : MarketId → UInt64 → FlowMeshFeeSeat → AccountId
  treasuryFeeAccount : MarketId → Uint256 → AccountId
  /-- `bls::PublicKey::Decode` succeeds. -/
  decodesPublicKey : BlsPubkey → Bool

def FLOWMESH_FEE_DENOMINATOR : Int := 10000
def FLOWMESH_TREASURY_PERCENT : Int := 20
def FLOWMESH_MAX_FEE_SEATS : Nat := 5000

/-- `FlowMeshSeatRewardAccount`. -/
def FlowMeshFeeContext.seatAccount (c : FlowMeshFeeContext) (pr : Primitives)
    (seat : FlowMeshFeeSeat) : AccountId := pr.seatRewardAccount c.marketId c.epoch seat

/-- `FlowMeshTreasuryFeeAccount`. -/
def FlowMeshFeeContext.treasuryAccount (c : FlowMeshFeeContext) (pr : Primitives) : AccountId :=
  pr.treasuryFeeAccount c.marketId c.treasuryOwnerCommitment

/-- `FlowMeshFeeContextIsCanonical`. -/
def FlowMeshFeeContext.isCanonical (pr : Primitives) (c : FlowMeshFeeContext) : Bool :=
  c.marketId != 0 && c.treasuryOwnerCommitment != 0 && 4 ≤ c.seats.length &&
    c.seats.length ≤ FLOWMESH_MAX_FEE_SEATS &&
    c.seats.all (fun s => s.seatId != 0 && pr.decodesPublicKey s.blsPubkey) &&
    decide (c.seats.map (·.blsPubkey)).Nodup &&
    decide ((c.seats.map (·.seatId)).IsChain (· < ·))

structure SellerQuoteProceeds where
  account : AccountId
  amount : Int
  deriving DecidableEq

structure SellerFeeShare where
  account : AccountId
  grossQuoteProceeds : Int
  fee : Int
  netQuoteProceeds : Int
  deriving DecidableEq

structure SeatFeeShare where
  seatId : SeatId
  reward : Int
  deriving DecidableEq

structure FlowMeshFeeAllocation where
  matchedB3QuoteNotional : Int := 0
  feeTotal : Int := 0
  treasuryFee : Int := 0
  seatFee : Int := 0
  sellerFees : List SellerFeeShare := []
  seatRewards : List SeatFeeShare := []
  deriving DecidableEq

inductive FeeAllocationCheck where
  | MATCHED_NOTIONAL_OUT_OF_RANGE | SELLER_PROCEEDS_OUT_OF_RANGE | DUPLICATE_SELLER
  | SELLER_TOTAL_OUT_OF_RANGE | SELLER_TOTAL_MISMATCH | TOO_MANY_SEATS | NON_CANONICAL_SEATS
  | NO_SEATS_FOR_REWARD | ARITHMETIC_INVARIANT_FAILURE
  deriving DecidableEq

/-- The sellers are checked in account order while their proceeds are added up. -/
def sumSellers : Option AccountId → Int → List SellerQuoteProceeds → Except FeeAllocationCheck Int
  | _, total, [] => .ok total
  | prev, total, s :: rest =>
    if ¬ MoneyRange s.amount ∨ s.amount = 0 then .error .SELLER_PROCEEDS_OUT_OF_RANGE
    else if prev = some s.account then .error .DUPLICATE_SELLER
    else if total + s.amount > MAX_MONEY then .error .SELLER_TOTAL_OUT_OF_RANGE
    else sumSellers (some s.account) (total + s.amount) rest

/-- The floor of a seller's share of the fee, and its remainder. -/
def sellerQuota (feeTotal matched : Int) (s : SellerQuoteProceeds) : Quota AccountId :=
  if matched = 0 then ⟨s.account, 0, 0⟩ else quota feeTotal matched (s.account, s.amount)

/-- The range checks on the base fees, with the fee allocated so far. -/
def baseFees (feeTotal matched : Int) : Int → List SellerQuoteProceeds → Option Int
  | allocated, [] => some allocated
  | allocated, s :: rest =>
    let base := (sellerQuota feeTotal matched s).base
    if ¬ MoneyRange base ∨ base > s.amount ∨ base > MAX_MONEY - allocated then none
    else baseFees feeTotal matched (allocated + base) rest

/-- Larger remainders first, equal ones by account. -/
def byRemainder (a b : Quota AccountId) : Prop := b.rem < a.rem ∨ (a.rem = b.rem ∧ a.key ≤ b.key)

instance : DecidableRel byRemainder := fun _ _ => inferInstanceAs (Decidable (_ ∨ _))

section

variable (feeTotal matched : Int) (sellers : List SellerQuoteProceeds)

/-- The sellers that pay one unit more than their base fee. -/
def extraPayers : List AccountId :=
  lucky byRemainder feeTotal (sellers.map (sellerQuota feeTotal matched))

def sellerFee (s : SellerQuoteProceeds) : Int :=
  if s.account ∈ extraPayers feeTotal matched sellers then
    (sellerQuota feeTotal matched s).base + 1
  else (sellerQuota feeTotal matched s).base

/-- Every seller's fee: the base fee, and one unit more for the largest remainders. -/
def sellerShares : Option (List SellerFeeShare) :=
  match baseFees feeTotal matched 0 sellers with
  | none => none
  | some allocated =>
    if allocated > feeTotal ∨
        (feeTotal - allocated > 0 ∧ feeTotal - allocated ≥ sellers.length) then none
    else if ∃ s ∈ sellers, s.account ∈ extraPayers feeTotal matched sellers ∧
        (sellerQuota feeTotal matched s).base ≥ s.amount then none
    else if allocated + (extraPayers feeTotal matched sellers).length ≠ feeTotal then none
    else some (sellers.map fun s =>
      let fee := sellerFee feeTotal matched sellers s
      ⟨s.account, s.amount, fee, s.amount - fee⟩)

end

/-- Equal rewards in seat order; the first seats take what the division leaves. -/
def seatShares (seatFee : Int) (seats : List SeatId) : List SeatFeeShare :=
  let quotient := seatFee / seats.length
  let remainder := (seatFee % seats.length).toNat
  seats.zipIdx.map fun s => ⟨s.1, quotient + if s.2 < remainder then 1 else 0⟩

/-- The range checks on the rewards, with the reward allocated so far. -/
def seatRewardsOk : Int → List SeatFeeShare → Option Int
  | allocated, [] => some allocated
  | allocated, s :: rest =>
    if ¬ MoneyRange s.reward ∨ s.reward > MAX_MONEY - allocated then none
    else seatRewardsOk (allocated + s.reward) rest

/-- `AllocateFlowMeshFees`. -/
def allocateFlowMeshFees (matched : Int) (proceeds : List SellerQuoteProceeds)
    (seats : List SeatId) : Except FeeAllocationCheck FlowMeshFeeAllocation :=
  if ¬ MoneyRange matched then .error .MATCHED_NOTIONAL_OUT_OF_RANGE
  else if seats.length > FLOWMESH_MAX_FEE_SEATS then .error .TOO_MANY_SEATS
  else if ¬ seats.IsChain (· < ·) then .error .NON_CANONICAL_SEATS
  else
    let sellers := proceeds.insertionSort (fun a b => a.account ≤ b.account)
    match sumSellers none 0 sellers with
    | .error e => .error e
    | .ok sellerTotal =>
      let feeTotal := matched / FLOWMESH_FEE_DENOMINATOR
      let treasuryFee := feeTotal * FLOWMESH_TREASURY_PERCENT / 100
      let seatFee := feeTotal - treasuryFee
      if sellerTotal ≠ matched then .error .SELLER_TOTAL_MISMATCH
      else if ¬ MoneyRange feeTotal ∨ ¬ MoneyRange treasuryFee ∨ ¬ MoneyRange seatFee ∨
          treasuryFee > feeTotal then .error .ARITHMETIC_INVARIANT_FAILURE
      else if seatFee > 0 ∧ seats = [] then .error .NO_SEATS_FOR_REWARD
      else
        match sellerShares feeTotal matched sellers, seatRewardsOk 0 (seatShares seatFee seats) with
        | some sellerFees, some allocatedSeatFee =>
          if allocatedSeatFee ≠ seatFee ∨ treasuryFee > MAX_MONEY - allocatedSeatFee ∨
              treasuryFee + allocatedSeatFee ≠ feeTotal then .error .ARITHMETIC_INVARIANT_FAILURE
          else .ok ⟨matched, feeTotal, treasuryFee, seatFee, sellerFees, seatShares seatFee seats⟩
        | _, _ => .error .ARITHMETIC_INVARIANT_FAILURE

/-! ## Canonical input is always allocated -/

/-- Proceeds as the clearing hands them over: one positive entry per seller, in account
order, adding up to the matched notional. -/
structure Proceeds (matched : Int) (ps : List SellerQuoteProceeds) : Prop where
  sorted : ps.Pairwise (fun a b => a.account < b.account)
  positive : ∀ s ∈ ps, 0 < s.amount
  total : (ps.map (·.amount)).sum = matched

variable {ps : List SellerQuoteProceeds}

theorem sumSellers_ok {prev : Option AccountId} {total : Int}
    (hsorted : ps.Pairwise (fun a b => a.account < b.account))
    (hprev : ∀ s ∈ ps, prev ≠ some s.account) (hpos : ∀ s ∈ ps, 0 < s.amount) (h0 : 0 ≤ total)
    (hmax : total + (ps.map (·.amount)).sum ≤ MAX_MONEY) :
    sumSellers prev total ps = .ok (total + (ps.map (·.amount)).sum) := by
  induction ps generalizing prev total with
  | nil => simp [sumSellers]
  | cons s rest ih =>
    obtain ⟨hhead, htail⟩ := pairwise_cons.mp hsorted
    have hs := hpos s (by simp)
    have hrest : 0 ≤ (rest.map (·.amount)).sum := by
      refine sum_nonneg fun x hx => ?_
      obtain ⟨r, hr, rfl⟩ := mem_map.mp hx
      exact (hpos r (by simp [hr])).le
    simp only [map_cons, sum_cons] at hmax ⊢
    have hrange : ¬ (¬ MoneyRange s.amount ∨ s.amount = 0) := by
      rintro (h | h)
      · exact h ⟨hs.le, by omega⟩
      · omega
    rw [sumSellers, if_neg hrange, if_neg (hprev s (by simp)), if_neg (by omega),
      ih htail ?_ (fun r hr => hpos r (by simp [hr])) (by omega) (by omega), add_assoc]
    intro r hr heq
    have := hhead r hr
    rw [Option.some.inj heq] at this
    exact lt_irrefl _ this

variable {matched : Int}

theorem baseFees_ok {feeTotal : Int} {allocated : Int} (h0 : 0 ≤ allocated)
    (hbase : ∀ s ∈ ps, 0 ≤ (sellerQuota feeTotal matched s).base ∧
      (sellerQuota feeTotal matched s).base ≤ s.amount)
    (hmax : allocated + (ps.map fun s => (sellerQuota feeTotal matched s).base).sum ≤ MAX_MONEY) :
    baseFees feeTotal matched allocated ps =
      some (allocated + (ps.map fun s => (sellerQuota feeTotal matched s).base).sum) := by
  induction ps generalizing allocated with
  | nil => simp [baseFees]
  | cons s rest ih =>
    have hs := hbase s (by simp)
    have hrest : 0 ≤ (rest.map fun s => (sellerQuota feeTotal matched s).base).sum := by
      refine sum_nonneg fun x hx => ?_
      obtain ⟨r, hr, rfl⟩ := mem_map.mp hx
      exact (hbase r (by simp [hr])).1
    simp only [map_cons, sum_cons] at hmax ⊢
    have hrange : ¬ (¬ MoneyRange (sellerQuota feeTotal matched s).base ∨
        (sellerQuota feeTotal matched s).base > s.amount ∨
        (sellerQuota feeTotal matched s).base > MAX_MONEY - allocated) := by
      rintro (h | h | h)
      · exact h ⟨hs.1, by omega⟩
      · omega
      · omega
    rw [baseFees, if_neg hrange, ih (by omega) (fun r hr => hbase r (by simp [hr])) (by omega),
      add_assoc]

instance : Std.Total byRemainder := ⟨fun a b => by
  rcases lt_trichotomy a.rem b.rem with h | h | h
  · exact .inr (.inl h)
  · rcases le_total a.key b.key with hk | hk
    · exact .inl (.inr ⟨h, hk⟩)
    · exact .inr (.inr ⟨h.symm, hk⟩)
  · exact .inl (.inl h)⟩

instance : IsTrans _ byRemainder := ⟨fun a b c hab hbc => by
  rcases hab with h | ⟨h, hk⟩ <;> rcases hbc with h' | ⟨h', hk'⟩
  · exact .inl (h'.trans h)
  · exact .inl (h' ▸ h)
  · exact .inl (h ▸ h')
  · exact .inr ⟨h.trans h', hk.trans hk'⟩⟩

theorem byRemainder_rem (a b : Quota AccountId) (h : byRemainder a b) : b.rem ≤ a.rem := by
  rcases h with h | ⟨h, _⟩
  · exact h.le
  · exact h.ge

theorem Proceeds.positive_total (h : Proceeds matched ps) (hne : ps ≠ []) : 0 < matched := by
  obtain ⟨s, rest, rfl⟩ := exists_cons_of_ne_nil hne
  have hs := h.positive s (by simp)
  have hrest : 0 ≤ (rest.map (·.amount)).sum := by
    refine sum_nonneg fun x hx => ?_
    obtain ⟨r, hr, rfl⟩ := mem_map.mp hx
    exact (h.positive r (by simp [hr])).le
  have := h.total
  simp only [map_cons, sum_cons] at this
  omega

theorem Proceeds.nodup (h : Proceeds matched ps) : (ps.map (·.account)).Nodup :=
  (pairwise_map.mpr h.sorted).imp fun hlt => ne_of_lt hlt

section Sellers

variable {feeTotal matched : Int} {ps : List SellerQuoteProceeds}

/-- The proceeds as weighted keys. -/
def weights (ps : List SellerQuoteProceeds) : List (AccountId × Int) :=
  ps.map fun s => (s.account, s.amount)

theorem sellerQuotas_eq (hpos : 0 < matched) :
    ps.map (sellerQuota feeTotal matched) = (weights ps).map (quota feeTotal matched) := by
  simp [weights, sellerQuota, ne_of_gt hpos]

/-- The fees are the library's apportionment of the fee over the proceeds. -/
theorem sellerFee_apportion (hpos : 0 < matched) :
    apportion byRemainder feeTotal matched (weights ps) =
      ps.map fun s => (s.account, sellerFee feeTotal matched ps s) := by
  simp only [sellerFee, extraPayers, sellerQuotas_eq hpos, apportion, weights, map_map]
  refine map_congr_left fun s _ => ?_
  simp only [sellerQuota, if_neg (ne_of_gt hpos), quota, comp_apply, Prod.mk.injEq,
    true_and]
  split_ifs with hl <;> simp [hl]

section

variable (h : Proceeds matched ps)

include h

theorem Proceeds.weights_sum : ((weights ps).map (·.2)).sum = matched := by
  simpa [weights, comp_def] using h.total

theorem Proceeds.weights_nodup : ((weights ps).map (·.1)).Nodup := by
  simpa [weights, comp_def] using h.nodup

theorem sellerFee_sum (hpos : 0 < matched) :
    (ps.map (sellerFee feeTotal matched ps)).sum = feeTotal := by
  have : ((apportion byRemainder feeTotal matched (weights ps)).map (·.2)).sum = feeTotal :=
    apportion_sum hpos h.weights_sum h.weights_nodup
  simpa [sellerFee_apportion hpos, comp_def] using this

/-- What the apportionment gives every weight holds of every seller's fee. -/
theorem sellerFee_of {P : Int → Int → Prop} (hpos : 0 < matched)
    (hP : ∀ {k x}, (k, x) ∈ apportion byRemainder feeTotal matched (weights ps) →
      ∃ w, (k, w) ∈ weights ps ∧ P x w) {s : SellerQuoteProceeds} (hs : s ∈ ps) :
    P (sellerFee feeTotal matched ps s) s.amount := by
  simp only [sellerFee_apportion hpos] at hP
  obtain ⟨w, hw, hx⟩ := hP (mem_map_of_mem hs)
  obtain ⟨r, hr, heq⟩ := mem_map.mp hw
  obtain ⟨hacc, rfl⟩ := Prod.mk.inj heq
  rwa [inj_on_of_nodup_map h.nodup hr hs hacc] at hx

end

theorem sellerFee_le (h : Proceeds matched ps) (hpos : 0 < matched) (hf0 : 0 ≤ feeTotal)
    (hfm : feeTotal ≤ matched) {s : SellerQuoteProceeds} (hs : s ∈ ps) :
    0 ≤ (sellerQuota feeTotal matched s).base ∧ sellerFee feeTotal matched ps s ≤ s.amount := by
  have hweight : ∀ w ∈ weights ps, 0 ≤ w.2 := by
    intro w hw
    obtain ⟨r, hr, rfl⟩ := mem_map.mp hw
    exact (h.positive r hr).le
  refine ⟨?_, (sellerFee_of h hpos (apportion_le byRemainder_rem hpos h.weights_sum
    h.weights_nodup hweight hf0 hfm) hs).2⟩
  rw [sellerQuota, if_neg (ne_of_gt hpos)]
  exact Int.ediv_nonneg (mul_nonneg (h.positive s hs).le hf0) hpos.le

theorem base_le_sellerFee (ps : List SellerQuoteProceeds) (s : SellerQuoteProceeds) :
    (sellerQuota feeTotal matched s).base ≤ sellerFee feeTotal matched ps s := by
  unfold sellerFee
  split_ifs <;> omega

/-- A seller with its fee. -/
def sellerShare (feeTotal matched : Int) (ps : List SellerQuoteProceeds) (s : SellerQuoteProceeds) :
    SellerFeeShare :=
  ⟨s.account, s.amount, sellerFee feeTotal matched ps s, s.amount - sellerFee feeTotal matched ps s⟩

/-- None of the checks on the sellers' fees fails. -/
theorem sellerShares_eq (feeTotal : Int) (h : Proceeds matched ps) (hm : MoneyRange matched)
    (hf0 : 0 ≤ feeTotal) (hfm : feeTotal ≤ matched) :
    sellerShares feeTotal matched ps = some (ps.map (sellerShare feeTotal matched ps)) := by
  rcases eq_or_ne ps [] with rfl | hne
  · have hz : matched = 0 := by simpa using h.total.symm
    have hf : feeTotal = 0 := by omega
    simp [sellerShares, baseFees, hf, extraPayers, lucky]
  have hpos := h.positive_total hne
  have hfee : ∀ s ∈ ps, 0 ≤ (sellerQuota feeTotal matched s).base ∧
      sellerFee feeTotal matched ps s ≤ s.amount := fun s hs => sellerFee_le h hpos hf0 hfm hs
  have hsum := h.weights_sum
  have hextra : ((extraPayers feeTotal matched ps).length : Int) = feeTotal -
      (ps.map fun s => (sellerQuota feeTotal matched s).base).sum := by
    unfold extraPayers
    rw [sellerQuotas_eq hpos, lucky_length hpos hsum, leftover, ← sellerQuotas_eq hpos,
      map_map, comp_def]
  obtain ⟨hlo, hhi⟩ := leftover_bounds feeTotal hpos hsum
  rw [leftover, ← sellerQuotas_eq hpos, map_map, comp_def] at hlo hhi
  simp only [weights, length_map] at hhi
  have hbasesum : baseFees feeTotal matched 0 ps =
      some (ps.map fun s => (sellerQuota feeTotal matched s).base).sum := by
    have := hm.2
    rw [baseFees_ok (le_refl 0)
      (fun s hs => ⟨(hfee s hs).1, (base_le_sellerFee ps s).trans (hfee s hs).2⟩) (by omega), zero_add]
  simp only [sellerShares, hbasesum]
  rw [if_neg (by omega), if_neg, if_neg (by omega)]
  · rfl
  rintro ⟨s, hs, hmem, hge⟩
  have := (hfee s hs).2
  rw [sellerFee, if_pos hmem] at this
  omega

theorem sellerShare_sum (h : Proceeds matched ps) (hf0 : 0 ≤ feeTotal) (hfm : feeTotal ≤ matched) :
    ((ps.map (sellerShare feeTotal matched ps)).map (·.fee)).sum = feeTotal := by
  rcases eq_or_ne ps [] with rfl | hne
  · have hz : matched = 0 := by simpa using h.total.symm
    simp only [map_nil, sum_nil]
    omega
  · simpa [sellerShare, comp_def] using sellerFee_sum h (h.positive_total hne)

end Sellers

theorem zipIdx_reward_sum (q : Int) (r k : Nat) (l : List SeatId) :
    ((l.zipIdx k).map fun s => q + if s.2 < r then 1 else 0).sum =
      l.length * q + ((min r (k + l.length) - min r k : Nat) : Int) := by
  induction l generalizing k with
  | nil => simp
  | cons x l ih =>
    simp only [zipIdx_cons, map_cons, sum_cons, ih, length_cons,
      Nat.cast_succ, add_mul, one_mul]
    split_ifs <;> omega

theorem seatRewardsOk_some {ss : List SeatFeeShare} {allocated : Int} (h0 : 0 ≤ allocated)
    (hr : ∀ s ∈ ss, 0 ≤ s.reward) (hmax : allocated + (ss.map (·.reward)).sum ≤ MAX_MONEY) :
    seatRewardsOk allocated ss = some (allocated + (ss.map (·.reward)).sum) := by
  induction ss generalizing allocated with
  | nil => simp [seatRewardsOk]
  | cons s rest ih =>
    have hs := hr s (by simp)
    have hrest : 0 ≤ (rest.map (·.reward)).sum := by
      refine sum_nonneg fun x hx => ?_
      obtain ⟨r, hr', rfl⟩ := mem_map.mp hx
      exact hr r (by simp [hr'])
    simp only [map_cons, sum_cons] at hmax ⊢
    have hrange : ¬ (¬ MoneyRange s.reward ∨ s.reward > MAX_MONEY - allocated) := by
      rintro (h | h)
      · exact h ⟨hs, by omega⟩
      · omega
    rw [seatRewardsOk, if_neg hrange, ih (by omega) (fun r hr' => hr r (by simp [hr'])) (by omega),
      add_assoc]

variable {seats : List SeatId}

theorem seatShares_sum (seatFee : Int) (h0 : 0 ≤ seatFee) (hne : seats ≠ []) :
    ((seatShares seatFee seats).map (·.reward)).sum = seatFee ∧
      ∀ s ∈ seatShares seatFee seats, 0 ≤ s.reward := by
  have hn : 0 < (seats.length : Int) := by
    have := length_pos_iff.mpr hne
    omega
  have hmod := Int.emod_nonneg seatFee (ne_of_gt hn)
  have hlt := Int.emod_lt_of_pos seatFee hn
  have hdiv := Int.mul_ediv_add_emod seatFee seats.length
  constructor
  · simp only [seatShares, map_map, comp_def]
    rw [zipIdx_reward_sum]
    omega
  · intro s hs
    obtain ⟨x, _, rfl⟩ := mem_map.mp hs
    have hq := Int.ediv_nonneg h0 hn.le
    simp only
    split_ifs <;> omega

/-- What the clearing relies on: the sellers pay the fee exactly, within their proceeds, and
treasury and seats receive it exactly. -/
structure Allocated (ps : List SellerQuoteProceeds) (seats : List SeatId)
    (out : FlowMeshFeeAllocation) : Prop where
  sellers : out.sellerFees.map (·.account) = ps.map (·.account)
  sellerFee : ∀ x ∈ out.sellerFees, ∃ s ∈ ps, s.account = x.account ∧ 0 ≤ x.fee ∧ x.fee ≤ s.amount
  sellerTotal : (out.sellerFees.map (·.fee)).sum = out.feeTotal
  treasury : 0 ≤ out.treasuryFee
  seatReward : ∀ s ∈ out.seatRewards, 0 ≤ s.reward
  seats : out.seatRewards.length = seats.length
  recipients : out.treasuryFee + (out.seatRewards.map (·.reward)).sum = out.feeTotal

/-- What is allocated for proceeds in account order. -/
def allocation (matched : Int) (ps : List SellerQuoteProceeds) (seats : List SeatId) :
    FlowMeshFeeAllocation :=
  let feeTotal := matched / FLOWMESH_FEE_DENOMINATOR
  let treasuryFee := feeTotal * FLOWMESH_TREASURY_PERCENT / 100
  ⟨matched, feeTotal, treasuryFee, feeTotal - treasuryFee,
    ps.map (sellerShare feeTotal matched ps), seatShares (feeTotal - treasuryFee) seats⟩

theorem fee_bounds (h : 0 ≤ matched) : 0 ≤ matched / FLOWMESH_FEE_DENOMINATOR ∧
    matched / FLOWMESH_FEE_DENOMINATOR ≤ matched := by
  unfold FLOWMESH_FEE_DENOMINATOR
  omega

theorem treasury_bounds {fee : Int} (h : 0 ≤ fee) : 0 ≤ fee * FLOWMESH_TREASURY_PERCENT / 100 ∧
    fee * FLOWMESH_TREASURY_PERCENT / 100 ≤ fee := by
  unfold FLOWMESH_TREASURY_PERCENT
  omega

/-- No check of the source fails on canonical input. -/
theorem allocateFlowMeshFees_eq {sellers : List SellerQuoteProceeds}
    (hsort : ps.insertionSort (fun a b => a.account ≤ b.account) = sellers)
    (h : Proceeds matched sellers) (hm : MoneyRange matched) (hseats : seats.IsChain (· < ·))
    (hne : seats ≠ []) (hmax : seats.length ≤ FLOWMESH_MAX_FEE_SEATS) :
    allocateFlowMeshFees matched ps seats = .ok (allocation matched sellers seats) := by
  obtain ⟨hm0, hm1⟩ := hm
  have hsum : sumSellers none 0 sellers = .ok matched := by
    rw [sumSellers_ok h.sorted (by simp) h.positive (le_refl 0) (by rw [h.total]; omega), h.total,
      zero_add]
  have hfee := fee_bounds hm0
  have hshares := sellerShares_eq (matched / FLOWMESH_FEE_DENOMINATOR) h ⟨hm0, hm1⟩ hfee.1 hfee.2
  unfold allocation
  generalize hF : matched / FLOWMESH_FEE_DENOMINATOR = fee at *
  have htr := treasury_bounds hfee.1
  generalize hT : fee * FLOWMESH_TREASURY_PERCENT / 100 = treasury at *
  obtain ⟨hrsum, hrpos⟩ := seatShares_sum (fee - treasury) (by omega) hne
  have hrok : seatRewardsOk 0 (seatShares (fee - treasury) seats) = some (fee - treasury) := by
    rw [seatRewardsOk_some (le_refl 0) hrpos (by omega), hrsum, zero_add]
  unfold allocateFlowMeshFees
  rw [if_neg (not_not.mpr ⟨hm0, hm1⟩), if_neg (not_lt.mpr hmax), if_neg (not_not.mpr hseats)]
  simp only [hsort, hsum, hF, hT, hshares, hrok, ne_eq, not_true_eq_false, if_false, false_or]
  rw [if_neg, if_neg (fun hc => hne hc.2), if_neg (by omega)]
  rintro (hr | hr | hr | hr)
  · exact hr ⟨hfee.1, by omega⟩
  · exact hr ⟨htr.1, by omega⟩
  · exact hr ⟨by omega, by omega⟩
  · omega

theorem allocateFlowMeshFees_ok (h : Proceeds matched ps) (hm : MoneyRange matched)
    (hseats : seats.IsChain (· < ·)) (hne : seats ≠ [])
    (hmax : seats.length ≤ FLOWMESH_MAX_FEE_SEATS) :
    ∃ out, allocateFlowMeshFees matched ps seats = .ok out ∧ Allocated ps seats out := by
  have hsort : ps.insertionSort (fun a b => a.account ≤ b.account) = ps :=
    List.Pairwise.insertionSort_eq (h.sorted.imp fun hlt => le_of_lt hlt)
  have hfee := fee_bounds hm.1
  have htr := treasury_bounds hfee.1
  obtain ⟨hrsum, hrpos⟩ := seatShares_sum (matched / FLOWMESH_FEE_DENOMINATOR -
    matched / FLOWMESH_FEE_DENOMINATOR * FLOWMESH_TREASURY_PERCENT / 100) (by omega) hne
  refine ⟨_, allocateFlowMeshFees_eq hsort h hm hseats hne hmax, ?_, ?_,
    sellerShare_sum h hfee.1 hfee.2, htr.1, hrpos, by simp [allocation, seatShares], ?_⟩
  · simp [allocation, sellerShare]
  · intro x hx
    obtain ⟨s, hs, rfl⟩ := mem_map.mp hx
    have hpos := h.positive_total (ne_nil_of_mem hs)
    obtain ⟨hbase, hle⟩ := @sellerFee_le (matched / FLOWMESH_FEE_DENOMINATOR) _ _ h hpos hfee.1 hfee.2 _ hs
    exact ⟨s, hs, rfl, hbase.trans (base_le_sellerFee ps s), hle⟩
  · unfold allocation
    dsimp only
    omega

/-! ## Sellers in any order -/

/-- The seller's fee is its exact share of the total, up to less than one unit. -/
theorem sellerFee_near {feeTotal : Int}
    (h : Proceeds matched ps) (hpos : 0 < matched) {s : SellerQuoteProceeds} (hs : s ∈ ps) :
    |sellerFee feeTotal matched ps s * matched - s.amount * feeTotal| < matched :=
  sellerFee_of h hpos (apportion_near byRemainder_rem hpos h.weights_sum h.weights_nodup) hs

/-- The first seats receive at most one unit more. -/
theorem seatShares_even {seatFee : Int} {x y : SeatFeeShare}
    (hx : x ∈ seatShares seatFee seats) (hy : y ∈ seatShares seatFee seats) :
    |x.reward - y.reward| ≤ 1 := by
  obtain ⟨i, -, rfl⟩ := mem_map.mp hx
  obtain ⟨j, -, rfl⟩ := mem_map.mp hy
  dsimp only
  rw [abs_le]
  split_ifs <;> omega

/-- An allocation that charges the sellers in proportion and pays the recipients everything. -/
structure ExactFees (matched : Int) (ps : List SellerQuoteProceeds) (seats : List SeatId)
    (out : FlowMeshFeeAllocation) : Prop where
  feeTotal : out.feeTotal = matched / 10000
  sellers : (out.sellerFees.map (·.account)).Perm (ps.map (·.account))
  sellerTotal : (out.sellerFees.map (·.fee)).sum = out.feeTotal
  sellerFee : ∀ x ∈ out.sellerFees, ∃ s ∈ ps, s.account = x.account ∧ x.grossQuoteProceeds = s.amount ∧
    x.netQuoteProceeds = s.amount - x.fee ∧ 0 ≤ x.fee ∧ x.fee ≤ s.amount ∧
    |x.fee * matched - s.amount * out.feeTotal| < matched
  treasury : out.treasuryFee = out.feeTotal / 5
  recipients : out.treasuryFee + (out.seatRewards.map (·.reward)).sum = out.feeTotal
  seats : out.seatRewards.map (·.seatId) = seats
  even : ∀ x ∈ out.seatRewards, ∀ y ∈ out.seatRewards, |x.reward - y.reward| ≤ 1

instance : Std.Total fun a b : SellerQuoteProceeds => a.account ≤ b.account :=
  ⟨fun a b => le_total a.account b.account⟩

instance : IsTrans SellerQuoteProceeds fun a b => a.account ≤ b.account :=
  ⟨fun _ _ _ hab hbc => le_trans hab hbc⟩

/-- Different sellers with positive proceeds, sorted, are proceeds in account order. -/
theorem proceeds_sorted (hnd : (ps.map (·.account)).Nodup) (hpos : ∀ s ∈ ps, 0 < s.amount)
    (htotal : (ps.map (·.amount)).sum = matched) :
    Proceeds matched (ps.insertionSort fun a b => a.account ≤ b.account) := by
  have hperm := perm_insertionSort (fun a b : SellerQuoteProceeds => a.account ≤ b.account) ps
  have hsorted := pairwise_insertionSort (fun a b : SellerQuoteProceeds => a.account ≤ b.account) ps
  have hnd' := (hperm.map (·.account)).nodup_iff.mpr hnd
  refine ⟨?_, fun s hs => hpos s (hperm.mem_iff.mp hs), (hperm.map (·.amount)).sum_eq.trans htotal⟩
  exact (hsorted.and (pairwise_map.mp hnd')).imp fun h => lt_of_le_of_ne h.1 h.2

/-- Valid input is allocated exactly, in whatever order the sellers come. -/
theorem allocateFlowMeshFees_exact {matched : Int} {ps : List SellerQuoteProceeds}
    {seats : List SeatId} (hm : MoneyRange matched) (hnd : (ps.map (·.account)).Nodup)
    (hpos : ∀ s ∈ ps, 0 < s.amount) (htotal : (ps.map (·.amount)).sum = matched)
    (hseats : seats.IsChain (· < ·)) (hne : seats ≠ []) (hmax : seats.length ≤ FLOWMESH_MAX_FEE_SEATS) :
    ∃ out, (∀ order, order.Perm ps → allocateFlowMeshFees matched order seats = .ok out) ∧
      ExactFees matched ps seats out := by
  have hproceeds := proceeds_sorted hnd hpos htotal
  have hperm := perm_insertionSort (fun a b : SellerQuoteProceeds => a.account ≤ b.account) ps
  have hfee := fee_bounds hm.1
  have htr := treasury_bounds hfee.1
  obtain ⟨hrsum, -⟩ := seatShares_sum (matched / FLOWMESH_FEE_DENOMINATOR -
    matched / FLOWMESH_FEE_DENOMINATOR * FLOWMESH_TREASURY_PERCENT / 100) (by omega) hne
  refine ⟨allocation matched (ps.insertionSort fun a b => a.account ≤ b.account) seats,
    fun order horder => allocateFlowMeshFees_eq (SortUnique.insertionSort_eq_of_perm horder hnd)
      hproceeds hm hseats hne hmax,
    rfl, ?_, sellerShare_sum hproceeds hfee.1 hfee.2, ?_, ?_, ?_, ?_, fun x hx y hy => seatShares_even hx hy⟩
  · simpa [allocation, sellerShare, comp_def] using hperm.map (·.account)
  · intro x hx
    obtain ⟨s, hs, rfl⟩ := mem_map.mp hx
    have hmatched := hproceeds.positive_total (ne_nil_of_mem hs)
    obtain ⟨hbase, hle⟩ := @sellerFee_le (matched / FLOWMESH_FEE_DENOMINATOR) _ _ hproceeds hmatched
      hfee.1 hfee.2 _ hs
    exact ⟨s, hperm.mem_iff.mp hs, rfl, rfl, rfl, hbase.trans (base_le_sellerFee _ s), hle,
      sellerFee_near hproceeds hmatched hs⟩
  · show matched / FLOWMESH_FEE_DENOMINATOR * FLOWMESH_TREASURY_PERCENT / 100 = _ / 5
    rw [show FLOWMESH_TREASURY_PERCENT = 20 from rfl]
    unfold allocation
    dsimp only
    omega
  · unfold allocation
    dsimp only
    rw [hrsum]
    omega
  · unfold allocation seatShares
    dsimp only
    rw [map_map, show SeatFeeShare.seatId ∘ _ = Prod.fst from rfl, zipIdx_map_fst]

/-- Two sellers and three seats share a fee of seven units. -/
theorem sample_fees_exact : ∃ out,
    (∀ order, order.Perm [⟨9, 30000⟩, ⟨4, 45000⟩] → allocateFlowMeshFees 75000 order [1, 2, 3] = .ok out) ∧
      ExactFees 75000 [⟨9, 30000⟩, ⟨4, 45000⟩] [1, 2, 3] out :=
  allocateFlowMeshFees_exact (by decide) (by decide) (by decide) (by decide) (by decide) (by decide)
    (by decide)

end B3Coin.FlowMesh
