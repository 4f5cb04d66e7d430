import B3Coin.Basic
import Mathlib.Algebra.Order.BigOperators.Group.List

/-!
# Proof-of-stake eligibility

`modern/pos_v1.h`: a validator of weight `w` out of `W` may produce in a round if the
digest is below a threshold that doubles with each round, until everybody may. The
comparison is made in 128 and 256 bits; it is the comparison of the integers.
-/
namespace B3Coin

/-- `ModernPosParams`: what eligibility, block times and the finality gadget read. -/
structure ModernPosParams where
  blockIntervalSeconds : Int := 60
  roundSeconds : Int := 30
  f0Num : UInt32 := 1
  f0Den : UInt32 := 1
  finalityEpochBlocks : Nat := 1440
  checkpointInterval : Nat := 10
  checkpointDepth : Nat := 12
  maxEpochExtension : Nat := 7 * 1440
  minFinalitySet : Nat := 4
  deriving DecidableEq

def ModernPosParams.valid (p : ModernPosParams) : Bool :=
  0 < p.blockIntervalSeconds && 0 < p.roundSeconds && 0 < p.f0Num && 0 < p.f0Den &&
    0 < p.finalityEpochBlocks && 0 < p.checkpointInterval &&
    p.checkpointInterval ≤ p.finalityEpochBlocks && p.checkpointDepth < p.finalityEpochBlocks &&
    p.finalityEpochBlocks ≤ p.maxEpochExtension && 1 ≤ p.minFinalitySet

end B3Coin

namespace B3Coin.ModernPos

open List

variable (pos : ModernPosParams)

def modernPosBlockTime (parentTime round : Int) : Int :=
  parentTime + pos.blockIntervalSeconds + round * pos.roundSeconds

def decodeModernPosRound (parentTime blockTime : Int) : Option Int :=
  let delta := blockTime - parentTime - pos.blockIntervalSeconds
  if delta < 0 ∨ delta.tmod pos.roundSeconds ≠ 0 then none
  else some (delta.tdiv pos.roundSeconds)

/-- `static_cast<u128>(weight) * factor`. -/
def scaled (weight : Int) (factor : UInt32) : BitVec 128 :=
  BitVec.ofInt 128 weight * BitVec.ofNat 128 factor.toNat

/-- `to_arith`: the high and the low half. -/
def toArith (v : BitVec 128) : BitVec 256 :=
  ((v >>> 64).setWidth 64).setWidth 256 <<< 64 ||| (v.setWidth 64).setWidth 256

/-- The threshold of a round that is not saturated. -/
def threshold (w W : Int) (round : Nat) : BitVec 256 :=
  BitVec.allOnes 256 / toArith (scaled W pos.f0Den) * toArith (scaled w pos.f0Num <<< round)

def modernPosEligible (digest : BitVec 256) (w W round : Int) : Bool :=
  if w ≤ 0 ∨ W ≤ 0 ∨ w > W ∨ round < 0 then false
  else
    let num := scaled w pos.f0Num
    let den := scaled W pos.f0Den
    if num = 0 ∨ den = 0 then false
    else if 128 ≤ round then true
    else if num > BitVec.allOnes 128 >>> round.toNat then true
    else if num <<< round.toNat ≥ den then true
    else digest < threshold pos w W round.toNat

variable {pos} {w W : Int}

/-! ## Nothing wraps -/

theorem scaled_toNat (hw : 0 ≤ w) (hmax : w ≤ MAX_MONEY) (factor : UInt32) :
    (scaled w factor).toNat = w.toNat * factor.toNat ∧ w.toNat * factor.toNat < 2 ^ 92 := by
  have hfactor := factor.toNat_lt
  have hweight : w.toNat < 2 ^ 60 := by
    rw [MAX_MONEY_eq] at hmax
    omega
  have hproduct : w.toNat * factor.toNat < 2 ^ 92 := by
    calc w.toNat * factor.toNat ≤ w.toNat * 2 ^ 32 := Nat.mul_le_mul_left _ hfactor.le
      _ < 2 ^ 60 * 2 ^ 32 := Nat.mul_lt_mul_of_pos_right hweight (by decide)
      _ = 2 ^ 92 := by decide
  refine ⟨?_, hproduct⟩
  have hcast : (w % (2 ^ 128 : Nat)).toNat = w.toNat := by
    rw [Int.emod_eq_of_lt hw (by omega)]
  rw [scaled, BitVec.toNat_mul, BitVec.toNat_ofInt, BitVec.toNat_ofNat, hcast,
    Nat.mod_eq_of_lt (by omega : factor.toNat < 2 ^ 128), Nat.mod_eq_of_lt (by omega)]

theorem toArith_toNat (v : BitVec 128) : (toArith v).toNat = v.toNat := by
  have hlow : v.toNat % 2 ^ 64 < 2 ^ 64 := Nat.mod_lt _ (by decide)
  simp only [toArith, BitVec.toNat_or, BitVec.toNat_shiftLeft, BitVec.toNat_setWidth,
    BitVec.toNat_ushiftRight, Nat.shiftRight_eq_div_pow]
  rw [Nat.mod_eq_of_lt (by omega : v.toNat / 2 ^ 64 < 2 ^ 64),
    Nat.mod_eq_of_lt (by omega : v.toNat / 2 ^ 64 < 2 ^ 256),
    Nat.mod_eq_of_lt (by omega : v.toNat % 2 ^ 64 < 2 ^ 256), Nat.shiftLeft_eq,
    Nat.mod_eq_of_lt (by omega), ← Nat.shiftLeft_eq, ← Nat.shiftLeft_add_eq_or_of_lt hlow,
    Nat.shiftLeft_eq]
  omega

theorem shifted_toNat {v : BitVec 128} {round : Nat} (h : v.toNat * 2 ^ round < 2 ^ 128) :
    (v <<< round).toNat = v.toNat * 2 ^ round := by
  rw [BitVec.toNat_shiftLeft, Nat.shiftLeft_eq, Nat.mod_eq_of_lt h]

theorem overflows_iff {v : BitVec 128} {round : Nat} :
    v > BitVec.allOnes 128 >>> round ↔ 2 ^ 128 ≤ v.toNat * 2 ^ round := by
  rw [gt_iff_lt, BitVec.lt_def, BitVec.toNat_ushiftRight, BitVec.toNat_allOnes,
    Nat.shiftRight_eq_div_pow, Nat.div_lt_iff_lt_mul (Nat.two_pow_pos _)]
  omega

/-! ## The comparison of integers -/

/-- The odds `w * f0 * 2 ^ round`, as an integer. -/
def odds (pos : ModernPosParams) (w : Int) (round : Nat) : Nat :=
  w.toNat * pos.f0Num.toNat * 2 ^ round

/-- The odds at which a round is saturated. -/
def fullOdds (pos : ModernPosParams) (W : Int) : Nat := W.toNat * pos.f0Den.toNat

/-- Eligibility without a width: saturated, or the digest is below the threshold. -/
def Accepts (pos : ModernPosParams) (digest : BitVec 256) (w W : Int) (round : Nat) : Prop :=
  fullOdds pos W ≤ odds pos w round ∨
    digest.toNat < (2 ^ 256 - 1) / fullOdds pos W * odds pos w round

theorem odds_mono {w' : Int} {r r' : Nat} (hw : w ≤ w') (hr : r ≤ r') :
    odds pos w r ≤ odds pos w' r' := by
  apply Nat.mul_le_mul
  · exact Nat.mul_le_mul_right _ (Int.toNat_le_toNat hw)
  · exact Nat.pow_le_pow_right (by decide) hr

theorem accepts_mono {digest : BitVec 256} {w' : Int} {r r' : Nat} (hw : w ≤ w') (hr : r ≤ r')
    (h : Accepts pos digest w W r) : Accepts pos digest w' W r' := by
  have hodds : odds pos w r ≤ odds pos w' r' := odds_mono hw hr
  cases h with
  | inl hfull => exact .inl (hfull.trans hodds)
  | inr hbelow => exact .inr (hbelow.trans_le (Nat.mul_le_mul_left _ hodds))

/-- Below saturation the 256-bit threshold is the product of the integers. -/
theorem threshold_toNat (hw : 0 ≤ w) (hle : w ≤ W) (hmax : W ≤ MAX_MONEY) {r : Nat}
    (hfull : odds pos w r < fullOdds pos W) :
    (threshold pos w W r).toNat = (2 ^ 256 - 1) / fullOdds pos W * odds pos w r := by
  obtain ⟨hnum, -⟩ := scaled_toNat hw (hle.trans hmax) pos.f0Num
  obtain ⟨hden, hsmall⟩ := scaled_toNat (hw.trans hle) hmax pos.f0Den
  have hshift : (scaled w pos.f0Num <<< r).toNat = odds pos w r := by
    rw [shifted_toNat (by rw [hnum]; exact hfull.trans (hsmall.trans (by decide))), hnum, odds]
  rw [threshold, BitVec.toNat_mul, BitVec.toNat_udiv, toArith_toNat, toArith_toNat,
    BitVec.toNat_allOnes, hshift, hden]
  apply Nat.mod_eq_of_lt
  calc (2 ^ 256 - 1) / fullOdds pos W * odds pos w r
      ≤ (2 ^ 256 - 1) / fullOdds pos W * fullOdds pos W := Nat.mul_le_mul_left _ hfull.le
    _ ≤ 2 ^ 256 - 1 := Nat.div_mul_le_self _ _
    _ < 2 ^ 256 := by decide

/-- The three ways out before the threshold are all taken at saturation only. -/
theorem modernPosEligible_iff (hnum : 0 < pos.f0Num) (hden : 0 < pos.f0Den)
    (hmax : W ≤ MAX_MONEY) (hw : 0 < w) (hle : w ≤ W) {round : Int} (hr : 0 ≤ round)
    (digest : BitVec 256) :
    modernPosEligible pos digest w W round = true ↔ Accepts pos digest w W round.toNat := by
  obtain ⟨hn, -⟩ := scaled_toNat hw.le (hle.trans hmax) pos.f0Num
  obtain ⟨hd, hsmall⟩ := scaled_toNat (hw.le.trans hle) hmax pos.f0Den
  have hnpos : 0 < w.toNat * pos.f0Num.toNat := Nat.mul_pos (by omega) hnum
  have hdpos : 0 < W.toNat * pos.f0Den.toNat := Nat.mul_pos (by omega) hden
  have hzero : ¬ (scaled w pos.f0Num = 0 ∨ scaled W pos.f0Den = 0) := by
    simp only [← BitVec.toNat_inj, hn, hd]
    exact fun h => h.elim hnpos.ne' hdpos.ne'
  -- odds of 2 ^ 128 or more are above those of saturation, which need 92 bits
  have hwide : 2 ^ 128 ≤ odds pos w round.toNat → Accepts pos digest w W round.toNat :=
    fun h => .inl ((hsmall.trans (by decide)).le.trans h)
  rw [modernPosEligible, if_neg (by omega), if_neg hzero]
  split_ifs with hlate hover hfull
  · refine iff_of_true rfl (hwide ?_)
    calc 2 ^ 128 ≤ 2 ^ round.toNat := Nat.pow_le_pow_right (by decide) (by omega)
      _ ≤ odds pos w round.toNat := Nat.le_mul_of_pos_left _ hnpos
  · refine iff_of_true rfl (hwide ?_)
    rwa [overflows_iff, hn] at hover
  all_goals
    rw [overflows_iff, not_le] at hover
    rw [ge_iff_le, BitVec.le_def, hd, shifted_toNat hover, hn] at hfull
  · exact iff_of_true rfl (.inl hfull)
  · have hbelow : odds pos w round.toNat < fullOdds pos W := not_le.mp hfull
    rw [decide_eq_true_iff, BitVec.lt_def, threshold_toNat hw.le hle hmax hbelow]
    exact (or_iff_right hfull).symm

/-- The weights of a list that is not saturated share the threshold of their sum. -/
theorem threshold_sum (hmax : W ≤ MAX_MONEY) {r : Nat} :
    ∀ ws : List Int, (∀ w ∈ ws, 0 < w) → ws.sum ≤ W → odds pos ws.sum r < fullOdds pos W →
      (ws.map fun w => (threshold pos w W r).toNat).sum = (threshold pos ws.sum W r).toNat := by
  intro ws
  induction ws with
  | nil =>
    intro _ hle hfull
    rw [sum_nil] at hle hfull ⊢
    rw [threshold_toNat le_rfl hle hmax hfull]
    simp [odds]
  | cons w ws ih =>
    intro hpos hle hfull
    have hw : 0 < w := hpos w mem_cons_self
    have hrest : ∀ v ∈ ws, 0 < v := fun v hv => hpos v (mem_cons_of_mem _ hv)
    have hsum : 0 ≤ ws.sum := sum_nonneg fun v hv => (hrest v hv).le
    rw [sum_cons] at hle hfull ⊢
    have hws : odds pos ws.sum r < fullOdds pos W := (odds_mono (by omega) le_rfl).trans_lt hfull
    have hone : odds pos w r < fullOdds pos W := (odds_mono (by omega) le_rfl).trans_lt hfull
    rw [map_cons, sum_cons, ih hrest (by omega) hws,
      threshold_toNat hw.le (by omega) hmax hone, threshold_toNat hsum (by omega) hmax hws,
      threshold_toNat (by omega) hle hmax hfull, ← Nat.mul_add]
    rw [odds, odds, odds, Int.toNat_add hw.le hsum, Nat.add_mul, Nat.add_mul]

/-! ## Rounds and times -/

theorem decodeModernPosRound_iff (hround : 0 < pos.roundSeconds) {parentTime blockTime r : Int} :
    decodeModernPosRound pos parentTime blockTime = some r ↔
      0 ≤ r ∧ blockTime = modernPosBlockTime pos parentTime r := by
  simp only [decodeModernPosRound, modernPosBlockTime]
  constructor
  · intro h
    split_ifs at h with hbad
    rw [not_or, not_not] at hbad
    obtain rfl := Option.some.inj h
    have hdiv := Int.tdiv_mul_cancel (Int.dvd_of_tmod_eq_zero hbad.2)
    exact ⟨Int.tdiv_nonneg (by omega) hround.le, by omega⟩
  · rintro ⟨hr, rfl⟩
    have hdelta : parentTime + pos.blockIntervalSeconds + r * pos.roundSeconds - parentTime
        - pos.blockIntervalSeconds = r * pos.roundSeconds := by ring
    have hpos : 0 ≤ r * pos.roundSeconds := Int.mul_nonneg hr hround.le
    rw [hdelta, if_neg (by rw [Int.mul_tmod_left]; omega), Int.mul_tdiv_cancel _ hround.ne']

/-- **Eligibility.** The fixed-width comparison is the comparison of the integers; acceptance
grows with the weight and with the round, until a round accepts every digest; splitting a weight
gains nothing; and a block time determines its round. -/
theorem eligibility_fair (hnum : 0 < pos.f0Num) (hden : 0 < pos.f0Den) (hmax : W ≤ MAX_MONEY) :
    (∀ digest w r, 0 < w → w ≤ W → 0 ≤ r →
      (modernPosEligible pos digest w W r = true ↔ Accepts pos digest w W r.toNat)) ∧
    (∀ digest w w' r r', 0 < w → w ≤ w' → w' ≤ W → 0 ≤ r → r ≤ r' →
      modernPosEligible pos digest w W r = true → modernPosEligible pos digest w' W r' = true) ∧
    (∀ w, 0 < w → w ≤ W → ∃ r, 0 ≤ r ∧ ∀ digest, modernPosEligible pos digest w W r = true) ∧
    (∀ (ws : List Int) r, (∀ w ∈ ws, 0 < w) → ws.sum ≤ W → odds pos ws.sum r < fullOdds pos W →
      (ws.map fun w => (threshold pos w W r).toNat).sum = (threshold pos ws.sum W r).toNat) ∧
    (0 < pos.roundSeconds → ∀ parentTime blockTime r,
      decodeModernPosRound pos parentTime blockTime = some r ↔
        0 ≤ r ∧ blockTime = modernPosBlockTime pos parentTime r) := by
  refine ⟨?_, ?_, ?_, fun ws r => threshold_sum hmax ws, fun hround _ _ _ =>
    decodeModernPosRound_iff hround⟩
  · intro digest w r hw hle hr
    exact modernPosEligible_iff hnum hden hmax hw hle hr digest
  · intro digest w w' r r' hw hww' hle hr hrr' h
    rw [modernPosEligible_iff hnum hden hmax hw (hww'.trans hle) hr] at h
    rw [modernPosEligible_iff hnum hden hmax (hw.trans_le hww') hle (hr.trans hrr')]
    exact accepts_mono hww' (Int.toNat_le_toNat hrr') h
  · intro w hw hle
    refine ⟨128, by decide, fun digest => ?_⟩
    rw [modernPosEligible_iff hnum hden hmax hw hle (by decide)]
    left
    have hsmall := (scaled_toNat (hw.le.trans hle) hmax pos.f0Den).2
    calc fullOdds pos W ≤ 2 ^ 128 := hsmall.le.trans (by decide)
      _ ≤ odds pos w 128 := Nat.le_mul_of_pos_left _ (Nat.mul_pos (by omega) hnum)

/-- Three parts of five, at odds of one in two: saturated after one round. -/
theorem sample_eligibility :
    (modernPosEligible { f0Den := 2 } 5 3 5 1 = true ↔ Accepts { f0Den := 2 } 5 3 5 1) ∧
      fullOdds { f0Den := 2 } 5 ≤ odds { f0Den := 2 } 3 2 := by
  refine ⟨?_, by decide⟩
  exact (@eligibility_fair { f0Den := 2 } 5 (by decide) (by decide) (by decide)).1 5 3 1
    (by decide) (by decide) (by decide)

end B3Coin.ModernPos
