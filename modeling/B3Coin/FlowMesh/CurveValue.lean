import B3Coin.FlowMesh.Curve
import Mathlib.Algebra.Order.Floor.Ring
import Mathlib.Data.Int.ConditionallyCompleteOrder
import Mathlib.Data.Rat.Floor

/-!
# Curves as functions of the price

`EvalCurve` and `FloorDiv128` of `flowmesh/clearing.h` in the widths of their types. Nothing
leaves them, and the result is the floor of the curve that is linear between its points and
flat outside.
-/
namespace B3Coin.FlowMesh

open List Int Option

/-- A signed result of `w` bits; `none` if it does not fit. -/
def fits (w : Nat) (x : Int) : Option Int :=
  if -2 ^ (w - 1) ≤ x ∧ x < 2 ^ (w - 1) then some x else none

/-- `FloorDiv128`: the quotient towards zero, corrected below zero. -/
def floorDiv128 (a b : Int) : Option Int := do
  let q ← fits 128 (a.tdiv b)
  let q ← if a.tmod b ≠ 0 ∧ a < 0 then fits 128 (q - 1) else some q
  fits 64 q

def interpolate128 (a b : Breakpoint) (price : Int) : Option Int := do
  let rise ← fits 128 (b.qty - a.qty)
  let run ← fits 128 (price - a.price)
  let num ← fits 128 (rise * run)
  let den ← fits 128 (b.price - a.price)
  let q ← floorDiv128 num den
  fits 64 (a.qty + q)

def evalSegments128 (price : Int) : Breakpoint → List Breakpoint → Option Int
  | a, [] => some a.qty
  | a, b :: rest =>
    if price < b.price then
      if b.price ≤ a.price then some a.qty else interpolate128 a b price
    else evalSegments128 price b rest

/-- `EvalCurve`, operation by operation. -/
def evalCurve128 (points : List Breakpoint) (price : Int) : Option Int :=
  match points with
  | [] => some 0
  | a :: rest =>
    if ¬ ∀ p ∈ a :: rest, p.inRange then some 0
    else if price ≤ a.price then some a.qty
    else if price ≥ (lastPoint a rest).price then some (lastPoint a rest).qty
    else evalSegments128 price a rest

/-- The line through two points. -/
def line (a b : Breakpoint) (p : ℚ) : ℚ :=
  a.qty + (b.qty - a.qty) * (p - a.price) / (b.price - a.price)

/-- The curve through the points, flat outside them. -/
def curveValue (p : ℚ) : Breakpoint → List Breakpoint → ℚ
  | a, [] => a.qty
  | a, b :: rest =>
    if p ≤ a.price then a.qty else if p < b.price then line a b p else curveValue p b rest

/-! ## Widths -/

theorem fits_eq {w : Nat} {x : Int} (h : -2 ^ (w - 1) ≤ x ∧ x < 2 ^ (w - 1)) :
    fits w x = some x := if_pos h

variable {a b : Breakpoint} {rest : List Breakpoint} {price : Int} {side : Side}

theorem floorDiv128_eq {n d : Int} (hd : 0 < d) (hq : -2 ^ 62 ≤ n / d ∧ n / d ≤ 2 ^ 62) :
    floorDiv128 n d = some (n / d) := by
  have htdiv : n.tdiv d = n / d + if 0 ≤ n ∨ d ∣ n then 0 else 1 := by
    rw [tdiv_eq_ediv, sign_eq_one_of_pos hd]
  have hbelow : n.tmod d ≠ 0 ∧ n < 0 ↔ ¬ (0 ≤ n ∨ d ∣ n) := by
    rw [ne_eq, ← dvd_iff_tmod_eq_zero, not_or, not_le, and_comm]
  simp only [floorDiv128, hbelow, htdiv]
  by_cases hexact : 0 ≤ n ∨ d ∣ n
  · simp only [hexact, not_true, if_true, if_false, add_zero]
    rw [fits_eq (by omega), bind_eq_bind, bind_some]
    exact fits_eq (by omega)
  · simp only [hexact, not_false_iff, if_true, if_false]
    rw [fits_eq (by omega), bind_eq_bind, bind_some, fits_eq (by omega),
      bind_some, add_sub_cancel_right]
    exact fits_eq (by omega)

/-- What is added to the left quantity is no more than the two quantities differ. -/
theorem interpolate128_eq (ha : a.inRange) (hb : b.inRange) (hlow : a.price ≤ price)
    (hhigh : price < b.price) : interpolate128 a b price = some (interpolate a b price) := by
  obtain ⟨⟨hqa, hqa'⟩, hpa, -⟩ := ha
  obtain ⟨⟨hqb, hqb'⟩, -, hpb⟩ := hb
  rw [MAX_MONEY_eq] at hqa' hqb' hpb
  have hden : 0 < b.price - a.price := by omega
  have hnum : -2 ^ 120 ≤ (b.qty - a.qty) * (price - a.price) ∧
      (b.qty - a.qty) * (price - a.price) ≤ 2 ^ 120 := by
    constructor <;> nlinarith
  have hq : -2 ^ 62 ≤ (b.qty - a.qty) * (price - a.price) / (b.price - a.price) ∧
      (b.qty - a.qty) * (price - a.price) / (b.price - a.price) ≤ 2 ^ 62 := by
    constructor
    · rw [Int.le_ediv_iff_mul_le hden]
      nlinarith
    · exact Int.ediv_le_of_le_mul hden (by nlinarith)
  have hrise := fits_eq (w := 128) (x := b.qty - a.qty) (by omega)
  have hrun := fits_eq (w := 128) (x := price - a.price) (by omega)
  have hproduct := fits_eq (w := 128) (x := (b.qty - a.qty) * (price - a.price)) (by omega)
  have hwidth := fits_eq (w := 128) (x := b.price - a.price) (by omega)
  have hsum := fits_eq (w := 64)
    (x := a.qty + (b.qty - a.qty) * (price - a.price) / (b.price - a.price)) (by omega)
  simp only [interpolate128, hrise, hrun, hproduct, hwidth, floorDiv128_eq hden hq, hsum,
    bind_eq_bind, bind_some, interpolate]

theorem evalSegments128_eq (hr : ∀ p ∈ a :: rest, p.inRange) (ha : a.price ≤ price) :
    evalSegments128 price a rest = some (evalSegments price a rest) := by
  induction rest generalizing a with
  | nil => rfl
  | cons b rest ih =>
    rw [evalSegments128, evalSegments]
    split_ifs with hp hguard
    · rfl
    · exact interpolate128_eq (hr a (by simp)) (hr b (by simp)) ha hp
    · exact ih (fun p hp => hr p (mem_cons_of_mem _ hp)) (not_lt.mp hp)

/-- No operation of `EvalCurve` overflows, whatever the points. -/
theorem evalCurve128_eq (points : List Breakpoint) (price : Int) :
    evalCurve128 points price = some (evalCurve points price) := by
  cases points with
  | nil => rfl
  | cons a rest =>
    rw [evalCurve128, evalCurve]
    split_ifs with hr hlow hhigh
    · rfl
    · rfl
    · exact evalSegments128_eq hr (not_le.mp hlow).le
    · rfl

/-! ## The exact curve -/

theorem interpolate_eq_floor (h : a.price < b.price) :
    interpolate a b price = ⌊line a b price⌋ := by
  obtain ⟨d, hd⟩ := eq_ofNat_of_zero_le (sub_pos.mpr h).le
  have hline : line a b price = a.qty + (((b.qty - a.qty) * (price - a.price) : Int) : ℚ) / (d : ℚ) := by
    have hcast : (b.price : ℚ) - a.price = d := by exact_mod_cast hd
    rw [line, hcast]
    push_cast
    rfl
  rw [hline, floor_intCast_add, Rat.floor_intCast_div_natCast, interpolate, hd]

theorem evalSegments_eq_floor (h : (a :: rest).IsChain (ascends side)) (ha : a.price ≤ price) :
    evalSegments price a rest = ⌊curveValue price a rest⌋ := by
  induction rest generalizing a with
  | nil => rw [curveValue, floor_intCast, evalSegments]
  | cons b rest ih =>
    obtain ⟨hab, htail⟩ := isChain_cons_cons.mp h
    rw [curveValue]
    simp only [cast_le, cast_lt]
    split_ifs with hfront hp
    · rw [le_antisymm hfront ha, evalSegments_front h, floor_intCast]
    · rw [evalSegments, if_pos hp, if_neg (not_le.mpr hab.1), interpolate_eq_floor hab.1]
    · rw [evalSegments, if_neg hp, ih htail (not_lt.mp hp)]

/-- A valid curve evaluates to the floor of its exact value. -/
theorem ValidCurve.eval_eq_floor (h : ValidCurve side a rest) (price : Int) :
    evalCurve (a :: rest) price = ⌊curveValue price a rest⌋ := by
  rw [h.eval_max]
  by_cases hlow : price ≤ a.price
  · have hfront : curveValue price a rest = a.qty := by
      cases rest with
      | nil => rfl
      | cons b rest => rw [curveValue, if_pos (cast_le.mpr hlow)]
    rw [max_eq_right hlow, evalSegments_front h.chain, hfront, floor_intCast]
  · rw [max_eq_left (not_le.mp hlow).le, evalSegments_eq_floor h.chain (not_le.mp hlow).le]

/-- Evaluation in machine arithmetic is the floor of the exact curve. It stays between the first
and the last quantity, meets every point, and moves one way. -/
theorem evalCurve_exact (maxK : Nat) (side : Side) (a : Breakpoint) (rest : List Breakpoint)
    (h : curveIsValid maxK side (a :: rest) = true) :
    ∃ f : Int → Int, (∀ price, evalCurve128 (a :: rest) price = some (f price)) ∧
      (∀ price, f price = ⌊curveValue price a rest⌋) ∧
      (∀ price, min a.qty (lastPoint a rest).qty ≤ f price ∧
        f price ≤ max a.qty (lastPoint a rest).qty) ∧
      (∀ p ∈ a :: rest, f p.price = p.qty) ∧
      match side with
      | .BID => Antitone f
      | .ASK => Monotone f := by
  obtain ⟨_, _, heq, hvalid⟩ := curveIsValid_cons h
  cases heq
  refine ⟨evalCurve (a :: rest), evalCurve128_eq _, hvalid.eval_eq_floor, fun price => ?_,
    fun p hp => hvalid.eval_point hp, ?_⟩
  · have hbounds := hvalid.eval_bounds price
    cases side with
    | BID => exact ⟨min_le_of_right_le hbounds.2, le_max_of_le_left hbounds.1⟩
    | ASK => exact ⟨min_le_of_left_le hbounds.1, le_max_of_le_right hbounds.2⟩
  · cases side <;> exact fun p q hpq => hvalid.eval_follows hpq

theorem evalCurve_exact_bid : ∃ f : Int → Int,
    (∀ price, evalCurve128 [⟨1, 7⟩, ⟨4, 2⟩, ⟨9, 0⟩] price = some (f price)) ∧ f 3 = 3 ∧ Antitone f := by
  obtain ⟨f, hf, -, -, -, hanti⟩ :=
    evalCurve_exact 8 .BID ⟨1, 7⟩ [⟨4, 2⟩, ⟨9, 0⟩] (by decide)
  exact ⟨f, hf, Option.some.inj ((hf 3).symm.trans (by decide)), hanti⟩

end B3Coin.FlowMesh
