import B3Coin.Basic
import Mathlib.Algebra.Order.Ring.Int
import Mathlib.Data.List.Chain
import Mathlib.Tactic.Linarith

/-!
# Demand curves and their worst-case cost

The part of `flowmesh/clearing.h` that reads one curve: validity, evaluation,
quotes and the staircase reservation. The 128-bit intermediates are exact
integers here; `Fits` says that they stay in range.
-/
namespace B3Coin.FlowMesh

open List

inductive Side where
  | BID | ASK
  deriving DecidableEq

structure Breakpoint where
  price : Int
  qty : Int
  deriving DecidableEq

def HARD_MAX_CURVE_POINTS : Nat := 64

/-- Two neighbouring points of a curve: the price rises, a bid buys no more, an ask sells
no less. -/
def ascends (side : Side) (a b : Breakpoint) : Prop :=
  a.price < b.price ∧
    match side with
    | .BID => b.qty ≤ a.qty
    | .ASK => a.qty ≤ b.qty

instance (side : Side) : DecidableRel (ascends side) := fun a b => by
  unfold ascends
  cases side <;> infer_instance

def Breakpoint.inRange (p : Breakpoint) : Prop := MoneyRange p.qty ∧ MoneyRange p.price

instance (p : Breakpoint) : Decidable p.inRange := inferInstanceAs (Decidable (_ ∧ _))

/-- The last point of the curve that starts at `a`. -/
def lastPoint (a : Breakpoint) (rest : List Breakpoint) : Breakpoint := rest.getLastD a

/-- `CurveIsValid`. -/
def curveIsValid (maxK : Nat) (side : Side) : List Breakpoint → Bool
  | [] => false
  | a :: rest =>
    (a :: rest).length ≤ maxK && (a :: rest).all (fun p => decide p.inRange) &&
      decide ((a :: rest).IsChain (ascends side)) &&
      match side with
      | .BID => decide ((lastPoint a rest).qty = 0) && decide (0 < a.qty)
      | .ASK => decide (0 < (lastPoint a rest).qty)

/-- The floor of the exact interpolant on one segment. -/
def interpolate (a b : Breakpoint) (price : Int) : Int :=
  a.qty + (b.qty - a.qty) * (price - a.price) / (b.price - a.price)

/-- The loop of `EvalCurve` from the point `a` on. -/
def evalSegments (price : Int) : Breakpoint → List Breakpoint → Int
  | a, [] => a.qty
  | a, b :: rest =>
    if price < b.price then
      if b.price ≤ a.price then a.qty else interpolate a b price
    else evalSegments price b rest

/-- `EvalCurve`, total on every list of points. -/
def evalCurve (points : List Breakpoint) (price : Int) : Int :=
  match points with
  | [] => 0
  | a :: rest =>
    if ¬ ∀ p ∈ a :: rest, p.inRange then 0
    else if price ≤ a.price then a.qty
    else if price ≥ (lastPoint a rest).price then (lastPoint a rest).qty
    else evalSegments price a rest

/-- `Quote`: `qty * price`, refused outside the monetary range. -/
def quote (qty price : Int) : Option Int :=
  if qty < 0 ∨ price < 0 then none
  else if qty * price > MAX_MONEY then none
  else some (qty * price)

/-- The loop of `WorstCaseReservation` for a bid. -/
def bidWorst (worst : Int) : Breakpoint → List Breakpoint → Option Int
  | _, [] => some worst
  | a, b :: rest =>
    match quote (a.qty - b.qty) (b.price - 1) with
    | none => none
    | some spend => if spend > MAX_MONEY - worst then none else bidWorst (worst + spend) b rest

/-- `WorstCaseReservation`; the source never calls it on an empty curve. -/
def worstCaseReservation (side : Side) : List Breakpoint → Option Int
  | [] => none
  | a :: rest =>
    match side with
    | .ASK => some (lastPoint a rest).qty
    | .BID => bidWorst 0 a rest

/-! ## Valid curves -/

/-- A valid curve as a fact about its points. -/
structure ValidCurve (side : Side) (a : Breakpoint) (rest : List Breakpoint) : Prop where
  inRange : ∀ p ∈ a :: rest, p.inRange
  chain : (a :: rest).IsChain (ascends side)
  bid : side = .BID → (lastPoint a rest).qty = 0 ∧ 0 < a.qty
  ask : side = .ASK → 0 < (lastPoint a rest).qty

variable {side : Side}

theorem curveIsValid_cons {maxK : Nat} {points : List Breakpoint}
    (h : curveIsValid maxK side points = true) :
    ∃ a rest, points = a :: rest ∧ ValidCurve side a rest := by
  cases points with
  | nil => simp [curveIsValid] at h
  | cons a rest =>
    simp only [curveIsValid, Bool.and_eq_true, all_eq_true, decide_eq_true_eq] at h
    obtain ⟨⟨⟨_, hr⟩, hc⟩, he⟩ := h
    refine ⟨a, rest, rfl, hr, hc, ?_, ?_⟩
    · rintro rfl
      simpa using he
    · rintro rfl
      simpa using he

theorem lastPoint_cons (a b : Breakpoint) (rest : List Breakpoint) :
    lastPoint a (b :: rest) = lastPoint b rest := by
  cases rest <;> rfl

theorem lastPoint_mem (a : Breakpoint) (rest : List Breakpoint) : lastPoint a rest ∈ a :: rest := by
  induction rest generalizing a with
  | nil => simp [lastPoint]
  | cons b rest ih => rw [lastPoint_cons]; exact mem_cons_of_mem _ (ih b)

variable {a b : Breakpoint}

theorem ascends_trans {c : Breakpoint} (hab : ascends side a b)
    (hbc : ascends side b c) : ascends side a c := by
  cases side <;> exact ⟨lt_trans hab.1 hbc.1, by have := hab.2; have := hbc.2; simp_all; omega⟩

instance (side : Side) : Trans (ascends side) (ascends side) (ascends side) := ⟨ascends_trans⟩

variable {rest : List Breakpoint}

/-- Every later point of the curve lies above the first in price. -/
theorem ascends_of_mem
    (h : (a :: rest).IsChain (ascends side)) (hb : b ∈ rest) : ascends side a b :=
  (pairwise_cons.mp (isChain_iff_pairwise.mp h)).1 b hb

variable {price : Int}

/-- The second quantity may stand at the higher price. -/
def Side.Follows (side : Side) (x y : Int) : Prop :=
  match side with
  | .BID => y ≤ x
  | .ASK => x ≤ y

theorem Side.Follows.trans {x y z : Int} (hxy : side.Follows x y) (hyz : side.Follows y z) :
    side.Follows x z := by
  cases side with
  | BID => exact le_trans hyz hxy
  | ASK => exact le_trans hxy hyz

theorem interpolate_left (a b : Breakpoint) : interpolate a b a.price = a.qty := by
  simp [interpolate]

theorem interpolate_right (h : a.price < b.price) : interpolate a b b.price = b.qty := by
  rw [interpolate, Int.mul_ediv_cancel _ (by omega)]
  ring

variable {p q : Int}

theorem interpolate_follows (h : ascends side a b) (hpq : p ≤ q) :
    side.Follows (interpolate a b p) (interpolate a b q) := by
  have hden : 0 < b.price - a.price := Int.sub_pos.mpr h.1
  have hrun : p - a.price ≤ q - a.price := Int.sub_le_sub_right hpq _
  cases side with
  | BID =>
    have hqty : b.qty - a.qty ≤ 0 := Int.sub_nonpos_of_le h.2
    exact Int.add_le_add_left (Int.ediv_le_ediv hden (mul_le_mul_of_nonpos_left hrun hqty)) _
  | ASK =>
    have hqty : 0 ≤ b.qty - a.qty := Int.sub_nonneg.mpr h.2
    exact Int.add_le_add_left (Int.ediv_le_ediv hden (mul_le_mul_of_nonneg_left hrun hqty)) _

theorem evalSegments_front (h : (a :: rest).IsChain (ascends side)) :
    evalSegments a.price a rest = a.qty := by
  cases rest with
  | nil => rfl
  | cons b rest =>
    have hab := (isChain_cons_cons.mp h).1.1
    rw [evalSegments, if_pos hab, if_neg (not_le.mpr hab), interpolate_left]

/-- From its first price on a curve moves one way. -/
theorem evalSegments_follows (h : (a :: rest).IsChain (ascends side)) (ha : a.price ≤ p)
    (hpq : p ≤ q) : side.Follows (evalSegments p a rest) (evalSegments q a rest) := by
  induction rest generalizing a p with
  | nil => cases side <;> exact le_refl _
  | cons b rest ih =>
    obtain ⟨hab, htail⟩ := isChain_cons_cons.mp h
    simp only [evalSegments, if_neg (not_le.mpr hab.1)]
    by_cases hq : q < b.price
    · rw [if_pos hq, if_pos (by omega)]
      exact interpolate_follows hab hpq
    · rw [if_neg hq]
      split_ifs with hp
      · -- the two prices lie on either side of `b`
        have hleft := interpolate_follows hab hp.le
        have hright := ih htail (le_refl _) (not_lt.mp hq)
        rw [interpolate_right hab.1] at hleft
        rw [evalSegments_front htail] at hright
        exact hleft.trans hright
      · exact ih htail (not_lt.mp hp) hpq

theorem evalSegments_point (h : (a :: rest).IsChain (ascends side)) (hb : b ∈ a :: rest) :
    evalSegments b.price a rest = b.qty := by
  induction rest generalizing a with
  | nil =>
    obtain rfl := mem_singleton.mp hb
    rfl
  | cons c rest ih =>
    rcases mem_cons.mp hb with rfl | hb
    · exact evalSegments_front h
    · obtain ⟨_, htail⟩ := isChain_cons_cons.mp h
      have hle : c.price ≤ b.price := by
        rcases mem_cons.mp hb with rfl | hb
        · exact le_refl _
        · exact (ascends_of_mem htail hb).1.le
      rw [evalSegments, if_neg (not_lt.mpr hle), ih htail hb]

theorem evalSegments_last (h : (a :: rest).IsChain (ascends side))
    (hq : (lastPoint a rest).price ≤ q) : evalSegments q a rest = (lastPoint a rest).qty := by
  induction rest generalizing a with
  | nil => rfl
  | cons b rest ih =>
    obtain ⟨_, htail⟩ := isChain_cons_cons.mp h
    rw [lastPoint_cons] at hq ⊢
    have hb : b.price ≤ q := by
      rcases mem_cons.mp (lastPoint_mem b rest) with heq | hm
      · rwa [heq] at hq
      · exact (ascends_of_mem htail hm).1.le.trans hq
    rw [evalSegments, if_neg (not_lt.mpr hb), ih htail hq]

section Valid

variable (h : ValidCurve side a rest)

include h

/-- The two flat ends are what the loop computes there. -/
theorem ValidCurve.eval_max (price : Int) :
    evalCurve (a :: rest) price = evalSegments (max price a.price) a rest := by
  rw [evalCurve, if_neg (not_not.mpr h.inRange)]
  split_ifs with hlow hhigh
  · rw [max_eq_right hlow, evalSegments_front h.chain]
  · rw [max_eq_left (not_le.mp hlow).le, evalSegments_last h.chain hhigh]
  · rw [max_eq_left (not_le.mp hlow).le]

theorem ValidCurve.eval_follows (hpq : p ≤ q) :
    side.Follows (evalCurve (a :: rest) p) (evalCurve (a :: rest) q) := by
  rw [h.eval_max, h.eval_max]
  exact evalSegments_follows h.chain (le_max_right _ _) (max_le_max_right _ hpq)

theorem ValidCurve.eval_point (hb : b ∈ a :: rest) : evalCurve (a :: rest) b.price = b.qty := by
  have hlow : a.price ≤ b.price := by
    rcases mem_cons.mp hb with rfl | hb
    · exact le_refl _
    · exact (ascends_of_mem h.chain hb).1.le
  rw [h.eval_max, max_eq_left hlow, evalSegments_point h.chain hb]

theorem ValidCurve.eval_front : evalCurve (a :: rest) a.price = a.qty := h.eval_point mem_cons_self

theorem ValidCurve.eval_last :
    evalCurve (a :: rest) (lastPoint a rest).price = (lastPoint a rest).qty :=
  h.eval_point (lastPoint_mem a rest)

theorem ValidCurve.eval_bounds (price : Int) : side.Follows a.qty (evalCurve (a :: rest) price) ∧
      side.Follows (evalCurve (a :: rest) price) (lastPoint a rest).qty := by
  have hfirst := h.eval_follows (min_le_left price a.price)
  have hlast := h.eval_follows (le_max_left price (lastPoint a rest).price)
  rw [h.eval_max, max_eq_right (min_le_right _ _), evalSegments_front h.chain] at hfirst
  rw [h.eval_max (max _ _), evalSegments_last h.chain
    ((le_max_right _ _).trans (le_max_left _ _))] at hlast
  exact ⟨hfirst, hlast⟩

end Valid

/-- A bid's demand: at most the quantity of every point at or below the price. -/
theorem ValidCurve.eval_bid (h : ValidCurve .BID a rest) (price : Int) :
    (∀ b ∈ a :: rest, b.price ≤ price → evalCurve (a :: rest) price ≤ b.qty) ∧
      evalCurve (a :: rest) price ≤ a.qty ∧ 0 ≤ evalCurve (a :: rest) price := by
  obtain ⟨hfirst, hlast⟩ := h.eval_bounds price
  rw [(h.bid rfl).1] at hlast
  refine ⟨fun b hb hp => ?_, hfirst, hlast⟩
  have hdown := h.eval_follows hp
  rwa [h.eval_point hb] at hdown

theorem ValidCurve.eval_ask (h : ValidCurve .ASK a rest) (price : Int) :
    evalCurve (a :: rest) price ≤ (lastPoint a rest).qty ∧ 0 ≤ evalCurve (a :: rest) price := by
  obtain ⟨hfirst, hlast⟩ := h.eval_bounds price
  exact ⟨hlast, le_trans (h.inRange a (by simp)).1.1 hfirst⟩

/-! ## The staircase -/

/-- The staircase cost of the lots above position `f`: a lot between two points is priced
one tick below the upper one. -/
def remainingCost (f : Int) : Breakpoint → List Breakpoint → Int
  | _, [] => 0
  | a, b :: rest => (max a.qty f - max b.qty f) * (b.price - 1) + remainingCost f b rest

theorem quote_some {qty x : Int} (h : quote qty price = some x) :
    0 ≤ qty ∧ 0 ≤ price ∧ x = qty * price ∧ 0 ≤ x ∧ x ≤ MAX_MONEY := by
  unfold quote at h
  split_ifs at h with h1 h2
  obtain rfl := Option.some.inj h
  have hq : 0 ≤ qty := by omega
  have hp : 0 ≤ price := by omega
  exact ⟨hq, hp, rfl, mul_nonneg hq hp, not_lt.mp h2⟩

theorem quote_of_le {qty : Int} (hq : 0 ≤ qty) (hp : 0 ≤ price)
    (hle : qty * price ≤ MAX_MONEY) : quote qty price = some (qty * price) := by
  unfold quote
  rw [if_neg (by omega), if_neg (not_lt.mpr hle)]

/-- The reservation of a bid is the staircase cost of all its lots. -/
theorem bidWorst_some {w x : Int}
    (hr : ∀ p ∈ a :: rest, p.inRange) (hw : MoneyRange w) (h : bidWorst w a rest = some x) :
    x = w + remainingCost 0 a rest ∧ MoneyRange x := by
  induction rest generalizing a w with
  | nil =>
    obtain rfl := Option.some.inj h
    exact ⟨by simp [remainingCost], hw⟩
  | cons b rest ih =>
    have ha := (hr a (by simp)).1.1
    have hb := (hr b (by simp)).1.1
    rw [bidWorst] at h
    cases hq : quote (a.qty - b.qty) (b.price - 1) with
    | none => simp [hq] at h
    | some spend =>
      obtain ⟨_, _, rfl, hnn, _⟩ := quote_some hq
      simp only [hq, Option.ite_none_left_eq_some] at h
      obtain ⟨hroom, h⟩ := h
      obtain ⟨rfl, hx⟩ := ih (fun p hp => hr p (by simp [mem_cons.mp hp]))
        ⟨by have := hw.1; omega, by omega⟩ h
      refine ⟨?_, hx⟩
      rw [remainingCost, max_eq_left ha, max_eq_left hb]
      ring

variable {f : Int}

/-- Filling from `f` to `g` lots at one price costs at most what the staircase set aside,
as long as every point the lots lie above is dearer than the price. -/
theorem remainingCost_fill {g p : Int} (hfg : f ≤ g)
    (hq : (a :: rest).IsChain (ascends .BID)) (hp : ∀ b ∈ rest, b.qty < g → p < b.price) :
    (max a.qty f - max (lastPoint a rest).qty f -
        (max a.qty g - max (lastPoint a rest).qty g)) * p + remainingCost g a rest ≤
      remainingCost f a rest := by
  induction rest generalizing a with
  | nil => simp [remainingCost, lastPoint]
  | cons b rest ih =>
    obtain ⟨hab, htail⟩ := isChain_cons_cons.mp hq
    have hrec := ih htail fun c hc => hp c (by simp [hc])
    have hqty : b.qty ≤ a.qty := hab.2
    -- the lots of this step among those filled
    have hstep : (max a.qty f - max b.qty f - (max a.qty g - max b.qty g)) * p ≤
        (max a.qty f - max b.qty f - (max a.qty g - max b.qty g)) * (b.price - 1) := by
      by_cases hb : b.qty < g
      · have := hp b (by simp) hb
        exact mul_le_mul_of_nonneg_left (by omega) (by omega)
      · have hzero : max a.qty f - max b.qty f - (max a.qty g - max b.qty g) = 0 := by omega
        rw [hzero]
        simp
    rw [lastPoint_cons, remainingCost, remainingCost]
    nlinarith

/-- The same for a valid bid: what it demands at a price it can pay from its staircase. -/
theorem ValidCurve.fill_cost (h : ValidCurve .BID a rest)
    {g p : Int} (hf : 0 ≤ f) (hfg : f ≤ g) (hg : g ≤ evalCurve (a :: rest) p) :
    (g - f) * p + remainingCost g a rest ≤ remainingCost f a rest := by
  obtain ⟨hpts, htop, _⟩ := h.eval_bid p
  have hlast := (h.bid rfl).1
  have := remainingCost_fill (p := p) hfg h.chain fun b hb hlt => by
    by_contra hle
    have := hpts b (by simp [hb]) (not_lt.mp hle)
    omega
  rw [hlast, max_eq_right hf, max_eq_right (hf.trans hfg), max_eq_left (hfg.trans (hg.trans htop)),
    max_eq_left (hg.trans htop)] at this
  have heq : a.qty - f - (a.qty - g) = g - f := by ring
  rwa [heq] at this

theorem remainingCost_nonneg
    (hr : ∀ p ∈ a :: rest, p.inRange) (hq : (a :: rest).IsChain (ascends .BID)) :
    0 ≤ remainingCost f a rest := by
  induction rest generalizing a with
  | nil => simp [remainingCost]
  | cons b rest ih =>
    obtain ⟨hab, htail⟩ := isChain_cons_cons.mp hq
    have hrec := ih (fun p hp => hr p (mem_cons_of_mem _ hp)) htail
    have hqty : b.qty ≤ a.qty := hab.2
    have hprice := (hr a (by simp)).2.1
    have := hab.1
    exact add_nonneg (mul_nonneg (by omega) (by omega)) hrec

end B3Coin.FlowMesh
