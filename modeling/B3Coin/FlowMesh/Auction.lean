import B3Coin.FlowMesh.Solvency

/-!
# What a standing curve reserves and what a slot trades

Two sides of `flowmesh/clearing.h` that hold for every book. A curve that is accepted
reserves something, with one exception: a bid that gives up at the price of one tick.
A slot that clears takes the best breakpoint price of the book and rations the long
side in proportion.
-/
namespace B3Coin.FlowMesh

open LargestRemainder List OrderedMap Book Sample

/-! ## The reservation of a curve -/

variable {a : Breakpoint} {rest : List Breakpoint}

theorem remainingCost_zero
    (hr : ∀ p ∈ a :: rest, p.inRange) (hq : (a :: rest).IsChain (ascends .BID)) (ha : a.qty = 0) :
    remainingCost 0 a rest = 0 := by
  induction rest generalizing a with
  | nil => rfl
  | cons b rest ih =>
    obtain ⟨hab, htail⟩ := isChain_cons_cons.mp hq
    have hle : b.qty ≤ a.qty := hab.2
    have hnn := (hr b (by simp)).1.1
    have hb : b.qty = 0 := by omega
    rw [remainingCost, ih (fun p hp => hr p (mem_cons_of_mem _ hp)) htail hb, ha, hb]
    simp

/-- Above the lowest price no point stands at one tick. -/
theorem tick_not_mem {side : Side}
    (hq : (a :: rest).IsChain (ascends side)) (ha : 1 ≤ a.price) (qty : Int) : ⟨1, qty⟩ ∉ rest := by
  intro hmem
  have := (ascends_of_mem hq hmem).1
  dsimp only at this
  omega

/-- The staircase of a bid is worth something unless the bid has come down to nothing at one tick. -/
theorem remainingCost_pos_iff
    (hr : ∀ p ∈ a :: rest, p.inRange) (hq : (a :: rest).IsChain (ascends .BID)) (ha : 0 < a.qty)
    (hlast : (lastPoint a rest).qty = 0) : 0 < remainingCost 0 a rest ↔ ⟨1, 0⟩ ∉ rest := by
  induction rest generalizing a with
  | nil =>
    rw [lastPoint, List.getLastD] at hlast
    omega
  | cons b rest ih =>
    obtain ⟨hab, htail⟩ := isChain_cons_cons.mp hq
    have hrest : ∀ p ∈ b :: rest, p.inRange := fun p hp => hr p (mem_cons_of_mem _ hp)
    have hprice : 1 ≤ b.price := by
      have := (hr a (by simp)).2.1
      have := hab.1
      omega
    have hnone := tick_not_mem htail hprice 0
    have hnn := (hr b (by simp)).1.1
    rw [remainingCost, max_eq_left ha.le, max_eq_left hnn, mem_cons, not_or]
    rcases hnn.eq_or_lt with hzero | hpos
    · -- the last lots are given up here
      rw [remainingCost_zero hrest htail hzero.symm, ← hzero, sub_zero, add_zero]
      constructor
      · intro hcost
        refine ⟨fun heq => ?_, hnone⟩
        rw [← heq] at hcost
        simp at hcost
      · rintro ⟨hne, -⟩
        refine mul_pos ha ?_
        by_contra hle
        have hone : b.price = 1 := by omega
        refine hne ?_
        rw [← hone, hzero]
    · have hcost := (ih hrest htail hpos (by rwa [lastPoint_cons] at hlast)).mpr hnone
      have hstep : 0 ≤ (a.qty - b.qty) * (b.price - 1) := by
        have : b.qty ≤ a.qty := hab.2
        exact mul_nonneg (by omega) (by omega)
      refine ⟨fun _ => ⟨fun heq => ?_, hnone⟩, fun _ => by omega⟩
      rw [← heq] at hpos
      exact lt_irrefl _ hpos

theorem reservation_pos_iff {maxK : Nat} {side : Side} {points : List Breakpoint} {need : Int}
    (hvalid : curveIsValid maxK side points = true)
    (hneed : worstCaseReservation side points = some need) :
    0 < need ↔ (side = .BID → ⟨1, 0⟩ ∉ points) := by
  obtain ⟨a, rest, rfl, hcurve⟩ := curveIsValid_cons hvalid
  cases side with
  | ASK =>
    cases hneed
    exact ⟨nofun, fun _ => hcurve.ask rfl⟩
  | BID =>
    obtain ⟨hlast, ha⟩ := hcurve.bid rfl
    obtain ⟨rfl, -⟩ := bidWorst_some hcurve.inRange ⟨le_refl 0, by decide⟩ hneed
    rw [zero_add, remainingCost_pos_iff hcurve.inRange hcurve.chain ha hlast]
    refine ⟨fun hnone _ hmem => ?_, fun h hmem => h rfl (mem_cons_of_mem _ hmem)⟩
    rcases mem_cons.mp hmem with heq | hmem
    · rw [← heq] at ha
      exact lt_irrefl _ ha
    · exact hnone hmem

/-- The account stands in the book with a positive reservation, taken from its own funds. -/
def StandsReserved (b : Book) (l : Ledger) (account : AccountId) (side : Side) (b' : Book)
    (l' : Ledger) : Prop :=
  ∃ c, (b'.side side).find? account = some c ∧ 0 < c.reserved ∧
    l'.reserved account (b.reserveAsset side) - l.reserved account (b.reserveAsset side) =
      c.reserved - b.curveReserved side account ∧
    l.available account (b.reserveAsset side) - l'.available account (b.reserveAsset side) =
      c.reserved - b.curveReserved side account

/-- An accepted curve stands reserved exactly if it is not a bid that comes down to nothing at one
tick. -/
theorem submitCurve_reserved_iff {b b' : Book} {l l' : Ledger} {account : AccountId} {side : Side}
    {points : List Breakpoint} (hs : b.submitCurve l account side points = some (b', l')) :
    StandsReserved b l account side b' l' ↔ (side = .BID → ⟨1, 0⟩ ∉ points) := by
  obtain ⟨need, hvalid, hneed, rfl, hmoved, -⟩ := submitCurve_some hs
  rw [← reservation_pos_iff hvalid hneed]
  have hfind : ((b.withSide side ((b.side side).insert account ⟨points, 0, need⟩)).side side).find?
      account = some ⟨points, 0, need⟩ := by
    rw [side_withSide, find?_insert_self]
  unfold StandsReserved
  rw [hfind, hmoved.reserved, hmoved.available]
  constructor
  · rintro ⟨c, hc, hpos, -, -⟩
    cases hc
    exact hpos
  · intro hpos
    refine ⟨_, rfl, hpos, ?_, ?_⟩
    · simp [delta]
    · simp [delta]

def emptyBook : Book where
  base := 1
  quote := 2
  maxK := 8
  distinct := by decide
  maxK_pos := config.maxK_pos
  maxK_le := config.maxK_le

def fundedLedger : Ledger where
  vault := 7
  balances := OrderedMap.insert ∅ (toLex (5, 2)) ⟨100, 0⟩

/-- A limit order at three ticks reserves what it may cost. -/
theorem limit_order_reserved :
    ∃ b' l', emptyBook.submitCurve fundedLedger 5 .BID [⟨3, 10⟩, ⟨4, 0⟩] = some (b', l') ∧
      StandsReserved emptyBook fundedLedger 5 .BID b' l' := by
  have haccepted : (emptyBook.submitCurve fundedLedger 5 .BID [⟨3, 10⟩, ⟨4, 0⟩]).isSome = true := by
    decide +kernel
  obtain ⟨x, hx⟩ := Option.isSome_iff_exists.mp haccepted
  exact ⟨x.1, x.2, hx, (submitCurve_reserved_iff hx).mpr (by decide)⟩

/-- An account without any funds puts a bid for five lots into the book. -/
theorem free_book_entry : ∃ b' l', emptyBook.submitCurve ⟨7, 0, 0, ∅, ∅, ∅⟩ 5 .BID
    [⟨0, 5⟩, ⟨1, 0⟩] = some (b', l') ∧ (b'.side .BID).find? 5 = some ⟨[⟨0, 5⟩, ⟨1, 0⟩], 0, 0⟩ ∧
      ¬ StandsReserved emptyBook ⟨7, 0, 0, ∅, ∅, ∅⟩ 5 .BID b' l' := by
  refine ⟨_, _, rfl, rfl, ?_⟩
  rintro ⟨c, hc, hpos, -⟩
  cases hc
  exact lt_irrefl _ hpos

/-! ## The price of a slot -/

namespace Book

variable (b : Book)

/-- A price at which some standing curve has a point. -/
def BreakpointPrice (price : Int) : Prop :=
  ∃ side account c, (b.side side).find? account = some c ∧ price ∈ c.points.map (·.price)

/-- What can be traded at a price. -/
def volumeAt (price : Int) : Int := min (b.sideTotal .BID price) (b.sideTotal .ASK price)

def imbalanceAt (price : Int) : Int := |b.sideTotal .BID price - b.sideTotal .ASK price|

/-- The first price is at least as good as the second: more volume, then less imbalance, then the
lower price. -/
def AsGood (price other : Int) : Prop :=
  b.volumeAt other < b.volumeAt price ∨ (b.volumeAt other = b.volumeAt price ∧
    (b.imbalanceAt price < b.imbalanceAt other ∨
      (b.imbalanceAt price = b.imbalanceAt other ∧ price ≤ other)))

/-- What the price loop has found among the prices it has seen. -/
def Found (seen : List Int) : Option Best → Prop
  | none => ∀ price ∈ seen, b.volumeAt price ≤ 0
  | some best => best.price ∈ seen ∧ best.volume = b.volumeAt best.price ∧
      best.imbalance = b.imbalanceAt best.price ∧ 0 < best.volume ∧
      ∀ price ∈ seen, b.AsGood best.price price

variable {b}

variable {price : Int}

theorem mem_candidatePrices : price ∈ b.candidatePrices ↔ b.BreakpointPrice price := by
  unfold candidatePrices
  rw [mem_insertionSort, mem_dedup, mem_flatMap]
  constructor
  · rintro ⟨e, he, hprice⟩
    rcases mem_append.mp he with he | he
    · exact ⟨.BID, e.1, e.2, find?_eq_some.mpr he, hprice⟩
    · exact ⟨.ASK, e.1, e.2, find?_eq_some.mpr he, hprice⟩
  · rintro ⟨side, account, c, hfind, hprice⟩
    refine ⟨(account, c), mem_append.mpr ?_, hprice⟩
    cases side with
    | BID => exact .inl (find?_eq_some.mp hfind)
    | ASK => exact .inr (find?_eq_some.mp hfind)

theorem candidatePrices_sorted (b : Book) : b.candidatePrices.Pairwise (· < ·) := by
  have hle := pairwise_insertionSort (· ≤ ·)
    (((b.bids.entries ++ b.asks.entries).flatMap fun e => e.2.points.map (·.price)).dedup)
  have hnd := (perm_insertionSort (· ≤ ·)
    (((b.bids.entries ++ b.asks.entries).flatMap fun e => e.2.points.map (·.price)).dedup)).nodup_iff.mpr
      (nodup_dedup _)
  exact (hle.and hnd).imp fun h => lt_of_le_of_ne h.1 h.2

/-- One more price: it replaces the best one if it is better, and is no better otherwise. -/
theorem Found.next {seen : List Int} {price : Int} {best : Option Best} (h : b.Found seen best)
    (hpos : 0 < b.volumeAt price) : (best.all fun x => b.volumeAt price > x.volume ||
        (b.volumeAt price == x.volume && b.imbalanceAt price < x.imbalance)) = true →
      b.Found (seen ++ [price]) (some ⟨price, b.volumeAt price, b.imbalanceAt price⟩) := by
  intro hbetter
  refine ⟨by simp, rfl, rfl, hpos, fun p hp => ?_⟩
  rcases mem_append.mp hp with hp | hp
  · cases best with
    | none => exact .inl (lt_of_le_of_lt (h p hp) hpos)
    | some x =>
      obtain ⟨-, hvolume, himbalance, -, hbest⟩ := h
      have hp := hbest p hp
      simp only [Option.all_some, Bool.or_eq_true, decide_eq_true_eq, Bool.and_eq_true, beq_iff_eq,
        hvolume, himbalance] at hbetter
      unfold AsGood at hp ⊢
      dsimp only
      omega
  · rw [mem_singleton] at hp
    rw [hp]
    exact .inr ⟨rfl, .inr ⟨rfl, le_refl _⟩⟩

theorem Found.keep {seen : List Int} {best : Option Best} (h : b.Found seen best)
    (hlater : ∀ p ∈ seen, p < price)
    (hworse : b.volumeAt price ≤ 0 ∨ (best.all fun x => b.volumeAt price > x.volume ||
        (b.volumeAt price == x.volume && b.imbalanceAt price < x.imbalance)) = false) :
    b.Found (seen ++ [price]) best := by
  cases best with
  | none =>
    have hnone : b.volumeAt price ≤ 0 := hworse.resolve_right nofun
    intro p hp
    rcases mem_append.mp hp with hp | hp
    · exact h p hp
    · rw [mem_singleton] at hp
      rwa [hp]
  | some x =>
    obtain ⟨hmem, hvolume, himbalance, hpos, hbest⟩ := h
    refine ⟨mem_append_left _ hmem, hvolume, himbalance, hpos, fun p hp => ?_⟩
    rcases mem_append.mp hp with hp | hp
    · exact hbest p hp
    · rw [mem_singleton] at hp
      rw [hp]
      have hlt := hlater _ hmem
      simp only [Option.all_some, Bool.or_eq_false_iff, decide_eq_false_iff_not, Bool.and_eq_false_iff,
        beq_eq_false_iff_ne, ne_eq, hvolume, himbalance] at hworse
      unfold AsGood
      omega

/-- The loop finds the best of all prices. -/
theorem searchPrice_found {ps seen : List Int} {best found : Option Best}
    (hsorted : (seen ++ ps).Pairwise (· < ·)) (h : b.Found seen best)
    (hrun : b.searchPrice ps best = some found) : b.Found (seen ++ ps) found := by
  induction ps generalizing seen best with
  | nil =>
    cases hrun
    rwa [append_nil]
  | cons p ps ih =>
    have hlater : ∀ q ∈ seen, q < p := fun q hq =>
      (pairwise_append.mp hsorted).2.2 q hq p mem_cons_self
    have hvolume : (if b.sideTotal .BID p < b.sideTotal .ASK p then b.sideTotal .BID p
        else b.sideTotal .ASK p) = b.volumeAt p := by
      unfold volumeAt
      split_ifs <;> omega
    have himbalance : (if b.sideTotal .BID p > b.sideTotal .ASK p then
        b.sideTotal .BID p - b.sideTotal .ASK p else b.sideTotal .ASK p - b.sideTotal .BID p) =
          b.imbalanceAt p := by
      unfold imbalanceAt
      split_ifs with hgt
      · rw [abs_of_pos (by omega)]
      · rw [abs_of_nonpos (by omega)]
        omega
    rw [append_cons] at hsorted ⊢
    simp only [searchPrice, hvolume, himbalance] at hrun
    split_ifs at hrun with hnone hnew hmax
    · exact ih hsorted (h.keep hlater (.inl hnone)) hrun
    · refine ih hsorted (h.next (not_le.mp hnone) ?_) hrun
      cases best <;> exact hnew
    · refine ih hsorted (h.keep hlater (.inr (Bool.eq_false_iff.mpr ?_))) hrun
      cases best <;> exact hnew

/-! ## Rationing -/

/-- `EffectiveQty`: what an account still demands or offers at a price. -/
def effectiveQty (b : Book) (side : Side) (account : AccountId) (price : Int) : Int :=
  (((b.side side).find? account).map (·.effectiveQty price)).getD 0

/-- The fills of one side at the price of the slot. -/
structure Rationed (b : Book) (side : Side) (price volume : Int) (fills : List (AccountId × Int)) :
    Prop where
  nodup : (fills.map (·.1)).Nodup
  within : ∀ x, 0 ≤ amountOf fills x ∧ amountOf fills x ≤ b.effectiveQty side x price
  short : b.sideTotal side price ≤ volume → ∀ x, amountOf fills x = b.effectiveQty side x price
  long : volume < b.sideTotal side price → ∀ x,
    |amountOf fills x * b.sideTotal side price - b.effectiveQty side x price * volume| <
      b.sideTotal side price
  sum : (fills.map (·.2)).sum = volume
  mono : ∀ x y, b.effectiveQty side x price < b.effectiveQty side y price →
    amountOf fills x ≤ amountOf fills y

theorem effectiveQty_nonneg (side : Side) (x : AccountId) (price : Int) :
    0 ≤ b.effectiveQty side x price := by
  unfold effectiveQty
  cases (b.side side).find? x with
  | none => exact le_refl 0
  | some c => exact c.effectiveQty_nonneg price

theorem mem_desired_iff {side : Side} {e : AccountId × Int} :
    e ∈ b.desired side price ↔ e.2 = b.effectiveQty side e.1 price ∧ 0 < e.2 := by
  constructor
  · intro he
    obtain ⟨c, hc, heq, hpos⟩ := mem_desired he
    refine ⟨?_, hpos⟩
    rw [effectiveQty, hc]
    exact heq
  · rintro ⟨heq, hpos⟩
    unfold effectiveQty at heq
    cases hc : (b.side side).find? e.1 with
    | none =>
      rw [hc] at heq
      exact absurd hpos (by rw [heq]; exact lt_irrefl 0)
    | some c =>
      rw [hc] at heq
      refine mem_filter.mpr ⟨mem_map.mpr ⟨(e.1, c), find?_eq_some.mp hc, ?_⟩, ?_⟩
      · exact Prod.ext rfl heq.symm
      · simpa using hpos

section Allocate

variable {side : Side} {price volume : Int}

theorem allocate_short (h : b.sideTotal side price ≤ volume) :
    b.allocate side price volume = b.desired side price := by
  unfold allocate
  simp only [desired_sum, if_pos h]

theorem allocate_long (h : volume < b.sideTotal side price) : b.allocate side price volume =
    apportion byRem volume (b.sideTotal side price) (b.desired side price) := by
  unfold allocate
  simp only [desired_sum, if_neg (not_le.mpr h)]

theorem allocate_keys : (b.allocate side price volume).map (·.1) = (b.desired side price).map (·.1) := by
  rcases le_or_gt (b.sideTotal side price) volume with h | h
  · rw [allocate_short h]
  · rw [allocate_long h, apportion_keys]

theorem desired_nodup : ((b.desired side price).map (·.1)).Nodup :=
  (pairwise_map.mpr (b.desired_sorted side price)).imp fun hlt => ne_of_lt hlt

variable {x : AccountId}

theorem amountOf_allocate_of_zero (hx : b.effectiveQty side x price = 0) :
    amountOf (b.allocate side price volume) x = 0 := by
  refine amountOf_of_not_mem fun e he hex => ?_
  have hmem : x ∈ (b.desired side price).map (·.1) := by
    rw [← @allocate_keys b side price volume, ← hex]
    exact mem_map_of_mem he
  obtain ⟨d, hd, rfl⟩ := mem_map.mp hmem
  obtain ⟨heq, hpos⟩ := mem_desired_iff.mp hd
  omega

theorem mem_allocate {x : AccountId} (hx : 0 < b.effectiveQty side x price) :
    (x, amountOf (b.allocate side price volume) x) ∈ b.allocate side price volume := by
  have hmem : x ∈ (b.allocate side price volume).map (·.1) := by
    rw [allocate_keys]
    exact mem_map.mpr ⟨(x, b.effectiveQty side x price), mem_desired_iff.mpr ⟨rfl, hx⟩, rfl⟩
  have hnd : ((b.allocate side price volume).map (·.1)).Nodup := by
    rw [allocate_keys]
    exact desired_nodup
  obtain ⟨e, he, rfl⟩ := mem_map.mp hmem
  rwa [amountOf_of_mem hnd he]

theorem amountOf_allocate_short (h : b.sideTotal side price ≤ volume) (x : AccountId) :
    amountOf (b.allocate side price volume) x = b.effectiveQty side x price := by
  rcases (effectiveQty_nonneg side x price).eq_or_lt with hx | hx
  · rw [amountOf_allocate_of_zero hx.symm, ← hx]
  · have hmem := @mem_allocate b side price volume x hx
    rw [allocate_short h] at hmem ⊢
    exact (mem_desired_iff.mp hmem).1

/-- A weight of the rationing is what its account wants. -/
theorem eq_effectiveQty {w : Int} (h : (x, w) ∈ b.desired side price) :
    w = b.effectiveQty side x price := (mem_desired_iff.mp h).1

theorem amountOf_allocate_le (hv : 0 < volume) (hle : volume ≤ b.sideTotal side price) (x : AccountId) :
    0 ≤ amountOf (b.allocate side price volume) x ∧
      amountOf (b.allocate side price volume) x ≤ b.effectiveQty side x price := by
  rcases (effectiveQty_nonneg side x price).eq_or_lt with hx | hx
  · rw [amountOf_allocate_of_zero hx.symm, ← hx]
    exact ⟨le_refl 0, le_refl 0⟩
  · rcases le_or_gt (b.sideTotal side price) volume with h | h
    · rw [amountOf_allocate_short h]
      exact ⟨hx.le, le_refl _⟩
    · have hmem := @mem_allocate b side price volume x hx
      rw [allocate_long h] at hmem ⊢
      obtain ⟨w, hw, hnn, hxw⟩ := apportion_le (fun _ _ h => h) (hv.trans h) (desired_sum ..)
        desired_nodup (fun w hw => (mem_desired_iff.mp hw).2.le) hv.le hle hmem
      rw [eq_effectiveQty hw] at hxw
      exact ⟨hnn, hxw⟩

theorem amountOf_allocate_near (hv : 0 < volume) (h : volume < b.sideTotal side price) (x : AccountId) :
    |amountOf (b.allocate side price volume) x * b.sideTotal side price -
      b.effectiveQty side x price * volume| < b.sideTotal side price := by
  rcases (effectiveQty_nonneg side x price).eq_or_lt with hx | hx
  · rw [amountOf_allocate_of_zero hx.symm, ← hx]
    simpa using hv.trans h
  · have hmem := @mem_allocate b side price volume x hx
    rw [allocate_long h] at hmem ⊢
    obtain ⟨w, hw, hnear⟩ := apportion_near (fun _ _ h => h) (hv.trans h) (desired_sum ..)
      desired_nodup hmem
    rwa [eq_effectiveQty hw] at hnear

theorem amountOf_allocate_mono (hv : 0 < volume) (hle : volume ≤ b.sideTotal side price) {y : AccountId}
    (hxy : b.effectiveQty side x price < b.effectiveQty side y price) :
    amountOf (b.allocate side price volume) x ≤ amountOf (b.allocate side price volume) y := by
  rcases (effectiveQty_nonneg side x price).eq_or_lt with hx | hx
  · rw [amountOf_allocate_of_zero hx.symm]
    exact (amountOf_allocate_le hv hle y).1
  · rcases le_or_gt (b.sideTotal side price) volume with h | h
    · rw [amountOf_allocate_short h, amountOf_allocate_short h]
      exact hxy.le
    · have hmx := @mem_allocate b side price volume x hx
      have hmy := @mem_allocate b side price volume y (hx.trans hxy)
      rw [allocate_long h] at hmx hmy ⊢
      exact apportion_mono (fun _ _ h => h) (hv.trans h) desired_nodup hv
        (mem_desired_iff.mpr ⟨rfl, hx⟩) (mem_desired_iff.mpr ⟨rfl, hx.trans hxy⟩) hxy hmx hmy

theorem allocate_rationed (hv : 0 < volume) (hle : volume ≤ b.sideTotal side price) :
    b.Rationed side price volume (b.allocate side price volume) where
  nodup := (b.allocate_ok side hv hle).1.nodup
  within := amountOf_allocate_le hv hle
  short := amountOf_allocate_short
  long := amountOf_allocate_near hv
  sum := (b.allocate_ok side hv hle).2
  mono _ _ hxy := amountOf_allocate_mono hv hle hxy

end Allocate

end Book

/-- What a slot reports is the best price of the book and exact fills at it. -/
structure ExactSlot (b : Book) (r : ClearingResult) : Prop where
  cleared : r.cleared = true ↔ ∃ price, b.BreakpointPrice price ∧ 0 < b.volumeAt price
  price : r.cleared = true → b.BreakpointPrice r.price ∧ r.volume = b.volumeAt r.price ∧
    ∀ other, b.BreakpointPrice other → b.AsGood r.price other
  bids : r.cleared = true → b.Rationed .BID r.price r.volume r.bidFill
  asks : r.cleared = true → b.Rationed .ASK r.price r.volume r.askFill

theorem settleAndConsume_result {pr : Primitives} {b b' : Book} {l l' : Ledger} {r r' : ClearingResult}
    {fee : Option FlowMeshFeeContext}
    (h : settleAndConsume pr b l r fee = some (r', b', l')) : ∃ fees, r' = { r with fees := fees } := by
  unfold settleAndConsume at h
  simp only [Option.ite_none_left_eq_some] at h
  obtain ⟨-, -, h⟩ := h
  split at h
  · cases h
  split at h
  · cases h
  split at h
  · cases h
  split at h
  · cases h
  cases h
  exact ⟨_, rfl⟩

/-- Whatever a slot reports is exact. -/
theorem clearSlot_exact {pr : Primitives} {b b' : Book} {l l' : Ledger} {r : ClearingResult}
    {fee : Option FlowMeshFeeContext} (h : clearSlot pr b l fee = some (r, b', l')) :
    ExactSlot b r := by
  unfold clearSlot at h
  cases hsearch : b.searchPrice b.candidatePrices none with
  | none => simp [hsearch] at h
  | some found =>
    have hstart : b.Found [] none := fun _ h => nomatch h
    have hfound : b.Found b.candidatePrices found :=
      searchPrice_found b.candidatePrices_sorted hstart hsearch
    cases found with
    | none =>
      simp only [hsearch, Option.some.injEq, Prod.mk.injEq] at h
      obtain ⟨rfl, -, -⟩ := h
      refine ⟨⟨nofun, ?_⟩, nofun, nofun, nofun⟩
      rintro ⟨price, hprice, hpos⟩
      exact absurd hpos (not_lt.mpr (hfound price (mem_candidatePrices.mpr hprice)))
    | some best =>
      obtain ⟨hmem, hvolume, -, hpos, hbest⟩ := hfound
      simp only [hsearch] at h
      cases hsettle : settleAndConsume pr b l (b.plan best) fee with
      | none => simp [hsettle] at h
      | some x =>
        obtain ⟨r', b₁, l₁⟩ := x
        obtain ⟨fees, rfl⟩ := settleAndConsume_result hsettle
        simp only [hsettle, Option.some.injEq, Prod.mk.injEq] at h
        obtain ⟨rfl, -, -⟩ := h
        have hbid : best.volume ≤ b.sideTotal .BID best.price := by
          rw [hvolume]
          exact min_le_left _ _
        have hask : best.volume ≤ b.sideTotal .ASK best.price := by
          rw [hvolume]
          exact min_le_right _ _
        exact ⟨⟨fun _ => ⟨best.price, mem_candidatePrices.mp hmem, hvolume ▸ hpos⟩, fun _ => rfl⟩,
          fun _ => ⟨mem_candidatePrices.mp hmem, hvolume,
            fun other hother => hbest other (mem_candidatePrices.mpr hother)⟩,
          fun _ => allocate_rationed hpos hbid, fun _ => allocate_rationed hpos hask⟩

/-- A slot of the sample market. -/
theorem sample_slot_exact : ∃ s r b' l',
    Transition.Run (FlowMeshState.perform primitives) (.new config) calls s ∧
      clearSlot primitives s.book s.ledger none = some (r, b', l') ∧ ExactSlot s.book r := by
  obtain ⟨s, hrun⟩ := reached
  obtain ⟨r, b', l', hclear, -⟩ :=
    @clearSlot_ok primitives s.book s.ledger none (run_ok hrun).1.market nofun
  exact ⟨s, r, b', l', hrun, hclear, clearSlot_exact hclear⟩

end B3Coin.FlowMesh
