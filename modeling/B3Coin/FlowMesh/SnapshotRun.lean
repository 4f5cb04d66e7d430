import B3Coin.FlowMesh.BatchSpec
import B3Coin.FlowMesh.Snapshot

/-!
# Snapshots of reachable states

The decoder checks more than a layout: market, key order, every standing curve and
the reservations of the ledger. Every state that is reached from the empty one by
accepted calls passes all of it, as long as its maps are within the limits, and what
is accepted is the serialization of what was read.
-/
namespace B3Coin.FlowMesh

open Codec Ledger Transition List Option OrderedMap Book Sample History BookEntry Book.Curve

theorem int64_of_money {x : Int} (h : MoneyRange x) : int64.valid x := by
  have hmax : MAX_MONEY < 2 ^ 63 := by decide
  have := h.1
  have := h.2
  exact int64_valid.mpr (by omega)

/-! ## Keys of the ledger -/

namespace Ledger

variable {l l' : Ledger} {a src dst : AccountId} {s : AssetId} {x : Int}

/-- Accounts and assets are 256-bit words, as in the source. -/
def KeysTyped (l : Ledger) : Prop :=
  ∀ e ∈ l.balances.entries, uint256.valid (ofLex e.1).1 ∧ uint256.valid (ofLex e.1).2

variable {b : Balance}

section

variable (h : l.KeysTyped)

include h

theorem KeysTyped.entry (he : l.entry? a s = some b) : uint256.valid a ∧ uint256.valid s :=
  h (toLex (a, s), b) (find?_eq_some.mp he)

theorem KeysTyped.put (ha : uint256.valid a) (hs : uint256.valid s)
    (b : Balance) : (l.put a s b).KeysTyped := by
  intro e he
  rcases mem_insert.mp he with rfl | ⟨he, _⟩
  · exact ⟨ha, hs⟩
  · exact h e he

theorem KeysTyped.prune (a : AccountId) (s : AssetId) : (l.prune a s).KeysTyped := by
  unfold Ledger.prune
  split_ifs
  · exact fun e he => h e (mem_erase.mp he).1
  · exact h

/-- An entry that exists may be written again. -/
theorem KeysTyped.rewrite (he : l.entry? a s = some b) (b' : Balance) : (l.put a s b').KeysTyped :=
  h.put (h.entry he).1 (h.entry he).2 b'

theorem KeysTyped.reserve (hr : l.reserve a s x = some l') : l'.KeysTyped := by
  unfold Ledger.reserve at hr
  cases he : l.entry? a s with
  | none => simp [he] at hr
  | some b =>
    simp only [he, ite_none_left_eq_some, some.injEq] at hr
    obtain ⟨_, _, rfl⟩ := hr
    exact h.rewrite he _

theorem KeysTyped.release (hr : l.release a s x = some l') : l'.KeysTyped := by
  unfold Ledger.release at hr
  cases he : l.entry? a s with
  | none => simp [he] at hr
  | some b =>
    simp only [he, ite_none_left_eq_some, some.injEq] at hr
    obtain ⟨_, _, rfl⟩ := hr
    exact h.rewrite he _

/-- Both moves write the source again, credit the destination and prune the source. -/
theorem KeysTyped.transfer (hdst : uint256.valid dst)
    (he : l.entry? src s = some b) (b' : Balance) (x : Int) :
    (((l.put src s b').credit dst s x).prune src s).KeysTyped :=
  ((h.rewrite he b').put hdst (h.entry he).2 _).prune src s

theorem KeysTyped.moveReserved (hdst : uint256.valid dst)
    (hm : l.moveReservedToAvailable src dst s x = some l') : l'.KeysTyped := by
  unfold moveReservedToAvailable at hm
  cases he : l.entry? src s with
  | none => simp [he] at hm
  | some b =>
    simp only [he, ite_none_left_eq_some, some.injEq] at hm
    obtain ⟨_, _, _, rfl⟩ := hm
    exact h.transfer hdst he _ x

theorem KeysTyped.moveAvailable (hdst : uint256.valid dst)
    (hm : l.moveAvailableToAvailable src dst s x = some l') : l'.KeysTyped := by
  unfold moveAvailableToAvailable at hm
  cases he : l.entry? src s with
  | none => simp [he] at hm
  | some b =>
    simp only [he, ite_none_left_eq_some, some.injEq] at hm
    obtain ⟨_, _, _, rfl⟩ := hm
    exact h.transfer hdst he _ x

theorem KeysTyped.requestWithdrawal {hash : ReceiptPreimage → Uint256}
    {dest : Uint256} {capacity : Int} {r : WithdrawalReceipt}
    (hr : l.requestWithdrawal hash a s x dest capacity = some (r, l')) :
    l'.KeysTyped ∧ uint256.valid s := by
  unfold Ledger.requestWithdrawal at hr
  cases he : l.entry? a s with
  | none => simp [he] at hr
  | some b =>
    simp only [he, ite_none_left_eq_some, some.injEq, Prod.mk.injEq] at hr
    obtain ⟨_, _, _, _, rfl⟩ := hr
    exact ⟨(h.rewrite he _).prune a s, (h.entry he).2⟩

end

/-- A settlement leaves the custody of assets that had some. -/
theorem consumeRequest_custody {fact : WithdrawalSettlementFact} {P : AssetId → Prop}
    (h : ∀ e ∈ l.custody.entries, P e.1) (hc : l.consumeRequest fact = some l') :
    ∀ e ∈ l'.custody.entries, P e.1 := by
  unfold consumeRequest at hc
  rw [ite_none_left_eq_some] at hc
  obtain ⟨_, hc⟩ := hc
  split at hc
  · cases hc
  rw [ite_none_left_eq_some] at hc
  obtain ⟨_, hc⟩ := hc
  unfold consumeRequestId at hc
  split at hc
  · cases hc
  split at hc
  · cases hc
  rename_i r _ _ c hfind
  rw [ite_none_left_eq_some, some.injEq] at hc
  obtain ⟨_, rfl⟩ := hc
  intro e he
  split_ifs at he
  · exact h e (mem_erase.mp he).1
  · rcases mem_insert.mp he with rfl | ⟨he, _⟩
    · exact h (r.asset, c) (find?_eq_some.mp hfind)
    · exact h e he

end Ledger

section Clear

variable {pr : Primitives} {b b' : Book} {l l' : Ledger} {price : Int}

theorem settleFill_typed {bid ask : AccountId} {fill : Int} (h : l.KeysTyped)
    (hbid : uint256.valid bid) (hask : uint256.valid ask)
    (hs : b.settleFill l price bid ask fill = some l') : l'.KeysTyped := by
  unfold settleFill at hs
  split at hs
  · cases hs
  split at hs
  · cases hs
  · rename_i paid hpaid
    refine KeysTyped.moveReserved ?_ hbid hs
    split_ifs at hpaid
    · exact h.moveReserved hask hpaid
    · exact some.inj hpaid ▸ h

theorem matchFills_typed (bids asks : List (AccountId × Int)) (l : Ledger) (h : l.KeysTyped)
    (hbids : ∀ e ∈ bids, uint256.valid e.1) (hasks : ∀ e ∈ asks, uint256.valid e.1)
    (hm : b.matchFills price bids asks l = some l') : l'.KeysTyped := by
  induction bids, asks, l using matchFills.induct b price with
  | case1 asks l =>
    rw [matchFills] at hm
    exact some.inj hm ▸ h
  | case2 e bids l =>
    rw [matchFills] at hm
    exact some.inj hm ▸ h
  | case3 bid bids ask aRem asks l ih =>
    rw [matchFills, dif_pos rfl] at hm
    exact ih h (fun e he => hbids e (by simp [he])) hasks hm
  | case4 bid bRem bids ask asks l hb ih =>
    rw [matchFills, dif_neg hb, dif_pos rfl] at hm
    exact ih h hbids (fun e he => hasks e (by simp [he])) hm
  | case5 bid bRem bids ask aRem asks l hb ha hnone =>
    rw [matchFills, dif_neg hb, dif_neg ha] at hm
    simp only [hnone] at hm
    cases hm
  | case6 bid bRem bids ask aRem asks l hb ha l1 hsome ih =>
    rw [matchFills, dif_neg hb, dif_neg ha] at hm
    simp only [hsome] at hm
    obtain ⟨hbid, hbids⟩ := forall_mem_cons.mp hbids
    obtain ⟨hask, hasks⟩ := forall_mem_cons.mp hasks
    exact ih (settleFill_typed h hbid hask hsome) (forall_mem_cons.mpr ⟨hbid, hbids⟩)
      (forall_mem_cons.mpr ⟨hask, hasks⟩) hm

theorem chargeSellers_typed {asset : AssetId} (shares : List SellerFeeShare) (l : Ledger)
    (h : l.KeysTyped) (hc : chargeSellers asset shares l = some l') : l'.KeysTyped := by
  induction shares generalizing l with
  | nil => exact some.inj hc ▸ h
  | cons x rest ih =>
    rw [chargeSellers] at hc
    split at hc
    · cases hc
    · rename_i l1 hl1
      refine ih l1 ?_ hc
      split_ifs at hl1
      · exact h.moveAvailable (uint256_valid.mpr (by decide)) hl1
      · exact some.inj hl1 ▸ h

theorem payRewards_typed {asset : AssetId} (rewards : List (AccountId × Int)) (l : Ledger)
    (h : l.KeysTyped) (hr : ∀ e ∈ rewards, uint256.valid e.1)
    (hp : payRewards asset rewards l = some l') : l'.KeysTyped := by
  induction rewards generalizing l with
  | nil => exact some.inj hp ▸ h
  | cons x rest ih =>
    obtain ⟨hx, hr⟩ := forall_mem_cons.mp hr
    rw [payRewards] at hp
    split at hp
    · cases hp
    · rename_i l1 hl1
      refine ih l1 ?_ hr hp
      split_ifs at hl1
      · exact h.moveAvailable hx hl1
      · exact some.inj hl1 ▸ h

/-- The digests are 256-bit words. -/
structure Primitives.Typed (pr : Primitives) : Prop where
  receipt : ∀ p, uint256.valid (pr.receiptHash p)
  treasury : ∀ market owner, uint256.valid (pr.treasuryFeeAccount market owner)
  seat : ∀ market epoch seat, uint256.valid (pr.seatRewardAccount market epoch seat)

variable {fee : Option FlowMeshFeeContext}

theorem applyFees_typed (hpr : pr.Typed) {r : ClearingResult}
    {fees : FlowMeshFeeAllocation} (h : l.KeysTyped)
    (ha : applyFees pr b l r fee = some (fees, l')) : l'.KeysTyped := by
  cases fee with
  | none =>
    obtain ⟨_, rfl⟩ := Prod.mk.inj (some.inj ha)
    exact h
  | some c =>
    simp only [applyFees, collectFees, ite_none_left_eq_some] at ha
    obtain ⟨_, ha⟩ := ha
    split at ha
    · split at ha
      · cases ha
      split at ha
      · cases ha
      split at ha
      · cases ha
      · rename_i charged hcharge _ paid hpaid
        obtain ⟨_, rfl⟩ := Prod.mk.inj (some.inj ha)
        refine payRewards_typed _ _ (chargeSellers_typed _ _ h hcharge) ?_ hpaid
        simp only [List.forall_mem_cons, List.forall_mem_map]
        exact ⟨hpr.treasury _ _, fun x _ => hpr.seat _ _ _⟩
    · cases ha

/-! ## Standing curves -/

/-- What the decoder asks of a curve beyond its coverage: the points of a valid submission, no
more reserved than at submission, and something left to fill. -/
structure Live (maxK : Nat) (side : Side) (x : AccountId) (c : Curve) : Prop where
  account : uint256.valid x
  points : curveIsValid maxK side c.points = true
  bound : ∃ worst, worstCaseReservation side c.points = some worst ∧ c.reserved ≤ worst
  unfilled : exhausted c = false

structure Book.Standing (cfg : MarketConfig) (b : Book) : Prop where
  base : b.base = cfg.base
  quote : b.quote = cfg.quote
  maxK : b.maxK = cfg.maxK
  curves : ∀ side x c, (b.side side).find? x = some c → Live cfg.maxK side x c

variable {cfg : MarketConfig} {side : Side} {x : AccountId} {c : Curve}

theorem Book.Standing.write (h : b.Standing cfg) {m : OrderedMap AccountId Curve}
    (hm : ∀ x c, m.find? x = some c → Live cfg.maxK side x c) : (b.withSide side m).Standing cfg := by
  have hsame := b.sameMarket_withSide side m
  refine ⟨hsame.base.trans h.base, hsame.quote.trans h.quote, hsame.maxK.trans h.maxK,
    fun side' y c hy => ?_⟩
  by_cases hs : side' = side
  · subst hs
    rw [side_withSide] at hy
    exact hm y c hy
  · rw [hsame.other side' hs] at hy
    exact h.curves side' y c hy

theorem Book.Standing.insert (h : b.Standing cfg) (hc : Live cfg.maxK side x c) :
    (b.withSide side ((b.side side).insert x c)).Standing cfg := by
  refine h.write fun y d hy => ?_
  rw [find?_insert] at hy
  split_ifs at hy with hyx
  · obtain rfl := some.inj hy
    exact hyx ▸ hc
  · exact h.curves side y d hy

theorem Book.Standing.erase (h : b.Standing cfg) (side : Side) (x : AccountId) :
    (b.withSide side ((b.side side).erase x)).Standing cfg := by
  refine h.write fun y d hy => ?_
  rw [find?_erase] at hy
  split_ifs at hy
  exact h.curves side y d hy

theorem consumed_nonneg {amount cost : Int} (ha : 0 < amount)
    (h : consumed side amount price = some cost) : 0 ≤ cost := by
  cases side with
  | BID => exact (quote_some h).2.2.2.1
  | ASK =>
    obtain rfl := some.inj h
    exact ha.le

/-- Fills keep what stands standing, and write to accounts of the book only. -/
theorem consume_standing (fills : List (AccountId × Int))
    (hc : consume side price fills b l = some (b', l')) (hb : b.Standing cfg)
    (hl : l.KeysTyped) : b'.Standing cfg ∧ l'.KeysTyped := by
  refine consume_invariant (I := fun b l => b.Standing cfg ∧ l.KeysTyped) ?_ ?_ fills b l hc
    ⟨hb, hl⟩
  · rintro b l x c amount cost ⟨hb, hl⟩ ha hx hcost hopen
    have hlive := hb.curves side x c hx
    obtain ⟨worst, hworst, hle⟩ := hlive.bound
    have := consumed_nonneg ha hcost
    exact ⟨hb.insert ⟨hlive.account, hlive.points, ⟨worst, hworst, by simp only; omega⟩, hopen⟩, hl⟩
  · rintro b l l' x c rest ⟨hb, hl⟩ _ hrel
    refine ⟨hb.erase side x, ?_⟩
    rcases hrel with rfl | hrel
    · exact hl
    · exact hl.release hrel

theorem curve_of_mem_allocate {volume : Int} {e : AccountId × Int}
    (he : e ∈ b.allocate side price volume) : ∃ c, (b.side side).find? e.1 = some c := by
  have hkeys : (b.allocate side price volume).map (·.1) = (b.desired side price).map (·.1) := by
    unfold allocate
    dsimp only
    split_ifs
    · rfl
    · rw [LargestRemainder.apportion_keys]
  obtain ⟨f, hf, hfe⟩ := mem_map.mp (hkeys ▸ mem_map_of_mem he)
  obtain ⟨c, hc, _⟩ := mem_desired hf
  exact ⟨c, hfe ▸ hc⟩

theorem Book.Standing.allocate (hb : b.Standing cfg) {volume : Int} :
    ∀ e ∈ b.allocate side price volume, uint256.valid e.1 := by
  intro e he
  obtain ⟨c, hc⟩ := curve_of_mem_allocate he
  exact (hb.curves side e.1 c hc).account

theorem clearSlot_standing (hpr : pr.Typed) {r : ClearingResult}
    (hclear : clearSlot pr b l fee = some (r, b', l')) (hb : b.Standing cfg)
    (hl : l.KeysTyped) : b'.Standing cfg ∧ l'.KeysTyped := by
  rcases clearSlot_stages hclear with
    ⟨rfl, rfl⟩ | ⟨best, settled, fees, paid, b1, l1, l2, hmatch, hfees, hbid, hask, rfl⟩
  · exact ⟨hb, hl⟩
  · have hpaid := applyFees_typed hpr (matchFills_typed _ _ _ hl hb.allocate hb.allocate hmatch) hfees
    obtain ⟨hb1, hl1⟩ := consume_standing _ hbid hb hpaid
    obtain ⟨hb2, hl2⟩ := consume_standing _ hask hb1 hl1
    exact ⟨hb2, hl2⟩

variable {points : List Breakpoint}

/-- A submission is live: its worst case is reserved and nothing is filled. -/
theorem live_submitted {maxK : Nat} {need : Int} (hx : uint256.valid x)
    (hv : curveIsValid maxK side points = true) (hn : worstCaseReservation side points = some need) :
    Live maxK side x ⟨points, 0, need⟩ := by
  refine ⟨hx, hv, ⟨need, hn, le_refl _⟩, ?_⟩
  obtain ⟨a, rest, rfl, hvalid⟩ := curveIsValid_cons hv
  simp only [exhausted, hvalid.eval_front, hvalid.eval_last, sub_zero,
    Bool.and_eq_false_iff, decide_eq_false_iff_not, not_le]
  cases side with
  | BID => exact .inr (hvalid.bid rfl).2
  | ASK => exact .inl (hvalid.ask rfl)

theorem submitCurve_typed (hl : l.KeysTyped)
    (hs : b.submitCurve l x side points = some (b', l')) : l'.KeysTyped := by
  unfold submitCurve at hs
  rw [ite_none_left_eq_some] at hs
  obtain ⟨_, hs⟩ := hs
  split at hs
  · cases hs
  · simp only at hs
    split at hs
    · cases hs
    · rename_i l1 hadj
      obtain ⟨_, rfl⟩ := Prod.mk.inj (some.inj hs)
      split_ifs at hadj
      · exact hl.reserve hadj
      · exact hl.release hadj
      · exact some.inj hadj ▸ hl

theorem cancelCurve_typed (hl : l.KeysTyped) (hs : b.cancelCurve l x side = some (b', l')) :
    l'.KeysTyped := by
  unfold cancelCurve at hs
  split at hs
  · cases hs
  · split at hs
    · cases hs
    · rename_i l1 hadj
      obtain ⟨_, rfl⟩ := Prod.mk.inj (some.inj hs)
      split_ifs at hadj
      · exact hl.release hadj
      · exact some.inj hadj ▸ hl

end Clear

/-! ## Reachable states -/

/-- The arguments of a call are values of the source's types. -/
def Call.Typed : Call → Prop
  | .creditDeposit outpoint account asset _ =>
    uint256.valid outpoint.hash ∧ uint256.valid account ∧ uint256.valid asset
  | .submitCurve account .. => uint256.valid account
  | .requestWithdrawal _ _ _ destination _ => uint256.valid destination
  | .cancelCurve .. | .clearSlot .. | .consumeWithdrawalSettlement .. => True

def Move.Typed : Move → Prop
  | .call c => c.Typed
  | .advance signer _ => uint256.valid signer

structure MarketConfig.Typed (cfg : MarketConfig) : Prop where
  vault : uint256.valid cfg.vault
  base : uint256.valid cfg.base
  quote : uint256.valid cfg.quote

/-- What the calls keep of what the decoder checks. -/
structure Recorded (cfg : MarketConfig) (s : FlowMeshState) : Prop where
  ok : StateOk s
  book : s.book.Standing cfg
  keys : s.ledger.KeysTyped
  custody : ∀ e ∈ s.ledger.custody.entries, uint256.valid e.1
  requests : ∀ e ∈ s.ledger.requests.entries, uint256.valid e.1 ∧ receiptCodec.valid e.2
  vault : s.ledger.vault = cfg.vault
  signers : ∀ e ∈ s.nextSeq.entries, uint256.valid e.1
  deposits : ∀ o ∈ s.consumedDeposits, uint256.valid o.hash
  config : s.configId = cfg.configId

section Reached

variable {pr : Primitives} {cfg : MarketConfig} {s s' : FlowMeshState}

theorem recorded_new (cfg : MarketConfig) : Recorded cfg (.new cfg) where
  ok := new_ok cfg
  book := ⟨rfl, rfl, rfl, fun side x c hc => by cases side <;> cases hc⟩
  keys := nofun
  custody := nofun
  requests := nofun
  vault := rfl
  signers := nofun
  deposits o ho := absurd ho (Finset.notMem_empty o)
  config := rfl

/-- Book and ledger change, and of the ledger only balances and slot. -/
theorem Recorded.settled (h : Recorded cfg s) {b' : Book} {l₀ l' : Ledger}
    (hok : StateOk { s with book := b', ledger := l' }) (hs : Settled s.book b' s.ledger l₀)
    (hl : l' = { l₀ with slot := l'.slot }) (hb : b'.Standing cfg) (hk : l'.KeysTyped) :
    Recorded cfg { s with book := b', ledger := l' } := by
  have hcus : l'.custody = s.ledger.custody := by rw [hl, hs.rest]
  have hreq : l'.requests = s.ledger.requests := by rw [hl, hs.rest]
  have hvault : l'.vault = s.ledger.vault := by rw [hl, hs.rest]
  exact ⟨hok, hb, hk, hcus ▸ h.custody, hreq ▸ h.requests, hvault.trans h.vault, h.signers,
    h.deposits, h.config⟩

theorem perform_recorded (hpr : pr.Typed) (hcfg : cfg.Typed) (h : Recorded cfg s) {c : Call}
    (hc : c.Typed) (hp : s.perform pr c = some s') : Recorded cfg s' := by
  have hok := (perform_step h.ok hp).ok h.ok
  cases FlowMeshState.performed hp with
  | credit _ hl' =>
    unfold Ledger.deposit at hl'
    simp only [ite_none_left_eq_some, some.injEq] at hl'
    obtain ⟨_, _, rfl⟩ := hl'
    obtain ⟨ho, hx, ha⟩ := hc
    refine ⟨hok, h.book, h.keys.put hx ha _, fun e he => ?_, h.requests, h.vault, h.signers,
      fun o ho' => ?_, h.config⟩
    · rcases mem_insert.mp he with rfl | ⟨he, _⟩
      · exact ha
      · exact h.custody e he
    · rcases Finset.mem_insert.mp ho' with rfl | ho'
      · exact ho
      · exact h.deposits o ho'
  | submit hy =>
    obtain ⟨hs, need, hv, hn, hb⟩ := submitCurve_settled h.ok.market hy
    rw [h.book.maxK] at hv
    exact h.settled hok hs rfl (hb ▸ h.book.insert (live_submitted hc hv hn))
      (submitCurve_typed h.keys hy)
  | cancel hy =>
    obtain ⟨hs, hb⟩ := cancelCurve_settled h.ok.market hy
    exact h.settled hok hs rfl (hb ▸ h.book.erase _ _) (cancelCurve_typed h.keys hy)
  | clear hy =>
    obtain ⟨l0, hs, hl⟩ := clearSlot_settled h.ok.market hy
    obtain ⟨hb, hk⟩ := clearSlot_standing hpr hy h.book h.keys
    exact h.settled hok hs (by rw [hl]; rfl) hb hk
  | @request x a d dest capacity y hy =>
    obtain ⟨hk, ha⟩ := h.keys.requestWithdrawal hy
    obtain ⟨hd, hav, _, _, hr, m, hm, hl⟩ := requestWithdrawal_some hy
    have hamount : d ≤ MAX_MONEY := by
      have := h.ok.market.nonneg.le_held x a
      have := (h.ok.market.nonneg x a).2
      have := h.ok.market.cap a
      omega
    have hcus : y.2.custody = s.ledger.custody := by rw [hl, hm.rest]
    have hvault : y.2.vault = s.ledger.vault := by rw [hl, hm.rest]
    have hvalid : uint256.valid s.ledger.vault := h.vault.symm ▸ hcfg.vault
    have hreceipt : receiptCodec.valid y.1 := by
      rw [hr]
      exact ⟨⟨hpr.receipt _, ha, int64_of_money ⟨hd.le, hamount⟩, hc, u64_valid _, hvalid⟩, rfl⟩
    refine ⟨hok, h.book, hk, hcus ▸ h.custody, fun e he => ?_, hvault.trans h.vault, h.signers,
      h.deposits, h.config⟩
    rw [hl] at he
    simp only [OrderedMap.emplace] at he
    split_ifs at he
    · exact h.requests e he
    · rcases mem_insert.mp he with rfl | ⟨he, _⟩
      · exact ⟨hreceipt.1.1, hreceipt⟩
      · exact h.requests e he
  | @consume _ l' hl' =>
    obtain ⟨r, _, _, hbal, hreq, _, _, hvault, _⟩ := consumeRequest_some hl'
    refine ⟨hok, h.book, fun e he => h.keys e (hbal ▸ he), consumeRequest_custody h.custody hl',
      fun e he => h.requests e ?_, hvault.trans h.vault, h.signers, h.deposits, h.config⟩
    rw [show ({ s with ledger := l' } : FlowMeshState).ledger.requests = _ from hreq] at he
    exact (mem_erase.mp he).1

theorem move_recorded (hpr : pr.Typed) (hcfg : cfg.Typed) {h h' : History}
    (hs : Recorded cfg h.state) {m : Move} (hm : m.Typed) (hmove : h.move pr m = some h') :
    Recorded cfg h'.state := by
  cases m with
  | call c =>
    obtain ⟨s', hs', rfl⟩ := map_eq_some_iff.mp hmove
    have := perform_recorded hpr hcfg hs hm hs'
    cases c <;> exact this
  | advance signer sequence =>
    have hok := move_ok hs.ok hmove
    simp only [move, ite_none_right_eq_some, some.injEq] at hmove
    obtain ⟨_, rfl⟩ := hmove
    refine { hs with ok := hok, signers := fun e he => ?_ }
    rcases mem_insert.mp he with rfl | ⟨he, _⟩
    · exact hm
    · exact hs.signers e he

/-- Every state that accepted calls reach from the empty one. -/
theorem run_recorded (hpr : pr.Typed) (hcfg : cfg.Typed) {moves : List Move} {h : History}
    (hrun : Run (move pr) { state := .new cfg } moves h) (hm : ∀ m ∈ moves, m.Typed) :
    Recorded cfg h.state := by
  induction hrun with
  | start => exact recorded_new cfg
  | next _ hmove ih =>
    obtain ⟨hhead, htail⟩ := forall_mem_cons.mp hm
    exact move_recorded hpr hcfg (ih htail) hhead hmove

end Reached

/-! ## The spending bound of a bid -/

/-- The point before the first one is the last turn of the loop. -/
theorem prefixSpend_concat (l : List Breakpoint) (b a : Breakpoint) (remaining spend : Int) :
    prefixSpend (l ++ [b] ++ [a]) remaining spend =
      let x := prefixSpend (l ++ [b]) remaining spend
      if x.1 > 0 then
        (x.1 - min x.1 (a.qty - b.qty), x.2 + min x.1 (a.qty - b.qty) * (b.price - 1))
      else x := by
  induction l generalizing remaining spend with
  | nil => simp [prefixSpend]
  | cons c l ih =>
    -- the loop reads two points at a time
    obtain ⟨d, tail, hd⟩ : ∃ d tail, l ++ [b] = d :: tail := by
      cases l with
      | nil => exact ⟨b, [], rfl⟩
      | cons d l => exact ⟨d, l ++ [b], rfl⟩
    rw [hd, cons_append] at ih
    rw [cons_append, cons_append, hd, cons_append, prefixSpend, prefixSpend]
    by_cases hr : remaining > 0
    · rw [if_pos hr, if_pos hr]
      exact ih _ _
    · simp [hr]

variable {rest : List Breakpoint}

variable {a : Breakpoint}

/-- The loop of `BidMaxPrefixSpend` takes exactly the lots below `f`. -/
theorem prefixSpend_reverse {f : Int} (hf : 0 ≤ f)
    (hr : ∀ p ∈ a :: rest, p.inRange) (hq : (a :: rest).IsChain (ascends .BID))
    (hlast : (lastPoint a rest).qty = 0) : prefixSpend (a :: rest).reverse f 0 =
      (f - min f a.qty, remainingCost 0 a rest - remainingCost f a rest) := by
  induction rest generalizing a with
  | nil =>
    have ha : a.qty = 0 := hlast
    simp [prefixSpend, remainingCost, ha, min_eq_right hf]
  | cons b rest ih =>
    obtain ⟨hab, htail⟩ := isChain_cons_cons.mp hq
    have hqty : b.qty ≤ a.qty := hab.2
    have hb := (hr b (by simp)).1.1
    rw [lastPoint_cons] at hlast
    have hrec := ih (fun p hp => hr p (mem_cons_of_mem _ hp)) htail hlast
    rw [reverse_cons] at hrec
    rw [reverse_cons, reverse_cons, prefixSpend_concat, hrec, remainingCost,
      remainingCost]
    dsimp only
    split_ifs with hpos
    · refine Prod.ext (by simp only; omega) ?_
      have htake : min (f - min f b.qty) (a.qty - b.qty) =
          max a.qty 0 - max b.qty 0 - (max a.qty f - max b.qty f) := by omega
      rw [htake]
      ring
    · have hzero : max a.qty 0 - max b.qty 0 = max a.qty f - max b.qty f := by omega
      rw [hzero]
      refine Prod.ext (by simp only; omega) ?_
      ring

theorem bidMaxPrefixSpend_eq {f worst : Int}
    (h : ValidCurve .BID a rest) (hf : 0 ≤ f) (hfa : f ≤ a.qty)
    (hw : worstCaseReservation .BID (a :: rest) = some worst) :
    bidMaxPrefixSpend (a :: rest) f = some (worst - remainingCost f a rest) := by
  obtain ⟨hworst, hmoney⟩ := bidWorst_some h.inRange ⟨le_refl 0, by decide⟩ hw
  have hrest : 0 ≤ remainingCost f a rest := remainingCost_nonneg h.inRange h.chain
  have hmax := hmoney.2
  unfold bidMaxPrefixSpend
  rw [if_neg (not_lt.mpr hf), prefixSpend_reverse hf h.inRange h.chain (h.bid rfl).1]
  simp only [min_eq_left hfa, sub_self, gt_iff_lt, lt_irrefl, ↓reduceIte]
  rw [if_neg (by omega), hworst, zero_add]

/-- A standing curve has lots left. -/
theorem filled_lt_of_unfilled {side : Side} {c : Curve}
    (h : CurveOk side c a rest) (hc : exhausted c = false) : c.filled < match side with
      | .BID => a.qty
      | .ASK => (lastPoint a rest).qty := by
  have hfilled := h.filled
  simp only [exhausted, h.points, h.valid.eval_front, h.valid.eval_last,
    Bool.and_eq_false_iff, decide_eq_false_iff_not, not_le] at hc
  cases side with
  | BID =>
    have := (h.valid.bid rfl).1
    simp only
    omega
  | ASK =>
    have hle : a.qty ≤ (lastPoint a rest).qty := by
      rcases mem_cons.mp (lastPoint_mem a rest) with heq | hm
      · rw [heq]
      · exact (ascends_of_mem h.valid.chain hm).2
    simp only
    omega

theorem accountingOk_of_live {maxK : Nat} {side : Side} {x : AccountId} {c : Curve}
    (h : CurveOk side c a rest)
    (hlive : Live maxK side x c) : accountingOk (side, x, c) = true := by
  have hlt := filled_lt_of_unfilled h hlive.unfilled
  have hfilled := h.filled
  have hcov := h.covered
  have hres := h.reserved.1
  obtain ⟨worst, hworst, hbound⟩ := hlive.bound
  rw [h.points] at hworst
  cases side with
  | BID =>
    have hspend := bidMaxPrefixSpend_eq h.valid hfilled hlt.le hworst
    simp only [accountingOk, h.points, hlive.unfilled, hworst, hspend, hfilled, hres,
      hbound, Bool.not_false, Bool.and_true, Bool.and_eq_true, decide_eq_true_eq, true_and,
      sub_sub_cancel] at hcov ⊢
    exact ⟨hlt.le, hcov⟩
  | ASK =>
    simp only [accountingOk, h.points, hlive.unfilled, hfilled, Bool.not_false,
      Bool.and_true, Bool.and_eq_true, decide_eq_true_eq, beq_iff_eq, true_and] at hcov ⊢
    exact ⟨hlt.le, hcov⟩

/-! ## The book as one list -/

section Curves

variable {cfg : MarketConfig} {b : Book} {l : Ledger}

theorem Book.mem_curves {e : BookEntry} : e ∈ b.curves ↔ (b.side e.1).find? e.2.1 = some e.2.2 := by
  obtain ⟨side, x, c⟩ := e
  rw [find?_eq_some]
  cases side <;> simp [curves, side]

theorem Book.curves_pairwise (b : Book) : b.curves.Pairwise bookLt := by
  refine pairwise_append.mpr ⟨?_, ?_, ?_⟩
  · exact pairwise_map.mpr (b.bids.sorted.imp fun h => .inr ⟨rfl, h⟩)
  · exact pairwise_map.mpr (b.asks.sorted.imp fun h => .inr ⟨rfl, h⟩)
  · simp only [List.forall_mem_map]
    exact fun _ _ _ _ => .inl (show Side.BID.toByte < Side.ASK.toByte by decide)

theorem sideEntries_curves (b : Book) (side : Side) : sideEntries side b.curves = b.side side := by
  refine OrderedMap.ext ?_
  rw [sideEntries_entries side b.curves_pairwise]
  cases side <;> simp [curves, side, List.filter_map, Function.comp_def]

theorem Book.ofCurves_curves (h : b.Standing cfg) : ofCurves cfg b.curves = b := by
  have hbids : sideEntries .BID b.curves = b.bids := sideEntries_curves b .BID
  have hasks : sideEntries .ASK b.curves = b.asks := sideEntries_curves b .ASK
  have hbase := h.base
  have hquote := h.quote
  have hmax := h.maxK
  unfold ofCurves
  rw [hbids, hasks]
  cases b
  subst hbase hquote hmax
  rfl

/-- The reservation a curve calls for is filed under its account and asset. -/
def Book.reserveKey (b : Book) (e : BookEntry) : BalanceKey := toLex (e.2.1, b.reserveAsset e.1)

theorem Book.reserveKey_nodup (b : Book) : (b.curves.map b.reserveKey).Nodup := by
  refine pairwise_map.mpr (b.curves_pairwise.imp fun {e e'} hlt heq => ?_)
  obtain ⟨hx, hasset⟩ := Prod.mk.inj (toLex.injective heq)
  rcases hlt with hside | ⟨_, hlt⟩
  · have hne : e.1 ≠ e'.1 := fun h => absurd (h ▸ hside) (UInt8.lt_irrefl _)
    cases h1 : e.1 <;> cases h2 : e'.1 <;> rw [h1, h2] at hne hasset
    · exact hne rfl
    · exact b.distinct hasset.symm
    · exact b.distinct hasset
    · exact hne rfl
  · exact absurd hx (ne_of_lt hlt)

/-- One turn of the loop that adds up the reservations. -/
def Book.expect (b : Book) (m : OrderedMap BalanceKey Int) (e : BookEntry) :
    OrderedMap BalanceKey Int :=
  m.insert (b.reserveKey e) ((m.find? (b.reserveKey e)).getD 0 + e.2.2.reserved)

section

variable {k : BalanceKey} (es : List BookEntry) (m : OrderedMap BalanceKey Int)

theorem find?_expect_of_notMem (hk : k ∉ es.map b.reserveKey) :
    (es.foldl b.expect m).find? k = m.find? k := by
  induction es generalizing m with
  | nil => rfl
  | cons e es ih =>
    obtain ⟨hne, hrest⟩ : k ≠ b.reserveKey e ∧ k ∉ es.map b.reserveKey := by simpa using hk
    rw [foldl_cons, ih _ hrest, expect, find?_insert, if_neg hne]

theorem find?_expect_of_mem {e : BookEntry} (hnd : (es.map b.reserveKey).Nodup)
    (hm : ∀ e ∈ es, m.find? (b.reserveKey e) = none) (he : e ∈ es) :
    (es.foldl b.expect m).find? (b.reserveKey e) = some e.2.2.reserved := by
  induction es generalizing m with
  | nil => cases he
  | cons d es ih =>
    obtain ⟨hd, hnd⟩ := nodup_cons.mp hnd
    obtain ⟨hdm, hm⟩ := forall_mem_cons.mp hm
    rw [foldl_cons]
    rcases mem_cons.mp he with rfl | he
    · rw [find?_expect_of_notMem es _ hd, expect, find?_insert_self, hdm]
      simp
    · refine ih _ hnd (fun f hf => ?_) he
      rw [expect, find?_insert, if_neg, hm f hf]
      exact fun heq => hd (heq ▸ mem_map_of_mem hf)

/-- What the curves call for, key by key. -/
theorem Book.find?_expectedReserved {v : Int} : b.expectedReserved.find? k = some v ↔
      ∃ e ∈ b.curves, b.reserveKey e = k ∧ e.2.2.reserved = v := by
  have hfold : b.expectedReserved = b.curves.foldl b.expect ∅ := rfl
  have hmem : ∀ e ∈ b.curves, b.expectedReserved.find? (b.reserveKey e) = some e.2.2.reserved :=
    fun e he => hfold ▸ find?_expect_of_mem b.curves ∅ b.reserveKey_nodup (fun _ _ => rfl) he
  constructor
  · intro h
    by_cases hk : k ∈ b.curves.map b.reserveKey
    · obtain ⟨e, he, rfl⟩ := mem_map.mp hk
      exact ⟨e, he, rfl, some.inj ((hmem e he).symm.trans h)⟩
    · rw [hfold, find?_expect_of_notMem _ _ hk] at h
      cases h
  · rintro ⟨e, he, rfl, rfl⟩
    exact hmem e he

end

theorem Book.exists_of_reservedFor (b : Book) {x : AccountId} {s : AssetId}
    (h : b.reservedFor x s ≠ 0) : ∃ e ∈ b.curves, b.reserveKey e = toLex (x, s) := by
  have hside : ∃ side, s = b.reserveAsset side ∧ b.curveReserved side x ≠ 0 := by
    by_contra hall
    push Not at hall
    refine h ?_
    unfold reservedFor
    split_ifs with hq hb hb
    · exact absurd (hb.symm.trans hq) b.distinct
    · rw [hall .BID hq, add_zero]
    · rw [hall .ASK hb, zero_add]
    · rfl
  obtain ⟨side, rfl, hne⟩ := hside
  cases hfind : (b.side side).find? x with
  | none => exact absurd (by simp [curveReserved, hfind]) hne
  | some c => exact ⟨(side, x, c), mem_curves.mpr hfind, rfl⟩

/-- A market in order passes the accounting checks of the decoder. -/
theorem checkDecodedAccounting_ok (h : MarketOk b l) (hb : b.Standing cfg) :
    checkDecodedAccounting b l = true := by
  have hreserved : ∀ e ∈ b.curves, l.reserved e.2.1 (b.reserveAsset e.1) = e.2.2.reserved := by
    intro e he
    rw [h.reserved_eq, curveReserved, mem_curves.mp he]
    rfl
  simp only [checkDecodedAccounting, Bool.and_eq_true, List.all_eq_true]
  refine ⟨⟨fun e he => ?_, fun e he => ?_⟩, fun e he => ?_⟩
  · have hfind := mem_curves.mp he
    obtain ⟨a, rest, hok⟩ := h.covered _ _ _ hfind
    exact accountingOk_of_live hok (hb.curves _ _ _ hfind)
  · -- a reservation without a curve is zero
    have hentry : l.balance (ofLex e.1).1 (ofLex e.1).2 = e.2 :=
      entry?_eq_some (find?_eq_some.mpr he)
    have hrec : e.2.reserved = b.reservedFor (ofLex e.1).1 (ofLex e.1).2 := by
      rw [← hentry]
      exact (h.reconciled _ _).trans (sub_zero _)
    rw [Bool.or_eq_true, beq_iff_eq, beq_iff_eq]
    by_cases hz : e.2.reserved = 0
    · exact .inl hz
    · rw [hrec] at hz
      obtain ⟨d, hd, hkey⟩ := b.exists_of_reservedFor hz
      refine .inr (find?_expectedReserved.mpr ⟨d, hd, hkey, ?_⟩)
      rw [← hreserved d hd, ← hentry]
      exact congrArg (fun k : BalanceKey => l.reserved (ofLex k).1 (ofLex k).2) hkey
  · obtain ⟨d, hd, hkey, hval⟩ := find?_expectedReserved.mp (find?_eq_some.mpr he)
    rw [beq_iff_eq, ← hkey, ← hval]
    exact hreserved d hd

end Curves

/-! ## The round trip -/

/-- The collections fit the limits of the decoder. -/
structure FlowMeshState.WithinLimits (s : FlowMeshState) : Prop where
  balances : s.ledger.balances.size ≤ LEDGER_SNAPSHOT_MAX_ENTRIES
  custody : s.ledger.custody.size ≤ LEDGER_SNAPSHOT_MAX_ENTRIES
  requests : s.ledger.requests.size ≤ LEDGER_SNAPSHOT_MAX_ENTRIES
  curves : s.book.bids.size + s.book.asks.size ≤ BOOK_SNAPSHOT_MAX_CURVES
  signers : s.nextSeq.size ≤ STATE_SNAPSHOT_MAX_SIGNERS
  deposits : s.consumedDeposits.card ≤ STATE_SNAPSHOT_MAX_DEPOSITS

section RoundTrip

variable {pr : Primitives} {cfg : MarketConfig} {s : FlowMeshState}

theorem Recorded.ledger_valid (h : Recorded cfg s) (hcfg : cfg.Typed) (hsize : s.WithinLimits) :
    ledgerCodec.valid s.ledger := by
  have hlimit : LEDGER_SNAPSHOT_MAX_ENTRIES ≤ MAX_SIZE := by decide
  have hvault : uint256.valid s.ledger.vault := h.vault.symm ▸ hcfg.vault
  refine ⟨⟨hvault, u64_valid _, u64_valid _, boundedVector_valid hlimit hsize.balances ?_,
    boundedVector_valid hlimit hsize.custody ?_,
    boundedVector_valid hlimit hsize.requests fun e he => h.requests e he⟩, rfl⟩
  · intro e he
    have hentry : s.ledger.balance (ofLex e.1).1 (ofLex e.1).2 = e.2 :=
      entry?_eq_some (find?_eq_some.mpr he)
    have hnn := h.ok.market.nonneg (ofLex e.1).1 (ofLex e.1).2
    have hle := h.ok.market.nonneg.le_held (ofLex e.1).1 (ofLex e.1).2
    have hcap := h.ok.market.cap (ofLex e.1).2
    simp only [Ledger.available, Ledger.reserved, hentry] at hnn hle
    have hav : MoneyRange e.2.available := ⟨hnn.1, by omega⟩
    have hres : MoneyRange e.2.reserved := ⟨hnn.2, by omega⟩
    exact ⟨⟨h.keys e he, rfl⟩, ⟨int64_of_money hav, int64_of_money hres⟩, rfl⟩
  · intro e he
    have hentry : s.ledger.custodyOf e.1 = e.2 := by
      rw [custodyOf, find?_eq_some.mpr he]
      rfl
    have hmax := h.ok.custody e.1
    have hcovered := h.ok.covered e.1
    have hheld := h.ok.held_nonneg e.1
    have hpending := h.ok.pending_nonneg e.1
    unfold liabilities at hcovered
    rw [hentry] at hmax hcovered
    exact ⟨h.custody e he, int64_of_money ⟨by omega, hmax⟩⟩

theorem sideCodec_valid (side : Side) : sideCodec.valid side := by
  cases side <;> exact ⟨⟨u8_valid _, by decide⟩, by decide⟩

/-- A live curve is written and read as an entry of the book. -/
theorem Live.entry_valid {maxK : Nat} {side : Side} {x : AccountId} {c : Curve} {a : Breakpoint}
    (hlive : Live maxK side x c) (hmax : maxK ≤ HARD_MAX_CURVE_POINTS)
    (hok : CurveOk side c a rest) :
    ((sideCodec.pair (uint256.pair (curveCodec maxK))).guard (ok maxK · = true)).valid
      (side, x, c) := by
  have hlt := filled_lt_of_unfilled hok hlive.unfilled
  have hfilled : MoneyRange c.filled := by
    refine ⟨hok.filled, ?_⟩
    cases side with
    | BID => exact hlt.le.trans (hok.valid.inRange a (by simp)).1.2
    | ASK => exact hlt.le.trans (hok.valid.inRange _ (lastPoint_mem a rest)).1.2
  have hlen : c.points.length ≤ min maxK HARD_MAX_CURVE_POINTS := by
    have hpoints := hlive.points
    simp only [hok.points, curveIsValid, Bool.and_eq_true, decide_eq_true_eq] at hpoints
    rw [hok.points]
    exact le_min hpoints.1.1.1 (hpoints.1.1.1.trans hmax)
  have hpoints : (boundedVector (min maxK HARD_MAX_CURVE_POINTS) breakpointCodec).valid c.points := by
    refine boundedVector_valid ((min_le_right _ _).trans (by decide)) hlen fun p hp => ?_
    obtain ⟨hqty, hprice⟩ := hok.valid.inRange p (hok.points ▸ hp)
    exact ⟨⟨int64_of_money hprice, int64_of_money hqty⟩, rfl⟩
  refine ⟨⟨sideCodec_valid side, hlive.account,
    ⟨hpoints, int64_of_money hfilled, int64_of_money hok.reserved⟩, rfl⟩, ?_⟩
  simp [ok, hlive.points, hfilled, hok.reserved]

theorem Recorded.book_valid (h : Recorded cfg s) (hcfg : cfg.Typed) (hsize : s.WithinLimits) :
    (bookCodec cfg).valid s.book := by
  have hmarket : (s.book.base, s.book.quote, s.book.maxK) = (cfg.base, cfg.quote, cfg.maxK) := by
    rw [h.book.base, h.book.quote, h.book.maxK]
  have hmax : cfg.maxK < 256 ^ 8 := cfg.maxK_le.trans_lt (by decide)
  have hlen : s.book.curves.length ≤ BOOK_SNAPSHOT_MAX_CURVES := by
    simpa [curves, OrderedMap.size] using hsize.curves
  refine ⟨⟨⟨?_, hmarket⟩, boundedVector_valid (by decide) hlen fun e he => ?_,
    s.book.curves_pairwise⟩, ofCurves_curves h.book⟩
  · simp only [hmarket]
    exact ⟨hcfg.base, hcfg.quote, natLE_valid.mpr hmax⟩
  · have hfind := mem_curves.mp he
    have hlive := h.book.curves _ _ _ hfind
    obtain ⟨a, rest, hok⟩ := h.ok.market.covered _ _ _ hfind
    exact hlive.entry_valid cfg.maxK_le hok

theorem Recorded.decoded (h : Recorded cfg s) (hcfg : cfg.Typed) (hsize : s.WithinLimits) :
    Decoded cfg s where
  ledger := h.ledger_valid hcfg hsize
  vault := h.vault
  book := h.book_valid hcfg hsize
  accounting := checkDecodedAccounting_ok h.ok.market h.book
  signers := boundedVector_valid (by decide) hsize.signers fun e he => ⟨h.signers e he, u64_valid _⟩
  deposits := by
    refine ⟨⟨boundedVector_valid (by decide) ?_ fun o ho => ?_, ?_⟩, ?_⟩
    · rw [Finset.length_sort]
      exact hsize.deposits
    · exact ⟨⟨h.deposits o ((Finset.mem_sort _).mp ho), u32_valid _⟩, rfl⟩
    · exact (Finset.sortedLT_sort _).pairwise
    · exact Finset.sort_toFinset _ _
  config := h.config

/-- A state reached by accepted calls from the empty one, with its collections within the limits,
is read back from its snapshot, with the same root; and what `Unserialize` reads of a stream is
the serialization of the state it returns. -/
theorem snapshot_round_trip (hpr : pr.Typed) (hcfg : cfg.Typed) (H : Hash256) :
    (∀ moves h, Run (move pr) { state := .new cfg } moves h → (∀ m ∈ moves, m.Typed) →
      h.state.WithinLimits →
      unserialize cfg ((stateCodec cfg).put h.state) = some h.state ∧
        (unserialize cfg ((stateCodec cfg).put h.state)).map (·.root H) = some (h.state.root H)) ∧
    ∀ b s rest, (stateCodec cfg).get b = some (s, rest) → b = (stateCodec cfg).put s ++ rest := by
  refine ⟨fun moves h hrun hm hsize => ?_, fun b s rest hget => ?_⟩
  · have hdecoded := (run_recorded hpr hcfg hrun hm).decoded hcfg hsize
    have hread := unserialize_put (stateCodec_valid.mpr hdecoded)
    exact ⟨hread, by rw [hread]; rfl⟩
  · exact ((stateCodec cfg).put_get b s rest hget).2

end RoundTrip

namespace Sample

def wordPrimitives : Primitives := { primitives with receiptHash := fun _ => 5 }

theorem wordPrimitives_typed : wordPrimitives.Typed where
  receipt _ := uint256_small (show 5 < 16 by decide)
  treasury _ _ := uint256_small (show 2 < 16 by decide)
  seat _ _ _ := uint256_small (show 1 < 16 by decide)

theorem config_typed : config.Typed :=
  ⟨uint256_small (by decide), uint256_small (by decide), uint256_small (by decide)⟩

/-- The calls of the small market. -/
def moves : List Move := .advance 5 0 :: calls.map .call

theorem moves_typed : ∀ m ∈ moves, m.Typed := by
  have hword : ∀ x < 22, uint256.valid x := fun x hx => uint256_valid.mpr (lt_trans hx (by decide))
  simp only [moves, calls, map_cons, map_nil, forall_mem_cons]
  exact ⟨hword 5 (by decide), hword 21 (by decide), hword 6 (by decide), hword 5 (by decide),
    ⟨hword 2 (by decide), hword 6 (by decide), hword 7 (by decide)⟩,
    ⟨hword 1 (by decide), hword 5 (by decide), hword 0 (by decide)⟩, nofun⟩

theorem moves_reach : ∃ h, Run (move wordPrimitives) { state := .new config } moves h ∧
    h.state.WithinLimits ∧ h.state.book.bids.size = 1 ∧ h.state.ledger.requests.size = 1 :=
  ⟨_, .next (.next (.next (.next (.next (.next .start rfl) rfl) rfl) rfl) rfl) rfl,
    ⟨by decide, by decide, by decide, by decide, by decide, by decide⟩, by decide, by decide⟩

end Sample

/-- Two curves and a pending request, written and read back. -/
theorem sample_round_trip : ∃ h,
    Run (move wordPrimitives) { state := .new config } moves h ∧
      h.state.book.bids.size = 1 ∧ h.state.ledger.requests.size = 1 ∧
      unserialize config ((stateCodec config).put h.state) = some h.state := by
  obtain ⟨h, hrun, hsize, hbids, hrequests⟩ := moves_reach
  exact ⟨h, hrun, hbids, hrequests,
    ((snapshot_round_trip wordPrimitives_typed config_typed
      ⟨fun _ => 0, fun _ => by decide⟩).1 _ h hrun moves_typed hsize).1⟩

/-- The market before the request, with its deposits, balances and curves. -/
theorem sample_root_commits : ∃ h,
    Run (move wordPrimitives) { state := .new config } (calls.tail.map .call) h ∧
      h.state.book.bids.size = 1 ∧ h.state.ledger.balances.size = 2 ∧
      h.state.consumedDeposits.card = 2 ∧
      ∀ H b' s', unserialize config b' = some s' → RootCollisionFree H h.state s' →
        h.state.root H = s'.root H → h.state = s' := by
  obtain ⟨h, hrun, hsize, hbids, hbalances, hdeposits, hempty⟩ : ∃ h,
      Run (move wordPrimitives) { state := .new config } (calls.tail.map .call) h ∧
        h.state.WithinLimits ∧ h.state.book.bids.size = 1 ∧ h.state.ledger.balances.size = 2 ∧
        h.state.consumedDeposits.card = 2 ∧ h.state.ledger.requests = ∅ :=
    ⟨_, .next (.next (.next (.next .start rfl) rfl) rfl) rfl,
      ⟨by decide, by decide, by decide, by decide, by decide, by decide⟩, by decide, by decide,
      by decide, rfl⟩
  have hdecoded := (run_recorded wordPrimitives_typed config_typed hrun fun m hm =>
    moves_typed m (mem_cons_of_mem _ (mem_cons_of_mem _ hm))).decoded config_typed hsize
  exact ⟨h, hrun, hbids, hbalances, hdeposits, fun H =>
    (root_commits_iff (unserialize_put (stateCodec_valid.mpr hdecoded))).1.mpr hempty⟩

end B3Coin.FlowMesh
