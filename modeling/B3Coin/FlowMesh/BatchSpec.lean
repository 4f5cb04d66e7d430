import B3Coin.FlowMesh.BatchRun

/-!
# What a slot may withdraw, and what happens once

One lemma says what a move does to the sequences, the credited deposits and the
pending requests. From it, over every run: the requests of a slot stay within the
capacity of its anchor, and no sequence, deposit or receipt is used twice while the
counters do not wrap.
-/
namespace B3Coin.FlowMesh

open Ledger Transition List Option OrderedMap Nat History Sample UInt64

variable {C : BatchCrypto} {pr : Primitives} {h h' : History} {m : Move}

/-- The part of a state that says what was done already. -/
structure Marks where
  nextSeq : OrderedMap AccountId UInt64
  consumedDeposits : Finset COutPoint
  requests : OrderedMap Uint256 WithdrawalReceipt
  nextReceiptSeq : UInt64

def FlowMeshState.marks (s : FlowMeshState) : Marks :=
  ⟨s.nextSeq, s.consumedDeposits, s.ledger.requests, s.ledger.nextReceiptSeq⟩

/-- What one move does to the history and to the marks of the state. -/
inductive Effect (pr : Primitives) (h : History) : Move → History → Prop where
  | quiet {m : Move} {s' : FlowMeshState} (hmarks : s'.marks = h.state.marks) :
      Effect pr h m { h with state := s' }
  | credit {m : Move} {s' : FlowMeshState} {o : COutPoint} (hnew : o ∉ h.state.consumedDeposits)
      (hmarks : s'.marks =
        { h.state.marks with consumedDeposits := insert o h.state.consumedDeposits }) :
      Effect pr h m { h with state := s', credited := h.credited ++ [o] }
  | request {s' : FlowMeshState} {account : AccountId} {asset : AssetId} {amount : Int}
      {destination : Uint256} {capacity : Int} {r : WithdrawalReceipt} (hpos : 0 < amount)
      (hfits : h.state.ledger.pendingWithdrawals asset + amount ≤ capacity)
      (hr : r = h.state.ledger.nextReceipt pr.receiptHash account asset amount destination)
      (hmarks : s'.marks = { h.state.marks with
        requests := h.state.ledger.requests.emplace r.receiptId r
        nextReceiptSeq := h.state.ledger.nextReceiptSeq + 1 }) :
      Effect pr h (.call (.requestWithdrawal account asset amount destination capacity))
        { h with state := s', created := h.created ++ [r] }
  | settle {m : Move} {s' : FlowMeshState} {f : WithdrawalSettlementFact} {r : WithdrawalReceipt}
      (hfind : h.state.ledger.requests.find? f.receipt.receiptId = some r)
      (hid : r.receiptId = f.receipt.receiptId) (hasset : r.asset = f.receipt.asset)
      (hamount : r.amount = f.receipt.amount)
      (hmarks : s'.marks = { h.state.marks with
        requests := h.state.ledger.requests.erase f.receipt.receiptId }) :
      Effect pr h m { h with state := s', settled := h.settled ++ [(f, h.created.length)] }
  | advance {m : Move} {signer : AccountId} :
      Effect pr h m { h with
        state := h.state.advanceSequence signer (h.state.nextSequence signer + 1)
        consumed := h.consumed ++ [(signer, h.state.nextSequence signer)] }

variable {s : FlowMeshState}

/-- A call that only moves value between book and balances leaves the marks. -/
theorem marks_of_settled {b' : Book} {l₀ l' : Ledger}
    (hs : Settled s.book b' s.ledger l₀) (hreq : l'.requests = l₀.requests)
    (hseq : l'.nextReceiptSeq = l₀.nextReceiptSeq) :
    ({ s with book := b', ledger := l' } : FlowMeshState).marks = s.marks := by
  simp only [FlowMeshState.marks, hreq, hseq]
  rw [hs.rest]

theorem move_effect (hok : StateOk h.state) (hm : h.move pr m = some h') : Effect pr h m h' := by
  cases m with
  | advance signer sequence =>
    rw [move, ite_none_right_eq_some] at hm
    obtain ⟨rfl, heq⟩ := hm
    obtain rfl := some.inj heq
    exact .advance
  | call c =>
    obtain ⟨s', hp, rfl⟩ := map_eq_some_iff.mp hm
    cases FlowMeshState.performed hp with
    | @credit _ _ _ _ l' hnew hl' =>
      obtain ⟨_, _, ⟨n, hn, hl⟩, _⟩ := deposit_some hl'
      have hreq : l'.requests = h.state.ledger.requests := by rw [hl, hn.rest]
      have hseq : l'.nextReceiptSeq = h.state.ledger.nextReceiptSeq := by rw [hl, hn.rest]
      refine .credit hnew ?_
      simp [FlowMeshState.marks, hreq, hseq]
    | submit hz => exact .quiet (marks_of_settled (submitCurve_settled hok.market hz).1 rfl rfl)
    | cancel hz => exact .quiet (marks_of_settled (cancelCurve_settled hok.market hz).1 rfl rfl)
    | clear hz =>
      obtain ⟨l0, hs, hl⟩ := clearSlot_settled hok.market hz
      exact .quiet (marks_of_settled hs (by rw [hl]; rfl) (by rw [hl]; rfl))
    | request hz =>
      obtain ⟨hd, _, hfits, _, hr, n, hn, hl⟩ := requestWithdrawal_some hz
      rw [hr] at hl
      refine .request hd hfits rfl ?_
      simp [FlowMeshState.marks, hl]
    | consume hl' =>
      obtain ⟨r, hr, _, _, hreq, _, hseq, _⟩ := consumeRequest_some hl'
      obtain ⟨hid, hasset, hamount⟩ := consumeRequest_matches hl' hr
      refine .settle hr hid hasset hamount ?_
      simp [FlowMeshState.marks, hreq, hseq]

theorem move_ok (hok : StateOk h.state) (hm : h.move pr m = some h') : StateOk h'.state := by
  cases m with
  | advance signer sequence =>
    rw [move, ite_none_right_eq_some] at hm
    obtain rfl := some.inj hm.2
    exact { hok with }
  | call c =>
    obtain ⟨s', hp, rfl⟩ := map_eq_some_iff.mp hm
    have hs' : (h.record pr s' c).state = s' := by cases c <;> rfl
    rw [hs']
    exact (perform_step hok hp).ok hok

/-- The state of a market after any calls and advances. -/
def FlowMeshState.Reachable (pr : Primitives) (cfg : MarketConfig) (s : FlowMeshState) : Prop :=
  ∃ moves h, Run (move pr) { state := .new cfg } moves h ∧ h.state = s

theorem FlowMeshState.Reachable.ok {cfg : MarketConfig} (hs : s.Reachable pr cfg) : StateOk s := by
  obtain ⟨moves, h, hrun, rfl⟩ := hs
  exact hrun.invariant (P := fun _ h => StateOk h.state) (new_ok cfg)
    fun _ _ _ _ hok hm => move_ok hok hm

/-! ## A treasury that is paid one unit a slot -/

namespace Sample

def crypto : BatchCrypto where
  toPrimitives := primitives
  actionId _ := 0
  actionsRoot _ := 0
  handoffResultRoot _ := 0
  entryIdentity _ := 0
  emptyEffectRoot _ := 0
  actionsRoot_lt _ := by decide
  handoffResultRoot_lt _ := by decide
  emptyEffectRoot_lt _ := by decide
  requestRoot _ _ := 0
  stateRoot _ := 0
  settlementResult _ _ := 0
  execResult _ _ _ _ _ := 0

/-- Every deposit credits the treasury account; one unit may be pending. -/
def context : SlotContext where
  deposits := some
    { getDeposit _ _ := some ⟨NativeAsset, 2 ^ 59, 2⟩
      getWithdrawalCapacity _ _ := some 1
      getWithdrawalSettlements _ _ := none }
  fee := some fee

def deposit (n : Nat) : Action := { type := 5, outpoint := ⟨n, 0⟩ }

theorem canonicalize_deposit (n : Nat) : canonicalizeActions crypto.toDigests [deposit n] = [deposit n] := rfl

theorem shape_deposit (n : Nat) : (deposit n).shapeIsCanonicalSansCredential = true := by
  have : (0 : UInt32) ≠ NULL_INDEX := by decide
  simp [deposit, Action.shapeIsCanonicalSansCredential, ActionType.ofByte, COutPoint.isNull, this]

theorem executeActions_deposit (n : Nat) {s' : FlowMeshState}
    (hnew : (⟨n, 0⟩ : COutPoint) ∉ s.consumedDeposits)
    (hs : s.creditDeposit ⟨n, 0⟩ 2 NativeAsset (2 ^ 59) = some s') :
    context.executeActions crypto s (canonicalizeActions crypto.toDigests [deposit n]) =
      { state := s', applied := [0], creditedDeposits := [⟨⟨n, 0⟩, 2, NativeAsset, 2 ^ 59⟩] } := by
  have hsort : sortActions [deposit n] =
      { deposits := (∅ : OrderedMap _ _).emplace (deposit n).outpoint.key (deposit n) } := by
    simp only [sortActions, foldl_cons, foldl_nil, Sorted.add, shape_deposit]
    rfl
  have happly : context.applyDeposit s (deposit n) = some (⟨NativeAsset, 2 ^ 59, 2⟩, s') := by
    show (if (⟨n, 0⟩ : COutPoint) ∈ s.consumedDeposits then none else _) = _
    rw [if_neg hnew]
    show (s.creditDeposit ⟨n, 0⟩ 2 NativeAsset (2 ^ 59)).map _ = _
    rw [hs]
    rfl
  rw [canonicalize_deposit, SlotContext.executeActions, hsort]
  show SlotContext.creditOne _ _ _ _ = _
  rw [SlotContext.creditOne, happly]
  rfl

/-- A market at rest after `k` payouts: `b` units belong to the treasury, nothing is pending. -/
structure Resting (k : Nat) (b : Int) (n : Nat) (s : FlowMeshState) : Prop where
  ok : StateOk s
  slot : s.ledger.slot = ofNat k
  seq : s.ledger.nextReceiptSeq = ofNat k
  vault : s.ledger.vault = config.vault
  requests : s.ledger.requests = ∅
  bids : s.book.bids = ∅
  asks : s.book.asks = ∅
  treasury : s.ledger.available 2 NativeAsset = b
  custody : s.ledger.custodyOf NativeAsset = b
  outpoints : ∀ o ∈ s.consumedDeposits, o.hash < n

/-- The receipt of the payout after `k` others. -/
def receipt (k : Nat) : WithdrawalReceipt where
  receiptId := primitives.receiptHash
    ⟨ofNat (k + 1), ofNat k, 2, NativeAsset, 1, fee.treasuryOwnerCommitment,
      config.vault⟩
  asset := NativeAsset
  amount := 1
  destination := fee.treasuryOwnerCommitment
  finalizedSlot := ofNat (k + 1)
  vaultCommitment := config.vault

def fact (k : Nat) : WithdrawalSettlementFact where
  receipt :=
    { receiptId := (receipt k).receiptId, marketId := 1, epoch := 0, sequence := 0, account := 2
      asset := NativeAsset, amount := 1, destinationOwnerCommitment := fee.treasuryOwnerCommitment
      vaultId := config.vault, deterministicChangeShard := 0 }
  checkpointId := 1
  transactionId := 1
  connectedHeight := 0
  connectedBlock := 1

theorem fact_canonical (k : Nat) : (fact k).isCanonical = true := by
  have hid : (receipt k).receiptId ≠ 0 := by
    intro h
    have hslot : Nat.pair _ _ = Nat.pair 0 0 := h
    have hseq : Nat.pair _ _ = Nat.pair 0 0 := (pair_eq_pair.mp hslot).2
    have haccount : Nat.pair 2 _ = Nat.pair 0 0 := (pair_eq_pair.mp hseq).2
    exact absurd (pair_eq_pair.mp haccount).1 (by decide)
  have hbool : ((receipt k).receiptId != 0) = true := bne_iff_ne.mpr hid
  simp only [WithdrawalSettlementFact.isCanonical, FlowMeshWithdrawalReceipt.encodes, fact, hbool]
  rfl

variable {k n : Nat} {b : Int}

theorem Resting.clearSlot (h : Resting k b n s) :
    s.clearSlot primitives context.fee = some ({}, { s with ledger := s.ledger.advanceSlot }) := by
  have hprices : s.book.candidatePrices = [] := by
    simp only [Book.candidatePrices, h.bids, h.asks]
    rfl
  rw [FlowMeshState.clearSlot, Book.clearSlot, hprices]
  rfl

theorem Resting.payTreasury (h : Resting k b n s)
    (hb : 0 < b) : ∃ l, context.payTreasury primitives { s with ledger := s.ledger.advanceSlot } 0 =
        some (some ⟨2, receipt k⟩, { s with ledger := l }) ∧
      StateOk { s with ledger := l } ∧ l.slot = ofNat (k + 1) ∧
      l.nextReceiptSeq = ofNat (k + 1) ∧ l.vault = config.vault ∧
      l.requests = (∅ : OrderedMap _ _).emplace (receipt k).receiptId (receipt k) ∧
      l.available 2 NativeAsset = b - 1 ∧ l.custodyOf NativeAsset = b := by
  have hcleared : s.perform primitives (.clearSlot context.fee) =
      some { s with ledger := s.ledger.advanceSlot } := by
    rw [FlowMeshState.perform, h.clearSlot]
    rfl
  have hok := (perform_step h.ok hcleared).ok h.ok
  have hpending : s.ledger.advanceSlot.pendingWithdrawals NativeAsset = 0 := by
    rw [pendingWithdrawals, show s.ledger.advanceSlot.requests = ∅ from h.requests]
    rfl
  have hav : s.ledger.advanceSlot.available 2 NativeAsset = b := h.treasury
  obtain ⟨⟨r, l⟩, hreq⟩ := requestWithdrawal_of_le primitives.receiptHash
    fee.treasuryOwnerCommitment one_pos (hav ▸ hb) hpending.ge (by rw [hpending]; rfl)
    (by decide : (1 : Int) ≤ MAX_MONEY)
  obtain ⟨_, _, _, _, hr, m, hm, hl⟩ := requestWithdrawal_some hreq
  have hreceipt : r = receipt k := by
    have hslot : s.ledger.advanceSlot.slot = ofNat (k + 1) := by
      rw [ofNat_add, ← h.slot]
      rfl
    rw [hr]
    simp [nextReceipt, hslot, show s.ledger.advanceSlot.nextReceiptSeq = _ from h.seq,
      show s.ledger.advanceSlot.vault = _ from h.vault, receipt]
  have hperform : FlowMeshState.perform primitives { s with ledger := s.ledger.advanceSlot }
      (.requestWithdrawal 2 NativeAsset 1 fee.treasuryOwnerCommitment 1) =
      some { s with ledger := l } := by
    simp [FlowMeshState.perform, FlowMeshState.requestWithdrawal, hreq]
  refine ⟨l, ?_, (perform_step hok hperform).ok hok, ?_, ?_, ?_, ?_, ?_, ?_⟩
  · have hfee : context.fee.filter (·.isCanonical primitives) = some fee := rfl
    have hamount : context.treasuryAmount primitives fee
        { s with ledger := s.ledger.advanceSlot } = 1 := by
      show (if s.ledger.advanceSlot.available 2 NativeAsset > 0 ∧
        s.ledger.advanceSlot.pendingWithdrawals NativeAsset ≤ 1 then
          min (s.ledger.advanceSlot.available 2 NativeAsset)
            (1 - s.ledger.advanceSlot.pendingWithdrawals NativeAsset) else 0) = 1
      omega
    simp only [SlotContext.payTreasury, hfee, hamount]
    show (((s.ledger.advanceSlot.requestWithdrawal primitives.receiptHash 2 NativeAsset 1
      fee.treasuryOwnerCommitment 1).map _).map _) = _
    rw [hreq, hreceipt]
    rfl
  · rw [hl, hm.rest, ofNat_add, ← h.slot]
    rfl
  · rw [hl, ofNat_add, ← h.seq]
    rfl
  · rw [hl, hm.rest]
    exact h.vault
  · rw [hl, hreceipt, show s.ledger.advanceSlot.requests = ∅ from h.requests]
  · have := hm.available 2 NativeAsset
    rw [hav, delta, if_pos ⟨rfl, rfl⟩] at this
    rw [hl]
    exact this
  · rw [hl, hm.rest]
    exact h.custody

/-- The settlement of that payout puts the market to rest again. -/
theorem Resting.settle {l : Ledger}
    (h : Resting k b n s) (hb : 0 < b) (hok : StateOk { s with ledger := l })
    (hslot : l.slot = ofNat (k + 1)) (hseq : l.nextReceiptSeq = ofNat (k + 1))
    (hvault : l.vault = config.vault)
    (hreq : l.requests = (∅ : OrderedMap _ _).emplace (receipt k).receiptId (receipt k))
    (hav : l.available 2 NativeAsset = b - 1) (hcus : l.custodyOf NativeAsset = b) :
    ∃ t, settleAll none [fact k] { s with ledger := l } = some t ∧ Resting (k + 1) (b - 1) n t := by
  have hfind : l.requests.find? (receipt k).receiptId = some (receipt k) := by
    rw [hreq]
    exact find?_insert_self _ _ _
  obtain ⟨c, hc⟩ : ∃ c, l.custody.find? NativeAsset = some c := by
    cases hnone : l.custody.find? NativeAsset with
    | none =>
      rw [custodyOf, hnone, getD_none] at hcus
      omega
    | some c => exact ⟨c, rfl⟩
  have hcb : c = b := by
    rw [custodyOf, hc] at hcus
    exact hcus
  obtain ⟨l', hl'⟩ : ∃ l', l.consumeRequest (fact k) = some l' := by
    have hfind' : l.requests.find? (fact k).receipt.receiptId = some (receipt k) := hfind
    have hc' : l.custody.find? (receipt k).asset = some c := hc
    rw [consumeRequest, fact_canonical, if_neg (by simp), hfind']
    simp only
    rw [if_neg (by simp [fact, receipt]), consumeRequestId, hfind]
    simp only [hc']
    rw [if_neg (show ¬ c < (receipt k).amount from not_lt.mpr (hcb ▸ hb))]
    exact ⟨_, rfl⟩
  have hstep : FlowMeshState.perform primitives { s with ledger := l }
      (.consumeWithdrawalSettlement (fact k)) = some { s with ledger := l' } := by
    rw [FlowMeshState.perform, FlowMeshState.consumeWithdrawalSettlement, hl']
    rfl
  obtain ⟨r, hr, _, hbal, hreq', hslot', hseq', hvault', hcus'⟩ := consumeRequest_some hl'
  refine ⟨{ s with ledger := l' }, ?_, (perform_step hok hstep).ok hok, hslot'.trans hslot,
    hseq'.trans hseq, hvault'.trans hvault, ?_, h.bids, h.asks, ?_, ?_, h.outpoints⟩
  · rw [settleAll, if_neg (by simp), FlowMeshState.consumeWithdrawalSettlement, hl']
    rfl
  · show l'.requests = ∅
    rw [hreq', hreq]
    show ((∅ : OrderedMap _ _).insert _ _).erase _ = _
    rw [show (fact k).receipt.receiptId = (receipt k).receiptId from rfl, erase_insert]
    rfl
  · show l'.available 2 NativeAsset = b - 1
    rw [← hav, Ledger.available, Ledger.available, balance, balance, entry?, entry?, hbal]
  · show l'.custodyOf NativeAsset = b - 1
    have hrk : r = receipt k := some.inj (hr.symm.trans hfind)
    rw [hcus', hcus, hrk, totalDelta]
    rfl

theorem Resting.deposit (h : Resting k 0 n s) :
    ∃ s', s.creditDeposit ⟨n, 0⟩ 2 NativeAsset (2 ^ 59) = some s' ∧
      Resting k (2 ^ 59) (n + 1) s' := by
  have hnew : (⟨n, 0⟩ : COutPoint) ∉ s.consumedDeposits :=
    fun ho => absurd (h.outpoints _ ho) (lt_irrefl n)
  obtain ⟨l, hl⟩ : ∃ l, s.ledger.deposit 2 NativeAsset (2 ^ 59) = some l := by
    rw [Ledger.deposit, h.treasury, h.custody, if_neg (by decide), if_neg (by decide)]
    exact ⟨_, rfl⟩
  have hs' : s.creditDeposit ⟨n, 0⟩ 2 NativeAsset (2 ^ 59) = some { s with
      ledger := l, consumedDeposits := insert ⟨n, 0⟩ s.consumedDeposits } := by
    rw [FlowMeshState.creditDeposit, if_neg hnew, hl]
    rfl
  obtain ⟨_, _, ⟨m, hm, hlm⟩, hcus⟩ := deposit_some hl
  have hsame : l = { s.ledger with balances := l.balances, custody := l.custody } := by
    rw [hlm, hm.rest]
  refine ⟨_, hs', (creditDeposit_step h.ok _ hl).ok h.ok, ?_, ?_, ?_, ?_, h.bids, h.asks, ?_, ?_,
    fun o ho => ?_⟩
  · rw [hsame]
    exact h.slot
  · rw [hsame]
    exact h.seq
  · rw [hsame]
    exact h.vault
  · rw [hsame]
    exact h.requests
  · have := hm.available 2 NativeAsset
    rw [h.treasury, delta, if_pos ⟨rfl, rfl⟩, zero_add] at this
    rw [hlm]
    exact this
  · have := hcus NativeAsset
    rwa [h.custody, totalDelta, if_pos rfl, zero_add] at this
  · rcases Finset.mem_insert.mp ho with rfl | ho
    · exact lt_succ_self n
    · exact (h.outpoints o ho).trans (lt_succ_self n)

theorem Resting.payout {actions : List Action} {done : Slot}
    (hdone : context.executeActions crypto s (canonicalizeActions crypto.toDigests actions) = done)
    (hrest : Resting k b n done.state) (hnone : done.requests = []) (hb : 0 < b) :
    ∃ r l t, executeSlot crypto context s actions [] =
        some (r, { done.state with ledger := l }) ∧ r.withdrawalRequests = [receipt k] ∧
      settleAll none [fact k] { done.state with ledger := l } = some t ∧
      Resting (k + 1) (b - 1) n t := by
  obtain ⟨l, hpay, hok, hslot, hseq, hvault, hreq, hav, hcus⟩ := hrest.payTreasury hb
  obtain ⟨t, hsettle, ht⟩ := hrest.settle hb hok hslot hseq hvault hreq hav hcus
  have hclear : done.state.clearSlot crypto.toPrimitives context.fee = _ := hrest.clearSlot
  have hpaid : context.payTreasury crypto.toPrimitives _ _ = _ := hpay
  obtain ⟨r, hr, hreceipts⟩ : ∃ r, executeSlot crypto context s actions [] =
      some (r, { done.state with ledger := l }) ∧ r.withdrawalRequests = [receipt k] := by
    simp only [executeSlot, ne_eq, not_true_eq_false, ↓reduceIte, hdone, hclear, bind_some,
      hpaid, map_some, hnone]
    exact ⟨_, rfl, rfl⟩
  exact ⟨r, l, t, hr, hreceipts, hsettle, ht⟩

theorem new_resting : Resting 0 0 0 (.new config) :=
  ⟨new_ok config, rfl, rfl, rfl, rfl, rfl, rfl, rfl, rfl,
    fun o ho => by simp [FlowMeshState.new] at ho⟩

end Sample

/-! ## Capacity -/

/-- Pending requests grow only by the amount of a request. -/
theorem Effect.pending_le (he : Effect pr h m h') (hok : StateOk h.state) (a : AssetId) :
    h'.state.ledger.pendingWithdrawals a ≤ h.state.ledger.pendingWithdrawals a ∨
      ∃ account amount destination capacity,
        m = .call (.requestWithdrawal account a amount destination capacity) ∧
        h'.state.ledger.pendingWithdrawals a ≤ capacity := by
  have same : ∀ {s' : FlowMeshState}, s'.ledger.requests = h.state.ledger.requests →
      s'.ledger.pendingWithdrawals a ≤ h.state.ledger.pendingWithdrawals a := fun hreq => by
    rw [pendingWithdrawals, hreq, pendingWithdrawals]
  cases he with
  | quiet hmarks => exact .inl (same (congrArg Marks.requests hmarks))
  | credit _ hmarks => exact .inl (same (congrArg Marks.requests hmarks))
  | advance => exact .inl (same rfl)
  | @request s' account asset amount destination capacity r hpos hfits hr hmarks =>
    have hreq : s'.ledger.requests = h.state.ledger.requests.emplace r.receiptId r :=
      congrArg Marks.requests hmarks
    have hasset : r.asset = asset := by rw [hr]; rfl
    have hamount : r.amount = amount := by rw [hr]; rfl
    have hpending : s'.ledger.pendingWithdrawals a = h.state.ledger.pendingWithdrawals a +
        if h.state.ledger.requests.find? r.receiptId = none then totalDelta asset amount a
        else 0 := by
      rw [← hasset, ← hamount, ← pendingWithdrawals_emplace, pendingWithdrawals, hreq]
      rfl
    unfold totalDelta at hpending
    by_cases ha : a = asset
    · subst ha
      refine .inr ⟨account, amount, destination, capacity, rfl, ?_⟩
      show s'.ledger.pendingWithdrawals a ≤ capacity
      split_ifs at hpending <;> omega
    · refine .inl ?_
      show s'.ledger.pendingWithdrawals a ≤ _
      rw [hpending]
      split_ifs <;> omega
  | @settle _ s' f r hfind _ _ _ hmarks =>
    have hreq : s'.ledger.requests = h.state.ledger.requests.erase f.receipt.receiptId :=
      congrArg Marks.requests hmarks
    have hpos := hok.pending _ r hfind
    refine .inl ?_
    show s'.ledger.pendingWithdrawals a ≤ _
    rw [pendingWithdrawals, hreq, pendingWithdrawals_erase hfind]
    unfold totalDelta
    split_ifs <;> omega

/-- The requests that a run of moves adds are within the capacity of the slot. -/
theorem Moves.within_capacity {x : SlotContext} (hok : StateOk h.state) (hmoves : Moves pr x h h') :
    StateOk h'.state ∧ ∃ new, h'.created = h.created ++ new ∧ ∀ w ∈ new,
      ∃ c, x.capacity w.asset = some c ∧ h'.state.ledger.pendingWithdrawals w.asset ≤ c := by
  obtain ⟨moves, hrun, hwithin⟩ := hmoves
  induction hrun with
  | start => exact ⟨hok, [], by simp, by simp⟩
  | @next ms g g' m hprev hm ih =>
    obtain ⟨hgok, new, hnew, hbound⟩ := ih fun m hm => hwithin m (mem_cons_of_mem _ hm)
    have he := move_effect hgok hm
    -- an asset that was within its capacity stays so, whatever the move
    have hkeep : ∀ a c, x.capacity a = some c → g.state.ledger.pendingWithdrawals a ≤ c →
        g'.state.ledger.pendingWithdrawals a ≤ c := by
      intro a c hc hle
      rcases he.pending_le hgok a with hdown | ⟨account, amount, dest, capacity, rfl, hcap⟩
      · exact hdown.trans hle
      · have : x.capacity a = some capacity := hwithin _ mem_cons_self
        rw [hc] at this
        exact hcap.trans (some.inj this).ge
    have hold : ∀ w ∈ new, ∃ c, x.capacity w.asset = some c ∧
        g'.state.ledger.pendingWithdrawals w.asset ≤ c := fun w hw => by
      obtain ⟨c, hc, hle⟩ := hbound w hw
      exact ⟨c, hc, hkeep _ c hc hle⟩
    refine ⟨move_ok hgok hm, ?_⟩
    have hpending := he.pending_le hgok
    cases he with
    | @request s' account asset amount destination capacity r hpos hfits hr hmarks =>
      have hasset : r.asset = asset := by rw [hr]; rfl
      have hc : x.capacity asset = some capacity := hwithin _ mem_cons_self
      refine ⟨new ++ [r], by simp [hnew], fun w hw => ?_⟩
      rcases mem_append.mp hw with hw | hw
      · exact hold w hw
      · obtain rfl := mem_singleton.mp hw
        refine ⟨capacity, hasset ▸ hc, ?_⟩
        rw [hasset]
        rcases hpending asset with hdown | ⟨_, _, _, _, heq, hcap⟩
        · exact hdown.trans (by omega)
        · cases heq
          exact hcap
    | quiet => exact ⟨new, hnew, hold⟩
    | credit => exact ⟨new, hnew, hold⟩
    | settle => exact ⟨new, hnew, hold⟩
    | advance => exact ⟨new, hnew, hold⟩

/-- The payout owed to the treasury of a canonical fee context: its balance, up to what the
pending requests leave of a known capacity. -/
def SlotContext.treasuryPayout (x : SlotContext) (pr : Primitives) (s : FlowMeshState) :
    List AccountWithdrawalRequest :=
  match x.fee.filter (·.isCanonical pr), x.capacity NativeAsset with
  | some c, some capacity =>
    let due := min (s.ledger.available (c.treasuryAccount pr) NativeAsset)
      (capacity - s.ledger.pendingWithdrawals NativeAsset)
    if 0 < due then
      [⟨c.treasuryAccount pr, s.ledger.nextReceipt pr.receiptHash (c.treasuryAccount pr)
        NativeAsset due c.treasuryOwnerCommitment⟩]
    else []
  | _, _ => []

theorem payTreasury_payout {x : SlotContext} {s' : FlowMeshState} {treasuryFee : Int}
    {paid : Option AccountWithdrawalRequest}
    (hpay : x.payTreasury pr s treasuryFee = some (paid, s')) :
    paid.toList = x.treasuryPayout pr s := by
  unfold SlotContext.payTreasury at hpay
  unfold SlotContext.treasuryPayout
  cases hfee : x.fee.filter (·.isCanonical pr) with
  | none =>
    simp only [hfee] at hpay
    split_ifs at hpay
    obtain ⟨rfl, _⟩ := Prod.mk.inj (some.inj hpay)
    rfl
  | some c =>
    simp only [hfee] at hpay
    cases hcap : x.capacity NativeAsset with
    | none =>
      have hzero : ¬ x.treasuryAmount pr c s > 0 := by simp [SlotContext.treasuryAmount, hcap]
      rw [if_neg hzero] at hpay
      obtain ⟨rfl, _⟩ := Prod.mk.inj (some.inj hpay)
      rfl
    | some capacity =>
      let due := min (s.ledger.available (c.treasuryAccount pr) NativeAsset)
        (capacity - s.ledger.pendingWithdrawals NativeAsset)
      have hamount : x.treasuryAmount pr c s = if 0 < due then due else 0 := by
        simp only [SlotContext.treasuryAmount, hcap, due]
        split_ifs <;> omega
      change _ = if 0 < due then _ else _
      by_cases hdue : 0 < due
      · rw [if_pos hdue] at hamount ⊢
        rw [hamount, if_pos hdue] at hpay
        obtain ⟨y, hy, hpair⟩ := map_eq_some_iff.mp hpay
        obtain ⟨rfl, rfl⟩ := Prod.mk.inj hpair
        rw [(requestWithdrawal_receipt hy)]
        rfl
      · rw [if_neg hdue] at hamount ⊢
        rw [hamount, if_neg (lt_irrefl _)] at hpay
        obtain ⟨rfl, _⟩ := Prod.mk.inj (some.inj hpay)
        rfl

/-- After a slot that created a request in an asset, the pending requests of the asset are within
the capacity at its anchor; and the treasury is paid its balance up to the capacity left. -/
theorem requests_within_capacity {cfg : MarketConfig} {s s' : FlowMeshState}
    (hs : s.Reachable C.toPrimitives cfg) {x : SlotContext} {actions : List Action}
    {settlements : List WithdrawalSettlementFact} {r : BatchResult}
    (hr : executeSlot C x s actions settlements = some (r, s')) :
    (∀ w ∈ r.withdrawalRequests, ∃ c, x.capacity w.asset = some c ∧
      s'.ledger.pendingWithdrawals w.asset ≤ c) ∧
    (settlements = [] → ∃ done cleared,
      done = x.executeActions C s (canonicalizeActions C.toDigests actions) ∧
      done.state.clearSlot C.toPrimitives x.fee = some (r.clearing, cleared) ∧
      r.accountWithdrawalRequests =
        done.requests ++ x.treasuryPayout C.toPrimitives cleared) := by
  constructor
  · have hexec : execute C { state := s } ⟨x, actions, settlements⟩ = some _ :=
      map_eq_some_iff.mpr ⟨(r, s'), hr, rfl⟩
    obtain ⟨_, new, hnew, hbound⟩ := (execute_moves hexec).within_capacity hs.ok
    have : r.withdrawalRequests = new := by simpa using hnew
    rw [this]
    exact hbound
  · intro hnil
    rcases executeSlot_cases hr with ⟨hne, _⟩ |
      ⟨_, done, cleared, paid, hdone, hclear, hpaid, hacc, _⟩
    · exact absurd hnil hne
    · exact ⟨done, cleared, hdone, hclear, by rw [hacc, payTreasury_payout hpaid]⟩

theorem sample_capacity : ∃ r s', executeSlot crypto context (.new config)
      [deposit 0] [] = some (r, s') ∧ r.withdrawalRequests = [receipt 0] ∧
      s'.ledger.pendingWithdrawals NativeAsset ≤ 1 := by
  obtain ⟨s, hs, hrest⟩ := new_resting.deposit
  obtain ⟨r, l, _, hr, hreceipts, _⟩ := Sample.Resting.payout
    (executeActions_deposit 0 (by simp [FlowMeshState.new]) hs) hrest rfl (by decide)
  have hreach : (FlowMeshState.new config).Reachable crypto.toPrimitives
      config := ⟨[], _, .start, rfl⟩
  obtain ⟨c, hc, hle⟩ := (requests_within_capacity hreach hr).1 (receipt 0)
    (by simp [hreceipts])
  obtain rfl := Option.some.inj hc
  exact ⟨r, _, hr, hreceipts, hle⟩

/-! ## Everything once -/

/-- The sequences a signer has consumed, oldest first. -/
def History.consumedBy (h : History) (signer : AccountId) : List UInt64 :=
  (h.consumed.filter (·.1 = signer)).map (·.2)

/-- The ids of the settled receipts, oldest first. -/
def History.settledIds (h : History) : List Uint256 := h.settled.map (·.1.receipt.receiptId)

def History.createdIds (h : History) : List Uint256 := h.created.map (·.receiptId)

/-- Each signer has consumed zero, one, two and so on, and the next sequence follows. -/
def History.InSequence (h : History) : Prop :=
  ∀ signer, h.consumedBy signer =
      (List.range (h.consumedBy signer).length).map ofNat ∧
    h.state.nextSequence signer = ofNat (h.consumedBy signer).length

structure History.CreditedOnce (h : History) : Prop where
  nodup : h.credited.Nodup
  consumed : ∀ o ∈ h.credited, o ∈ h.state.consumedDeposits

/-- The receipts of a history whose counter has not wrapped. -/
structure History.ReceiptsOnce (pr : Primitives) (h : History) : Prop where
  seq : h.state.ledger.nextReceiptSeq = ofNat h.created.length
  numbered : ∀ r ∈ h.created, ∃ p : ReceiptPreimage, r.receiptId = pr.receiptHash p ∧
    ∃ k < h.created.length, p.seq = ofNat k
  created : h.createdIds.Nodup
  pending : ∀ id r, h.state.ledger.requests.find? id = some r →
    r ∈ h.created ∧ r.receiptId = id ∧ id ∉ h.settledIds
  settled : h.settledIds.Nodup
  matched : ∀ e ∈ h.settled, ∃ r ∈ h.created.take e.2, r.receiptId = e.1.receipt.receiptId ∧
    r.asset = e.1.receipt.asset ∧ r.amount = e.1.receipt.amount

theorem Effect.inSequence (he : Effect pr h m h') (hi : h.InSequence) : h'.InSequence := by
  have same : ∀ {s' : FlowMeshState}, s'.nextSeq = h.state.nextSeq →
      ({ h with state := s' } : History).InSequence := fun {s'} heq x => by
    have hnext : s'.nextSequence x = h.state.nextSequence x := by
      rw [FlowMeshState.nextSequence, heq, FlowMeshState.nextSequence]
    exact ⟨(hi x).1, hnext.trans (hi x).2⟩
  cases he with
  | quiet hmarks => exact same (congrArg Marks.nextSeq hmarks)
  | credit _ hmarks => exact same (congrArg Marks.nextSeq hmarks)
  | request _ _ _ hmarks => exact same (congrArg Marks.nextSeq hmarks)
  | settle _ _ _ _ hmarks => exact same (congrArg Marks.nextSeq hmarks)
  | @advance _ signer =>
    intro x
    obtain ⟨hlist, hnext⟩ := hi x
    by_cases hx : signer = x
    · subst hx
      have hby : consumedBy { h with
          state := h.state.advanceSequence signer (h.state.nextSequence signer + 1)
          consumed := h.consumed ++ [(signer, h.state.nextSequence signer)] } signer =
          h.consumedBy signer ++ [h.state.nextSequence signer] := by
        simp [consumedBy]
      rw [hby]
      constructor
      · rw [length_append, length_singleton, range_succ, map_append, ← hlist,
          hnext]
        rfl
      · simp only [FlowMeshState.nextSequence, FlowMeshState.advanceSequence,
          find?_insert_self, getD_some, length_append, length_singleton]
        rw [ofNat_add, ← hnext]
        rfl
    · have hby : consumedBy { h with
          state := h.state.advanceSequence signer (h.state.nextSequence signer + 1)
          consumed := h.consumed ++ [(signer, h.state.nextSequence signer)] } x =
          h.consumedBy x := by
        simp [consumedBy, hx]
      rw [hby]
      refine ⟨hlist, ?_⟩
      simp only [FlowMeshState.nextSequence, FlowMeshState.advanceSequence,
        find?_insert, if_neg (Ne.symm hx)]
      exact hnext

theorem Effect.creditedOnce (he : Effect pr h m h') (hc : h.CreditedOnce) : h'.CreditedOnce := by
  have same : ∀ {s' : FlowMeshState}, s'.consumedDeposits = h.state.consumedDeposits →
      ∀ o ∈ h.credited, o ∈ s'.consumedDeposits := fun heq o ho => heq ▸ hc.consumed o ho
  cases he with
  | quiet hmarks => exact ⟨hc.nodup, same (congrArg Marks.consumedDeposits hmarks)⟩
  | @credit _ s' o hnew hmarks =>
    have hset : s'.consumedDeposits = insert o h.state.consumedDeposits :=
      congrArg Marks.consumedDeposits hmarks
    refine ⟨?_, fun p hp => ?_⟩
    · exact nodup_append'.mpr ⟨hc.nodup, nodup_singleton o,
        disjoint_singleton.mpr fun ho => hnew (hc.consumed o ho)⟩
    · simp only [hset, Finset.mem_insert]
      rcases mem_append.mp hp with hp | hp
      · exact .inr (hc.consumed p hp)
      · exact .inl (mem_singleton.mp hp)
  | request _ _ _ hmarks => exact ⟨hc.nodup, same (congrArg Marks.consumedDeposits hmarks)⟩
  | settle _ _ _ _ hmarks => exact ⟨hc.nodup, same (congrArg Marks.consumedDeposits hmarks)⟩
  | advance => exact ⟨hc.nodup, hc.consumed⟩

/-- Until the counter wraps, the next receipt id is new. -/
theorem History.ReceiptsOnce.fresh (hr : h.ReceiptsOnce pr)
    (hinj : Function.Injective pr.receiptHash) (hlen : h.created.length < 2 ^ 64) (x : AccountId)
    (a : AssetId) (d : Int) (dest : Uint256) :
    (h.state.ledger.nextReceipt pr.receiptHash x a d dest).receiptId ∉ h.createdIds := by
  intro hmem
  obtain ⟨r, hr', hid⟩ := mem_map.mp hmem
  obtain ⟨p, hp, k, hk, hseq⟩ := hr.numbered r hr'
  have heq : p.seq = h.state.ledger.nextReceiptSeq :=
    congrArg ReceiptPreimage.seq (hinj (hp.symm.trans hid))
  rw [hseq, hr.seq] at heq
  have := congrArg toNat heq
  rw [toNat_ofNat_of_lt' (hk.trans hlen), toNat_ofNat_of_lt' hlen] at this
  omega

theorem Effect.receiptsOnce (he : Effect pr h m h') (hinj : Function.Injective pr.receiptHash)
    (hlen : h'.created.length ≤ 2 ^ 64) (hr : h.ReceiptsOnce pr) : h'.ReceiptsOnce pr := by
  have same : ∀ {s' : FlowMeshState}, s'.ledger.requests = h.state.ledger.requests →
      s'.ledger.nextReceiptSeq = h.state.ledger.nextReceiptSeq →
      ({ h with state := s' } : History).ReceiptsOnce pr := fun hreq hseq =>
    { hr with seq := hseq.trans hr.seq, pending := fun id r hf => hr.pending id r (hreq ▸ hf) }
  cases he with
  | quiet hmarks =>
    exact same (congrArg Marks.requests hmarks) (congrArg Marks.nextReceiptSeq hmarks)
  | credit _ hmarks =>
    have := same (congrArg Marks.requests hmarks) (congrArg Marks.nextReceiptSeq hmarks)
    exact { this with }
  | advance => exact { hr with }
  | @request s' x a d dest capacity r _ _ hrec hmarks =>
    have hreq : s'.ledger.requests = h.state.ledger.requests.emplace r.receiptId r :=
      congrArg Marks.requests hmarks
    have hseq : s'.ledger.nextReceiptSeq = h.state.ledger.nextReceiptSeq + 1 :=
      congrArg Marks.nextReceiptSeq hmarks
    rw [length_append, length_singleton] at hlen
    have hfresh : r.receiptId ∉ h.createdIds := hrec ▸ hr.fresh hinj (by omega) x a d dest
    have hold : ∀ w ∈ h.settled, w.1.receipt.receiptId ∈ h.createdIds := fun w hw => by
      obtain ⟨q, hq, hid, _⟩ := hr.matched w hw
      exact hid ▸ mem_map_of_mem (mem_of_mem_take hq)
    refine ⟨?_, fun q hq => ?_, ?_, fun id q hq => ?_, hr.settled, fun e he => ?_⟩
    · rw [hseq, hr.seq, length_append, ofNat_add]
      rfl
    · rw [length_append, length_singleton]
      rcases mem_append.mp hq with hq | hq
      · obtain ⟨p, hp, k, hk, hk'⟩ := hr.numbered q hq
        exact ⟨p, hp, k, by omega, hk'⟩
      · obtain rfl := mem_singleton.mp hq
        exact ⟨_, by rw [hrec]; rfl, h.created.length, lt_succ_self _, hr.seq⟩
    · simp only [createdIds, map_append, map_cons, map_nil]
      exact nodup_append'.mpr ⟨hr.created, nodup_singleton _,
        disjoint_singleton.mpr hfresh⟩
    · have hpend : ∀ q, h.state.ledger.requests.find? id = some q →
          q ∈ h.created ++ [r] ∧ q.receiptId = id ∧ id ∉ h.settledIds := fun q hq =>
        ⟨mem_append_left _ (hr.pending id q hq).1, (hr.pending id q hq).2⟩
      simp only [hreq, OrderedMap.emplace] at hq
      split_ifs at hq
      · exact hpend q hq
      · rw [find?_insert] at hq
        split_ifs at hq with hid
        · obtain rfl := some.inj hq
          refine ⟨by simp, hid.symm, fun hmem => ?_⟩
          obtain ⟨w, hw, hwid⟩ := mem_map.mp hmem
          exact hfresh (hid ▸ hwid ▸ hold w hw)
        · exact hpend q hq
    · obtain ⟨q, hq, hmatch⟩ := hr.matched e he
      refine ⟨q, ?_, hmatch⟩
      rw [take_append]
      exact mem_append_left _ hq
  | @settle _ s' f r hfind hid hasset hamount hmarks =>
    have hreq : s'.ledger.requests = h.state.ledger.requests.erase f.receipt.receiptId :=
      congrArg Marks.requests hmarks
    have hseq : s'.ledger.nextReceiptSeq = h.state.ledger.nextReceiptSeq :=
      congrArg Marks.nextReceiptSeq hmarks
    obtain ⟨hmem, _, hnot⟩ := hr.pending _ r hfind
    have hids : settledIds { h with
        state := s', settled := h.settled ++ [(f, h.created.length)] } =
        h.settledIds ++ [f.receipt.receiptId] := by
      simp [settledIds]
    refine ⟨hseq.trans hr.seq, hr.numbered, hr.created, fun id q hq => ?_, ?_, fun e he => ?_⟩
    · simp only [hreq, find?_erase] at hq
      split_ifs at hq with hne
      obtain ⟨hq1, hq2, hq3⟩ := hr.pending id q hq
      refine ⟨hq1, hq2, ?_⟩
      rw [hids, mem_append, not_or]
      exact ⟨hq3, fun h => hne (mem_singleton.mp h)⟩
    · rw [hids]
      exact nodup_append'.mpr ⟨hr.settled, nodup_singleton _,
        disjoint_singleton.mpr hnot⟩
    · rcases mem_append.mp he with he | he
      · exact hr.matched e he
      · obtain rfl := mem_singleton.mp he
        exact ⟨r, by simpa using hmem, hid, hasset, hamount⟩

theorem Effect.created_le (he : Effect pr h m h') : h.created.length ≤ h'.created.length := by
  cases he <;> simp

/-- In every run of moves, everything happens once while the receipt counter does not wrap. -/
theorem run_once {cfg : MarketConfig} {moves : List Move} (hinj : Function.Injective pr.receiptHash)
    (hrun : Run (move pr) { state := .new cfg } moves h) :
    StateOk h.state ∧ h.InSequence ∧ h.CreditedOnce ∧
      (h.created.length ≤ 2 ^ 64 → h.ReceiptsOnce pr) := by
  induction hrun with
  | start =>
    refine ⟨new_ok cfg, fun _ => ⟨rfl, rfl⟩, ⟨nodup_nil, by simp⟩, fun _ => ?_⟩
    exact ⟨rfl, by simp, nodup_nil, fun id r hf => (by cases hf), nodup_nil, by simp⟩
  | next _ hm ih =>
    obtain ⟨hok, hseq, hcred, hrec⟩ := ih
    have he := move_effect hok hm
    exact ⟨move_ok hok hm, he.inSequence hseq, he.creditedOnce hcred, fun hlen =>
      he.receiptsOnce hinj hlen (hrec (he.created_le.trans hlen))⟩

theorem History.InSequence.nodup (hi : h.InSequence) (hlen : h.consumed.length ≤ 2 ^ 64) :
    h.consumed.Nodup := by
  rw [nodup_iff_count_le_one]
  rintro ⟨x, q⟩
  have hcount : h.consumed.count (x, q) = (h.consumedBy x).count q := by
    rw [consumedBy, List.count, List.count, countP_map, countP_filter]
    refine countP_congr fun e _ => ?_
    simp [Prod.ext_iff, and_comm]
  have hby : (h.consumedBy x).length ≤ 2 ^ 64 := by
    rw [consumedBy, length_map]
    exact (length_filter_le _ _).trans hlen
  have hnodup : (h.consumedBy x).Nodup := by
    rw [(hi x).1]
    refine List.Nodup.map_on (fun i hi j hj heq => ?_) nodup_range
    have := congrArg toNat heq
    rwa [toNat_ofNat_of_lt' ((mem_range.mp hi).trans_le hby),
      toNat_ofNat_of_lt' ((mem_range.mp hj).trans_le hby)] at this
  rw [hcount]
  exact nodup_iff_count_le_one.mp hnodup q

/-! A slot consumes at most one sequence per action. -/

theorem sortActions_groups (canonical : List Action) (x : Sorted) :
    (canonical.foldl Sorted.add x).groups.size ≤ x.groups.size + canonical.length := by
  induction canonical generalizing x with
  | nil => simp
  | cons a rest ih =>
    have hadd : (x.add a).groups.size ≤ x.groups.size + 1 := by
      have hinsert : ∀ group, (x.groups.insert a.key group).size ≤ x.groups.size + 1 := by
        intro group
        rw [OrderedMap.size, (insert_perm _ _ _).length_eq, length_cons]
        exact succ_le_succ (length_filter_le _ _)
      unfold Sorted.add
      split_ifs
      · exact le_succ _
      · exact hinsert _
      · exact le_succ _
    have := ih (x.add a)
    rw [foldl_cons, length_cons]
    omega

theorem executeActions_consumed (x : SlotContext) (s : FlowMeshState) (canonical : List Action) :
    (x.executeActions C s canonical).consumed.length ≤ canonical.length := by
  have hcredit : ∀ (l : List Action) (slot : Slot),
      (l.foldl (x.creditOne C.toDigests) slot).consumed = slot.consumed := by
    intro l
    induction l with
    | nil => exact fun _ => rfl
    | cons a l ih =>
      intro slot
      rw [foldl_cons, ih]
      unfold SlotContext.creditOne
      split <;> rfl
  have hexecute : ∀ (l : List Action) (slot : Slot),
      (l.foldl (x.executeOne C) slot).consumed.length ≤ slot.consumed.length + l.length := by
    intro l
    induction l with
    | nil => simp
    | cons a l ih =>
      intro slot
      have hone : (x.executeOne C slot a).consumed.length ≤ slot.consumed.length + 1 := by
        simp only [SlotContext.executeOne]
        split_ifs
        · exact le_succ _
        · split <;> simp
      have := ih (x.executeOne C slot a)
      rw [foldl_cons, length_cons]
      omega
  have hsurvivors : (sortActions canonical).survivors.length ≤ canonical.length := by
    refine (length_filterMap_le _ _).trans ?_
    exact (sortActions_groups canonical {}).trans_eq (zero_add _)
  unfold SlotContext.executeActions
  refine (hexecute _ _).trans ?_
  rw [hcredit]
  simpa using hsurvivors

theorem SlotCall.consumed_length (s : FlowMeshState) (c : SlotCall) :
    (c.consumed C s).length ≤ c.actions.length := by
  unfold SlotCall.consumed
  split_ifs
  · exact zero_le _
  · refine (executeActions_consumed _ _ _).trans ?_
    unfold canonicalizeActions
    refine (destutter_sublist _ _).length_le.trans ?_
    simp

/-- Slots are runs of moves, with no more sequences consumed than actions offered. -/
theorem execute_run_moves {h₀ : History} {calls : List SlotCall}
    (hrun : Run (execute C) h₀ calls h) :
    (∃ moves, Run (move C.toPrimitives) h₀ moves h) ∧
      h.consumed.length ≤ h₀.consumed.length + (calls.map (·.actions.length)).sum := by
  induction hrun with
  | start => exact ⟨⟨[], .start⟩, by simp⟩
  | @next calls g g' c _ hc ih =>
    obtain ⟨⟨ms, hms⟩, hlen⟩ := ih
    obtain ⟨ms', hms', _⟩ := execute_moves hc
    refine ⟨⟨ms' ++ ms, hms.trans hms'⟩, ?_⟩
    obtain ⟨y, _, rfl⟩ := map_eq_some_iff.mp hc
    have := c.consumed_length (C := C) g.state
    simp only [length_append, map_cons, sum_cons]
    omega

/-- No action is applied twice: over a run of slots from any reachable state, with fewer than
`2 ^ 64` actions and withdrawal requests since the market began. -/
theorem applied_at_most_once {cfg : MarketConfig} {moves : List Move} {h₀ : History}
    {calls : List SlotCall} (hinj : Function.Injective C.receiptHash)
    (hreach : Run (move C.toPrimitives) { state := .new cfg } moves h₀)
    (hrun : Run (execute C) h₀ calls h)
    (hactions : h₀.consumed.length + (calls.map (·.actions.length)).sum < 2 ^ 64)
    (hrequests : h.created.length < 2 ^ 64) : h.consumed.Nodup ∧
    (∀ signer, h.consumedBy signer =
        (List.range (h.consumedBy signer).length).map ofNat ∧
      h.state.nextSequence signer = ofNat (h.consumedBy signer).length) ∧
    h.credited.Nodup ∧ h.createdIds.Nodup ∧ h.settledIds.Nodup ∧
    ∀ e ∈ h.settled, ∃ r ∈ h.created.take e.2, r.receiptId = e.1.receipt.receiptId ∧
      r.asset = e.1.receipt.asset ∧ r.amount = e.1.receipt.amount := by
  obtain ⟨⟨ms, hms⟩, hlen⟩ := execute_run_moves hrun
  obtain ⟨_, hseq, hcred, hrec⟩ := run_once hinj (hreach.trans hms)
  have honce := hrec hrequests.le
  exact ⟨hseq.nodup (by omega), hseq, hcred.nodup, honce.created, honce.settled, honce.matched⟩

namespace Sample

variable {k n : Nat} {b : Int}

theorem Resting.round (actions : List Action) {done : Slot}
    (hdone : context.executeActions crypto h.state
      (canonicalizeActions crypto.toDigests actions) = done)
    (hrest : Resting k b n done.state) (hnone : done.requests = []) (hb : 0 < b) :
    ∃ h', Run (execute crypto) h
        [⟨context, [], [fact k]⟩, ⟨context, actions, []⟩] h' ∧
      Resting (k + 1) (b - 1) n h'.state ∧ h'.created = h.created ++ [receipt k] := by
  obtain ⟨r, l, t, hr, hreceipts, hsettle, ht⟩ := Resting.payout hdone hrest hnone hb
  obtain ⟨h1, hfirst, hstate, hcreated⟩ :=
    execute_of_some (c := ⟨context, actions, []⟩) hr
  obtain ⟨r', hr', hreceipts'⟩ : ∃ r', executeSlot crypto context h1.state [] [fact k] =
      some (r', t) ∧ r'.withdrawalRequests = [] := by
    rw [hstate]
    simp only [executeSlot, ne_eq, cons_ne_nil, not_false_eq_true, ↓reduceIte, hsettle]
    exact ⟨_, rfl, rfl⟩
  obtain ⟨h2, hsecond, hstate', hcreated'⟩ :=
    execute_of_some (c := ⟨context, [], [fact k]⟩) hr'
  refine ⟨h2, (Run.start.next hfirst).next hsecond, hstate' ▸ ht, ?_⟩
  rw [hcreated', hcreated, hreceipts, hreceipts', append_nil]

/-- After `k` payouts and `n` deposits, each receipt in its turn. -/
def Paid (k : Nat) (b : Int) (n : Nat) : Prop :=
  ∃ calls h, Run (execute crypto) { state := .new config } calls h ∧
    Resting k b n h.state ∧ h.created = (List.range k).map receipt ∧
    (calls.map (·.actions.length)).sum = n

theorem Paid.pay (hp : Paid k b n) (hb : 0 < b) : Paid (k + 1) (b - 1) n := by
  obtain ⟨calls, h, hrun, hrest, hcreated, hsum⟩ := hp
  obtain ⟨h', hrun', hrest', hcreated'⟩ :=
    Resting.round (h := h) [] rfl hrest rfl hb
  refine ⟨_, h', hrun.trans hrun', hrest', ?_, by simpa using hsum⟩
  rw [hcreated', hcreated, range_succ, map_append]
  rfl

theorem Paid.refill (hp : Paid k 0 n) : Paid (k + 1) (2 ^ 59 - 1) (n + 1) := by
  obtain ⟨calls, h, hrun, hrest, hcreated, hsum⟩ := hp
  obtain ⟨s', hs', hrest'⟩ := hrest.deposit
  have hnew : (⟨n, 0⟩ : COutPoint) ∉ h.state.consumedDeposits :=
    fun ho => absurd (hrest.outpoints _ ho) (lt_irrefl n)
  obtain ⟨h', hrun', hrest'', hcreated'⟩ :=
    Resting.round _ (executeActions_deposit n hnew hs') hrest' rfl (by decide)
  refine ⟨_, h', hrun.trans hrun', hrest'', ?_, by simp [hsum, add_comm]⟩
  rw [hcreated', hcreated, range_succ, map_append]
  rfl

theorem Paid.spend (hp : Paid k b n) (j : Nat) (hj : j ≤ b) : Paid (k + j) (b - j) n := by
  induction j with
  | zero => simpa using hp
  | succ j ih =>
    have := (ih (by omega)).pay (by omega)
    rwa [show b - (j + 1 : Nat) = b - j - 1 by omega, ← add_assoc]

theorem paid (n : Nat) : Paid (n * 2 ^ 59) 0 n := by
  induction n with
  | zero => exact ⟨[], _, .start, new_resting, rfl, rfl⟩
  | succ n ih =>
    have := ih.refill.spend (2 ^ 59 - 1) (by decide)
    rwa [show (n * 2 ^ 59 + 1 + (2 ^ 59 - 1) : Nat) = (n + 1) * 2 ^ 59 by omega,
      show (2 ^ 59 - 1 - ((2 ^ 59 - 1 : Nat) : Int) : Int) = 0 by decide] at this

theorem receipt_wraps : receipt (2 ^ 64) = receipt 0 := by
  have hseq : ofNat (2 ^ 64) = ofNat 0 := rfl
  have hslot : ofNat (2 ^ 64 + 1) = ofNat (0 + 1) := rfl
  simp [receipt]

end Sample

theorem sample_applied_once : ∃ calls h,
    Run (execute crypto) { state := .new config } calls h ∧
      h.created = [receipt 0] ∧ h.credited.Nodup ∧ h.createdIds.Nodup := by
  obtain ⟨calls, h, hrun, _, hcreated, hsum⟩ := (paid 0).refill
  have honce := applied_at_most_once (C := crypto) receiptHash_injective .start hrun
    (by rw [hsum]; decide) (by rw [hcreated]; decide)
  exact ⟨calls, h, hrun, hcreated, honce.2.2.1, honce.2.2.2.1⟩

/-- A treasury that is paid one unit in every slot repeats a receipt id after `2 ^ 64` slots, with
33 actions in all. -/
theorem receipt_created_twice : ∃ C : BatchCrypto, ∃ cfg calls h,
    Function.Injective C.receiptHash ∧ Run (execute C) { state := .new cfg } calls h ∧
      (calls.map (·.actions.length)).sum < 2 ^ 64 ∧ ¬ h.createdIds.Nodup := by
  obtain ⟨calls, h, hrun, _, hcreated, hsum⟩ := (paid 32).refill
  refine ⟨crypto, config, calls, h, receiptHash_injective, hrun,
    by rw [hsum]; decide, fun hnodup => ?_⟩
  rw [createdIds, hcreated, List.map_map] at hnodup
  have := inj_on_of_nodup_map hnodup (x := 0) (y := 2 ^ 64) (by simp) (by simp)
    (congrArg WithdrawalReceipt.receiptId receipt_wraps.symm)
  exact absurd this (by decide)

end B3Coin.FlowMesh
