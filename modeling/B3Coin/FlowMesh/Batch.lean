import B3Coin.FlowMesh.Action
import B3Coin.FlowMesh.Solvency

/-!
# Executing a slot

`BatchExecutor` of `flowmesh/batch.h`. The candidate actions are reduced to their
canonical form, deposits are credited in outpoint order, the signed survivors run in
(signer, sequence) order, the book clears once and the treasury is paid. A slot with
settlements does nothing else. The verifier is a pure function, so the capacity
cache of the source only repeats its answers and is left out. The root and
commitment hashes are parameters.
-/
namespace B3Coin.FlowMesh

open Ledger

/-! ## The canonical body -/

/-- `CanonicalizeActions`: no credentials, stably sorted, one action per id. -/
def canonicalizeActions (D : Digests) (actions : List Action) : List Action :=
  (((actions.map fun a => { a with credential := [] }).insertionSort
    fun a b => b.canonicalLess D a = false).destutter fun a b => a.id D ≠ b.id D)

inductive ActionReject where
  | UNAUTHENTICATED | EQUIVOCATION | BAD_SEQUENCE | REJECTED_BY_STATE | MALFORMED
  deriving DecidableEq

/-- The consensus numbering of the reasons. -/
def ActionReject.toByte : ActionReject → UInt8
  | .UNAUTHENTICATED => 0
  | .EQUIVOCATION => 1
  | .BAD_SEQUENCE => 2
  | .REJECTED_BY_STATE => 3
  | .MALFORMED => 4

/-- The order `std::sort` gives rejections: by id, then by reason. -/
def rejectLe (a b : Uint256 × ActionReject) : Bool :=
  a.1 < b.1 || (a.1 == b.1 && a.2.toByte ≤ b.2.toByte)

/-- The position of an action in `std::map<std::pair<AccountId, uint64_t>, …>`. -/
def Action.key (a : Action) : Lex (Nat × Nat) := toLex (a.signer, a.sequence.toNat)

/-- The canonical body sorted into malformed actions, deposits and signed groups. -/
structure Sorted where
  malformed : List Action := []
  deposits : OrderedMap (Lex (Nat × Nat)) Action := ∅
  groups : OrderedMap (Lex (Nat × Nat)) (List Action) := ∅

def Sorted.add (x : Sorted) (a : Action) : Sorted :=
  if ¬ a.shapeIsCanonicalSansCredential then { x with malformed := x.malformed ++ [a] }
  else if a.isDeposit then { x with deposits := x.deposits.emplace a.outpoint.key a }
  else { x with groups := x.groups.insert a.key ((x.groups.find? a.key).getD [] ++ [a]) }

def sortActions (canonical : List Action) : Sorted := canonical.foldl Sorted.add {}

/-- Groups of more than one action; none of them is executed. -/
def Sorted.equivocations (x : Sorted) : List Action :=
  x.groups.entries.flatMap fun e => if e.2.length > 1 then e.2 else []

/-- The actions alone in their group, by signer and sequence. -/
def Sorted.survivors (x : Sorted) : List Action :=
  x.groups.entries.filterMap fun e => if e.2.length > 1 then none else e.2.head?

/-! ## Chain facts and results -/

structure DepositInfo where
  asset : AssetId
  amount : Int
  account : AccountId
  deriving DecidableEq

/-- `DepositVerifier`: facts of the base chain at an anchor. -/
structure DepositVerifier where
  getDeposit : COutPoint → AnchorRef → Option DepositInfo
  getWithdrawalCapacity : AssetId → AnchorRef → Option Int
  getWithdrawalSettlements : Option AnchorRef → AnchorRef → Option (List WithdrawalSettlementFact)

structure CreditedDeposit where
  outpoint : COutPoint
  account : AccountId
  asset : AssetId
  amount : Int
  deriving DecidableEq

structure AccountWithdrawalRequest where
  account : AccountId
  request : WithdrawalReceipt
  deriving DecidableEq

structure BatchResult where
  slot : UInt64
  applied : List Uint256 := []
  rejected : List (Uint256 × ActionReject) := []
  withdrawalRequests : List WithdrawalReceipt := []
  settledWithdrawals : List WithdrawalSettlementFact := []
  creditedDeposits : List CreditedDeposit := []
  accountWithdrawalRequests : List AccountWithdrawalRequest := []
  requestRoot : Uint256
  stateRoot : Uint256
  resultCommitment : Uint256
  clearing : ClearingResult := {}
  deriving DecidableEq

/-- The hashes of actions, receipts and slot results. -/
structure BatchCrypto extends Digests, Primitives where
  requestRoot : UInt64 → List WithdrawalReceipt → Uint256
  stateRoot : FlowMeshState → Uint256
  settlementResult : UInt64 → List WithdrawalSettlementFact → Uint256
  execResult : UInt64 → List Uint256 → List (Uint256 × ActionReject) → Uint256 →
    ClearingResult → Uint256

/-! ## Deposits and signed actions -/

/-- A slot under execution. `consumed` records the calls of `AdvanceSequence`; the source keeps
no such list. -/
structure Slot where
  state : FlowMeshState
  applied : List Uint256 := []
  rejected : List (Uint256 × ActionReject) := []
  creditedDeposits : List CreditedDeposit := []
  requests : List AccountWithdrawalRequest := []
  consumed : List (AccountId × UInt64) := []

/-- What a slot is executed against. -/
structure SlotContext where
  anchor : AnchorRef := {}
  deposits : Option DepositVerifier := none
  fee : Option FlowMeshFeeContext := none

namespace SlotContext

section

variable (C : BatchCrypto) (x : SlotContext) (pr : Primitives) (s : FlowMeshState)

/-- `withdrawal_capacity`. -/
def capacity (asset : AssetId) : Option Int :=
  x.deposits.bind fun v => v.getWithdrawalCapacity asset x.anchor

/-- `request_withdrawal`. -/
def requestWithdrawal (x : SlotContext) (pr : Primitives) (s : FlowMeshState)
    (account : AccountId) (asset : AssetId) (amount : Int) (destination : Uint256) :
    Option (WithdrawalReceipt × FlowMeshState) :=
  (x.capacity asset).bind fun c => s.requestWithdrawal pr account asset amount destination c

/-- `ApplyDeposit`. -/
def applyDeposit (a : Action) : Option (DepositInfo × FlowMeshState) :=
  x.deposits.bind fun v =>
    if a.outpoint ∈ s.consumedDeposits then none
    else (v.getDeposit a.outpoint x.anchor).bind fun info =>
      (s.creditDeposit a.outpoint info.account info.asset info.amount).map fun s' => (info, s')

/-- One turn of the deposit loop. -/
def creditOne (D : Digests) (x : SlotContext) (slot : Slot) (a : Action) : Slot :=
  match x.applyDeposit slot.state a with
  | some (info, s') =>
    { slot with
      state := s'
      creditedDeposits := slot.creditedDeposits ++
        [⟨a.outpoint, info.account, info.asset, info.amount⟩]
      applied := slot.applied ++ [a.id D] }
  | none => { slot with rejected := slot.rejected ++ [(a.id D, .REJECTED_BY_STATE)] }

/-- The `switch` over the action type; `none` is `ok == false`. -/
def applyAction (x : SlotContext) (s : FlowMeshState) (a : Action) :
    Option (FlowMeshState × Option WithdrawalReceipt) :=
  match ActionType.ofByte a.type with
  | some .SUBMIT_BID => (s.submitCurve a.signer .BID a.curve).map (·, none)
  | some .SUBMIT_ASK => (s.submitCurve a.signer .ASK a.curve).map (·, none)
  | some .CANCEL_BID => (s.cancelCurve a.signer .BID).map (·, none)
  | some .CANCEL_ASK => (s.cancelCurve a.signer .ASK).map (·, none)
  | some .WITHDRAW | some .CLAIM_SEAT_REWARD =>
    (x.requestWithdrawal pr s a.signer a.asset a.amount a.destination).map fun y =>
      (y.2, some y.1)
  | some .DEPOSIT | some .SPOT_TO_FUTURES | some .FUTURES_TO_SPOT | none => none

/-- One turn of the signed loop: a matching sequence is consumed whatever the state says. -/
def executeOne (slot : Slot) (a : Action) : Slot :=
  let id := a.id C.toDigests
  if a.sequence ≠ slot.state.nextSequence a.signer then
    { slot with rejected := slot.rejected ++ [(id, .BAD_SEQUENCE)] }
  else
    let consumed := slot.consumed ++ [(a.signer, a.sequence)]
    match x.applyAction C.toPrimitives slot.state a with
    | some (s', request) =>
      { slot with
        state := s'.advanceSequence a.signer (a.sequence + 1)
        applied := slot.applied ++ [id]
        requests := slot.requests ++ (request.map fun r => ⟨a.signer, r⟩).toList
        consumed := consumed }
    | none =>
      { slot with
        state := slot.state.advanceSequence a.signer (a.sequence + 1)
        rejected := slot.rejected ++ [(id, .REJECTED_BY_STATE)]
        consumed := consumed }

/-- Everything before the clearing pass. -/
def executeActions (canonical : List Action) : Slot :=
  let sorted := sortActions canonical
  let refused := (sorted.malformed.map fun a => (a.id C.toDigests, ActionReject.MALFORMED)) ++
    sorted.equivocations.map fun a => (a.id C.toDigests, .EQUIVOCATION)
  let credited := (sorted.deposits.entries.map (·.2)).foldl (x.creditOne C.toDigests)
    { state := s, rejected := refused }
  sorted.survivors.foldl (x.executeOne C) credited

/-! ## Clearing and the treasury -/

/-- What the treasury may be paid now: its balance, up to the capacity left. -/
def treasuryAmount (c : FlowMeshFeeContext) (s : FlowMeshState) : Int :=
  let accrued := s.ledger.available (c.treasuryAccount pr) NativeAsset
  match x.capacity NativeAsset with
  | none => 0
  | some capacity =>
    let pending := s.ledger.pendingWithdrawals NativeAsset
    if accrued > 0 ∧ pending ≤ capacity then min accrued (capacity - pending) else 0

/-- The automatic payout after the clearing pass; `none` is fatal. -/
def payTreasury (treasuryFee : Int) : Option (Option AccountWithdrawalRequest × FlowMeshState) :=
  match x.fee.filter (·.isCanonical pr) with
  | none => if treasuryFee > 0 then none else some (none, s)
  | some c =>
    if x.treasuryAmount pr c s > 0 then
      (x.requestWithdrawal pr s (c.treasuryAccount pr) NativeAsset (x.treasuryAmount pr c s)
        c.treasuryOwnerCommitment).map fun y => (some ⟨c.treasuryAccount pr, y.1⟩, y.2)
    else some (none, s)

end

end SlotContext

/-! ## Settlements -/

/-- The settlement loop: strictly ascending receipts, each retired from the ledger. -/
def settleAll : Option Uint256 → List WithdrawalSettlementFact → FlowMeshState →
    Option FlowMeshState
  | _, [], s => some s
  | previous, f :: rest, s =>
    if previous.any (fun p => ¬ p < f.receipt.receiptId) then none
    else (s.consumeWithdrawalSettlement f).bind (settleAll (some f.receipt.receiptId) rest)

/-- `ExecuteSlot`. `none` is the fatal `nullopt`, after which the caller discards its copy of
the state. -/
def executeSlot (C : BatchCrypto) (x : SlotContext) (s : FlowMeshState) (actions : List Action)
    (settlements : List WithdrawalSettlementFact) : Option (BatchResult × FlowMeshState) :=
  let canonical := canonicalizeActions C.toDigests actions
  let slot := s.ledger.slot
  if settlements ≠ [] then
    if canonical ≠ [] then none
    else (settleAll none settlements s).map fun s' =>
      ({ slot := slot
         settledWithdrawals := settlements
         requestRoot := C.requestRoot slot []
         stateRoot := C.stateRoot s'
         resultCommitment := C.settlementResult slot settlements }, s')
  else
    let done := x.executeActions C s canonical
    let rejected := done.rejected.insertionSort fun a b => rejectLe a b
    (done.state.clearSlot C.toPrimitives x.fee).bind fun cleared =>
      (x.payTreasury C.toPrimitives cleared.2 cleared.1.fees.treasuryFee).map fun paid =>
        let requests := done.requests ++ paid.1.toList
        let receipts := requests.map (·.request)
        let root := C.requestRoot slot receipts
        ({ slot := slot
           applied := done.applied
           rejected := rejected
           withdrawalRequests := receipts
           creditedDeposits := done.creditedDeposits
           accountWithdrawalRequests := requests
           requestRoot := root
           stateRoot := C.stateRoot paid.2
           resultCommitment := C.execResult slot done.applied rejected root cleared.1
           clearing := cleared.1 }, paid.2)

end B3Coin.FlowMesh
