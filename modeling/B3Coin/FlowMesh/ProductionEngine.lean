import B3Coin.FlowMesh.Batch
import B3Coin.FlowMesh.Seats

/-!
# The production engine

`flowmesh/production_engine.cpp`: what a slot's result means on chain (its effects),
the checks of anchors, seats and the epoch gate, and the two functions that produce an
execution entry and execute a received one. An error is the `check` the source
reports beside `nullopt`.
-/
namespace B3Coin.FlowMesh

open Codec Guards

def FLOWMESH_PRODUCTION_MIN_ANCHOR_DEPTH : Int := 30
def FLOWMESH_MAX_WITHDRAWAL_SETTLEMENTS_PER_ENTRY : Nat := 4096

/-- The hashes of the engine, each over the bytes its tag is hashed with. -/
structure EngineCrypto extends BatchCrypto where
  seats : SeatCrypto
  effects : EffectHashes
  vaultId : Bytes → VaultId
  vaultShard : Bytes → Uint256
  withdrawalShard : Bytes → Uint256
  acceptanceId : Bytes → Uint256
  resultRoot : Bytes → Uint256
  stateRoot_lt : ∀ s, stateRoot s < 2 ^ 256
  resultRoot_lt : ∀ m, resultRoot m < 2 ^ 256
  effectRoot_lt : ∀ start count top, effects.root start count top < 2 ^ 256
  /-- `EmptyFlowMeshEffectRoot` is the root of the empty tree. -/
  emptyEffectRoot_eq : ∀ start, emptyEffectRoot start = effects.root start 0 effects.empty

/-! ## Effects -/

section Effects

variable (C : EngineCrypto)

/-- The hash of `ComputeFlowMeshVaultId`. -/
def vaultHash (domain : Uint256) (marketId : MarketId) : VaultId :=
  C.vaultId (uint256.put domain ++ uint256.put marketId)

/-- `ReadLE16(digest.begin()) % 256`. -/
def shardOfDigest (digest : Uint256) : UInt16 :=
  UInt16.ofNat (leValue ((uint256.put digest).take 2) % 256)

/-- `FlowMeshUserDepositShard`. -/
def EngineCrypto.flowMeshUserDepositShard (vaultId : VaultId) (account : AccountId) : UInt16 :=
  shardOfDigest (C.vaultShard (uint256.put vaultId ++ uint256.put account))

/-- `ComputeProductionWithdrawalChangeShard`. -/
def computeProductionWithdrawalChangeShard (vaultId : VaultId) (receiptId : Uint256) : UInt16 :=
  if vaultId = 0 ∨ receiptId = 0 then 0
  else shardOfDigest (C.withdrawalShard (uint256.put vaultId ++ uint256.put receiptId))

/-- `ComputeProductionDepositAcceptanceId`. -/
def computeProductionDepositAcceptanceId (d : FlowMeshDepositAcceptance) : Uint256 :=
  C.acceptanceId (uint256.put d.marketId ++ u64BE.put d.epoch ++ u64BE.put d.sequence ++
    uint256.put d.depositOutpoint.hash ++ u32BE.put d.depositOutpoint.n ++ uint256.put d.account ++
    uint256.put d.asset ++ (natBE 8).put d.amount.toNat ++ u16BE.put d.shard ++
    uint256.put d.vaultId)

/-- `SameWithdrawalRequest`, over all fields of a receipt. -/
def sameWithdrawalRequest (a b : WithdrawalReceipt) : Bool := a == b

/-- An effect that can be encoded. -/
def encodable (effect : FlowMeshEffect) : Option FlowMeshEffect := effect.encode.map fun _ => effect

/-- The body of the loop over the credited deposits. -/
def deriveDeposit (e : ProductionEntryCore) (vault : VaultId) (c : CreditedDeposit) :
    Option FlowMeshEffect :=
  if c.outpoint.isNull ∨ c.account = 0 ∨ validAmount c.amount = false then none
  else
    let d : FlowMeshDepositAcceptance :=
      { acceptanceId := 0, marketId := e.marketId, epoch := e.epoch, sequence := e.sequence
        depositOutpoint := c.outpoint, account := c.account, asset := c.asset, amount := c.amount
        vaultId := vault, shard := C.flowMeshUserDepositShard vault c.account }
    encodable (.deposit { d with acceptanceId := computeProductionDepositAcceptanceId C d })

/-- The body of the loop over the withdrawal requests. -/
def deriveWithdrawal (e : ProductionEntryCore) (vault : VaultId)
    (x : AccountWithdrawalRequest × WithdrawalReceipt) : Option FlowMeshEffect :=
  let request := x.1.request
  if sameWithdrawalRequest request x.2 = false ∨ x.1.account = 0 ∨ request.receiptId = 0 ∨
      validAmount request.amount = false ∨ request.destination = 0 ∨
      request.vaultCommitment ≠ vault then none
  else encodable (.withdrawal
    { receiptId := request.receiptId, marketId := e.marketId, epoch := e.epoch
      sequence := e.sequence, account := x.1.account, asset := request.asset
      amount := request.amount, destinationOwnerCommitment := request.destination
      vaultId := vault
      deterministicChangeShard := computeProductionWithdrawalChangeShard C vault request.receiptId })

/-- `DeriveProductionEffects`: deposits first, then withdrawals. -/
def deriveProductionEffects (e : ProductionEntryCore) (r : BatchResult) :
    Option (List FlowMeshEffect) :=
  if e.kind ≠ EXECUTION ∨ e.domain = 0 ∨ e.marketId = 0 ∨
      r.withdrawalRequests.length ≠ r.accountWithdrawalRequests.length then none
  else do
    let vault ← computeFlowMeshVaultId (vaultHash C) e.domain e.marketId
    let deposits ← r.creditedDeposits.mapM (deriveDeposit C e vault)
    let withdrawals ← (r.accountWithdrawalRequests.zip r.withdrawalRequests).mapM
      (deriveWithdrawal C e vault)
    let effects := deposits ++ withdrawals
    if effects.length > FLOWMESH_MAX_CHECKPOINT_EFFECTS then none else some effects

/-- `ComputeProductionExecutionResultRoot`. -/
def computeProductionExecutionResultRoot (batchResultCommitment : Uint256)
    (effects : List FlowMeshEffect) : Option Uint256 :=
  if batchResultCommitment = 0 ∨ effects.length > FLOWMESH_MAX_CHECKPOINT_EFFECTS then none
  else (effects.mapM FlowMeshEffect.encode).map fun encoded =>
    C.resultRoot (uint256.put batchResultCommitment ++ (natBE 8).put effects.length ++
      encoded.flatMap fun b => (natBE 4).put b.length ++ b)

end Effects

/-! ## Anchors -/

/-- `AnchorPolicy`. -/
structure AnchorPolicy where
  acceptable : AnchorRef → Bool
  stillCanonical : AnchorRef → Bool

structure ProductionAnchorContext where
  b3TipHeight : Int := -1
  previousAnchor : Option AnchorRef := none
  policy : Option AnchorPolicy := none

inductive ProductionAnchorCheck where
  | OK | NULL_ANCHOR | FUTURE_ANCHOR | NOT_DEEP_ENOUGH | NON_MONOTONIC
  | SAME_HEIGHT_DIFFERENT_HASH | NOT_CANONICAL | POLICY_REJECTED
  deriving DecidableEq

/-- `CheckProductionAnchor`. -/
def checkProductionAnchor (anchor : AnchorRef) (x : ProductionAnchorContext) :
    ProductionAnchorCheck :=
  if anchor.height < 0 ∨ anchor.hash = 0 then .NULL_ANCHOR
  else if x.b3TipHeight < anchor.height then .FUTURE_ANCHOR
  else if x.b3TipHeight - anchor.height < FLOWMESH_PRODUCTION_MIN_ANCHOR_DEPTH then .NOT_DEEP_ENOUGH
  else if x.previousAnchor.any fun p => anchor.height < p.height then .NON_MONOTONIC
  else if x.previousAnchor.any fun p => anchor.height == p.height && anchor.hash != p.hash then
    .SAME_HEIGHT_DIFFERENT_HASH
  else if (x.policy.any fun p => p.stillCanonical anchor) = false then .NOT_CANONICAL
  else if (x.policy.any fun p => p.acceptable anchor) = false then .POLICY_REJECTED
  else .OK

/-- `SeatSetAnchor`. -/
def seatSetAnchor (seats : ActiveFnBlsSeatSet) : Option AnchorRef :=
  if seats.anchorHeight.toNat > 2 ^ 31 - 1 ∨ seats.anchorHash = 0 then none
  else some ⟨seats.anchorHeight.toNat, seats.anchorHash⟩

/-- `CheckSeatAnchor`. -/
def checkSeatAnchor (seats : ActiveFnBlsSeatSet) (entryAnchor : AnchorRef)
    (x : ProductionAnchorContext) : ProductionEntryCheck :=
  match seatSetAnchor seats with
  | none => .BAD_ANCHOR
  | some a =>
    if a.height > entryAnchor.height then .BAD_ANCHOR
    else if checkProductionAnchor a { x with previousAnchor := none } = .OK then .OK
    else .BAD_ANCHOR

/-! ## Seats and the epoch gate -/

/-- A handoff that waits for its block. -/
structure PendingHandoff where
  handoffHash : Uint256
  nextEpoch : UInt64
  nextSetHash : Uint256
  deriving DecidableEq

structure ProductionEpochGate where
  domain : Uint256
  marketId : MarketId
  activeEpoch : UInt64
  activeSetHash : Uint256
  valid : Bool
  paused : Bool := false
  pending : Option PendingHandoff := none
  deriving DecidableEq

section Gate

variable (C : EngineCrypto)

/-- `CanExecute`. -/
def ProductionEpochGate.canExecute (g : ProductionEpochGate) (seats : ActiveFnBlsSeatSet) : Bool :=
  g.valid && !g.paused && g.pending.isNone && seats.epoch == g.activeEpoch &&
    seats.marketId == g.marketId && seats.setHash == g.activeSetHash &&
    decide (checkActiveFnBlsSeatSet C.seats g.domain seats = .OK)

/-- `CheckActiveSeatContext`. -/
def checkActiveSeatContext (domain : Uint256) (marketId : MarketId) (epoch : UInt64)
    (setHash : Uint256) (seats : ActiveFnBlsSeatSet) : Except ProductionEntryCheck Unit := do
  reject (checkActiveFnBlsSeatSet C.seats domain seats ≠ .OK) .INVALID_SEAT_SET
  reject (seats.marketId ≠ marketId) .WRONG_MARKET
  reject (seats.epoch ≠ epoch) .WRONG_EPOCH
  reject (seats.setHash ≠ setHash) .WRONG_SEAT_SET

/-- `BuildProductionFlowMeshFeeContext`. -/
def buildProductionFlowMeshFeeContext (domain : Uint256) (seats : ActiveFnBlsSeatSet)
    (treasuryOwnerCommitment : Uint256) : Option FlowMeshFeeContext :=
  if treasuryOwnerCommitment = 0 ∨ checkActiveFnBlsSeatSet C.seats domain seats ≠ .OK then none
  else
    let context : FlowMeshFeeContext :=
      { marketId := seats.marketId, epoch := seats.epoch, treasuryOwnerCommitment
        seats := seats.members.map fun m => ⟨m.seatId, m.key⟩ }
    if context.isCanonical C.toPrimitives then some context else none

end Gate

/-! ## Settlements -/

/-- What `ResolveWithdrawalSettlements` asks of one fact. -/
def settlementInPlace (vault : VaultId) (marketId : MarketId) (anchor : AnchorRef)
    (previousAnchor : Option AnchorRef) (f : WithdrawalSettlementFact) : Bool :=
  f.isCanonical && f.receipt.marketId == marketId && f.receipt.vaultId == vault &&
    f.connectedHeight ≤ anchor.height &&
    previousAnchor.all fun p => decide (p.height < f.connectedHeight)

/-- `ResolveWithdrawalSettlements`: the facts between two anchors, in the order of receipts. -/
def resolveWithdrawalSettlements (s : FlowMeshState) (marketId : MarketId) (anchor : AnchorRef)
    (x : ProductionAnchorContext) (chainFacts : Option DepositVerifier) :
    Option (List WithdrawalSettlementFact) :=
  match chainFacts with
  | none => some []
  | some v =>
    (v.getWithdrawalSettlements x.previousAnchor anchor).filter fun settlements =>
      settlements.length ≤ FLOWMESH_MAX_WITHDRAWAL_SETTLEMENTS_PER_ENTRY &&
        settlements.all (settlementInPlace s.ledger.vault marketId anchor x.previousAnchor) &&
        decide ((settlements.map (·.receipt.receiptId)).IsChain (· < ·))

/-! ## Building and executing an entry -/

/-- What the builder and the verifier of an entry are given alike. -/
structure ProductionContext where
  previousState : FlowMeshState
  domain : Uint256
  marketId : MarketId
  activeSeats : ActiveFnBlsSeatSet
  epochGate : ProductionEpochGate
  sequence : UInt64
  effectStart : UInt64
  parentHash : Uint256
  anchorContext : ProductionAnchorContext := {}
  treasuryOwnerCommitment : Uint256
  deposits : Option DepositVerifier := none

structure BuiltProductionExecution where
  entry : ProductionEntryCore
  nextState : FlowMeshState
  result : BatchResult
  effects : List FlowMeshEffect
  settlements : List WithdrawalSettlementFact

structure ExecutedProductionEntry where
  nextState : FlowMeshState
  result : BatchResult
  effects : List FlowMeshEffect
  settlements : List WithdrawalSettlementFact

section Engine

variable (C : EngineCrypto) (x : ProductionContext)

namespace ProductionContext

/-- The gate has to be open for the seats. -/
def checkGate : Except ProductionEntryCheck Unit :=
  reject (x.epochGate.canExecute C x.activeSeats = false)
    (if x.epochGate.paused then .EPOCH_PAUSED else .HANDOFF_NOT_CONNECTED)

/-- The anchors of the entry and of its seats. -/
def checkAnchors (anchor : AnchorRef) : Except ProductionEntryCheck Unit :=
  reject (checkProductionAnchor anchor x.anchorContext ≠ .OK ∨
    checkSeatAnchor x.activeSeats anchor x.anchorContext ≠ .OK) .BAD_ANCHOR

/-- The settlements of the entry; next to one there is no action. -/
def settlements (anchor : AnchorRef) (actions : List Action) :
    Except ProductionEntryCheck (List WithdrawalSettlementFact) := do
  let settlements ← demand (resolveWithdrawalSettlements x.previousState x.marketId anchor
    x.anchorContext x.deposits) .CHAIN_SETTLEMENT_MISMATCH
  reject (settlements ≠ [] ∧ actions ≠ []) .CHAIN_SETTLEMENT_MISMATCH
  .ok settlements

def feeContext : Except ProductionEntryCheck FlowMeshFeeContext :=
  demand (buildProductionFlowMeshFeeContext C x.domain x.activeSeats x.treasuryOwnerCommitment)
    .BAD_FEE_CONTEXT

end ProductionContext

/-- `CheckBasicShape` as a guard. -/
def checkShape (e : ProductionEntryCore) : Except ProductionEntryCheck Unit :=
  reject (checkBasicShape C.toDigests e ≠ .OK) (checkBasicShape C.toDigests e)

/-- The entry before its execution; the result and state roots are still null. -/
def newProductionEntry (anchor : AnchorRef) (actions : List Action) : ProductionEntryCore :=
  let canonical := canonicalizeActions C.toDigests actions
  { domain := x.domain, marketId := x.marketId, epoch := x.activeSeats.epoch
    seatSetHash := x.activeSeats.setHash, sequence := x.sequence, effectStart := x.effectStart
    effectRoot := C.emptyEffectRoot x.effectStart, parentHash := x.parentHash, anchor
    previousStateRoot := C.stateRoot x.previousState, actions := canonical
    actionsRoot := computeProductionActionsRoot C.toDigests canonical, resultRoot := 0
    stateRoot := 0 }

/-- `BuildProductionExecutionEntry`. -/
def buildProductionExecutionEntry (anchor : AnchorRef) (actions : List Action) :
    Except ProductionEntryCheck BuiltProductionExecution := do
  reject (actions.length > FLOWMESH_V1_MAX_MICROBLOCK_ACTIONS) .TOO_MANY_ACTIONS
  reject (x.domain = 0) .WRONG_DOMAIN
  reject (x.marketId = 0 ∨ x.activeSeats.marketId ≠ x.marketId) .WRONG_MARKET
  checkActiveSeatContext C x.domain x.marketId x.activeSeats.epoch x.activeSeats.setHash x.activeSeats
  x.checkGate C
  x.checkAnchors anchor
  let settlements ← x.settlements anchor actions
  let fee ← x.feeContext C
  let entry := newProductionEntry C x anchor actions
  -- the body and curve bounds are enforced before any execution work
  checkShape C entry
  let (result, next) ← demand (executeSlot C.toBatchCrypto ⟨entry.anchor, x.deposits, some fee⟩
    x.previousState entry.actions settlements) .EXECUTION_FAILED
  let effects ← demand (deriveProductionEffects C entry result) .EXECUTION_FAILED
  let resultRoot ← demand (computeProductionExecutionResultRoot C result.resultCommitment effects)
    .EXECUTION_FAILED
  let effectRoot ← demand (computeFlowMeshEffectRoot C.effects entry.effectStart effects)
    .WRONG_EFFECT_RANGE
  let entry := { entry with
    resultRoot, stateRoot := result.stateRoot, effectCount := UInt32.ofNat effects.length, effectRoot }
  checkShape C entry
  let _ ← demand (encodeProductionEntry C.toDigests entry) .ENTRY_TOO_LARGE
  .ok ⟨entry, next, result, effects, settlements⟩

/-- `ExecuteProductionEntry`. -/
def executeProductionEntry (entry : ProductionEntryCore) :
    Except ProductionEntryCheck ExecutedProductionEntry := do
  checkShape C entry
  reject (entry.kind ≠ EXECUTION) .BAD_VERSION_OR_KIND
  let _ ← demand (encodeProductionEntry C.toDigests entry) .ENTRY_TOO_LARGE
  reject (entry.domain ≠ x.domain) .WRONG_DOMAIN
  reject (entry.marketId ≠ x.marketId) .WRONG_MARKET
  checkActiveSeatContext C x.domain x.marketId entry.epoch entry.seatSetHash x.activeSeats
  x.checkGate C
  reject (entry.sequence ≠ x.sequence) .WRONG_SEQUENCE
  reject (entry.effectStart ≠ x.effectStart) .WRONG_EFFECT_RANGE
  reject (entry.parentHash ≠ x.parentHash) .WRONG_PARENT
  x.checkAnchors entry.anchor
  reject (entry.previousStateRoot ≠ C.stateRoot x.previousState) .WRONG_PREVIOUS_STATE_ROOT
  let settlements ← x.settlements entry.anchor entry.actions
  let fee ← x.feeContext C
  let (result, next) ← demand (executeSlot C.toBatchCrypto ⟨entry.anchor, x.deposits, some fee⟩
    x.previousState entry.actions settlements) .EXECUTION_FAILED
  let effects ← demand (deriveProductionEffects C entry result) .WRONG_RESULT_ROOT
  let resultRoot ← demand (computeProductionExecutionResultRoot C result.resultCommitment effects)
    .WRONG_RESULT_ROOT
  let effectRoot ← demand (computeFlowMeshEffectRoot C.effects entry.effectStart effects)
    .WRONG_RESULT_ROOT
  reject (entry.resultRoot ≠ resultRoot ∨ entry.effectCount.toNat ≠ effects.length ∨
    entry.effectRoot ≠ effectRoot) .WRONG_RESULT_ROOT
  reject (entry.stateRoot ≠ result.stateRoot) .WRONG_STATE_ROOT
  .ok ⟨next, result, effects, settlements⟩

end Engine

end B3Coin.FlowMesh
