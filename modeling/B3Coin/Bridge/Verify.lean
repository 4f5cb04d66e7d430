import B3Coin.Bridge.State
import B3Coin.Lib.Procedure

/-!
# Verification of bridge transactions

The first half of `node/bridge_state.cpp`: the overlay a candidate block is verified in,
the six record kinds, `VerifyBlock`, and the incremental preview of a block template.
Both run the same `verifyBridgeTransaction` over a `Trial`, the overlay together with the
effect collected so far; `ReadyBridge` stands for the tests of the optional parameters
that both make first.
-/
namespace B3Coin.Bridge

open Codec (Bytes)
open Guards Proc

/-! ## Comparisons and ranges -/

def sameBeaconHeader (a b : BeaconBlockHeader) : Bool :=
  a.slot == b.slot && a.proposerIndex == b.proposerIndex && a.parentRoot == b.parentRoot &&
    a.stateRoot == b.stateRoot && a.bodyRoot == b.bodyRoot

def sameExecutionHeader (a b : ExecutionPayloadHeader) : Bool :=
  a.parentHash == b.parentHash && a.feeRecipient == b.feeRecipient &&
    a.stateRoot == b.stateRoot && a.receiptsRoot == b.receiptsRoot &&
    a.logsBloom == b.logsBloom && a.prevRandao == b.prevRandao &&
    a.blockNumber == b.blockNumber && a.gasLimit == b.gasLimit && a.gasUsed == b.gasUsed &&
    a.timestamp == b.timestamp && a.extraData == b.extraData &&
    a.baseFeePerGas == b.baseFeePerGas && a.blockHash == b.blockHash &&
    a.transactionsRoot == b.transactionsRoot && a.withdrawalsRoot == b.withdrawalsRoot &&
    a.blobGasUsed == b.blobGasUsed && a.excessBlobGas == b.excessBlobGas

def sameLightClientHeader (a b : LightClientHeader) : Bool :=
  sameBeaconHeader a.beacon b.beacon && sameExecutionHeader a.execution b.execution &&
    a.executionBranch == b.executionBranch

def sameCommittee (a b : SyncCommittee) : Bool :=
  a.pubkeys == b.pubkeys && a.aggregatePubkey == b.aggregatePubkey

def sameLightClientStore (a b : LightClientStore) : Bool :=
  sameLightClientHeader a.finalizedHeader b.finalizedHeader && a.period == b.period &&
    sameCommittee a.current b.current &&
    match a.next, b.next with
    | none, none => true
    | some x, some y => sameCommittee x y
    | _, _ => false

def sameOptionalStore : Option LightClientStore → Option LightClientStore → Bool
  | none, none => true
  | some a, some b => sameLightClientStore a b
  | _, _ => false

/-- The field lists are complete: to be the same is to be equal. -/
theorem sameLightClientHeader_iff {a b : LightClientHeader} :
    sameLightClientHeader a b = true ↔ a = b := by
  obtain ⟨⟨⟩, ⟨⟩, ba⟩ := a
  obtain ⟨⟨⟩, ⟨⟩, bb⟩ := b
  simp [sameLightClientHeader, sameBeaconHeader, sameExecutionHeader, and_assoc]

theorem sameCommittee_iff {a b : SyncCommittee} : sameCommittee a b = true ↔ a = b := by
  obtain ⟨⟩ := a
  obtain ⟨⟩ := b
  simp [sameCommittee]

theorem sameLightClientStore_iff {a b : LightClientStore} :
    sameLightClientStore a b = true ↔ a = b := by
  obtain ⟨ha, pa, ca, na⟩ := a
  obtain ⟨hb, pb, cb, nb⟩ := b
  simp only [sameLightClientStore, Bool.and_eq_true, sameLightClientHeader_iff, beq_iff_eq,
    sameCommittee_iff, LightClientStore.mk.injEq, and_assoc]
  cases na <;> cases nb <;> simp [sameCommittee_iff]

theorem sameOptionalStore_iff {a b : Option LightClientStore} :
    sameOptionalStore a b = true ↔ a = b := by
  cases a <;> cases b <;> simp [sameOptionalStore, sameLightClientStore_iff]

def lightClientConfigFor (pins : EthereumLightClientPins) : LightClientConfig where
  genesisValidatorsRoot := pins.genesisValidatorsRoot
  forks := pins.forkSchedule.map fun f => ⟨f.activationEpoch, f.forkVersion⟩
  electraEpoch := pins.electraEpoch
  minParticipants := pins.minSyncCommitteeParticipants

def slotUsesKnownFork (slot : Nat) (pins : EthereumLightClientPins) : Bool :=
  epochAtSlot slot ≤ pins.forkScheduleValidThroughEpoch

/-- The signing domain is that of the epoch just before the signature slot. -/
def updateUsesKnownFork (u : LightClientUpdate) (pins : EthereumLightClientPins) : Bool :=
  u.signatureSlot != 0 &&
    epochAtSlot (u.signatureSlot - 1) ≤ pins.forkScheduleValidThroughEpoch &&
    slotUsesKnownFork u.attested.beacon.slot pins && slotUsesKnownFork u.finalized.beacon.slot pins

def finalizedHeadFresh (store : LightClientStore) (candidateTime : Int)
    (pins : EthereumLightClientPins) : Bool :=
  if candidateTime < 0 then false
  else if candidateTime.toNat ≤ store.finalizedHeader.execution.timestamp then true
  else if pins.maxSyncLagSlots > UINT64_MAX / 12 then false
  else candidateTime.toNat - store.finalizedHeader.execution.timestamp ≤ pins.maxSyncLagSlots * 12

def finalizedAnchor (header : LightClientHeader) (height : Int) (blockHash : Uint256) :
    BridgeExecutionAnchor where
  blockNumber := header.execution.blockNumber
  blockHash := header.execution.blockHash
  receiptsRoot := header.execution.receiptsRoot
  sourceFinalizedBeaconSlot := header.beacon.slot
  sourceFinalizedExecutionBlock := header.execution.blockNumber
  executionTimestamp := header.execution.timestamp
  connectedHeight := height
  connectedBlock := blockHash

/-- `ExecutionRangeReachable`. -/
def executionRangeReachable (newer older : Nat) : Bool :=
  older ≤ newer && newer - older ≤ MAX_BRIDGE_CUMULATIVE_BACKFILL_BLOCKS

def hasValidBackfillOrigin (a : BridgeExecutionAnchor) : Bool :=
  a.blockNumber ≤ a.sourceFinalizedExecutionBlock &&
    a.sourceFinalizedExecutionBlock - a.blockNumber ≤ MAX_BRIDGE_CUMULATIVE_BACKFILL_BLOCKS

def checkCumulativeBackfillTarget (source : BridgeExecutionAnchor) (target : Nat) :
    Except String Unit :=
  reject (!hasValidBackfillOrigin source ∨ target > source.sourceFinalizedExecutionBlock ∨
      source.sourceFinalizedExecutionBlock - target > MAX_BRIDGE_CUMULATIVE_BACKFILL_BLOCKS)
    "bridge execution proof exceeds the cumulative backfill limit"

/-! ## The overlay of a candidate block -/

structure ScratchState where
  /-- The connected state, borrowed and never written. -/
  base : BridgeState
  lightClientOverlay : Option LightClientStore := none
  lightClientChanged : Bool := false
  anchorsOverlay : OrderedMap Uint256 BridgeExecutionAnchor := ∅
  anchorByHeightOverlay : OrderedMap Nat Uint256 := ∅
  nullifiersOverlay : Finset BridgeDepositKey := ∅
  epochMintedOverlay : OrderedMap EpochKey Int := ∅
  withdrawalsOverlay : Finset BridgeWithdrawalId := ∅
  decentralizedWithdrawalsOverlay : Finset Nat := ∅
  decentralizedSourcesOverlay : Finset BridgeWithdrawalId := ∅
  withdrawalTree : WithdrawalTreeState
  mintedThisBlock : Int := 0

namespace ScratchState

variable (s : ScratchState)

def lightClientState : Option LightClientStore :=
  if s.lightClientChanged then s.lightClientOverlay else s.base.lightClient

def setLightClient (store : LightClientStore) : ScratchState :=
  { s with lightClientOverlay := some store, lightClientChanged := true }

def anchor (hash : Uint256) : Option BridgeExecutionAnchor :=
  (s.anchorsOverlay.find? hash).or (s.base.anchors.find? hash)

def anchorHashAtHeight (height : Nat) : Option Uint256 :=
  (s.anchorByHeightOverlay.find? height).or (s.base.anchorByHeight.find? height)

def addAnchor (a : BridgeExecutionAnchor) : ScratchState :=
  { s with
    anchorsOverlay := s.anchorsOverlay.emplace a.blockHash a
    anchorByHeightOverlay := s.anchorByHeightOverlay.emplace a.blockNumber a.blockHash }

def isNullified (key : BridgeDepositKey) : Bool :=
  key ∈ s.nullifiersOverlay || key ∈ s.base.nullifiers

def epochMinted (key : EpochKey) : Int :=
  ((s.epochMintedOverlay.find? key).or (s.base.epochMinted.find? key)).getD 0

end ScratchState

/-- The overlay and the effect collected with it. -/
structure Trial where
  state : ScratchState
  delta : BridgeBlockDelta

/-- The block a transaction is verified for. -/
structure BlockContext where
  params : Params
  bridge : ReadyBridge
  height : Int
  time : Int
  blockHash : Uint256

section Records

variable (E : BridgeEnv) (ctx : BlockContext)

/-- `AddAnchor`: a block that is known already is not added again. -/
def addAnchor (a : BridgeExecutionAnchor) (t : Trial) : Except String Trial := do
  reject (a.blockHash = 0 ∨ a.receiptsRoot = 0 ∨ a.connectedHeight < 0 ∨ a.connectedBlock = 0 ∨
    !hasValidBackfillOrigin a) "bridge execution anchor is malformed"
  match t.state.anchor a.blockHash with
  | some same => do
    reject (same.blockNumber ≠ a.blockNumber ∨ same.receiptsRoot ≠ a.receiptsRoot)
      "bridge execution anchor hash conflicts with retained state"
    .ok t
  | none => do
    reject ((t.state.anchorHashAtHeight a.blockNumber).any (· != a.blockHash))
      "bridge execution anchor height conflicts with retained state"
    .ok ⟨t.state.addAnchor a, { t.delta with anchorsAdded := t.delta.anchorsAdded ++ [a] }⟩

def verifyBootstrap (bootstrap : BridgeBootstrapV1) (t : Trial) : Except String Trial := do
  let pins := ctx.bridge.lightClient
  reject t.state.lightClientState.isSome "bridge light client is already bootstrapped"
  reject (bootstrap.header.beacon.slot ≠ pins.trustedCheckpointSlot ∨
      E.beaconRoot bootstrap.header.beacon ≠ pins.trustedCheckpointRoot)
    "bridge bootstrap does not match the pinned slot and root"
  reject (!slotUsesKnownFork bootstrap.header.beacon.slot pins)
    "bridge bootstrap is beyond the pinned Ethereum fork schedule"
  reject (!executionRangeReachable bootstrap.header.execution.blockNumber
      ctx.bridge.originDeploymentBlock)
    "bridge bootstrap cannot reach the configured vault deployment block"
  let store ← demand (initStore E.toBeaconCrypto (lightClientConfigFor pins)
      pins.trustedCheckpointRoot bootstrap.header bootstrap.currentCommittee
      bootstrap.currentCommitteeBranch).toOption
    "bridge bootstrap light-client proof is invalid"
  addAnchor (finalizedAnchor store.finalizedHeader ctx.height ctx.blockHash)
    { t with state := t.state.setLightClient store }

def verifyUpdate (update : LightClientUpdate) (t : Trial) : Except String Trial := do
  let pins := ctx.bridge.lightClient
  let current ← demand t.state.lightClientState "bridge light-client update precedes bootstrap"
  reject (!updateUsesKnownFork update pins)
    "bridge light-client update uses an unpinned Ethereum fork"
  reject (update.finalized.beacon.slot = current.finalizedHeader.beacon.slot ∧
      !sameLightClientHeader update.finalized current.finalizedHeader)
    "bridge light-client update conflicts at a finalized slot"
  let next ← demand
    (current.processUpdate E.toBeaconCrypto (lightClientConfigFor pins) update).toOption
    "bridge light-client update is invalid"
  reject (sameLightClientStore next current) "bridge light-client update is a no-op"
  let finalizedChanged := !sameLightClientHeader next.finalizedHeader current.finalizedHeader
  reject (finalizedChanged ∧ !executionRangeReachable next.finalizedHeader.execution.blockNumber
      current.finalizedHeader.execution.blockNumber)
    "bridge light-client update exceeds the execution backfill window"
  let t' : Trial := { t with state := t.state.setLightClient next }
  if !finalizedChanged then .ok t'
  else addAnchor (finalizedAnchor next.finalizedHeader ctx.height ctx.blockHash) t'

/-- A backfill that adds nothing is refused. -/
def verifyBackfill (proof : BridgeExecutionBackfillV1) (t : Trial) : Except String Trial := do
  let source ← demand (t.state.anchor proof.finalizedAnchorHash)
    "bridge execution backfill names an unretained anchor"
  let target ← demand (verifyExecAncestry E.toExecutionCodec source.blockHash
      proof.targetBlockNumber proof.ancestryHeaders)
    "bridge execution backfill ancestry is invalid"
  checkCumulativeBackfillTarget source target.blockNumber
  let timestamp ← demand (proof.ancestryHeaders.getLast?.bind E.headerTimestamp)
    "bridge execution backfill target timestamp is invalid"
  let t' ← addAnchor
    { blockNumber := target.blockNumber
      blockHash := target.blockHash
      receiptsRoot := target.receiptsRoot
      sourceFinalizedBeaconSlot := source.sourceFinalizedBeaconSlot
      sourceFinalizedExecutionBlock := source.sourceFinalizedExecutionBlock
      executionTimestamp := timestamp
      connectedHeight := ctx.height
      connectedBlock := ctx.blockHash } t
  reject (t'.delta.anchorsAdded.length = t.delta.anchorsAdded.length)
    "bridge execution backfill is a no-op"
  .ok t'

section

variable (tx : CTransaction) (proof : BridgeMintV1) (t : Trial)

/-- The deposit a mint record proves. -/
def provenDeposit : Except String DepositEvent := do
  let registryId := configuredBridgeRegistryId E.toBridgeIds ctx.params
  reject (registryId ≠ some proof.registryId)
    "bridge mint registry id does not match the configured registry"
  reject (proof.targetBlockNumber < ctx.bridge.originDeploymentBlock)
    "bridge mint target precedes the configured origin deployment block"
  let lightClient ← demand t.state.lightClientState "bridge mint precedes light-client bootstrap"
  reject (!slotUsesKnownFork lightClient.finalizedHeader.beacon.slot ctx.bridge.lightClient)
    "bridge mint uses a light-client head beyond the pinned fork schedule"
  reject (!finalizedHeadFresh lightClient ctx.time ctx.bridge.lightClient)
    "bridge mint light-client head is stale"
  let anchor ← demand (t.state.anchor proof.finalizedAnchorHash)
    "bridge mint names an unretained execution anchor"
  let target ← demand (verifyExecAncestry E.toExecutionCodec anchor.blockHash
      proof.targetBlockNumber proof.ancestryHeaders)
    "bridge mint execution ancestry is invalid"
  checkCumulativeBackfillTarget anchor target.blockNumber
  let receiptValue ← demand (E.verifyMptProof target.receiptsRoot proof.txIndex proof.mptNodes)
    "bridge mint receipt is not included in the proven root"
  let receipt ← demand (E.decodeReceipt receiptValue) "bridge mint receipt is malformed"
  demand (extractDepositAt E.toExecutionCodec receipt ctx.bridge.params.asset.vaultAddress
      proof.receiptLogIndex)
    "bridge mint does not name one exact configured-vault deposit log"

/-- The effect of an authorized mint. -/
def Trial.mint (key : EpochKey) (a : BridgeTxMintAuthorization) : Trial where
  state := { t.state with
    nullifiersOverlay := insert a.authorization.nullifier t.state.nullifiersOverlay
    mintedThisBlock := t.state.mintedThisBlock + a.authorization.amount
    epochMintedOverlay := t.state.epochMintedOverlay.insert key
      (t.state.epochMinted key + a.authorization.amount) }
  delta := { t.delta with
    nullifiersAdded := t.delta.nullifiersAdded ++ [a.authorization.nullifier]
    mintAuthorizations := t.delta.mintAuthorizations ++ [a] }

def verifyMint : Except String (BridgeTxAuthorization × Trial) := do
  let event ← provenDeposit E ctx proof t
  let asset ← demand (configuredBridgeAssetId E.toBridgeIds ctx.params)
    "bridge mint asset identity is unavailable"
  let key : EpochKey := toLex (asset, ctx.bridge.epoch ctx.height)
  let authorization ← demand (admitConfiguredDeposit E.toBridgeIds ctx.params ctx.bridge.mintCaps
      ⟨ctx.bridge.params.asset.originChainId, proof.targetBlockNumber,
        ctx.bridge.params.asset.vaultAddress, event⟩
      ctx.height ⟨t.state.mintedThisBlock, t.state.epochMinted key⟩).toOption
    "bridge mint deposit fails registry, recipient, amount, or cap admission"
  reject (t.state.isNullified authorization.nullifier) "bridge deposit is already nullified"
  let output ← demand tx.vout[proof.outputIndex]? "bridge mint output index is out of range"
  reject (E.makeAssetOwnerOutput authorization.asset authorization.amount
      authorization.recipientScript ≠ some output)
    "bridge mint is not paid to the exact authorized OWNER output"
  let connected : BridgeTxMintAuthorization := ⟨E.ptxid tx, proof.outputIndex, authorization⟩
  reject (t.delta.mintAuthorizations.any (·.transactionId == connected.transactionId))
    "bridge block duplicates a mint ptxid"
  reject (authorization.nullifier ∈ t.state.nullifiersOverlay) "bridge deposit is already nullified"
  .ok ({ mint := some connected }, t.mint key connected)

/-! ## Withdrawals -/

/-- The texts of the tests that both withdrawal records make. -/
structure BurnTexts where
  disabled : String
  registry : String
  recipient : String
  amount : String
  index : String
  burn : String

/-- The asset and the amount of the burn output a record names. -/
def checkBurn (mode : BridgeWithdrawalMode) (texts : BurnTexts) (tx : CTransaction)
    (record : BridgeBurnFields) : Except String (Uint256 × Int) := do
  reject (!ctx.params.bridgeWithdrawalRulesActive ctx.height)
    "bridge withdrawal rules are not active"
  reject (ctx.bridge.withdrawalMode ≠ mode) texts.disabled
  let asset ← demand (configuredBridgeAssetId E.toBridgeIds ctx.params) texts.registry
  reject (configuredBridgeRegistryId E.toBridgeIds ctx.params ≠ some record.registryId)
    texts.registry
  reject (record.ethereumRecipient = 0) texts.recipient
  reject (record.rawAmount = 0 ∨ (record.rawAmount : Int) > MAX_MONEY) texts.amount
  let output ← demand tx.vout[record.burnOutputIndex]? texts.index
  reject (E.makeAssetBurnOutput asset record.rawAmount ≠ some output) texts.burn
  .ok (asset, record.rawAmount)

def verifyWithdrawal (record : BridgeBurnFields) (t : Trial) :
    Except String (BridgeTxAuthorization × Trial) := do
  let (asset, amount) ← checkBurn E ctx .MANAGED_V1
    { disabled := "managed bridge withdrawal proof is disabled"
      registry := "managed bridge withdrawal registry id does not match"
      recipient := "managed bridge withdrawal Ethereum recipient is null"
      amount := "managed bridge withdrawal amount is invalid"
      index := "managed bridge withdrawal burn output index is out of range"
      burn := "managed bridge withdrawal does not name the exact bUSD BURN output" } tx record
  let request : BridgeManagedWithdrawalRequest :=
    ⟨E.txid tx, record.burnOutputIndex, asset, amount, record.ethereumRecipient, ctx.height,
      ctx.blockHash⟩
  reject (t.state.base.withdrawals.contains request.id ∨ request.id ∈ t.state.withdrawalsOverlay)
    "managed bridge withdrawal request is duplicated"
  .ok ({ withdrawal := some request },
    { state := { t.state with
        withdrawalsOverlay := insert request.id t.state.withdrawalsOverlay }
      delta := { t.delta with withdrawalsAdded := t.delta.withdrawalsAdded ++ [request] } })

/-- `AddDecentralizedWithdrawal`: the leaf and the overlay with it. -/
def ScratchState.addDecentralizedWithdrawal (s : ScratchState) (source : BridgeWithdrawalId)
    (w : BridgeWithdrawalV1) : Option (Uint256 × ScratchState) :=
  if s.base.decentralizedWithdrawalSources.contains source ∨
      source ∈ s.decentralizedSourcesOverlay ∨
      s.base.decentralizedWithdrawals.contains w.withdrawalId ∨
      w.withdrawalId ∈ s.decentralizedWithdrawalsOverlay then none
  else (appendBridgeWithdrawal E.keccak s.withdrawalTree w).map fun appended =>
    (appended.1, { s with
      withdrawalTree := appended.2
      decentralizedSourcesOverlay := insert source s.decentralizedSourcesOverlay
      decentralizedWithdrawalsOverlay :=
        insert w.withdrawalId s.decentralizedWithdrawalsOverlay })

def verifyBridgeBurn (record : BridgeBurnFields) (t : Trial) :
    Except String (BridgeTxAuthorization × Trial) := do
  let (asset, amount) ← checkBurn E ctx .DECENTRALIZED_VERIFIER_V1
    { disabled := "decentralized bridge burn is disabled"
      registry := "decentralized bridge burn registry id does not match"
      recipient := "decentralized bridge burn Ethereum recipient is null"
      amount := "decentralized bridge burn amount is invalid"
      index := "decentralized bridge burn output index is out of range"
      burn := "decentralized bridge record does not name the exact bUSD BURN output" } tx record
  reject (ctx.height < 0) "decentralized bridge burn height is invalid"
  let withdrawal : BridgeWithdrawalV1 :=
    ⟨t.state.withdrawalTree.count, ctx.bridge.params.asset.originChainId, asset,
      ctx.bridge.params.asset.tokenAddress, record.ethereumRecipient, amount, ctx.height.toNat⟩
  let (leaf, state) ← demand (t.state.addDecentralizedWithdrawal E
      ⟨E.txid tx, record.burnOutputIndex⟩ withdrawal)
    "decentralized bridge withdrawal id or burn source is duplicated"
  let request : BridgeDecentralizedWithdrawalRequest :=
    ⟨E.txid tx, record.burnOutputIndex, withdrawal, leaf, ctx.height, ctx.blockHash⟩
  .ok ({ decentralizedWithdrawal := some request },
    { state := state
      delta := { t.delta with
        withdrawalTreeAfter := state.withdrawalTree
        decentralizedWithdrawalsAdded := t.delta.decentralizedWithdrawalsAdded ++ [request] } })

/-! ## Transactions -/

def bindingOutputs : List CTxOut := tx.vout.filter fun out => E.isBindingCell out.scriptPubKey

/-- `CheckBridgeRecordBinding`: exactly one binding output, and it commits to the record. -/
def checkBridgeRecordBinding (record : CMpaRecord) : Except String Unit := do
  let expected ← demand (E.bindingOutput record) "bridge-binding-invalid-record"
  let found := bindingOutputs E tx
  reject (found.length = 0) "bridge-binding-missing"
  reject (found.length ≠ 1) "bridge-binding-multiple"
  reject (expected ∉ found) "bridge-binding-mismatch"

def bridgeRecords : List CMpaRecord := tx.mpa.filter (·.payloadType == BRIDGE_MPA_TYPE)

def verifyPayload : BridgeRecordPayloadV1 → Except String (BridgeTxAuthorization × Trial)
  | .bootstrap record => (verifyBootstrap E ctx record t).map ({}, ·)
  | .update record => (verifyUpdate E ctx record t).map ({}, ·)
  | .mint record => verifyMint E ctx tx record t
  | .executionBackfill record => (verifyBackfill E ctx record t).map ({}, ·)
  | .managedWithdrawal record => verifyWithdrawal E ctx tx record t
  | .bridgeBurn record => verifyBridgeBurn E ctx tx record t

def verifyBridgeTransaction : Except String (BridgeTxAuthorization × Trial) :=
  match bridgeRecords tx with
  | [] => do
    reject ((bindingOutputs E tx).length ≠ 0) "transaction has an orphan bridge binding output"
    .ok ({}, t)
  | [record] => do
    reject tx.isCoinBase "coinbase transaction cannot carry a bridge record"
    checkBridgeRecordBinding E tx record
    let decoded ← demand (E.decodeRecord record) "bridge record is malformed"
    verifyPayload E ctx tx t decoded
  | _ :: _ :: _ => .error "transaction has more than one bridge record"

end

def verifyTransactions : List CTransaction → Trial → Except String Trial
  | [], t => .ok t
  | tx :: rest, t => do
    let x ← verifyBridgeTransaction E ctx tx t
    verifyTransactions rest x.2

end Records

/-! ## Blocks -/

structure CBlock where
  nTime : UInt32
  vtx : List CTransaction

section Blocks

variable (E : BridgeEnv) (params : Params)

/-- `IsConfiguredAndActive`. -/
def configuredAndActive (height : Int) : Except String ReadyBridge := do
  let bridge ← demand params.readyBridge "bridge consensus parameters are incomplete"
  reject (height < bridge.activationHeight) "bridge consensus rules are not active"
  .ok bridge

/-- The overlay and the effect before the first transaction. -/
def BridgeState.trial (s : BridgeState) (height : Int) (blockHash : Uint256) : Trial where
  state := { base := s, withdrawalTree := s.withdrawalTree }
  delta :=
    { height := height
      blockHash := blockHash
      previousHeight := s.connectedHeight
      previousBlockHash := s.connectedHash
      withdrawalTreeBefore := s.withdrawalTree
      withdrawalTreeAfter := s.withdrawalTree }

/-- The store of the light client in the effect of a block that changed it. -/
def Trial.withLightClient (t : Trial) : BridgeBlockDelta :=
  if t.state.lightClientChanged then
    { t.delta with
      lightClientBefore := t.state.base.lightClient
      lightClientAfter := t.state.lightClientState
      lightClientConnectionBefore := t.state.base.lightClientConnection
      lightClientConnectionAfter := some ⟨t.delta.height, t.delta.blockHash⟩ }
  else t.delta

/-- What `VerifyBlock` adds to the effect after the last transaction. -/
def Trial.finish (t : Trial) : BridgeBlockDelta :=
  { t.withLightClient with
    epochMintChanges := t.delta.epochMintChanges ++ t.state.epochMintedOverlay.entries.map fun e =>
      ⟨(ofLex e.1).1, (ofLex e.1).2, t.state.base.minted e.1, e.2⟩
    withdrawalTreeAfter := t.state.withdrawalTree }

def verifyBlock (s : BridgeState) (block : CBlock) (height : Int) (blockHash : Uint256) :
    Except String BridgeBlockDelta := do
  let bridge ← configuredAndActive params height
  reject (blockHash = 0) "bridge block hash is null"
  let t ← verifyTransactions E ⟨params, bridge, height, block.nTime.toNat, blockHash⟩ block.vtx
    (s.trial height blockHash)
  .ok t.finish

/-! ## Block templates -/

structure BridgeBlockPreview where
  ctx : BlockContext
  trial : Trial

def beginBlockPreview (s : BridgeState) (candidateHeight candidateTime : Int)
    (previewBlockId : Uint256) : Except String BridgeBlockPreview := do
  let bridge ← configuredAndActive params candidateHeight
  reject (candidateTime < 0 ∨ candidateTime > 2 ^ 32 - 1)
    "bridge candidate block time is out of range"
  reject (previewBlockId = 0) "bridge preview block id is null"
  .ok ⟨⟨params, bridge, candidateHeight, candidateTime, previewBlockId⟩,
    s.trial candidateHeight previewBlockId⟩

def hasBridgeMaterial (tx : CTransaction) : Bool :=
  (bindingOutputs E tx).length != 0 || tx.mpa.any (·.payloadType == BRIDGE_MPA_TYPE)

/-- `TryAppend`: the chunk runs on copies, which replace the preview at the end. -/
def tryAppend (transactions : List CTransaction) : Proc String BridgeBlockPreview Unit := do
  if !transactions.any (hasBridgeMaterial E) then pure ()
  else
    let p ← read id
    let trial ← compute (verifyTransactions E p.ctx transactions p.trial)
    write fun p => { p with trial := trial }

end Blocks

end B3Coin.Bridge
