import B3Coin.Bridge.Deposit
import B3Coin.Bridge.WithdrawalTree
import Mathlib.Data.Finset.Insert

/-!
# Bridge records and the state they change

The record kinds of `bridge/proof.h` and the types of `node/bridge_state.h`: anchors,
authorizations, withdrawal requests, the reversible effect of a block, and the index
itself. `BridgeState` is the index without its undo history.
-/
namespace B3Coin.Bridge

open Codec (Bytes)

def BRIDGE_MPA_TYPE : Nat := 10
def MAX_BRIDGE_CUMULATIVE_BACKFILL_BLOCKS : Nat := 20000
def BRIDGE_STATE_UNDO_BLOCKS : Nat := 288

/-! ## Records -/

structure BridgeBootstrapV1 where
  header : LightClientHeader
  currentCommittee : SyncCommittee
  currentCommitteeBranch : List Uint256
  deriving DecidableEq

structure BridgeMintV1 where
  registryId : Uint256
  outputIndex : Nat
  finalizedAnchorHash : Uint256
  targetBlockNumber : Nat
  txIndex : Nat
  receiptLogIndex : Nat
  /-- Newest first. -/
  ancestryHeaders : List Bytes
  mptNodes : List Bytes
  deriving DecidableEq

structure BridgeExecutionBackfillV1 where
  finalizedAnchorHash : Uint256
  targetBlockNumber : Nat
  ancestryHeaders : List Bytes
  deriving DecidableEq

/-- `BridgeManagedWithdrawalV1` and `BridgeBurnV1` have the same fields. -/
structure BridgeBurnFields where
  registryId : Uint256
  burnOutputIndex : Nat
  rawAmount : Nat
  ethereumRecipient : EthAddress
  deriving DecidableEq

inductive BridgeRecordPayloadV1 where
  | bootstrap (record : BridgeBootstrapV1)
  | update (record : LightClientUpdate)
  | mint (record : BridgeMintV1)
  | executionBackfill (record : BridgeExecutionBackfillV1)
  | managedWithdrawal (record : BridgeBurnFields)
  | bridgeBurn (record : BridgeBurnFields)
  deriving DecidableEq

/-- The hash functions and byte formats the bridge rests on. -/
structure BridgeEnv extends BeaconCrypto, ExecutionCodec, BridgeIds where
  keccak : Bytes → Uint256
  txid : CTransaction → Uint256
  ptxid : CTransaction → Uint256
  /-- `DecodeBridgeMpaRecordV1`. -/
  decodeRecord : CMpaRecord → Option BridgeRecordPayloadV1
  /-- `MakeBridgeBindingOutput`: the output that commits to a record. -/
  bindingOutput : CMpaRecord → Option CTxOut
  /-- Whether a script is a metadata cell of policy `BRIDGE_RECORD`. -/
  isBindingCell : Bytes → Bool
  makeAssetOwnerOutput : Uint256 → Int → Bytes → Option CTxOut
  makeAssetBurnOutput : Uint256 → Int → Option CTxOut

/-! ## Facts of the index -/

/-- A receipts root reached from a finalized Ethereum header. -/
structure BridgeExecutionAnchor where
  blockNumber : Nat
  blockHash : Uint256
  receiptsRoot : Uint256
  sourceFinalizedBeaconSlot : Nat
  sourceFinalizedExecutionBlock : Nat
  executionTimestamp : Nat
  connectedHeight : Int
  connectedBlock : Uint256
  deriving DecidableEq

/-- The block that connected a fact. -/
structure BridgeStateConnection where
  height : Int
  blockHash : Uint256
  deriving DecidableEq

structure BridgeLightClientSnapshot where
  store : LightClientStore
  connection : BridgeStateConnection
  deriving DecidableEq

structure BridgeTxMintAuthorization where
  transactionId : Uint256
  outputIndex : Nat
  authorization : BridgeMintAuthorization
  deriving DecidableEq

structure BridgeWithdrawalId where
  transactionId : Uint256
  burnOutputIndex : Nat
  deriving DecidableEq

instance : LinearOrder BridgeWithdrawalId :=
  LinearOrder.lift' (fun i => (toLex (i.transactionId, i.burnOutputIndex) : Lex (Nat × Nat)))
    fun a b h => by
      cases b
      cases h
      rfl

structure BridgeManagedWithdrawalRequest where
  transactionId : Uint256
  burnOutputIndex : Nat
  asset : Uint256
  amount : Int
  ethereumRecipient : EthAddress
  connectedHeight : Int
  connectedBlock : Uint256
  deriving DecidableEq

def BridgeManagedWithdrawalRequest.id (r : BridgeManagedWithdrawalRequest) : BridgeWithdrawalId :=
  ⟨r.transactionId, r.burnOutputIndex⟩

structure BridgeDecentralizedWithdrawalRequest where
  transactionId : Uint256
  burnOutputIndex : Nat
  withdrawal : BridgeWithdrawalV1
  leaf : Uint256
  connectedHeight : Int
  connectedBlock : Uint256
  deriving DecidableEq

def BridgeDecentralizedWithdrawalRequest.source (r : BridgeDecentralizedWithdrawalRequest) :
    BridgeWithdrawalId :=
  ⟨r.transactionId, r.burnOutputIndex⟩

/-- The bridge result a transaction carries. -/
structure BridgeTxAuthorization where
  mint : Option BridgeTxMintAuthorization := none
  withdrawal : Option BridgeManagedWithdrawalRequest := none
  decentralizedWithdrawal : Option BridgeDecentralizedWithdrawalRequest := none
  deriving DecidableEq

/-- An asset and an epoch, in the order of the map. -/
abbrev EpochKey := Lex (Uint256 × Nat)

structure BridgeEpochMintChange where
  asset : Uint256
  epoch : Nat
  before : Int
  after : Int
  deriving DecidableEq

def BridgeEpochMintChange.key (c : BridgeEpochMintChange) : EpochKey := toLex (c.asset, c.epoch)

/-- The reversible effect of one block. -/
structure BridgeBlockDelta where
  height : Int := -1
  blockHash : Uint256 := 0
  previousHeight : Int := -1
  previousBlockHash : Uint256 := 0
  lightClientBefore : Option LightClientStore := none
  lightClientAfter : Option LightClientStore := none
  lightClientConnectionBefore : Option BridgeStateConnection := none
  lightClientConnectionAfter : Option BridgeStateConnection := none
  anchorsAdded : List BridgeExecutionAnchor := []
  mintAuthorizations : List BridgeTxMintAuthorization := []
  nullifiersAdded : List BridgeDepositKey := []
  epochMintChanges : List BridgeEpochMintChange := []
  withdrawalsAdded : List BridgeManagedWithdrawalRequest := []
  decentralizedWithdrawalsAdded : List BridgeDecentralizedWithdrawalRequest := []
  withdrawalTreeBefore : WithdrawalTreeState
  withdrawalTreeAfter : WithdrawalTreeState
  deriving DecidableEq

@[ext]
structure BridgeState where
  lightClient : Option LightClientStore := none
  lightClientConnection : Option BridgeStateConnection := none
  /-- The first store of the chain, kept when its undo is gone. -/
  lightClientFloor : Option BridgeLightClientSnapshot := none
  anchors : OrderedMap Uint256 BridgeExecutionAnchor := ∅
  anchorByHeight : OrderedMap Nat Uint256 := ∅
  nullifiers : Finset BridgeDepositKey := ∅
  nullifierConnections : OrderedMap BridgeDepositKey BridgeStateConnection := ∅
  epochMinted : OrderedMap EpochKey Int := ∅
  withdrawals : OrderedMap BridgeWithdrawalId BridgeManagedWithdrawalRequest := ∅
  decentralizedWithdrawals : OrderedMap Nat BridgeDecentralizedWithdrawalRequest := ∅
  decentralizedWithdrawalSources : OrderedMap BridgeWithdrawalId Nat := ∅
  withdrawalTree : WithdrawalTreeState
  withdrawalRoots : OrderedMap Int Uint256 := ∅
  connectedHeight : Int := -1
  connectedHash : Uint256 := 0
  deriving DecidableEq

/-- The minted total of an asset in an epoch. -/
def BridgeState.minted (s : BridgeState) (key : EpochKey) : Int := (s.epochMinted.find? key).getD 0

structure BridgeStateIndex where
  state : BridgeState
  /-- Oldest first. -/
  history : List BridgeBlockDelta := []
  deriving DecidableEq

/-- `Clear`, and the state of a new index. -/
def BridgeState.empty (keccak : Bytes → Uint256) : BridgeState :=
  { withdrawalTree := .empty keccak }

def BridgeStateIndex.empty (keccak : Bytes → Uint256) : BridgeStateIndex := ⟨.empty keccak, []⟩

end B3Coin.Bridge
