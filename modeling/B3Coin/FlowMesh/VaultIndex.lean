import B3Coin.Assets.Context
import B3Coin.BlockJournal
import B3Coin.FlowMesh.Ledger

/-!
# The index of vault outputs and markets

`node/flowmesh_vault_index.cpp`. The live vault outputs, the markets by vault, and
the net change of every block. A market is established by the first deposit of its
coloured asset, which has to be live at the end of its block.
-/
namespace B3Coin.FlowMesh.VaultIndex

open Codec (Bytes)
open Assets (ModernOutput NativeAsset VaultParams parseVaultParams checkVaultParams
  claimsAssetOutput viewAssetAwareOutput configuredChainDomain configuredFnAssetId
  flowMeshUserDepositShard VAULT_KIND_USER_DEPOSIT VAULT_KIND_POOL_CHANGE)
open Consensus (Params flowMeshVaultPreparationRulesActive)
open Guards

structure VaultEnv extends Assets.Env where
  /-- The tagged hash of domain, base and the native quote. -/
  marketHash : Uint256 → Uint256 → MarketId
  vaultHash : Uint256 → MarketId → VaultId
  /-- `GetHash`. -/
  txid : CTransaction → Uint256


def FLOWMESH_MAX_WITHDRAWAL_VAULT_INPUTS : Nat := 64

structure FlowMeshVaultRecord where
  outpoint : COutPoint
  asset : Uint256
  amount : Int
  vaultId : VaultId
  kind : UInt8
  shard : Nat
  account : Option Uint256
  createdHeight : Int
  createdBlock : Uint256
  deriving DecidableEq

structure FlowMeshMarketRecord where
  baseAsset : Uint256
  marketId : MarketId
  vaultId : VaultId
  establishingDeposit : COutPoint
  createdHeight : Int
  createdBlock : Uint256
  deriving DecidableEq

structure FlowMeshVaultBlockDelta extends BlockDelta FlowMeshVaultRecord where
  marketsAdded : List FlowMeshMarketRecord := []
  deriving DecidableEq

abbrev LiveMap := OrderedMap COutPoint FlowMeshVaultRecord
abbrev MarketMap := OrderedMap VaultId FlowMeshMarketRecord

/-- `history` has the latest block first. -/
structure FlowMeshVaultIndex where
  live : LiveMap := ∅
  markets : MarketMap := ∅
  history : List FlowMeshVaultBlockDelta := []
  deriving DecidableEq

/-! ## Judging a block -/

/-- The scratch state of `VerifyBlock`. -/
structure Scratch where
  live : LiveMap
  markets : MarketMap
  introduced : MarketMap := ∅
  removedFromParent : List FlowMeshVaultRecord := []
  createdInOrder : List FlowMeshVaultRecord := []

section Markets

variable (E : VaultEnv) (domain fnAsset : Uint256) (s : Scratch) (r : FlowMeshVaultRecord)

/-- `ComputeFlowMeshMarketId`, against the native quote. -/
def computeFlowMeshMarketId (base : Uint256) : Option MarketId :=
  if domain = 0 ∨ base = 0 ∨ base = NativeAsset then none else some (E.marketHash domain base)

def spend (base : LiveMap) (s : Scratch) (prevout : COutPoint) : Scratch :=
  match s.live.find? prevout with
  | none => s
  | some removed =>
    { s with
      live := s.live.erase prevout
      removedFromParent :=
        if base.contains removed.outpoint then s.removedFromParent ++ [removed]
        else s.removedFromParent }

/-- The market rules for a deposit of a coloured asset; it may be the first. -/
def establish : Except String Scratch := do
  reject (r.asset = fnAsset) "FN Coin cannot be a FlowMesh spot-market base"
  let market ← demand (computeFlowMeshMarketId E domain r.asset)
    "colored FlowMesh deposit names the wrong vault"
  let vault ← demand (computeFlowMeshVaultId E.vaultHash domain market)
    "colored FlowMesh deposit names the wrong vault"
  reject (vault ≠ r.vaultId) "colored FlowMesh deposit names the wrong vault"
  match s.markets.find? r.vaultId with
  | none =>
    let record : FlowMeshMarketRecord :=
      ⟨r.asset, market, vault, r.outpoint, r.createdHeight, r.createdBlock⟩
    .ok { s with
      markets := s.markets.emplace vault record
      introduced := s.introduced.emplace vault record }
  | some established =>
    if established.baseAsset ≠ r.asset ∨ established.marketId ≠ market then
      .error "FlowMesh vault already belongs to a different base asset"
    else .ok s

def marketRules : Except String Scratch :=
  if r.kind = VAULT_KIND_USER_DEPOSIT then
    if r.asset = NativeAsset then
      if s.markets.contains r.vaultId = false then
        .error "native FlowMesh deposit precedes its colored market deposit"
      else .ok s
    else establish E domain fnAsset s r
  else if s.markets.contains r.vaultId = false then
    .error "FlowMesh pool change precedes market establishment"
  else .ok s

/-- The last part of the loop body: the asset belongs to the market pair. -/
def create : Except String Scratch := do
  reject (s.live.contains r.outpoint) "duplicate FlowMesh vault outpoint"
  let s ← marketRules E domain fnAsset s r
  reject ((s.markets.find? r.vaultId).all fun m => r.asset ≠ m.baseAsset ∧ r.asset ≠ NativeAsset)
    "FlowMesh vault carries an asset outside its market pair"
  .ok { s with
    live := s.live.emplace r.outpoint r
    createdInOrder := s.createdInOrder ++ [r] }

end Markets

section Blocks

variable (E : VaultEnv) (params : Params)

section

variable (domain fnAsset : Uint256) (info : BlockInfo) (txid : Uint256) (i : Nat) (s : Scratch)

def vaultRecord (parsed : ModernOutput) (vault : VaultParams) : FlowMeshVaultRecord where
  outpoint := ⟨txid, UInt32.ofNat i⟩
  asset := parsed.asset
  amount := parsed.amount
  vaultId := parsed.policyCommitment
  kind := vault.kind
  shard := vault.shard
  account := vault.account
  createdHeight := info.height
  createdBlock := info.blockHash

/-- The record of an output, if it is a vault. -/
def readVault (out : CTxOut) : Except String (Option FlowMeshVaultRecord) :=
  if claimsAssetOutput out.scriptPubKey = false then .ok none
  else match viewAssetAwareOutput E.toEnv out info.height params with
    | .error e =>
      .error ("FlowMesh vault output parse failed at output " ++ toString i ++ ": " ++ e)
    | .ok parsed =>
      if parsed.policyType ≠ PolicyType.DEX_VAULT.code then .ok none
      else match parseVaultParams parsed.policyParams with
        | none => .error "FlowMesh vault output has invalid semantic params"
        | some vault =>
          if checkVaultParams E.output parsed.policyCommitment parsed.policyParams = false then
            .error "FlowMesh vault output has invalid semantic params"
          else if i > UINT32_MAX then .error "FlowMesh vault output index exceeds u32"
          else .ok (some (vaultRecord info txid i parsed vault))

/-- One round of the loop over the outputs. -/
def verifyOutput (x : CTxOut × Nat) : Except String Scratch := do
  let record ← readVault E params info txid x.2 x.1
  match record with
  | none => .ok s
  | some r => create E domain fnAsset s r

/-- One transaction: its spends come before its outputs. -/
def verifyTransaction (base : LiveMap) (s : Scratch) (tx : CTransaction) : Except String Scratch :=
  tx.vout.zipIdx.foldlM (verifyOutput E params domain fnAsset info (E.txid tx))
    (tx.prevouts.foldl (spend base) s)

/-- Whether the deposit that establishes a market is live at the end of the block. -/
def depositLive (m : FlowMeshMarketRecord) : Bool :=
  (s.live.find? m.establishingDeposit).any fun r =>
    r.kind == VAULT_KIND_USER_DEPOSIT && r.asset == m.baseAsset && r.vaultId == m.vaultId

end

/-- `VerifyBlock`. -/
def verifyBlock (index : FlowMeshVaultIndex) (vtx : List CTransaction) (info : BlockInfo) :
    Except String FlowMeshVaultBlockDelta := do
  reject (flowMeshVaultPreparationRulesActive params info.height = false)
    "FlowMesh vault history is not active"
  reject (info.blockHash = 0) "FlowMesh vault block hash is null"
  let domain ← demand (configuredChainDomain E.toEnv params) "FlowMesh market domain is unavailable"
  let fnAsset ← demand (configuredFnAssetId E.toEnv params) "FlowMesh market domain is unavailable"
  let s ← vtx.foldlM (verifyTransaction E params domain fnAsset info index.live)
    { live := index.live, markets := index.markets }
  reject (s.introduced.entries.any fun e => depositLive s e.2 = false)
    "FlowMesh market-establishing deposit is not live at the block boundary"
  .ok
    { height := info.height
      blockHash := info.blockHash
      removed := s.removedFromParent
      added := s.createdInOrder.filter fun r => s.live.find? r.outpoint = some r
      marketsAdded := s.introduced.entries.map (·.2) }

end Blocks

/-! ## Connecting and disconnecting -/

namespace FlowMeshVaultIndex

/-- A record that has to be there is taken out. -/
def remove (e : String) (m : LiveMap) (r : FlowMeshVaultRecord) : Except String LiveMap :=
  if m.find? r.outpoint ≠ some r then .error e else .ok (m.erase r.outpoint)

def put (e : String) (m : LiveMap) (r : FlowMeshVaultRecord) : Except String LiveMap :=
  if m.contains r.outpoint then .error e else .ok (m.emplace r.outpoint r)

section

variable (C : Assets.Crypto) (delta : FlowMeshVaultBlockDelta) (next : LiveMap)
  (markets : MarketMap) (m : FlowMeshMarketRecord)

/-- What `ConnectBlock` asks of a market and of the deposit that establishes it. -/
def marketOk : Bool :=
  m.createdHeight == delta.height && m.createdBlock == delta.blockHash &&
    m.baseAsset != 0 && m.baseAsset != NativeAsset && m.marketId != 0 && m.vaultId != 0 &&
    markets.entries.all (fun e => e.2.marketId != m.marketId && e.2.baseAsset != m.baseAsset) &&
    (next.find? m.establishingDeposit).any fun r =>
      r.asset == m.baseAsset && r.vaultId == m.vaultId && r.kind == VAULT_KIND_USER_DEPOSIT &&
        r.account.any (fun a => a != 0 && r.shard == flowMeshUserDepositShard C m.vaultId a) &&
        delta.added.contains r

def addMarket : Except String MarketMap :=
  if marketOk C delta next markets m = false ∨ markets.contains m.vaultId then
    .error "FlowMesh vault delta has an invalid market establishment"
  else .ok (markets.emplace m.vaultId m)

end

def connectBlock (C : Assets.Crypto) (index : FlowMeshVaultIndex) (delta : FlowMeshVaultBlockDelta) :
    Except String FlowMeshVaultIndex := do
  reject (delta.height < 0 ∨ delta.blockHash = 0) "invalid FlowMesh vault block delta identity"
  reject (index.history.head?.any fun last => delta.height ≠ last.height + 1)
    "non-contiguous FlowMesh vault block delta"
  let mid ← delta.removed.foldlM (remove "FlowMesh vault delta removes the wrong outpoint") index.live
  let next ← delta.added.foldlM (put "FlowMesh vault delta duplicates an outpoint") mid
  let markets ← delta.marketsAdded.foldlM (addMarket C delta next) index.markets
  .ok { live := next, markets, history := delta :: index.history }

def removeMarket (markets : MarketMap) (m : FlowMeshMarketRecord) : Except String MarketMap :=
  if markets.find? m.vaultId ≠ some m then .error "FlowMesh vault undo cannot remove its market"
  else .ok (markets.erase m.vaultId)

section

variable (o : COutPoint) (index : FlowMeshVaultIndex) (id : MarketId) (v : VaultId)
  (asset : Uint256) (anchor : BlockInfo)

def disconnectBlock (info : BlockInfo) : Except String FlowMeshVaultIndex :=
  match index.history with
  | [] => .error "FlowMesh vault disconnect does not match the index tip"
  | delta :: history => do
    reject (delta.height ≠ info.height ∨ delta.blockHash ≠ info.blockHash)
      "FlowMesh vault disconnect does not match the index tip"
    let mid ← delta.added.reverse.foldlM (remove "FlowMesh vault undo cannot remove its addition")
      index.live
    let previous ← delta.removed.reverse.foldlM
      (put "FlowMesh vault undo cannot restore its removal") mid
    let markets ← delta.marketsAdded.reverse.foldlM removeMarket index.markets
    .ok { live := previous, markets, history }

/-! ## Queries -/

section

variable (state : Option FlowMeshVaultRecord) (r : FlowMeshVaultRecord)

/-- An addition of a later block is taken back, as far as one outpoint goes. -/
def lookbackAdded : Except Unit (Option FlowMeshVaultRecord) :=
  if r.outpoint ≠ o then .ok state else if state ≠ some r then .error () else .ok none

def lookbackRemoved : Except Unit (Option FlowMeshVaultRecord) :=
  if r.outpoint ≠ o then .ok state else if state ≠ none then .error () else .ok (some r)

end

def lookbackBlock (delta : FlowMeshVaultBlockDelta) (state : Option FlowMeshVaultRecord) :
    Except Unit (Option FlowMeshVaultRecord) := do
  let mid ← delta.added.reverse.foldlM (lookbackAdded o) state
  delta.removed.reverse.foldlM (lookbackRemoved o) mid

/-- The loop of `LookupAt` over the history. -/
def lookback : BlockInfo → List FlowMeshVaultBlockDelta → Option FlowMeshVaultRecord →
    Except Unit (Option FlowMeshVaultRecord) :=
  BlockJournal.rewind (·.toBlockInfo) (lookbackBlock o)

/-- `LookupAt`. -/
def lookupAt (o : COutPoint) (anchor : BlockInfo) : Option FlowMeshVaultRecord :=
  match lookback o anchor index.history (index.live.find? o) with
  | .error _ => none
  | .ok state => state

/-- `Market`: the first one of that id. -/
def market : Option FlowMeshMarketRecord :=
  (index.markets.entries.map (·.2)).find? (·.marketId == id)

/-- Whether the block is in the history; the oldest delta of its height decides. -/
def hasAnchor : Bool :=
  (index.history.reverse.find? (·.height == anchor.height)).any (·.blockHash == anchor.blockHash)

/-- `MarketAt`. -/
def marketAt : Option FlowMeshMarketRecord :=
  match index.market id with
  | none => none
  | some m =>
    if m.createdHeight > anchor.height then none
    else if index.hasAnchor anchor = false then none
    else if (index.history.reverse.find? fun d =>
        d.height == m.createdHeight && d.blockHash == m.createdBlock).any
          (·.marketsAdded.contains m) then some m
    else none

def marketLe (a b : FlowMeshMarketRecord) : Bool := a.marketId ≤ b.marketId

def sortMarkets (markets : List FlowMeshMarketRecord) : List FlowMeshMarketRecord :=
  markets.mergeSort marketLe

/-- `MarketsAt`. -/
def marketsAt : List FlowMeshMarketRecord :=
  if index.hasAnchor anchor = false then []
  else sortMarkets ((index.markets.entries.map (·.2)).filter fun m =>
    m.createdHeight ≤ anchor.height ∧ (index.marketAt m.marketId anchor).isSome)

/-! ## The inputs of a withdrawal -/

/-- The order of the inputs: larger amounts first, then by outpoint. -/
def better (a b : FlowMeshVaultRecord) : Bool :=
  a.amount > b.amount || (a.amount == b.amount && a.outpoint < b.outpoint)

def eligible (r : FlowMeshVaultRecord) : Bool :=
  !(r.createdHeight > anchor.height || r.vaultId != v || r.asset != asset ||
    r.kind != VAULT_KIND_POOL_CHANGE || r.account.isSome || r.amount ≤ 0 || r.amount > MAX_MONEY)

/-- The lambda `consider`; the records before the place of `std::lower_bound` are those better
than the new one. -/
def consider (selected : List FlowMeshVaultRecord) (r : FlowMeshVaultRecord)
    : List FlowMeshVaultRecord :=
  if eligible v asset anchor r = false then selected
  else if selected.any (·.outpoint == r.outpoint) then selected
  else
    let before := selected.takeWhile (better · r)
    let position := selected.dropWhile (better · r)
    if position = [] ∧ selected.length = FLOWMESH_MAX_WITHDRAWAL_VAULT_INPUTS then selected
    else
      let inserted := before ++ r :: position
      if inserted.length > FLOWMESH_MAX_WITHDRAWAL_VAULT_INPUTS then inserted.dropLast
      else inserted

/-- What the blocks above the anchor removed, latest block first. -/
def removedSince : List FlowMeshVaultRecord :=
  (index.history.takeWhile (·.height > anchor.height)).flatMap (·.removed)

/-- `LargestWithdrawalInputsAt`. -/
def largestWithdrawalInputsAt : Option (List FlowMeshVaultRecord) :=
  if v = 0 ∨ anchor.height < 0 then none
  else if index.hasAnchor anchor = false then none
  else
    let selected := (index.live.entries.map (·.2)).foldl (consider v asset anchor) []
    some ((index.removedSince anchor).foldl (consider v asset anchor) selected)

/-- `WithdrawalCapacityAt`. -/
def withdrawalCapacityAt : Option Int :=
  match index.largestWithdrawalInputsAt v asset anchor with
  | none => none
  | some selected => selected.foldlM (fun capacity r =>
      if r.amount > MAX_MONEY - capacity then none else some (capacity + r.amount)) 0

end

end FlowMeshVaultIndex

end B3Coin.FlowMesh.VaultIndex
