import B3Coin.Bridge.Verify
import Mathlib.Data.Finset.Basic

/-!
# Connecting and disconnecting blocks

The second half of `node/bridge_state.cpp`: `ConnectBlock` checks a whole effect against
the live state before it writes any of it, and `DisconnectBlock` checks the retained
undo the same way. Both write in place.
-/
namespace B3Coin.Bridge

open Guards Proc

namespace BridgeBlockDelta

section

variable (d : BridgeBlockDelta)

def lightClientChanged : Bool := d.lightClientBefore.isSome || d.lightClientAfter.isSome

def lightClientConnectionChanged : Bool :=
  d.lightClientConnectionBefore.isSome || d.lightClientConnectionAfter.isSome

/-- The block itself, as the connection of the facts it adds. -/
def connection : BridgeStateConnection := ⟨d.height, d.blockHash⟩

/-- `authorized_amount` after the loop over the mint authorizations. -/
def authorizedAmount : Int := (d.mintAuthorizations.map (·.authorization.amount)).sum

def authorizedNullifiers : List BridgeDepositKey :=
  d.mintAuthorizations.map (·.authorization.nullifier)

def changedAmount : Int := (d.epochMintChanges.map fun c => c.after - c.before).sum

end

end BridgeBlockDelta

namespace BridgeState

variable (E : BridgeEnv) (s : BridgeState) (d : BridgeBlockDelta)

/-! ## The checks of `ConnectBlock` -/

def checkIdentity : Except String Unit := do
  reject (d.height < 0 ∨ d.blockHash = 0) "invalid bridge block delta identity"
  reject (d.previousHeight ≠ s.connectedHeight ∨ d.previousBlockHash ≠ s.connectedHash ∨
      (s.connectedHeight ≥ 0 ∧ d.height ≠ s.connectedHeight + 1))
    "bridge block delta does not extend the connected tip"

/-- The net advance of the finalized execution block, from `before` to `after`. -/
def advanceTooFar : Bool :=
  match d.lightClientBefore, d.lightClientAfter with
  | some before, some after =>
    !sameLightClientHeader before.finalizedHeader after.finalizedHeader &&
      !executionRangeReachable after.finalizedHeader.execution.blockNumber
        before.finalizedHeader.execution.blockNumber
  | _, _ => false

def checkLightClient : Except String Unit := do
  reject (d.lightClientChanged ≠ d.lightClientConnectionChanged)
    "bridge delta light-client connection metadata does not match store change"
  if d.lightClientChanged then
    reject (d.lightClientAfter = none ∨ !sameOptionalStore s.lightClient d.lightClientBefore ∨
        sameOptionalStore d.lightClientBefore d.lightClientAfter ∨
        d.lightClientConnectionBefore ≠ s.lightClientConnection ∨
        d.lightClientConnectionAfter ≠ some d.connection)
      "bridge delta light-client before-state does not match"
    reject (advanceTooFar d)
      "bridge delta light-client execution advance exceeds the backfill window"
  else .ok ()

def badAnchor (seen : List BridgeExecutionAnchor) (a : BridgeExecutionAnchor) : Bool :=
  a.blockHash = 0 || a.receiptsRoot = 0 || !hasValidBackfillOrigin a ||
    a.connectedHeight ≠ d.height || a.connectedBlock ≠ d.blockHash ||
    s.anchors.contains a.blockHash || s.anchorByHeight.contains a.blockNumber ||
    decide (a.blockHash ∈ seen.map (·.blockHash)) ||
    decide (a.blockNumber ∈ seen.map (·.blockNumber))

def checkAnchors : Except String Unit :=
  scan (badAnchor s d) "bridge delta contains a duplicate or mismatched execution anchor"
    d.anchorsAdded

def badMint (seen : List BridgeTxMintAuthorization) (a : BridgeTxMintAuthorization) : Bool :=
  a.transactionId = 0 || a.authorization.asset = 0 || a.authorization.amount ≤ 0 ||
    a.authorization.amount > MAX_MONEY || a.authorization.recipientScript.isEmpty ||
    decide (a.transactionId ∈ seen.map (·.transactionId)) ||
    decide (a.authorization.nullifier ∈ seen.map (·.authorization.nullifier)) ||
    (seen.map (·.authorization.amount)).sum > MAX_MONEY - a.authorization.amount

def checkMints : Except String Unit := do
  scan badMint "bridge delta contains a malformed mint authorization" d.mintAuthorizations
  scan (fun seen k => decide (k ∈ seen) || decide (k ∈ s.nullifiers) ||
      s.nullifierConnections.contains k)
    "bridge delta duplicates a deposit nullifier" d.nullifiersAdded
  reject (d.nullifiersAdded.toFinset ≠ d.authorizedNullifiers.toFinset)
    "bridge delta mint authorizations do not match nullifiers"

def badEpochChange (seen : List BridgeEpochMintChange) (c : BridgeEpochMintChange) : Bool :=
  c.asset = 0 || c.before ≠ s.minted c.key || c.after ≤ c.before || c.after > MAX_MONEY ||
    decide (c.key ∈ seen.map (·.key)) ||
    (seen.map fun x => x.after - x.before).sum > MAX_MONEY - (c.after - c.before)

def checkEpochs : Except String Unit := do
  scan (badEpochChange s) "bridge delta contains an invalid epoch mint change" d.epochMintChanges
  reject (d.changedAmount ≠ d.authorizedAmount)
    "bridge delta mint amount does not match epoch accounting"

def badWithdrawal (seen : List BridgeManagedWithdrawalRequest)
    (r : BridgeManagedWithdrawalRequest) : Bool :=
  r.transactionId = 0 || r.asset = 0 || r.amount ≤ 0 || r.amount > MAX_MONEY ||
    r.ethereumRecipient = 0 || r.connectedHeight ≠ d.height || r.connectedBlock ≠ d.blockHash ||
    decide (r.transactionId ∈ seen.map (·.transactionId)) || s.withdrawals.contains r.id

def checkWithdrawals : Except String Unit :=
  scan (badWithdrawal s d) "bridge delta contains an invalid withdrawal request" d.withdrawalsAdded

/-- The tree so far and the requests that made it. -/
abbrev TreeLoop := WithdrawalTreeState × List BridgeDecentralizedWithdrawalRequest

def badDecentralized (acc : TreeLoop) (r : BridgeDecentralizedWithdrawalRequest) : Bool :=
  r.transactionId = 0 || r.withdrawal.withdrawalId ≠ acc.1.count ||
    r.withdrawal.b3Height ≠ d.height.toNat || r.connectedHeight ≠ d.height ||
    r.connectedBlock ≠ d.blockHash ||
    bridgeWithdrawalLeafV1 E.keccak r.withdrawal ≠ some r.leaf ||
    decide (r.transactionId ∈ d.withdrawalsAdded.map (·.transactionId)) ||
    decide (r.transactionId ∈ acc.2.map (·.transactionId)) ||
    decide (r.source ∈ acc.2.map (·.source)) ||
    s.decentralizedWithdrawalSources.contains r.source ||
    s.decentralizedWithdrawals.contains r.withdrawal.withdrawalId ||
    (appendWithdrawalLeaf E.keccak acc.1 r.leaf).isNone

def nextDecentralized (acc : TreeLoop) (r : BridgeDecentralizedWithdrawalRequest) : TreeLoop :=
  ((appendWithdrawalLeaf E.keccak acc.1 r.leaf).getD acc.1, acc.2 ++ [r])

def checkDecentralized : Except String Unit := do
  reject (d.withdrawalTreeBefore ≠ s.withdrawalTree)
    "bridge delta withdrawal-tree before-state does not match"
  let expected ← loop (badDecentralized E s d) (nextDecentralized E)
    "bridge delta contains an invalid decentralized withdrawal" (s.withdrawalTree, [])
    d.decentralizedWithdrawalsAdded
  reject (d.withdrawalTreeAfter ≠ expected.1)
    "bridge delta withdrawal-tree after-state does not match"
  reject (s.withdrawalRoots.contains d.height) "bridge delta duplicates a withdrawal-root height"

def checkConnect : Except String Unit := do
  checkIdentity s d
  checkLightClient s d
  checkAnchors s d
  checkMints s d
  checkEpochs s d
  checkWithdrawals s d
  checkDecentralized E s d

/-! ## The writes of `ConnectBlock` -/

def connectLightClient : BridgeState :=
  if d.lightClientChanged then
    { s with
      lightClient := d.lightClientAfter
      lightClientConnection := d.lightClientConnectionAfter
      lightClientFloor := s.lightClientFloor.or
        (d.lightClientAfter.bind fun store =>
          d.lightClientConnectionAfter.map fun connection => ⟨store, connection⟩) }
  else s

def connectAnchors : BridgeState :=
  { s with
    anchors := s.anchors.emplaceAll (d.anchorsAdded.map fun a => (a.blockHash, a))
    anchorByHeight :=
      s.anchorByHeight.emplaceAll (d.anchorsAdded.map fun a => (a.blockNumber, a.blockHash)) }

def connectNullifiers : BridgeState :=
  { s with
    nullifiers := s.nullifiers ∪ d.nullifiersAdded.toFinset
    nullifierConnections :=
      s.nullifierConnections.emplaceAll (d.nullifiersAdded.map fun k => (k, d.connection)) }

def connectEpochs : BridgeState :=
  { s with epochMinted := s.epochMinted.insertAll (d.epochMintChanges.map fun c => (c.key, c.after)) }

def connectWithdrawals : BridgeState :=
  { s with withdrawals := s.withdrawals.emplaceAll (d.withdrawalsAdded.map fun r => (r.id, r)) }

def connectDecentralized : BridgeState :=
  { s with
    decentralizedWithdrawals := s.decentralizedWithdrawals.emplaceAll
      (d.decentralizedWithdrawalsAdded.map fun r => (r.withdrawal.withdrawalId, r))
    decentralizedWithdrawalSources := s.decentralizedWithdrawalSources.emplaceAll
      (d.decentralizedWithdrawalsAdded.map fun r => (r.source, r.withdrawal.withdrawalId)) }

def connectTip : BridgeState :=
  { s with
    withdrawalTree := d.withdrawalTreeAfter
    withdrawalRoots := s.withdrawalRoots.emplace d.height d.withdrawalTreeAfter.root
    connectedHeight := d.height
    connectedHash := d.blockHash }

/-- All writes together. -/
def connect : BridgeState :=
  (((((s.connectLightClient d).connectAnchors d).connectNullifiers d).connectEpochs d
    ).connectWithdrawals d).connectDecentralized d |>.connectTip d

/-! ## The checks of `DisconnectBlock` -/

def checkUndoTree : Except String Unit :=
  reject (s.withdrawalTree ≠ d.withdrawalTreeAfter ∨
      s.withdrawalRoots.find? d.height ≠ some d.withdrawalTreeAfter.root)
    "bridge undo withdrawal-tree after-state does not match"

def checkUndo : Except String Unit := do
  checkUndoTree s d
  reject (d.decentralizedWithdrawalsAdded.reverse.any fun r =>
      s.decentralizedWithdrawals.find? r.withdrawal.withdrawalId ≠ some r ||
      s.decentralizedWithdrawalSources.find? r.source ≠ some r.withdrawal.withdrawalId)
    "bridge undo cannot remove its decentralized withdrawal"
  reject (d.withdrawalsAdded.reverse.any fun r => s.withdrawals.find? r.id ≠ some r)
    "bridge undo cannot remove its withdrawal request"
  reject (d.epochMintChanges.reverse.any fun c => s.epochMinted.find? c.key ≠ some c.after)
    "bridge undo epoch accounting does not match"
  reject (d.nullifiersAdded.reverse.any fun k => k ∉ s.nullifiers ||
      s.nullifierConnections.find? k ≠ some d.connection)
    "bridge undo cannot remove its deposit nullifier"
  reject (d.anchorsAdded.reverse.any fun a => s.anchors.find? a.blockHash ≠ some a ||
      s.anchorByHeight.find? a.blockNumber ≠ some a.blockHash)
    "bridge undo cannot remove its execution anchor"
  reject (d.lightClientChanged ∧ (d.lightClientAfter = none ∨ d.lightClientConnectionAfter = none ∨
      !sameOptionalStore s.lightClient d.lightClientAfter ∨
      s.lightClientConnection ≠ d.lightClientConnectionAfter))
    "bridge undo light-client after-state does not match"

/-! ## The writes of `DisconnectBlock` -/

def undoWithdrawals : BridgeState :=
  { s with withdrawals := s.withdrawals.eraseAll (d.withdrawalsAdded.reverse.map (·.id)) }

def undoDecentralized : BridgeState :=
  { s with
    decentralizedWithdrawals := s.decentralizedWithdrawals.eraseAll
      (d.decentralizedWithdrawalsAdded.reverse.map (·.withdrawal.withdrawalId))
    decentralizedWithdrawalSources := s.decentralizedWithdrawalSources.eraseAll
      (d.decentralizedWithdrawalsAdded.reverse.map (·.source)) }

def undoTree : BridgeState :=
  { s with
    withdrawalRoots := s.withdrawalRoots.erase d.height
    withdrawalTree := d.withdrawalTreeBefore }

def undoEpochs : BridgeState :=
  { s with
    epochMinted := s.epochMinted.restore (d.epochMintChanges.reverse.map fun c => (c.key, c.before)) }

def undoNullifiers : BridgeState :=
  { s with
    nullifiers := s.nullifiers \ d.nullifiersAdded.toFinset
    nullifierConnections := s.nullifierConnections.eraseAll d.nullifiersAdded.reverse }

def undoAnchors : BridgeState :=
  { s with
    anchors := s.anchors.eraseAll (d.anchorsAdded.reverse.map (·.blockHash))
    anchorByHeight := s.anchorByHeight.eraseAll (d.anchorsAdded.reverse.map (·.blockNumber)) }

def undoLightClient : BridgeState :=
  if d.lightClientChanged then
    { s with
      lightClientFloor :=
        if s.lightClientFloor.any (fun f => some f.connection == d.lightClientConnectionAfter) then
          none
        else s.lightClientFloor
      lightClient := d.lightClientBefore
      lightClientConnection := d.lightClientConnectionBefore }
  else s

def undoTip : BridgeState :=
  { s with connectedHeight := d.previousHeight, connectedHash := d.previousBlockHash }

/-- All writes together. -/
def undo : BridgeState :=
  ((((((s.undoWithdrawals d).undoDecentralized d).undoTree d).undoEpochs d
    ).undoNullifiers d).undoAnchors d).undoLightClient d |>.undoTip d

end BridgeState

namespace BridgeStateIndex

/-- `m_history.push_back(delta)`, dropping the oldest entry over the bound. -/
def remember (history : List BridgeBlockDelta) (d : BridgeBlockDelta) : List BridgeBlockDelta :=
  if (history ++ [d]).length > BRIDGE_STATE_UNDO_BLOCKS then (history ++ [d]).tail
  else history ++ [d]

/-- A write to the state of the index. -/
def writeState (f : BridgeState → BridgeState) : Proc String BridgeStateIndex Unit :=
  write fun i => { i with state := f i.state }

def connectBlock (E : BridgeEnv) (d : BridgeBlockDelta) : Proc String BridgeStateIndex Unit := do
  let i ← read id
  compute (i.state.checkConnect E d)
  writeState (·.connectLightClient d)
  writeState (·.connectAnchors d)
  writeState (·.connectNullifiers d)
  writeState (·.connectEpochs d)
  writeState (·.connectWithdrawals d)
  writeState (·.connectDecentralized d)
  writeState (·.connectTip d)
  write fun i => { i with history := remember i.history d }

/-- The undo of the tip, if it is the block named and still retained. -/
def retainedUndo (i : BridgeStateIndex) (height : Int) (blockHash : Uint256) :
    Except String BridgeBlockDelta := do
  reject (i.state.connectedHeight ≠ height ∨ i.state.connectedHash ≠ blockHash)
    "bridge disconnect does not match the index tip"
  let d ← demand i.history.getLast? "bridge disconnect undo is no longer retained"
  reject (d.height ≠ height ∨ d.blockHash ≠ blockHash)
    "bridge retained undo does not match the connected tip"
  .ok d

def disconnectBlock (height : Int) (blockHash : Uint256) : Proc String BridgeStateIndex Unit := do
  let i ← read id
  let d ← compute (i.retainedUndo height blockHash)
  compute (i.state.checkUndo d)
  writeState (·.undoWithdrawals d)
  writeState (·.undoDecentralized d)
  writeState (·.undoTree d)
  writeState (·.undoEpochs d)
  writeState (·.undoNullifiers d)
  writeState (·.undoAnchors d)
  writeState (·.undoLightClient d)
  writeState (·.undoTip d)
  write fun i => { i with history := i.history.dropLast }

/-! ## The finalized light client -/

/-- The lambda `eligible`: a store with the block that set it, not above the finalized height. -/
def eligible (height : Int) (store : Option LightClientStore)
    (connection : Option BridgeStateConnection) : Option BridgeLightClientSnapshot :=
  match store, connection with
  | some store, some connection =>
    if connection.height < 0 ∨ connection.height > height then none else some ⟨store, connection⟩
  | _, _ => none

/-- The loop over the retained deltas, newest first: both sides of each transition. -/
def searchHistory (height : Int) : List BridgeBlockDelta → Option BridgeLightClientSnapshot
  | [] => none
  | d :: older =>
    (eligible height d.lightClientAfter d.lightClientConnectionAfter).or
      ((eligible height d.lightClientBefore d.lightClientConnectionBefore).or
        (searchHistory height older))

/-- `FinalizedLightClientSnapshot`. -/
def finalizedLightClientSnapshot (i : BridgeStateIndex) (height : Int) :
    Option BridgeLightClientSnapshot :=
  if height < 0 then none
  else
    (eligible height i.state.lightClient i.state.lightClientConnection).or
      ((searchHistory height i.history.reverse).or
        (i.state.lightClientFloor.filter fun floor =>
          0 ≤ floor.connection.height ∧ floor.connection.height ≤ height))

end BridgeStateIndex

end B3Coin.Bridge
