import B3Coin.Assets.Context
import B3Coin.BlockJournal
import B3Coin.FlowMesh.Seats
import B3Coin.Lib.InverseIndex

/-!
# The index of FN seats

`node/fn_seat_index.cpp` and `modern/flowmesh_seat.h`. A seat is an FN output of
version 2 with its evidence record. A block is judged on a scratch copy of the
two maps; what remains of its spends and creations is a delta, which is connected
and disconnected as a whole. Old memberships are found by unwinding deltas.
-/
namespace B3Coin.FlowMesh.SeatIndex

open Codec (Bytes)
open Assets (ModernOutput NativeAsset parseAssetOutput claimsAssetOutput configuredChainDomain
  FN_SEAT_POLICY_VERSION_V2 FN_SEAT_POLICY_PARAMS_SIZE)
open Consensus (Params flowMeshSeatBindingScheduleConfigured flowMeshSeatBindingRulesActive
  flowMeshRulesActive FLOWMESH_ANCHOR_DEPTH INT_MAX)
open Guards

/-- The hashes and signature schemes the seat rules call. -/
structure SeatEnv extends Assets.Env where
  seat : SeatCrypto
  /-- `bls::Signature::Decode` and `bls::VerifyPoP` for an encoded key. -/
  verifyPoP : Bytes → Bytes → Bool
  /-- `GetHash`. -/
  txid : CTransaction → Uint256

/-! ## Seat bindings of a transaction -/

def CREATION_ACTION_FLOWMESH_SEAT_BINDING : Nat := 7
def FLOWMESH_SEAT_BINDING_ACTION_VERSION_V1 : Nat := 1
def FLOWMESH_SEAT_BINDING_ACTION_V1_SIZE : Nat := 100

structure FlowMeshSeatBindingV1 where
  outputIndex : Nat
  pop : Bytes
  deriving DecidableEq

structure VerifiedFlowMeshSeatBinding where
  outputIndex : Nat
  publicKey : BlsPubkey
  proofOfPossession : Bytes
  deriving DecidableEq

/-- `DecodeFlowMeshSeatBindingRecord`. -/
def decodeFlowMeshSeatBindingRecord (record : CMpaRecord) :
    Except String FlowMeshSeatBindingV1 := do
  reject (record.payloadType ≠ CREATION_ACTION_FLOWMESH_SEAT_BINDING ∨
    record.payloadVersion ≠ FLOWMESH_SEAT_BINDING_ACTION_VERSION_V1)
    "not a FlowMesh seat-binding record"
  reject (record.payload.length ≠ FLOWMESH_SEAT_BINDING_ACTION_V1_SIZE)
    "FlowMesh seat-binding record has the wrong size"
  .ok ⟨beValue (record.payload.take 4), record.payload.drop 4⟩

def isFlowMeshSeatOutput (out : ModernOutput) : Bool :=
  out.policyType == PolicyType.FN.code && out.policyVersion == FN_SEAT_POLICY_VERSION_V2

section Bindings

variable (E : SeatEnv)

/-- The seat outputs, by index, with their encoded keys. -/
def collectSeats : List (CTxOut × Nat) → OrderedMap Nat (ModernOutput) →
    Except String (OrderedMap Nat ModernOutput)
  | [], seats => .ok seats
  | (out, i) :: rest, seats =>
    if claimsAssetOutput out.scriptPubKey = false then collectSeats rest seats
    else match parseAssetOutput E.output out with
      | .error e =>
        .error ("FlowMesh seat output parse failed at output " ++ toString i ++ ": " ++ e)
      | .ok parsed =>
        if isFlowMeshSeatOutput parsed = false then collectSeats rest seats
        else if i > UINT32_MAX then .error "FlowMesh seat output index exceeds u32"
        else if parsed.amount ≠ 1 then .error "FlowMesh seat output amount is not 1"
        else if parsed.policyParams.length ≠ FN_SEAT_POLICY_PARAMS_SIZE then
          .error "FlowMesh seat output BLS key has the wrong size"
        else if E.output.decodePublicKey parsed.policyParams = false then
          .error "FlowMesh seat output BLS key is not canonical"
        else collectSeats rest (seats.emplace i parsed)

/-- The evidence records, by the output they name. -/
def collectEvidence (seats : OrderedMap Nat ModernOutput) :
    List CMpaRecord → OrderedMap Nat FlowMeshSeatBindingV1 →
    Except String (OrderedMap Nat FlowMeshSeatBindingV1)
  | [], evidence => .ok evidence
  | record :: rest, evidence =>
    if record.payloadType ≠ CREATION_ACTION_FLOWMESH_SEAT_BINDING then
      collectEvidence seats rest evidence
    else do
      let binding ← decodeFlowMeshSeatBindingRecord record
      reject (seats.contains binding.outputIndex = false) "orphan FlowMesh seat-binding record"
      reject (evidence.contains binding.outputIndex) "duplicate FlowMesh seat-binding record"
      collectEvidence seats rest (evidence.emplace binding.outputIndex binding)

/-- One round of the last loop: the proof of possession of one seat. -/
def verifyEvidence (seats : OrderedMap Nat ModernOutput) (e : Nat × FlowMeshSeatBindingV1) :
    Except String VerifiedFlowMeshSeatBinding :=
  let key := ((seats.find? e.1).map (·.policyParams)).getD []
  if E.verifyPoP key e.2.pop then .ok ⟨e.1, beValue key, e.2.pop⟩
  else .error "invalid FlowMesh seat proof of possession"

/-- `ExtractVerifiedFlowMeshSeatBindings`. -/
def extractVerifiedFlowMeshSeatBindings (params : Params) (height : Int) (tx : CTransaction) :
    Except String (List VerifiedFlowMeshSeatBinding) := do
  let seats ← collectSeats E tx.vout.zipIdx ∅
  if seats.size = 0 ∧ tx.mpa.all (·.payloadType ≠ CREATION_ACTION_FLOWMESH_SEAT_BINDING) then .ok []
  else
    reject (flowMeshSeatBindingRulesActive params height = false)
      "FlowMesh seat binding is not active"
    let domain ← demand (configuredChainDomain E.toEnv params) "FlowMesh seat FN asset id is unavailable"
    reject (seats.entries.any fun e => e.2.asset ≠ E.fnAssetId domain)
      "FlowMesh seat output carries the wrong FN asset id"
    let evidence ← collectEvidence seats tx.mpa ∅
    reject (evidence.size ≠ seats.size) "FlowMesh seat output is missing binding evidence"
    evidence.entries.mapM (verifyEvidence E seats)

end Bindings

/-! ## The index -/

structure FnSeatRecord where
  outpoint : COutPoint
  seatId : SeatId
  blsPubkey : BlsPubkey
  proofOfPossession : Bytes
  createdHeight : Int
  createdBlock : Uint256
  deriving DecidableEq

abbrev FnSeatBlockDelta := BlockDelta FnSeatRecord

structure FnSeatSnapshot where
  anchorHeight : Int
  anchorHash : Uint256
  members : List FnSeatRecord
  deriving DecidableEq

def FnSeatSnapshot.flowMeshReady (s : FnSeatSnapshot) : Bool := 4 ≤ s.members.length

/-- The two maps. -/
structure Seats where
  byOutpoint : OrderedMap COutPoint FnSeatRecord := ∅
  ownerOfKey : OrderedMap BlsPubkey COutPoint := ∅
  deriving DecidableEq

/-- `history` and `readinessTransitions` have the latest block first. -/
structure FnSeatIndex extends Seats where
  history : List FnSeatBlockDelta := []
  readinessTransitions : List (Int × Bool) := []
  snapshots : OrderedMap Uint256 FnSeatSnapshot := ∅
  deriving DecidableEq

/-- `was_ready`, `is_ready`. -/
def Seats.ready (s : Seats) : Bool := 4 ≤ s.byOutpoint.size

/-- Take out a seat that has to be there, with its key. -/
def Seats.remove (wrongSeat wrongOwner : String) (s : Seats) (r : FnSeatRecord) :
    Except String Seats :=
  if s.byOutpoint.find? r.outpoint ≠ some r then .error wrongSeat
  else if s.ownerOfKey.find? r.blsPubkey ≠ some r.outpoint then .error wrongOwner
  else .ok ⟨s.byOutpoint.erase r.outpoint, s.ownerOfKey.erase r.blsPubkey⟩

def Seats.put (s : Seats) (r : FnSeatRecord) : Seats :=
  ⟨s.byOutpoint.emplace r.outpoint r, s.ownerOfKey.emplace r.blsPubkey r.outpoint⟩

/-! ## Judging a block -/

/-- The scratch state of `VerifyBlock`. -/
structure Scratch extends Seats where
  removedFromParent : List FnSeatRecord := []
  createdInOrder : List FnSeatRecord := []

/-- A spent outpoint releases its live seat. -/
def spend (base : Seats) (s : Scratch) (prevout : COutPoint) : Except String Scratch :=
  match s.byOutpoint.find? prevout with
  | none => .ok s
  | some removed =>
    if s.ownerOfKey.find? removed.blsPubkey ≠ some removed.outpoint then
      .error "FlowMesh FN-seat reverse index is inconsistent"
    else .ok { s with
      byOutpoint := s.byOutpoint.erase prevout
      ownerOfKey := s.ownerOfKey.erase removed.blsPubkey
      -- a seat created earlier in this block is no removal from the parent
      removedFromParent :=
        if base.byOutpoint.contains removed.outpoint then s.removedFromParent ++ [removed]
        else s.removedFromParent }

section Blocks

variable (E : SeatEnv) (params : Params)

def seatRecord (domain : Uint256) (info : BlockInfo) (txid : Uint256)
    (binding : VerifiedFlowMeshSeatBinding) : FnSeatRecord :=
  let outpoint : COutPoint := ⟨txid, UInt32.ofNat binding.outputIndex⟩
  { outpoint
    seatId := computeFlowMeshSeatId E.seat domain outpoint
    blsPubkey := binding.publicKey
    proofOfPossession := binding.proofOfPossession
    createdHeight := info.height
    createdBlock := info.blockHash }

def create (s : Scratch) (r : FnSeatRecord) : Except String Scratch :=
  if s.byOutpoint.contains r.outpoint then .error "duplicate FlowMesh FN-seat outpoint"
  else if s.ownerOfKey.contains r.blsPubkey then .error "duplicate live FlowMesh FN-seat BLS key"
  else
    let next := s.toSeats.put r
    if next.byOutpoint.size > FLOWMESH_MAX_ACTIVE_FN_SEATS then
      .error "too many live FlowMesh FN seats"
    else .ok { s with toSeats := next, createdInOrder := s.createdInOrder ++ [r] }

/-- One transaction: all spends release their seats before any output claims a key. -/
def verifyTransaction (domain : Uint256) (info : BlockInfo) (base : Seats) (s : Scratch)
    (tx : CTransaction) : Except String Scratch := do
  let s ← tx.prevouts.foldlM (spend base) s
  let bindings ← extractVerifiedFlowMeshSeatBindings E params info.height tx
  (bindings.map (seatRecord E domain info (E.txid tx))).foldlM create s

/-- `VerifyBlock`. -/
def verifyBlock (index : FnSeatIndex) (vtx : List CTransaction) (info : BlockInfo) :
    Except String FnSeatBlockDelta := do
  reject (flowMeshSeatBindingScheduleConfigured params = false)
    "FlowMesh FN-seat schedule is unavailable"
  reject (params.assetActivationHeight.any fun h => info.height < h)
    "FlowMesh FN-seat index is not active"
  reject (info.blockHash = 0) "FlowMesh FN-seat block hash is null"
  let domain ← demand (configuredChainDomain E.toEnv params) "FlowMesh FN-seat chain domain is unavailable"
  let s ← vtx.foldlM (verifyTransaction E params domain info index.toSeats)
    { toSeats := index.toSeats }
  .ok
    { height := info.height
      blockHash := info.blockHash
      removed := s.removedFromParent
      added := s.createdInOrder.filter fun r => s.byOutpoint.find? r.outpoint = some r }

end Blocks

/-! ## Connecting and disconnecting -/

namespace FnSeatIndex

section

variable (s : Seats) (r : FnSeatRecord) (params : Params) (chain : CChain) (index : FnSeatIndex)
  (firstHeight : Int) (anchor : BlockInfo) (candidateHeight : Int)

/-- One addition of `ConnectBlock`. -/
def connectSeat : Except String Seats :=
  if s.byOutpoint.contains r.outpoint then .error "FlowMesh FN-seat delta duplicates an outpoint"
  else if s.ownerOfKey.contains r.blsPubkey then
    .error "FlowMesh FN-seat delta duplicates a live BLS key"
  else
    let next := s.put r
    if next.byOutpoint.size > FLOWMESH_MAX_ACTIVE_FN_SEATS then
      .error "FlowMesh FN-seat delta exceeds the live-seat cap"
    else .ok next

def connectBlock (delta : FnSeatBlockDelta) : Except String FnSeatIndex := do
  reject (delta.height < 0 ∨ delta.blockHash = 0) "invalid FlowMesh FN-seat block delta identity"
  reject (index.history.head?.any fun last => delta.height ≠ last.height + 1)
    "non-contiguous FlowMesh FN-seat block delta"
  let mid ← delta.removed.foldlM
    (Seats.remove "FlowMesh FN-seat delta removes the wrong outpoint"
      "FlowMesh FN-seat delta removes the wrong key owner") index.toSeats
  let next ← delta.added.foldlM connectSeat mid
  .ok { index with
    toSeats := next
    readinessTransitions :=
      if index.ready ≠ next.ready then (delta.height, next.ready) :: index.readinessTransitions
      else index.readinessTransitions
    history := delta :: index.history }

/-- One restored seat of `DisconnectBlock`. -/
def restoreSeat : Except String Seats :=
  if s.byOutpoint.contains r.outpoint ∨ s.ownerOfKey.contains r.blsPubkey then
    .error "FlowMesh FN-seat undo cannot restore a removed seat"
  else .ok (s.put r)

/-- A change of readiness is taken off the transitions, where it has to be the latest. -/
def undoReadiness (height : Int) (previous : Seats) : Except String (List (Int × Bool)) :=
  if index.ready ≠ previous.ready then
    if index.readinessTransitions.head? ≠ some (height, index.ready) then
      .error "FlowMesh FN-seat readiness history is inconsistent"
    else .ok index.readinessTransitions.tail
  else .ok index.readinessTransitions

def disconnectBlock (info : BlockInfo) : Except String FnSeatIndex :=
  match index.history with
  | [] => .error "FlowMesh FN-seat disconnect does not match the index tip"
  | delta :: history => do
    reject (delta.height ≠ info.height ∨ delta.blockHash ≠ info.blockHash)
      "FlowMesh FN-seat disconnect does not match the index tip"
    let mid ← delta.added.reverse.foldlM
      (Seats.remove "FlowMesh FN-seat undo cannot remove its addition"
        "FlowMesh FN-seat undo has the wrong added-key owner") index.toSeats
    let previous ← delta.removed.reverse.foldlM restoreSeat mid
    let transitions ← undoReadiness index info.height previous
    .ok
      { toSeats := previous
        readinessTransitions := transitions
        snapshots := index.snapshots.erase info.blockHash
        history }

/-! ## Old memberships -/

/-- `SeatBefore`, as the order a sort works with. -/
def seatLe (a b : FnSeatRecord) : Bool :=
  a.seatId < b.seatId || (a.seatId == b.seatId && decide (a.outpoint ≤ b.outpoint))

section

variable (m : OrderedMap COutPoint FnSeatRecord) (r : FnSeatRecord)

def members : List FnSeatRecord :=
  (m.entries.map (·.2)).mergeSort seatLe

def unwindAdded : Except Unit (OrderedMap COutPoint FnSeatRecord) :=
  if m.find? r.outpoint ≠ some r then .error () else .ok (m.erase r.outpoint)

def unwindRemoved : Except Unit (OrderedMap COutPoint FnSeatRecord) :=
  if m.contains r.outpoint then .error () else .ok (m.emplace r.outpoint r)

end

/-- A block taken back, in the loop of `SnapshotAt`. -/
def unwindBlock (delta : FnSeatBlockDelta) (m : OrderedMap COutPoint FnSeatRecord) :
    Except Unit (OrderedMap COutPoint FnSeatRecord) := do
  let mid ← delta.added.reverse.foldlM unwindAdded m
  delta.removed.reverse.foldlM unwindRemoved mid

/-- The loop of `SnapshotAt` over the history. -/
def unwind : BlockInfo → List FnSeatBlockDelta → OrderedMap COutPoint FnSeatRecord →
    Except Unit (OrderedMap COutPoint FnSeatRecord) :=
  BlockJournal.rewind BlockDelta.toBlockInfo unwindBlock

/-- `SnapshotAt`, with the index that has the snapshot cached. -/
def snapshotAt : Option FnSeatSnapshot × FnSeatIndex :=
  match (index.snapshots.find? anchor.blockHash).filter (·.anchorHeight == anchor.height) with
  | some cached => (some cached, index)
  | none =>
    match unwind anchor index.history index.byOutpoint with
    | .error _ => (none, index)
    | .ok m =>
      let snapshot : FnSeatSnapshot := ⟨anchor.height, anchor.blockHash, members m⟩
      (some snapshot,
        { index with snapshots := index.snapshots.insert anchor.blockHash snapshot })

/-! ## The bootstrap snapshot -/

/-- `AnchoredSnapshot`. -/
def anchoredSnapshot : Except String FnSeatSnapshot × FnSeatIndex :=
  if flowMeshRulesActive params candidateHeight = false then
    (.error "FlowMesh service is not active", index)
  else if anchor.height < 0 ∨ chain.get? anchor.height ≠ some anchor then
    (.error "FlowMesh seat anchor is not on the active chain", index)
  else if candidateHeight - anchor.height < FLOWMESH_ANCHOR_DEPTH then
    (.error "FlowMesh seat anchor is too shallow", index)
  else match index.snapshotAt anchor with
    | (none, index) => (.error "FlowMesh seat anchor snapshot is unavailable", index)
    | (some snapshot, index) => (.ok snapshot, index)

/-- `first_height` if the index was ready there, or the first change to ready after it. The place
of `std::upper_bound` is that of the latest change by then. -/
def selectHeight (latestHeight : Int) : Except String Int :=
  let afterFirst := index.readinessTransitions.takeWhile (firstHeight < ·.1)
  let prev := (index.readinessTransitions.dropWhile (firstHeight < ·.1)).head?
  if prev.any (·.2) then .ok firstHeight
  else match afterFirst.reverse.find? (·.2) with
    | none => .error "FlowMesh has fewer than four anchor-final bootstrap seats"
    | some ready =>
      if ready.1 > latestHeight then
        .error "FlowMesh has fewer than four anchor-final bootstrap seats"
      else .ok ready.1

/-- `EarliestFlowMeshReadySnapshot`. -/
def earliestFlowMeshReadySnapshot : Except String FnSeatSnapshot × FnSeatIndex :=
  if flowMeshRulesActive params candidateHeight = false then
    (.error "FlowMesh service is not active", index)
  else if params.assetActivationHeight.all fun (h : Nat) => firstHeight < h then
    (.error "FlowMesh bootstrap begins before seat history", index)
  else
    let latestHeight := candidateHeight - FLOWMESH_ANCHOR_DEPTH
    if firstHeight < 0 ∨ latestHeight < firstHeight ∨ latestHeight > INT_MAX then
      (.error "FlowMesh bootstrap anchor is not deep enough", index)
    else if chain.get? firstHeight = none then
      (.error "FlowMesh bootstrap start is not canonical", index)
    else match index.selectHeight firstHeight latestHeight with
      | .error e => (.error e, index)
      | .ok selectedHeight =>
        if selectedHeight > latestHeight then
          (.error "FlowMesh bootstrap anchor is not deep enough", index)
        else match chain.get? selectedHeight with
          | none => (.error "FlowMesh bootstrap anchor is not canonical", index)
          | some selected =>
            match index.anchoredSnapshot params chain selected candidateHeight with
            | (.error e, index) => (.error e, index)
            | (.ok snapshot, index) =>
              if snapshot.flowMeshReady = false then
                (.error "FlowMesh bootstrap readiness history is inconsistent", index)
              else (.ok snapshot, index)

end

end FnSeatIndex

end B3Coin.FlowMesh.SeatIndex
