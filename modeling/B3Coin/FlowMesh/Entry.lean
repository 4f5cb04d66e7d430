import B3Coin.FlowMesh.Action
import B3Coin.FlowMesh.Effects
import B3Coin.Lib.Guards

/-!
# Production entries

`ProductionEntryCore` of `flowmesh/production_engine.h`, its codec, shape check and
commitment (`production_commitment.h`). The hash is taken over the commitment, a
fixed-width record that repeats the entry's fields except the actions, which it
names by their root, and the handoff fields, which it has for handoffs only.
-/
namespace B3Coin.FlowMesh

open Codec

def FLOWMESH_PRODUCTION_ENTRY_VERSION_V1 : UInt16 := 1

/-- `ProductionEntryKind::EXECUTION`. -/
def EXECUTION : UInt8 := 1

/-- `ProductionEntryKind::EPOCH_HANDOFF`. -/
def EPOCH_HANDOFF : UInt8 := 2

@[ext] structure ProductionEntryCore where
  version : UInt16 := FLOWMESH_PRODUCTION_ENTRY_VERSION_V1
  kind : UInt8 := EXECUTION
  domain : Uint256
  marketId : MarketId
  epoch : UInt64
  seatSetHash : Uint256
  sequence : UInt64
  parentHash : Uint256
  anchor : AnchorRef
  previousStateRoot : Uint256
  actions : List Action := []
  actionsRoot : Uint256
  resultRoot : Uint256
  stateRoot : Uint256
  effectStart : UInt64
  effectCount : UInt32 := 0
  effectRoot : Uint256
  nextEpoch : UInt64 := 0
  nextAnchor : AnchorRef := {}
  nextSeatSetHash : Uint256 := 0
  deriving DecidableEq

/-- The fields of an entry in wire order. -/
def entryCodec : Codec ProductionEntryCore :=
  (u16.pair (u8.pair (uint256.pair (uint256.pair (u64.pair (uint256.pair (u64.pair (uint256.pair
    (anchorCodec.pair (uint256.pair
      ((boundedVector FLOWMESH_V1_MAX_MICROBLOCK_ACTIONS actionCodec).pair
        (uint256.pair (uint256.pair (uint256.pair (u64.pair (u32.pair (uint256.pair (u64.pair
          (anchorCodec.pair uint256))))))))))))))))))).map
    (fun (version, kind, domain, marketId, epoch, seatSetHash, sequence, parentHash, anchor,
        previousStateRoot, actions, actionsRoot, resultRoot, stateRoot, effectStart, effectCount,
        effectRoot, nextEpoch, nextAnchor, nextSeatSetHash) =>
      ⟨version, kind, domain, marketId, epoch, seatSetHash, sequence, parentHash, anchor,
        previousStateRoot, actions, actionsRoot, resultRoot, stateRoot, effectStart, effectCount,
        effectRoot, nextEpoch, nextAnchor, nextSeatSetHash⟩)
    (fun e => (e.version, e.kind, e.domain, e.marketId, e.epoch, e.seatSetHash, e.sequence,
      e.parentHash, e.anchor, e.previousStateRoot, e.actions, e.actionsRoot, e.resultRoot,
      e.stateRoot, e.effectStart, e.effectCount, e.effectRoot, e.nextEpoch, e.nextAnchor,
      e.nextSeatSetHash)) fun _ _ => rfl

inductive ProductionEntryCheck where
  | OK | BAD_VERSION_OR_KIND | ENTRY_TOO_LARGE | TOO_MANY_ACTIONS | NON_CANONICAL_ACTIONS
  | INVALID_SEAT_SET | WRONG_DOMAIN | WRONG_MARKET | WRONG_EPOCH | WRONG_SEAT_SET | WRONG_SEQUENCE
  | WRONG_PARENT | BAD_ANCHOR | WRONG_PREVIOUS_STATE_ROOT | WRONG_ACTIONS_ROOT | WRONG_RESULT_ROOT
  | WRONG_STATE_ROOT | WRONG_EFFECT_RANGE | CHAIN_SETTLEMENT_MISMATCH | BAD_FEE_CONTEXT
  | EXECUTION_FAILED | BAD_HANDOFF_FIELDS | INVALID_NEXT_SEAT_SET | WRONG_NEXT_EPOCH
  | WRONG_NEXT_ANCHOR | WRONG_NEXT_SEAT_SET | BAD_CERTIFICATE | HANDOFF_NOT_CONNECTED | EPOCH_PAUSED
  deriving DecidableEq

section

variable (D : Digests) (e : ProductionEntryCore)

/-- What `ComputeProductionHandoffResultRoot` hashes. -/
def ProductionEntryCore.handoffBytes : Bytes :=
  uint256.put e.domain ++ uint256.put e.marketId ++ u64.put e.epoch ++ uint256.put e.seatSetHash ++
    u64.put e.sequence ++ uint256.put e.parentHash ++ anchorCodec.put e.anchor ++
    uint256.put e.previousStateRoot ++ u64.put e.nextEpoch ++ anchorCodec.put e.nextAnchor ++
    uint256.put e.nextSeatSetHash

def computeProductionHandoffResultRoot : Uint256 := D.handoffResultRoot e.handoffBytes

/-- The effect range of an entry is within the counter, and its root belongs to its size. -/
def effectRangeOk : Bool :=
  e.effectCount.toNat ≤ FLOWMESH_MAX_CHECKPOINT_EFFECTS &&
    e.effectStart.toNat ≤ 2 ^ 64 - 1 - e.effectCount.toNat &&
    if e.effectCount = 0 then e.effectRoot == D.emptyEffectRoot e.effectStart else e.effectRoot != 0

/-- The fields only a handoff uses. -/
def handoffFieldsOk : Bool :=
  if e.kind = EXECUTION then e.nextEpoch == 0 && e.nextAnchor.isNull && e.nextSeatSetHash == 0
  else
    e.actions.isEmpty && e.epoch.toNat != 2 ^ 64 - 1 && e.nextEpoch == e.epoch + 1 &&
      !e.nextAnchor.isNull && e.nextSeatSetHash != 0 && e.stateRoot == e.previousStateRoot &&
      e.resultRoot == computeProductionHandoffResultRoot D e

/-- The refusals of `CheckBasicShape` in source order. -/
def shapeGuards : List (Bool × ProductionEntryCheck) :=
  [(e.version != FLOWMESH_PRODUCTION_ENTRY_VERSION_V1 ||
      (e.kind != EXECUTION && e.kind != EPOCH_HANDOFF) || e.domain == 0 || e.marketId == 0 ||
      e.seatSetHash == 0, .BAD_VERSION_OR_KIND),
   (e.actions.length > FLOWMESH_V1_MAX_MICROBLOCK_ACTIONS, .TOO_MANY_ACTIONS),
   (!actionsAreCanonical D e.actions, .NON_CANONICAL_ACTIONS),
   (e.actions.any fun a => !a.shapeIsCanonicalSansCredential ||
      a.curve.length > FLOWMESH_V1_MAX_CURVE_POINTS, .NON_CANONICAL_ACTIONS),
   (if e.sequence = 0 then e.parentHash != 0 else e.parentHash == 0, .WRONG_PARENT),
   (e.anchor.isNull, .BAD_ANCHOR),
   (e.actionsRoot != computeProductionActionsRoot D e.actions, .WRONG_ACTIONS_ROOT),
   (!effectRangeOk D e, .WRONG_EFFECT_RANGE),
   (!handoffFieldsOk D e, .BAD_HANDOFF_FIELDS)]

/-- `CheckBasicShape`. -/
def checkBasicShape : ProductionEntryCheck := (Guards.first (shapeGuards D e)).getD .OK

/-- `EncodeProductionEntry`. -/
def encodeProductionEntry : Option Bytes :=
  if checkBasicShape D e ≠ .OK then none
  else if (entryCodec.put e).length > FLOWMESH_V1_MAX_MICROBLOCK_BYTES then none
  else some (entryCodec.put e)

end

/-- `DecodeProductionEntry`: nothing may be left over. -/
def decodeProductionEntry (D : Digests) (b : Bytes) : Option ProductionEntryCore :=
  if b = [] ∨ b.length > FLOWMESH_V1_MAX_MICROBLOCK_BYTES then none
  else
    match entryCodec.get b with
    | some (e, []) => if checkBasicShape D e = .OK then some e else none
    | _ => none

/-! ## The commitment -/

structure ProductionCommitmentAnchor where
  height : UInt64 := 0
  blockHash : Uint256 := 0
  deriving DecidableEq

/-- `ProductionEntryCommitmentV1`. -/
structure ProductionEntryCommitment where
  version : UInt16
  kind : UInt8
  domain : Uint256
  marketId : MarketId
  epoch : UInt64
  seatSetHash : Uint256
  sequence : UInt64
  parentHash : Uint256
  productionAnchor : ProductionCommitmentAnchor
  previousStateRoot : Uint256
  actionsRoot : Uint256
  resultRoot : Uint256
  stateRoot : Uint256
  effectStart : UInt64
  effectCount : UInt32
  effectRoot : Uint256
  nextEpoch : UInt64 := 0
  nextSeatAnchor : ProductionCommitmentAnchor := {}
  nextSeatSetHash : Uint256 := 0
  deriving DecidableEq

def commitmentAnchorCodec : Codec ProductionCommitmentAnchor :=
  (u64BE.pair uint256).map (fun x => ⟨x.1, x.2⟩) (fun a => (a.height, a.blockHash)) fun _ _ => rfl

/-- The bytes the identity hashes, in the order they are written. -/
def commitmentCodec : Codec ProductionEntryCommitment :=
  (u16BE.pair (u8.pair (uint256.pair (uint256.pair (u64BE.pair (uint256.pair (u64BE.pair (uint256.pair
    (commitmentAnchorCodec.pair (uint256.pair (uint256.pair (uint256.pair (uint256.pair (u64BE.pair
      (u32BE.pair (uint256.pair (u64BE.pair (commitmentAnchorCodec.pair uint256)))))))))))))))))).map
    (fun (version, kind, domain, marketId, epoch, seatSetHash, sequence, parentHash,
        productionAnchor, previousStateRoot, actionsRoot, resultRoot, stateRoot, effectStart,
        effectCount, effectRoot, nextEpoch, nextSeatAnchor, nextSeatSetHash) =>
      ⟨version, kind, domain, marketId, epoch, seatSetHash, sequence, parentHash,
        productionAnchor, previousStateRoot, actionsRoot, resultRoot, stateRoot, effectStart,
        effectCount, effectRoot, nextEpoch, nextSeatAnchor, nextSeatSetHash⟩)
    (fun c => (c.version, c.kind, c.domain, c.marketId, c.epoch, c.seatSetHash, c.sequence,
      c.parentHash, c.productionAnchor, c.previousStateRoot, c.actionsRoot, c.resultRoot,
      c.stateRoot, c.effectStart, c.effectCount, c.effectRoot, c.nextEpoch, c.nextSeatAnchor,
      c.nextSeatSetHash)) fun _ _ => rfl

/-- The checks of `ComputeProductionEntryIdentityV1`. -/
def ProductionEntryCommitment.wellFormed (c : ProductionEntryCommitment) : Bool :=
  c.version == FLOWMESH_PRODUCTION_ENTRY_VERSION_V1 &&
    (c.kind == EXECUTION || c.kind == EPOCH_HANDOFF) && c.domain != 0 && c.marketId != 0 &&
    c.seatSetHash != 0 && c.productionAnchor.blockHash != 0 &&
    c.productionAnchor.height.toNat ≤ 2 ^ 31 - 1 && c.previousStateRoot != 0 &&
    c.actionsRoot != 0 && c.resultRoot != 0 && c.stateRoot != 0 && c.effectRoot != 0 &&
    c.effectStart.toNat ≤ 2 ^ 64 - 1 - c.effectCount.toNat &&
    (if c.sequence = 0 then c.parentHash == 0 else c.parentHash != 0) &&
    if c.kind = EXECUTION then
      c.nextEpoch == 0 && c.nextSeatAnchor.blockHash == 0 && c.nextSeatSetHash == 0
    else
      c.epoch.toNat != 2 ^ 64 - 1 && c.nextEpoch == c.epoch + 1 &&
        c.nextSeatAnchor.blockHash != 0 && c.nextSeatAnchor.height.toNat ≤ 2 ^ 31 - 1 &&
        c.nextSeatSetHash != 0

/-- `ComputeProductionEntryIdentityV1`. -/
def computeProductionEntryIdentity (D : Digests) (c : ProductionEntryCommitment) : Option Uint256 :=
  if c.wellFormed then some (D.entryIdentity (commitmentCodec.put c)) else none

namespace ProductionEntryCore

section

variable (D : Digests) (e : ProductionEntryCore)

/-- The commitment before its checks: the next anchor is repeated for handoffs only. -/
def commitmentFields : ProductionEntryCommitment :=
  let base : ProductionEntryCommitment :=
    { version := e.version, kind := e.kind, domain := e.domain, marketId := e.marketId
      epoch := e.epoch, seatSetHash := e.seatSetHash, sequence := e.sequence
      parentHash := e.parentHash
      productionAnchor := ⟨UInt64.ofNat e.anchor.height.toNat, e.anchor.hash⟩
      previousStateRoot := e.previousStateRoot, actionsRoot := e.actionsRoot
      resultRoot := e.resultRoot, stateRoot := e.stateRoot, effectStart := e.effectStart
      effectCount := e.effectCount, effectRoot := e.effectRoot }
  if e.kind = EPOCH_HANDOFF then
    { base with
      nextEpoch := e.nextEpoch
      nextSeatAnchor := ⟨UInt64.ofNat e.nextAnchor.height.toNat, e.nextAnchor.hash⟩
      nextSeatSetHash := e.nextSeatSetHash }
  else base

/-- `Commitment`. -/
def commitment : Option ProductionEntryCommitment :=
  if e.anchor.height < 0 then none
  else if e.kind = EPOCH_HANDOFF ∧ e.nextAnchor.height < 0 then none
  else if computeProductionEntryIdentity D e.commitmentFields = none then none
  else some e.commitmentFields

/-- `GetHash`: null for an entry without a commitment. -/
def getHash : Uint256 :=
  ((e.commitment D).bind (computeProductionEntryIdentity D)).getD 0

end

end ProductionEntryCore

end B3Coin.FlowMesh
