import B3Coin.FlowMesh.Curve
import B3Coin.FlowMesh.Ledger
import B3Coin.FlowMesh.Wire

/-!
# Actions

The actions of `flowmesh/batch.h`: their codec, semantic identity, canonical shape
and canonical order.
-/
namespace B3Coin.FlowMesh

open Codec

inductive ActionType where
  | SUBMIT_BID | SUBMIT_ASK | CANCEL_BID | CANCEL_ASK | WITHDRAW | DEPOSIT
  | SPOT_TO_FUTURES | FUTURES_TO_SPOT | CLAIM_SEAT_REWARD
  deriving DecidableEq

/-- The consensus-stable numbering; other bytes name no action. -/
def ActionType.ofByte (b : UInt8) : Option ActionType :=
  if b = 0 then some .SUBMIT_BID
  else if b = 1 then some .SUBMIT_ASK
  else if b = 2 then some .CANCEL_BID
  else if b = 3 then some .CANCEL_ASK
  else if b = 4 then some .WITHDRAW
  else if b = 5 then some .DEPOSIT
  else if b = 6 then some .SPOT_TO_FUTURES
  else if b = 7 then some .FUTURES_TO_SPOT
  else if b = 8 then some .CLAIM_SEAT_REWARD
  else none

def MAX_ACTION_CURVE_POINTS : Nat := 64
def MAX_ACTION_CREDENTIAL_SIZE : Nat := 256
def FLOWMESH_V1_MAX_CURVE_POINTS : Nat := 8
def FLOWMESH_V1_MAX_MICROBLOCK_ACTIONS : Nat := 1024
def FLOWMESH_V1_MAX_MICROBLOCK_BYTES : Nat := 2 * 1024 * 1024

structure Action where
  signer : AccountId := 0
  sequence : UInt64 := 0
  type : UInt8 := 0
  curve : List Breakpoint := []
  asset : AssetId := 0
  amount : Int := 0
  destination : Uint256 := 0
  outpoint : COutPoint := ⟨0, NULL_INDEX⟩
  credential : Bytes := []
  deriving DecidableEq

def breakpointCodec : Codec Breakpoint :=
  (int64.pair int64).map (fun x => ⟨x.1, x.2⟩) (fun p => (p.price, p.qty)) fun _ _ => rfl

/-- The fields of an action in wire order. -/
def actionCodec : Codec Action :=
  (uint256.pair (u64.pair (u8.pair ((boundedVector MAX_ACTION_CURVE_POINTS breakpointCodec).pair
    (uint256.pair (int64.pair (uint256.pair (outPointCodec.pair
      (boundedVector MAX_ACTION_CREDENTIAL_SIZE u8))))))))).map
    (fun (signer, sequence, type, curve, asset, amount, destination, outpoint, credential) =>
      ⟨signer, sequence, type, curve, asset, amount, destination, outpoint, credential⟩)
    (fun a => (a.signer, a.sequence, a.type, a.curve, a.asset, a.amount, a.destination, a.outpoint,
      a.credential)) fun _ _ => rfl

namespace Action

section

variable (D : Digests) (a : Action)

/-- What the id hashes: every field but the credential, the curve behind a 64-bit count. -/
def semanticBytes : Bytes :=
  uint256.put a.signer ++ u64.put a.sequence ++ u8.put a.type ++
    u64.put (UInt64.ofNat a.curve.length) ++ a.curve.flatMap breakpointCodec.put ++
    uint256.put a.asset ++ int64.put a.amount ++ uint256.put a.destination ++
    outPointCodec.put a.outpoint

def id : Uint256 := D.actionId a.semanticBytes

/-- `ShapeIsCanonicalSansCredential`. -/
def shapeIsCanonicalSansCredential : Bool :=
  a.curve.length ≤ MAX_ACTION_CURVE_POINTS &&
  match ActionType.ofByte a.type with
  | some .SUBMIT_BID | some .SUBMIT_ASK =>
    a.signer != 0 && !a.curve.isEmpty && a.asset == 0 && a.amount == 0 && a.destination == 0 &&
      a.outpoint.isNull
  | some .CANCEL_BID | some .CANCEL_ASK =>
    a.signer != 0 && a.curve.isEmpty && a.asset == 0 && a.amount == 0 && a.destination == 0 &&
      a.outpoint.isNull
  | some .WITHDRAW =>
    a.signer != 0 && a.curve.isEmpty && a.amount > 0 && a.amount ≤ MAX_MONEY &&
      a.destination != 0 && a.outpoint.isNull
  | some .CLAIM_SEAT_REWARD =>
    a.signer != 0 && a.curve.isEmpty && a.asset == NativeAsset && a.amount > 0 &&
      a.amount ≤ MAX_MONEY && a.destination != 0 && a.outpoint.isNull
  | some .DEPOSIT =>
    a.signer == 0 && a.sequence == 0 && a.curve.isEmpty && a.asset == 0 && a.amount == 0 &&
      a.destination == 0 && !a.outpoint.isNull
  | some .SPOT_TO_FUTURES | some .FUTURES_TO_SPOT | none => false

def isDeposit : Bool := a.type == 5

/-- `ActionCanonicalLess`: deposits by outpoint, then signed actions by signer, sequence, id. -/
def canonicalLess (b : Action) : Bool :=
  if a.isDeposit != b.isDeposit then a.isDeposit
  else if a.isDeposit then a.outpoint.lt b.outpoint
  else if a.signer ≠ b.signer then a.signer < b.signer
  else if a.sequence ≠ b.sequence then a.sequence < b.sequence
  else a.id D < b.id D

end

end Action

/-- `ActionsAreCanonical`. -/
def actionsAreCanonical (D : Digests) (actions : List Action) : Bool :=
  actions.all (·.credential.isEmpty) &&
    decide (actions.IsChain fun a b => a.canonicalLess D b = true)

/-- `ComputeProductionActionsRoot`: the actions behind a 64-bit count. -/
def actionsBytes (actions : List Action) : Bytes :=
  u64.put (UInt64.ofNat actions.length) ++ actions.flatMap actionCodec.put

def computeProductionActionsRoot (D : Digests) (actions : List Action) : Uint256 :=
  D.actionsRoot (actionsBytes actions)

end B3Coin.FlowMesh
