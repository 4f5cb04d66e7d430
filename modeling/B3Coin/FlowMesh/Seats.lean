import B3Coin.Finality.Certificate
import B3Coin.FlowMesh.EntryHash
import B3Coin.FlowMesh.FeeAllocation

/-!
# Seat sets and certificates

`flowmesh/seat_id.h` and `flowmesh/bls_certificate.{h,cpp}`: the anchored set of
seats of one epoch and the aggregate certificates it signs. The tagged hashes and
the BLS operations are parameters; what is hashed is kept as bytes.
-/
namespace B3Coin.FlowMesh

open Codec Finality

/-- The hashes and BLS operations behind seats and certificates. -/
structure SeatCrypto where
  seatId : Bytes → Uint256
  seatSetHash : Bytes → Uint256
  certificateDigest : Bytes → Uint256
  /-- `bls::Signature::Decode` succeeds. -/
  decodesSignature : Bytes → Bool
  /-- `bls::FastAggregateVerify`. -/
  fastAggregateVerify : List BlsPubkey → Uint256 → Bytes → Bool

def FLOWMESH_MIN_ACTIVE_FN_SEATS : Nat := 4
def FLOWMESH_MAX_ACTIVE_FN_SEATS : Nat := 5000
def BLS_PUBKEY_SIZE : Nat := 48

structure ActiveFnBlsSeat where
  seatId : SeatId
  outpoint : COutPoint
  key : BlsPubkey
  deriving DecidableEq

/-- All active seats of one anchored epoch. -/
structure ActiveFnBlsSeatSet where
  epoch : UInt64
  marketId : MarketId
  anchorHeight : UInt64
  anchorHash : Uint256
  setHash : Uint256
  members : List ActiveFnBlsSeat
  deriving DecidableEq

def ActiveFnBlsSeatSet.size (s : ActiveFnBlsSeatSet) : Nat := s.members.length

inductive BlsSeatSetCheck where
  | OK | TOO_SMALL | TOO_LARGE | BAD_SEAT_ID | NON_CANONICAL_MEMBERS | DUPLICATE_KEYS
  | BAD_PUBLIC_KEY | BAD_PROOF_OF_POSSESSION | BAD_SET_HASH
  deriving DecidableEq

section

variable (k : Nat) (bitmap : Bytes) (seatCount : Nat) (S : SeatCrypto)
  (cert : BlsMicroblockCertificate) (expected : BlsCertificateContext) (set : ActiveFnBlsSeatSet)

section

variable (domain : Uint256) (set : ActiveFnBlsSeatSet)

def computeFlowMeshSeatId (outpoint : COutPoint) : SeatId :=
  S.seatId (uint256.put domain ++ outPointCodec.put outpoint)

/-- `MemberBefore`. -/
def memberBefore (a b : ActiveFnBlsSeat) : Bool :=
  a.seatId < b.seatId || (a.seatId == b.seatId && a.outpoint.lt b.outpoint)

/-- The walk over the members: derived ids, strict order, unique keys. -/
def checkMembers (S : SeatCrypto) (domain : Uint256) :
    Option ActiveFnBlsSeat → List BlsPubkey → List ActiveFnBlsSeat → BlsSeatSetCheck
  | _, _, [] => .OK
  | previous, keys, m :: rest =>
    if m.seatId ≠ computeFlowMeshSeatId S domain m.outpoint then .BAD_SEAT_ID
    else if previous.any (fun p => !memberBefore p m) then .NON_CANONICAL_MEMBERS
    else if m.key ∈ keys then .DUPLICATE_KEYS
    else checkMembers S domain (some m) (m.key :: keys) rest

def flowMeshSeatSetThreshold : Nat := 2 * k / 3 + 1

/-- What the seat-set hash is taken over. -/
def seatSetBytes : Bytes :=
  uint256.put domain ++ uint256.put set.marketId ++ u64BE.put set.epoch ++
    u64BE.put set.anchorHeight ++ uint256.put set.anchorHash ++
    (natBE 4).put set.members.length ++ (natBE 4).put (flowMeshSeatSetThreshold set.members.length) ++
    set.members.flatMap fun m => uint256.put m.seatId ++ uint256.put m.outpoint.hash ++
      u32BE.put m.outpoint.n ++ (natBE BLS_PUBKEY_SIZE).put m.key

/-- `ComputeFlowMeshSeatSetHash`, which repeats the walk over the members. -/
def computeFlowMeshSeatSetHash : Option Uint256 :=
  if set.members.length > 5000 ∨ checkMembers S domain none [] set.members ≠ .OK then none
  else some (S.seatSetHash (seatSetBytes domain set))

def checkActiveFnBlsSeatSet : BlsSeatSetCheck :=
  if set.members.length < FLOWMESH_MIN_ACTIVE_FN_SEATS then .TOO_SMALL
  else if set.members.length > FLOWMESH_MAX_ACTIVE_FN_SEATS then .TOO_LARGE
  else if checkMembers S domain none [] set.members ≠ .OK then
    checkMembers S domain none [] set.members
  else if computeFlowMeshSeatSetHash S domain set ≠ some set.setHash then .BAD_SET_HASH
  else .OK

end

/-! ## Certificates -/

/-- Every field is signed; only epoch, sequence and hash travel in the certificate. -/
structure BlsCertificateContext where
  domain : Uint256
  marketId : MarketId
  seatEpoch : UInt64
  seatSetHash : Uint256
  sequence : UInt64
  microblockHash : Uint256
  deriving DecidableEq

structure BlsMicroblockCertificate where
  seatEpoch : UInt64
  sequence : UInt64
  microblockHash : Uint256
  signerBitmap : Bytes
  aggregateSignature : Bytes
  deriving DecidableEq

inductive BlsCertificateCheck where
  | OK | INVALID_SEAT_SET | WRONG_SEAT_EPOCH | WRONG_SEAT_SET | WRONG_SEQUENCE
  | WRONG_MICROBLOCK_HASH | MALFORMED_BITMAP | NO_SIGNERS | BELOW_THRESHOLD | MALFORMED_SIGNATURE
  | BAD_SIGNATURE
  deriving DecidableEq

def validSeatCount (count : Nat) : Bool :=
  count ≥ FLOWMESH_MIN_ACTIVE_FN_SEATS && count ≤ FLOWMESH_MAX_ACTIVE_FN_SEATS

def flowMeshBlsThreshold : Nat := 2 * k / 3 + 1

/-- `IsWellFormedFlowMeshSignerBitmap`. -/
def isWellFormedFlowMeshSignerBitmap : Bool :=
  validSeatCount seatCount && isWellFormedSignerBitmap bitmap seatCount

/-- `FlowMeshBlsCertificateDigest`. -/
def flowMeshBlsCertificateDigest (c : BlsCertificateContext) : Uint256 :=
  S.certificateDigest (uint256.put c.domain ++ uint256.put c.marketId ++ u64BE.put c.seatEpoch ++
    uint256.put c.seatSetHash ++ u64BE.put c.sequence ++ uint256.put c.microblockHash)

/-- The keys whose bit is set, in seat order. -/
def certificateSigners : List BlsPubkey :=
  (set.members.zipIdx.filter fun m => signerBit bitmap m.2).map (·.1.key)

/-- The refusals of `CheckBlsMicroblockCertificate` in source order. -/
def certificateGuards : List (Bool × BlsCertificateCheck) :=
  let signing := certificateSigners cert.signerBitmap set
  [(checkActiveFnBlsSeatSet S expected.domain set != .OK, .INVALID_SEAT_SET),
   (cert.seatEpoch != expected.seatEpoch || set.epoch != expected.seatEpoch, .WRONG_SEAT_EPOCH),
   (set.marketId != expected.marketId || set.setHash != expected.seatSetHash, .WRONG_SEAT_SET),
   (cert.sequence != expected.sequence, .WRONG_SEQUENCE),
   (cert.microblockHash != expected.microblockHash, .WRONG_MICROBLOCK_HASH),
   (!isWellFormedFlowMeshSignerBitmap cert.signerBitmap set.size, .MALFORMED_BITMAP),
   (signing.isEmpty, .NO_SIGNERS),
   (signing.length < flowMeshBlsThreshold set.size, .BELOW_THRESHOLD),
   (!S.decodesSignature cert.aggregateSignature, .MALFORMED_SIGNATURE),
   (!S.fastAggregateVerify signing (flowMeshBlsCertificateDigest S expected)
      cert.aggregateSignature, .BAD_SIGNATURE)]

/-- `CheckBlsMicroblockCertificate`. -/
def checkBlsMicroblockCertificate : BlsCertificateCheck :=
  (Guards.first (certificateGuards S cert expected set)).getD .OK

end

/-! ## Two certificates over one seat set -/

section Overlap

variable {S : SeatCrypto} {cert cert' : BlsMicroblockCertificate}
  {ctx ctx' : BlsCertificateContext} {set : ActiveFnBlsSeatSet}

theorem checked_quorum (h : checkBlsMicroblockCertificate S cert ctx set = .OK) :
    set.size * 2 / 3 <
      (Quorum.signed (signerBit cert.signerBitmap) set.members).length := by
  have hguard := (Guards.first_getD_eq (by simp [certificateGuards])).mp h
    ((certificateSigners cert.signerBitmap set).length < flowMeshBlsThreshold set.size,
      .BELOW_THRESHOLD) (by simp [certificateGuards])
  simp only [certificateSigners, flowMeshBlsThreshold, List.length_map,
    decide_eq_false_iff_not] at hguard
  rw [Quorum.signed, List.length_map]
  omega

/-- Two certificates accepted over one seat set have more than a third of its seats in common,
also when they are for different microblocks with one sequence number. -/
theorem seat_certificates_overlap (h : checkBlsMicroblockCertificate S cert ctx set = .OK)
    (h' : checkBlsMicroblockCertificate S cert' ctx' set = .OK) :
    set.size < 3 * (Quorum.signed (fun i => signerBit cert.signerBitmap i &&
      signerBit cert'.signerBitmap i) set.members).length :=
  Quorum.third_lt_length (checked_quorum h) (checked_quorum h')

theorem rival_seat_certificates_overlap :
    let set : ActiveFnBlsSeatSet :=
      ⟨0, 0, 0, 0, 0, (List.range 4).map fun i => ⟨0, ⟨0, .ofNat i⟩, i⟩⟩
    set.size < 3 * (Quorum.signed (fun i => signerBit [7] i && signerBit [14] i)
      set.members).length :=
  @seat_certificates_overlap ⟨fun _ => 0, fun _ => 0, fun _ => 0, fun _ => true, fun _ _ _ => true⟩
    ⟨0, 1, 1, [7], []⟩ ⟨0, 1, 2, [14], []⟩ ⟨0, 0, 0, 0, 1, 1⟩ ⟨0, 0, 0, 0, 1, 2⟩ _
    (by decide +kernel) (by decide +kernel)

end Overlap

end B3Coin.FlowMesh
