import B3Coin.Bls
import B3Coin.WordTree
import B3Coin.Contracts.FinalityVerifier

/-!
# The proof backend of the Ethereum mirror

`BlsCertificateProver.sol`: a certificate is checked from the header of its set, one
branch for each absent member, and the witnesses of the points. The witness is given
decoded. A precompile that fails reverts, which is `none`; hashing the digest to the
second group and the pairing against the negated generator are one parameter.
-/
namespace B3Coin.CertificateProver

open Codec (Bytes)
open FinalityVerifier (SetHeader FinalizedBlock headerShapeValid hashSetHeader)

def SET_TREE_DEPTH : Nat := 13

/-- A member that did not sign, with the ranges of its types. -/
structure Absent where
  index : Nat
  pubkey : Bytes
  weight : Nat
  uncompressedPubkey : Bytes
  siblings : List Uint256
  index_lt : index < 256 ^ 4
  weight_lt : weight < 256 ^ 8
  length_eq : siblings.length = SET_TREE_DEPTH
  sibling_lt : ∀ x ∈ siblings, x < 256 ^ 32

structure Witness where
  bitmap : Bytes
  signature : Bytes
  aggregatePubkey : Bytes
  absent : List Absent

/-! ## Bytes -/

/-- The loop of `_popcount`: a round clears the lowest bit that is set. -/
def popcountFrom : Nat → UInt8 → Nat
  | 0, _ => 0
  | rounds + 1, value =>
    if value = 0 then 0 else popcountFrom rounds (value &&& (value - 1)) + 1

/-- Eight rounds clear a byte. -/
def popcount (value : UInt8) : Nat := popcountFrom 8 value

def isAllZero (value : Bytes) : Bool := value.all (· == 0)

def slice (value : Bytes) (offset length : Nat) : Bytes :=
  if offset + length > value.length then [] else (value.drop offset).take length

def pad64 (value : Bytes) : Bytes :=
  if value.length ≠ 48 then [] else List.replicate 16 0 ++ value

/-- The loop of `_greaterThan48` from the first byte on. -/
def greaterThan48 : Bytes → Bytes → Bool
  | a :: as, b :: bs => if a > b then true else if a < b then false else greaterThan48 as bs
  | _, _ => false

/-- The loop of `_subFieldPadded` from the last byte on: the bytes so far and the borrow. -/
def subBytes : Bytes → Bytes → Bytes × Nat
  | m :: ms, y :: ys =>
    let done := subBytes ms ys
    let value : Int := m.toNat - y.toNat - done.2
    if value < 0 then (UInt8.ofNat (value + 256).toNat :: done.1, 1)
    else (UInt8.ofNat value.toNat :: done.1, 0)
  | _, _ => ([], 0)

def subFieldPadded (paddedY : Bytes) : Bytes :=
  pad64 (subBytes (bigEndian 48 FIELD_MODULUS) (slice paddedY 16 48)).1

def g1Neg (point : Bytes) : Bytes :=
  if point.length ≠ 128 then []
  else slice point 0 64 ++ subFieldPadded (slice point 64 64)

/-- The bytes of a point are those of the compressed one, as far as can be told without the
equation of the curve. -/
def compressedG1Matches (uncompressed compressed : Bytes) : Bool :=
  let flags := compressed.getD 0 0 &&& 0xe0
  let y := slice uncompressed 80 48
  let pMinusY := slice (subFieldPadded (pad64 y)) 16 48
  if uncompressed.length ≠ 128 ∨ compressed.length ≠ 48 then false
  else if (List.range 16).any fun i =>
      uncompressed.getD i 0 != 0 || uncompressed.getD (64 + i) 0 != 0 then false
  else if flags &&& 0x80 = 0 ∨ flags &&& 0x40 ≠ 0 then false
  else if compressed.getD 0 0 &&& 0x1f ≠ uncompressed.getD 16 0 &&& 0x1f then false
  else if (List.range' 1 47).any fun i =>
      compressed.getD i 0 != uncompressed.getD (16 + i) 0 then false
  else (flags &&& 0x20 != 0) == greaterThan48 y pMinusY

/-! ## Certificates -/

def headcountQuorum (validatorCount : Nat) : Nat := validatorCount * 2 / 3 + 1

def finalityDigest (sha256 : Bytes → Uint256) (chainDomain : Uint256) (fb : FinalizedBlock) :
    Uint256 :=
  let tagHash := sha256 "B3/FINALITY/V1".toUTF8.toList
  sha256 (bigEndian 32 tagHash ++ bigEndian 32 tagHash ++ bigEndian 32 chainDomain ++
    bigEndian 8 fb.height ++ bigEndian 32 fb.blockHash ++ bigEndian 32 fb.withdrawalRoot ++
    bigEndian 32 fb.validatorSetHash ++ bigEndian 8 fb.epoch)

/-- The precompiles over the groups of the suite: both take and give encoded points, and
refuse bytes that encode none. -/
structure Precompiles {G₁ G₂ : Type} [AddCommGroup G₁] [Zero G₂] (B : Bls G₁ G₂) where
  g1Add : Bytes → Option Bytes
  pairing : Bytes → Uint256 → Bytes → Bool
  g1Add_eq_some : ∀ a b r, a.length = 128 → (g1Add (a ++ b) = some r ↔
    ∃ P Q, a = B.eip2537 P ∧ b = B.eip2537 Q ∧ r = B.eip2537 (P + Q))
  pairing_parses : ∀ a digest s, pairing a digest s = true →
    (∃ P, a = B.eip2537 P) ∧ ∃ S, s = B.eip2537₂ S
  pairing_iff : ∀ P digest S, P ≠ 0 → S ≠ 0 →
    (pairing (B.eip2537 P) digest (B.eip2537₂ S) = true ↔
      P ∈ B.prime ∧ S ∈ B.prime₂ ∧ B.coreVerify P digest S = true)

section Verify

variable (keccak256 sha256 : Bytes → Uint256)

def memberRoot (index : Nat) (pubkey : Bytes) (weight : Nat) (siblings : List Uint256) : Uint256 :=
  WordTree.climbPath keccak256 index 0 (keccak256 (bigEndian 4 index ++ pubkey ++ bigEndian 8 weight))
    siblings

/-- The checks of one absent member, after the one with index `previous`. -/
def absentAccepted (signingSet : SetHeader) (bitmap : Bytes) (previous : Option Nat)
    (member : Absent) : Bool :=
  !(member.index ≥ signingSet.validatorCount || previous.any (member.index ≤ ·) ||
    ((bitmap.getD (member.index / 8) 0).toNat >>> (member.index % 8)) % 2 != 0 ||
    member.pubkey.length != 48 || member.uncompressedPubkey.length != 128 ||
    !compressedG1Matches member.uncompressedPubkey member.pubkey ||
    memberRoot keccak256 member.index member.pubkey member.weight member.siblings !=
      signingSet.membersRoot)

/-- The loop over the absent members: their weight, or nothing if one is refused. -/
def absentWeight (signingSet : SetHeader) (bitmap : Bytes) :
    Option Nat → Nat → List Absent → Option Nat
  | _, weight, [] => some weight
  | previous, weight, member :: rest =>
    if ¬ absentAccepted keccak256 signingSet bitmap previous member then none
    else if weight + member.weight > signingSet.totalWeight then none
    else absentWeight signingSet bitmap (some member.index) (weight + member.weight) rest

def signerCount (bitmap : Bytes) : Nat := (bitmap.map popcount).sum

variable {G₁ G₂ : Type} [AddCommGroup G₁] [Zero G₂] {B : Bls G₁ G₂} (E : Precompiles B)

/-- `_g1Add` of the sum so far and the negated key, over the absent members. -/
def subtractAbsent (aggregate : Bytes) (absent : List Absent) : Option Bytes :=
  absent.foldlM (fun sum member =>
    match E.g1Add (sum ++ g1Neg member.uncompressedPubkey) with
    | none => none
    | some result => if result.length = 128 then some result else none) aggregate

def verify (chainDomain : Uint256) (finalizedBlock : FinalizedBlock) (signingSetHash : Uint256)
    (signingSet : SetHeader) (proof : Witness) : Option Bool :=
  let n := signingSet.validatorCount
  if chainDomain = 0 ∨ signingSetHash = 0 ∨ ¬ headerShapeValid signingSet ∨
      hashSetHeader keccak256 signingSet ≠ signingSetHash then some false
  else if proof.bitmap.length ≠ (n + 7) / 8 then some false
  else if n % 8 ≠ 0 ∧ (proof.bitmap.getD (n / 8) 0).toNat >>> (n % 8) ≠ 0 then some false
  else if proof.signature.length ≠ 256 ∨ proof.aggregatePubkey.length ≠ 128 then some false
  else if isAllZero proof.signature then some false
  else if signerCount proof.bitmap = 0 ∨ signerCount proof.bitmap + proof.absent.length ≠ n then
    some false
  else if signerCount proof.bitmap < headcountQuorum n then some false
  else match absentWeight keccak256 signingSet proof.bitmap none 0 proof.absent with
    | none => some false
    | some weight =>
      if signingSet.totalWeight - weight < signingSet.quorumWeight then some false
      else if ¬ compressedG1Matches proof.aggregatePubkey signingSet.aggregatePubkey then some false
      else match subtractAbsent E proof.aggregatePubkey proof.absent with
        | none => none
        | some signedAggregate =>
          if isAllZero signedAggregate then some false
          else some (E.pairing signedAggregate (finalityDigest sha256 chainDomain finalizedBlock)
            proof.signature)

end Verify

end B3Coin.CertificateProver
