import B3Coin.Finality.Certificate
import B3Coin.Lib.Guards
import B3Coin.Lib.InverseIndex
import B3Coin.Lib.Reversible
import B3Coin.Script

/-!
# Finality key bindings

`node/finality_binding_index.cpp`, `modern/finality_key.h` and the pair matching
of `modern/mpa.h`. A validator binds, rotates or revokes its BLS key by a
metadata cell with its evidence record. A block is judged against an overlay of
the index, and its transitions are then written with an undo record. Signatures
and key decoding are parameters.
-/
namespace B3Coin.KeyBinding

open Codec (Bytes)
open Finality (ValidatorKey BlsPubkey)
open InverseIndex Reversible

/-! ## Wire types -/

structure FinalityKeyParams where
  blsPubkey : BlsPubkey
  seq : UInt32
  deriving DecidableEq

def BLS_PUBKEY_SIZE : Nat := 48

def FinalityKeyParams.decode (b : Bytes) : Option FinalityKeyParams :=
  if b.length ≠ BLS_PUBKEY_SIZE + 4 then none
  else some ⟨beValue (b.take BLS_PUBKEY_SIZE), UInt32.ofNat (beValue (b.drop BLS_PUBKEY_SIZE))⟩

structure FinalityKeyEvidence where
  validatorKey : ValidatorKey := 0
  blsPubkey : BlsPubkey := 0
  seq : UInt32 := 0
  bip340Sig : Bytes := List.replicate 64 0
  pop : Bytes := List.replicate 96 0
  deriving DecidableEq

def FINALITY_KEY_EVIDENCE_SIZE : Nat := 244

def FinalityKeyEvidence.decode (b : Bytes) : Option FinalityKeyEvidence :=
  if b.length ≠ FINALITY_KEY_EVIDENCE_SIZE then none
  else some
    { validatorKey := beValue (b.take 32)
      blsPubkey := beValue ((b.drop 32).take BLS_PUBKEY_SIZE)
      seq := UInt32.ofNat (beValue ((b.drop 80).take 4))
      bip340Sig := (b.drop 84).take 64
      pop := b.drop 148 }

/-- A cell with the evidence record that belongs to it. -/
structure FinalityKeyPair where
  cellIndex : Nat
  recordIndex : Nat := 0
  commitment : ValidatorKey
  params : FinalityKeyParams
  evidence : FinalityKeyEvidence := {}
  deriving DecidableEq

def MPA_TYPE_FINALITY_KEY_EVIDENCE : Nat := 5
def MPA_VERSION_V1 : Nat := 1

/-- `FinalityKeyMatchKey`: the concatenated bytes are ordered like the triple of their values. -/
abbrev MatchKey := ValidatorKey ×ₗ BlsPubkey ×ₗ Nat

def makeFinalityKeyMatchKey (validatorKey : ValidatorKey) (params : FinalityKeyParams) : MatchKey :=
  toLex (validatorKey, toLex (params.blsPubkey, params.seq.toNat))

/-- The cells of the outputs, by match key. -/
def collectCells : List (CTxOut × Nat) → OrderedMap MatchKey FinalityKeyPair →
    Except String (OrderedMap MatchKey FinalityKeyPair)
  | [], cells => .ok cells
  | (out, i) :: rest, cells =>
    match parseMetadataCell out.scriptPubKey with
    | none => collectCells rest cells
    | some cell =>
      if cell.policyType ≠ PolicyType.FINALITY_KEY.code then collectCells rest cells
      else if cell.policyVersion ≠ POLICY_VERSION_V1 then .error "finality-key-cell-version"
      else match FinalityKeyParams.decode cell.params with
        | none => .error "finality-key-cell-params"
        | some params =>
          let key := makeFinalityKeyMatchKey cell.commitment params
          if cells.contains key then .error "finality-key-duplicate-cell"
          else collectCells rest
            (cells.emplace key { cellIndex := i, commitment := cell.commitment, params })

/-- The evidence records, each put to its cell. -/
def collectRecords : List (CMpaRecord × Nat) → OrderedMap MatchKey FinalityKeyPair →
    OrderedMap MatchKey Nat →
    Except String (OrderedMap MatchKey FinalityKeyPair × OrderedMap MatchKey Nat)
  | [], cells, records => .ok (cells, records)
  | (rec, i) :: rest, cells, records =>
    if rec.payloadType ≠ MPA_TYPE_FINALITY_KEY_EVIDENCE ∨ rec.payloadVersion ≠ MPA_VERSION_V1 then
      collectRecords rest cells records
    else match FinalityKeyEvidence.decode rec.payload with
      | none => .error "finality-key-evidence-malformed"
      | some ev =>
        let key := makeFinalityKeyMatchKey ev.validatorKey ⟨ev.blsPubkey, ev.seq⟩
        if records.contains key then .error "finality-key-duplicate-evidence"
        else match cells.find? key with
          | none => .error "finality-key-orphan-evidence"
          | some pair =>
            collectRecords rest
              (cells.insert key { pair with recordIndex := i, evidence := ev })
              (records.emplace key i)

/-- `MatchFinalityKeyPairs`: the pairs of a transaction in key order. -/
def matchFinalityKeyPairs (tx : CTransaction) : Except String (List FinalityKeyPair) := do
  let cells ← collectCells tx.vout.zipIdx ∅
  let x ← collectRecords tx.mpa.zipIdx cells ∅
  if x.2.size ≠ x.1.size then .error "finality-key-cell-without-evidence"
  else .ok (x.1.entries.map (·.2))

/-! ## The rules of one transition -/

/-- The binding of one validator; the all-zero key is a revocation. -/
structure BindingRecord where
  blsPubkey : BlsPubkey
  seq : UInt32
  height : Int
  deriving DecidableEq

def BindingRecord.isRevoked (r : BindingRecord) : Bool := r.blsPubkey == 0

/-- The key a record holds. -/
def BindingRecord.key (r : BindingRecord) : Option BlsPubkey :=
  if r.isRevoked then none else some r.blsPubkey

inductive FinalityKeyCheck where
  | OK | EVIDENCE_VALIDATOR_MISMATCH | EVIDENCE_PUBKEY_MISMATCH | EVIDENCE_SEQ_MISMATCH
  | BAD_FIRST_SEQ | BAD_SEQ | SEQ_OVERFLOW | POP_MUST_BE_ZERO | BAD_BIP340_SIGNATURE
  | BAD_BLS_PUBKEY | BAD_POP | BLS_KEY_IN_USE
  deriving DecidableEq

/-- `FinalityKeyCheckName`. -/
def FinalityKeyCheck.name : FinalityKeyCheck → String
  | .OK => "ok"
  | .EVIDENCE_VALIDATOR_MISMATCH => "evidence-validator-mismatch"
  | .EVIDENCE_PUBKEY_MISMATCH => "evidence-pubkey-mismatch"
  | .EVIDENCE_SEQ_MISMATCH => "evidence-seq-mismatch"
  | .BAD_FIRST_SEQ => "bad-first-seq"
  | .BAD_SEQ => "bad-seq"
  | .SEQ_OVERFLOW => "seq-overflow"
  | .POP_MUST_BE_ZERO => "pop-must-be-zero"
  | .BAD_BIP340_SIGNATURE => "bad-bip340-signature"
  | .BAD_BLS_PUBKEY => "bad-bls-pubkey"
  | .BAD_POP => "bad-pop"
  | .BLS_KEY_IN_USE => "bls-key-in-use"

/-- The signature schemes. -/
structure Crypto where
  /-- `FinalityBindDigest`. -/
  finalityBindDigest : Uint256 → ValidatorKey → BlsPubkey → UInt32 → Uint256
  verifySchnorr : ValidatorKey → Uint256 → Bytes → Bool
  /-- Whether `bls::PublicKey::Decode` succeeds. -/
  decodePublicKey : BlsPubkey → Bool
  /-- `bls::Signature::Decode` and `bls::VerifyPoP`. -/
  verifyPoP : BlsPubkey → Bytes → Bool


section Rules

variable (C : Crypto) (chainDomain : Uint256)

/-- The evidence names the cell. -/
def consistencyGuards (commitment : ValidatorKey) (params : FinalityKeyParams)
    (evidence : FinalityKeyEvidence) : List (Bool × FinalityKeyCheck) :=
  [(evidence.validatorKey ≠ commitment, .EVIDENCE_VALIDATOR_MISMATCH),
    (evidence.blsPubkey ≠ params.blsPubkey, .EVIDENCE_PUBKEY_MISMATCH),
    (evidence.seq ≠ params.seq, .EVIDENCE_SEQ_MISMATCH)]

def sequenceGuards (params : FinalityKeyParams) :
    Option BindingRecord → List (Bool × FinalityKeyCheck)
  | none => [(params.seq ≠ 0, .BAD_FIRST_SEQ)]
  | some previous =>
    [(previous.seq.toNat = UINT32_MAX, .SEQ_OVERFLOW), (params.seq ≠ previous.seq + 1, .BAD_SEQ)]

/-- Revocation shape, signature, key and owner. -/
def authorityGuards (commitment : ValidatorKey) (params : FinalityKeyParams)
    (evidence : FinalityKeyEvidence) (ownerOf : BlsPubkey → Option ValidatorKey) :
    List (Bool × FinalityKeyCheck) :=
  let revocation := params.blsPubkey == 0
  let digest := C.finalityBindDigest chainDomain evidence.validatorKey evidence.blsPubkey
    evidence.seq
  [(revocation && !evidence.pop.all (· == 0), .POP_MUST_BE_ZERO),
    (!C.verifySchnorr evidence.validatorKey digest evidence.bip340Sig, .BAD_BIP340_SIGNATURE),
    -- a revocation is done here: no BLS check applies to it
    (!revocation && !C.decodePublicKey evidence.blsPubkey, .BAD_BLS_PUBKEY),
    (!revocation && !C.verifyPoP evidence.blsPubkey evidence.pop, .BAD_POP),
    (!revocation && (ownerOf params.blsPubkey).any (· ≠ commitment), .BLS_KEY_IN_USE)]

def checkFinalityKeyTransition (commitment : ValidatorKey) (params : FinalityKeyParams)
    (evidence : FinalityKeyEvidence) (previous : Option BindingRecord)
    (ownerOf : BlsPubkey → Option ValidatorKey) : FinalityKeyCheck :=
  (Guards.first (consistencyGuards commitment params evidence ++ sequenceGuards params previous ++
    authorityGuards C chainDomain commitment params evidence ownerOf)).getD .OK

end Rules

/-! ## The index -/

/-- The two maps of `FinalityBindingIndex`. -/
structure Bindings where
  byValidator : OrderedMap ValidatorKey BindingRecord := ∅
  ownerOfKey : OrderedMap BlsPubkey ValidatorKey := ∅
  deriving DecidableEq

structure Transition where
  validatorKey : ValidatorKey
  record : BindingRecord
  deriving DecidableEq

/-- `previous = none`: the validator had no binding. -/
structure UndoEntry where
  validatorKey : ValidatorKey
  previous : Option BindingRecord
  deriving DecidableEq

/-- The maps with the heights and undo records of the connected blocks, latest first. -/
structure FinalityBindingIndex extends Bindings where
  trail : List (Int × List UndoEntry) := []
  deriving DecidableEq

namespace Bindings

section

variable (b : Bindings) (vk : ValidatorKey)

def get : Option BindingRecord := b.byValidator.find? vk

def ownerOf (pk : BlsPubkey) : Option ValidatorKey :=
  if pk = 0 then none else b.ownerOfKey.find? pk

/-- The owner map once the validator has released the key it holds. -/
def released : OrderedMap BlsPubkey ValidatorKey :=
  match b.byValidator.find? vk with
  | none => b.ownerOfKey
  | some r =>
    if !r.isRevoked && b.ownerOfKey.find? r.blsPubkey == some vk then
      b.ownerOfKey.erase r.blsPubkey
    else b.ownerOfKey

def claimed (owner : OrderedMap BlsPubkey ValidatorKey) (vk : ValidatorKey) (r : BindingRecord) :
    OrderedMap BlsPubkey ValidatorKey :=
  if !r.isRevoked then owner.insert r.blsPubkey vk else owner

/-- `Set`. -/
def set (t : Transition) : Bindings where
  byValidator := b.byValidator.insert t.validatorKey t.record
  ownerOfKey := claimed (b.released t.validatorKey) t.validatorKey t.record

/-- `Restore`. -/
def restore (undo : UndoEntry) : Bindings :=
  let without : Bindings :=
    ⟨b.byValidator.erase undo.validatorKey, b.released undo.validatorKey⟩
  match undo.previous with
  | none => without
  | some r =>
    ⟨without.byValidator.insert undo.validatorKey r,
      claimed without.ownerOfKey undo.validatorKey r⟩

end

/-- The loop of `ConnectBlock`, with the undo entries in apply order. -/
def setAll : List Transition → Bindings → List UndoEntry × Bindings
  | [], b => ([], b)
  | t :: ts, b =>
    let x := setAll ts (b.set t)
    (⟨t.validatorKey, b.get t.validatorKey⟩ :: x.1, x.2)

/-- The loop of `DisconnectBlock`, from the last entry to the first. -/
def restoreAll (undo : List UndoEntry) (b : Bindings) : Bindings :=
  undo.foldr (fun u b => b.restore u) b

end Bindings

namespace FinalityBindingIndex

section

variable (index : FinalityBindingIndex) (height : Int)

/-- `ConnectedHeight`. -/
def connectedHeight : Int :=
  match index.trail with
  | [] => -1
  | (h, _) :: _ => h

/-- `none` where the assertion on the height fails. -/
def connectBlock (transitions : List Transition) : Option FinalityBindingIndex :=
  if index.trail.head?.any (fun top => height ≤ top.1) then none
  else
    let x := Bindings.setAll transitions index.toBindings
    some { toBindings := x.2, trail := (height, x.1) :: index.trail }

def disconnectBlock : Option FinalityBindingIndex :=
  match index.trail with
  | [] => none
  | (h, undo) :: trail =>
    if h ≠ height then none else some { toBindings := Bindings.restoreAll undo index.toBindings, trail }

end

end FinalityBindingIndex

/-! ## The overlay of one block -/

structure FinalityBindingOverlay where
  base : FinalityBindingIndex
  height : Int
  pending : OrderedMap ValidatorKey BindingRecord := ∅
  pendingOwner : OrderedMap BlsPubkey ValidatorKey := ∅

namespace FinalityBindingOverlay

def previousOf (ov : FinalityBindingOverlay) (vk : ValidatorKey) : Option BindingRecord :=
  match ov.pending.find? vk with
  | some r => some r
  | none => ov.base.get vk

def ownerOf (ov : FinalityBindingOverlay) (pk : BlsPubkey) : Option ValidatorKey :=
  match ov.pendingOwner.find? pk with
  | some owner => some owner
  | none =>
    match ov.base.ownerOf pk with
    | none => none
    | some owner =>
      -- the confirmed owner may have moved off this key earlier in the block
      if (ov.pending.find? owner).any (·.blsPubkey ≠ pk) then none else some owner

/-- Release the validator's previous key, then claim its new one. -/
def record (ov : FinalityBindingOverlay) (t : Transition) : FinalityBindingOverlay :=
  let released :=
    match ov.previousOf t.validatorKey with
    | none => ov.pendingOwner
    | some r =>
      if !r.isRevoked && ov.pendingOwner.find? r.blsPubkey == some t.validatorKey then
        ov.pendingOwner.erase r.blsPubkey
      else ov.pendingOwner
  { ov with
    pending := ov.pending.insert t.validatorKey t.record
    pendingOwner := Bindings.claimed released t.validatorKey t.record }

end FinalityBindingOverlay

section Blocks

variable (C : Crypto) (chainDomain : Uint256)

/-- One round of the loop of `ApplyTransaction`. -/
def applyPair (ov : FinalityBindingOverlay) (pair : FinalityKeyPair) :
    Except String (Transition × FinalityBindingOverlay) :=
  match checkFinalityKeyTransition C chainDomain pair.commitment pair.params pair.evidence
      (ov.previousOf pair.commitment) ov.ownerOf with
  | .OK =>
    let t : Transition := ⟨pair.commitment, ⟨pair.params.blsPubkey, pair.params.seq, ov.height⟩⟩
    .ok (t, ov.record t)
  | check => .error ("finality-key-" ++ check.name)

def applyPairs : List FinalityKeyPair → FinalityBindingOverlay →
    Except String (List Transition × FinalityBindingOverlay)
  | [], ov => .ok ([], ov)
  | pair :: pairs, ov => do
    let x ← applyPair C chainDomain ov pair
    let y ← applyPairs pairs x.2
    .ok (x.1 :: y.1, y.2)

/-- `FinalityBindingOverlay::ApplyTransaction`. -/
def applyTransaction (tx : CTransaction) (ov : FinalityBindingOverlay) :
    Except String (List Transition × FinalityBindingOverlay) := do
  let pairs ← matchFinalityKeyPairs tx
  applyPairs C chainDomain pairs ov

def applyTransactions : List CTransaction → FinalityBindingOverlay →
    Except String (List Transition × FinalityBindingOverlay)
  | [], ov => .ok ([], ov)
  | tx :: rest, ov => do
    let x ← applyTransaction C chainDomain tx ov
    let y ← applyTransactions rest x.2
    .ok (x.1 ++ y.1, y.2)

def verifyBlockFinalityBindings (vtx : List CTransaction) (height : Int)
    (index : FinalityBindingIndex) : Except String (List Transition) := do
  let x ← applyTransactions C chainDomain vtx { base := index, height }
  .ok x.1

/-- A block that passes is connected with the transitions found. -/
def connect (index : FinalityBindingIndex) (block : List CTransaction × Int) :
    Option FinalityBindingIndex :=
  match verifyBlockFinalityBindings C chainDomain block.1 block.2 index with
  | .error _ => none
  | .ok transitions => index.connectBlock block.2 transitions

end Blocks

end B3Coin.KeyBinding
