import B3Coin.ModernPos
import B3Coin.Lib.Quorum

/-!
# Finality certificates and the checkpoint schedule

`modern/finality_types.h`, `modern/finality_certificate.h` and
`modern/finality_schedule.h`: the signed object, the validator set it is judged
against, and the pure rules that place a certificate on a chain. BLS
aggregation, the digest and the set hash are parameters of the node. The
structural match of a coinbase cell with its record is a parameter too: it only
decides whether a block carries a certificate and which one.
-/
namespace B3Coin.Finality

abbrev ValidatorKey := Nat
abbrev BlsPubkey := Nat

/-- The object validators sign: a checkpoint and the set that follows. -/
structure FinalizedBlock where
  height : Nat
  blockHash : Uint256
  withdrawalRoot : Uint256
  validatorSetHash : Uint256
  epoch : Nat
  deriving DecidableEq

structure FinalityCertificate where
  signerBitmap : List UInt8
  aggregateSig : List UInt8
  deriving DecidableEq

structure ValidatorSetMember where
  validatorKey : ValidatorKey
  blsPubkey : BlsPubkey
  weight : Nat
  deriving DecidableEq

/-- `ValidatorSetSnapshot`: the members in key order, stamped with an epoch. -/
structure ValidatorSetSnapshot where
  epoch : Nat
  members : List ValidatorSetMember
  deriving DecidableEq

section

variable (bitmap : List UInt8) (n : Nat) (s : ValidatorSetSnapshot)

def ValidatorSetSnapshot.size : Nat := s.members.length

def ValidatorSetSnapshot.withEpoch (epoch : Nat) : ValidatorSetSnapshot := { s with epoch := epoch }

/-- `IndexOf`: the first member not below the key, if it has that key. -/
def ValidatorSetSnapshot.indexOf (key : ValidatorKey) : Option Nat :=
  let i := (s.members.takeWhile (fun m => m.validatorKey < key)).length
  match s.members[i]? with
  | some m => if m.validatorKey = key then some i else none
  | none => none

def totalWeight : Nat := (s.members.map (·.weight)).sum

/-- `QuorumWeightV1`, with its guard against doubling past 64 bits. -/
def quorumWeightV1 (total : Nat) : Nat :=
  (if total > (U64 - 1) / 2 then U64 - 1 else total * 2) / 3 + 1

def MAX_FINALITY_SET : Nat := 8192

def signerBitmapBytes : Nat := (n + 7) / 8

/-- Bit `i` of the bitmap, least significant bit first; out of range reads zero. -/
def signerBit (i : Nat) : Bool :=
  match bitmap[i / 8]? with
  | some byte => (byte.toNat >>> (i % 8)) % 2 == 1
  | none => false

def isWellFormedSignerBitmap : Bool :=
  n != 0 && n ≤ MAX_FINALITY_SET && bitmap.length == signerBitmapBytes n &&
    (n % 8 == 0 || (bitmap.getLastD 0).toNat >>> (n % 8) == 0)

def finalityHeadcountQuorum (validatorCount : Nat) : Nat := validatorCount * 2 / 3 + 1

/-- The members whose bit is set, in index order. -/
def signers (set : ValidatorSetSnapshot) : List ValidatorSetMember :=
  (set.members.zipIdx.filter (fun m => signerBit bitmap m.2)).map (·.1)

end

inductive CertificateCheck where
  | OK | MALFORMED_BITMAP | WRONG_SUCCESSOR_SET | NO_SIGNERS | INSUFFICIENT_WEIGHT
  | INSUFFICIENT_HEADCOUNT | BAD_SIGNATURE | SET_VIEW_INCONSISTENT
  deriving DecidableEq

/-- `VerifyFinalityCertificate` with the aggregate verification as a parameter. -/
def verifyFinalityCertificate (fastAggregateVerify : List BlsPubkey → Uint256 → List UInt8 → Bool)
    (digest : Uint256) (fb : FinalizedBlock) (cert : FinalityCertificate)
    (set : ValidatorSetSnapshot) (expectedSuccessorSetHash : Uint256) : CertificateCheck :=
  let signing := signers cert.signerBitmap set
  if set.size = 0 then .SET_VIEW_INCONSISTENT
  else if ¬ isWellFormedSignerBitmap cert.signerBitmap set.size then .MALFORMED_BITMAP
  else if fb.validatorSetHash ≠ expectedSuccessorSetHash then .WRONG_SUCCESSOR_SET
  else if signing = [] then .NO_SIGNERS
  else if (signing.map (·.weight)).sum < quorumWeightV1 (totalWeight set) then
    .INSUFFICIENT_WEIGHT
  else if signing.length < finalityHeadcountQuorum set.size then .INSUFFICIENT_HEADCOUNT
  else if ¬ fastAggregateVerify (signing.map (·.blsPubkey)) digest cert.aggregateSig then
    .BAD_SIGNATURE
  else .OK

/-! ## Two certificates over one set -/

section Overlap

variable {verify : List BlsPubkey → Uint256 → List UInt8 → Bool} {d d' s s' : Uint256}
  {fb fb' : FinalizedBlock} {cert cert' : FinalityCertificate} {set : ValidatorSetSnapshot}

theorem verified_quorum (hmax : totalWeight set ≤ (U64 - 1) / 2)
    (h : verifyFinalityCertificate verify d fb cert set s = .OK) :
    totalWeight set * 2 / 3 < ((signers cert.signerBitmap set).map (·.weight)).sum ∧
      set.size * 2 / 3 < (signers cert.signerBitmap set).length := by
  simp only [verifyFinalityCertificate] at h
  split_ifs at h with _ _ _ _ hweight hcount
  rw [quorumWeightV1, if_neg (by omega)] at hweight
  exact ⟨not_lt.mp hweight, not_lt.mp hcount⟩

/-- Two certificates accepted over one set, whatever they certify, have signers of more than a
third of its weight in common, and more than a third of its members. -/
theorem certificates_overlap (hmax : totalWeight set ≤ (U64 - 1) / 2)
    (h : verifyFinalityCertificate verify d fb cert set s = .OK)
    (h' : verifyFinalityCertificate verify d' fb' cert' set s' = .OK) :
    let both := Quorum.signed
      (fun i => signerBit cert.signerBitmap i && signerBit cert'.signerBitmap i) set.members
    totalWeight set < 3 * (both.map (·.weight)).sum ∧ set.size < 3 * both.length := by
  obtain ⟨hw, hn⟩ := verified_quorum hmax h
  obtain ⟨hw', hn'⟩ := verified_quorum hmax h'
  exact ⟨Quorum.third_lt hw hw', Quorum.third_lt_length hn hn'⟩

theorem rival_certificates_overlap :
    let set : ValidatorSetSnapshot := ⟨0, [⟨1, 1, 5⟩, ⟨2, 2, 5⟩, ⟨3, 3, 5⟩, ⟨4, 4, 5⟩]⟩
    totalWeight set < 3 * ((Quorum.signed (fun i => signerBit [7] i && signerBit [14] i)
      set.members).map (·.weight)).sum :=
  (@certificates_overlap (fun _ _ _ => true) 1 2 0 0 ⟨8, 1, 0, 0, 0⟩ ⟨8, 2, 0, 0, 0⟩ ⟨[7], []⟩
    ⟨[14], []⟩ _ (by decide) (by decide) (by decide)).1

end Overlap

/-! ## Schedule -/

/-- `EpochOfHeight`: the last epoch in the table that has started at `height`. -/
def epochOfHeight : List Nat → Nat → Option Nat
  | [], _ => none
  | first :: rest, height =>
    if height < first then none else some (rest.takeWhile (· ≤ height)).length

def isCheckpointHeight (height modernStart interval : Nat) : Bool :=
  interval > 0 && height ≥ modernStart && (height - modernStart) % interval == 0

def checkpointDepthSatisfied (checkpointHeight includingHeight depth : Nat) : Bool :=
  includingHeight ≥ checkpointHeight && includingHeight - checkpointHeight ≥ depth

/-- While the table only ever grows by later starts, an epoch already begun stays put. -/
theorem epochOfHeight_append {starts later : List Nat} {height : Nat} (hne : starts ≠ [])
    (hle : ∀ x ∈ starts, x ≤ height) (hlt : ∀ x ∈ later, height < x) :
    epochOfHeight (starts ++ later) height = some (starts.length - 1) := by
  cases starts with
  | nil => exact absurd rfl hne
  | cons first rest =>
    have hfirst : ¬ height < first := by
      have := hle first (by simp)
      omega
    have hrest : (rest ++ later).takeWhile (· ≤ height) = rest := by
      rw [List.takeWhile_append_of_pos (fun x hx => by simpa using hle x (by simp [hx]))]
      cases later with
      | nil => simp
      | cons x xs =>
        have := hlt x (by simp)
        simp [this]
    simp [epochOfHeight, hfirst, hrest]

end B3Coin.Finality
