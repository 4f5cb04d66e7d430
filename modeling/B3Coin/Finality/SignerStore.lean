import B3Coin.Basic
import B3Coin.Lib.Guards

/-!
# The signer's durable journal

`node/finality_signer_store.cpp`: the last vote, the ancestry lock and the
validator-set lineage of that lock, replaced atomically and only when the file
still holds what the process last wrote. Writing to the file is assumed to
succeed; what is modelled is which writes the journal refuses.
-/
namespace B3Coin.Finality

/-- The empty sentinel of the lock epoch, the largest `uint64_t`. -/
def NO_EPOCH : Nat := U64 - 1

structure FinalitySignerState where
  chainDomain : Uint256
  validatorKey : Nat
  lastSignedHeight : Int := -1
  lastSignedBlockHash : Uint256 := 0
  lastSignedDigest : Uint256 := 0
  lockHeight : Int := -1
  lockBlockHash : Uint256 := 0
  lockDigest : Uint256 := 0
  lockEpoch : Nat := NO_EPOCH
  lockSigningSetHash : Uint256 := 0
  lockSuccessorSetHash : Uint256 := 0
  deriving DecidableEq

/-- `IsValidState`: the first inconsistency of a journal record, if any. -/
def stateError (s : FinalitySignerState) : Option String :=
  let lastEmpty := s.lastSignedHeight = -1
  let lockEmpty := s.lockHeight = -1
  let lockMetadataEmpty :=
    s.lockEpoch = NO_EPOCH ∧ s.lockSigningSetHash = 0 ∧ s.lockSuccessorSetHash = 0
  Guards.first
    [(s.chainDomain = 0, "null chain domain"),
      (s.lastSignedHeight < -1 ∨ s.lockHeight < -1,
        "negative height outside the empty sentinel"),
      (¬ (lastEmpty ↔ s.lastSignedBlockHash = 0 ∧ s.lastSignedDigest = 0),
        "inconsistent last-signed fields"),
      (¬ (lockEmpty ↔ s.lockBlockHash = 0 ∧ s.lockDigest = 0 ∧ lockMetadataEmpty),
        "inconsistent ancestry-lock fields"),
      (¬ lastEmpty ∧ (s.lastSignedBlockHash = 0 ∨ s.lastSignedDigest = 0),
        "incomplete last-signed checkpoint"),
      (¬ lockEmpty ∧ (s.lockBlockHash = 0 ∨ s.lockDigest = 0), "incomplete ancestry lock"),
      (¬ lockEmpty ∧
        (s.lockEpoch = NO_EPOCH ∨ s.lockSigningSetHash = 0 ∨ s.lockSuccessorSetHash = 0),
        "incomplete validator-set lineage lock"),
      (¬ lastEmpty ∧ (lockEmpty ∨ s.lockHeight < s.lastSignedHeight),
        "ancestry lock is behind the last signed checkpoint")]

/-- `ReadState`: what the journal file holds. -/
inductive JournalFile where
  | absent
  | valid (state : FinalitySignerState)
  | invalid
  deriving DecidableEq

/-- `FinalitySignerStore` with the file it owns. -/
structure FinalitySignerStore where
  isOpen : Bool := false
  chainDomain : Uint256 := 0
  validatorKey : Nat := 0
  state : Option FinalitySignerState := none
  file : JournalFile := .absent
  deriving DecidableEq

namespace FinalitySignerStore

section

variable (current : FinalitySignerState) (st : FinalitySignerStore) (height : Int)
  (blockHash digest : Uint256) (epoch : Nat) (signingSetHash successorSetHash : Uint256)

/-- `Open` on the journal file of this chain and validator. -/
def openFile (file : JournalFile) (chainDomain : Uint256) (validatorKey : Nat) :
    Except String FinalitySignerStore :=
  if chainDomain = 0 then .error "invalid finality signer store identity"
  else
    match file with
    | .absent => .ok ⟨true, chainDomain, validatorKey, none, file⟩
    | .invalid => .error "unsafe finality signer state"
    | .valid loaded =>
      if loaded.chainDomain ≠ chainDomain ∨ loaded.validatorKey ≠ validatorKey then
        .error "finality signer state belongs to another chain or validator"
      else .ok ⟨true, chainDomain, validatorKey, some loaded, file⟩

/-- Why the predecessor on disk may not be replaced, if it may not. -/
def predecessorError : Option String :=
  match st.state, st.file with
  | some s, .valid disk =>
    if disk ≠ s then some "signer-state predecessor changed or disappeared" else none
  | some _, .invalid => some "refusing to replace unsafe signer state"
  | some _, .absent => some "signer-state predecessor changed or disappeared"
  | none, .absent => none
  | none, .invalid => some "refusing to replace unsafe signer state"
  | none, .valid _ => some "signer-state file appeared after startup"

def commit (next : FinalitySignerState) : Except String FinalitySignerStore :=
  if ¬ st.isOpen then .error "finality signer store is not open"
  else if next.chainDomain ≠ st.chainDomain ∨ next.validatorKey ≠ st.validatorKey then
    .error "finality signer identity changed"
  else
    match stateError next, st.predecessorError with
    | some e, _ => .error e
    | none, some e => .error e
    | none, none => .ok { st with state := some next, file := .valid next }

def initializeEmpty : Except String FinalitySignerStore :=
  if ¬ st.isOpen then .error "finality signer store is not open"
  else if st.state.isSome then .ok st
  else st.commit { chainDomain := st.chainDomain, validatorKey := st.validatorKey }

/-- The lineage rule of a vote above the lock: the locked epoch and set again, or the
epoch right after it with exactly the committed successor. -/
def followsLineage : Bool :=
  (epoch = current.lockEpoch && signingSetHash = current.lockSigningSetHash) ||
    (current.lockEpoch < NO_EPOCH - 1 && epoch = current.lockEpoch + 1 &&
      signingSetHash = current.lockSuccessorSetHash)

/-- The journal record after a vote. -/
def signedState : FinalitySignerState :=
  { current with
    lastSignedHeight := height
    lastSignedBlockHash := blockHash
    lastSignedDigest := digest
    lockHeight := height
    lockBlockHash := blockHash
    lockDigest := digest
    lockEpoch := epoch
    lockSigningSetHash := signingSetHash
    lockSuccessorSetHash := successorSetHash }

/-- The journal record after the lock alone has moved. -/
def movedLock : FinalitySignerState :=
  { current with
    lockHeight := height
    lockBlockHash := blockHash
    lockDigest := digest
    lockEpoch := epoch
    lockSigningSetHash := signingSetHash
    lockSuccessorSetHash := successorSetHash }

end

section

variable (st : FinalitySignerStore) (height : Int) (blockHash digest : Uint256) (epoch : Nat)
  (signingSetHash successorSetHash : Uint256)

def commitSignedCheckpoint : Except String FinalitySignerStore :=
  match st.isOpen, st.state with
  | true, some current =>
    if height < 0 ∨ blockHash = 0 ∨ digest = 0 ∨ signingSetHash = 0 ∨ successorSetHash = 0 then
      .error "invalid signed checkpoint"
    else if height < current.lastSignedHeight then
      .error "refusing to sign below the durable watermark"
    else if height = current.lastSignedHeight then
      if blockHash ≠ current.lastSignedBlockHash ∨ digest ≠ current.lastSignedDigest then
        .error "refusing a competing digest at an already signed height"
      else st.commit current
    else if height ≤ current.lockHeight then
      .error "refusing to sign at or below the durable ancestry lock"
    else if current.lockHeight ≥ 0 ∧ ¬ followsLineage current epoch signingSetHash then
      .error "checkpoint does not follow the durable validator-set lineage"
    else
      st.commit (signedState current height blockHash digest epoch signingSetHash successorSetHash)
  | _, _ => .error "finality signer state is not durably initialized"

def commitCertifiedAnchor : Except String FinalitySignerStore :=
  match st.isOpen, st.state with
  | true, some current =>
    if height < 0 ∨ blockHash = 0 ∨ digest = 0 ∨ signingSetHash = 0 ∨ successorSetHash = 0 then
      .error "invalid certified checkpoint"
    else if height ≤ current.lockHeight then
      if height = current.lockHeight ∧ blockHash = current.lockBlockHash ∧
          digest = current.lockDigest ∧ epoch = current.lockEpoch ∧
          signingSetHash = current.lockSigningSetHash ∧
          successorSetHash = current.lockSuccessorSetHash then
        st.commit current
      else .error "certified checkpoint does not advance the durable ancestry lock"
    else if current.lockHeight ≥ 0 ∧
        ¬ (epoch = current.lockEpoch ∧ signingSetHash = current.lockSigningSetHash) then
      .error "certificate does not use the exact validator set of the durable ancestry lock"
    else
      st.commit (movedLock current height blockHash digest epoch signingSetHash successorSetHash)
  | _, _ => .error "finality signer state is not durably initialized"

end

end FinalitySignerStore

/-- `Consensus::FinalitySignerRecovery`: one orphaned vote and the agreed anchor. -/
structure FinalitySignerRecovery where
  chainDomain : Uint256
  validatorKey : Option Nat
  incidentHeight : Int
  incidentBlockHash : Uint256
  incidentEpoch : Nat
  incidentSigningSetHash : Uint256
  incidentSuccessorSetHash : Uint256
  anchorHeight : Int
  anchorBlockHash : Uint256
  deriving DecidableEq

def FinalitySignerRecovery.valid (r : FinalitySignerRecovery) : Bool :=
  r.chainDomain != 0 && r.validatorKey != some 0 && r.incidentHeight ≥ 0 &&
    r.incidentBlockHash != 0 && r.incidentSigningSetHash != 0 &&
    r.incidentSuccessorSetHash != 0 && r.anchorHeight > r.incidentHeight &&
    r.anchorBlockHash != 0 && r.anchorBlockHash != r.incidentBlockHash

/-- The record is exactly the incident: one vote that is also the lock, with one digest. -/
def isIncident (s : FinalitySignerState) (r : FinalitySignerRecovery) : Bool :=
  s.lastSignedHeight = r.incidentHeight && s.lastSignedBlockHash = r.incidentBlockHash &&
    s.lockHeight = r.incidentHeight && s.lockBlockHash = r.incidentBlockHash &&
    s.lockDigest = s.lastSignedDigest && s.lockEpoch = r.incidentEpoch &&
    s.lockSigningSetHash = r.incidentSigningSetHash &&
    s.lockSuccessorSetHash = r.incidentSuccessorSetHash

namespace FinalitySignerStore

def commitPinnedRecoveryAnchor (st : FinalitySignerStore) (r : FinalitySignerRecovery)
    (anchorDigest : Uint256) : Except String FinalitySignerStore :=
  match st.isOpen, st.state with
  | true, some current =>
    if ¬ r.valid ∨ anchorDigest = 0 then .error "invalid pinned recovery"
    else if r.chainDomain ≠ st.chainDomain then .error "pinned recovery belongs to another chain"
    else if r.validatorKey.isSome ∧ r.validatorKey ≠ some st.validatorKey then
      .error "pinned recovery belongs to another validator"
    else if ¬ isIncident current r then
      .error "durable signer state is not exactly the pinned recovery incident"
    else if r.anchorHeight ≤ current.lockHeight ∨ r.anchorHeight ≤ current.lastSignedHeight then
      .error "pinned recovery anchor does not advance the durable ancestry lock"
    else
      st.commit (movedLock current r.anchorHeight r.anchorBlockHash anchorDigest
        current.lockEpoch current.lockSigningSetHash current.lockSuccessorSetHash)
  | _, _ => .error "finality signer state is not durably initialized"

/-- `MatchesOperatorRecoveryIncident`. -/
def matchesOperatorRecoveryIncident (s : FinalitySignerState) (r : FinalitySignerRecovery) : Bool :=
  r.valid && r.validatorKey = some s.validatorKey && (stateError s).isNone &&
    r.chainDomain = s.chainDomain && isIncident s r && s.lastSignedDigest != 0 &&
    r.anchorHeight > s.lastSignedHeight && r.anchorHeight > s.lockHeight

end FinalitySignerStore

end B3Coin.Finality
