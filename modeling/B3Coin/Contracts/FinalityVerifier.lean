import B3Coin.Basic
import B3Coin.Lib.Guards
import B3Coin.Lib.Transition

/-!
# The Ethereum mirror of B3 finality

`B3FinalityVerifier.sol` with the header rules of `B3Types`. A call either
reverts, and leaves the storage as it was, or returns the next storage. The
proof backend and keccak are parameters. Unsigned arithmetic is checked, as the
compiler's is: an overflow or underflow is the revert `Panic`. Event emission
and the bitmap that only events carry are left out.
-/
namespace B3Coin.FinalityVerifier

open Guards

structure FinalizedBlock where
  height : Nat
  blockHash : Uint256
  withdrawalRoot : Uint256
  validatorSetHash : Uint256
  epoch : Nat
  deriving DecidableEq

structure SetHeader where
  epoch : Nat
  rulesetVersion : Nat
  validatorCount : Nat
  totalWeight : Nat
  quorumWeight : Nat
  aggregatePubkey : List UInt8
  membersRoot : Uint256
  deriving DecidableEq

/-- What `delete` leaves in a header slot. -/
def SetHeader.deleted : SetHeader := ⟨0, 0, 0, 0, 0, [], 0⟩

def RULESET_V1 : Nat := 1
def MAX_VALIDATORS : Nat := 8192
def MIN_PROVEN_EPOCH_DURATION : Nat := 86400
def MAX_PROVEN_BRIDGE_VALIDATORS : Nat := 64

def encodeSetHeader (h : SetHeader) : List UInt8 :=
  bigEndian 8 h.epoch ++ bigEndian 2 h.rulesetVersion ++ bigEndian 4 h.validatorCount ++
    bigEndian 8 h.totalWeight ++ bigEndian 8 h.quorumWeight ++ h.aggregatePubkey ++
    bigEndian 32 h.membersRoot

def quorumWeight (totalWeight : Nat) : Nat := totalWeight * 2 / 3 + 1

def headerShapeValid (h : SetHeader) : Bool :=
  h.rulesetVersion == RULESET_V1 && h.validatorCount != 0 && h.validatorCount ≤ MAX_VALIDATORS &&
    h.totalWeight != 0 && h.quorumWeight == quorumWeight h.totalWeight &&
    h.aggregatePubkey.length == 48 && h.membersRoot != 0 &&
    -- compressed G1: compression bit set, infinity bit clear
    (h.aggregatePubkey.headD 0 &&& 0xc0) == 0x80

/-- The proof backend behind `IB3FinalityProver`, with what the constructor
reads of its account. -/
structure Prover where
  address : Nat
  codeLength : Nat
  codeHash : Uint256
  verify : Uint256 → FinalizedBlock → Uint256 → SetHeader → List UInt8 → Bool

structure DeploymentConfig where
  modernStartHeight : Nat
  bridgeActivationHeight : Nat
  minBridgeValidators : Nat
  maxBridgeValidators : Nat
  minBridgeTotalWeight : Nat
  minEpochDuration : Nat
  maxEpochLag : Nat
  maxCertificateAge : Nat
  minDepositExitWindow : Nat
  bootstrapDeadline : Nat
  deriving DecidableEq

/-- Everything a deployed contract can never change. -/
structure Immutables where
  chainDomain : Uint256
  bootstrapSetHash : Uint256
  config : DeploymentConfig
  prover : Prover

structure Storage where
  initialized : Bool
  genesisTime : Nat
  genesisSetHash : Uint256
  bootstrapSet : SetHeader
  currentEpoch : Nat
  currentSetHash : Uint256
  currentSet : SetHeader
  nextSetHash : Uint256
  nextSet : SetHeader
  setHashByEpoch : Nat → Uint256
  latest : FinalizedBlock
  lastCertificateTime : Nat
  lastRotationTime : Nat
  latestBridgeFinalizedHeight : Nat
  latestBridgeWithdrawalRoot : Uint256

inductive Revert where
  | BadBootstrap | AlreadyInitialized | NotInitialized | BootstrapExpired | BadGenesisSet
  | BadProver | EpochNotAccepted | NotMonotone | BadFinalizedBlock | PrematureWithdrawalRoot
  | MissingWithdrawalRoot | BadSuccessor | SuccessorMismatch | EpochLagExceeded
  | EpochTimeWindow | ProofRejected | Panic
  deriving DecidableEq

section Contract

variable (keccak256 : List UInt8 → Uint256)

def hashSetHeader (h : SetHeader) : Uint256 := keccak256 (encodeSetHeader h)

section

variable (s : Storage) (epoch timestamp : Nat) (chainDomain : Uint256) (bootstrapSet : SetHeader)
  (expectedBootstrapSetHash : Uint256) (prover : Prover) (expectedProverCodeHash : Uint256)
  (config : DeploymentConfig)

def constructGuards : List (Bool × Revert) :=
  [(chainDomain = 0 ∨ expectedBootstrapSetHash = 0 ∨ expectedProverCodeHash = 0 ∨
      config.modernStartHeight = 0 ∨ config.bridgeActivationHeight < config.modernStartHeight ∨
      config.minBridgeValidators < 4 ∨ config.maxBridgeValidators < config.minBridgeValidators ∨
      config.maxBridgeValidators > MAX_PROVEN_BRIDGE_VALIDATORS ∨
      config.minBridgeTotalWeight = 0 ∨
      config.minEpochDuration < MIN_PROVEN_EPOCH_DURATION ∨
      config.minEpochDuration > config.maxEpochLag ∨ config.maxEpochLag = 0 ∨
      config.maxCertificateAge = 0 ∨ config.maxCertificateAge ≥ config.maxEpochLag ∨
      config.minDepositExitWindow = 0 ∨ config.minDepositExitWindow ≥ config.maxEpochLag ∨
      config.bootstrapDeadline ≤ timestamp ∨
      config.bootstrapDeadline - timestamp > config.maxEpochLag, .BadBootstrap),
    (bootstrapSet.epoch ≠ 0 ∨ bootstrapSet.validatorCount ≠ 4 ∨ bootstrapSet.totalWeight ≠ 4 ∨
      bootstrapSet.quorumWeight ≠ 3 ∨ ¬ headerShapeValid bootstrapSet ∨
      hashSetHeader keccak256 bootstrapSet ≠ expectedBootstrapSetHash, .BadGenesisSet),
    (prover.address = 0 ∨ prover.codeLength = 0 ∨ prover.codeHash ≠ expectedProverCodeHash,
      .BadProver)]

/-- The constructor at block time `timestamp`. -/
def construct : Except Revert (Immutables × Storage) :=
  match first (constructGuards keccak256 timestamp chainDomain bootstrapSet
      expectedBootstrapSetHash prover expectedProverCodeHash config) with
  | some e => .error e
  | none =>
    .ok (⟨chainDomain, expectedBootstrapSetHash, config, prover⟩,
      { initialized := false
        genesisTime := 0
        genesisSetHash := 0
        bootstrapSet := bootstrapSet
        currentEpoch := 0
        currentSetHash := 0
        currentSet := .deleted
        nextSetHash := 0
        nextSet := .deleted
        setHashByEpoch := fun _ => 0
        latest := ⟨config.modernStartHeight - 1, 0, 0, 0, 0⟩
        lastCertificateTime := 0
        lastRotationTime := 0
        latestBridgeFinalizedHeight := 0
        latestBridgeWithdrawalRoot := 0 })

section

variable (c : Immutables) (timestamp : Nat) (snapshot : FinalizedBlock) (genesisSet : SetHeader)
  (proof : List UInt8) (s : Storage)

def initializeGuards : List (Bool × Revert) :=
  [(s.initialized, .AlreadyInitialized),
    (timestamp > c.config.bootstrapDeadline, .BootstrapExpired),
    (snapshot.height ≠ c.config.modernStartHeight - 1 ∨ snapshot.blockHash = 0 ∨
      snapshot.withdrawalRoot ≠ 0 ∨ snapshot.validatorSetHash = 0 ∨ snapshot.epoch ≠ 0,
      .BadFinalizedBlock),
    (genesisSet.epoch ≠ 0 ∨ ¬ headerShapeValid genesisSet ∨
      hashSetHeader keccak256 genesisSet ≠ snapshot.validatorSetHash, .BadGenesisSet),
    (!c.prover.verify c.chainDomain snapshot c.bootstrapSetHash s.bootstrapSet proof,
      .ProofRejected)]

/-- `initialize`: the one-time handoff from the bootstrap committee to Set 0. -/
def initializeContract : Except Revert Storage :=
  match first (initializeGuards keccak256 c timestamp snapshot genesisSet proof s) with
  | some e => .error e
  | none =>
    let genesisSetHash := hashSetHeader keccak256 genesisSet
    .ok { s with
      initialized := true
      genesisTime := timestamp
      genesisSetHash := genesisSetHash
      currentSet := genesisSet
      currentSetHash := genesisSetHash
      setHashByEpoch := fun e => if e = 0 then genesisSetHash else s.setHashByEpoch e
      latest := snapshot
      lastCertificateTime := 0
      lastRotationTime := timestamp }

/-- The largest `uint256`. -/
def UINT256_MAX : Nat := 2 ^ 256 - 1

def epochTimeValid (epoch timestamp : Nat) : Bool :=
  if epoch > (UINT256_MAX - s.genesisTime) / c.config.minEpochDuration then false
  else if epoch + 1 > (UINT256_MAX - s.genesisTime) / c.config.maxEpochLag then false
  else timestamp ≥ s.genesisTime + epoch * c.config.minEpochDuration &&
    timestamp ≤ s.genesisTime + (epoch + 1) * c.config.maxEpochLag

def bridgeThresholdMet (set : SetHeader) : Bool :=
  set.validatorCount ≥ c.config.minBridgeValidators &&
    set.validatorCount ≤ c.config.maxBridgeValidators &&
    set.totalWeight ≥ c.config.minBridgeTotalWeight

end

/-- Whether a certificate for `epoch` is the first one signed by the known successor. -/
def transition : Bool := epoch == s.currentEpoch + 1 && s.nextSetHash != 0

/-- The set the certificate has to be signed by, with its stored hash. -/
def signingSet : SetHeader × Uint256 :=
  if transition s epoch then (s.nextSet, s.nextSetHash) else (s.currentSet, s.currentSetHash)

/-- The root bookkeeping of an accepted certificate. -/
def recordBridgeRoot (c : Immutables) (fb : FinalizedBlock) (s : Storage) : Storage :=
  if bridgeThresholdMet c (signingSet s fb.epoch).1 ∧
      fb.height ≥ c.config.bridgeActivationHeight then
    { s with
      latestBridgeFinalizedHeight := fb.height
      latestBridgeWithdrawalRoot := fb.withdrawalRoot }
  else s

/-- Rotation into the successor that has just signed. -/
def rotate : Storage :=
  { s with
    currentSet := s.nextSet
    currentSetHash := s.nextSetHash
    currentEpoch := s.currentEpoch + 1
    nextSet := .deleted
    nextSetHash := 0
    setHashByEpoch := fun e =>
      if e = s.currentEpoch + 1 then s.nextSetHash else s.setHashByEpoch e }

end

section

variable (c : Immutables) (timestamp : Nat) (fb : FinalizedBlock) (successor : SetHeader)
  (proof : List UInt8) (s : Storage)

/-- A successor is learnt once per epoch and must be repeated exactly afterwards. -/
def learnSuccessor (successorHash : Uint256) (s : Storage) : Except Revert Storage :=
  if s.nextSetHash = 0 then .ok { s with nextSet := successor, nextSetHash := successorHash }
  else if s.nextSetHash ≠ successorHash then .error .SuccessorMismatch
  else .ok s

def submitGuards : List (Bool × Revert) :=
  [(!s.initialized, .NotInitialized),
    (s.currentEpoch + 1 ≥ U64, .Panic),
    (fb.epoch ≠ s.currentEpoch ∧ ¬ transition s fb.epoch, .EpochNotAccepted),
    (timestamp < s.lastRotationTime, .Panic),
    (timestamp - s.lastRotationTime > c.config.maxEpochLag, .EpochLagExceeded),
    (transition s fb.epoch ∧ timestamp - s.lastRotationTime < c.config.minEpochDuration,
      .EpochTimeWindow),
    (!epochTimeValid c s fb.epoch timestamp, .EpochTimeWindow),
    (fb.height ≤ s.latest.height, .NotMonotone),
    (fb.blockHash = 0 ∨ fb.validatorSetHash = 0, .BadFinalizedBlock),
    (fb.height < c.config.bridgeActivationHeight ∧ fb.withdrawalRoot ≠ 0,
      .PrematureWithdrawalRoot),
    (fb.height ≥ c.config.bridgeActivationHeight ∧ fb.withdrawalRoot = 0,
      .MissingWithdrawalRoot),
    (fb.epoch + 1 ≥ U64, .Panic),
    (successor.epoch ≠ fb.epoch + 1 ∨ ¬ headerShapeValid successor ∨
      hashSetHeader keccak256 successor ≠ fb.validatorSetHash, .BadSuccessor),
    (!c.prover.verify c.chainDomain fb (signingSet s fb.epoch).2 (signingSet s fb.epoch).1 proof,
      .ProofRejected)]

def submitCertificate : Except Revert Storage :=
  match first (submitGuards keccak256 c timestamp fb successor proof s) with
  | some e => .error e
  | none =>
    let recorded := recordBridgeRoot c fb s
    let rotated := if transition s fb.epoch then rotate recorded else recorded
    match learnSuccessor successor (hashSetHeader keccak256 successor) rotated with
    | .error e => .error e
    | .ok learnt =>
      .ok { learnt with
        latest := fb
        lastCertificateTime := timestamp
        lastRotationTime :=
          if transition s fb.epoch then timestamp else learnt.lastRotationTime }

def bridgeReady (timestamp : Nat) : Bool :=
  s.initialized && s.lastCertificateTime != 0 && epochTimeValid c s s.currentEpoch timestamp &&
    timestamp - s.lastCertificateTime ≤ c.config.maxCertificateAge &&
    timestamp - s.lastRotationTime < c.config.maxEpochLag - c.config.minDepositExitWindow &&
    bridgeThresholdMet c s.currentSet && s.nextSetHash != 0 && bridgeThresholdMet c s.nextSet &&
    s.latestBridgeFinalizedHeight ≥ c.config.bridgeActivationHeight

def depositViable (timestamp : Nat) : Bool := bridgeReady c s timestamp

def releaseReady : Bool :=
  s.initialized && s.latestBridgeFinalizedHeight ≥ c.config.bridgeActivationHeight

end

end Contract

/-! ## Runs of a deployed contract -/

inductive Call where
  | initializeContract (snapshot : FinalizedBlock) (genesisSet : SetHeader) (proof : List UInt8)
  | submitCertificate (fb : FinalizedBlock) (successor : SetHeader) (proof : List UInt8)

section Runs

variable (keccak256 : List UInt8 → Uint256) (c : Immutables)

def exec (timestamp : Nat) : Call → Storage → Except Revert Storage
  | .initializeContract snapshot genesisSet proof =>
    initializeContract keccak256 c timestamp snapshot genesisSet proof
  | .submitCertificate fb successor proof =>
    submitCertificate keccak256 c timestamp fb successor proof

/-- The contract's storage together with the time of the last Ethereum block. -/
structure World where
  now : Nat
  storage : Storage

/-- Anyone may call at any later block time; a revert changes only the time. -/
inductive Step : World → World → Prop where
  | accept {w : World} {s : Storage} (k : Call) (timestamp : Nat) :
      w.now ≤ timestamp → exec keccak256 c timestamp k w.storage = .ok s → Step w ⟨timestamp, s⟩
  | revert {w : World} {e : Revert} (k : Call) (timestamp : Nat) :
      w.now ≤ timestamp → exec keccak256 c timestamp k w.storage = .error e →
      Step w ⟨timestamp, w.storage⟩

/-- The world right after a successful deployment of `c`. -/
def Deployed (w : World) : Prop :=
  ∃ bootstrapSet codeHash, construct keccak256 w.now c.chainDomain bootstrapSet
    c.bootstrapSetHash c.prover codeHash c.config = .ok (c, w.storage)

abbrev Reachable (w : World) : Prop := Transition.Reach (Deployed keccak256 c) (Step keccak256 c) w

end Runs

variable {keccak256 : List UInt8 → Uint256} {c : Immutables}

variable {t : Nat}

theorem construct_ok {d h x : Uint256} {b : SetHeader} {p : Prover}
    {cfg : DeploymentConfig} {r : Immutables × Storage}
    (hr : construct keccak256 t d b h p x cfg = .ok r) : r.2.latestBridgeFinalizedHeight = 0 := by
  simp only [construct] at hr
  split at hr
  · cases hr
  · cases hr
    rfl

variable {s s' : Storage}

variable {proof : List UInt8}

theorem initializeContract_ok {snapshot : FinalizedBlock} {g : SetHeader}
    (h : initializeContract keccak256 c t snapshot g proof s = .ok s') :
    s.initialized = false ∧ s'.latestBridgeFinalizedHeight = s.latestBridgeFinalizedHeight := by
  simp only [initializeContract] at h
  split at h
  · cases h
  · rename_i hg
    have hinit := first_eq_none.mp hg (s.initialized, .AlreadyInitialized)
      (by simp [initializeGuards])
    cases h
    exact ⟨hinit, rfl⟩

variable {successor : SetHeader}

theorem learnSuccessor_ok {hash : Uint256} (h : learnSuccessor successor hash s = .ok s') :
    s'.initialized = s.initialized ∧
      s'.latestBridgeFinalizedHeight = s.latestBridgeFinalizedHeight ∧
      s'.latestBridgeWithdrawalRoot = s.latestBridgeWithdrawalRoot := by
  simp only [learnSuccessor] at h
  split_ifs at h <;> cases h <;> simp

/-- What an accepted certificate proves about the storage it met and what it
leaves in the fields the bridge reads. -/
theorem submitCertificate_ok {fb : FinalizedBlock}
    (h : submitCertificate keccak256 c t fb successor proof s = .ok s') :
    s.initialized = true ∧ s.latest.height < fb.height ∧ s'.initialized = true ∧
      s'.latest = fb ∧
      s'.latestBridgeFinalizedHeight = (recordBridgeRoot c fb s).latestBridgeFinalizedHeight ∧
      s'.latestBridgeWithdrawalRoot = (recordBridgeRoot c fb s).latestBridgeWithdrawalRoot := by
  simp only [submitCertificate] at h
  split at h
  · cases h
  rename_i hg
  have hinit := first_eq_none.mp hg (!s.initialized, .NotInitialized) (by simp [submitGuards])
  have hmono := first_eq_none.mp hg (decide (fb.height ≤ s.latest.height), .NotMonotone)
    (by simp [submitGuards])
  have hrotate : ∀ r : Storage, (rotate r).initialized = r.initialized ∧
      (rotate r).latestBridgeFinalizedHeight = r.latestBridgeFinalizedHeight ∧
      (rotate r).latestBridgeWithdrawalRoot = r.latestBridgeWithdrawalRoot :=
    fun r => ⟨rfl, rfl, rfl⟩
  split at h
  · cases h
  rename_i hl
  have hk := learnSuccessor_ok hl
  have hrec : (recordBridgeRoot c fb s).initialized = s.initialized := by
    simp only [recordBridgeRoot]; split_ifs <;> rfl
  cases h
  simp only [Bool.not_eq_eq_eq_not, Bool.not_false, decide_eq_false_iff_not] at hinit hmono
  have hlt : s.latest.height < fb.height := by omega
  split_ifs at hk
  · simp only [hrotate] at hk
    exact ⟨hinit, hlt, by rw [hk.1, hrec, hinit], rfl, hk.2⟩
  · exact ⟨hinit, hlt, by rw [hk.1, hrec, hinit], rfl, hk.2⟩

/-- An injective stand-in for keccak: the bytes read as digits after a leading one. -/
def digits (bytes : List UInt8) : Uint256 := bytes.foldl (fun n b => n * 256 + b.toNat) 1

def exampleHeader (epoch validatorCount totalWeight : Nat) : SetHeader :=
  ⟨epoch, RULESET_V1, validatorCount, totalWeight, quorumWeight totalWeight,
    0x80 :: List.replicate 47 0, 1⟩

def exampleConfig : DeploymentConfig := ⟨10, 10, 4, 64, 4, 86400, 604800, 86400, 86400, 1000⟩

def exampleContract : Immutables :=
  ⟨1, digits (encodeSetHeader (exampleHeader 0 4 4)), exampleConfig,
    ⟨1, 1, 1, fun _ _ _ _ _ => true⟩⟩

def exampleSnapshot : FinalizedBlock :=
  ⟨9, 1, 0, digits (encodeSetHeader (exampleHeader 0 4 400)), 0⟩

/-- The certificate of epoch zero at the activation height, naming `successor`. -/
def exampleCertificate (successor : SetHeader) : FinalizedBlock :=
  ⟨10, 2, 7, digits (encodeSetHeader successor), 0⟩

def exampleDeployed : Storage :=
  { initialized := false, genesisTime := 0, genesisSetHash := 0
    bootstrapSet := exampleHeader 0 4 4, currentEpoch := 0, currentSetHash := 0
    currentSet := .deleted, nextSetHash := 0, nextSet := .deleted, setHashByEpoch := fun _ => 0
    latest := ⟨9, 0, 0, 0, 0⟩, lastCertificateTime := 0, lastRotationTime := 0
    latestBridgeFinalizedHeight := 0, latestBridgeWithdrawalRoot := 0 }

theorem exampleDeployed_deployed : Deployed digits exampleContract ⟨1, exampleDeployed⟩ := by
  refine ⟨exampleHeader 0 4 4, 1, ?_⟩
  have hg : first (constructGuards digits 1 1 (exampleHeader 0 4 4)
      exampleContract.bootstrapSetHash exampleContract.prover 1 exampleConfig) = none := by
    decide +kernel
  simp only [construct]
  erw [hg]
  rfl

/-- The storage after the handoff to a set of four validators with weight 400. -/
def exampleInitialized : Storage :=
  { exampleDeployed with
    initialized := true, genesisTime := 2, genesisSetHash := exampleSnapshot.validatorSetHash
    currentSet := exampleHeader 0 4 400, currentSetHash := exampleSnapshot.validatorSetHash
    setHashByEpoch := fun e => if e = 0 then exampleSnapshot.validatorSetHash else 0
    latest := exampleSnapshot, lastRotationTime := 2 }

theorem exampleInitialized_ok : exec digits exampleContract 2
    (.initializeContract exampleSnapshot (exampleHeader 0 4 400) []) exampleDeployed =
      .ok exampleInitialized := by
  have hg : first (initializeGuards digits exampleContract 2 exampleSnapshot
      (exampleHeader 0 4 400) [] exampleDeployed) = none := by decide +kernel
  simp only [exec, initializeContract, hg]
  rfl

/-- The storage after the certificate of epoch zero that names `successor`. -/
def exampleSubmitted (successor : SetHeader) : Storage :=
  { exampleInitialized with
    nextSet := successor, nextSetHash := digits (encodeSetHeader successor)
    latest := exampleCertificate successor, lastCertificateTime := 3
    latestBridgeFinalizedHeight := 10, latestBridgeWithdrawalRoot := 7 }

theorem exampleSubmitted_ok (successor : SetHeader)
    (hg : first (submitGuards digits exampleContract 3 (exampleCertificate successor)
      successor [] exampleInitialized) = none) :
    submitCertificate digits exampleContract 3 (exampleCertificate successor) successor []
      exampleInitialized = .ok (exampleSubmitted successor) := by
  have ht : transition exampleInitialized (exampleCertificate successor).epoch = false := rfl
  have hmet : bridgeThresholdMet exampleContract
      (signingSet exampleInitialized (exampleCertificate successor).epoch).1 = true := by
    simp only [signingSet, ht]
    decide
  have hrec : recordBridgeRoot exampleContract (exampleCertificate successor) exampleInitialized =
      { exampleInitialized with
        latestBridgeFinalizedHeight := 10, latestBridgeWithdrawalRoot := 7 } :=
    if_pos ⟨hmet, by simp [exampleCertificate, exampleContract, exampleConfig]⟩
  simp only [submitCertificate, hg, ht, hrec, learnSuccessor]
  simp [exampleSubmitted, exampleInitialized, exampleDeployed, hashSetHeader]

end B3Coin.FinalityVerifier
