import B3Coin.Finality.Sync
import B3Coin.Finality.SignerStore
import B3Coin.Lib.Progression

/-!
# The finality signer

`FinalitySigner` of `node/finality_signature.cpp`: the ancestry guard that runs
before every pass, the recoveries it may apply, and the pass that signs every
checkpoint now signable. The private keys are represented by the public keys
they belong to. The signature pool is the argument `submit`; diagnostic texts
are left out, except the journal's own refusals.
-/
namespace B3Coin.Finality

open BlockChain

variable {β : Type}

/-- The consensus parameters only the signer reads. -/
structure SignerParams where
  modernCheckpoints : Nat → Option Uint256
  finalitySignerRecoveries : List FinalitySignerRecovery

structure FinalitySigner where
  /-- `FinalitySigningPolicy::minimum_depth`. -/
  minimumDepth : Nat := 0
  keys : List BlsPubkey := []
  operatorTrustedRecovery : Option FinalitySignerRecovery := none
  validatorKey : ValidatorKey := 0
  lastSigned : Int := -1
  store : FinalitySignerStore := {}
  permanentError : Bool := false
  deriving DecidableEq

/-- The signing set for `epoch`, current or previous. -/
def setForEpoch (s : State) (epoch : Nat) : Option ValidatorSetSnapshot :=
  if s.bootstrapped = false ∨ s.lineageBroken = true then none
  else if epoch = s.epoch then s.current
  else if s.epoch ≥ 1 ∧ epoch = s.epoch - 1 then s.previous
  else none

section Signer

variable (n : Node β)

section

variable (params : SignerParams) (rootAt : Nat → Option Uint256) (operatorTrusted : Bool)
  (pin : FinalitySignerRecovery) (persisted : FinalitySignerState) (s : State) (tipHeight : Nat)
  (chain : List (Block β)) (sg : FinalitySigner)

/-- The hash of the set after `epoch` as derived on this chain. -/
def successorHashForEpoch (epoch : Nat) : Option Uint256 :=
  if epoch = s.epoch ∧ s.next.isSome then s.next.map n.setHash
  else if s.epoch ≥ 1 ∧ epoch = s.epoch - 1 ∧ s.current.isSome then s.current.map n.setHash
  else none

/-- `ExpectedFinalizedBlock`: the object this node would sign for `(epoch, height)`. -/
def expectedFinalizedBlock (epoch height : Nat) : Option FinalizedBlock :=
  match successorHashForEpoch n s epoch, blockAt chain height, rootAt height with
  | some successor, some b, some root => some ⟨height, n.hash b, root, successor, epoch⟩
  | _, _, _ => none

/-- The highest checkpoint buried to signing depth, if there is one. -/
def highestSignable : Option Nat :=
  if tipHeight < n.pos.checkpointDepth ∨ tipHeight - n.pos.checkpointDepth < n.modernStart then
    none
  else
    let signableTo := tipHeight - n.pos.checkpointDepth
    some (signableTo - (signableTo - n.modernStart) % n.pos.checkpointInterval)

/-- Whether a missing journal could hide a vote that still counts. -/
def mayHideLiveVote (key : ValidatorKey) : Bool :=
  match highestSignable n tipHeight with
  | none => false
  | some highest =>
    match s.finalized with
    | none => true
    | some f =>
      (List.range (highest + 1)).any fun h =>
        h > f.height && isCheckpointHeight h n.modernStart n.pos.checkpointInterval &&
          match epochOfHeight s.epochStarts h with
          | some epoch =>
            match setForEpoch s epoch with
            | some set => (set.indexOf key).isSome
            | none => false
          | none => false

inductive PinnedRecovery where
  | NOT_APPLICABLE | APPLIED | FAILED
  deriving DecidableEq

/-- How deep a recovery anchor has to be buried. -/
def recoveryDepth : Nat :=
  if operatorTrusted then max 20 n.pos.checkpointDepth else n.pos.checkpointDepth

/-- The facts `TryRecoveryAnchor` checks before it writes, and the digest it writes. -/
def recoveryDigest : Option Uint256 :=
  if ¬ pin.valid ∨ (operatorTrusted ∧ (s.bootstrapped = false ∨ s.lineageBroken)) ∨
      chain = [] ∨ pin.chainDomain ≠ n.chainDomain ∨ sg.store.chainDomain ≠ n.chainDomain ∨
      (pin.validatorKey.isSome ∧ pin.validatorKey ≠ some sg.validatorKey) ∨
      (operatorTrusted ∧ (pin.validatorKey.isNone ∨ persisted.validatorKey ≠ sg.validatorKey ∨
        persisted.chainDomain ≠ n.chainDomain ∨ persisted.lastSignedDigest = 0 ∨
        pin.anchorHeight ≤ persisted.lastSignedHeight ∨
        pin.anchorHeight ≤ persisted.lockHeight)) ∨
      ¬ isIncident persisted pin ∨
      (¬ operatorTrusted ∧
        params.modernCheckpoints pin.anchorHeight.toNat ≠ some pin.anchorBlockHash) then
    none
  else
    match blockAt chain pin.incidentHeight.toNat, blockAt chain pin.anchorHeight.toNat,
        setForEpoch s pin.incidentEpoch,
        expectedFinalizedBlock n rootAt s chain pin.incidentEpoch pin.anchorHeight.toNat with
    | some atIncident, some anchor, some incidentSet, some fb =>
      if n.hash atIncident = pin.incidentBlockHash ∨ n.hash anchor ≠ pin.anchorBlockHash ∨
          ¬ checkpointDepthSatisfied pin.anchorHeight.toNat (chain.length - 1)
            (recoveryDepth n operatorTrusted) ∨
          n.setHash incidentSet ≠ pin.incidentSigningSetHash ∨
          successorHashForEpoch n s pin.incidentEpoch ≠ some pin.incidentSuccessorSetHash ∨
          ¬ isCheckpointHeight pin.anchorHeight.toNat n.modernStart n.pos.checkpointInterval ∨
          epochOfHeight s.epochStarts pin.anchorHeight.toNat ≠ some pin.incidentEpoch ∨
          fb.blockHash ≠ pin.anchorBlockHash ∨
          fb.validatorSetHash ≠ pin.incidentSuccessorSetHash then
        none
      else some (n.finalityDigest n.chainDomain fb)
    | _, _, _, _ => none

def FinalitySigner.fail (permanent : Bool) : FinalitySigner :=
  { sg with permanentError := sg.permanentError || permanent }

/-- `TryRecoveryAnchor`. -/
def tryRecoveryAnchor : PinnedRecovery × FinalitySigner :=
  match recoveryDigest n params rootAt operatorTrusted pin persisted s chain sg with
  | none => (.NOT_APPLICABLE, sg)
  | some digest =>
    match sg.store.commitPinnedRecoveryAnchor pin digest with
    | .error _ => (.FAILED, sg.fail true)
    | .ok store => (.APPLIED, { sg with store := store, operatorTrustedRecovery := none })

end

/-- The recoveries in the order they are consulted: chain-pinned, then operator-trusted. -/
def tryRecoveries (params : SignerParams) (rootAt : Nat → Option Uint256)
    (persisted : FinalitySignerState) (s : State) (chain : List (Block β)) (sg : FinalitySigner) :
    List (Bool × FinalitySignerRecovery) → Bool × FinalitySigner
  | [] => (false, sg.fail false)
  | (trusted, pin) :: rest =>
    match tryRecoveryAnchor n params rootAt trusted pin persisted s chain sg with
    | (.APPLIED, sg') => (true, sg')
    | (.FAILED, sg') => (false, sg')
    | (.NOT_APPLICABLE, _) => tryRecoveries params rootAt persisted s chain sg rest

/-- The certificate that may move an orphaned lock: newer, included on this chain, of the
exact epoch and set of the lock. -/
def unlockProof (rootAt : Nat → Option Uint256) (persisted : FinalitySignerState) (s : State)
    (chain : List (Block β)) : Option (FinalizedCheckpoint × ValidatorSetSnapshot × FinalizedBlock) :=
  match s.finalized with
  | none => none
  | some f =>
    if ¬ ((f.height : Int) > persisted.lockHeight ∧ f.certifiedAt > f.height ∧
        (blockAt chain f.certifiedAt).isSome) then none
    else
      match expectedFinalizedBlock n rootAt s chain f.epoch f.height, setForEpoch s f.epoch with
      | some fb, some set =>
        if fb.blockHash ≠ f.blockHash ∨ f.epoch ≠ persisted.lockEpoch ∨
            n.setHash set ≠ persisted.lockSigningSetHash then none
        else some (f, set, fb)
      | _, _ => none

/-- The guard once the journal exists: the lock must lie on the active chain, or be moved. -/
def ensureAncestry (params : SignerParams) (rootAt : Nat → Option Uint256)
    (persisted : FinalitySignerState) (s : State) (chain : List (Block β)) (sg : FinalitySigner) :
    Bool × FinalitySigner :=
  let sg := { sg with lastSigned := persisted.lastSignedHeight }
  if persisted.lockHeight < 0 then (true, sg)
  else if (blockAt chain persisted.lockHeight.toNat).map n.hash = some persisted.lockBlockHash then
    (true, sg)
  else
    match unlockProof n rootAt persisted s chain with
    | some (f, set, fb) =>
      match sg.store.commitCertifiedAnchor f.height f.blockHash
          (n.finalityDigest n.chainDomain fb) f.epoch (n.setHash set) fb.validatorSetHash with
      | .error _ => (false, sg.fail true)
      | .ok store => (true, { sg with store := store, operatorTrustedRecovery := none })
    | none =>
      tryRecoveries n params rootAt persisted s chain sg
        (params.finalitySignerRecoveries.map (fun p => (false, p)) ++
          (sg.operatorTrustedRecovery.map (fun p => (true, p))).toList)

/-- `EnsurePersistentSafety`. -/
def ensurePersistentSafety (params : SignerParams) (rootAt : Nat → Option Uint256) (s : State)
    (chain : List (Block β)) (sg : FinalitySigner) : Bool × FinalitySigner :=
  if ¬ sg.store.isOpen then (true, sg)
  else if sg.permanentError then (false, sg)
  else if n.chainDomain ≠ sg.store.chainDomain then (false, sg.fail true)
  else if chain = [] then (false, sg.fail true)
  else
    match sg.store.state with
    | some persisted => ensureAncestry n params rootAt persisted s chain sg
    | none =>
      if mayHideLiveVote n s (chain.length - 1) sg.validatorKey then (false, sg.fail false)
      else
        match sg.store.initializeEmpty with
        | .error _ => (false, sg.fail true)
        | .ok store =>
          match store.state with
          | some persisted =>
            ensureAncestry n params rootAt persisted s chain { sg with store := store }
          | none => (false, sg)

/-! ## The signing pass -/

/-- `FinalitySigningPolicy::Checkpoints` as the list of heights the pass visits: above the
watermark, buried by the consensus depth and the local policy, on the schedule. -/
def checkpoints (minimumDepth tipHeight : Nat) (watermark : Int) : List Nat :=
  if n.pos.checkpointInterval = 0 then []
  else
    Progression.window n.modernStart n.pos.checkpointInterval
      (max (n.modernStart : Int) (watermark + 1))
      (tipHeight - max n.pos.checkpointDepth minimumDepth)

/-- The combined watermark: last vote, finalized checkpoint and ancestry lock. -/
def watermark (s : State) (sg : FinalitySigner) : Int :=
  let deepest := match s.finalized with
    | some f => max sg.lastSigned f.height
    | none => sg.lastSigned
  match sg.store.isOpen, sg.store.state with
  | true, some persisted => max deepest persisted.lockHeight
  | _, _ => deepest

/-- What the pass signs at one height. -/
structure Proposal where
  height : Nat
  epoch : Nat
  index : Nat
  blockHash : Uint256
  digest : Uint256
  signingSetHash : Uint256
  successorSetHash : Uint256
  deriving DecidableEq

/-- The checkpoint object at `h`, when this validator is in the set of its epoch and holds
the key that set records. -/
def proposalAt (rootAt : Nat → Option Uint256) (s : State) (chain : List (Block β))
    (sg : FinalitySigner) (h : Nat) : Option Proposal := do
  let epoch ← epochOfHeight s.epochStarts h
  let set ← setForEpoch s epoch
  let index ← set.indexOf sg.validatorKey
  let member ← set.members[index]?
  if member.blsPubkey ∈ sg.keys then
    let fb ← expectedFinalizedBlock n rootAt s chain epoch h
    some ⟨h, epoch, index, fb.blockHash, n.finalityDigest n.chainDomain fb, n.setHash set,
      fb.validatorSetHash⟩
  else none

inductive Accept where
  | ACCEPTED | DUPLICATE | STALE | UNKNOWN_EPOCH | NOT_CHECKPOINT | TOO_SHALLOW | BAD_INDEX
  | POOL_FULL | VERIFICATION_DEFERRED | BAD_SIGNATURE
  deriving DecidableEq

/-- The outcome of a pass: the signer after it, the relayed signatures, and every proposal
with the journal's refusal, if it refused. -/
structure Pass where
  signer : FinalitySigner
  relayed : List Proposal
  attempts : List (Proposal × Option String)

/-- Persist a proposal before anything else; a refusal ends the pass for good. -/
def signLoop (submit : Proposal → Accept) (proposal : Nat → Option Proposal) :
    List Nat → FinalitySigner → Pass
  | [], sg => ⟨sg, [], []⟩
  | h :: rest, sg =>
    match proposal h with
    | none => signLoop submit proposal rest sg
    | some p =>
      match (if sg.store.isOpen then
          sg.store.commitSignedCheckpoint p.height p.blockHash p.digest p.epoch
            p.signingSetHash p.successorSetHash
        else .ok sg.store) with
      | .error e => ⟨sg.fail true, [], [(p, some e)]⟩
      | .ok store =>
        let accepted := submit p
        let advances := store.isOpen || accepted == .ACCEPTED || accepted == .DUPLICATE ||
          accepted == .POOL_FULL
        let pass := signLoop submit proposal rest
          { sg with store := store, lastSigned := if advances then p.height else sg.lastSigned }
        { pass with
          relayed := if accepted = .ACCEPTED ∨ accepted = .DUPLICATE then p :: pass.relayed
            else pass.relayed
          attempts := (p, none) :: pass.attempts }

/-- `MaybeSign`. -/
def maybeSign (params : SignerParams) (submit : Proposal → Accept)
    (rootAt : Nat → Option Uint256) (s : State) (chain : List (Block β)) (sg : FinalitySigner) :
    Pass :=
  if sg.keys = [] then ⟨sg, [], []⟩
  else
    match ensurePersistentSafety n params rootAt s chain sg with
    | (false, sg) => ⟨sg, [], []⟩
    | (true, sg) =>
      if chain = [] ∨ s.bootstrapped = false ∨ s.lineageBroken then ⟨sg, [], []⟩
      else
        signLoop submit (proposalAt n rootAt s chain sg)
          (checkpoints n sg.minimumDepth (chain.length - 1) (watermark s sg)) sg

end Signer

/-! ## Which heights a pass visits -/

variable {n : Node β}

/-- The interval's arithmetic, settled once: the visited heights are the checkpoints above
the watermark that are buried deep enough, in increasing order. -/
theorem checkpoints_spec (d t : Nat) (w : Int) : (checkpoints n d t w).Pairwise (· < ·) ∧
    ∀ h, h ∈ checkpoints n d t w ↔
      isCheckpointHeight h n.modernStart n.pos.checkpointInterval = true ∧ w < h ∧
        h + max n.pos.checkpointDepth d ≤ t := by
  have hcp : ∀ h, isCheckpointHeight h n.modernStart n.pos.checkpointInterval = true ↔
      0 < n.pos.checkpointInterval ∧ ∃ j, h = n.modernStart + j * n.pos.checkpointInterval := by
    intro h
    simp only [isCheckpointHeight, Bool.and_eq_true, decide_eq_true_eq, beq_iff_eq]
    constructor
    · rintro ⟨⟨hk, hge⟩, hmod⟩
      obtain ⟨j, hj⟩ := Nat.dvd_of_mod_eq_zero hmod
      exact ⟨hk, j, by rw [Nat.mul_comm]; omega⟩
    · rintro ⟨hk, j, rfl⟩
      exact ⟨⟨hk, by omega⟩, by simp⟩
  unfold checkpoints
  by_cases hk : n.pos.checkpointInterval = 0
  · rw [if_pos hk]
    refine ⟨List.Pairwise.nil, fun h => ⟨fun hm => absurd hm (by simp), fun hm => ?_⟩⟩
    have := ((hcp h).mp hm.1).1
    omega
  rw [if_neg hk]
  have hkpos : 0 < n.pos.checkpointInterval := by omega
  refine ⟨Progression.window_sorted hkpos (by omega), fun h => ?_⟩
  rw [Progression.mem_window hkpos (by omega), hcp]
  constructor
  · rintro ⟨j, rfl, hlo, hhi⟩
    exact ⟨⟨hkpos, j, rfl⟩, by omega, by omega⟩
  · rintro ⟨⟨_, j, rfl⟩, hw, hd⟩
    exact ⟨j, rfl, by omega, by omega⟩

end B3Coin.Finality
