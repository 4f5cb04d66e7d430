import B3Coin.Bridge.Undo
import B3Coin.Contracts.Lineage
import B3Coin.Contracts.ProverAgreement
import B3Coin.Finality.Tracker

/-!
# Relaying the chain's certificates

The finality tracker and `B3FinalityVerifier` follow the same validator sets by different
clocks. The tracker rotates at a height, once a handover is certified; the contract rotates
when it sees the first certificate of the new set. `Mirrors` says how the two stand to each
other: level, or the contract one epoch behind. Blocks without a certificate leave the
contract as it is.
-/
namespace B3Coin.Relay

open List Option FinalityVerifier

open Codec (Bytes)
open BlockChain (blockAt)
open CertificateProver (setHeader finalizedBlock)
open Finality (Node State ValidatorSetSnapshot FinalityCertificate headerOf Built projected
  verifyFinalityCertificate epochOfHeight bootstrapState placementGuards applyBlock)
open FinalityVerifier (Immutables Storage SetHeader)

/-! ## The root a certificate carries -/

/-- `FinalityWithdrawalRoot`: `none` is an index that cannot answer. -/
def finalityWithdrawalRoot (params : Bridge.Params) (index : Option Bridge.BridgeStateIndex)
    (height : Nat) : Option Uint256 :=
  if ¬ params.bridgeRulesActive height ∨ params.busdBridge.bind (·.withdrawalMode) ≠
      some .DECENTRALIZED_VERIFIER_V1 then some 0
  else index.bind (·.state.withdrawalRoots.find? height)

/-- The bridge of the chain is decentralized and active from `activation` on. -/
structure ActiveFrom (params : Bridge.Params) (activation : Nat) : Prop where
  active : params.bridgeRulesActive activation = true
  height : params.busdBridge.bind (·.activationHeight) = some (activation : Int)
  mode : params.busdBridge.bind (·.withdrawalMode) = some .DECENTRALIZED_VERIFIER_V1

variable {params : Bridge.Params}

theorem ActiveFrom.bridgeRulesActive {activation : Nat}
    (h : ActiveFrom params activation) (height : Nat) :
    params.bridgeRulesActive height = true ↔ activation ≤ height := by
  have hactive := h.active
  have hheight := h.height
  unfold Bridge.Params.bridgeRulesActive at hactive ⊢
  cases hbridge : params.busdBridge with
  | none => simp [hbridge] at hheight
  | some b =>
    rw [hbridge, bind_some] at hheight
    simp only [hbridge, any_some, hheight, Bool.and_eq_true, decide_eq_true_eq] at hactive ⊢
    simp only [hactive, true_and]
    omega

/-- An index that is kept by the calls of the node. -/
def Maintained (keccak : Bytes → Uint256) (index : Option Bridge.BridgeStateIndex) : Prop :=
  ∀ i, index = some i → ∃ E : Bridge.BridgeEnv, E.keccak = keccak ∧ Bridge.Reachable E i

def RootsNonzero (index : Option Bridge.BridgeStateIndex) : Prop :=
  ∀ i, index = some i → ∀ height root, i.state.withdrawalRoots.find? height = some root → root ≠ 0

theorem Maintained.rootsNonzero {keccak : Bytes → Uint256} (hne : ∀ b, keccak b ≠ 0)
    {index : Option Bridge.BridgeStateIndex} (h : Maintained keccak index) : RootsNonzero index := by
  intro i hi
  obtain ⟨E, rfl, hreach⟩ := h i hi
  obtain ⟨_, hretained⟩ := hreach.retained
  exact (hretained.built.roots_ne_zero hne).2

theorem finalityWithdrawalRoot_zero_iff {activation : Nat}
    (h : ActiveFrom params activation) {index : Option Bridge.BridgeStateIndex}
    (hindex : RootsNonzero index) {height : Nat} {root : Uint256}
    (hroot : finalityWithdrawalRoot params index height = some root) :
    root = 0 ↔ height < activation := by
  unfold finalityWithdrawalRoot at hroot
  simp only [h.bridgeRulesActive, h.mode, ne_eq, not_true_eq_false, or_false, Nat.not_le] at hroot
  split_ifs at hroot with hlow
  · cases hroot
    exact iff_of_true rfl hlow
  · obtain ⟨i, hi, hfind⟩ := bind_eq_some_iff.mp hroot
    exact iff_of_false (hindex i hi _ _ hfind) hlow

/-! ## What the chain hands to the relayer -/

/-- A certificate connected in a coinbase, with the set that signed it and the set it names. -/
structure Connection where
  fb : Finality.FinalizedBlock
  cert : FinalityCertificate
  signing : ValidatorSetSnapshot
  successor : ValidatorSetSnapshot

section Chain

variable {β : Type} (n : Node β)

/-- The certificate of the block over `below`; its sets are those `judgeFinalityCertificate`
reads. -/
def connection (below : List (BlockChain.Block β)) (s : State) (b : BlockChain.Block β) :
    Option Connection :=
  if below.length < n.modernStart then none
  else
    let p := projected n s below
    match n.matchCertificate b.body p.setSize with
    | some (some (fb, cert)) =>
      let delayed := fb.epoch ≠ p.epoch
      some ⟨fb, cert, (if delayed then p.previous else p.current).getD ⟨0, []⟩,
        (if delayed then p.current else p.next).getD ⟨0, []⟩⟩
    | _ => none

/-- A chain the finality rules accept, with its tracker and its certificates, newest first.
The bridge index may answer differently from block to block. -/
inductive Connected (keccak : Bytes → Uint256) (params : Bridge.Params) :
    List (BlockChain.Block β) → State → List Connection → Prop
  | empty : Connected keccak params [] {} []
  | block {below : List (BlockChain.Block β)} {s s' : State} {cs : List Connection}
      (index : Option Bridge.BridgeStateIndex) (b : BlockChain.Block β) :
      Connected keccak params below s cs → Maintained keccak index →
      applyBlock n (finalityWithdrawalRoot params index) below b s = some s' →
      Connected keccak params (b :: below) s' ((connection n below s b).toList ++ cs)

variable {n}

variable {keccak : Bytes → Uint256} {params : Bridge.Params} {chain : List (BlockChain.Block β)}

theorem Connected.tracker {s : State} {cs : List Connection}
    (h : Connected n keccak params chain s cs) : Finality.TrackerAt n chain s := by
  induction h with
  | empty => exact .empty
  | block index b _ _ happly ih => exact .block _ b ih happly

theorem Connected.legacy {s : State} {cs : List Connection}
    (h : Connected n keccak params chain s cs) (hlow : chain.length ≤ n.modernStart) : cs = [] := by
  induction h with
  | empty => rfl
  | block index b _ _ _ ih =>
    rw [length_cons] at hlow
    rw [ih (by omega), connection, if_pos (by omega)]
    rfl

end Chain

/-! ## Submissions -/

/-- What the contract stores of a set. -/
def entry {G₁ G₂ : Type} [AddCommGroup G₁] [Zero G₂] (B : Bls G₁ G₂) (keccak : Bytes → Uint256)
    (s : ValidatorSetSnapshot) : SetHeader × Uint256 :=
  (setHeader (headerOf B keccak s), Finality.validatorSetHash keccak (headerOf B keccak s))

section Contract

variable {G₁ G₂ : Type} [AddCommGroup G₁] [Zero G₂] (B : Bls G₁ G₂) (keccak : Bytes → Uint256)
  (proofOf : ValidatorSetSnapshot → FinalityCertificate → Bytes) (c : Immutables)

def submit (t : Nat) (x : Connection) (s : Storage) : Except FinalityVerifier.Revert Storage :=
  submitCertificate keccak c t (finalizedBlock x.fb) (entry B keccak x.successor).1
    (proofOf x.signing x.cert) s

/-- Submissions with their times, newest first, so that the oldest is submitted first. -/
def relay (s : Storage) : List (Nat × Connection) → Except FinalityVerifier.Revert Storage
  | [] => .ok s
  | x :: older => relay s older >>= submit B keccak proofOf c x.1 x.2

/-- A time at which the windows of the contract are open for a certificate of `epoch`. -/
structure InWindow (s : Storage) (epoch t : Nat) : Prop where
  after : s.lastRotationTime ≤ t
  lag : t - s.lastRotationTime ≤ c.config.maxEpochLag
  duration : transition s epoch = true →
    c.config.minEpochDuration ≤ t - s.lastRotationTime
  window : epochTimeValid c s epoch t = true

/-- Every submission meets the windows of the storage it finds. -/
def Timely (s₀ : Storage) : List (Nat × Connection) → Prop
  | [] => True
  | x :: older => Timely s₀ older ∧ ∀ s, relay B keccak proofOf c s₀ older = .ok s →
      InWindow c s x.2.fb.epoch x.1

/-- The storage of a contract that has been handed over to the set `first`. -/
def HandedTo (first : ValidatorSetSnapshot) (s₀ : Storage) : Prop :=
  ∃ w t snapshot proof, FinalityVerifier.Deployed keccak c w ∧
    initializeContract keccak c t snapshot (entry B keccak first).1 proof
      w.storage = .ok s₀

end Contract

/-! ## What a block does to the tracker -/

section Tracker

variable {β : Type} {n : Node β}

variable {below : List (BlockChain.Block β)}

/-- Past the first modern height the sets stay, or a certified handover takes place. -/
theorem projected_cases {s : State} (hlow : n.modernStart < below.length) :
    (∃ broken, projected n s below = { s with lineageBroken := broken }) ∨
      s.handoverCertified = true ∧ ∃ broken, projected n s below =
        { Finality.rotateEpoch n s below with lineageBroken := broken } := by
  have hbreak : ∀ (p : State) (h : Nat),
      ∃ broken, Finality.breakLineage n p h = { p with lineageBroken := broken } := by
    intro p h
    unfold Finality.breakLineage
    split_ifs
    · exact ⟨true, rfl⟩
    · exact ⟨p.lineageBroken, rfl⟩
  simp only [projected]
  rw [if_neg (by omega), if_neg (by omega)]
  split_ifs with _ hrotates
  · exact .inl ⟨s.lineageBroken, rfl⟩
  · exact .inr ⟨hrotates.1, hbreak _ _⟩
  · exact .inl (hbreak _ _)

theorem bootstrapState_eq {first : ValidatorSetSnapshot}
    (h : (bootstrapState n below).bootstrap = some first) :
    n.snapshotAt below 0 = some first ∧ bootstrapState n below =
      { epochStarts := [below.length]
        current := some first
        bootstrap := some first
        next := some (first.withEpoch 1)
        bootstrapped := true } := by
  unfold bootstrapState at h ⊢
  split at h
  · rename_i snap hsnap
    split_ifs at h with hsize
    cases h
    rw [hsnap]
    exact ⟨rfl, if_pos hsize⟩
  · cases h

/-- The state after a block that carries a certificate. -/
def certified (p : State) (fb : Finality.FinalizedBlock) (height : Nat) : State :=
  { p with
    finalized := some ⟨fb.height, fb.blockHash, fb.epoch, height⟩
    handoverCertified := fb.epoch == p.epoch || p.handoverCertified }

variable {rootAt : Nat → Option Uint256}

/-- What the placement rules say about a certificate under the tracker `p`. -/
structure Placed (n : Node β) (rootAt : Nat → Option Uint256) (p : State)
    (fb : Finality.FinalizedBlock) : Prop where
  start : p.epochStarts.headD 0 ≤ fb.height
  epoch : fb.epoch = p.epoch ∨ fb.epoch + 1 = p.epoch
  epochOfHeight : epochOfHeight p.epochStarts fb.height = some fb.epoch
  blockHash : ∃ b, n.hash b = fb.blockHash
  root : rootAt fb.height = some fb.withdrawalRoot
  finalized : ∀ f, p.finalized = some f → f.height < fb.height

variable {fb : Finality.FinalizedBlock} {cert : FinalityCertificate}

theorem placed_of_judge {p : State} {chain : List (BlockChain.Block β)}
    (h : Finality.judgeFinalityCertificate n rootAt p chain fb cert = true) :
    Placed n rootAt p fb := by
  have hplacement := Finality.judge_placement h
  obtain ⟨-, hstart, hepoch⟩ := Finality.placement_ok hplacement
  have hpass : ∀ g ∈ placementGuards n rootAt p chain fb, g.1 = false :=
    (Guards.first_getD_eq (by simp [placementGuards])).mp hplacement
  simp only [placementGuards, forall_mem_cons, decide_eq_false_iff_not, not_not,
    ne_eq] at hpass
  obtain ⟨-, -, -, -, -, hwindow, -, -, hhash, -, -, hroot, hregression, -⟩ := hpass
  refine ⟨hstart, by omega, hepoch, ?_, hroot, fun f hf => ?_⟩
  · obtain ⟨b, -, hb⟩ := map_eq_some_iff.mp hhash
    exact ⟨b, hb⟩
  · simpa [hf] using hregression

theorem verify_successor {verifies : List Finality.BlsPubkey → Uint256 → List UInt8 → Bool}
    {digest expected : Uint256} {set : ValidatorSetSnapshot}
    (h : verifyFinalityCertificate verifies digest fb cert set expected = .OK) :
    fb.validatorSetHash = expected := by
  unfold verifyFinalityCertificate at h
  split_ifs at h with _ _ hsuccessor
  exact not_not.mp hsuccessor

end Tracker

/-! ## The simulation -/

section Simulation

variable {β G₁ G₂ : Type} [AddCommGroup G₁] [Zero G₂]

/-- The node commits to its sets as the set code does, and null stands for nothing. -/
structure Wired (B : Bls G₁ G₂) (keccak : Bytes → Uint256) (n : Node β) : Prop where
  setHash : ∀ s, n.setHash s = (entry B keccak s).2
  snapshot : ∀ below epoch s, n.snapshotAt below epoch = some s →
    Built B keccak s ∧ s.epoch = epoch
  hash_ne : ∀ b, n.hash b ≠ 0
  keccak_ne : ∀ b, keccak b ≠ 0

/-- The contract is deployed for this chain, over a prover that accepts exactly the valid
certificates of a set with the header it is given. -/
structure Paired (B : Bls G₁ G₂) (keccak : Bytes → Uint256) (n : Node β) (activation : Nat)
    (proofOf : ValidatorSetSnapshot → FinalityCertificate → Bytes) (c : Immutables) : Prop where
  domain : c.chainDomain = n.chainDomain
  start : c.config.modernStartHeight = n.modernStart
  activation : c.config.bridgeActivationHeight = activation
  prover : ∀ fb header hash proof,
    c.prover.verify c.chainDomain (finalizedBlock fb) hash header proof = true ↔
      ∃ set cert, entry B keccak set = (header, hash) ∧ proof = proofOf set cert ∧
        verifyFinalityCertificate n.fastAggregateVerify
          (n.finalityDigest c.chainDomain fb) fb cert set fb.validatorSetHash = .OK

def Tracked (B : Bls G₁ G₂) (keccak : Bytes → Uint256) (set : Option ValidatorSetSnapshot)
    (epoch : Nat) : Prop :=
  ∃ s, set = some s ∧ Built B keccak s ∧ s.epoch = epoch

/-- The tracker has the sets of its epoch and of the next one. -/
structure TrackedSets (B : Bls G₁ G₂) (keccak : Bytes → Uint256) (t : State) : Prop where
  current : Tracked B keccak t.current t.epoch
  next : Tracked B keccak t.next (t.epoch + 1)

/-- How the contract stands to the tracker. -/
inductive Mirrors (B : Bls G₁ G₂) (keccak : Bytes → Uint256) (n : Node β) (t : State)
    (s : Storage) : Prop
  /-- No certificate yet: both have the first set, and the contract knows no successor. -/
  | fresh : t.finalized = none → t.epoch = 0 → t.handoverCertified = false → s.currentEpoch = 0 →
      t.current.map (entry B keccak) = some s.current → s.nextSetHash = 0 →
      s.latest.height + 1 = n.modernStart → Mirrors B keccak n t s
  /-- The last certificate is one of the tracker's epoch. -/
  | level (f : Finality.FinalizedCheckpoint) : t.finalized = some f → f.epoch = t.epoch →
      s.currentEpoch = t.epoch → t.current.map (entry B keccak) = some s.current →
      t.next.map (entry B keccak) = some s.next → s.latest.height = f.height →
      Mirrors B keccak n t s
  /-- The tracker has rotated since the last certificate, or that one came late. -/
  | behind (f : Finality.FinalizedCheckpoint) : t.finalized = some f → f.epoch + 1 = t.epoch →
      t.handoverCertified = false → s.currentEpoch + 1 = t.epoch →
      t.previous.map (entry B keccak) = some s.current →
      t.current.map (entry B keccak) = some s.next → s.latest.height = f.height →
      Mirrors B keccak n t s

variable {B : Bls G₁ G₂} {keccak : Bytes → Uint256} {n : Node β} {s s' : Storage} {t p : State}

/-! ### A block before its certificate -/

variable {below : List (BlockChain.Block β)}

theorem Mirrors.projected (h : Mirrors B keccak n t s) (hlow : n.modernStart < below.length) :
    Mirrors B keccak n (projected n t below) s := by
  rcases projected_cases (s := t) hlow with ⟨broken, hp⟩ | ⟨hhandover, broken, hp⟩
  · rw [hp]
    cases h with
    | fresh h1 h2 h3 h4 h5 h6 h7 => exact .fresh h1 h2 h3 h4 h5 h6 h7
    | level f h1 h2 h3 h4 h5 h6 => exact .level f h1 h2 h3 h4 h5 h6
    | behind f h1 h2 h3 h4 h5 h6 h7 => exact .behind f h1 h2 h3 h4 h5 h6 h7
  · -- only a certificate of the current epoch hands over, so the two were level
    rw [hp]
    cases h with
    | fresh _ _ hnone => simp [hhandover] at hnone
    | behind _ _ _ hnone => simp [hhandover] at hnone
    | level f hfinalized hepoch hcurrentEpoch hcurrent hnext hheight =>
      exact .behind f hfinalized (congrArg (· + 1) hepoch) rfl (congrArg (· + 1) hcurrentEpoch)
        hcurrent hnext hheight

variable {epoch : Nat}

theorem Tracked.withEpoch {set : Option ValidatorSetSnapshot}
    (h : Tracked B keccak set epoch) (later : Nat) :
    Tracked B keccak (set.map (·.withEpoch later)) later := by
  obtain ⟨s, rfl, hbuilt, -⟩ := h
  exact ⟨_, rfl, hbuilt.withEpoch later, rfl⟩

theorem Tracked.successorSet (hw : Wired B keccak n) (h : Tracked B keccak t.current t.epoch) :
    Tracked B keccak (Finality.successorSet n t below) (t.epoch + 1) := by
  unfold Finality.successorSet
  split
  · rename_i snap hsnap
    split
    · exact ⟨snap, rfl, hw.snapshot _ _ _ hsnap⟩
    · exact h.withEpoch _
  · exact h.withEpoch _

theorem TrackedSets.projected (hw : Wired B keccak n) (h : TrackedSets B keccak t)
    (hlow : n.modernStart < below.length) :
    TrackedSets B keccak (projected n t below) := by
  rcases projected_cases (s := t) hlow with ⟨broken, hp⟩ | ⟨-, broken, hp⟩
  · rw [hp]
    exact ⟨h.current, h.next⟩
  · rw [hp]
    exact ⟨h.next, Tracked.successorSet (t := { t with
      previous := t.current
      current := t.next
      epoch := t.epoch + 1
      epochStarts := t.epochStarts ++ [below.length]
      handoverCertified := false }) hw h.next⟩

/-- The finalized checkpoint has the epoch the table gives its height. -/
def CheckpointPlaced (t : State) : Prop :=
  ∀ f, t.finalized = some f → epochOfHeight t.epochStarts f.height = some f.epoch

theorem checkpointPlaced_projected (ht : Finality.TrackerAt n below t)
    (hlow : n.modernStart < below.length) : CheckpointPlaced (projected n t below) := by
  intro f hf
  rcases projected_cases (s := t) hlow with ⟨broken, hp⟩ | ⟨-, broken, hp⟩
  · rw [hp] at hf ⊢
    exact (ht.finalized f hf).2.2
  · rw [hp] at hf ⊢
    obtain ⟨-, hheight, hepoch⟩ := ht.finalized f hf
    exact (Finality.epochOfHeight_concat hheight).trans hepoch

/-! ### The certificate of a block -/

theorem epochOfHeight_mono {starts : List Nat} {low high e e' : Nat} (hle : low ≤ high)
    (he : epochOfHeight starts low = some e)
    (he' : epochOfHeight starts high = some e') : e ≤ e' := by
  cases starts with
  | nil => cases he
  | cons first rest =>
    simp only [epochOfHeight, ite_none_left_eq_some, some.injEq] at he he'
    rw [← he.2, ← he'.2]
    clear he he'
    induction rest with
    | nil => exact Nat.le_refl _
    | cons x rest ih =>
      by_cases hx : x ≤ low
      · simp [hx, hx.trans hle, ih]
      · simp [hx]

/-- The contract expects this certificate next: its signing set is the one stored for the
epoch, and its successor is new or the stored one. -/
structure Fits (B : Bls G₁ G₂) (keccak : Bytes → Uint256) (x : Connection) (s : Storage) : Prop where
  epoch : x.fb.epoch = s.currentEpoch ∨ transition s x.fb.epoch = true
  signing : signingSet s x.fb.epoch = entry B keccak x.signing
  successor : transition s x.fb.epoch = true ∨ s.nextSetHash = 0 ∨
    s.next = entry B keccak x.successor
  height : s.latest.height < x.fb.height

/-- A certificate the tracker `p` judges good, and the sets it was judged by. -/
structure Judged (B : Bls G₁ G₂) (keccak : Bytes → Uint256) (n : Node β)
    (rootAt : Nat → Option Uint256) (p : State) (x : Connection) : Prop where
  placed : Placed n rootAt p x.fb
  signing : (if x.fb.epoch ≠ p.epoch then p.previous else p.current) = some x.signing
  successor : (if x.fb.epoch ≠ p.epoch then p.current else p.next) = some x.successor
  successor_built : Built B keccak x.successor
  successor_epoch : x.successor.epoch = x.fb.epoch + 1
  setHash : x.fb.validatorSetHash = (entry B keccak x.successor).2
  verified : verifyFinalityCertificate n.fastAggregateVerify
    (n.finalityDigest n.chainDomain x.fb) x.fb x.cert x.signing x.fb.validatorSetHash = .OK

theorem entry_hash_ne (hw : Wired B keccak n) (set : ValidatorSetSnapshot) :
    (entry B keccak set).2 ≠ 0 := hw.keccak_ne _

theorem transition_eq_false (h : epoch = s.currentEpoch) :
    transition s epoch = false := by
  simp [transition, h]

theorem signingSet_current (h : epoch = s.currentEpoch) :
    signingSet s epoch = s.current := by
  rw [signingSet, transition_eq_false h]
  rfl

variable {rootAt : Nat → Option Uint256} {x : Connection}

theorem Mirrors.fits (hw : Wired B keccak n) (h : Mirrors B keccak n p s)
    (hplaced : CheckpointPlaced p)
    (hx : Judged B keccak n rootAt p x) (hstart : n.modernStart ≤ x.fb.height) :
    Fits B keccak x s ∧ (x.fb.epoch ≠ p.epoch → p.handoverCertified = false) := by
  have hsigning := hx.signing
  have hsuccessor := hx.successor
  have hepoch := hx.placed.epoch
  cases h with
  | fresh hnone hzero hhandover hcurrentEpoch hcurrent hnext hheight =>
    have hnow : x.fb.epoch = p.epoch := by omega
    have hsame : x.fb.epoch = s.currentEpoch := by omega
    rw [if_neg (not_not.mpr hnow)] at hsigning
    rw [hsigning, map_some, some.injEq] at hcurrent
    exact ⟨⟨.inl hsame, (signingSet_current hsame).trans hcurrent.symm, .inr (.inl hnext), by omega⟩,
      fun hne => absurd hnow hne⟩
  | level f hf hfepoch hcurrentEpoch hcurrent hnext hheight =>
    have hlater := hx.placed.finalized f hf
    -- a later checkpoint is never of an earlier epoch
    have hmono := epochOfHeight_mono hlater.le (hplaced f hf) hx.placed.epochOfHeight
    have hnow : x.fb.epoch = p.epoch := by omega
    have hsame : x.fb.epoch = s.currentEpoch := by omega
    rw [if_neg (not_not.mpr hnow)] at hsigning hsuccessor
    rw [hsigning, map_some, some.injEq] at hcurrent
    rw [hsuccessor, map_some, some.injEq] at hnext
    exact ⟨⟨.inl hsame, (signingSet_current hsame).trans hcurrent.symm, .inr (.inr hnext.symm),
      by omega⟩, fun hne => absurd hnow hne⟩
  | behind f hf hfepoch hhandover hcurrentEpoch hprevious hcurrent hheight =>
    have hlater := hx.placed.finalized f hf
    by_cases hnow : x.fb.epoch = p.epoch
    · rw [if_neg (not_not.mpr hnow)] at hsigning
      rw [hsigning, map_some, some.injEq] at hcurrent
      have hknown : s.nextSetHash ≠ 0 := by
        rw [show s.nextSetHash = (entry B keccak x.signing).2 from congrArg Prod.snd hcurrent.symm]
        exact entry_hash_ne hw _
      have hrotates : transition s x.fb.epoch = true :=
        transition_iff.mpr ⟨by omega, hknown⟩
      refine ⟨⟨.inr hrotates, ?_, .inl hrotates, by omega⟩, fun _ => hhandover⟩
      rw [signingSet, hrotates]
      exact hcurrent.symm
    · have hsame : x.fb.epoch = s.currentEpoch := by omega
      rw [if_pos hnow] at hsigning hsuccessor
      rw [hsigning, map_some, some.injEq] at hprevious
      rw [hsuccessor, map_some, some.injEq] at hcurrent
      exact ⟨⟨.inl hsame, (signingSet_current hsame).trans hprevious.symm, .inr (.inr hcurrent.symm),
        by omega⟩, fun _ => hhandover⟩

variable {time : Nat}

theorem Fits.next_eq (h : Fits B keccak x s)
    (hhash : x.fb.validatorSetHash = (entry B keccak x.successor).2)
    (hsub : FinalityVerifier.Submitted time (finalizedBlock x.fb) (entry B keccak x.successor).1
      s s') : s'.next = entry B keccak x.successor := by
  have hnextHash : s'.nextSetHash = (entry B keccak x.successor).2 := hsub.nextSetHash.trans hhash
  by_cases hlearns : transition s x.fb.epoch = true ∨ s.nextSetHash = 0
  · exact Prod.ext (hsub.learnt hlearns) hnextHash
  · obtain ⟨hstays, hknown⟩ := not_or.mp hlearns
    obtain ⟨hset, -⟩ := hsub.known (Bool.eq_false_iff.mpr hstays) hknown
    have hnext := (h.successor.resolve_left hstays).resolve_left hknown
    exact Prod.ext (hset.trans (congrArg Prod.fst hnext)) hnextHash

/-- After a certificate the contract holds its signing set and its successor. -/
theorem Fits.mirrors {height : Nat} (h : Fits B keccak x s) (hx : Judged B keccak n rootAt p x)
    (hhandover : x.fb.epoch ≠ p.epoch → p.handoverCertified = false)
    (hsub : FinalityVerifier.Submitted time (finalizedBlock x.fb) (entry B keccak x.successor).1
      s s') : Mirrors B keccak n (certified p x.fb height) s' := by
  have hepoch : s'.currentEpoch = x.fb.epoch := hsub.currentEpoch
  have hcurrent : s'.current = entry B keccak x.signing := hsub.current.trans h.signing
  have hnext := h.next_eq hx.setHash hsub
  have hheight : s'.latest.height = x.fb.height := congrArg _ hsub.latest
  have hsigning := hx.signing
  have hsuccessor := hx.successor
  by_cases hnow : x.fb.epoch = p.epoch
  · rw [if_neg (not_not.mpr hnow)] at hsigning hsuccessor
    refine .level _ rfl hnow (hepoch.trans hnow) ?_ ?_ hheight
    · rw [hcurrent]
      exact congrArg (Option.map (entry B keccak)) hsigning
    · rw [hnext]
      exact congrArg (Option.map (entry B keccak)) hsuccessor
  · have hlate : x.fb.epoch + 1 = p.epoch := hx.placed.epoch.resolve_left hnow
    rw [if_pos hnow] at hsigning hsuccessor
    refine .behind _ rfl hlate ?_ (by rw [hepoch]; exact hlate) ?_ ?_ hheight
    · simp [certified, hnow, hhandover hnow]
    · rw [hcurrent]
      exact congrArg (Option.map (entry B keccak)) hsigning
    · rw [hnext]
      exact congrArg (Option.map (entry B keccak)) hsuccessor

variable {chain : List (BlockChain.Block β)}

theorem judged_of_judge (hw : Wired B keccak n) (hsets : TrackedSets B keccak p)
    (hsigning : x.signing =
      (if x.fb.epoch ≠ p.epoch then p.previous else p.current).getD ⟨0, []⟩)
    (hsuccessor : x.successor =
      (if x.fb.epoch ≠ p.epoch then p.current else p.next).getD ⟨0, []⟩)
    (h : Finality.judgeFinalityCertificate n rootAt p chain x.fb x.cert = true) :
    Judged B keccak n rootAt p x := by
  have hplaced := placed_of_judge h
  have hnamed : Tracked B keccak (if x.fb.epoch ≠ p.epoch then p.current else p.next)
      (x.fb.epoch + 1) := by
    by_cases hnow : x.fb.epoch = p.epoch
    · rw [if_neg (not_not.mpr hnow), hnow]
      exact hsets.next
    · rw [if_pos hnow, hplaced.epoch.resolve_left hnow]
      exact hsets.current
  obtain ⟨successor, hsome, hbuilt, hepoch⟩ := hnamed
  obtain rfl : x.successor = successor := by rw [hsuccessor, hsome]; rfl
  simp only [Finality.judgeFinalityCertificate, hsome, map_some, getD_some,
    Bool.and_eq_true] at h
  obtain ⟨-, h⟩ := h
  split at h
  · rename_i signing hset
    obtain rfl : x.signing = signing := by rw [hsigning, hset]; rfl
    have hverified := of_decide_eq_true h
    have hhash := verify_successor hverified
    exact ⟨hplaced, hset, hsome, hbuilt, hepoch, hhash.trans (hw.setHash _), by rwa [hhash]⟩
  · cases h

theorem applyBlock_cases (hw : Wired B keccak n) {b : BlockChain.Block β} {s s' : State}
    (hlow : n.modernStart ≤ below.length)
    (h : applyBlock n rootAt below b s = some s') :
    (connection n below s b = none ∧ s' = projected n s below) ∨
      ∃ x, connection n below s b = some x ∧
        s' = certified (projected n s below) x.fb below.length ∧
        (TrackedSets B keccak (projected n s below) →
          Judged B keccak n rootAt (projected n s below) x) := by
  unfold applyBlock at h
  rw [if_pos hlow] at h
  simp only [Finality.applyModern] at h
  simp only [connection, if_neg (Nat.not_lt.mpr hlow)]
  split at h
  · cases h
  · rename_i hmatch
    cases h
    simp [hmatch]
  · rename_i fb cert hmatch
    split_ifs at h with hjudge
    cases h
    simp only [hmatch]
    exact .inr ⟨_, rfl, rfl, fun hsets => judged_of_judge hw hsets rfl rfl hjudge⟩

theorem headerShapeValid_entry (hw : Wired B keccak n) {set : ValidatorSetSnapshot}
    (h : Built B keccak set) : headerShapeValid (entry B keccak set).1 = true := by
  obtain ⟨epoch, activeWeights, bindings, built, htyped, hbuild, rfl⟩ := h
  have hspec := Finality.build_spec htyped hbuild
  have hheader := (Finality.build_header hbuild).1
  have hroot : built.header.membersRoot ≠ 0 := by
    rw [hspec.root]
    exact hw.keccak_ne _
  rw [entry, ← hheader]
  exact CertificateProver.headerShapeValid_setHeader hspec hroot

variable {params : Bridge.Params} {activation : Nat}
  {proofOf : ValidatorSetSnapshot → FinalityCertificate → Bytes} {c : Immutables}

/-- The contract takes the certificate the tracker has taken. -/
theorem submit_step (hw : Wired B keccak n) (hc : Paired B keccak n activation proofOf c)
    (hactive : ActiveFrom params activation) {index : Option Bridge.BridgeStateIndex}
    (hindex : RootsNonzero index) (hm : Mirrors B keccak n p s) (hplaced : CheckpointPlaced p)
    (hx : Judged B keccak n (finalityWithdrawalRoot params index) p x)
    (hstart : n.modernStart ≤ x.fb.height) (hepoch : p.epoch + 1 < U64)
    (hinit : s.initialized = true) (htime : InWindow c s x.fb.epoch time) (height : Nat) :
    ∃ s', submit B keccak proofOf c time x s = .ok s' ∧ s'.initialized = true ∧
      Mirrors B keccak n (certified p x.fb height) s' := by
  obtain ⟨hfits, hhandover⟩ := hm.fits hw hplaced hx hstart
  have hproof : c.prover.verify c.chainDomain (finalizedBlock x.fb)
      (signingSet s x.fb.epoch).2 (signingSet s x.fb.epoch).1
      (proofOf x.signing x.cert) = true := by
    rw [hfits.signing]
    exact (hc.prover _ _ _ _).mpr ⟨x.signing, x.cert, rfl, rfl, by rw [hc.domain]; exact hx.verified⟩
  have hcertifies : FinalityVerifier.Certifies keccak c time (finalizedBlock x.fb)
      (entry B keccak x.successor).1 (proofOf x.signing x.cert) s :=
    { initialized := hinit
      epoch := hfits.epoch
      after := htime.after
      lag := htime.lag
      duration := htime.duration
      window := htime.window
      height := hfits.height
      setHash := fun hzero => entry_hash_ne hw x.successor (hx.setHash.symm.trans hzero)
      successor_epoch := hx.successor_epoch
      successor_shape := headerShapeValid_entry hw hx.successor_built
      successor_hash := (CertificateProver.hashSetHeader_eq keccak _).trans hx.setHash.symm
      verified := hproof }
  obtain ⟨b, hb⟩ := hx.placed.blockHash
  have hle := hx.placed.epoch
  have hacceptable : FinalityVerifier.Acceptable c (finalizedBlock x.fb) s :=
    { blockHash := fun hzero => hw.hash_ne b (hb.trans hzero)
      root := by
        rw [hc.activation]
        exact finalityWithdrawalRoot_zero_iff hactive hindex hx.placed.root
      epoch_lt := show x.fb.epoch + 1 < U64 by omega
      successor := hfits.successor.imp_right (Or.imp_right fun h =>
        (congrArg Prod.snd h).trans hx.setHash.symm) }
  obtain ⟨s', hs'⟩ := submitCertificate_complete hcertifies hacceptable
  have hsub := (submitCertificate_spec hs').2
  exact ⟨s', hs', hsub.initialized, hfits.mirrors hx hhandover hsub⟩

/-! ### Whole chains -/

variable {first : ValidatorSetSnapshot}

theorem handedTo_fresh (hc : Paired B keccak n activation proofOf c)
    (h : HandedTo B keccak c first s) (ht : t.finalized = none) (hepoch : t.epoch = 0)
    (hhandover : t.handoverCertified = false) (hcurrent : t.current = some first) :
    s.initialized = true ∧ Mirrors B keccak n t s := by
  obtain ⟨w, time, snapshot, proof, hdeployed, hinit⟩ := h
  obtain ⟨hi, hheight⟩ := initializeContract_spec hinit
  obtain ⟨hzero, hnext⟩ := deployed_fresh hdeployed
  have hmodern : 0 < n.modernStart := by
    unfold Node.modernStart
    omega
  refine ⟨hi.initialized, .fresh ht hepoch hhandover (hi.currentEpoch.trans hzero) ?_
    (hi.nextSetHash.trans hnext) ?_⟩
  · rw [hcurrent, map_some, FinalityVerifier.Storage.current, hi.currentSet,
      hi.currentSetHash]
    rfl
  · rw [hheight, hc.start]
    omega

/-- The state of the simulation: what the contract stores mirrors the tracker, whose sets are
all there. -/
structure Follows (B : Bls G₁ G₂) (keccak : Bytes → Uint256) (n : Node β) (t : State)
    (s : Storage) : Prop where
  initialized : s.initialized = true
  mirrors : Mirrors B keccak n t s
  sets : TrackedSets B keccak t

theorem projected_bootstrap (hlow : n.modernStart < below.length) :
    (projected n t below).bootstrap = t.bootstrap := by
  rcases projected_cases (s := t) hlow with ⟨broken, hp⟩ | ⟨-, broken, hp⟩
  · rw [hp]
  · rw [hp]
    rfl

/-- The block of the first modern height starts the simulation. -/
theorem follows_start (hw : Wired B keccak n) (hc : Paired B keccak n activation proofOf c)
    (hs : HandedTo B keccak c first s) (hstart : below.length = n.modernStart)
    (hfirst : (projected n t below).bootstrap = some first) :
    Follows B keccak n (projected n t below) s ∧
      CheckpointPlaced (projected n t below) := by
  have hp : projected n t below = bootstrapState n below := by
    simp only [projected]
    rw [if_neg (by omega), if_pos hstart]
  rw [hp] at hfirst ⊢
  obtain ⟨hsnapshot, hstate⟩ := bootstrapState_eq hfirst
  obtain ⟨hbuilt, hepoch⟩ := hw.snapshot _ _ _ hsnapshot
  rw [hstate]
  obtain ⟨hinit, hmirrors⟩ := handedTo_fresh hc hs (t := {
    epochStarts := [below.length]
    current := some first
    bootstrap := some first
    next := some (first.withEpoch 1)
    bootstrapped := true }) rfl rfl rfl rfl
  exact ⟨⟨hinit, hmirrors, ⟨first, rfl, hbuilt, hepoch⟩, ⟨_, rfl, hbuilt.withEpoch 1, rfl⟩⟩,
    fun f hf => by cases hf⟩

theorem Connected.follows (hw : Wired B keccak n) (hc : Paired B keccak n activation proofOf c)
    (hactive : ActiveFrom params activation) {cs : List Connection}
    (h : Connected n keccak params chain t cs) (hlength : chain.length < 2 ^ 31)
    {s₀ : Storage} (hs₀ : HandedTo B keccak c first s₀)
    (hfirst : t.bootstrap = some first) {subs : List (Nat × Connection)}
    (hsubs : subs.map Prod.snd = cs) (htimely : Timely B keccak proofOf c s₀ subs) :
    ∃ s, relay B keccak proofOf c s₀ subs = .ok s ∧ Follows B keccak n t s := by
  induction h generalizing subs with
  | empty => cases hfirst
  | @block below t t' cs index b hbelow hindex happly ih =>
    rw [length_cons] at hlength
    have htracker := (hbelow.block index b hindex happly).tracker
    have hmodern : n.modernStart ≤ below.length := by
      by_contra hlow
      rw [htracker.legacy (by rw [length_cons]; omega)] at hfirst
      cases hfirst
    have htable := htracker.epochTable (by rw [length_cons]; omega)
    -- the simulation up to this block's certificate
    have hprojected : ∀ older : List (Nat × Connection), older.map Prod.snd = cs →
        Timely B keccak proofOf c s₀ older →
        (projected n t below).bootstrap = some first →
        ∃ s, relay B keccak proofOf c s₀ older = .ok s ∧
          Follows B keccak n (projected n t below) s ∧
          CheckpointPlaced (projected n t below) := by
      intro older holder htimely hfirst
      rcases hmodern.eq_or_lt with hstart | hlow
      · rw [hbelow.legacy hstart.ge, map_eq_nil_iff] at holder
        rw [holder]
        exact ⟨s₀, rfl, follows_start hw hc hs₀ hstart.symm hfirst⟩
      · rw [projected_bootstrap hlow] at hfirst
        obtain ⟨s, hs, hfollows⟩ := ih (by omega) hfirst holder htimely
        exact ⟨s, hs, ⟨hfollows.initialized, hfollows.mirrors.projected hlow,
          hfollows.sets.projected hw hlow⟩, checkpointPlaced_projected hbelow.tracker hlow⟩
    rcases applyBlock_cases hw hmodern happly with ⟨hnone, rfl⟩ | ⟨x, hx, rfl, hjudge⟩
    · rw [hnone] at hsubs
      obtain ⟨s, hs, hfollows, -⟩ := hprojected subs hsubs htimely hfirst
      exact ⟨s, hs, hfollows⟩
    · rw [hx] at hsubs
      obtain ⟨⟨time, y⟩, older, rfl, rfl, holder⟩ := map_eq_cons_iff.mp hsubs
      obtain ⟨s, hs, hfollows, hplaced⟩ := hprojected older holder htimely.1 hfirst
      have hjudged := hjudge hfollows.sets
      have hhead : (projected n t below).epochStarts.headD 0 = n.modernStart := by
        rw [headD_eq_head?_getD]
        exact congrArg (·.getD 0) htable.head
      have hepoch : (projected n t below).epoch ≤ below.length := htable.epoch_le
      obtain ⟨s', hs', hinit, hmirrors⟩ := submit_step hw hc hactive
        (hindex.rootsNonzero hw.keccak_ne) hfollows.mirrors hplaced
        hjudged (hhead ▸ hjudged.placed.start) (by unfold U64; omega) hfollows.initialized
        (htimely.2 s hs) below.length
      refine ⟨s', ?_, hinit, hmirrors, hfollows.sets.current, hfollows.sets.next⟩
      rw [relay, hs]
      exact hs'

/-- Every certificate of the chain is accepted when it is relayed in order. The contract ends
level with the tracker when the last one belongs to the tracker's epoch, and otherwise one
epoch behind: it rotates with the first certificate of a set, not at a height. -/
theorem relayed_certificates_accepted (hw : Wired B keccak n)
    (hc : Paired B keccak n activation proofOf c) (hactive : ActiveFrom params activation)
    {chain : List (BlockChain.Block β)} {cs : List Connection} (h : Connected n keccak params chain t cs)
    (hlength : chain.length < 2 ^ 31) {first : ValidatorSetSnapshot} {s₀ : Storage}
    (hs₀ : HandedTo B keccak c first s₀) (hfirst : t.bootstrap = some first)
    {subs : List (Nat × Connection)} (hsubs : subs.map Prod.snd = cs)
    (htimely : Timely B keccak proofOf c s₀ subs) :
    ∃ s, relay B keccak proofOf c s₀ subs = .ok s ∧ Mirrors B keccak n t s := by
  obtain ⟨s, hs, hfollows⟩ := h.follows hw hc hactive hlength hs₀ hfirst hsubs htimely
  exact ⟨s, hs, hfollows.mirrors⟩

end Simulation

/-! ### A rotation without a certificate

Four validators certify the first modern block in the next one. The block after that starts
epoch one on the chain, and the contract has nothing to learn it from. -/

section Sample

open CertificateProver (sampleKey)

/-- A stand-in for keccak that tells the headers of different epochs apart. -/
def epochKeccak (b : Bytes) : Uint256 := (b.getD 7 0).toNat + 1

def validators : List Finality.ValidatorSetMember :=
  [⟨1, sampleKey, 1⟩, ⟨2, sampleKey, 1⟩, ⟨3, sampleKey, 1⟩, ⟨4, sampleKey, 1⟩]

def validatorStakes : OrderedMap Finality.ValidatorKey Int where
  entries := [(1, 1000000000), (2, 1000000000), (3, 1000000000), (4, 1000000000)]
  sorted := by decide

def validatorBindings : OrderedMap Finality.ValidatorKey Finality.BindingRecord where
  entries := [(1, ⟨sampleKey⟩), (2, ⟨sampleKey⟩), (3, ⟨sampleKey⟩), (4, ⟨sampleKey⟩)]
  sorted := by simp

theorem validators_built (epoch : Nat) : Built sampleBls epochKeccak ⟨epoch, validators⟩ := by
  have hmembers : validatorStakes.entries.filterMap (Finality.memberOf validatorBindings) =
      validators := by decide +kernel
  refine ⟨epoch, validatorStakes, validatorBindings, ?_⟩
  unfold Finality.build
  rw [hmembers]
  exact ⟨_, by decide, rfl, rfl⟩

/-- A chain whose blocks carry their certificates in the clear. -/
def sampleNode : Node (Option (Finality.FinalizedBlock × FinalityCertificate)) where
  hash b := b.prev + 1
  matchCertificate body _ := some body
  fastAggregateVerify := sampleBls.fastAggregateVerify
  finalityDigest := Finality.finalityDigest epochKeccak
  setHash s := (entry sampleBls epochKeccak s).2
  snapshotAt _ epoch := some ⟨epoch, validators⟩
  pos := ⟨60, 30, 1, 1, 2, 1, 1, 2, 1⟩
  finalHeight := 0
  transitionPowLength := 0
  chainDomain := 1

theorem sampleNode_wired : Wired sampleBls epochKeccak sampleNode where
  setHash _ := rfl
  snapshot _ epoch s h := by
    cases h
    exact ⟨validators_built epoch, rfl⟩
  hash_ne b := Nat.succ_ne_zero b.prev
  keccak_ne _ := Nat.succ_ne_zero _

def sampleProof (_ : ValidatorSetSnapshot) (cert : FinalityCertificate) : Bytes :=
  cert.signerBitmap ++ cert.aggregateSig

/-- The certificate inside a block of the contract. -/
def chainBlock (fb : FinalityVerifier.FinalizedBlock) : Finality.FinalizedBlock :=
  ⟨fb.height, fb.blockHash, fb.withdrawalRoot, fb.validatorSetHash, fb.epoch⟩

open Classical in
/-- The prover of the specification: it accepts what is valid and nothing else. -/
noncomputable def exactProver : FinalityVerifier.Prover where
  address := 1
  codeLength := 1
  codeHash := 1
  verify domain fb hash header proof := decide (∃ set cert,
    entry sampleBls epochKeccak set = (header, hash) ∧ proof = sampleProof set cert ∧
      verifyFinalityCertificate sampleNode.fastAggregateVerify
        (sampleNode.finalityDigest domain (chainBlock fb)) (chainBlock fb) cert set
        fb.validatorSetHash = .OK)

def sampleConfig : FinalityVerifier.DeploymentConfig :=
  ⟨1, 10, 4, 64, 4, 86400, 604800, 86400, 86400, 1000⟩

/-- The committee of the handoff is the first set itself. -/
noncomputable def sampleContract : Immutables :=
  ⟨1, (entry sampleBls epochKeccak ⟨0, validators⟩).2, sampleConfig, exactProver⟩

open Classical in
theorem sampleContract_paired :
    Paired sampleBls epochKeccak sampleNode 10 sampleProof sampleContract where
  domain := rfl
  start := rfl
  activation := rfl
  prover _ _ _ _ := decide_eq_true_iff

/-- All four have signed. -/
def sampleCertificate : FinalityCertificate := ⟨[0x0f], [1]⟩

theorem sampleCertificate_verifies (digest : Uint256) (fb : Finality.FinalizedBlock) (epoch : Nat) :
    verifyFinalityCertificate sampleBls.fastAggregateVerify digest fb sampleCertificate
      ⟨epoch, validators⟩ fb.validatorSetHash = .OK := by
  have hsigners : Finality.signers [0x0f] ⟨epoch, validators⟩ = validators := rfl
  have hkeys : (validators.map (·.blsPubkey)).mapM sampleBls.decodeKey = some [1, 1, 1, 1] := by
    decide +kernel
  have hverifies : sampleBls.fastAggregateVerify (validators.map (·.blsPubkey)) digest [1] = true := by
    unfold Bls.fastAggregateVerify
    rfl
  unfold verifyFinalityCertificate sampleCertificate
  dsimp only
  have hsize : (⟨epoch, validators⟩ : ValidatorSetSnapshot).size = 4 := rfl
  have htotal : Finality.totalWeight ⟨epoch, validators⟩ = 4 := rfl
  rw [hsigners, hverifies, hsize, htotal, if_neg (by decide), if_neg (by decide),
    if_neg (not_not.mpr rfl)]
  decide

def sampleDeployed : Storage :=
  { initialized := false, genesisTime := 0, genesisSetHash := 0
    bootstrapSet := (entry sampleBls epochKeccak ⟨0, validators⟩).1, currentEpoch := 0
    currentSetHash := 0, currentSet := .deleted, nextSetHash := 0, nextSet := .deleted
    setHashByEpoch := fun _ => 0, latest := ⟨0, 0, 0, 0, 0⟩, lastCertificateTime := 0
    lastRotationTime := 0, latestBridgeFinalizedHeight := 0, latestBridgeWithdrawalRoot := 0 }

theorem sampleDeployed_deployed :
    FinalityVerifier.Deployed epochKeccak sampleContract ⟨1, sampleDeployed⟩ := by
  refine ⟨(entry sampleBls epochKeccak ⟨0, validators⟩).1, 1, ?_⟩
  have hshape := headerShapeValid_entry sampleNode_wired (validators_built 0)
  have hguards : Guards.first (constructGuards epochKeccak 1 1
      (entry sampleBls epochKeccak ⟨0, validators⟩).1
      (entry sampleBls epochKeccak ⟨0, validators⟩).2 exactProver 1 sampleConfig) = none := by
    rw [Guards.first_eq_none]
    simp only [constructGuards, forall_mem_cons, decide_eq_false_iff_not, hshape]
    exact ⟨by decide +kernel, by decide +kernel, by decide +kernel, by simp⟩
  unfold construct
  rfl

def sampleHandoff : FinalityVerifier.FinalizedBlock :=
  ⟨0, 1, 0, (entry sampleBls epochKeccak ⟨0, validators⟩).2, 0⟩

def sampleInitialized : Storage :=
  { sampleDeployed with
    initialized := true, genesisTime := 2
    genesisSetHash := (entry sampleBls epochKeccak ⟨0, validators⟩).2
    currentSet := (entry sampleBls epochKeccak ⟨0, validators⟩).1
    currentSetHash := (entry sampleBls epochKeccak ⟨0, validators⟩).2
    setHashByEpoch := fun e => if e = 0 then (entry sampleBls epochKeccak ⟨0, validators⟩).2 else 0
    latest := sampleHandoff, lastRotationTime := 2 }

theorem sampleInitialized_handedTo :
    HandedTo sampleBls epochKeccak sampleContract ⟨0, validators⟩ sampleInitialized := by
  refine ⟨⟨1, sampleDeployed⟩, 2, sampleHandoff, sampleProof ⟨0, validators⟩ sampleCertificate,
    sampleDeployed_deployed, ?_⟩
  have hshape := headerShapeValid_entry sampleNode_wired (validators_built 0)
  have hproof : sampleContract.prover.verify sampleContract.chainDomain sampleHandoff
      sampleContract.bootstrapSetHash sampleDeployed.bootstrapSet
      (sampleProof ⟨0, validators⟩ sampleCertificate) = true :=
    (sampleContract_paired.prover (chainBlock sampleHandoff) _ _ _).mpr
      ⟨⟨0, validators⟩, sampleCertificate, rfl, rfl, sampleCertificate_verifies _ _ 0⟩
  have hguards : Guards.first (initializeGuards epochKeccak sampleContract 2
      sampleHandoff (entry sampleBls epochKeccak ⟨0, validators⟩).1
      (sampleProof ⟨0, validators⟩ sampleCertificate) sampleDeployed) = none := by
    rw [Guards.first_eq_none]
    simp only [initializeGuards, forall_mem_cons, decide_eq_false_iff_not,
      hshape, hproof]
    exact ⟨rfl, by decide +kernel, by decide +kernel, by decide +kernel, rfl, by simp⟩
  unfold initializeContract
  rw [hguards]
  rfl

/-- The bridge of the sample chain starts at height ten, above every block below. -/
def sampleParams : Bridge.Params :=
  Bridge.sampleChainParams
    { Bridge.sampleBridge 10 with
      withdrawalMode := some .DECENTRALIZED_VERIFIER_V1
      decentralizedWithdrawal := some
        ⟨1, 1, 1, 1, Bridge.DECENTRALIZED_WITHDRAWAL_RULES_COMMITMENT_V1, 4, 64, 4, 604800⟩ }

theorem sampleParams_active : ActiveFrom sampleParams 10 where
  active := by decide
  height := rfl
  mode := rfl

/-- The checkpoint of the first modern block, naming the next set. -/
def sampleCheckpoint : Finality.FinalizedBlock :=
  ⟨1, 1, 0, (entry sampleBls epochKeccak ⟨1, validators⟩).2, 0⟩

/-- Heights zero to three; the block of height two carries the certificate. -/
def sampleChain : List (BlockChain.Block (Option (Finality.FinalizedBlock × FinalityCertificate))) :=
  [⟨0, none⟩, ⟨0, some (sampleCheckpoint, sampleCertificate)⟩, ⟨0, none⟩, ⟨0, none⟩]

/-- The tracker over `sampleChain`: in epoch one, with nothing certified there. -/
def sampleTracker : State :=
  { bootstrapped := true
    epoch := 1
    epochStarts := [1, 3]
    bootstrap := some ⟨0, validators⟩
    previous := some ⟨0, validators⟩
    current := some ⟨1, validators⟩
    next := some ⟨2, validators⟩
    finalized := some ⟨1, 1, 0, 2⟩ }

def sampleConnection : Connection :=
  ⟨sampleCheckpoint, sampleCertificate, ⟨0, validators⟩, ⟨1, validators⟩⟩

theorem sampleChain_connected :
    Connected sampleNode epochKeccak sampleParams sampleChain sampleTracker [sampleConnection] := by
  have hnone : Maintained epochKeccak none := fun i hi => (nomatch hi)
  let genesis : State := {}
  let started : State :=
    { bootstrapped := true
      epochStarts := [1]
      bootstrap := some ⟨0, validators⟩
      current := some ⟨0, validators⟩
      next := some ⟨1, validators⟩ }
  let certifiedState : State := certified started sampleCheckpoint 2
  have h0 : Connected sampleNode epochKeccak sampleParams [⟨0, none⟩] genesis [] :=
    .block none ⟨0, none⟩ .empty hnone (by decide +kernel)
  have h1 : Connected sampleNode epochKeccak sampleParams [⟨0, none⟩, ⟨0, none⟩] started [] :=
    .block none ⟨0, none⟩ h0 hnone (by decide +kernel)
  have h2 : Connected sampleNode epochKeccak sampleParams
      [⟨0, some (sampleCheckpoint, sampleCertificate)⟩, ⟨0, none⟩, ⟨0, none⟩] certifiedState
      [sampleConnection] :=
    .block none ⟨0, some (sampleCheckpoint, sampleCertificate)⟩ h1 hnone (by decide +kernel)
  exact .block none ⟨0, none⟩ h2 hnone (by decide +kernel)

def sampleSubmissions : List (Nat × Connection) := [(3, sampleConnection)]

theorem sampleSubmissions_timely :
    Timely sampleBls epochKeccak sampleProof sampleContract sampleInitialized sampleSubmissions := by
  refine ⟨trivial, fun s hs => ?_⟩
  cases hs
  exact ⟨by decide, by decide, by decide, by decide⟩

/-- The contract and the tracker agree on all that both of them keep. -/
structure Agrees {G₁ G₂ : Type} [AddCommGroup G₁] [Zero G₂] (B : Bls G₁ G₂)
    (keccak : Bytes → Uint256) (t : State) (s : Storage) : Prop where
  epoch : s.currentEpoch = t.epoch
  current : t.current.map (entry B keccak) = some s.current
  next : t.next.map (entry B keccak) = some s.next
  height : t.finalized.map (·.height) = some s.latest.height

/-- The certificate is accepted, and leaves the contract one epoch behind the chain. -/
theorem sample_certificate_relayed :
    ∃ s, relay sampleBls epochKeccak sampleProof sampleContract sampleInitialized
        sampleSubmissions = .ok s ∧
      Mirrors sampleBls epochKeccak sampleNode sampleTracker s :=
  relayed_certificates_accepted sampleNode_wired sampleContract_paired sampleParams_active
    sampleChain_connected (by decide) sampleInitialized_handedTo rfl rfl sampleSubmissions_timely

/-- Relaying everything does not always bring the contract level with the tracker. -/
theorem relay_can_end_behind :
    ¬ ∀ (β G₁ G₂ : Type) (_ : AddCommGroup G₁) (_ : Zero G₂) (B : Bls G₁ G₂)
      (keccak : Bytes → Uint256) (n : Node β) (activation : Nat)
      (proofOf : ValidatorSetSnapshot → FinalityCertificate → Bytes) (c : Immutables)
      (params : Bridge.Params) (chain : List (BlockChain.Block β)) (t : State) (cs : List Connection)
      (first : ValidatorSetSnapshot) (s₀ : Storage) (subs : List (Nat × Connection)),
      Wired B keccak n → Paired B keccak n activation proofOf c → ActiveFrom params activation →
      Connected n keccak params chain t cs → chain.length < 2 ^ 31 → HandedTo B keccak c first s₀ →
      t.bootstrap = some first → subs.map Prod.snd = cs → Timely B keccak proofOf c s₀ subs →
      ∃ s, relay B keccak proofOf c s₀ subs = .ok s ∧ Agrees B keccak t s := by
  intro hclaim
  obtain ⟨s, hs, hagrees⟩ := hclaim _ _ _ _ _ sampleBls epochKeccak sampleNode 10 sampleProof
    sampleContract sampleParams sampleChain sampleTracker [sampleConnection] ⟨0, validators⟩
    sampleInitialized sampleSubmissions sampleNode_wired sampleContract_paired sampleParams_active
    sampleChain_connected (by decide) sampleInitialized_handedTo rfl rfl sampleSubmissions_timely
  obtain ⟨s', hs', hfollows⟩ := sampleChain_connected.follows sampleNode_wired sampleContract_paired
    sampleParams_active (by decide) sampleInitialized_handedTo rfl rfl sampleSubmissions_timely
  obtain rfl : s' = s := Except.ok.inj (hs'.symm.trans hs)
  have hepoch : s'.currentEpoch = 1 := hagrees.epoch
  cases hfollows.mirrors with
  | fresh hnone => cases hnone
  | level f hf hfepoch =>
    cases hf
    cases hfepoch
  | behind f _ _ _ hbehind =>
    rw [hepoch] at hbehind
    cases hbehind

end Sample

end B3Coin.Relay
