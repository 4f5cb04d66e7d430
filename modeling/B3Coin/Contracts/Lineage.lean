import B3Coin.Contracts.FinalityVerifier
import Mathlib.Data.List.Chain

/-!
# The lineage of validator sets

What every run of `B3FinalityVerifier` keeps. A `Trace` is a run with the calls it has
accepted, the latest first, each with the storage before and after it; calls that revert
leave nothing but a later time. `Certifies` says what `submitCertificate` has checked and
`Submitted` what it leaves; every invariant below is read off these two.
-/
namespace B3Coin.FinalityVerifier

open List

variable {keccak256 : List UInt8 → Uint256} {c : Immutables} {t : Nat} {fb : FinalizedBlock}
  {successor genesisSet : SetHeader} {proof : List UInt8} {s s' : Storage}

/-! ## One call -/

theorem transition_iff {epoch : Nat} :
    transition s epoch = true ↔ epoch = s.currentEpoch + 1 ∧ s.nextSetHash ≠ 0 := by
  simp [transition]

structure Certifies (keccak256 : List UInt8 → Uint256) (c : Immutables) (t : Nat)
    (fb : FinalizedBlock) (successor : SetHeader) (proof : List UInt8) (s : Storage) : Prop where
  initialized : s.initialized = true
  epoch : fb.epoch = s.currentEpoch ∨ transition s fb.epoch = true
  after : s.lastRotationTime ≤ t
  lag : t - s.lastRotationTime ≤ c.config.maxEpochLag
  duration : transition s fb.epoch = true → c.config.minEpochDuration ≤ t - s.lastRotationTime
  window : epochTimeValid c s fb.epoch t = true
  height : s.latest.height < fb.height
  setHash : fb.validatorSetHash ≠ 0
  successor_epoch : successor.epoch = fb.epoch + 1
  successor_shape : headerShapeValid successor = true
  successor_hash : hashSetHeader keccak256 successor = fb.validatorSetHash
  verified : c.prover.verify c.chainDomain fb (signingSet s fb.epoch).2 (signingSet s fb.epoch).1
    proof = true

/-- The set that has signed is the current one afterwards, and the set it certified is its
successor. -/
structure Submitted (t : Nat) (fb : FinalizedBlock) (successor : SetHeader)
    (s s' : Storage) : Prop where
  initialized : s'.initialized = true
  genesisTime : s'.genesisTime = s.genesisTime
  currentEpoch : s'.currentEpoch = fb.epoch
  current : (s'.currentSet, s'.currentSetHash) = signingSet s fb.epoch
  nextSetHash : s'.nextSetHash = fb.validatorSetHash
  learnt : transition s fb.epoch = true ∨ s.nextSetHash = 0 → s'.nextSet = successor
  known : transition s fb.epoch = false → s.nextSetHash ≠ 0 →
    s'.nextSet = s.nextSet ∧ s'.nextSetHash = s.nextSetHash
  latest : s'.latest = fb
  lastRotationTime : s'.lastRotationTime =
    if transition s fb.epoch then t else s.lastRotationTime

theorem certifies_of_guards
    (h : Guards.first (submitGuards keccak256 c t fb successor proof s) = none) :
    Certifies keccak256 c t fb successor proof s := by
  have hguards := Guards.first_eq_none.mp h
  simp only [submitGuards, forall_mem_cons, decide_eq_false_iff_not, Bool.not_eq_false',
    not_or, not_and, not_not, Nat.not_lt, Nat.not_le, ne_eq, ge_iff_le, gt_iff_lt] at hguards
  obtain ⟨hinit, -, hepoch, hafter, hlag, hduration, hwindow, hheight, hhash, -, -, -, hsuccessor,
    hproof, -⟩ := hguards
  exact ⟨hinit, or_iff_not_imp_left.mpr hepoch, hafter, hlag, hduration, hwindow, hheight, hhash.2,
    hsuccessor.1, hsuccessor.2.1, hsuccessor.2.2, hproof⟩

theorem recordBridgeRoot_frame (fb : FinalizedBlock) (s : Storage) :
    ∃ height root, recordBridgeRoot c fb s =
      { s with latestBridgeFinalizedHeight := height, latestBridgeWithdrawalRoot := root } := by
  unfold recordBridgeRoot
  split
  · exact ⟨_, _, rfl⟩
  · exact ⟨_, _, rfl⟩

theorem submitCertificate_spec (h : submitCertificate keccak256 c t fb successor proof s = .ok s') :
    Certifies keccak256 c t fb successor proof s ∧ Submitted t fb successor s s' := by
  unfold submitCertificate at h
  split at h
  · cases h
  rename_i hguards
  have hc := certifies_of_guards hguards
  refine ⟨hc, ?_⟩
  obtain ⟨height, root, hrecord⟩ := recordBridgeRoot_frame (c := c) fb s
  rw [hrecord, hc.successor_hash] at h
  cases hrotates : transition s fb.epoch with
  | true =>
    -- the rotation has emptied the successor
    simp only [hrotates, if_true, learnSuccessor, rotate] at h
    cases h
    exact ⟨hc.initialized, rfl, (transition_iff.mp hrotates).1.symm, by rw [signingSet, hrotates]; rfl,
      rfl, fun _ => rfl, fun hstays => by simp [hrotates] at hstays, rfl, by rw [hrotates]; rfl⟩
  | false =>
    have hepoch : fb.epoch = s.currentEpoch := by simpa [hrotates] using hc.epoch
    have hcurrent : signingSet s fb.epoch = (s.currentSet, s.currentSetHash) := by
      rw [signingSet, hrotates]
      rfl
    simp only [hrotates, Bool.false_eq_true, if_false, learnSuccessor] at h
    split_ifs at h with hnone hmatch
    · cases h
      exact ⟨hc.initialized, rfl, hepoch.symm, hcurrent.symm, rfl, fun _ => rfl,
        fun _ hknown => absurd hnone hknown, rfl, by rw [hrotates]; rfl⟩
    · cases h
      exact ⟨hc.initialized, rfl, hepoch.symm, hcurrent.symm, not_not.mp hmatch,
        fun hlearns => absurd (by simpa [hrotates] using hlearns) hnone,
        fun _ _ => ⟨rfl, rfl⟩, rfl, by rw [hrotates]; rfl⟩

/-- What `submitCertificate` checks beyond `Certifies`: a block, a root exactly from the
activation height on, an epoch that fits its type, and a successor known before that is
repeated. -/
structure Acceptable (c : Immutables) (fb : FinalizedBlock) (s : Storage) : Prop where
  blockHash : fb.blockHash ≠ 0
  root : fb.withdrawalRoot = 0 ↔ fb.height < c.config.bridgeActivationHeight
  epoch_lt : fb.epoch + 1 < U64
  successor : transition s fb.epoch = true ∨ s.nextSetHash = 0 ∨
    s.nextSetHash = fb.validatorSetHash

theorem submitCertificate_complete (hc : Certifies keccak256 c t fb successor proof s)
    (ha : Acceptable c fb s) :
    ∃ s', submitCertificate keccak256 c t fb successor proof s = .ok s' := by
  have hepoch : s.currentEpoch ≤ fb.epoch := by
    rcases hc.epoch with h | h
    · exact h.ge
    · rw [(transition_iff.mp h).1]
      exact Nat.le_succ _
  have hlt := ha.epoch_lt
  have hguards : Guards.first (submitGuards keccak256 c t fb successor proof s) = none := by
    rw [Guards.first_eq_none]
    simp only [submitGuards, forall_mem_cons, decide_eq_false_iff_not, Bool.not_eq_false',
      not_or, not_and, not_not, Nat.not_lt, Nat.not_le, ne_eq, ge_iff_le, gt_iff_lt]
    exact ⟨hc.initialized, by omega, fun h => hc.epoch.resolve_left h, hc.after, hc.lag, hc.duration,
      hc.window, hc.height, ⟨ha.blockHash, hc.setHash⟩, ha.root.mpr,
      fun hle hzero => absurd (ha.root.mp hzero) (by omega), hlt,
      ⟨hc.successor_epoch, hc.successor_shape, hc.successor_hash⟩, hc.verified, by simp⟩
  obtain ⟨height, root, hrecord⟩ := recordBridgeRoot_frame (c := c) fb s
  unfold submitCertificate
  rw [hguards, hrecord, hc.successor_hash]
  cases hrotates : transition s fb.epoch with
  | true => exact ⟨_, rfl⟩
  | false =>
    simp only [Bool.false_eq_true, if_false, learnSuccessor]
    rcases ha.successor with h | h | h
    · simp [hrotates] at h
    · rw [if_pos h]
      exact ⟨_, rfl⟩
    · rw [h, if_neg hc.setHash, if_neg (not_not.mpr rfl)]
      exact ⟨_, rfl⟩

/-- What `initialize` leaves: a first current set, and the rotation clock started. -/
structure Initialized (keccak256 : List UInt8 → Uint256) (t : Nat) (genesisSet : SetHeader)
    (s s' : Storage) : Prop where
  once : s.initialized = false
  initialized : s'.initialized = true
  currentEpoch : s'.currentEpoch = s.currentEpoch
  currentSet : s'.currentSet = genesisSet
  currentSetHash : s'.currentSetHash = hashSetHeader keccak256 genesisSet
  setHash : hashSetHeader keccak256 genesisSet ≠ 0
  nextSet : s'.nextSet = s.nextSet
  nextSetHash : s'.nextSetHash = s.nextSetHash
  lastRotationTime : s'.lastRotationTime = t
  bridgeHeight : s'.latestBridgeFinalizedHeight = s.latestBridgeFinalizedHeight
  bridgeRoot : s'.latestBridgeWithdrawalRoot = s.latestBridgeWithdrawalRoot

variable {snapshot : FinalizedBlock}

theorem initializeContract_spec
    (h : initializeContract keccak256 c t snapshot genesisSet proof s = .ok s') :
    Initialized keccak256 t genesisSet s s' ∧
      s'.latest.height = c.config.modernStartHeight - 1 := by
  have honce := (initializeContract_ok h).1
  unfold initializeContract at h
  split at h
  · cases h
  rename_i hguards
  have hguards := Guards.first_eq_none.mp hguards
  simp only [initializeGuards, forall_mem_cons, decide_eq_false_iff_not, not_or, not_not,
    ne_eq] at hguards
  obtain ⟨-, -, hsnapshot, hgenesis, -⟩ := hguards
  cases h
  exact ⟨⟨honce, rfl, rfl, rfl, rfl, fun hzero => hsnapshot.2.2.2.1 (hgenesis.2.2.symm.trans hzero),
    rfl, rfl, rfl, rfl, rfl⟩, hsnapshot.1⟩

variable {w : World}

theorem deployed_fresh (h : Deployed keccak256 c w) :
    w.storage.currentEpoch = 0 ∧ w.storage.nextSetHash = 0 := by
  obtain ⟨bootstrapSet, codeHash, h⟩ := h
  unfold construct at h
  split at h
  · cases h
  · have hw := congrArg Prod.snd (Except.ok.inj h)
    dsimp only at hw
    rw [← hw]
    exact ⟨rfl, rfl⟩

/-! ## Runs with their accepted calls -/

structure Accepted where
  time : Nat
  call : Call
  before : Storage
  after : Storage

inductive Trace (keccak256 : List UInt8 → Uint256) (c : Immutables) : List Accepted → World → Prop
  | deployed {w : World} : Deployed keccak256 c w → Trace keccak256 c [] w
  | accept {es : List Accepted} {w : World} {s' : Storage} (t : Nat) (k : Call) :
      Trace keccak256 c es w → w.now ≤ t → exec keccak256 c t k w.storage = .ok s' →
      Trace keccak256 c (⟨t, k, w.storage, s'⟩ :: es) ⟨t, s'⟩
  | revert {es : List Accepted} {w : World} {e : Revert} (t : Nat) (k : Call) :
      Trace keccak256 c es w → w.now ≤ t → exec keccak256 c t k w.storage = .error e →
      Trace keccak256 c es ⟨t, w.storage⟩

/-- The reachable worlds are those that end a trace. -/
theorem reachable_iff_trace : Reachable keccak256 c w ↔ ∃ es, Trace keccak256 c es w := by
  constructor
  · intro h
    refine h.invariant (P := fun w => ∃ es, Trace keccak256 c es w)
      (fun w hw => ⟨[], .deployed hw⟩) ?_
    rintro w w' ⟨es, hes⟩ hstep
    cases hstep with
    | accept k t ht hk => exact ⟨_, .accept t k hes ht hk⟩
    | revert k t ht hk => exact ⟨es, .revert t k hes ht hk⟩
  · rintro ⟨es, hes⟩
    induction hes with
    | deployed hw => exact .start hw
    | accept t k _ ht hk ih => exact ih.next (.accept k t ht hk)
    | revert t k _ ht hk ih => exact ih.next (.revert k t ht hk)

namespace Accepted

def initializes (e : Accepted) : Bool :=
  match e.call with
  | .initializeContract .. => true
  | .submitCertificate .. => false

/-- The call has moved the contract to another epoch. -/
def rotates (e : Accepted) : Bool := e.after.currentEpoch != e.before.currentEpoch

/-- The call was a certificate of `epoch`, signed by `set`, that names `successor`. -/
def Names (c : Immutables) (epoch : Nat) (set : SetHeader × Uint256)
    (successor : SetHeader × Uint256) (e : Accepted) : Prop :=
  ∃ fb proof, e.call = .submitCertificate fb successor.1 proof ∧ fb.epoch = epoch ∧
    fb.validatorSetHash = successor.2 ∧
    c.prover.verify c.chainDomain fb set.2 set.1 proof = true

end Accepted

section

variable (keccak256 : List UInt8 → Uint256) (c : Immutables) (es : List Accepted) (s : Storage)

def Storage.current : SetHeader × Uint256 := (s.currentSet, s.currentSetHash)

def Storage.next : SetHeader × Uint256 := (s.nextSet, s.nextSetHash)

/-- The times at which a set became current, the latest first. -/
def rotationTimes : List Nat := (es.filter fun e => e.initializes || e.rotates).map (·.time)

/-- `later` is a rotation that may follow one at `earlier`. -/
def RotationGap (later earlier : Nat) : Prop :=
  earlier + c.config.minEpochDuration ≤ later ∧ later ≤ earlier + c.config.maxEpochLag

/-- The stored hashes are those of the stored sets; zero stands for no set. -/
structure StoredHashes : Prop where
  current : s.initialized = true →
    s.currentSetHash ≠ 0 ∧ s.currentSetHash = hashSetHeader keccak256 s.currentSet
  next : s.nextSetHash ≠ 0 → s.nextSetHash = hashSetHeader keccak256 s.nextSet
  absent : s.initialized = false → s.currentSetHash = 0 ∧ s.nextSetHash = 0

/-- The invariant of a trace. -/
structure Lineage : Prop where
  hashes : StoredHashes keccak256 s
  fresh : s.initialized = false → es = []
  certified : s.nextSetHash ≠ 0 → ∃ e ∈ es, e.Names c s.currentEpoch s.current s.next
  clock : s.initialized = true → (rotationTimes es).head? = some s.lastRotationTime
  gaps : (rotationTimes es).IsChain (RotationGap c)
  once : (es.filter (·.initializes)).length ≤ 1

end

theorem deployed_lineage (h : Deployed keccak256 c w) : Lineage keccak256 c [] w.storage := by
  obtain ⟨bootstrapSet, codeHash, h⟩ := h
  unfold construct at h
  split at h
  · cases h
  · have hw := congrArg Prod.snd (Except.ok.inj h)
    dsimp only at hw
    rw [← hw]
    exact ⟨⟨fun h => (nomatch h), fun h => absurd rfl h, fun _ => ⟨rfl, rfl⟩⟩, fun _ => rfl,
      fun h => absurd rfl h, fun h => (nomatch h), .nil, Nat.zero_le _⟩

variable {es : List Accepted}

theorem initialize_lineage (hs : Lineage keccak256 c es s)
    (h : initializeContract keccak256 c t snapshot genesisSet proof s = .ok s') :
    Lineage keccak256 c
      (⟨t, .initializeContract snapshot genesisSet proof, s, s'⟩ :: es) s' := by
  have hi := (initializeContract_spec h).1
  obtain rfl := hs.fresh hi.once
  have hnext : s'.nextSetHash = 0 := hi.nextSetHash.trans (hs.hashes.absent hi.once).2
  refine ⟨⟨fun _ => ?_, fun h => absurd hnext h, fun h => ?_⟩, fun h => ?_,
    fun h => absurd hnext h, fun _ => ?_, ?_, Nat.le_refl 1⟩
  · rw [hi.currentSetHash, hi.currentSet]
    exact ⟨hi.setHash, rfl⟩
  · rw [hi.initialized] at h
    cases h
  · rw [hi.initialized] at h
    cases h
  · exact congrArg some hi.lastRotationTime.symm
  · exact .singleton _

theorem rotates_iff (hc : Certifies keccak256 c t fb successor proof s)
    (hsub : Submitted t fb successor s s') :
    (Accepted.mk t (.submitCertificate fb successor proof) s s').rotates =
      transition s fb.epoch := by
  rw [Accepted.rotates, hsub.currentEpoch]
  cases hrotates : transition s fb.epoch with
  | true => simp [(transition_iff.mp hrotates).1]
  | false => simpa [hrotates] using hc.epoch

/-- A set learnt by this certificate is named by it; one that was known keeps its
certificate. -/
theorem submit_certified (hs : Lineage keccak256 c es s)
    (hc : Certifies keccak256 c t fb successor proof s) (hsub : Submitted t fb successor s s') :
    ∃ e ∈ (⟨t, .submitCertificate fb successor proof, s, s'⟩ : Accepted) :: es,
      e.Names c s'.currentEpoch s'.current s'.next := by
  by_cases hlearns : transition s fb.epoch = true ∨ s.nextSetHash = 0
  · refine ⟨_, mem_cons_self, fb, proof, ?_, hsub.currentEpoch.symm, hsub.nextSetHash.symm, ?_⟩
    · rw [Storage.next, hsub.learnt hlearns]
    · rw [Storage.current, hsub.current]
      exact hc.verified
  · obtain ⟨hstays, hknown⟩ := not_or.mp hlearns
    have hstays : transition s fb.epoch = false := by simpa using hstays
    have hepoch : fb.epoch = s.currentEpoch := by simpa [hstays] using hc.epoch
    obtain ⟨e, he, hnames⟩ := hs.certified hknown
    have hcurrent : s'.current = s.current := by
      rw [Storage.current, hsub.current, signingSet, hstays]
      rfl
    have hnext : s'.next = s.next := by
      rw [Storage.next, (hsub.known hstays hknown).1, (hsub.known hstays hknown).2]
      rfl
    rw [hsub.currentEpoch, hepoch, hcurrent, hnext]
    exact ⟨e, mem_cons_of_mem _ he, hnames⟩

theorem submit_hashes (hs : StoredHashes keccak256 s)
    (hc : Certifies keccak256 c t fb successor proof s) (hsub : Submitted t fb successor s s') :
    StoredHashes keccak256 s' := by
  refine ⟨fun _ => ?_, fun _ => ?_, fun h => ?_⟩
  · have hcurrent := hsub.current
    unfold signingSet at hcurrent
    split at hcurrent <;> rename_i hrotates
    · obtain ⟨hset, hhash⟩ := Prod.mk.inj hcurrent
      have hknown := (transition_iff.mp hrotates).2
      rw [hset, hhash]
      exact ⟨hknown, hs.next hknown⟩
    · obtain ⟨hset, hhash⟩ := Prod.mk.inj hcurrent
      rw [hset, hhash]
      exact hs.current hc.initialized
  · by_cases hlearns : transition s fb.epoch = true ∨ s.nextSetHash = 0
    · rw [hsub.nextSetHash, hsub.learnt hlearns, hc.successor_hash]
    · obtain ⟨hstays, hknown⟩ := not_or.mp hlearns
      obtain ⟨hset, hhash⟩ := hsub.known (by simpa using hstays) hknown
      rw [hset, hhash]
      exact hs.next hknown
  · rw [hsub.initialized] at h
    cases h

theorem submit_lineage (hs : Lineage keccak256 c es s)
    (h : submitCertificate keccak256 c t fb successor proof s = .ok s') :
    Lineage keccak256 c (⟨t, .submitCertificate fb successor proof, s, s'⟩ :: es) s' := by
  obtain ⟨hc, hsub⟩ := submitCertificate_spec h
  have hclock := hs.clock hc.initialized
  have htimes : rotationTimes (⟨t, .submitCertificate fb successor proof, s, s'⟩ :: es) =
      if transition s fb.epoch then t :: rotationTimes es else rotationTimes es := by
    rw [rotationTimes, filter_cons, rotates_iff hc hsub]
    cases transition s fb.epoch <;> rfl
  refine ⟨submit_hashes hs.hashes hc hsub, fun h => ?_, fun _ => submit_certified hs hc hsub,
    fun _ => ?_, ?_, hs.once⟩
  · rw [hsub.initialized] at h
    cases h
  · rw [htimes, hsub.lastRotationTime]
    split
    · rfl
    · exact hclock
  · rw [htimes]
    split
    · rename_i hrotates
      refine isChain_cons.mpr ⟨fun earlier hearlier => ?_, hs.gaps⟩
      rw [hclock] at hearlier
      cases hearlier
      have hduration := hc.duration hrotates
      have hlag := hc.lag
      have hafter := hc.after
      exact ⟨by omega, by omega⟩
    · exact hs.gaps

theorem Trace.lineage (h : Trace keccak256 c es w) : Lineage keccak256 c es w.storage := by
  induction h with
  | deployed hw => exact deployed_lineage hw
  | revert t k _ _ _ ih => exact ih
  | accept t k _ _ hk ih =>
    cases k with
    | initializeContract snapshot genesisSet proof => exact initialize_lineage ih hk
    | submitCertificate fb successor proof => exact submit_lineage ih hk

/-! ## Between two points of a run -/

/-- `s'` may come after `s`. -/
structure Keeps (s s' : Storage) : Prop where
  epoch_le : s.currentEpoch ≤ s'.currentEpoch
  next_eq : s.nextSetHash ≠ 0 → s'.currentEpoch = s.currentEpoch → s'.next = s.next

theorem Keeps.refl (s : Storage) : Keeps s s := ⟨le_rfl, fun _ _ => rfl⟩

theorem Keeps.trans {r : Storage} (h : Keeps r s) (h' : Keeps s s') : Keeps r s' where
  epoch_le := h.epoch_le.trans h'.epoch_le
  next_eq hknown hepoch := by
    have := h.epoch_le
    have := h'.epoch_le
    have hfirst := h.next_eq hknown (by omega)
    have hknown' : s.nextSetHash ≠ 0 := by
      rwa [show s.nextSetHash = r.nextSetHash from congrArg Prod.snd hfirst]
    exact (h'.next_eq hknown' (by omega)).trans hfirst

theorem exec_keeps {k : Call} (h : exec keccak256 c t k s = .ok s') : Keeps s s' := by
  cases k with
  | initializeContract snapshot genesisSet proof =>
    have hi := (initializeContract_spec h).1
    refine ⟨hi.currentEpoch.ge, fun _ _ => ?_⟩
    rw [Storage.next, hi.nextSet, hi.nextSetHash]
    rfl
  | submitCertificate fb successor proof =>
    obtain ⟨hc, hsub⟩ := submitCertificate_spec h
    cases hrotates : transition s fb.epoch with
    | true =>
      have hepoch := (transition_iff.mp hrotates).1
      exact ⟨by rw [hsub.currentEpoch]; omega, fun _ hsame => by rw [hsub.currentEpoch] at hsame; omega⟩
    | false =>
      have hepoch : fb.epoch = s.currentEpoch := by simpa [hrotates] using hc.epoch
      refine ⟨by rw [hsub.currentEpoch, hepoch], fun hknown _ => ?_⟩
      rw [Storage.next, (hsub.known hrotates hknown).1, (hsub.known hrotates hknown).2]
      rfl

variable {e : Accepted}

/-- Each accepted call of a trace ends a shorter one. -/
theorem Trace.split {later earlier : List Accepted}
    (h : Trace keccak256 c es w) (hes : es = later ++ e :: earlier) :
    ∃ w₀, Trace keccak256 c earlier w₀ ∧ w₀.storage = e.before ∧
      exec keccak256 c e.time e.call e.before = .ok e.after ∧ Keeps e.after w.storage := by
  induction h generalizing later with
  | deployed hw => simp at hes
  | revert t k _ _ _ ih => exact ih hes
  | accept t k htrace ht hk ih =>
    cases later with
    | nil =>
      obtain ⟨rfl, rfl⟩ := List.cons.inj hes
      exact ⟨_, htrace, rfl, hk, .refl _⟩
    | cons e' later =>
      obtain ⟨w₀, htrace0, hbefore, hexec, hkeeps⟩ := ih (List.cons.inj hes).2
      exact ⟨w₀, htrace0, hbefore, hexec, hkeeps.trans (exec_keeps hk)⟩

/-- A call that changes the epoch makes the known successor current, one epoch later. -/
theorem exec_rotates (h : exec keccak256 c e.time e.call e.before = .ok e.after)
    (hrotates : e.rotates = true) :
    e.after.currentEpoch = e.before.currentEpoch + 1 ∧ e.before.nextSetHash ≠ 0 ∧
      e.after.current = e.before.next := by
  obtain ⟨t, k, s, s'⟩ := e
  cases k with
  | initializeContract snapshot genesisSet proof =>
    have hepoch : s'.currentEpoch = s.currentEpoch := (initializeContract_spec h).1.currentEpoch
    simp [Accepted.rotates, hepoch] at hrotates
  | submitCertificate fb successor proof =>
    obtain ⟨hc, hsub⟩ := submitCertificate_spec h
    rw [rotates_iff hc hsub] at hrotates
    obtain ⟨hepoch, hknown⟩ := transition_iff.mp hrotates
    refine ⟨hsub.currentEpoch.trans hepoch, hknown, ?_⟩
    rw [Storage.current, hsub.current, signingSet, hrotates]
    rfl

theorem exec_height (h : exec keccak256 c e.time e.call e.before = .ok e.after)
    (hcertificate : e.initializes = false) : e.before.latest.height < e.after.latest.height := by
  obtain ⟨t, k, s, s'⟩ := e
  cases k with
  | initializeContract snapshot genesisSet proof => cases hcertificate
  | submitCertificate fb successor proof =>
    obtain ⟨hc, hsub⟩ := submitCertificate_spec h
    show s.latest.height < s'.latest.height
    rw [hsub.latest]
    exact hc.height

/-- The finality verifier keeps a sound lineage. -/
theorem lineage_sound {es : List Accepted} {w : World} (h : Trace keccak256 c es w) :
    StoredHashes keccak256 w.storage ∧
      (∀ later e earlier, es = later ++ e :: earlier →
        (e.rotates = true →
          e.after.currentEpoch = e.before.currentEpoch + 1 ∧ e.after.current = e.before.next ∧
            ∃ e' ∈ earlier, e'.Names c e.before.currentEpoch e.before.current e.before.next) ∧
        (e.initializes = false → e.before.latest.height < e.after.latest.height) ∧
        (e.after.nextSetHash ≠ 0 → w.storage.currentEpoch = e.after.currentEpoch →
          w.storage.next = e.after.next)) ∧
      (rotationTimes es).IsChain (RotationGap c) ∧
      (es.filter (·.initializes)).length ≤ 1 := by
  refine ⟨h.lineage.hashes, fun later e earlier hes => ?_, h.lineage.gaps, h.lineage.once⟩
  obtain ⟨w₀, htrace, hbefore, hexec, hkeeps⟩ := h.split hes
  refine ⟨fun hrotates => ?_, exec_height hexec, hkeeps.next_eq⟩
  obtain ⟨hepoch, hknown, hcurrent⟩ := exec_rotates hexec hrotates
  refine ⟨hepoch, hcurrent, ?_⟩
  have hcertified := htrace.lineage.certified
  rw [hbefore] at hcertified
  exact hcertified hknown

/-! ## The root the bridge reads -/

/-- The verifier has accepted a certificate with this withdrawal root. -/
def AcceptedRoot (es : List Accepted) (root : Uint256) : Prop :=
  ∃ e ∈ es, ∃ fb successor proof, e.call = .submitCertificate fb successor proof ∧
    fb.withdrawalRoot = root

theorem AcceptedRoot.mono {es' : List Accepted} {root : Uint256} (h : AcceptedRoot es root)
    (hes : es ⊆ es') : AcceptedRoot es' root := by
  obtain ⟨e, he, hroot⟩ := h
  exact ⟨e, hes he, hroot⟩

theorem construct_activation (h : Deployed keccak256 c w) :
    0 < c.config.bridgeActivationHeight := by
  obtain ⟨bootstrapSet, codeHash, h⟩ := h
  unfold construct at h
  split at h
  · cases h
  · rename_i hguards
    have hguards := Guards.first_eq_none.mp hguards
    simp only [constructGuards, forall_mem_cons, decide_eq_false_iff_not, not_or] at hguards
    omega

/-- The contract has no root before the first certificate it records. -/
theorem Trace.root_accepted (h : Trace keccak256 c es w) : 0 < c.config.bridgeActivationHeight ∧
      (c.config.bridgeActivationHeight ≤ w.storage.latestBridgeFinalizedHeight →
        AcceptedRoot es w.storage.latestBridgeWithdrawalRoot) := by
  induction h with
  | deployed hw =>
    have hpos := construct_activation hw
    obtain ⟨b, x, hw⟩ := hw
    have hzero : _ = 0 := construct_ok hw
    exact ⟨hpos, fun hle => absurd (hzero ▸ hle) (by omega)⟩
  | revert t k _ _ _ ih => exact ih
  | accept t k htrace _ hk ih =>
    refine ⟨ih.1, fun hle => ?_⟩
    cases k with
    | initializeContract snapshot genesisSet proof =>
      have hi := (initializeContract_spec hk).1
      rw [hi.bridgeHeight] at hle
      rw [hi.bridgeRoot]
      exact (ih.2 hle).mono (subset_cons_self _ _)
    | submitCertificate fb successor proof =>
      obtain ⟨-, -, -, -, hheight, hroot⟩ := submitCertificate_ok hk
      rw [hheight] at hle
      rw [hroot]
      unfold recordBridgeRoot at hle ⊢
      split_ifs at hle ⊢
      · exact ⟨_, mem_cons_self, fb, successor, proof, rfl, rfl⟩
      · exact (ih.2 hle).mono (subset_cons_self _ _)

/-- Time may always pass: whatever the state, some call reverts. -/
theorem Trace.wait (h : Trace keccak256 c es w)
    (ht : w.now ≤ t) : Trace keccak256 c es ⟨t, w.storage⟩ := by
  cases hinit : w.storage.initialized with
  | true =>
    refine .revert t (.initializeContract ⟨0, 0, 0, 0, 0⟩ .deleted []) h ht
      (e := .AlreadyInitialized) ?_
    simp [exec, initializeContract, initializeGuards, hinit]
  | false =>
    refine .revert t (.submitCertificate ⟨0, 0, 0, 0, 0⟩ .deleted []) h ht
      (e := .NotInitialized) ?_
    simp [exec, submitCertificate, submitGuards, hinit]

/-! ### A rotation -/

/-- The first certificate of the successor; it names the set after it. -/
def exampleRotation (root : Uint256) : FinalizedBlock :=
  ⟨12, 3, root, digits (encodeSetHeader (exampleHeader 2 4 400)), 1⟩

/-- The storage after it, a day after the handoff. -/
def exampleRotated (root : Uint256) : Storage :=
  { rotate (exampleSubmitted (exampleHeader 1 4 400)) with
    nextSet := exampleHeader 2 4 400, nextSetHash := (exampleRotation root).validatorSetHash
    latest := exampleRotation root, lastCertificateTime := 86402, lastRotationTime := 86402
    latestBridgeFinalizedHeight := 12, latestBridgeWithdrawalRoot := root }

theorem exampleRotated_ok {root : Uint256}
    (hg : Guards.first (submitGuards digits exampleContract 86402 (exampleRotation root)
      (exampleHeader 2 4 400) [] (exampleSubmitted (exampleHeader 1 4 400))) = none) :
    exec digits exampleContract 86402
      (.submitCertificate (exampleRotation root) (exampleHeader 2 4 400) [])
      (exampleSubmitted (exampleHeader 1 4 400)) = .ok (exampleRotated root) := by
  have ht : transition (exampleSubmitted (exampleHeader 1 4 400)) 1 = true := by decide +kernel
  have hmet : bridgeThresholdMet exampleContract
      (signingSet (exampleSubmitted (exampleHeader 1 4 400)) 1).1 = true := by
    rw [signingSet, if_pos ht]
    decide
  have hepoch : (exampleRotation root).epoch = 1 := rfl
  simp only [exec, submitCertificate, hg, hepoch, ht, recordBridgeRoot, hmet]
  simp [exampleRotated, exampleRotation, rotate, learnSuccessor, hashSetHeader, exampleContract,
    exampleConfig]

/-- The handoff, a certificate that names a successor, and the first one of that successor. -/
def exampleCalls (root : Uint256) : List Accepted :=
  [⟨86402, .submitCertificate (exampleRotation root) (exampleHeader 2 4 400) [],
      exampleSubmitted (exampleHeader 1 4 400), exampleRotated root⟩,
    ⟨3, .submitCertificate (exampleCertificate (exampleHeader 1 4 400)) (exampleHeader 1 4 400) [],
      exampleInitialized, exampleSubmitted (exampleHeader 1 4 400)⟩,
    ⟨2, .initializeContract exampleSnapshot (exampleHeader 0 4 400) [], exampleDeployed,
      exampleInitialized⟩]

theorem exampleTrace {root : Uint256}
    (hg : Guards.first (submitGuards digits exampleContract 86402 (exampleRotation root)
      (exampleHeader 2 4 400) [] (exampleSubmitted (exampleHeader 1 4 400))) = none) :
    Trace digits exampleContract (exampleCalls root) ⟨86402, exampleRotated root⟩ := by
  have hinit := Trace.accept 2 _ (.deployed exampleDeployed_deployed) (by decide)
    exampleInitialized_ok
  have hsubmit : exec digits exampleContract 3
      (.submitCertificate (exampleCertificate (exampleHeader 1 4 400)) (exampleHeader 1 4 400) [])
      exampleInitialized = .ok (exampleSubmitted (exampleHeader 1 4 400)) :=
    exampleSubmitted_ok (exampleHeader 1 4 400) (by decide +kernel)
  exact .accept 86402 _ (.accept 3 _ hinit (by decide) hsubmit) (by decide) (exampleRotated_ok hg)

theorem exampleTrace_sound : StoredHashes digits (exampleRotated 7) ∧
      (exampleRotated 7).currentEpoch = 1 ∧
      (exampleRotated 7).current = (exampleSubmitted (exampleHeader 1 4 400)).next ∧
      (exampleSubmitted (exampleHeader 1 4 400)).latest.height < (exampleRotated 7).latest.height := by
  have h := lineage_sound (@exampleTrace 7 (by decide +kernel))
  obtain ⟨hrotates, hheight, -⟩ := h.2.1 [] _ _ rfl
  exact ⟨h.1, rfl, (hrotates (by decide)).2.1, hheight rfl⟩

end B3Coin.FinalityVerifier
