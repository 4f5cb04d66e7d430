import B3Coin.Finality.Journal

/-!
# The guard and one signing pass

What `EnsurePersistentSafety` establishes when it passes, what the journal does
with a single proposal, and what a whole pass of `MaybeSign` does to it: no
proposal is refused exactly when the first one follows the lock.
-/
namespace B3Coin.Finality

open BlockChain FinalitySignerStore Option

variable {β : Type} {n : Node β} {params : SignerParams}

/-! ## The ancestry guard -/

/-- The height of the last vote in the journal. -/
def FinalitySignerStore.lastVote (st : FinalitySignerStore) : Int :=
  match st.state with
  | some p => p.lastSignedHeight
  | none => -1

/-- What a passing guard hands to the signing pass. -/
structure Guarded (n : Node β) (chain : List (Block β)) (sg sg' : FinalitySigner)
    (p : FinalitySignerState) : Prop where
  journal : JournalOk n sg'.store
  state : sg'.store.state = some p
  onChain : LockOnChain n chain p
  lastSigned : sg'.lastSigned = p.lastSignedHeight
  lastVote : sg'.store.lastVote = sg.store.lastVote
  keys : sg'.keys = sg.keys
  validatorKey : sg'.validatorKey = sg.validatorKey
  minimumDepth : sg'.minimumDepth = sg.minimumDepth

variable {p : FinalitySignerState} {sg : FinalitySigner}

variable {r : Nat → Option Uint256} {pin : FinalitySignerRecovery} {s : State}
  {chain : List (Block β)}

theorem recoveryDigest_some {trusted : Bool} {d : Uint256}
    (h : recoveryDigest n params r trusted pin p s chain sg = some d) :
    isIncident p pin = true ∧ n.modernStart ≤ pin.anchorHeight.toNat ∧
      (blockAt chain pin.anchorHeight.toNat).map n.hash = some pin.anchorBlockHash ∧
      epochOfHeight s.epochStarts pin.anchorHeight.toNat = some pin.incidentEpoch ∧
      (∃ set, setForEpoch s pin.incidentEpoch = some set ∧
        n.setHash set = pin.incidentSigningSetHash) ∧
      successorHashForEpoch n s pin.incidentEpoch = some pin.incidentSuccessorSetHash := by
  unfold recoveryDigest at h
  rw [ite_none_left_eq_some, not_or, not_or, not_or, not_or, not_or, not_or, not_or,
    not_or] at h
  obtain ⟨hpre, h⟩ := h
  have hinc : isIncident p pin = true := by simpa using hpre.2.2.2.2.2.2.2.1
  split at h
  · rename_i atIncident anchor set fb h1 h2 h3 h4
    split_ifs at h with hpost
    simp only [not_or, Decidable.not_not, Bool.not_eq_true, Bool.not_eq_false] at hpost
    obtain ⟨_, hanchor, _, hset, hsucc, hcp, hepoch, _, _⟩ := hpost
    simp only [isCheckpointHeight, Bool.and_eq_true, decide_eq_true_eq] at hcp
    exact ⟨hinc, hcp.1.2, by rw [h2, map_some, hanchor], hepoch, ⟨set, h3, hset⟩, hsucc⟩
  · cases h

theorem unlockProof_some {f : FinalizedCheckpoint} {set : ValidatorSetSnapshot}
    {fb : FinalizedBlock} (h : unlockProof n r p s chain = some (f, set, fb)) :
    s.finalized = some f ∧ p.lockHeight < f.height ∧ setForEpoch s f.epoch = some set ∧
      successorHashForEpoch n s f.epoch = some fb.validatorSetHash ∧
      (blockAt chain f.height).map n.hash = some f.blockHash := by
  unfold unlockProof at h
  split at h
  · cases h
  rename_i f' hf
  split_ifs at h with hnew
  split at h
  · rename_i fb' set' hfb hset
    split_ifs at h with hsame
    obtain ⟨rfl, rfl, rfl⟩ := h
    obtain ⟨h1, h2⟩ := expectedFinalizedBlock_some hfb
    simp only [not_or, Decidable.not_not] at hsame
    exact ⟨hf, hnew.1, hset, h1, by rw [h2, hsame.1]⟩
  · cases h

variable {sg' : FinalitySigner}

section Guard

variable (hl : Linked n.hash chain) (hb : chain.length ≤ MAX_CHAIN) (ht : TrackerAt n chain s)

include hl hb ht

/-- The recovery moves the lock to a block of the active chain, under the sets it had. -/
theorem tryRecoveryAnchor_applied {trusted : Bool}
    (h : tryRecoveryAnchor n params r trusted pin p s chain sg = (.APPLIED, sg'))
    (hj : JournalOk n sg.store) (hp : sg.store.state = some p)
    (hlast : sg.lastSigned = p.lastSignedHeight) : ∃ p', Guarded n chain sg sg' p' := by
  unfold tryRecoveryAnchor at h
  split at h
  · simp at h
  rename_i d hd
  obtain ⟨hinc, hM, hhash, hepoch, ⟨set, hset, hsig⟩, hsucc⟩ := recoveryDigest_some hd
  split at h
  · simp at h
  rename_i store hst
  simp only [Prod.mk.injEq, true_and] at h
  subst h
  have hrec := hj.record p hp
  simp only [isIncident, Bool.and_eq_true, decide_eq_true_eq] at hinc
  obtain ⟨⟨⟨⟨⟨⟨⟨_, _⟩, _⟩, _⟩, _⟩, hie⟩, his⟩, hit⟩ := hinc
  -- the committed record keeps the incident's epoch and sets and moves only the block
  unfold commitPinnedRecoveryAnchor at hst
  rw [hj.isOpen, hp] at hst
  simp only at hst
  split_ifs at hst with hv _ _ _ hadv
  have hnn : 0 ≤ pin.anchorHeight := by
    have hvalid : pin.valid = true := by
      rw [not_or] at hv
      simpa using hv.1
    simp only [FinalitySignerRecovery.valid, Bool.and_eq_true, decide_eq_true_eq] at hvalid
    omega
  obtain ⟨t, hlk, _⟩ := lockedAt_of_chain (movedLock p pin.anchorHeight pin.anchorBlockHash d
      p.lockEpoch p.lockSigningSetHash p.lockSuccessorSetHash) hl hb ht hM
    (by simp only [movedLock]; omega) hhash (by simpa [movedLock, hie] using hepoch)
    (by simpa [movedLock, hie] using hset) (by simpa [movedLock, his] using hsig)
    (by simpa [movedLock, hie, hit] using hsucc)
  obtain ⟨hj', hs'⟩ := hj.commit_ok hst hrec.domain hrec.key (fun _ => ⟨_, t, hlk⟩)
  exact ⟨_, ⟨hj', hs', .inr hhash, hlast, by simp [lastVote, hs', hp, movedLock], rfl, rfl, rfl⟩⟩

omit hl hb ht in
theorem tryRecoveries_cases {ok : Bool} {pins : List (Bool × FinalitySignerRecovery)}
    (h : tryRecoveries n params r p s chain sg pins = (ok, sg')) :
    ok = false ∧ sg'.store = sg.store ∨
      ok = true ∧ ∃ trusted pin,
        tryRecoveryAnchor n params r trusted pin p s chain sg = (.APPLIED, sg') := by
  induction pins with
  | nil =>
    cases h
    exact .inl ⟨rfl, rfl⟩
  | cons x rest ih =>
    unfold tryRecoveries at h
    split at h <;> rename_i ha
    · cases h
      exact .inr ⟨rfl, _, _, ha⟩
    · cases h
      unfold tryRecoveryAnchor at ha
      split at ha
      · simp at ha
      split at ha <;> cases ha
      exact .inl ⟨rfl, rfl⟩
    · exact ih h

theorem ensureAncestry_true (h : ensureAncestry n params r p s chain sg = (true, sg'))
    (hj : JournalOk n sg.store) (hp : sg.store.state = some p) :
    ∃ p', Guarded n chain sg sg' p' := by
  simp only [ensureAncestry] at h
  split_ifs at h with hnone hon
  · simp only [Prod.mk.injEq, true_and] at h
    subst h
    exact ⟨p, hj, hp, .inl hnone, rfl, rfl, rfl, rfl, rfl⟩
  · simp only [Prod.mk.injEq, true_and] at h
    subst h
    exact ⟨p, hj, hp, .inr hon, rfl, rfl, rfl, rfl, rfl⟩
  · split at h
    · rename_i f set fb hu
      obtain ⟨hf, hnew, hset, hsucc, hhash⟩ := unlockProof_some hu
      obtain ⟨hM, _, hepoch⟩ := ht.finalized f hf
      split at h
      · simp at h
      rename_i store hst
      simp only [Prod.mk.injEq, true_and] at h
      subst h
      have hrec := hj.record p hp
      unfold commitCertifiedAnchor at hst
      rw [hj.isOpen, hp] at hst
      simp only at hst
      split_ifs at hst with _ hold _ _
      · omega
      obtain ⟨t, hlk, _⟩ := lockedAt_of_chain (movedLock p f.height f.blockHash
        (n.finalityDigest n.chainDomain fb) f.epoch (n.setHash set) fb.validatorSetHash)
        hl hb ht hM rfl hhash hepoch hset rfl hsucc
      obtain ⟨hj', hs'⟩ := hj.commit_ok hst hrec.domain hrec.key (fun _ => ⟨_, t, hlk⟩)
      exact ⟨_, hj', hs', .inr hhash, rfl, by simp [lastVote, hs', hp, movedLock], rfl, rfl, rfl⟩
    · rcases tryRecoveries_cases h with ⟨h, -⟩ | ⟨-, trusted, pin, h⟩
      · cases h
      · obtain ⟨p', hg⟩ := tryRecoveryAnchor_applied hl hb ht h hj hp rfl
        exact ⟨p', { hg with }⟩

omit hl hb ht in
/-- A guard refuses and keeps the journal, or it judges the record of a sound one. -/
theorem ensurePersistentSafety_cases {ok : Bool} (hj : JournalOk n sg.store)
    (h : ensurePersistentSafety n params r s chain sg = (ok, sg')) :
    ok = false ∧ sg'.store = sg.store ∨ ∃ store p, JournalOk n store ∧ store.state = some p ∧
      store.lastVote = sg.store.lastVote ∧
      ensureAncestry n params r p s chain { sg with store := store } = (ok, sg') := by
  unfold ensurePersistentSafety at h
  rw [if_neg (by simp [hj.isOpen])] at h
  cases hp : sg.store.state with
  | some p =>
    simp only [hp] at h
    split_ifs at h
    on_goal 4 => exact .inr ⟨_, p, hj, hp, rfl, h⟩
    all_goals
      cases h
      exact .inl ⟨rfl, rfl⟩
  | none =>
    simp only [hp] at h
    split_ifs at h
    on_goal 5 => split at h
    on_goal 6 =>
      rename_i store hst
      unfold initializeEmpty at hst
      rw [if_neg (by simp [hj.isOpen]), if_neg (by simp [hp])] at hst
      obtain ⟨hj', hs'⟩ := hj.commit_ok hst rfl rfl (fun hc => absurd hc (by simp))
      rw [hs'] at h
      exact .inr ⟨store, _, hj', hs', by simp [lastVote, hs', hp], h⟩
    all_goals
      cases h
      exact .inl ⟨rfl, rfl⟩

/-- A guard that passes leaves a journal whose lock is on the active chain. -/
theorem ensurePersistentSafety_true (hj : JournalOk n sg.store)
    (h : ensurePersistentSafety n params r s chain sg = (true, sg')) :
    ∃ p, Guarded n chain sg sg' p := by
  rcases ensurePersistentSafety_cases hj h with ⟨h, -⟩ | ⟨store, p, hj', hp, hvote, h⟩
  · cases h
  · obtain ⟨p', hg⟩ := ensureAncestry_true hl hb ht h hj' hp
    exact ⟨p', { hg with lastVote := hg.lastVote.trans hvote }⟩

end Guard

/-! ## The signing pass -/

/-- The validator can sign the checkpoint at `h` in the tracker state `s`: its epoch is
tracked, the validator is a member of that epoch's set, holds the key the set records, and
the withdrawal root of the checkpoint is known. -/
def CanSign (n : Node β) (r : Nat → Option Uint256) (s : State) (chain : List (Block β))
    (sg : FinalitySigner) (h e : Nat) : Prop :=
  epochOfHeight s.epochStarts h = some e ∧
    ∃ set i m, setForEpoch s e = some set ∧ set.indexOf sg.validatorKey = some i ∧
      set.members[i]? = some m ∧ m.blsPubkey ∈ sg.keys ∧
      (expectedFinalizedBlock n r s chain e h).isSome

theorem proposalAt_some {h : Nat} {q : Proposal} (hq : proposalAt n r s chain sg h = some q) :
    q.height = h ∧ CanSign n r s chain sg h q.epoch ∧
      ∃ set fb, setForEpoch s q.epoch = some set ∧ n.setHash set = q.signingSetHash ∧
        expectedFinalizedBlock n r s chain q.epoch h = some fb ∧
        q.blockHash = fb.blockHash ∧ q.digest = n.finalityDigest n.chainDomain fb ∧
        q.successorSetHash = fb.validatorSetHash := by
  simp only [proposalAt, bind, bind_eq_some_iff] at hq
  obtain ⟨e, he, set, hset, i, hi, m, hm, hq⟩ := hq
  split_ifs at hq with hkey
  obtain ⟨fb, hfb, hq⟩ := bind_eq_some_iff.mp hq
  cases hq
  exact ⟨rfl, ⟨he, set, i, m, hset, hi, hm, hkey, by simp [hfb]⟩, set, fb, hset, rfl, hfb, rfl,
    rfl, rfl⟩

theorem CanSign.proposalAt {h e : Nat} (hc : CanSign n r s chain sg h e) :
    ∃ q, Finality.proposalAt n r s chain sg h = some q ∧ q.epoch = e := by
  obtain ⟨he, set, i, m, hset, hi, hm, hkey, hfb⟩ := hc
  obtain ⟨fb, hfb⟩ := isSome_iff_exists.mp hfb
  exact ⟨⟨h, e, i, fb.blockHash, n.finalityDigest n.chainDomain fb, n.setHash set,
    fb.validatorSetHash⟩, by simp [Finality.proposalAt, he, hset, hi, hm, hkey, hfb], rfl⟩

/-- The journal a pass is working on, at some point of the pass. -/
structure PassOk (n : Node β) (chain : List (Block β)) (sg : FinalitySigner)
    (p : FinalitySignerState) (rest : List Nat) : Prop where
  journal : JournalOk n sg.store
  state : sg.store.state = some p
  onChain : LockOnChain n chain p
  sorted : rest.Pairwise (· < ·)
  modern : ∀ h ∈ rest, n.modernStart ≤ h
  aboveVote : ∀ h ∈ rest, p.lastSignedHeight < h
  aboveLock : ∀ h ∈ rest, p.lockHeight < h

/-- The heights a pass signs: those of the proposals the journal took. -/
def Pass.voted (pass : Pass) : List Int := (pass.attempts.filter (·.2.isNone)).map (·.1.height)

/-- Every vote of a pass is above the votes before it, and the journal ends at the last. -/
structure Pass.Ascends (pass : Pass) (v : Int) : Prop where
  sorted : (v :: pass.voted).Pairwise (· < ·)
  last : ∀ h ∈ v :: pass.voted, h ≤ pass.signer.store.lastVote

theorem Pass.Ascends.idle {sg : FinalitySigner} {pass : Pass} (hpass : pass.signer = sg)
    (hnone : pass.voted = []) {v : Int} (hv : sg.store.lastVote = v) : pass.Ascends v := by
  constructor <;> simp [hnone, hpass, hv]

section Pass

variable {chain : List (Block β)} {s : State} {r : Nat → Option Uint256} {sg₀ : FinalitySigner}

/-- One proposal: the journal takes it exactly when its epoch follows the lock, and then
holds it as the new lock. -/
theorem commit_proposal (ideal : Ideal n) (hl : Linked n.hash chain)
    (hb : chain.length ≤ MAX_CHAIN) (ht : TrackerAt n chain s)
    {h : Nat} {rest : List Nat} {q : Proposal}
    (hp : PassOk n chain sg p (h :: rest)) (hq : proposalAt n r s chain sg₀ h = some q) :
    ((0 ≤ p.lockHeight → q.epoch ≤ p.lockEpoch + 1) →
      ∃ store, sg.store.commitSignedCheckpoint q.height q.blockHash q.digest q.epoch
        q.signingSetHash q.successorSetHash = .ok store ∧ JournalOk n store ∧
        store.state = some (signedState p q.height q.blockHash q.digest q.epoch
          q.signingSetHash q.successorSetHash) ∧
        LockOnChain n chain (signedState p q.height q.blockHash q.digest q.epoch
          q.signingSetHash q.successorSetHash)) ∧
    (¬ (0 ≤ p.lockHeight → q.epoch ≤ p.lockEpoch + 1) →
      ∃ e, sg.store.commitSignedCheckpoint q.height q.blockHash q.digest q.epoch
        q.signingSetHash q.successorSetHash = .error e) := by
  obtain ⟨hqh, ⟨he, _⟩, set, fb, hset, hsig, hfb, hqb, hqd, hqs⟩ := proposalAt_some hq
  obtain ⟨hsucc, hhash⟩ := expectedFinalizedBlock_some hfb
  rw [← hqs] at hsucc
  rw [← hqb] at hhash
  have hrec := hp.journal.record p hp.state
  have hvote := hp.aboveVote h (by simp)
  have hlock := hp.aboveLock h (by simp)
  have hM := hp.modern h (by simp)
  obtain ⟨t, hlk, htc⟩ := lockedAt_of_chain (signedState p h q.blockHash q.digest q.epoch
    q.signingSetHash q.successorSetHash) hl hb ht hM rfl hhash he hset hsig hsucc
  have hbh : q.blockHash ≠ 0 := by
    obtain ⟨b, _, hbh⟩ := map_eq_some_iff.mp hhash
    rw [← hbh]
    exact ideal.hash_ne_zero b
  have hss : q.signingSetHash ≠ 0 := by rw [← hsig]; exact ideal.setHash_ne_zero set
  have hsc : q.successorSetHash ≠ 0 := by
    obtain ⟨next, _, hnext⟩ := map_eq_some_iff.mp hlk.successor
    rw [show q.successorSetHash = _ from hnext.symm]
    exact ideal.setHash_ne_zero next
  have hdg : q.digest ≠ 0 := by rw [hqd]; exact ideal.digest_ne_zero _ _
  have hepoch : t.epoch = q.epoch := hlk.epoch
  have hsmall : q.epoch ≠ NO_EPOCH := by
    have h1 := (hlk.tracked.epochTable hlk.modern).epoch_le
    have h2 := hlk.bounded
    simp only [MAX_CHAIN, NO_EPOCH, U64] at h2 ⊢
    omega
  -- the lineage check is the epoch comparison, because the lock is on this chain
  have hline : 0 ≤ p.lockHeight →
      (followsLineage p q.epoch q.signingSetHash = true ↔ q.epoch ≤ p.lockEpoch + 1) := by
    intro hnn
    obtain ⟨c, t', hlk'⟩ := hrec.locked hnn
    have hon : (blockAt chain p.lockHeight.toNat).map n.hash = some p.lockBlockHash := by
      rcases hp.onChain with hneg | hon
      · omega
      · exact hon
    have hc := hlk'.eq_upTo ideal hl hon
    have hh : h < chain.length := by
      obtain ⟨b, hbk, _⟩ := map_eq_some_iff.mp hhash
      exact (blockAt_eq_some hbk).1
    have hsuf : c <:+ upTo chain h := by
      rw [hc, ← upTo_upTo (show p.lockHeight.toNat ≤ h by omega) hh]
      exact upTo_suffix _ _
    have := hlk'.followsLineage_iff hsuf hlk.tracked htc
    rwa [hepoch, hsig] at this
  have hcommit : sg.store.commitSignedCheckpoint q.height q.blockHash q.digest q.epoch
      q.signingSetHash q.successorSetHash =
      if p.lockHeight ≥ 0 ∧ ¬ followsLineage p q.epoch q.signingSetHash then
        .error "checkpoint does not follow the durable validator-set lineage"
      else sg.store.commit (signedState p q.height q.blockHash q.digest q.epoch
        q.signingSetHash q.successorSetHash) := by
    unfold commitSignedCheckpoint
    rw [hp.journal.isOpen, hp.state, hqh]
    simp only
    rw [if_neg (by simp [hbh, hss, hsc, hdg]), if_neg (by omega), if_neg (by omega),
      if_neg (by omega)]
  rw [hcommit]
  constructor
  · intro hfollow
    rw [if_neg (by rintro ⟨h1, h2⟩; exact h2 ((hline h1).mpr (hfollow h1)))]
    have hvalid := stateError_signedState (p := p)
      (by rw [hrec.domain]; exact hp.journal.domain) (show (0 : Int) ≤ q.height by omega) hbh hdg
      hsmall hss hsc
    have hc := hp.journal.commit_eq (signedState p q.height q.blockHash q.digest q.epoch
      q.signingSetHash q.successorSetHash) hrec.domain hrec.key
    rw [hvalid] at hc
    have hok := hp.journal.commit_ok hc hrec.domain hrec.key
      (fun _ => ⟨_, t, by rw [hqh]; exact hlk⟩)
    exact ⟨_, hc, hok.1, hok.2, .inr (by rw [hqh]; simpa [signedState] using hhash)⟩
  · intro hnot
    rw [if_pos (by
      refine ⟨?_, ?_⟩ <;> by_contra hcon
      · exact hnot (fun hnn => absurd hnn hcon)
      · exact hnot (fun hnn => (hline hnn).mp (by simpa using hcon)))]
    exact ⟨_, rfl⟩

/-- A whole pass: the journal stays sound, and no proposal is refused exactly when the first
one follows the lock. Later ones then follow by themselves, since only two neighbouring
epochs are ever tracked. -/
theorem signLoop_spec (sg₀ : FinalitySigner) (ideal : Ideal n) (hl : Linked n.hash chain)
    (hb : chain.length ≤ MAX_CHAIN) (ht : TrackerAt n chain s) (submit : Proposal → Accept) :
    ∀ (rest : List Nat) (sg : FinalitySigner) (p : FinalitySignerState),
      PassOk n chain sg p rest →
      (JournalOk n (signLoop submit (proposalAt n r s chain sg₀) rest sg).signer.store ∧
        (signLoop submit (proposalAt n r s chain sg₀) rest sg).Ascends sg.store.lastVote) ∧
      ((∀ a ∈ (signLoop submit (proposalAt n r s chain sg₀) rest sg).attempts, a.2 = none) ↔
        (0 ≤ p.lockHeight → ∀ h ∈ rest, ∀ e, CanSign n r s chain sg₀ h e →
          (∀ k ∈ rest, ∀ e', CanSign n r s chain sg₀ k e' → h ≤ k) → e ≤ p.lockEpoch + 1))
  | [], sg, p, hp => ⟨⟨hp.journal, .idle rfl rfl rfl⟩, by simp [signLoop]⟩
  | h :: rest, sg, p, hp => by
    have hsorted := List.pairwise_cons.mp hp.sorted
    cases hq : proposalAt n r s chain sg₀ h with
    | none =>
      have hno : ∀ e, ¬ CanSign n r s chain sg₀ h e := by
        intro e hc
        obtain ⟨q, hq', _⟩ := hc.proposalAt
        simp [hq] at hq'
      have ih := signLoop_spec sg₀ ideal hl hb ht submit rest sg p
        ⟨hp.journal, hp.state, hp.onChain, hsorted.2, fun k hk => hp.modern k (by simp [hk]),
          fun k hk => hp.aboveVote k (by simp [hk]), fun k hk => hp.aboveLock k (by simp [hk])⟩
      simp only [signLoop, hq]
      refine ⟨ih.1, ih.2.trans ?_⟩
      simp only [List.mem_cons, forall_eq_or_imp, hno, false_imp_iff, implies_true, true_and]
    | some q =>
      obtain ⟨hqh, hcan, _⟩ := proposalAt_some hq
      have hcommit := commit_proposal ideal hl hb ht hp hq
      -- the condition on the whole rest of the pass is the condition on this proposal
      have hfirst : (0 ≤ p.lockHeight → ∀ k ∈ h :: rest, ∀ e, CanSign n r s chain sg₀ k e →
          (∀ k' ∈ h :: rest, ∀ e', CanSign n r s chain sg₀ k' e' → k ≤ k') →
          e ≤ p.lockEpoch + 1) ↔ (0 ≤ p.lockHeight → q.epoch ≤ p.lockEpoch + 1) := by
        constructor
        · intro hall hnn
          refine hall hnn h (by simp) q.epoch hcan (fun k hk _ _ => ?_)
          rcases List.mem_cons.mp hk with rfl | hk
          · exact Nat.le_refl _
          · exact Nat.le_of_lt (hsorted.1 k hk)
        · intro hone hnn k hk e hce hmin
          have hkh := hmin h (by simp) q.epoch hcan
          have hk' : k = h := by
            rcases List.mem_cons.mp hk with hk | hk
            · exact hk
            · have := hsorted.1 k hk
              omega
          subst hk'
          have hee : e = q.epoch := Option.some.inj (hce.1.symm.trans hcan.1)
          rw [hee]
          exact hone hnn
      rw [hfirst]
      by_cases hfollow : 0 ≤ p.lockHeight → q.epoch ≤ p.lockEpoch + 1
      · obtain ⟨store, hc, hj, hst, hon⟩ := hcommit.1 hfollow
        have ih := signLoop_spec sg₀ ideal hl hb ht submit rest
          { sg with store := store, lastSigned := q.height } _
          ⟨hj, hst, hon, hsorted.2, fun k hk => hp.modern k (by simp [hk]),
            fun k hk => by have := hsorted.1 k hk; simp only [signedState]; omega,
            fun k hk => by have := hsorted.1 k hk; simp only [signedState]; omega⟩
        have hopen : store.isOpen = true := hj.isOpen
        simp only [signLoop, hq, hp.journal.isOpen, if_true, hc, hopen, Bool.true_or]
        have hvote : sg.store.lastVote < q.height := by
          have := hp.aboveVote h (by simp)
          simp only [lastVote, hp.state]
          omega
        have hnew : store.lastVote = q.height := by simp only [lastVote, hst, signedState]
        obtain ⟨⟨hjournal, hrest, hlast⟩, hnone⟩ := ih
        simp only [hnew] at hrest hlast
        refine ⟨⟨hjournal, List.pairwise_cons.mpr ⟨List.forall_mem_cons.mpr ⟨hvote, ?_⟩, hrest⟩,
          List.forall_mem_cons.mpr ⟨hvote.le.trans (hlast _ List.mem_cons_self), hlast⟩⟩,
          iff_of_true ?_ hfollow⟩
        · exact fun v hv => hvote.trans ((List.pairwise_cons.mp hrest).1 v hv)
        intro a ha
        rcases List.mem_cons.mp ha with rfl | ha
        · rfl
        refine hnone.mpr (fun _ k hk e hce _ => ?_) a ha
        -- two tracked epochs only: the later proposal cannot leave the neighbourhood
        have hnear : ∀ {k e}, n.modernStart ≤ k → CanSign n r s chain sg₀ k e →
            e ≤ s.epoch ∧ s.epoch ≤ e + 1 := by
          rintro k e hk ⟨he, set, i, m, hset, _, _, _, hfb⟩
          obtain ⟨fb, hfb⟩ := isSome_iff_exists.mp hfb
          obtain ⟨hsucc, hhash⟩ := expectedFinalizedBlock_some hfb
          obtain ⟨b, hbk, _⟩ := map_eq_some_iff.mp hhash
          obtain ⟨_, _, _, _, _, h1, h2⟩ :=
            sets_at_height ht hk (blockAt_eq_some hbk).1 he hset hsucc
          exact ⟨h1, h2⟩
        have h1 := hnear (hp.modern h (by simp)) hcan
        have h2 := hnear (hp.modern k (by simp [hk])) hce
        simp only [signedState]
        omega
      · obtain ⟨e, he⟩ := hcommit.2 hfollow
        simp only [signLoop, hq, hp.journal.isOpen, if_true, he]
        refine ⟨⟨hp.journal, .idle rfl rfl rfl⟩, iff_of_false ?_ hfollow⟩
        intro hall
        have := hall (q, some e) (by simp)
        simp at this

end Pass

end B3Coin.Finality
