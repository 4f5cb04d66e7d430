import B3Coin.Finality.Signer

/-!
# What the journal knows about the chain

The lock records a block together with the epoch and the two set hashes that were
in force there. `LockedAt` ties such a record to a chain ending at the locked
block. As long as the locked block is on the active chain, the lineage rule of the
journal is then a statement about epoch numbers alone: a vote follows the lock
exactly when its epoch is at most one above the locked one.
-/
namespace B3Coin.Finality

open BlockChain FinalitySignerStore

variable {β : Type} {n : Node β}

section

variable (n : Node β) (st : FinalitySignerStore)

/-- Assumptions on the cryptographic parameters: block hashes commit to their block, and
no digest is null. -/
structure Ideal : Prop where
  hash_injective : Function.Injective n.hash
  hash_ne_zero : ∀ b, n.hash b ≠ 0
  digest_ne_zero : ∀ d fb, n.finalityDigest d fb ≠ 0
  setHash_ne_zero : ∀ s, n.setHash s ≠ 0

/-- Heights are `int`s. -/
def MAX_CHAIN : Nat := 2 ^ 31

/-- The lock of `p` is the tip of `c`, with the epoch and sets in force there. -/
structure LockedAt (p : FinalitySignerState) (c : List (Block β)) (s : State) : Prop where
  linked : Linked n.hash c
  length : (c.length : Int) = p.lockHeight + 1
  modern : n.modernStart < c.length
  bounded : c.length ≤ MAX_CHAIN
  tip : c.head?.map n.hash = some p.lockBlockHash
  tracked : TrackerAt n c s
  epoch : s.epoch = p.lockEpoch
  signing : s.current.map n.setHash = some p.lockSigningSetHash
  successor : s.next.map n.setHash = some p.lockSuccessorSetHash

structure RecordOk (p : FinalitySignerState) : Prop where
  valid : stateError p = none
  domain : p.chainDomain = st.chainDomain
  key : p.validatorKey = st.validatorKey
  locked : 0 ≤ p.lockHeight → ∃ c s, LockedAt n p c s

/-- The journal as the signer's own commits leave it: the file holds what the process
believes, and every lock names sets some chain really had. -/
structure JournalOk : Prop where
  isOpen : st.isOpen = true
  domain : st.chainDomain ≠ 0
  file : st.file = match st.state with
    | some p => .valid p
    | none => .absent
  record : ∀ p, st.state = some p → RecordOk n st p

/-- Nothing is locked, or the locked block is on the active chain. -/
def LockOnChain (chain : List (Block β)) (p : FinalitySignerState) : Prop :=
  p.lockHeight < 0 ∨
    (blockAt chain p.lockHeight.toNat).map n.hash = some p.lockBlockHash

end

/-! ## Commits -/

variable {st : FinalitySignerStore}

theorem JournalOk.predecessorError (h : JournalOk n st) : st.predecessorError = none := by
  have hf := h.file
  unfold FinalitySignerStore.predecessorError
  cases hs : st.state with
  | none => simp [hs] at hf; simp [hf]
  | some p => simp [hs] at hf; simp [hf]

/-- A commit under the same identity is decided by the record's own consistency. -/
theorem JournalOk.commit_eq (h : JournalOk n st)
    (next : FinalitySignerState) (hd : next.chainDomain = st.chainDomain)
    (hk : next.validatorKey = st.validatorKey) : st.commit next = match stateError next with
      | some e => .error e
      | none => .ok { st with state := some next, file := .valid next } := by
  unfold FinalitySignerStore.commit
  rw [if_neg (by simp [h.isOpen]), if_neg (by simp [hd, hk]), h.predecessorError]
  cases stateError next <;> rfl

theorem JournalOk.commit_ok {st' : FinalitySignerStore} (h : JournalOk n st)
    {next : FinalitySignerState} (hc : st.commit next = .ok st')
    (hd : next.chainDomain = st.chainDomain) (hk : next.validatorKey = st.validatorKey)
    (hlock : 0 ≤ next.lockHeight → ∃ c s, LockedAt n next c s) : JournalOk n st' ∧ st'.state = some next := by
  rw [h.commit_eq next hd hk] at hc
  cases he : stateError next with
  | some e => simp [he] at hc
  | none =>
    simp only [he, Except.ok.injEq] at hc
    subst hc
    refine ⟨⟨h.isOpen, h.domain, rfl, fun p hp => ?_⟩, rfl⟩
    obtain rfl : next = p := by simpa using hp
    exact ⟨he, hd, hk, hlock⟩

variable {e : Nat} {p : FinalitySignerState}

theorem stateError_signedState (hd : p.chainDomain ≠ 0) {h : Int}
    {bh dg : Uint256} {ss sc : Uint256} (hh : 0 ≤ h) (hb : bh ≠ 0) (hg : dg ≠ 0)
    (he : e ≠ NO_EPOCH) (hss : ss ≠ 0) (hsc : sc ≠ 0) :
    stateError (signedState p h bh dg e ss sc) = none := by
  have hne : h ≠ -1 := by omega
  have hlt : ¬ h < -1 := by omega
  simp [stateError, signedState, hd, hb, hg, he, hss, hsc, hne, hlt]

/-! ## The sets in force at a height -/

variable {chain : List (Block β)}

variable {s : State} {h : Nat} {set : ValidatorSetSnapshot}

/-- The sets the tip's tracker state assigns to a height are the ones in force there. -/
theorem sets_at_height (ht : TrackerAt n chain s) {sh : Uint256} (hM : n.modernStart ≤ h)
    (hh : h < chain.length) (he : epochOfHeight s.epochStarts h = some e)
    (hset : setForEpoch s e = some set) (hsucc : successorHashForEpoch n s e = some sh) :
    ∃ t, TrackerAt n (upTo chain h) t ∧ t.epoch = e ∧ t.current = some set ∧
      t.next.map n.setHash = some sh ∧ e ≤ s.epoch ∧ s.epoch ≤ e + 1 := by
  have hlen := upTo_length hh
  obtain ⟨t, htt⟩ := ht.suffix (upTo_suffix chain h)
  have htable := htt.epochTable (by omega)
  obtain ⟨later, hext⟩ := ht.extends htt (upTo_suffix chain h) (by omega)
  have hepoch : e = t.epoch := by
    rw [hlen, Nat.add_sub_cancel] at htable hext
    have := epochOfHeight_extends htable hext
    rw [he] at this
    exact Option.some.inj this
  have hse := hext.epoch
  refine ⟨t, htt, hepoch.symm, ?_⟩
  unfold setForEpoch at hset
  unfold successorHashForEpoch at hsucc
  split_ifs at hset with _ hcur hprev
  · -- the height is in the current epoch: nothing has rotated since
    have hnil : later = [] := List.length_eq_zero_iff.mp (by omega)
    obtain ⟨h1, h2⟩ := hext.same hnil
    refine ⟨by rw [← h1]; exact hset, ?_, by omega, by omega⟩
    rw [← h2]
    split_ifs at hsucc with h3 h4
    · exact hsucc
    · omega
  · -- the height is in the previous epoch: exactly one rotation since
    have hone : later.length = 1 := by omega
    obtain ⟨h1, h2⟩ := hext.once hone
    refine ⟨by rw [← h1]; exact hset, ?_, by omega, by omega⟩
    rw [← h2]
    split_ifs at hsucc with h3 h4
    · exact absurd h3.1 hcur
    · exact hsucc

theorem expectedFinalizedBlock_some {r : Nat → Option Uint256} {fb : FinalizedBlock}
    (hfb : expectedFinalizedBlock n r s chain e h = some fb) :
    successorHashForEpoch n s e = some fb.validatorSetHash ∧
      (blockAt chain h).map n.hash = some fb.blockHash := by
  unfold expectedFinalizedBlock at hfb
  split at hfb
  · rename_i succ b root h1 h2 h3
    cases hfb
    exact ⟨h1, by rw [h2]; rfl⟩
  · cases hfb

/-- A record whose lock was read off the active chain at a modern height. -/
theorem lockedAt_of_chain (p : FinalitySignerState)
    (hl : Linked n.hash chain) (hb : chain.length ≤ MAX_CHAIN) (ht : TrackerAt n chain s)
    (hM : n.modernStart ≤ h) (hph : p.lockHeight = h)
    (hhash : (blockAt chain h).map n.hash = some p.lockBlockHash)
    (he : epochOfHeight s.epochStarts h = some p.lockEpoch)
    (hset : setForEpoch s p.lockEpoch = some set) (hsig : n.setHash set = p.lockSigningSetHash)
    (hsucc : successorHashForEpoch n s p.lockEpoch = some p.lockSuccessorSetHash) :
    ∃ t, LockedAt n p (upTo chain h) t ∧ t.current = some set := by
  obtain ⟨b, hbk, hbh⟩ := Option.map_eq_some_iff.mp hhash
  obtain ⟨hh, below, hup, _⟩ := blockAt_eq_some hbk
  obtain ⟨t, htt, hte, htc, htn, _, _⟩ := sets_at_height ht hM hh he hset hsucc
  have hlen := upTo_length hh
  refine ⟨t, ⟨hl.suffix (upTo_suffix chain h), by omega, by omega, by omega, ?_, htt, hte, ?_,
    htn⟩, htc⟩
  · rw [hup]
    simp [hbh]
  · rw [htc, Option.map_some, hsig]

/-- The chain under a lock that is on the active chain. -/
theorem LockedAt.eq_upTo (ideal : Ideal n) (hl : Linked n.hash chain)
    {c : List (Block β)} {t : State} (h : LockedAt n p c t)
    (hon : (blockAt chain p.lockHeight.toNat).map n.hash = some p.lockBlockHash) :
    c = upTo chain p.lockHeight.toNat := by
  obtain ⟨b, hb, hbh⟩ := Option.map_eq_some_iff.mp hon
  obtain ⟨_, below, hup, _⟩ := blockAt_eq_some hb
  have htip := h.tip
  have hlinked := h.linked
  rw [hup]
  cases c with
  | nil => simp at htip
  | cons a rest =>
    simp only [List.head?_cons, Option.map_some, Option.some.injEq] at htip
    have hsuf : Linked n.hash (b :: below) := by
      rw [← hup]
      exact hl.suffix (upTo_suffix _ _)
    exact Linked.eq_of_hash ideal.hash_injective ideal.hash_ne_zero hlinked hsuf
      (htip.trans hbh.symm)

/-- The lineage rule, read on the chain: same epoch or the next one, nothing else. -/
theorem LockedAt.followsLineage_iff {c d : List (Block β)}
    {t : State} (h : LockedAt n p c s) (hs : c <:+ d) (ht : TrackerAt n d t)
    (hset : t.current = some set) :
    followsLineage p t.epoch (n.setHash set) = true ↔ t.epoch ≤ p.lockEpoch + 1 := by
  obtain ⟨later, hext⟩ := ht.extends h.tracked hs h.modern
  have hep := h.epoch
  have hte := hext.epoch
  have hsmall : p.lockEpoch < NO_EPOCH - 1 := by
    have h1 := (h.tracked.epochTable h.modern).epoch_le
    have h2 := h.bounded
    simp only [MAX_CHAIN, NO_EPOCH, U64] at h2 ⊢
    omega
  have hsig := h.signing
  have hsuc := h.successor
  simp only [followsLineage, Bool.or_eq_true, Bool.and_eq_true, decide_eq_true_eq]
  constructor
  · rintro (⟨h1, _⟩ | ⟨⟨_, h1⟩, _⟩) <;> omega
  · intro hle
    rcases Nat.lt_or_ge later.length 1 with hz | hz
    · have hnil : later = [] := List.length_eq_zero_iff.mp (by omega)
      obtain ⟨h1, _⟩ := hext.same hnil
      refine .inl ⟨by omega, ?_⟩
      rw [← h1, hset] at hsig
      simpa using hsig
    · obtain ⟨_, h2⟩ := hext.once (by omega)
      refine .inr ⟨⟨hsmall, by omega⟩, ?_⟩
      rw [← h2, hset] at hsuc
      simpa using hsuc

end B3Coin.Finality
