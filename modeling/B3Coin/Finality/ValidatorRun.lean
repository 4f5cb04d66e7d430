import B3Coin.Finality.SigningPass
import B3Coin.Lib.Transition
import Mathlib.Data.Nat.Pairing

/-!
# A validator's whole life

A node connects and disconnects blocks, restarts, accepts an operator's recovery
plan and runs signing passes. Every state it reaches keeps the journal tied to
real chains, and in every such state the question whether a pass can be refused
by the journal it writes has an exact answer: it cannot, unless the first
checkpoint the pass can sign lies more than one epoch above the lock.
-/
namespace B3Coin.Finality

open BlockChain FinalitySignerStore

variable {β : Type}

structure World (β : Type) where
  chain : List (Block β)
  tracker : Tracker
  signer : FinalitySigner

/-- `SetKeysPersistent` of a fresh process: the journal is read back from its file. -/
def restartSigner (sg : FinalitySigner) (keys : List BlsPubkey) (store : FinalitySignerStore) :
    FinalitySigner :=
  { sg with
    keys := keys
    operatorTrustedRecovery := none
    lastSigned := match store.state with
      | some p => p.lastSignedHeight
      | none => -1
    store := store
    permanentError := false }

/-- `SetOperatorTrustedRecovery` accepts the plan. -/
def acceptsRecovery (sg : FinalitySigner) (r : FinalitySignerRecovery) : Bool :=
  r.valid && r.validatorKey == some sg.validatorKey && sg.keys != [] && sg.store.isOpen &&
    !sg.permanentError && r.chainDomain == sg.store.chainDomain &&
    match sg.store.state with
    | some p => p.validatorKey == sg.validatorKey && p.chainDomain == r.chainDomain &&
        matchesOperatorRecoveryIncident p r
    | none => false

section Run

variable (n : Node β) (params : SignerParams)

/-- One event in the life of a validator. A signing pass follows a successful `Sync`, as in
the staking loop; a failed one only changes the tracker. -/
inductive Step : World β → World β → Prop where
  | connect {w : World β} (sv : Services) (b : Block β) :
      Linked n.hash (b :: w.chain) → w.chain.length + 1 ≤ MAX_CHAIN →
      Step w ⟨b :: w.chain, w.tracker.blockConnected n sv b w.chain, w.signer⟩
  | disconnect {w : World β} {b : Block β} {below : List (Block β)} : w.chain = b :: below →
      Step w ⟨below, w.tracker.markDirty, w.signer⟩
  | syncFails {w : World β} (sv : Services) : (w.tracker.sync n sv w.chain).1 = false →
      Step w ⟨w.chain, (w.tracker.sync n sv w.chain).2, w.signer⟩
  | sign {w : World β} (sv : Services) (submit : Proposal → Accept) :
      (w.tracker.sync n sv w.chain).1 = true →
      Step w ⟨w.chain, (w.tracker.sync n sv w.chain).2,
        (maybeSign n params submit sv.rootAt (w.tracker.sync n sv w.chain).2.state w.chain
          w.signer).signer⟩
  | restart {w : World β} (keys : List BlsPubkey) {store : FinalitySignerStore} :
      openFile w.signer.store.file w.signer.store.chainDomain w.signer.store.validatorKey =
        .ok store →
      Step w ⟨w.chain, {}, restartSigner w.signer keys store⟩
  | recovery {w : World β} (r : FinalitySignerRecovery) : acceptsRecovery w.signer r = true →
      Step w ⟨w.chain, w.tracker, { w.signer with operatorTrustedRecovery := some r }⟩

/-- A new node whose signer has just been armed with a journal that does not exist yet. -/
def Fresh (w : World β) : Prop :=
  w.chain = [] ∧ w.tracker = {} ∧ w.signer.permanentError = false ∧ w.signer.lastSigned = -1 ∧
    w.signer.operatorTrustedRecovery = none ∧
    ∃ domain key, openFile .absent domain key = .ok w.signer.store

abbrev Reachable (w : World β) : Prop := Transition.Reach Fresh (Step n params) w

end Run

variable {n : Node β} {params : SignerParams}

structure WorldOk (n : Node β) (w : World β) : Prop where
  linked : Linked n.hash w.chain
  bounded : w.chain.length ≤ MAX_CHAIN
  tracker : w.tracker.Faithful n
  journal : JournalOk n w.signer.store

variable {s : State} {chain : List (Block β)}

variable {r : Nat → Option Uint256} {p : FinalitySignerState} {sg : FinalitySigner}

theorem ensurePersistentSafety_false {sg' : FinalitySigner} (hj : JournalOk n sg.store)
    (h : ensurePersistentSafety n params r s chain sg = (false, sg')) :
    JournalOk n sg'.store ∧ sg'.store.lastVote = sg.store.lastVote := by
  rcases ensurePersistentSafety_cases hj h with ⟨-, h⟩ | ⟨store, p, hj', -, hvote, h⟩
  · rw [h]
    exact ⟨hj, rfl⟩
  simp only [ensureAncestry] at h
  split_ifs at h <;> try simp at h
  split at h
  · split at h
    · cases h
      exact ⟨hj', hvote⟩
    · simp at h
  · rcases tryRecoveries_cases h with ⟨-, h⟩ | ⟨h, -⟩
    · rw [h]
      exact ⟨hj', hvote⟩
    · cases h

/-- After a passing guard the heights a pass visits are above both recorded heights. -/
theorem Guarded.passOk {sg' : FinalitySigner} (h : Guarded n chain sg sg' p) : PassOk n chain sg' p
      (checkpoints n sg'.minimumDepth (chain.length - 1) (watermark s sg')) := by
  obtain ⟨hsorted, hmem⟩ := checkpoints_spec (n := n) sg'.minimumDepth (chain.length - 1)
    (watermark s sg')
  have hw : p.lastSignedHeight ≤ watermark s sg' ∧ p.lockHeight ≤ watermark s sg' := by
    simp only [watermark, h.journal.isOpen, h.state, h.lastSigned]
    cases s.finalized <;> simp
  refine ⟨h.journal, h.state, h.onChain, hsorted, ?_, ?_, ?_⟩ <;> intro k hk <;>
    obtain ⟨hcp, hwk, _⟩ := (hmem k).mp hk
  · simp only [isCheckpointHeight, Bool.and_eq_true, decide_eq_true_eq] at hcp
    exact hcp.1.2
  · omega
  · omega

/-- A pass keeps the journal sound and only votes above the last vote in it. -/
theorem maybeSign_journal (ideal : Ideal n) (submit : Proposal → Accept)
    (hl : Linked n.hash chain) (hb : chain.length ≤ MAX_CHAIN) (ht : TrackerAt n chain s)
    (hj : JournalOk n sg.store) :
    JournalOk n (maybeSign n params submit r s chain sg).signer.store ∧
      (maybeSign n params submit r s chain sg).Ascends sg.store.lastVote := by
  unfold maybeSign
  by_cases hkeys : sg.keys = []
  · rw [if_pos hkeys]
    exact ⟨hj, .idle rfl rfl rfl⟩
  · rw [if_neg hkeys]
    split
    · rename_i sg' h
      obtain ⟨hj', hvote⟩ := ensurePersistentSafety_false hj h
      exact ⟨hj', .idle rfl rfl hvote⟩
    · rename_i sg' h
      obtain ⟨p, hg⟩ := ensurePersistentSafety_true hl hb ht hj h
      split_ifs
      · exact ⟨hg.journal, .idle rfl rfl hg.lastVote⟩
      · rw [← hg.lastVote]
        exact (signLoop_spec sg' ideal hl hb ht submit _ _ p hg.passOk).1

theorem openFile_journal {st st' : FinalitySignerStore} (hj : JournalOk n st)
    (h : openFile st.file st.chainDomain st.validatorKey = .ok st') : JournalOk n st' := by
  have hf := hj.file
  unfold openFile at h
  rw [if_neg hj.domain] at h
  cases hs : st.state with
  | none =>
    simp only [hs] at hf
    rw [hf] at h
    simp only [Except.ok.injEq] at h
    rw [← h]
    exact ⟨rfl, hj.domain, rfl, by simp⟩
  | some p =>
    simp only [hs] at hf
    have hrec := hj.record p hs
    rw [hf] at h
    simp only [hrec.domain, hrec.key, ne_eq, not_true_eq_false, or_self, if_false,
      Except.ok.injEq] at h
    rw [← h]
    refine ⟨rfl, hj.domain, rfl, fun q hq => ?_⟩
    obtain rfl : p = q := by simpa using hq
    exact { hrec with }

theorem WorldOk.sync (ideal : Ideal n) {w : World β} (hw : WorldOk n w) {sv : Services} :
    (w.tracker.sync n sv w.chain).2.Faithful n ∧ ((w.tracker.sync n sv w.chain).1 = true →
      TrackerAt n w.chain (w.tracker.sync n sv w.chain).2.state) :=
  Tracker.sync_spec ideal.hash_injective ideal.hash_ne_zero hw.tracker hw.linked

/-- Every state a validator reaches keeps a linked chain, a tracker that tells the truth
about it whenever it claims to be synced, and a journal tied to real chains. -/
theorem Reachable.ok (ideal : Ideal n) {w : World β} (h : Reachable n params w) : WorldOk n w := by
  refine h.invariant (P := WorldOk n) ?_ ?_
  · rintro w ⟨hc, ht, _, _, _, domain, key, hst⟩
    unfold openFile at hst
    split_ifs at hst with hd
    simp only [Except.ok.injEq] at hst
    refine ⟨by rw [hc]; trivial, by simp [hc], ?_, ?_⟩
    · rw [ht]
      exact .of_dirty rfl
    · rw [← hst]
      exact ⟨rfl, hd, rfl, by simp⟩
  · intro w w' hw hstep
    cases hstep with
    | connect sv b hl hlen =>
      exact ⟨hl, by simpa using hlen, Tracker.blockConnected_faithful ideal.hash_injective
        ideal.hash_ne_zero hw.tracker hl, hw.journal⟩
    | disconnect hc =>
      have hl := hw.linked
      have hb := hw.bounded
      rw [hc] at hl hb
      exact ⟨hl.tail, Nat.le_of_succ_le hb, .of_dirty rfl, hw.journal⟩
    | syncFails sv _ =>
      exact ⟨hw.linked, hw.bounded, (hw.sync ideal).1, hw.journal⟩
    | sign sv submit hs =>
      obtain ⟨hf, ht⟩ : _ ∧ (_ → _) := hw.sync ideal
      exact ⟨hw.linked, hw.bounded, hf,
        (maybeSign_journal ideal submit hw.linked hw.bounded (ht hs) hw.journal).1⟩
    | restart keys ho =>
      exact ⟨hw.linked, hw.bounded, .of_dirty rfl, openFile_journal hw.journal ho⟩
    | recovery r _ => exact { hw with }

section

variable (n : Node β) (r : Nat → Option Uint256) (s : State) (chain : List (Block β))
  (sg : FinalitySigner)

/-- A checkpoint the pass will propose: on the schedule, above every recorded height, deep
enough, and signable by this validator. -/
def Signable (h e : Nat) : Prop :=
  isCheckpointHeight h n.modernStart n.pos.checkpointInterval = true ∧ watermark s sg < h ∧
    h + max n.pos.checkpointDepth sg.minimumDepth ≤ chain.length - 1 ∧ CanSign n r s chain sg h e

/-- The lowest signable checkpoint lies in the epoch of the journal's lock or the next one. -/
def FirstSignableFollowsLock : Prop :=
  ∀ p, sg.store.state = some p → 0 ≤ p.lockHeight →
    ∀ h e, Signable n r s chain sg h e → (∀ k e', Signable n r s chain sg k e' → h ≤ k) →
      e ≤ p.lockEpoch + 1

end

/-- In every reachable state whose guard passes, the journal accepts every checkpoint the
pass proposes exactly when the lowest signable one lies in the epoch of the lock the guard
left, or in the next epoch. -/
theorem maybeSign_never_refused_iff (ideal : Ideal n) {w : World β}
    (hw : Reachable n params w) (sv : Services) (submit : Proposal → Accept)
    (hs : (w.tracker.sync n sv w.chain).1 = true) {sg : FinalitySigner}
    (hsafe : ensurePersistentSafety n params sv.rootAt (w.tracker.sync n sv w.chain).2.state
      w.chain w.signer = (true, sg)) :
    (∀ a ∈ (maybeSign n params submit sv.rootAt (w.tracker.sync n sv w.chain).2.state w.chain
      w.signer).attempts, a.2 = none) ↔
    FirstSignableFollowsLock n sv.rootAt (w.tracker.sync n sv w.chain).2.state w.chain sg := by
  have hok := hw.ok ideal
  have ht := (hok.sync ideal).2 hs
  obtain ⟨p, hg⟩ := ensurePersistentSafety_true hok.linked hok.bounded ht hok.journal hsafe
  generalize (w.tracker.sync n sv w.chain).2.state = s at *
  have hidle : (∀ h e, ¬ Signable n sv.rootAt s w.chain sg h e) →
      FirstSignableFollowsLock n sv.rootAt s w.chain sg :=
    fun hno _ _ _ h e hsig _ => absurd hsig (hno h e)
  unfold maybeSign
  by_cases hkeys : w.signer.keys = []
  · rw [if_pos hkeys]
    refine iff_of_true (by simp) (hidle ?_)
    rintro h e ⟨_, _, _, _, set, i, m, _, _, _, hm, _⟩
    simp [hg.keys, hkeys] at hm
  · rw [if_neg hkeys, hsafe]
    simp only
    split_ifs with hout
    · refine iff_of_true (by simp) (hidle ?_)
      rintro h e ⟨_, _, _, _, set, i, m, hset, _, _, _, hfb⟩
      rcases hout with hc | hb | hb
      · obtain ⟨fb, hfb⟩ := Option.isSome_iff_exists.mp hfb
        obtain ⟨b, hbk, _⟩ := Option.map_eq_some_iff.mp (expectedFinalizedBlock_some hfb).2
        have := (blockAt_eq_some hbk).1
        simp [hc] at this
      · simp [setForEpoch, hb] at hset
      · simp [setForEpoch, hb] at hset
    · have hspec := (signLoop_spec (r := sv.rootAt) sg ideal hok.linked hok.bounded ht
        submit _ _ p (hg.passOk (s := s))).2
      rw [hspec]
      have hmem := (checkpoints_spec (n := n) sg.minimumDepth (w.chain.length - 1)
        (watermark s sg)).2
      constructor
      · intro hall q hq hnn h e hsig hmin
        obtain rfl : p = q := Option.some.inj (hg.state.symm.trans hq)
        refine hall hnn h ((hmem h).mpr ⟨hsig.1, hsig.2.1, hsig.2.2.1⟩) e hsig.2.2.2 ?_
        intro k hk e' hc
        obtain ⟨h₁, h₂, h₃⟩ := (hmem k).mp hk
        exact hmin k e' ⟨h₁, h₂, h₃, hc⟩
      · intro hall hnn h hh e hc hmin
        obtain ⟨h₁, h₂, h₃⟩ := (hmem h).mp hh
        refine hall p hg.state hnn h e ⟨h₁, h₂, h₃, hc⟩ ?_
        rintro k e' ⟨h₁, h₂, h₃, hc'⟩
        exact hmin k ((hmem k).mpr ⟨h₁, h₂, h₃⟩) e' hc'

/-! ## Votes over a run -/

/-- The pass after a `Sync` of the tracker in `w`. -/
def World.pass (n : Node β) (params : SignerParams) (sv : Services) (submit : Proposal → Accept)
    (w : World β) : Pass :=
  maybeSign n params submit sv.rootAt (w.tracker.sync n sv w.chain).2.state w.chain w.signer

section

variable {w w' : World β} {sv : Services} {submit : Proposal → Accept}

theorem WorldOk.ascends (ideal : Ideal n) (hw : WorldOk n w) (params : SignerParams)
    (submit : Proposal → Accept) (hs : (w.tracker.sync n sv w.chain).1 = true) :
    (w.pass n params sv submit).Ascends w.signer.store.lastVote :=
  (maybeSign_journal ideal submit hw.linked hw.bounded ((hw.sync ideal).2 hs) hw.journal).2

/-- No event takes a vote out of the journal, a restart included. -/
theorem WorldOk.lastVote_le (ideal : Ideal n) (hw : WorldOk n w) (h : Step n params w w') :
    w.signer.store.lastVote ≤ w'.signer.store.lastVote := by
  cases h with
  | sign sv submit hs => exact (hw.ascends ideal params submit hs).last _ List.mem_cons_self
  | restart keys ho =>
    have hf := hw.journal.file
    unfold openFile at ho
    grind [lastVote, restartSigner]
  | _ => exact le_rfl

theorem Reachable.lastVote_le (ideal : Ideal n) (hw : Reachable n params w)
    (h : Relation.ReflTransGen (Step n params) w w') :
    Reachable n params w' ∧ w.signer.store.lastVote ≤ w'.signer.store.lastVote := by
  induction h with
  | refl => exact ⟨hw, le_rfl⟩
  | tail _ hstep ih =>
    exact ⟨ih.1.next hstep, ih.2.trans ((ih.1.ok ideal).lastVote_le ideal hstep)⟩

/-- Over a whole run, whatever is connected, disconnected, restarted or recovered between two
passes, the heights a validator signs strictly increase: it never votes twice for a height. -/
theorem votes_strictly_increase (ideal : Ideal n) (hw : Reachable n params w)
    (hs : (w.tracker.sync n sv w.chain).1 = true) (hrun : Relation.ReflTransGen (Step n params)
      ⟨w.chain, (w.tracker.sync n sv w.chain).2, (w.pass n params sv submit).signer⟩ w')
    (sv' : Services) (submit' : Proposal → Accept)
    (hs' : (w'.tracker.sync n sv' w'.chain).1 = true) :
    (w.pass n params sv submit).voted.Pairwise (· < ·) ∧
      ∀ h ∈ (w.pass n params sv submit).voted, ∀ h' ∈ (w'.pass n params sv' submit').voted,
        h < h' := by
  have hpass := (hw.ok ideal).ascends ideal params submit hs
  have hnext : Reachable n params _ := hw.next (.sign sv submit hs)
  obtain ⟨hw', hle⟩ := hnext.lastVote_le ideal hrun
  have hpass' := (hw'.ok ideal).ascends ideal params submit' hs'
  refine ⟨hpass.sorted.tail, fun h hh h' hh' => ?_⟩
  calc h ≤ _ := hpass.last h (.tail _ hh)
    _ ≤ w'.signer.store.lastVote := hle
    _ < h' := (List.pairwise_cons.mp hpass'.sorted).1 h' hh'

end

/-! ## Four validators and two missed epochs

A network of four equal validators with epochs of two blocks. A block carries either no
certificate or one signed by the last three validators, for a height, an epoch and a block
hash. The first validator signs in epoch 0 and then watches the others finalize. -/

namespace Missed

abbrev Body := Option (Nat × Nat × Uint256)

def bodyCode : Body → Nat
  | none => 0
  | some (h, e, x) => Nat.pair h (Nat.pair e x) + 1

def members : List ValidatorSetMember := [⟨1, 1, 1⟩, ⟨2, 2, 1⟩, ⟨3, 3, 1⟩, ⟨4, 4, 1⟩]

def node : Node Body where
  hash b := Nat.pair b.prev (bodyCode b.body) + 1
  matchCertificate body _ := some (body.map fun c => (⟨c.1, c.2.2, 0, c.2.1 + 2, c.2.1⟩, ⟨[14], []⟩))
  fastAggregateVerify _ _ _ := true
  finalityDigest _ fb := fb.height + 1
  setHash s := s.epoch + 1
  snapshotAt _ epoch := some ⟨epoch, members⟩
  pos := ⟨60, 30, 1, 1, 2, 1, 1, 2, 4⟩
  finalHeight := 0
  transitionPowLength := 0
  chainDomain := 7

def noRecoveries : SignerParams := ⟨fun _ => none, []⟩

def services : Services := ⟨fun _ => some 0, fun _ => true, fun _ => true⟩

def fresh : World Body where
  chain := []
  tracker := {}
  signer :=
    { keys := [1]
      validatorKey := 1
      store := { isOpen := true, chainDomain := 7, validatorKey := 1, state := none, file := .absent } }

/-- Connect the block with this body over the tip. -/
def extend (w : World Body) (body : Body) : World Body :=
  let b : Block Body := ⟨(w.chain.head?.map node.hash).getD 0, body⟩
  ⟨b :: w.chain, w.tracker.blockConnected node services b w.chain, w.signer⟩

/-- Connect a block that certifies the block at `h` in epoch `e`. -/
def certify (w : World Body) (h e : Nat) : World Body :=
  extend w (some (h, e, ((blockAt w.chain h).map node.hash).getD 0))

def sign (w : World Body) : World Body :=
  ⟨w.chain, (w.tracker.sync node services w.chain).2,
    (maybeSign node noRecoveries (fun _ => .ACCEPTED) services.rootAt
      (w.tracker.sync node services w.chain).2.state w.chain w.signer).signer⟩

/-- The journal is created at height 1 and height 1 is signed at height 2. -/
def voted : World Body := sign (extend (sign (extend (extend fresh none) none)) none)

/-- The others finalize heights 1, 4 and 5; epoch 2 starts at height 6. -/
def returned : World Body :=
  extend (certify (certify (extend (certify voted 1 0) none) 4 1) 5 1) none

theorem bodyCode_injective : Function.Injective bodyCode := by
  rintro (_ | ⟨h, e, x⟩) (_ | ⟨h', e', x'⟩) heq
  · rfl
  · simp [bodyCode] at heq
  · simp [bodyCode] at heq
  · simpa [bodyCode, Nat.pair_eq_pair] using heq

theorem ideal : Ideal node where
  hash_injective := by
    rintro ⟨p, x⟩ ⟨q, y⟩ heq
    obtain ⟨hp, hb⟩ := Nat.pair_eq_pair.mp (Nat.succ.inj heq)
    exact congrArg₂ _ hp (bodyCode_injective hb)
  hash_ne_zero b := Nat.succ_ne_zero _
  digest_ne_zero _ _ := Nat.succ_ne_zero _
  setHash_ne_zero _ := Nat.succ_ne_zero _

theorem reachable_fresh : Reachable node noRecoveries fresh :=
  .start ⟨rfl, rfl, rfl, rfl, rfl, 7, 1, rfl⟩

theorem step_extend {w : World Body} {body : Body} (hw : Reachable node noRecoveries w)
    (hlen : w.chain.length + 1 ≤ MAX_CHAIN) : Step node noRecoveries w (extend w body) := by
  refine .connect services _ ?_ hlen
  have hl := (hw.ok ideal).linked
  cases hc : w.chain with
  | nil => simp [Linked]
  | cons b below =>
    rw [hc] at hl
    exact ⟨by simp, hl⟩

theorem reachable_extend {w : World Body} {body : Body} (hw : Reachable node noRecoveries w)
    (hlen : w.chain.length + 1 ≤ MAX_CHAIN) : Reachable node noRecoveries (extend w body) :=
  hw.next (step_extend hw hlen)

theorem reachable_sign {w : World Body} (hw : Reachable node noRecoveries w)
    (hs : (w.tracker.sync node services w.chain).1 = true) : Reachable node noRecoveries (sign w) :=
  hw.next (.sign services (fun _ => .ACCEPTED) hs)

theorem reachable_voted : Reachable node noRecoveries voted := by
  have h1 : Reachable node noRecoveries (extend (extend fresh none) none) :=
    reachable_extend (reachable_extend reachable_fresh (by decide +kernel)) (by decide +kernel)
  have h2 : Reachable node noRecoveries (extend (sign (extend (extend fresh none) none)) none) :=
    reachable_extend (reachable_sign h1 (by decide +kernel)) (by decide +kernel)
  exact reachable_sign h2 (by decide +kernel)

theorem reachable_returned : Reachable node noRecoveries returned := by
  have h1 : Reachable node noRecoveries (extend (certify voted 1 0) none) :=
    reachable_extend (reachable_extend reachable_voted (by decide +kernel)) (by decide +kernel)
  exact reachable_extend (reachable_extend (reachable_extend h1 (by decide +kernel))
    (by decide +kernel)) (by decide +kernel)

/-- The tracker state a pass in `w` reads. -/
def seen (w : World Body) : State := (w.tracker.sync node services w.chain).2.state

def pass (w : World Body) : Pass :=
  maybeSign node noRecoveries (fun _ => .ACCEPTED) services.rootAt (seen w) w.chain w.signer

/-- The guard passes and the lock is on the active chain, yet the only proposal, height 6 of
epoch 2 over a lock of epoch 0, is refused and the validator is disabled for good. -/
theorem returned_validator_refused : node.pos.valid = true ∧ Reachable node noRecoveries returned ∧
    (returned.tracker.sync node services returned.chain).1 = true ∧
    ensurePersistentSafety node noRecoveries services.rootAt (seen returned) returned.chain
      returned.signer = (true, returned.signer) ∧
    (returned.signer.store.state.any fun p =>
      (blockAt returned.chain p.lockHeight.toNat).map node.hash = some p.lockBlockHash) = true ∧
    (pass returned).attempts.map (fun a => (a.1.height, a.1.epoch, a.2)) =
      [(6, 2, some "checkpoint does not follow the durable validator-set lineage")] ∧
    (pass returned).signer.permanentError = true := by
  refine ⟨by decide, reachable_returned, ?_, ?_, ?_, ?_, ?_⟩ <;> decide +kernel

/-- One block later in epoch 0 the same validator signs again: the first signable
checkpoint is height 2, in the epoch of the lock. -/
theorem extended_vote_accepted :
    (pass (extend voted none)).attempts.map (fun a => (a.1.height, a.1.epoch, a.2)) =
      [(2, 0, none)] ∧
    FirstSignableFollowsLock node services.rootAt (seen (extend voted none))
      (extend voted none).chain voted.signer := by
  have h : (pass (extend voted none)).attempts.map (fun a => (a.1.height, a.1.epoch, a.2)) =
      [(2, 0, none)] := by decide +kernel
  refine ⟨h, (maybeSign_never_refused_iff ideal
    (reachable_extend reachable_voted (by decide +kernel)) services (fun _ => .ACCEPTED)
    (by decide +kernel) (by decide +kernel)).mp ?_⟩
  intro a ha
  have hmem := List.mem_map_of_mem (f := fun a : Proposal × Option String =>
    (a.1.height, a.1.epoch, a.2)) ha
  change _ ∈ (pass (extend voted none)).attempts.map _ at hmem
  rw [h] at hmem
  simp only [List.mem_singleton, Prod.mk.injEq] at hmem
  exact hmem.2.2

theorem extended_votes_increase :
    let votes w := (w.pass node noRecoveries services fun _ => .ACCEPTED).voted
    2 ∈ votes (extend voted none) ∧ 3 ∈ votes (extend (sign (extend voted none)) none) ∧
      (2 : Int) < 3 := by
  have hw : Reachable node noRecoveries (extend voted none) :=
    reachable_extend reachable_voted (by decide +kernel)
  have hstep : Step node noRecoveries _ (extend (sign (extend voted none)) none) :=
    step_extend (reachable_sign hw (by decide +kernel)) (by decide +kernel)
  intro votes
  have hvote : 2 ∈ votes (extend voted none) := by decide +kernel
  have hnext : 3 ∈ votes (extend (sign (extend voted none)) none) := by decide +kernel
  exact ⟨hvote, hnext, (votes_strictly_increase ideal hw (by decide +kernel) (.single hstep)
    services _ (by decide +kernel)).2 2 hvote 3 hnext⟩

end Missed

end B3Coin.Finality
