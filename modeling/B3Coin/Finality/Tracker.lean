import B3Coin.Finality.Certificate
import B3Coin.Lib.BlockChain
import B3Coin.Lib.Guards

/-!
# The epoch and finality state of a chain

`node/finality_tracker.cpp`. A chain is a newest-first list of blocks; the block
`b` of `b :: below` has height `below.length`. The private stake and binding
trackers are the parameter `snapshotAt`: the validator set recorded by the chain
up to a height. Whether the bridge index can answer for a checkpoint is an
argument of every call, because it may differ from one call to the next.
-/
namespace B3Coin.Finality

open BlockChain List Option

/-- What the finality code reads of the node it runs in: a network whose modern
rules are configured, and the primitives of the crypto and stake libraries. -/
structure Node (β : Type) where
  /-- `GetBlockHash`. -/
  hash : Block β → Uint256
  /-- `MatchFinalityCertificateForEpoch`: `none` is a malformed coinbase. -/
  matchCertificate : β → (Nat → Option Nat) → Option (Option (FinalizedBlock × FinalityCertificate))
  fastAggregateVerify : List BlsPubkey → Uint256 → List UInt8 → Bool
  finalityDigest : Uint256 → FinalizedBlock → Uint256
  setHash : ValidatorSetSnapshot → Uint256
  /-- `SnapshotAt(epoch, height)` on the chain that ends at that height. -/
  snapshotAt : List (Block β) → Nat → Option ValidatorSetSnapshot
  pos : ModernPosParams
  /-- `LegacyFinalHeight`. -/
  finalHeight : Nat
  transitionPowLength : Nat
  chainDomain : Uint256

variable {β : Type}

/-- `ModernPosStartHeight`. -/
def Node.modernStart (n : Node β) : Nat := n.finalHeight + 1 + n.transitionPowLength

structure FinalizedCheckpoint where
  height : Nat
  blockHash : Uint256
  epoch : Nat
  certifiedAt : Nat
  deriving DecidableEq

/-- `FinalityTracker::State`. -/
structure State where
  bootstrapped : Bool := false
  epoch : Nat := 0
  epochStarts : List Nat := []
  bootstrap : Option ValidatorSetSnapshot := none
  previous : Option ValidatorSetSnapshot := none
  current : Option ValidatorSetSnapshot := none
  next : Option ValidatorSetSnapshot := none
  handoverCertified : Bool := false
  lineageBroken : Bool := false
  finalized : Option FinalizedCheckpoint := none
  deriving DecidableEq

def State.setSize (s : State) (epoch : Nat) : Option Nat :=
  if ¬ s.bootstrapped then none
  else if epoch = s.epoch ∧ s.current.isSome then s.current.map (·.size)
  else if s.epoch ≥ 1 ∧ epoch = s.epoch - 1 ∧ s.previous.isSome then s.previous.map (·.size)
  else none

section Rules

variable (n : Node β)

section

variable (rootAt : Nat → Option Uint256) (below : List (Block β)) (b : Block β) (s : State)
  (chain : List (Block β))

/-- `SuccessorSet`: the boundary snapshot, or the current set carried over when the
snapshot is below the floor. -/
def successorSet (below : List (Block β)) : Option ValidatorSetSnapshot :=
  match n.snapshotAt below (s.epoch + 1) with
  | some snap =>
    if snap.size ≥ n.pos.minFinalitySet then some snap
    else s.current.map (·.withEpoch (s.epoch + 1))
  | none => s.current.map (·.withEpoch (s.epoch + 1))

/-- `Projected` at the first modern height: Set 0 and Set 1 come from one snapshot. -/
def bootstrapState : State :=
  match n.snapshotAt below 0 with
  | some snap =>
    if snap.size ≥ n.pos.minFinalitySet then
      { epochStarts := [below.length]
        current := some snap
        bootstrap := some snap
        next := some (snap.withEpoch 1)
        bootstrapped := true }
    else { epochStarts := [below.length] }
  | none => { epochStarts := [below.length] }

section

variable (below : List (Block β)) (fb : FinalizedBlock)

/-- Rotation into the certified successor at the block over `below`. -/
def rotateEpoch : State :=
  let rotated := { s with
    previous := s.current
    current := s.next
    epoch := s.epoch + 1
    epochStarts := s.epochStarts ++ [below.length]
    handoverCertified := false }
  { rotated with next := successorSet n rotated below }

def breakLineage (height : Nat) : State :=
  if s.handoverCertified = false ∧ s.lineageBroken = false ∧
      height - s.epochStarts.getLastD 0 ≥ n.pos.finalityEpochBlocks + n.pos.maxEpochExtension then
    { s with lineageBroken := true }
  else s

/-- `Projected`: the state in force for the block over `below`, before its certificate. -/
def projected : State :=
  let height := below.length
  if height < n.modernStart then s
  else if height = n.modernStart then bootstrapState n below
  else if s.bootstrapped = false ∨ s.epochStarts = [] then s
  else
    let s' := if s.handoverCertified ∧
        height ≥ s.epochStarts.getLastD 0 + n.pos.finalityEpochBlocks then rotateEpoch n s below
      else s
    breakLineage n s' height

inductive CertificatePlacement where
  | OK | NO_FINALITY_SET | LINEAGE_BROKEN | NOT_CHECKPOINT | INSUFFICIENT_DEPTH | EPOCH_WINDOW
  | EPOCH_RELATION | WRONG_BLOCK_HASH | WITHDRAWAL_ROOT_NONZERO | WITHDRAWAL_ROOT_UNAVAILABLE
  | WITHDRAWAL_ROOT_MISMATCH | FINALITY_REGRESSION
  deriving DecidableEq

/-- The rules of `CheckCertificatePlacement`, in order, for a certificate carried by the
tip of `chain`. -/
def placementGuards : List (Bool × CertificatePlacement) :=
  let includingHeight := chain.length - 1
  [(s.epochStarts = [] ∨ (s.current.map (·.size)).getD 0 = 0, .NO_FINALITY_SET),
    (s.lineageBroken, .LINEAGE_BROKEN),
    (fb.height > includingHeight, .INSUFFICIENT_DEPTH),
    (!isCheckpointHeight fb.height (s.epochStarts.headD 0) n.pos.checkpointInterval,
      .NOT_CHECKPOINT),
    (!checkpointDepthSatisfied fb.height includingHeight n.pos.checkpointDepth,
      .INSUFFICIENT_DEPTH),
    (¬ (fb.epoch = s.epoch ∨ (s.epoch ≥ 1 ∧ fb.epoch = s.epoch - 1)), .EPOCH_WINDOW),
    (s.epoch ≥ 1 ∧ fb.epoch = s.epoch - 1 ∧ s.previous = none, .EPOCH_WINDOW),
    (epochOfHeight s.epochStarts fb.height ≠ some fb.epoch, .EPOCH_RELATION),
    ((blockAt chain fb.height).map n.hash ≠ some fb.blockHash, .WRONG_BLOCK_HASH),
    (rootAt fb.height = none, .WITHDRAWAL_ROOT_UNAVAILABLE),
    (rootAt fb.height = some 0 ∧ fb.withdrawalRoot ≠ 0, .WITHDRAWAL_ROOT_NONZERO),
    (rootAt fb.height ≠ some fb.withdrawalRoot, .WITHDRAWAL_ROOT_MISMATCH),
    (s.finalized.any (fun f => fb.height ≤ f.height), .FINALITY_REGRESSION)]

def checkCertificatePlacement : CertificatePlacement :=
  (Guards.first (placementGuards n rootAt s chain fb)).getD .OK

/-- `JudgeFinalityCertificate`: placement first, then the signing set of the epoch. -/
def judgeFinalityCertificate (cert : FinalityCertificate) : Bool :=
  let delayed := fb.epoch ≠ s.epoch
  let successor := ((if delayed then s.current else s.next).map n.setHash).getD 0
  checkCertificatePlacement n rootAt s chain fb = .OK &&
    match (if delayed then s.previous else s.current) with
    | some signing =>
      verifyFinalityCertificate n.fastAggregateVerify (n.finalityDigest n.chainDomain fb) fb cert
        signing successor = .OK
    | none => false

end

/-- `ApplyModern`: project, judge the coinbase certificate, advance finality. -/
def applyModern : Option State :=
  let p := projected n s below
  match n.matchCertificate b.body p.setSize with
  | none => none
  | some none => some p
  | some (some (fb, cert)) =>
    if judgeFinalityCertificate n rootAt p (b :: below) fb cert then
      some { p with
        finalized := some ⟨fb.height, fb.blockHash, fb.epoch, below.length⟩
        handoverCertified := fb.epoch == p.epoch || p.handoverCertified }
    else none

/-- The state a connected block leaves behind; legacy and transition blocks leave it alone. -/
def applyBlock : Option State :=
  if below.length ≥ n.modernStart then applyModern n rootAt below b s else some s

end

/-- `TrackerAt n c s`: some walk over the whole chain `c`, with whatever answers the
bridge index gave on the way, accepts every block and ends in `s`. -/
inductive TrackerAt : List (Block β) → State → Prop where
  | empty : TrackerAt [] {}
  | block {below : List (Block β)} {s s' : State} (rootAt : Nat → Option Uint256) (b : Block β) :
      TrackerAt below s → applyBlock n rootAt below b s = some s' → TrackerAt (b :: below) s'

end Rules

/-! ## One chain, one state -/

variable {n : Node β}

variable {r : Nat → Option Uint256} {below : List (Block β)} {s : State}

/-- The answers of the bridge index decide whether a block is accepted, never what it does. -/
theorem applyBlock_unique {r' : Nat → Option Uint256} {b : Block β}
    {x y : State} (hx : applyBlock n r below b s = some x)
    (hy : applyBlock n r' below b s = some y) : x = y := by
  unfold applyBlock applyModern at hx hy
  split_ifs at hx hy with hm
  · cases hc : n.matchCertificate b.body (projected n s below).setSize with
    | none => simp [hc] at hx
    | some pair =>
      cases pair with
      | none =>
        simp only [hc, some.injEq] at hx hy
        rw [← hx, ← hy]
      | some fc =>
        simp only [hc, ite_none_right_eq_some, some.injEq] at hx hy
        rw [← hx.2, ← hy.2]
  · cases hx
    cases hy
    rfl

variable {c : List (Block β)}

variable {t : State}

theorem TrackerAt.unique (hs : TrackerAt n c s) (ht : TrackerAt n c t) : s = t := by
  induction hs generalizing t with
  | empty => cases ht; rfl
  | block r b _ happly ih =>
    cases ht with
    | block r' _ hbelow happly' =>
      rw [← ih hbelow] at happly'
      exact applyBlock_unique happly happly'

theorem TrackerAt.suffix {c' : List (Block β)} {s' : State} (h : TrackerAt n c' s')
    (hs : c <:+ c') : ∃ s, TrackerAt n c s := by
  induction h with
  | empty => exact ⟨{}, by rw [suffix_nil.mp hs]; exact .empty⟩
  | block r b hbelow happly ih =>
    rcases suffix_cons_iff.mp hs with heq | hs
    · exact ⟨_, by rw [heq]; exact .block r b hbelow happly⟩
    · exact ih hs

variable {s : State}

theorem TrackerAt.legacy (h : TrackerAt n c s) (hc : c.length ≤ n.modernStart) : s = {} := by
  induction h with
  | empty => rfl
  | @block below s s' r b _ happly ih =>
    have hlt : ¬ below.length ≥ n.modernStart := by
      simp only [length_cons] at hc; omega
    simp only [applyBlock, if_neg hlt, some.injEq] at happly
    rw [← happly]
    exact ih (by simp only [length_cons] at hc; omega)

/-! ## What one block can do -/

/-- What a block at height `height` does to the epoch table and the sets: nothing, the
bootstrap at the first modern height, or one rotation. -/
inductive EpochStep (n : Node β) (height : Nat) (s t : State) : Prop where
  | stay : height ≠ n.modernStart → t.bootstrapped = s.bootstrapped → t.epoch = s.epoch →
      t.epochStarts = s.epochStarts → t.previous = s.previous → t.current = s.current → t.next = s.next →
      EpochStep n height s t
  | start : height = n.modernStart → t.epoch = 0 → t.epochStarts = [height] →
      EpochStep n height s t
  | rotate : n.modernStart < height → s.bootstrapped = true → t.bootstrapped = true →
      t.epoch = s.epoch + 1 →
      t.epochStarts = s.epochStarts ++ [height] → t.previous = s.current → t.current = s.next →
      EpochStep n height s t

theorem bootstrapState_epoch (below : List (Block β)) : (bootstrapState n below).epoch = 0 ∧
      (bootstrapState n below).epochStarts = [below.length] := by
  unfold bootstrapState
  split
  · split_ifs <;> exact ⟨rfl, rfl⟩
  · exact ⟨rfl, rfl⟩

theorem breakLineage_epochs (s : State) (height : Nat) :
    (breakLineage n s height).bootstrapped = s.bootstrapped ∧
    (breakLineage n s height).epoch = s.epoch ∧
      (breakLineage n s height).epochStarts = s.epochStarts ∧
      (breakLineage n s height).previous = s.previous ∧
      (breakLineage n s height).current = s.current ∧
      (breakLineage n s height).next = s.next := by
  unfold breakLineage
  split_ifs <;> simp

theorem projected_epochStep (s : State) (below : List (Block β)) :
    EpochStep n below.length s (projected n s below) := by
  simp only [projected]
  split_ifs with hlow hstart hboot hrot
  · exact .stay (by omega) rfl rfl rfl rfl rfl rfl
  · exact .start hstart (bootstrapState_epoch below).1 (bootstrapState_epoch below).2
  · exact .stay hstart rfl rfl rfl rfl rfl rfl
  · have hb : s.bootstrapped = true := by
      cases hb : s.bootstrapped with
      | true => rfl
      | false => exact absurd (Or.inl hb) hboot
    obtain ⟨h0, h1, h2, h3, h4, _⟩ :=
      breakLineage_epochs (n := n) (rotateEpoch n s below) below.length
    exact .rotate (by omega) hb (h0.trans hb) h1 h2 h3 h4
  · obtain ⟨h0, h1, h2, h3, h4, h5⟩ := breakLineage_epochs (n := n) s below.length
    exact .stay hstart h0 h1 h2 h3 h4 h5

theorem applyBlock_epochStep {b : Block β}
    (h : applyBlock n r below b s = some t) : EpochStep n below.length s t := by
  unfold applyBlock applyModern at h
  split_ifs at h
  · have hp := projected_epochStep (n := n) s below
    cases hc : n.matchCertificate b.body (projected n s below).setSize with
    | none => simp [hc] at h
    | some pair =>
      cases pair with
      | none =>
        simp only [hc, some.injEq] at h
        rw [← h]
        exact hp
      | some fc =>
        simp only [hc, ite_none_right_eq_some, some.injEq] at h
        -- the certificate only touches `finalized` and the handover flag
        rw [← h.2]
        cases hp with
        | stay h h0 h1 h2 h3 h4 h5 => exact .stay h h0 h1 h2 h3 h4 h5
        | start h0 h1 h2 => exact .start h0 h1 h2
        | rotate h0 h1 h2 h3 h4 h5 h6 => exact .rotate h0 h1 h2 h3 h4 h5 h6
  · cases h
    exact .stay (by omega) rfl rfl rfl rfl rfl rfl

/-! ## The epoch table along a chain -/

/-- One table entry per epoch from the first modern height on, none of them above the tip. -/
structure EpochTable (n : Node β) (height : Nat) (s : State) : Prop where
  head : s.epochStarts.head? = some n.modernStart
  length : s.epochStarts.length = s.epoch + 1
  started : ∀ x ∈ s.epochStarts, x ≤ height
  epoch_le : s.epoch ≤ height

theorem TrackerAt.epochTable (h : TrackerAt n c s)
    (hc : n.modernStart < c.length) : EpochTable n (c.length - 1) s := by
  induction h with
  | empty => simp at hc
  | @block below s t r b hbelow happly ih =>
    simp only [length_cons, Nat.add_sub_cancel]
    cases applyBlock_epochStep happly with
    | start hstart hepoch hstarts =>
      exact ⟨by simp [hstarts, hstart], by rw [hstarts, hepoch]; rfl, by simp [hstarts], by omega⟩
    | stay hne _ hepoch hstarts _ _ _ =>
      have hi := ih (by simp only [length_cons] at hc; omega)
      refine ⟨hstarts ▸ hi.head, by rw [hstarts, hepoch]; exact hi.length, ?_, ?_⟩
      · intro x hx
        have := hi.started x (by rwa [hstarts] at hx)
        omega
      · have := hi.epoch_le
        omega
    | rotate hlow _ _ hepoch hstarts _ _ =>
      have hi := ih hlow
      refine ⟨by simp [hstarts, hi.head], by simp [hstarts, hepoch, hi.length], ?_, ?_⟩
      · intro x hx
        rw [hstarts] at hx
        rcases mem_append.mp hx with hx | hx
        · have := hi.started x hx
          omega
        · simp only [mem_singleton] at hx
          omega
      · have := hi.epoch_le
        omega

/-- How the state of a longer chain relates to the state at one of its blocks: the
epoch table has only grown by later starts, and as long as at most one rotation
happened since, the sets of that block's epoch are still among the tracked ones. -/
structure Extends (height : Nat) (s t : State) (later : List Nat) : Prop where
  starts : t.epochStarts = s.epochStarts ++ later
  above : ∀ x ∈ later, height < x
  epoch : t.epoch = s.epoch + later.length
  same : later = [] → t.current = s.current ∧ t.next = s.next
  once : later.length = 1 → t.previous = s.current ∧ t.current = s.next

theorem TrackerAt.extends {c' : List (Block β)} {s' : State} (h' : TrackerAt n c' s')
    (h : TrackerAt n c s) (hs : c <:+ c') (hc : n.modernStart < c.length) :
    ∃ later, Extends (c.length - 1) s s' later := by
  induction h' with
  | empty =>
    rw [suffix_nil.mp hs] at hc
    simp at hc
  | @block below t t' r b hbelow happly ih =>
    rcases suffix_cons_iff.mp hs with heq | hs
    · have hst : s = t' := h.unique (by rw [heq]; exact .block r b hbelow happly)
      exact ⟨[], by simp [hst], by simp, by simp [hst], fun _ => by simp [hst], by simp⟩
    · obtain ⟨later, hl⟩ := ih hs
      have hlen := hs.length_le
      cases applyBlock_epochStep happly with
      | start hstart _ _ => omega
      | stay _ _ hepoch hstarts hprev hcur hnext =>
        refine ⟨later, hstarts.trans hl.starts, hl.above, hepoch.trans hl.epoch, ?_, ?_⟩
        · intro hz
          exact ⟨hcur.trans (hl.same hz).1, hnext.trans (hl.same hz).2⟩
        · intro hz
          exact ⟨hprev.trans (hl.once hz).1, hcur.trans (hl.once hz).2⟩
      | rotate _ _ _ hepoch hstarts hprev hcur =>
        refine ⟨later ++ [below.length], by rw [hstarts, hl.starts, append_assoc], ?_, ?_,
          by simp, ?_⟩
        · intro x hx
          rcases mem_append.mp hx with hx | hx
          · exact hl.above x hx
          · simp only [mem_singleton] at hx
            omega
        · rw [hepoch, hl.epoch, length_append, length_singleton, Nat.add_assoc]
        · intro hz
          have hnil : later = [] := by
            simpa using hz
          exact ⟨hprev.trans (hl.same hnil).1, hcur.trans (hl.same hnil).2⟩

/-- The epoch a longer chain assigns to a block is the epoch in force at that block. -/
theorem epochOfHeight_extends {height : Nat} {later : List Nat}
    (ht : EpochTable n height s) (he : Extends height s t later) :
    epochOfHeight t.epochStarts height = some s.epoch := by
  have hne : s.epochStarts ≠ [] := by
    intro hnil
    have := ht.length
    simp [hnil] at this
  rw [he.starts, epochOfHeight_append hne ht.started he.above, ht.length, Nat.add_sub_cancel]

variable {chain : List (Block β)}

theorem placement_ok {fb : FinalizedBlock} (h : checkCertificatePlacement n r s chain fb = .OK) :
    fb.height ≤ chain.length - 1 ∧ s.epochStarts.headD 0 ≤ fb.height ∧
      epochOfHeight s.epochStarts fb.height = some fb.epoch := by
  have hpass : ∀ g ∈ placementGuards n r s chain fb, g.1 = false :=
    (Guards.first_getD_eq (by simp [placementGuards])).mp h
  have hdeep := hpass (decide (fb.height > chain.length - 1), .INSUFFICIENT_DEPTH)
    (by simp [placementGuards])
  have hcp := hpass (!isCheckpointHeight fb.height (s.epochStarts.headD 0)
    n.pos.checkpointInterval, .NOT_CHECKPOINT) (by simp [placementGuards])
  have hrel := hpass (decide (epochOfHeight s.epochStarts fb.height ≠ some fb.epoch),
    .EPOCH_RELATION) (by simp [placementGuards])
  simp only [isCheckpointHeight, Bool.not_eq_eq_eq_not, Bool.not_false, Bool.and_eq_true,
    decide_eq_true_eq, decide_eq_false_iff_not, Decidable.not_not] at hdeep hcp hrel
  exact ⟨by omega, hcp.1.2, hrel⟩

theorem judge_placement {fb : FinalizedBlock} {cert : FinalityCertificate}
    (h : judgeFinalityCertificate n r s chain fb cert = true) :
    checkCertificatePlacement n r s chain fb = .OK := by
  simp only [judgeFinalityCertificate, Bool.and_eq_true, decide_eq_true_eq] at h
  exact h.1

theorem epochOfHeight_concat {starts : List Nat} {x height : Nat} (h : height < x) :
    epochOfHeight (starts ++ [x]) height = epochOfHeight starts height := by
  have hx : [x].takeWhile (· ≤ height) = [] := by simp [h]
  cases starts with
  | nil => simp [epochOfHeight, h]
  | cons first rest =>
    simp only [cons_append, epochOfHeight, takeWhile_append, hx, append_nil]
    split_ifs with _ hall
    · rfl
    · rw [hall]
    · rfl

theorem projected_finalized (s : State) (below : List (Block β)) :
    (projected n s below).finalized = s.finalized ∨ (projected n s below).finalized = none := by
  have hbreak : ∀ (t : State) (h : Nat), (breakLineage n t h).finalized = t.finalized := by
    intro t h
    unfold breakLineage
    split_ifs <;> rfl
  simp only [projected]
  split_ifs with _ _ _ _
  · exact .inl rfl
  · refine .inr ?_
    unfold bootstrapState
    split
    · split_ifs <;> rfl
    · rfl
  · exact .inl rfl
  · exact .inl (hbreak _ _)
  · exact .inl (hbreak _ _)

/-- The finalized checkpoint lies on the chain, in the epoch the table gives its height. -/
theorem TrackerAt.finalized (h : TrackerAt n c s) :
    ∀ f, s.finalized = some f → n.modernStart ≤ f.height ∧ f.height < c.length ∧
      epochOfHeight s.epochStarts f.height = some f.epoch := by
  induction h with
  | empty => intro f hf; simp at hf
  | @block below s t r b hbelow happly ih =>
    intro f hf
    by_cases hlow : below.length < n.modernStart
    · have ht : t = {} := (TrackerAt.block r b hbelow happly).legacy hlow
      simp [ht] at hf
    have htable := (TrackerAt.block r b hbelow happly).epochTable
      (by simp only [length_cons]; omega)
    have hstarts : (t.epochStarts = s.epochStarts ∨ t.epochStarts = s.epochStarts ++ [below.length])
        ∨ below.length = n.modernStart := by
      cases applyBlock_epochStep happly with
      | stay _ _ _ h _ _ _ => exact .inl (.inl h)
      | start h _ _ => exact .inr h
      | rotate _ _ _ _ h _ _ => exact .inl (.inr h)
    -- an inherited checkpoint keeps its epoch, because a new start lies above it
    have hold : s.finalized = some f → n.modernStart ≤ f.height ∧ f.height < below.length + 1 ∧
        epochOfHeight t.epochStarts f.height = some f.epoch := by
      intro hs
      obtain ⟨h1, h2, h3⟩ := ih f hs
      refine ⟨h1, by omega, ?_⟩
      rcases hstarts with (he | he) | he
      · rw [he]; exact h3
      · rw [he, epochOfHeight_concat h2]; exact h3
      · omega
    unfold applyBlock at happly
    rw [if_pos (by omega)] at happly
    simp only [applyModern] at happly
    cases hm : n.matchCertificate b.body (projected n s below).setSize with
    | none => simp [hm] at happly
    | some pair =>
      cases pair with
      | none =>
        simp only [hm, some.injEq] at happly
        rw [← happly] at hf
        rcases projected_finalized (n := n) s below with hp | hp
        · exact hold (by rw [← hp]; exact hf)
        · simp [hp] at hf
      | some fc =>
        simp only [hm, ite_none_right_eq_some, some.injEq] at happly
        obtain ⟨hj, ht⟩ := happly
        obtain ⟨h1, h2, h3⟩ := placement_ok (judge_placement hj)
        have hs : t.epochStarts = (projected n s below).epochStarts := by rw [← ht]
        have hfe : f = ⟨fc.1.height, fc.1.blockHash, fc.1.epoch, below.length⟩ := by
          rw [← ht] at hf
          simpa using hf.symm
        have hhead : (projected n s below).epochStarts.headD 0 = n.modernStart := by
          rw [← hs, headD_eq_head?_getD, htable.head]
          rfl
        simp only [length_cons, Nat.add_sub_cancel] at h1
        rw [hfe, hs]
        exact ⟨by rw [← hhead]; exact h2, by simp only [length_cons]; omega, h3⟩

end B3Coin.Finality
