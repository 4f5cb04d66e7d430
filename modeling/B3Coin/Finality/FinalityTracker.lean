import B3Coin.Finality.BindingIndex
import B3Coin.Finality.EpochLaws
import B3Coin.Finality.Sync
import B3Coin.Finality.ValidatorSet
import B3Coin.Stake.Tracker

/-!
# The finality tracker with its private trackers

`FinalityTracker` of `node/finality_tracker.cpp` as the object it is: next to the
epoch state it owns a stake tracker and a binding tracker, steps them with every
block and takes its snapshots from them. It is shown to hold the state of the chain
it is synced to, where the snapshots are those of the chain itself, whatever calls
came before.
-/
namespace B3Coin.Finality

open List ChainTracker.Tracker

open BlockChain (Linked blockAt upTo)
open ChainTracker (Replay)
open KeyBinding (FinalityBindingIndex)
open Stake (ChainBlock StakeMap activeWeights)

variable {G₁ G₂ : Type} [AddCommGroup G₁] [Zero G₂]

/-- A network whose modern rules are configured, with the primitives the tracker uses. -/
structure FinalityEnv (G₁ G₂ : Type) [AddCommGroup G₁] [Zero G₂] where
  hash : ChainBlock → Uint256
  txid : CTransaction → Uint256
  matchCertificate : List CTransaction → (Nat → Option Nat) →
    Option (Option (FinalizedBlock × FinalityCertificate))
  bls : Bls G₁ G₂
  keccak : Codec.Bytes → Uint256
  sha256 : Codec.Bytes → Uint256
  binding : KeyBinding.Crypto
  pos : ModernPosParams
  finalHeight : Nat
  transitionPowLength : Nat
  chainDomain : Uint256

namespace FinalityEnv

variable (E : FinalityEnv G₁ G₂)

/-- The rules over given snapshots. -/
def node (snapshotAt : List ChainBlock → Nat → Option ValidatorSetSnapshot) :
    Node (List CTransaction) where
  hash := E.hash
  matchCertificate := E.matchCertificate
  fastAggregateVerify := E.bls.fastAggregateVerify
  finalityDigest := Finality.finalityDigest E.sha256
  setHash s := validatorSetHash E.keccak (headerOf E.bls E.keccak s)
  snapshotAt := snapshotAt
  pos := E.pos
  finalHeight := E.finalHeight
  transitionPowLength := E.transitionPowLength
  chainDomain := E.chainDomain

def modernStart : Nat := E.finalHeight + 1 + E.transitionPowLength

def stakeReplay : Replay (List CTransaction) StakeMap :=
  Stake.stakeReplay E.txid E.hash E.finalHeight

/-- The `FinalityBindingTracker`: a block is verified against the index and then connected. -/
def bindingReplay : Replay (List CTransaction) FinalityBindingIndex where
  hash := E.hash
  finalHeight := E.finalHeight
  init := {}
  apply below b index :=
    match KeyBinding.verifyBlockFinalityBindings E.binding E.chainDomain b.body below.length index with
    | .error _ => none
    | .ok transitions =>
      if transitions = [] then some index else index.connectBlock below.length transitions

/-- `ValidatorSetSnapshot::BuildAt`. -/
def buildAt (epoch : Nat) (stakes : StakeMap) (height : Int) (bindings : FinalityBindingIndex) :
    Option ValidatorSetSnapshot :=
  (build E.bls E.keccak epoch (activeWeights stakes height).1
    (bindings.byValidator.mapValues fun r => ⟨r.blsPubkey⟩)).map (·.snapshot)

/-- The snapshot at the tip of a chain, from the stake and the bindings of that chain. -/
def chainSnapshot (chain : List ChainBlock) (epoch : Nat) : Option ValidatorSetSnapshot :=
  match E.stakeReplay.run chain, E.bindingReplay.run chain with
  | some stakes, some bindings => E.buildAt epoch stakes (chain.length - 1 : Int) bindings
  | _, _ => none

/-- The rules over the snapshots of the chain itself. -/
def chainNode : Node (List CTransaction) := E.node E.chainSnapshot

end FinalityEnv

structure FinalityTracker where
  state : State := {}
  stakes : ChainTracker.Tracker StakeMap
  bindings : ChainTracker.Tracker FinalityBindingIndex
  syncedTip : Uint256 := 0
  syncedHeight : Int := -1
  dirty : Bool := true

/-- What one `Sync` sees of the rest of the node: the answers of the bridge index, which blocks it
can read back, and which ones the private trackers can, when they are stepped at a height. -/
structure SyncServices where
  rootAt : Nat → Option Uint256
  read : Nat → Bool
  stakeRead : Nat → Nat → Bool
  bindingRead : Nat → Nat → Bool

namespace FinalityTracker

variable (E : FinalityEnv G₁ G₂) (t : FinalityTracker)

def fresh : FinalityTracker where
  stakes := ChainTracker.Tracker.fresh E.stakeReplay
  bindings := ChainTracker.Tracker.fresh E.bindingReplay

def synced (tipHash : Uint256) : Bool := !t.dirty && t.syncedTip == tipHash

def markDirty : FinalityTracker := { t with dirty := true }

/-- `Reset`: the private trackers are marked dirty but keep what they hold. -/
def reset : FinalityTracker where
  stakes := t.stakes.markDirty
  bindings := t.bindings.markDirty

/-- `SnapshotAt`. -/
def snapshotAt (epoch : Nat) (height : Int) : Option ValidatorSetSnapshot :=
  E.buildAt epoch t.stakes.state height t.bindings.state

/-- The rules for the block over `below`, with snapshots from the private trackers. -/
def node (below : List ChainBlock) : Node (List CTransaction) :=
  E.node fun _ epoch => t.snapshotAt E epoch (below.length - 1 : Int)

/-- `Projected`. -/
def projected (below : List ChainBlock) : State :=
  if below.length < E.modernStart then t.state
  -- the tracker has to be at the height below the block
  else if t.syncedHeight ≠ (below.length - 1 : Int) then t.state
  else Finality.projected (t.node E below) t.state below

section

variable (rootAt : Nat → Option Uint256) (b : ChainBlock) (below : List ChainBlock)

/-- `ApplyModern`. -/
def applyModern : Option FinalityTracker :=
  (certify (t.node E below) rootAt (t.projected E below) b below).map fun s => { t with state := s }

/-- Blocks before the first modern height leave the state alone. -/
def applyBlock : Option FinalityTracker :=
  if E.modernStart ≤ below.length then t.applyModern E rootAt b below else some t

end

/-- `StepTrackers`; `files` is there if it may read the chain. -/
def stepTrackers (files : Option SyncServices) (b : ChainBlock) (below : List ChainBlock) :
    Bool × FinalityTracker :=
  let parent := below.head?.map E.hash
  if parent.any (fun h => t.stakes.synced h && t.bindings.synced h) then
    let t' := { t with
      stakes := t.stakes.blockConnected E.stakeReplay b below
      bindings := t.bindings.blockConnected E.bindingReplay b below }
    (t'.stakes.synced (E.hash b) && t'.bindings.synced (E.hash b), t')
  else match files with
    | none => (false, t)
    | some sv =>
      let x := t.stakes.sync E.stakeReplay (sv.stakeRead below.length) (b :: below)
      if x.1 = false then (false, { t with stakes := x.2 })
      else
        let y := t.bindings.sync E.bindingReplay (sv.bindingRead below.length) (b :: below)
        (y.1 && x.2.synced (E.hash b) && y.2.synced (E.hash b),
          { t with stakes := x.2, bindings := y.2 })

/-- One round of the loop of `Sync`; an error carries the tracker as it is left. -/
def syncBlock (sv : SyncServices) (b : ChainBlock) (below : List ChainBlock) :
    Except FinalityTracker FinalityTracker :=
  if sv.read below.length = false then .error t
  else match t.applyBlock E sv.rootAt b below with
    | none => .error t
    | some t' =>
      let x := t'.stepTrackers E (some sv) b below
      if x.1 then .ok { x.2 with syncedTip := E.hash b, syncedHeight := below.length }
      else .error x.2

/-- The loop over the heights from `start` to the tip. -/
def walk (sv : SyncServices) (start : Nat) : List ChainBlock → Except FinalityTracker FinalityTracker
  | [] => .ok t
  | b :: below =>
    if below.length < start then .ok t
    else (walk sv start below).bind fun t' => t'.syncBlock E sv b below

def resumes (chain : List ChainBlock) : Bool :=
  !t.dirty && decide ((E.finalHeight : Int) ≤ t.syncedHeight) &&
    (blockAt chain t.syncedHeight.toNat).map E.hash == some t.syncedTip

/-- The first height of the loop and the tracker it starts with. -/
def startOf (chain : List ChainBlock) : Nat × FinalityTracker :=
  if t.resumes E chain then (t.syncedHeight.toNat + 1, t)
  else (E.finalHeight + 1,
    { t.reset with
      syncedTip := ((blockAt chain E.finalHeight).map E.hash).getD 0
      syncedHeight := E.finalHeight })

/-- `Sync` to the tip of `chain`. -/
def sync (sv : SyncServices) : List ChainBlock → Bool × FinalityTracker
  | [] => (false, t)
  | tip :: below =>
    if t.synced (E.hash tip) then (true, t)
    else
      let start := t.startOf E (tip :: below)
      match start.2.walk E sv start.1 (tip :: below) with
      | .error t' => (false, t'.reset)
      | .ok t' =>
        (true, { t' with syncedTip := E.hash tip, syncedHeight := below.length, dirty := false })

/-- `BlockConnected`. -/
def blockConnected (rootAt : Nat → Option Uint256) (b : ChainBlock) (below : List ChainBlock) :
    FinalityTracker :=
  if below.length ≤ E.finalHeight then t
  else if t.dirty ∨ below.head?.map E.hash ≠ some t.syncedTip then t.markDirty
  else match t.applyBlock E rootAt b below with
    | none => t.markDirty
    | some t' =>
      let x := t'.stepTrackers E none b below
      if x.1 then { x.2 with syncedTip := E.hash b, syncedHeight := below.length } else x.2.markDirty

/-- What is called on a tracker; `BlockDisconnected` marks it dirty. -/
inductive Call where
  | blockConnected (rootAt : Nat → Option Uint256) (b : ChainBlock) (below : List ChainBlock)
  | blockDisconnected
  | sync (sv : SyncServices) (chain : List ChainBlock)

def Call.chain : Call → List ChainBlock
  | .blockConnected _ b below => b :: below
  | .blockDisconnected => []
  | .sync _ chain => chain

/-- The answers of the bridge index during a call. -/
def Call.rootAt : Call → Nat → Option Uint256
  | .blockConnected rootAt _ _ => rootAt
  | .blockDisconnected => fun _ => none
  | .sync sv _ => sv.rootAt

def call (t : FinalityTracker) : Call → FinalityTracker
  | .blockConnected rootAt b below => t.blockConnected E rootAt b below
  | .blockDisconnected => t.markDirty
  | .sync sv chain => (t.sync E sv chain).2

/-- The tracker after some calls. -/
def after (calls : List Call) : FinalityTracker := calls.foldl (call E) (fresh E)

end FinalityTracker

/-! ## The walk behind a state -/

/-- A walk over the chain that accepts every block and ends in the state, where the bridge index
gave answers that `answers` allows for the block they were given for. -/
inductive Walk {β : Type} (n : Node β)
    (answers : List (BlockChain.Block β) → (Nat → Option Uint256) → Prop) :
    List (BlockChain.Block β) → State → Prop where
  | empty : Walk n answers [] {}
  | block {below : List (BlockChain.Block β)} {s s' : State} (rootAt : Nat → Option Uint256)
      (b : BlockChain.Block β) : Walk n answers below s → applyBlock n rootAt below b s = some s' →
      (n.modernStart ≤ below.length → answers (b :: below) rootAt) → Walk n answers (b :: below) s'

section Walks

variable {β : Type} {n : Node β}
  {answers : List (BlockChain.Block β) → (Nat → Option Uint256) → Prop}

variable {c : List (BlockChain.Block β)} {s : State}

theorem Walk.trackerAt (h : Walk n answers c s) : TrackerAt n c s := by
  induction h with
  | empty => exact .empty
  | block rootAt b _ happly _ ih => exact .block rootAt b ih happly

theorem Walk.legacy : ∀ {c : List (BlockChain.Block β)}, c.length ≤ n.modernStart → Walk n answers c {}
  | [], _ => .empty
  | b :: below, hc => by
    rw [length_cons] at hc
    refine .block (fun _ => none) b (Walk.legacy (by omega)) ?_ fun h => by omega
    unfold applyBlock
    rw [if_neg (by omega)]

theorem Walk.suffix {c' : List (BlockChain.Block β)} {s' : State} (h : Walk n answers c' s')
    (hs : c <:+ c') : ∃ s, Walk n answers c s := by
  induction h with
  | empty => exact ⟨{}, by rw [suffix_nil.mp hs]; exact .empty⟩
  | block r b hbelow happly hr ih =>
    rcases suffix_cons_iff.mp hs with heq | hs
    · exact ⟨_, by rw [heq]; exact .block r b hbelow happly hr⟩
    · exact ih hs

variable {r r' : Nat → Option Uint256} {chain : List (BlockChain.Block β)}

theorem judge_congr {p : State}
    {fb : FinalizedBlock} {cert : FinalityCertificate} (h : r fb.height = r' fb.height) :
    judgeFinalityCertificate n r p chain fb cert = judgeFinalityCertificate n r' p chain fb cert := by
  have hguards : placementGuards n r p chain fb = placementGuards n r' p chain fb := by
    unfold placementGuards
    rw [h]
  unfold judgeFinalityCertificate checkCertificatePlacement
  rw [hguards]

theorem placement_root {fb : FinalizedBlock} (h : checkCertificatePlacement n r s chain fb = .OK) :
    r fb.height = some fb.withdrawalRoot := by
  have hpass : ∀ g ∈ placementGuards n r s chain fb, g.1 = false :=
    (Guards.first_getD_eq (by simp [placementGuards])).mp h
  have hroot := hpass (decide (r fb.height ≠ some fb.withdrawalRoot), .WITHDRAWAL_ROOT_MISMATCH)
    (by simp [placementGuards])
  simpa using hroot

/-- A block accepted with some answers is accepted with any that repeat them. -/
theorem certify_of_answers {p : State} {b : BlockChain.Block β}
    {below : List (BlockChain.Block β)} (h : certify n r p b below = some s)
    (hr : ∀ h x, h ≤ below.length → r h = some x → r' h = some x) :
    certify n r' p b below = some s := by
  cases certify_step h with
  | plain hmatch =>
    unfold certify
    rw [hmatch]
  | certificate fb cert hmatch hjudge =>
    have hplaced := judge_placement hjudge
    have hroot := placement_root hplaced
    have hlow : fb.height ≤ below.length := by simpa using (placement_ok hplaced).1
    unfold certify
    rw [hmatch]
    dsimp only
    rw [if_pos]
    rwa [← judge_congr (hroot.trans (hr _ _ hlow hroot).symm)]

end Walks

/-! ## The snapshots of the private trackers -/

namespace FinalityTracker

variable {E : FinalityEnv G₁ G₂} {t : FinalityTracker}

/-- True of the private trackers at all times. -/
structure Held (E : FinalityEnv G₁ G₂) (t : FinalityTracker) : Prop where
  stakes : t.stakes.Faithful E.stakeReplay
  bindings : t.bindings.Faithful E.bindingReplay
  /-- Even a stale tracker holds no stake from below the modern era. -/
  young : ∀ o e, t.stakes.state.find? o = some e → (E.finalHeight : Int) < e.creationHeight

/-- The tracker is in step with a chain. -/
structure At (E : FinalityEnv G₁ G₂)
    (answers : List ChainBlock → (Nat → Option Uint256) → Prop) (c : List ChainBlock)
    (t : FinalityTracker) : Prop where
  held : Held E t
  walk : Walk E.chainNode answers c t.state
  height : t.syncedHeight = (c.length - 1 : Int)
  stepped : ∀ tip below, c = tip :: below → E.finalHeight < below.length →
    t.stakes.synced (E.hash tip) = true ∧ t.bindings.synced (E.hash tip) = true

variable {stakes : StakeMap}

variable {height : Int}

theorem activeWeights_young (h : ∀ o e, stakes.find? o = some e → height < e.creationHeight) :
    activeWeights stakes height = (∅, 0) := by
  have hskip : ∀ l : List Stake.Entry, (∀ e ∈ l, height < e.creationHeight) → ∀ w,
      l.foldl (Stake.addWeight height) w = w := by
    intro l
    induction l with
    | nil => exact fun _ _ => rfl
    | cons e l ih =>
      intro hl w
      have hpending : Stake.isStakeMature e.creationHeight height = false := by
        have := hl e mem_cons_self
        rw [Stake.isStakeMature, decide_eq_false_iff_not, Stake.STAKE_ACTIVATION_DEPTH]
        omega
      rw [foldl_cons, Stake.addWeight, hpending]
      exact ih (fun x hx => hl x (mem_cons_of_mem _ hx)) w
  refine hskip _ (fun e he => ?_) _
  obtain ⟨⟨o, e'⟩, hmem, rfl⟩ := mem_map.mp he
  exact h o e' (OrderedMap.find?_eq_some.mpr hmem)

theorem addStake_young {tx : CTransaction} {x : CTxOut × Nat}
    {finalHeight : Int} (hheight : finalHeight < height)
    (h : ∀ o e, stakes.find? o = some e → finalHeight < e.creationHeight) (o : FlowMesh.COutPoint)
    (e : Stake.Entry) (he : (Stake.addStake E.txid tx height stakes x).find? o = some e) :
    finalHeight < e.creationHeight := by
  unfold Stake.addStake at he
  split at he
  · exact h o e he
  · rw [OrderedMap.find?_emplace, Option.or_eq_some_iff] at he
    rcases he with hold | ⟨-, hnew⟩
    · exact h o e hold
    · split_ifs at hnew
      cases hnew
      exact hheight

theorem applyBlock_young {finalHeight : Int} (hheight : finalHeight < height)
    (vtx : List CTransaction)
    (h : ∀ o e, stakes.find? o = some e → finalHeight < e.creationHeight) :
    ∀ o e, (Stake.applyBlock E.txid height vtx stakes).find? o = some e →
      finalHeight < e.creationHeight := by
  unfold Stake.applyBlock
  induction vtx generalizing stakes with
  | nil => exact h
  | cons tx vtx ih =>
    refine ih ?_
    unfold Stake.applyTransaction
    have herased : ∀ o e, (stakes.eraseAll (Coins.spends tx)).find? o = some e →
        finalHeight < e.creationHeight := by
      intro o e he
      rw [OrderedMap.find?_eraseAll] at he
      split_ifs at he
      exact h o e he
    generalize stakes.eraseAll (Coins.spends tx) = kept at herased
    generalize tx.vout.zipIdx = xs
    induction xs generalizing kept with
    | nil => exact herased
    | cons x xs ihx => exact ihx _ (addStake_young hheight herased)

variable {bindings : FinalityBindingIndex}

theorem chainSnapshot_eq {chain : List ChainBlock} (hstakes : E.stakeReplay.run chain = some stakes)
    (hbindings : E.bindingReplay.run chain = some bindings) (epoch : Nat) :
    E.chainSnapshot chain epoch = E.buildAt epoch stakes (chain.length - 1 : Int) bindings := by
  unfold FinalityEnv.chainSnapshot
  rw [hstakes, hbindings]

theorem buildAt_empty {epoch : Nat} (h : activeWeights stakes height = (∅, 0)) :
    E.buildAt epoch stakes height bindings = none := by
  unfold FinalityEnv.buildAt
  rw [h]
  rfl

section Injective

variable {answers : List ChainBlock → (Nat → Option Uint256) → Prop} {c : List ChainBlock}
variable (inj : Function.Injective E.hash) (nonnull : ∀ b, E.hash b ≠ 0)
include inj nonnull

section

variable (h : At E answers c t) (hl : Linked E.hash c)

include h hl

/-- The private trackers hold the replay of the chain the tracker is in step with. -/
theorem At.replay (hlong : E.finalHeight + 1 < c.length) :
    E.stakeReplay.run c = some t.stakes.state ∧ E.bindingReplay.run c = some t.bindings.state := by
  cases c with
  | nil => cases hlong
  | cons tip below =>
    obtain ⟨hstakes, hbindings⟩ := h.stepped tip below rfl (by simpa using hlong)
    exact ⟨h.held.stakes.run_eq (R := E.stakeReplay) inj nonnull hl hstakes,
      h.held.bindings.run_eq (R := E.bindingReplay) inj nonnull hl hbindings⟩

/-- A snapshot taken from the private trackers is that of the chain. At the last legacy height they
may be stale, but there is no mature stake then. -/
theorem At.snapshot (hlong : E.finalHeight < c.length)
    (epoch : Nat) : t.snapshotAt E epoch (c.length - 1 : Int) = E.chainSnapshot c epoch := by
  unfold snapshotAt
  by_cases hmodern : E.finalHeight + 1 < c.length
  · obtain ⟨hstakes, hbindings⟩ := h.replay inj nonnull hl hmodern
    rw [chainSnapshot_eq hstakes hbindings]
  · have hshort : c.length ≤ E.finalHeight + 1 := by omega
    rw [chainSnapshot_eq (run_of_short (R := E.stakeReplay) hshort)
      (run_of_short (R := E.bindingReplay) hshort), buildAt_empty, buildAt_empty]
    · rfl
    · refine activeWeights_young fun o e he => ?_
      have := h.held.young o e he
      omega

theorem At.projected_eq (hlong : E.finalHeight < c.length) :
    t.projected E c = Finality.projected E.chainNode t.state c := by
  unfold FinalityTracker.projected
  by_cases hmodern : c.length < E.modernStart
  · rw [if_pos hmodern]
    have hmodern' : c.length < E.chainNode.modernStart := hmodern
    simp only [Finality.projected, hmodern', if_true]
  · rw [if_neg hmodern, if_neg (not_not.mpr h.height)]
    have hsnap : ∀ epoch, (t.node E c).snapshotAt c epoch = E.chainNode.snapshotAt c epoch :=
      h.snapshot inj nonnull hl hlong
    have hboot : bootstrapState (t.node E c) c = bootstrapState E.chainNode c := by
      unfold bootstrapState
      rw [hsnap 0]
      rfl
    have hnext : ∀ s, successorSet (t.node E c) s c = successorSet E.chainNode s c := by
      intro s
      unfold successorSet
      rw [hsnap]
      rfl
    have hrotate : rotateEpoch (t.node E c) t.state c = rotateEpoch E.chainNode t.state c := by
      simp only [rotateEpoch, hnext]
    unfold Finality.projected
    rw [hboot, hrotate]
    rfl

theorem At.applyBlock_eq (hlong : E.finalHeight < c.length)
    (rootAt : Nat → Option Uint256) (b : ChainBlock) : t.applyBlock E rootAt b c =
      (Finality.applyBlock E.chainNode rootAt c b t.state).map fun s => { t with state := s } := by
  unfold FinalityTracker.applyBlock Finality.applyBlock
  by_cases hmodern : E.modernStart ≤ c.length
  · have hmodern' : c.length ≥ E.chainNode.modernStart := hmodern
    rw [if_pos hmodern, if_pos hmodern', applyModern_eq, FinalityTracker.applyModern,
      h.projected_eq inj nonnull hl hlong]
    rfl
  · have hmodern' : ¬ c.length ≥ E.chainNode.modernStart := hmodern
    rw [if_neg hmodern, if_neg hmodern']
    rfl

end

/-! ## One block -/

variable {below : List ChainBlock}

theorem Held.stepTrackers (h : Held E t) (files : Option SyncServices) {b : ChainBlock}
    (hl : Linked E.hash (b :: below)) : Held E (t.stepTrackers E files b below).2 := by
  have hyoung : ∀ (below : List ChainBlock) (b : ChainBlock) (s s' : StakeMap),
      E.stakeReplay.finalHeight < below.length →
      (∀ o e, s.find? o = some e → (E.finalHeight : Int) < e.creationHeight) →
      E.stakeReplay.apply below b s = some s' →
      ∀ o e, s'.find? o = some e → (E.finalHeight : Int) < e.creationHeight := by
    rintro below b s s' hlong hs ⟨⟩
    exact applyBlock_young (E := E) (by exact_mod_cast hlong) b.body hs
  have hinit : ∀ o e, E.stakeReplay.init.find? o = some e → (E.finalHeight : Int) < e.creationHeight := by
    intro o e he
    cases he
  have hstakes : ∀ readable, (t.stakes.sync E.stakeReplay readable (b :: below)).2.Faithful E.stakeReplay :=
    fun readable => sync_faithful (R := E.stakeReplay) inj nonnull readable
      h.stakes hl
  unfold FinalityTracker.stepTrackers
  dsimp only
  split_ifs with hstep
  · exact ⟨blockConnected_faithful (R := E.stakeReplay) inj nonnull h.stakes hl,
      blockConnected_faithful (R := E.bindingReplay) inj nonnull h.bindings hl,
      blockConnected_keeps (R := E.stakeReplay) hyoung hinit b below h.young⟩
  · cases files with
    | none => exact h
    | some sv =>
      have hsynced := sync_keeps (R := E.stakeReplay) hyoung hinit
        (sv.stakeRead below.length) (b :: below) h.young
      dsimp only
      split_ifs
      · exact ⟨hstakes _, h.bindings, hsynced⟩
      · exact ⟨hstakes _, sync_faithful (R := E.bindingReplay) inj nonnull _
          h.bindings hl, hsynced⟩

omit inj nonnull in
theorem stepTrackers_eq (files : Option SyncServices) (b : ChainBlock) (below : List ChainBlock) :
    ∃ stakes bindings, (t.stepTrackers E files b below).2 =
      { t with stakes := stakes, bindings := bindings } := by
  unfold FinalityTracker.stepTrackers
  dsimp only
  split_ifs
  · exact ⟨_, _, rfl⟩
  · cases files with
    | none => exact ⟨_, _, rfl⟩
    | some sv =>
      dsimp only
      split_ifs
      · exact ⟨_, t.bindings, rfl⟩
      · exact ⟨_, _, rfl⟩

omit inj nonnull in
theorem stepTrackers_synced {files : Option SyncServices} {b : ChainBlock}
    (h : (t.stepTrackers E files b below).1 = true) :
    (t.stepTrackers E files b below).2.stakes.synced (E.hash b) = true ∧
      (t.stepTrackers E files b below).2.bindings.synced (E.hash b) = true := by
  unfold FinalityTracker.stepTrackers at h ⊢
  dsimp only at h ⊢
  split_ifs at h ⊢
  · exact Bool.and_eq_true_iff.mp h
  · cases files with
    | none => cases h
    | some sv =>
      dsimp only at h ⊢
      split_ifs at h ⊢
      · simp only [Bool.and_eq_true] at h
        exact ⟨h.1.2, h.2⟩

/-- A block that is applied and stepped over takes the tracker to the longer chain. -/
theorem At.block (h : At E answers c t) {b : ChainBlock} (hl : Linked E.hash (b :: c))
    (hlong : E.finalHeight < c.length) {rootAt : Nat → Option Uint256}
    (hanswers : answers (b :: c) rootAt) {t' : FinalityTracker}
    (happly : t.applyBlock E rootAt b c = some t') (files : Option SyncServices)
    (hstep : (t'.stepTrackers E files b c).1 = true) (tip : Uint256) (flag : Bool) :
    At E answers (b :: c)
      { (t'.stepTrackers E files b c).2 with
        syncedTip := tip, syncedHeight := c.length, dirty := flag } := by
  rw [h.applyBlock_eq inj nonnull hl.tail hlong] at happly
  obtain ⟨s, hs, rfl⟩ := Option.map_eq_some_iff.mp happly
  have hheld : Held E { t with state := s } := ⟨h.held.stakes, h.held.bindings, h.held.young⟩
  have hheld' := hheld.stepTrackers inj nonnull files hl
  obtain ⟨hstakes, hbindings⟩ := stepTrackers_synced hstep
  obtain ⟨stakes, bindings, heq⟩ := stepTrackers_eq (E := E) (t := { t with state := s }) files b c
  refine ⟨{ hheld' with }, ?_, ?_, ?_⟩
  · have hwalk : Walk E.chainNode answers (b :: c) s := .block rootAt b h.walk hs fun _ => hanswers
    rw [heq]
    exact hwalk
  · simp only [length_cons]
    omega
  · rintro tip' below' ⟨⟩ -
    exact ⟨hstakes, hbindings⟩

end Injective

end FinalityTracker

end B3Coin.Finality
