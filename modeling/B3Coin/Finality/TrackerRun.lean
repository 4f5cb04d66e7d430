import B3Coin.Finality.BindingRun
import B3Coin.Finality.FinalityTracker

/-!
# The finality tracker over whole runs

Blocks are connected and disconnected and the tracker is synced, in any order and
against any branches. A tracker that ends synced at a tip holds the state of that
tip's chain, so it agrees with a fresh `Sync`; and a fresh `Sync` succeeds if the
blocks can be read and the bridge index repeats its answers.
-/
namespace B3Coin.Finality.FinalityTracker

open List Option ChainTracker.Tracker

open BlockChain (Linked blockAt upTo upTo_top upTo_length upTo_suffix upTo_cons_of_lt blockAt_eq_some)
open Stake (ChainBlock StakeMap blockNumber)

variable {G₁ G₂ : Type} [AddCommGroup G₁] [Zero G₂] {E : FinalityEnv G₁ G₂} {t : FinalityTracker}
variable {answers : List ChainBlock → (Nat → Option Uint256) → Prop}

/-! ## The private trackers are always held -/

theorem Held.reset (h : Held E t) : Held E t.reset := ⟨.of_dirty rfl, .of_dirty rfl, h.young⟩

theorem Held.of_trackers {t' : FinalityTracker} (h : Held E t) (hs : t'.stakes = t.stakes)
    (hb : t'.bindings = t.bindings) : Held E t' :=
  ⟨hs ▸ h.stakes, hb ▸ h.bindings, hs ▸ h.young⟩

variable {below : List ChainBlock} {b : ChainBlock}

theorem applyBlock_trackers {rootAt : Nat → Option Uint256}
    {t' : FinalityTracker} (h : t.applyBlock E rootAt b below = some t') :
    t'.stakes = t.stakes ∧ t'.bindings = t.bindings := by
  unfold applyBlock applyModern at h
  split_ifs at h
  · obtain ⟨s, -, rfl⟩ := map_eq_some_iff.mp h
    exact ⟨rfl, rfl⟩
  · cases h
    exact ⟨rfl, rfl⟩

/-- The tracker a round or a walk leaves, whether it went through or not. -/
def left : Except FinalityTracker FinalityTracker → FinalityTracker
  | .error t => t
  | .ok t => t

section Injective

variable (inj : Function.Injective E.hash) (nonnull : ∀ b, E.hash b ≠ 0)
include inj nonnull

theorem Held.syncBlock (h : Held E t) (sv : SyncServices)
    (hl : Linked E.hash (b :: below)) : Held E (left (t.syncBlock E sv b below)) := by
  unfold FinalityTracker.syncBlock
  split_ifs
  · exact h
  · cases happly : t.applyBlock E sv.rootAt b below with
    | none => exact h
    | some t' =>
      obtain ⟨hs, hb⟩ := applyBlock_trackers happly
      have hstep := (h.of_trackers hs hb).stepTrackers inj nonnull (some sv) hl
      dsimp only
      split_ifs
      · exact hstep.of_trackers rfl rfl
      · exact hstep

theorem Held.walk (h : Held E t) (sv : SyncServices) (start : Nat) :
    ∀ {c : List ChainBlock}, Linked E.hash c → Held E (left (t.walk E sv start c))
  | [], _ => h
  | b :: below, hl => by
    have ih := Held.walk h sv start hl.tail
    unfold FinalityTracker.walk
    split_ifs
    · exact h
    · cases hw : t.walk E sv start below with
      | error t' => rwa [hw] at ih
      | ok t' =>
        rw [hw] at ih
        exact Held.syncBlock inj nonnull ih sv hl

/-! ## Walking -/

variable {sv : SyncServices} {c : List ChainBlock}

theorem At.syncBlock (h : At E answers c t)
    (hl : Linked E.hash (b :: c)) (hlong : E.finalHeight < c.length)
    (hanswers : answers (b :: c) sv.rootAt) {t' : FinalityTracker}
    (hok : t.syncBlock E sv b c = .ok t') : At E answers (b :: c) t' := by
  unfold FinalityTracker.syncBlock at hok
  split_ifs at hok
  cases happly : t.applyBlock E sv.rootAt b c with
  | none => simp [happly] at hok
  | some t1 =>
    simp only [happly] at hok
    split_ifs at hok with hstep
    cases hok
    exact h.block inj nonnull hl hlong hanswers happly (some sv) hstep _ _

theorem walk_at {start : Nat} (hstart : E.finalHeight < start) :
    ∀ {c : List ChainBlock}, Linked E.hash c → (∀ d, d <:+ c → answers d sv.rootAt) →
      At E answers (upTo c (start - 1)) t → ∀ t', t.walk E sv start c = .ok t' → At E answers c t'
  | [], _, _, hat, t', hok => by
    cases hok
    rwa [upTo_top (by simp)] at hat
  | b :: below, hl, hanswers, hat, t', hok => by
    unfold FinalityTracker.walk at hok
    split_ifs at hok with hlow
    · cases hok
      rwa [upTo_top (by simp only [length_cons]; omega)] at hat
    · rw [upTo_cons_of_lt (by omega)] at hat
      cases hw : t.walk E sv start below with
      | error t1 =>
        rw [hw] at hok
        cases hok
      | ok t1 =>
        rw [hw] at hok
        have hbelow := walk_at hstart hl.tail
          (fun d hd => hanswers d (hd.trans (suffix_cons b below))) hat t1 hw
        exact At.syncBlock inj nonnull hbelow hl (by omega) (hanswers _ (suffix_refl _)) hok

/-! ## What a tracker holds -/

omit inj nonnull in
/-- While it is not dirty, the tracker is in step with the chain its tip names. -/
structure Faithful (E : FinalityEnv G₁ G₂)
    (answers : List ChainBlock → (Nat → Option Uint256) → Prop) (t : FinalityTracker) : Prop where
  held : Held E t
  inStep : t.dirty = false → ∃ tip below, Linked E.hash (tip :: below) ∧
    E.hash tip = t.syncedTip ∧ At E answers (tip :: below) t

omit inj nonnull in
theorem Faithful.of_dirty (h : Held E t) (hd : t.dirty = true) : Faithful E answers t :=
  ⟨h, fun hf => by
    rw [hd] at hf
    cases hf⟩

variable {tip : ChainBlock}

theorem Faithful.at_tip (h : Faithful E answers t)
    (hl : Linked E.hash (tip :: below)) (hs : t.synced (E.hash tip) = true) :
    At E answers (tip :: below) t := by
  simp only [synced, Bool.and_eq_true, Bool.not_eq_eq_eq_not, Bool.not_true, beq_iff_eq] at hs
  obtain ⟨tip', below', hl', hh', hat⟩ := h.inStep hs.1
  rw [Linked.eq_of_hash inj nonnull hl hl' (hs.2.symm.trans hh'.symm)]
  exact hat

/-- The loop of `Sync` starts in step with the chain below its first height. -/
theorem Faithful.startOf (h : Faithful E answers t) (hl : Linked E.hash c)
    (hlong : E.finalHeight < c.length) : E.finalHeight < (t.startOf E c).1 ∧
      At E answers (upTo c ((t.startOf E c).1 - 1)) (t.startOf E c).2 := by
  unfold FinalityTracker.startOf
  split_ifs with hr
  · simp only [resumes, Bool.and_eq_true, Bool.not_eq_eq_eq_not, Bool.not_true, decide_eq_true_eq,
      beq_iff_eq, map_eq_some_iff] at hr
    obtain ⟨⟨hd, hfinal⟩, b, hb, hhash⟩ := hr
    obtain ⟨-, rest, hup, -⟩ := blockAt_eq_some hb
    refine ⟨by dsimp only; omega, ?_⟩
    rw [Nat.add_sub_cancel, hup]
    refine h.at_tip inj nonnull (hup ▸ hl.suffix (upTo_suffix _ _)) ?_
    simp [synced, hd, hhash]
  · rw [Nat.add_sub_cancel]
    have hlen := upTo_length hlong
    have hreset : Held E t.reset := h.held.reset
    refine ⟨Nat.lt_succ_self _, hreset.of_trackers rfl rfl, Walk.legacy ?_, ?_, ?_⟩
    · show (upTo c E.finalHeight).length ≤ E.finalHeight + 1 + E.transitionPowLength
      omega
    · push_cast
      omega
    · intro tip below heq hhigh
      rw [heq, length_cons] at hlen
      omega

omit inj nonnull in
theorem At.of_parts (h : At E answers c t) {tip : Uint256} {height : Int}
    (hheight : height = (c.length - 1 : Int)) (flag : Bool) :
    At E answers c { t with syncedTip := tip, syncedHeight := height, dirty := flag } :=
  ⟨h.held.of_trackers rfl rfl, h.walk, hheight, h.stepped⟩

theorem Faithful.sync_at (h : Faithful E answers t) (hl : Linked E.hash (tip :: below))
    (hanswers : ∀ d, d <:+ tip :: below → answers d sv.rootAt)
    (hok : (t.sync E sv (tip :: below)).1 = true) :
    At E answers (tip :: below) (t.sync E sv (tip :: below)).2 := by
  simp only [sync] at hok ⊢
  split_ifs at hok ⊢ with hs
  · exact h.at_tip inj nonnull hl hs
  · cases hw : (t.startOf E (tip :: below)).2.walk E sv (t.startOf E (tip :: below)).1
        (tip :: below) with
    | error t' =>
      rw [hw] at hok
      cases hok
    | ok t' =>
      by_cases hlong : E.finalHeight < (tip :: below).length
      · obtain ⟨hstart, hat⟩ := h.startOf inj nonnull hl hlong
        exact (walk_at inj nonnull hstart hl hanswers hat t' hw).of_parts (by simp) false
      · -- a chain that ends before the modern era: nothing is walked and nothing is tracked
        have hshort : ¬ t.resumes E (tip :: below) = true := by
          intro hr
          simp only [resumes, Bool.and_eq_true, decide_eq_true_eq, beq_iff_eq,
            map_eq_some_iff] at hr
          obtain ⟨⟨-, hfinal⟩, b, hb, -⟩ := hr
          have := (blockAt_eq_some hb).1
          omega
        have hlow : below.length < E.finalHeight + 1 := by
          simp only [length_cons] at hlong
          omega
        simp only [FinalityTracker.startOf, hshort, Bool.false_eq_true, if_false,
          FinalityTracker.walk, hlow, if_true] at hw
        cases hw
        refine ⟨h.held.reset.of_trackers rfl rfl, Walk.legacy ?_, by simp, ?_⟩
        · show (tip :: below).length ≤ E.finalHeight + 1 + E.transitionPowLength
          omega
        · rintro tip' below' ⟨⟩ hhigh
          omega

theorem Faithful.sync (h : Faithful E answers t) (sv : SyncServices)
    (hl : Linked E.hash c) (hanswers : ∀ d, d <:+ c → answers d sv.rootAt) :
    Faithful E answers (t.sync E sv c).2 := by
  cases c with
  | nil => exact h
  | cons tip below =>
    have hat : (t.sync E sv (tip :: below)).1 = true →
        At E answers (tip :: below) (t.sync E sv (tip :: below)).2 :=
      h.sync_at inj nonnull hl hanswers
    have hheld : Held E (t.startOf E (tip :: below)).2 := by
      unfold FinalityTracker.startOf
      split_ifs
      · exact h.held
      · exact h.held.reset.of_trackers rfl rfl
    have hwalk := Held.walk inj nonnull hheld sv (t.startOf E (tip :: below)).1 hl
    simp only [FinalityTracker.sync] at hat ⊢
    split_ifs at hat ⊢ with hs
    · exact h
    · cases hw : (t.startOf E (tip :: below)).2.walk E sv (t.startOf E (tip :: below)).1
          (tip :: below) with
      | error t' =>
        rw [hw] at hwalk
        exact .of_dirty hwalk.reset rfl
      | ok t' =>
        rw [hw] at hat
        exact ⟨(hat rfl).held, fun _ => ⟨tip, below, hl, rfl, hat rfl⟩⟩

theorem Faithful.blockConnected (h : Faithful E answers t) {rootAt : Nat → Option Uint256}
    (hl : Linked E.hash (b :: below)) (hanswers : answers (b :: below) rootAt) :
    Faithful E answers (t.blockConnected E rootAt b below) := by
  unfold FinalityTracker.blockConnected
  split_ifs with hlow hstep
  · exact h
  · exact .of_dirty (h.held.of_trackers rfl rfl) rfl
  · rw [not_or, Bool.not_eq_true, not_not, map_eq_some_iff] at hstep
    obtain ⟨hd, parent, hparent, hhash⟩ := hstep
    cases happly : t.applyBlock E rootAt b below with
    | none => exact .of_dirty (h.held.of_trackers rfl rfl) rfl
    | some t' =>
      obtain ⟨hs, hb⟩ := applyBlock_trackers happly
      have hheld := (h.held.of_trackers hs hb).stepTrackers inj nonnull none hl
      dsimp only
      split_ifs with hok
      · cases below with
        | nil => cases hparent
        | cons parent' rest =>
          cases hparent
          have hat := h.at_tip inj nonnull hl.tail (by simp [synced, hd, hhash])
          exact ⟨hheld.of_trackers rfl rfl, fun _ => ⟨b, _, hl, rfl,
            hat.block inj nonnull hl (by omega) hanswers happly none hok _ _⟩⟩
      · exact .of_dirty (hheld.of_trackers rfl rfl) rfl

/-! ## Runs -/

omit inj nonnull in
/-- The answers given during some calls, for the blocks of the chains they were about. -/
def answersOf (calls : List Call) (c : List ChainBlock) (rootAt : Nat → Option Uint256) : Prop :=
  ∃ call ∈ calls, call.rootAt = rootAt ∧ c <:+ call.chain

omit inj nonnull in
theorem faithful_fresh : Faithful E answers (fresh E) :=
  .of_dirty ⟨.of_dirty rfl, .of_dirty rfl, fun _ _ h => by cases h⟩ rfl

variable {calls : List Call}

theorem call_faithful (hlinked : ∀ c ∈ calls, Linked E.hash c.chain)
    (hanswers : ∀ c ∈ calls, ∀ d, d <:+ c.chain → answers d c.rootAt) (h : Faithful E answers t) :
    Faithful E answers (calls.foldl (call E) t) := by
  induction calls generalizing t with
  | nil => exact h
  | cons c calls ih =>
    refine ih (fun x hx => hlinked x (mem_cons_of_mem _ hx))
      (fun x hx => hanswers x (mem_cons_of_mem _ hx)) ?_
    have hl := hlinked c mem_cons_self
    have ha := hanswers c mem_cons_self
    cases c with
    | blockConnected rootAt b below =>
      exact h.blockConnected inj nonnull hl (ha _ (suffix_refl _))
    | blockDisconnected => exact .of_dirty (h.held.of_trackers rfl rfl) rfl
    | sync sv chain => exact h.sync inj nonnull sv hl ha

/-- Whatever was called, a tracker synced at a tip is in step with that tip's chain. -/
theorem after_at (hlinked : ∀ c ∈ calls, Linked E.hash c.chain) (hl : Linked E.hash (tip :: below))
    (hs : (after E calls).synced (E.hash tip) = true) :
    At E (answersOf calls) (tip :: below) (after E calls) := by
  have hfaithful : Faithful E (answersOf calls) (after E calls) :=
    call_faithful inj nonnull hlinked (fun c hc d hd => ⟨c, hc, rfl, hd⟩) faithful_fresh
  exact hfaithful.at_tip inj nonnull hl hs

/-! ## The tracker without its private trackers -/

omit inj nonnull in
/-- What the signer sees: the state with the tip and the flag. -/
def view (t : FinalityTracker) : Tracker := ⟨t.state, t.syncedTip, t.syncedHeight.toNat, t.dirty⟩

omit inj nonnull in
theorem Faithful.view (h : Faithful E answers t) : t.view.Faithful E.chainNode := by
  intro hd
  obtain ⟨tip, below, hl, hh, hat⟩ := h.inStep hd
  refine ⟨tip, below, hl, hh, ?_, hat.walk.trackerAt⟩
  show below.length = t.syncedHeight.toNat
  rw [hat.height, length_cons]
  omega

/-- Whatever was called on either of them, the tracker and a `Tracker` over the snapshots of the
chain hold one state when they are synced to one tip. -/
theorem after_state_eq (hlinked : ∀ c ∈ calls, Linked E.hash c.chain)
    (hl : Linked E.hash (tip :: below)) (hs : (after E calls).synced (E.hash tip) = true)
    {s : Tracker} (hf : s.Faithful E.chainNode) (hd : s.dirty = false)
    (htip : E.hash tip = s.syncedTip) : (after E calls).state = s.state :=
  (after_at inj nonnull hlinked hl hs).walk.trackerAt.unique
    (Tracker.Faithful.trackerAt (n := E.chainNode) inj nonnull hf hl hd htip)

theorem sync_trackerAt (sv : SyncServices)
    (hl : Linked E.hash (tip :: below)) (hok : ((fresh E).sync E sv (tip :: below)).1 = true) :
    TrackerAt E.chainNode (tip :: below) ((fresh E).sync E sv (tip :: below)).2.state := by
  have hfresh : Faithful E (fun _ _ => True) (fresh E) := faithful_fresh
  exact (hfresh.sync_at inj nonnull hl (fun _ _ => trivial) hok).walk.trackerAt

/-! ## When a fresh `Sync` succeeds -/

omit inj nonnull in
/-- Every block can be read. -/
def AllReadable (sv : SyncServices) : Prop :=
  sv.read = (fun _ => true) ∧ (∀ h, sv.stakeRead h = fun _ => true) ∧
    ∀ h, sv.bindingRead h = fun _ => true

omit inj nonnull in
theorem stakes_run (c : List ChainBlock) : ∃ s, E.stakeReplay.run c = some s := by
  induction c with
  | nil => exact ⟨_, rfl⟩
  | cons b below ih =>
    obtain ⟨s, hs⟩ := ih
    unfold ChainTracker.Replay.run
    rw [hs]
    split_ifs
    · exact ⟨_, rfl⟩
    · exact ⟨_, rfl⟩

/-- Over a chain whose bindings can be replayed, the private trackers can be stepped. -/
theorem stepTrackers_ok (h : Held E t) (hread : AllReadable sv) (hl : Linked E.hash (b :: below))
    (hlong : E.finalHeight < below.length) {index : KeyBinding.FinalityBindingIndex}
    (hrun : E.bindingReplay.run (b :: below) = some index) :
    (t.stepTrackers E (some sv) b below).1 = true := by
  obtain ⟨stakes, hstakes⟩ := stakes_run (E := E) (b :: below)
  unfold FinalityTracker.stepTrackers
  dsimp only
  rw [hread.2.1, hread.2.2]
  have hsync := sync_ok (R := E.stakeReplay) inj nonnull h.stakes hl hstakes
  have hsync' := sync_ok (R := E.bindingReplay) inj nonnull h.bindings hl hrun
  split_ifs with hstep hfail
  · cases below with
    | nil => cases hstep
    | cons parent rest =>
      have hboth : t.stakes.synced (E.hash parent) = true ∧ t.bindings.synced (E.hash parent) = true :=
        Bool.and_eq_true_iff.mp hstep
      have hlow : E.finalHeight ≤ rest.length := by
        simp only [length_cons] at hlong
        omega
      exact Bool.and_eq_true_iff.mpr
        ⟨blockConnected_synced (R := E.stakeReplay) inj nonnull h.stakes hl hlow
          hboth.1 hstakes,
        blockConnected_synced (R := E.bindingReplay) inj nonnull h.bindings hl
          hlow hboth.2 hrun⟩
  · rw [hsync] at hfail
    cases hfail
  · rw [hsync', Bool.true_and]
    exact Bool.and_eq_true_iff.mpr ⟨sync_synced (R := E.stakeReplay) hsync,
      sync_synced (R := E.bindingReplay) hsync'⟩

/-- A chain that some walk accepts is walked through again if its answers are repeated. -/
theorem walk_ok (hread : AllReadable sv) {start : Nat} (hstart : E.finalHeight < start) :
    ∀ {c : List ChainBlock} {s : State}, Linked E.hash c → Walk E.chainNode answers c s →
      (∀ b below rootAt, b :: below <:+ c → answers (b :: below) rootAt →
        ∀ h x, h ≤ below.length → rootAt h = some x → sv.rootAt h = some x) →
      (∃ index, E.bindingReplay.run c = some index) →
      At E (fun _ _ => True) (upTo c (start - 1)) t → ∃ t', t.walk E sv start c = .ok t'
  | [], _, _, _, _, _, _ => ⟨t, rfl⟩
  | b :: below, s, hl, hwalk, hrepeat, ⟨index, hindex⟩, hat => by
    unfold FinalityTracker.walk
    by_cases hlow : below.length < start
    · exact ⟨t, by rw [if_pos hlow]⟩
    cases hwalk with
    | @block _ s1 _ rootAt _ hbelow happly hgiven =>
      rw [if_neg hlow]
      rw [upTo_cons_of_lt (by omega)] at hat
      obtain ⟨t1, ht1⟩ := walk_ok hread hstart hl.tail hbelow
        (fun b' below' r hs => hrepeat b' below' r (hs.trans (suffix_cons b below)))
        (run_suffix (suffix_cons b below) hindex) hat
      have hat1 := walk_at inj nonnull hstart hl.tail (fun _ _ => trivial) hat t1 ht1
      have hstate : t1.state = s1 := hat1.walk.trackerAt.unique hbelow.trackerAt
      have hlong : E.finalHeight < below.length := by omega
      -- the block was accepted then with answers that are given again now
      have haccept : Finality.applyBlock E.chainNode sv.rootAt below b t1.state = some s := by
        rw [hstate]
        unfold Finality.applyBlock at happly ⊢
        split_ifs at happly ⊢ with hmodern
        · exact certify_of_answers happly
            (hrepeat b below rootAt (suffix_refl _) (hgiven hmodern))
        · exact happly
      have happly1 := hat1.applyBlock_eq inj nonnull hl.tail hlong sv.rootAt b
      rw [haccept, map_some] at happly1
      have hheld : Held E { t1 with state := s } := hat1.held.of_trackers rfl rfl
      have hstep := stepTrackers_ok inj nonnull hheld hread hl hlong hindex
      rw [ht1]
      show ∃ t', t1.syncBlock E sv b below = .ok t'
      unfold FinalityTracker.syncBlock
      rw [hread.1, happly1]
      simp only [Bool.true_eq_false, if_false, hstep, if_true]
      exact ⟨_, rfl⟩

omit inj nonnull in
/-- The bridge index answers for the blocks of `chain` as it did during the calls. -/
def Repeats (calls : List Call) (chain : List ChainBlock) (sv : SyncServices) : Prop :=
  ∀ call ∈ calls, ∀ h x, h < chain.length → blockAt call.chain h = blockAt chain h →
    call.rootAt h = some x → sv.rootAt h = some x

/-- A fresh `Sync` to any block of the chain succeeds where the blocks can be read and the bridge
index repeats its answers. -/
theorem sync_succeeds {chain : List ChainBlock}
    (hat : At E (answersOf calls) chain t) (hl : Linked E.hash chain)
    (hread : AllReadable sv) (hrepeat : Repeats calls chain sv) (hsuffix : tip :: below <:+ chain) :
    ((fresh E).sync E sv (tip :: below)).1 = true := by
  have hl' := hl.suffix hsuffix
  have hbindings : ∃ index, E.bindingReplay.run chain = some index := by
    by_cases hlong : E.finalHeight + 1 < chain.length
    · exact ⟨_, (hat.replay inj nonnull hl hlong).2⟩
    · exact ⟨_, run_of_short (R := E.bindingReplay) (by
        show chain.length ≤ E.finalHeight + 1
        omega)⟩
  obtain ⟨index, hindex⟩ := hbindings
  obtain ⟨s, hwalk⟩ := hat.walk.suffix hsuffix
  have hok : ∃ t', ((fresh E).startOf E (tip :: below)).2.walk E sv
      ((fresh E).startOf E (tip :: below)).1 (tip :: below) = .ok t' := by
    by_cases hlong : E.finalHeight < (tip :: below).length
    · have hfresh : Faithful E (fun _ _ => True) (fresh E) := faithful_fresh
      obtain ⟨hstart, hbase⟩ := hfresh.startOf inj nonnull hl' hlong
      refine walk_ok inj nonnull hread hstart hl' hwalk ?_
        (run_suffix hsuffix hindex) hbase
      rintro b rest rootAt hs ⟨call, hcall, rfl, hcs⟩ h x hh hx
      have hlt : h < (b :: rest).length := by
        simp only [length_cons]
        omega
      have hs' := hs.trans hsuffix
      refine hrepeat call hcall h x (lt_of_lt_of_le hlt hs'.length_le) ?_ hx
      rw [BlockChain.blockAt_suffix hcs hlt, BlockChain.blockAt_suffix hs' hlt]
    · have hlow : below.length < ((fresh E).startOf E (tip :: below)).1 := by
        show below.length < E.finalHeight + 1
        simp only [length_cons] at hlong
        omega
      refine ⟨((fresh E).startOf E (tip :: below)).2, ?_⟩
      unfold FinalityTracker.walk
      rw [if_pos hlow]
  obtain ⟨t', ht'⟩ := hok
  simp only [FinalityTracker.sync, ht']
  split_ifs <;> rfl

end Injective

theorem chainNode_stamps : E.chainNode.Stamps := by
  intro below epoch x hx
  change E.chainSnapshot below epoch = some x at hx
  unfold FinalityEnv.chainSnapshot at hx
  split at hx
  · obtain ⟨built, hbuilt, rfl⟩ := map_eq_some_iff.mp hx
    exact (build_header hbuilt).2
  · cases hx

/-- After any calls that leave the tracker synced at a tip, its state is the one a fresh `Sync` to
that tip gives, and such a `Sync` succeeds where blocks can be read and the bridge index repeats its
answers. In that state the epochs are spaced, the sets are stamped, the set in force was authorized by
the one before it, and since every earlier block of the chain finality has only moved up and a
broken lineage has stayed broken. -/
theorem finality_tracker_exact (hashInj : Function.Injective E.hash) (nonnull : ∀ b, E.hash b ≠ 0)
    (calls : List Call) (hcalls : ∀ c ∈ calls, Linked E.hash c.chain) (tip : ChainBlock)
    (below : List ChainBlock) (hlinked : Linked E.hash (tip :: below))
    (hsynced : (after E calls).synced (E.hash tip) = true) :
    (∀ sv, ((fresh E).sync E sv (tip :: below)).1 = true →
      ((fresh E).sync E sv (tip :: below)).2.state = (after E calls).state) ∧
    (∀ sv, AllReadable sv → Repeats calls (tip :: below) sv → ∀ tip' below',
      tip' :: below' <:+ tip :: below → ((fresh E).sync E sv (tip' :: below')).1 = true) ∧
    Spaced E.chainNode (after E calls).state ∧ Stamped (after E calls).state ∧
    Authorized E.chainNode (tip :: below) (after E calls).state ∧
    ∀ sv tip' below', tip' :: below' <:+ tip :: below →
      ((fresh E).sync E sv (tip' :: below')).1 = true →
      Advance ((fresh E).sync E sv (tip' :: below')).2.state (after E calls).state := by
  have hat := after_at hashInj nonnull hcalls hlinked hsynced
  have hstate := hat.walk.trackerAt
  refine ⟨fun sv hok => ?_, fun sv hread hrepeat tip' below' hs => ?_, hstate.spaced,
    hstate.stamped chainNode_stamps, hstate.authorized chainNode_stamps,
    fun sv tip' below' hs hok => ?_⟩
  · exact (sync_trackerAt hashInj nonnull sv hlinked hok).unique hstate
  · exact sync_succeeds hashInj nonnull hat hlinked hread hrepeat hs
  · exact hstate.advance (sync_trackerAt hashInj nonnull sv (hlinked.suffix hs) hok) hs

/-! ### A finalized checkpoint and a block above it that is replaced -/

def tipNumber (chain : List ChainBlock) : Uint256 := (chain.head?.map blockNumber).getD 0

/-- The chain of blocks with these transactions, the latest first. -/
def chainOf : List (List CTransaction) → List ChainBlock
  | [] => []
  | vtx :: below => ⟨tipNumber (chainOf below), vtx⟩ :: chainOf below

theorem chainOf_linked (bodies : List (List CTransaction)) :
    Linked blockNumber (chainOf bodies) := by
  induction bodies with
  | nil => exact trivial
  | cons vtx below ih =>
    rw [chainOf]
    generalize chainOf below = chain at ih
    cases chain with
    | nil => rfl
    | cons b rest => exact ⟨rfl, ih⟩

def stakerKey : Codec.Bytes := replicate 32 1

/-- A stake with the key of its validator, and the blocks until it is mature. -/
def bonded : List (List CTransaction) := replicate 21 [] ++
  [[{ vin := [], vout := [⟨FINALITY_WEIGHT_UNIT, Stake.makeStakeScript stakerKey [OP_1]⟩] },
    KeyBinding.bindingTx (beValue stakerKey) (sampleBls.compress 1) 0], []]

/-- Stands for the coinbase with the certificate of the block below. -/
def certifyingTx : CTransaction := { vin := [], vout := [] }

def sampleEnv : FinalityEnv (Fin 3) (Fin 2) where
  hash := blockNumber
  txid := CTransaction.number
  matchCertificate vtx _ := some (if vtx = [certifyingTx] then
    some (⟨22, tipNumber (chainOf bonded), 0, 1, 0⟩, ⟨[1], [1]⟩) else none)
  bls := sampleBls
  keccak _ := 1
  sha256 _ := 0
  binding := KeyBinding.lenientCrypto
  pos := ⟨60, 30, 1, 1, 4, 2, 1, 4, 1⟩
  finalHeight := 0
  transitionPowLength := 21
  chainDomain := 7

def openServices : SyncServices := ⟨fun _ => some 0, fun _ => true, fun _ _ => true, fun _ _ => true⟩

def certified : List (List CTransaction) := [certifyingTx] :: bonded

/-- A block above the certificate. -/
def above (vtx : List CTransaction) : ChainBlock := ⟨tipNumber (chainOf certified), vtx⟩

theorem above_linked (vtx : List CTransaction) :
    Linked sampleEnv.hash (above vtx :: chainOf certified) := chainOf_linked (vtx :: certified)

/-- A key is bound in the second one. -/
def replacement : ChainBlock := above [KeyBinding.bindingTx 2 9 0]

def reorganization : List Call :=
  [.sync openServices (chainOf certified),
    .blockConnected (fun _ => some 0) (above []) (chainOf certified), .blockDisconnected,
    .sync openServices (replacement :: chainOf certified)]

theorem reorganization_exact :
    (after sampleEnv reorganization).state.finalized.map (·.height) = some 22 ∧
    ((fresh sampleEnv).sync sampleEnv openServices (replacement :: chainOf certified)).2.state =
      (after sampleEnv reorganization).state := by
  have hcalls : ∀ c ∈ reorganization, Linked sampleEnv.hash c.chain := by
    simp only [reorganization, forall_mem_cons]
    exact ⟨chainOf_linked _, above_linked _, trivial, above_linked _, nofun⟩
  exact ⟨by decide +kernel, (finality_tracker_exact Stake.blockNumber_injective
    Stake.blockNumber_ne_zero reorganization hcalls replacement (chainOf certified)
    (above_linked _) (by decide +kernel)).1 openServices (by decide +kernel)⟩

end B3Coin.Finality.FinalityTracker
