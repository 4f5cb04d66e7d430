import B3Coin.Lib.BlockChain

/-!
# State derived from a chain

A tracker holds the result of replaying a chain from some height on, together with
the tip it belongs to. A block that extends that tip is applied; anything else makes
the tracker dirty, and the next `sync` goes on from the tip it holds if that is on
the chain, or replays the chain. While it is not dirty, a tracker holds the replay
of the chain that its tip names, whatever was called before.
-/
namespace ChainTracker

open BlockChain List Option

variable {β σ : Type*}

/-- How a chain is replayed. -/
structure Replay (β σ : Type*) where
  hash : Block β → Nat
  /-- Blocks up to this height are not replayed. -/
  finalHeight : Nat
  init : σ
  /-- One block over the chain below it. -/
  apply : List (Block β) → Block β → σ → Option σ

/-- The state of a chain, whose latest block comes first. -/
def Replay.run (R : Replay β σ) : List (Block β) → Option σ
  | [] => some R.init
  | b :: below =>
    if below.length ≤ R.finalHeight then some R.init else (R.run below).bind (R.apply below b)

/-- The tip and its height count only while the tracker is not dirty. -/
structure Tracker (σ : Type*) where
  state : σ
  syncedTip : Nat := 0
  syncedHeight : Nat := 0
  dirty : Bool := true
  deriving DecidableEq

namespace Tracker

variable (R : Replay β σ)

def fresh : Tracker σ := { state := R.init }

section

variable (t : Tracker σ)

def synced (tipHash : Nat) : Bool := !t.dirty && t.syncedTip == tipHash

def markDirty : Tracker σ := { t with dirty := true }

/-- The loop over the heights from `start` to the tip; `readable` says which blocks can be read. -/
def walk (readable : Nat → Bool) (start : Nat) (s : σ) : List (Block β) → Option σ
  | [] => some s
  | b :: below =>
    if below.length < start then some s
    else if readable below.length then (walk readable start s below).bind (R.apply below b)
    else none

def resumes (chain : List (Block β)) : Bool :=
  !t.dirty && decide (R.finalHeight ≤ t.syncedHeight) &&
    (blockAt chain t.syncedHeight).map R.hash == some t.syncedTip

/-- The first height of the loop, and the state it starts from. -/
def startOf (chain : List (Block β)) : Nat × σ :=
  if t.resumes R chain then (t.syncedHeight + 1, t.state) else (R.finalHeight + 1, R.init)

/-- Bring the tracker to the tip of `chain`. -/
def sync (readable : Nat → Bool) (t : Tracker σ) : List (Block β) → Bool × Tracker σ
  | [] => (false, t)
  | tip :: below =>
    if t.synced (R.hash tip) then (true, t)
    else
      let start := t.startOf R (tip :: below)
      match walk R readable start.1 start.2 (tip :: below) with
      | none => (false, { t with state := R.init, dirty := true })
      | some s => (true, ⟨s, R.hash tip, below.length, false⟩)

/-- A block was connected over `below`. -/
def blockConnected (b : Block β) (below : List (Block β)) : Tracker σ :=
  if below.length ≤ R.finalHeight then t
  else if t.dirty ∨ below.head?.map R.hash ≠ some t.syncedTip then { t with dirty := true }
  else match R.apply below b t.state with
    | none => { t with state := R.init, dirty := true }
    | some s => ⟨s, R.hash b, below.length, false⟩

/-- What is called on a tracker. -/
inductive Call (β : Type*) where
  | blockConnected (b : Block β) (below : List (Block β))
  | sync (readable : Nat → Bool) (chain : List (Block β))
  | markDirty

/-- The chain a call is about. -/
def Call.chain : Call β → List (Block β)
  | .blockConnected b below => b :: below
  | .sync _ chain => chain
  | .markDirty => []

def call : Call β → Tracker σ
  | .blockConnected b below => t.blockConnected R b below
  | .sync readable chain => (t.sync R readable chain).2
  | .markDirty => t.markDirty

/-! ## What a tracker holds -/

/-- A tracker that is not dirty holds the replay of the chain its tip names. -/
def Faithful : Prop :=
  t.dirty = false → ∃ tip below, Linked R.hash (tip :: below) ∧ R.hash tip = t.syncedTip ∧
    below.length = t.syncedHeight ∧ R.run (tip :: below) = some t.state

end

variable {R} {t : Tracker σ} {readable : Nat → Bool}

theorem Faithful.of_dirty (h : t.dirty = true) : t.Faithful R := by
  intro hf
  rw [h] at hf
  cases hf

theorem faithful_fresh : (fresh R).Faithful R := .of_dirty rfl

variable {c : List (Block β)}

theorem run_of_short (h : c.length ≤ R.finalHeight + 1) : R.run c = some R.init := by
  cases c with
  | nil => rfl
  | cons b below =>
    unfold Replay.run
    rw [if_pos (by simpa using h)]

theorem run_suffix {c c' : List (Block β)} {s' : σ} (hs : c <:+ c') (h : R.run c' = some s') :
    ∃ s, R.run c = some s := by
  induction c' generalizing s' with
  | nil => exact ⟨s', by rwa [suffix_nil.mp hs]⟩
  | cons b below ih =>
    rcases suffix_cons_iff.mp hs with heq | hs
    · exact ⟨s', by rwa [heq]⟩
    · by_cases hlow : below.length ≤ R.finalHeight
      · have := hs.length_le
        exact ⟨R.init, run_of_short (by omega)⟩
      · unfold Replay.run at h
        rw [if_neg hlow] at h
        obtain ⟨s, hbelow, -⟩ := bind_eq_some_iff.mp h
        exact ih hs hbelow

/-- A walk from the state of the chain below `start` ends in the state of the chain. -/
theorem walk_run {start : Nat} {s₀ : σ} (hstart : R.finalHeight < start) :
    ∀ {c : List (Block β)} {s : σ}, R.run (upTo c (start - 1)) = some s₀ →
      walk R readable start s₀ c = some s → R.run c = some s
  | [], s, hrun, hw => by
    cases hw
    rwa [upTo_top (by simp)] at hrun
  | b :: below, s, hrun, hw => by
    unfold walk at hw
    split_ifs at hw with hlow hread
    · cases hw
      rwa [upTo_top (by simp only [length_cons]; omega)] at hrun
    · obtain ⟨s', hs', hb⟩ := bind_eq_some_iff.mp hw
      have hbelow : R.run below = some s' := by
        refine walk_run hstart ?_ hs'
        rwa [upTo_cons_of_lt (by omega)] at hrun
      unfold Replay.run
      rw [if_neg (by omega), hbelow]
      exact hb

/-- With every block readable, a chain that can be replayed can be walked. -/
theorem walk_of_run {start : Nat} {s₀ : σ} (hstart : R.finalHeight < start) :
    ∀ {c : List (Block β)} {s : σ}, R.run (upTo c (start - 1)) = some s₀ → R.run c = some s →
      walk R (fun _ => true) start s₀ c = some s
  | [], s, hrun, hc => by
    rw [upTo_top (by simp), hc] at hrun
    cases hrun
    rfl
  | b :: below, s, hrun, hc => by
    unfold walk
    by_cases hlow : below.length < start
    · rw [upTo_top (by simp only [length_cons]; omega), hc] at hrun
      cases hrun
      rw [if_pos hlow]
    · unfold Replay.run at hc
      rw [if_neg (by omega)] at hc
      obtain ⟨s', hs', hb⟩ := bind_eq_some_iff.mp hc
      rw [if_neg hlow, if_pos rfl,
        walk_of_run hstart (by rwa [upTo_cons_of_lt (by omega)] at hrun) hs']
      exact hb

/-! ## What every state satisfies -/

variable {below : List (Block β)}

theorem sync_synced {tip : Block β} (h : (t.sync R readable (tip :: below)).1 = true) :
    (t.sync R readable (tip :: below)).2.synced (R.hash tip) = true := by
  simp only [sync] at h ⊢
  split_ifs at h ⊢ with hs
  · exact hs
  · split at h
    · cases h
    · simp [synced]

section Keeps

variable {P : σ → Prop}
variable
  (keep : ∀ below b s s', R.finalHeight < below.length → P s → R.apply below b s = some s' → P s')
include keep

theorem walk_keeps {start : Nat} {s₀ : σ} (hstart : R.finalHeight < start) (h : P s₀) :
    ∀ {c : List (Block β)} {s : σ}, walk R readable start s₀ c = some s → P s
  | [], s, hw => by
    cases hw
    exact h
  | b :: below, s, hw => by
    unfold walk at hw
    split_ifs at hw with hlow hread
    · cases hw
      exact h
    · obtain ⟨s', hs', hb⟩ := bind_eq_some_iff.mp hw
      exact keep below b s' s (by omega) (walk_keeps hstart h hs') hb

variable (init : P R.init)
include init

theorem sync_keeps (readable : Nat → Bool) (c : List (Block β)) (h : P t.state) :
    P (t.sync R readable c).2.state := by
  cases c with
  | nil => exact h
  | cons tip below =>
    simp only [sync]
    split_ifs with hs
    · exact h
    · have hstart : R.finalHeight < (t.startOf R (tip :: below)).1 ∧
          P (t.startOf R (tip :: below)).2 := by
        unfold startOf
        split_ifs with hr
        · simp only [resumes, Bool.and_eq_true, decide_eq_true_eq] at hr
          exact ⟨Nat.lt_succ_of_le hr.1.2, h⟩
        · exact ⟨Nat.lt_succ_self _, init⟩
      split
      · exact init
      · next s hw => exact walk_keeps keep hstart.1 hstart.2 hw

theorem blockConnected_keeps (b : Block β) (below : List (Block β)) (h : P t.state) :
    P (t.blockConnected R b below).state := by
  unfold blockConnected
  split_ifs with hlow hstep
  · exact h
  · exact h
  · cases happly : R.apply below b t.state with
    | none => exact init
    | some s => exact keep below b _ _ (Nat.lt_of_not_le hlow) h happly

end Keeps

section Injective

variable (inj : Function.Injective R.hash) (nonnull : ∀ b, R.hash b ≠ 0)
include inj nonnull

theorem Faithful.run_eq (hf : t.Faithful R) {tip : Block β}
    (hl : Linked R.hash (tip :: below)) (hs : t.synced (R.hash tip) = true) :
    R.run (tip :: below) = some t.state := by
  simp only [synced, Bool.and_eq_true, Bool.not_eq_eq_eq_not, Bool.not_true, beq_iff_eq] at hs
  obtain ⟨tip', below', hl', hh', _, hrun⟩ := hf hs.1
  rw [Linked.eq_of_hash inj nonnull hl hl' (hs.2.symm.trans hh'.symm)]
  exact hrun

/-- The loop starts from the state of the chain below its first height. -/
theorem Faithful.startOf (hf : t.Faithful R) (hl : Linked R.hash c) :
    R.finalHeight < (t.startOf R c).1 ∧
      R.run (upTo c ((t.startOf R c).1 - 1)) = some (t.startOf R c).2 := by
  unfold Tracker.startOf
  split_ifs with hr
  · simp only [resumes, Bool.and_eq_true, Bool.not_eq_eq_eq_not, Bool.not_true, decide_eq_true_eq,
      beq_iff_eq, map_eq_some_iff] at hr
    obtain ⟨⟨hd, hfinal⟩, b, hb, hhash⟩ := hr
    obtain ⟨hlt, rest, hup, -⟩ := blockAt_eq_some hb
    refine ⟨Nat.lt_succ_of_le hfinal, ?_⟩
    rw [Nat.add_sub_cancel, hup]
    refine hf.run_eq inj nonnull (hup ▸ hl.suffix (upTo_suffix _ _)) ?_
    simp [synced, hd, hhash]
  · refine ⟨Nat.lt_succ_self _, run_of_short ?_⟩
    simp only [upTo, length_drop]
    omega

/-- A successful `sync` leaves the state of the chain it was given. -/
theorem sync_run (readable : Nat → Bool) (hf : t.Faithful R) (hl : Linked R.hash c)
    (h : (t.sync R readable c).1 = true) : R.run c = some (t.sync R readable c).2.state := by
  cases c with
  | nil => cases h
  | cons tip below =>
    simp only [sync] at h ⊢
    split_ifs at h ⊢ with hs
    · exact hf.run_eq inj nonnull hl hs
    · obtain ⟨hstart, hrun⟩ := hf.startOf inj nonnull hl
      split at h
      · cases h
      · next s hw => exact walk_run hstart hrun hw

theorem sync_faithful (readable : Nat → Bool) (hf : t.Faithful R) (hl : Linked R.hash c) :
    (t.sync R readable c).2.Faithful R := by
  cases c with
  | nil => exact hf
  | cons tip below =>
    have hrun := sync_run inj nonnull readable hf hl
    simp only [sync] at hrun ⊢
    split_ifs at hrun ⊢ with hs
    · exact hf
    · split at hrun
      · exact .of_dirty rfl
      · exact fun _ => ⟨tip, below, hl, rfl, rfl, hrun rfl⟩

/-- Where every block can be read, `sync` to a chain that can be replayed succeeds. -/
theorem sync_ok {tip : Block β} {s : σ} (hf : t.Faithful R)
    (hl : Linked R.hash (tip :: below)) (hrun : R.run (tip :: below) = some s) :
    (t.sync R (fun _ => true) (tip :: below)).1 = true := by
  simp only [sync]
  split_ifs with hs
  · rfl
  · obtain ⟨hstart, hbelow⟩ := hf.startOf inj nonnull hl
    rw [walk_of_run hstart hbelow hrun]

/-- A tracker in step follows every block that can be replayed. -/
theorem blockConnected_synced {b parent : Block β} {s : σ} (hf : t.Faithful R)
    (hl : Linked R.hash (b :: parent :: below)) (hlong : R.finalHeight ≤ below.length)
    (hs : t.synced (R.hash parent) = true) (hrun : R.run (b :: parent :: below) = some s) :
    (t.blockConnected R b (parent :: below)).synced (R.hash b) = true := by
  have hbelow := hf.run_eq inj nonnull hl.tail hs
  have hhigh : ¬ (parent :: below).length ≤ R.finalHeight := by
    simp only [length_cons]
    omega
  unfold Replay.run at hrun
  rw [if_neg hhigh, hbelow, bind_some] at hrun
  simp only [synced, Bool.and_eq_true, Bool.not_eq_eq_eq_not, Bool.not_true, beq_iff_eq] at hs
  unfold blockConnected
  rw [if_neg hhigh, if_neg (by simp [hs.1, hs.2]), hrun]
  simp [synced]

theorem blockConnected_faithful {b : Block β} (hf : t.Faithful R)
    (hl : Linked R.hash (b :: below)) : (t.blockConnected R b below).Faithful R := by
  unfold blockConnected
  split_ifs with hlow hstep
  · exact hf
  · exact .of_dirty rfl
  · rw [not_or, Bool.not_eq_true, not_not, map_eq_some_iff] at hstep
    obtain ⟨hd, parent, hparent, hhash⟩ := hstep
    cases happly : R.apply below b t.state with
    | none => exact .of_dirty rfl
    | some s =>
      refine fun _ => ⟨b, below, hl, rfl, rfl, ?_⟩
      cases below with
      | nil => cases hparent
      | cons parent' rest =>
        cases hparent
        have hrun := hf.run_eq inj nonnull hl.tail (by simp [synced, hd, hhash])
        unfold Replay.run
        rw [if_neg hlow, hrun]
        exact happly

theorem call_faithful {calls : List (Call β)} (hlinked : ∀ c ∈ calls, Linked R.hash c.chain)
    (hf : t.Faithful R) : (calls.foldl (call R) t).Faithful R := by
  induction calls generalizing t with
  | nil => exact hf
  | cons c calls ih =>
    refine ih (fun c' hc' => hlinked c' (mem_cons_of_mem _ hc')) ?_
    have hl := hlinked c mem_cons_self
    cases c with
    | blockConnected b below => exact blockConnected_faithful inj nonnull hf hl
    | sync readable chain => exact sync_faithful inj nonnull readable hf hl
    | markDirty => exact .of_dirty rfl

end Injective

end Tracker

end ChainTracker
