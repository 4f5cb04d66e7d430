import B3Coin.Finality.Tracker

/-!
# The tracker object: incremental steps, rebuilds and path independence

`FinalityTracker` keeps a state, the tip it belongs to and a dirty flag. A block
that connects in step advances it; anything else marks it dirty, and the next
`Sync` either resumes from the synced tip or walks the chain again. Whatever the
history, a synced tracker holds the state of the chain it is synced to.
-/
namespace B3Coin.Finality

open BlockChain List

variable {β : Type}

/-- The heights are meaningful only while the tracker is not dirty. -/
structure Tracker where
  state : State := {}
  syncedTip : Uint256 := 0
  syncedHeight : Nat := 0
  dirty : Bool := true
  deriving DecidableEq

/-- What one call sees of the rest of the node: the bridge index's answer for each
checkpoint height, which blocks can be read back, and where the private stake and
binding trackers could be stepped. -/
structure Services where
  rootAt : Nat → Option Uint256
  readBlock : Nat → Bool
  stepTrackers : Nat → Bool

def Tracker.synced (t : Tracker) (tipHash : Uint256) : Bool := !t.dirty && t.syncedTip == tipHash

section Operations

variable (n : Node β) (sv : Services)

/-- The loop of `Sync` over the heights from `start` to the tip. -/
def walk (start : Nat) (s : State) : List (Block β) → Option State
  | [] => some s
  | b :: below =>
    if below.length < start then some s
    else
      match walk start s below with
      | none => none
      | some s' =>
        if sv.readBlock below.length ∧ sv.stepTrackers below.length then
          applyBlock n sv.rootAt below b s'
        else none

/-- Whether `Sync` may continue from the tip the tracker already holds. -/
def Tracker.resumes (t : Tracker) (chain : List (Block β)) : Bool :=
  !t.dirty && t.syncedHeight ≥ n.finalHeight && t.syncedHeight < chain.length &&
    (blockAt chain t.syncedHeight).map n.hash == some t.syncedTip

/-- `Sync` to the tip of `chain`. -/
def Tracker.sync (t : Tracker) : List (Block β) → Bool × Tracker
  | [] => (false, t)
  | tip :: below =>
    if t.synced (n.hash tip) then (true, t)
    else
      let resume := t.resumes n (tip :: below)
      match walk n sv (if resume then t.syncedHeight + 1 else n.finalHeight + 1)
          (if resume then t.state else {}) (tip :: below) with
      | none => (false, {})
      | some s => (true, ⟨s, n.hash tip, below.length, false⟩)

/-- `BlockConnected` for the block `b` over `below`. -/
def Tracker.blockConnected (t : Tracker) (b : Block β) (below : List (Block β)) : Tracker :=
  if below.length ≤ n.finalHeight then t
  else if t.dirty ∨ below.head?.map n.hash ≠ some t.syncedTip then { t with dirty := true }
  else
    match applyBlock n sv.rootAt below b t.state with
    | none => { t with dirty := true }
    | some s =>
      if sv.stepTrackers below.length then ⟨s, n.hash b, below.length, false⟩
      else { t with state := s, dirty := true }

/-- `BlockDisconnected` and `MarkDirty`. -/
def Tracker.markDirty (t : Tracker) : Tracker := { t with dirty := true }

end Operations

/-- A tracker that is not dirty holds the state of the chain its tip hash names. -/
def Tracker.Faithful (n : Node β) (t : Tracker) : Prop :=
  t.dirty = false → ∃ tip below, Linked n.hash (tip :: below) ∧ n.hash tip = t.syncedTip ∧
    below.length = t.syncedHeight ∧ TrackerAt n (tip :: below) t.state

variable {n : Node β} {sv : Services}

theorem Tracker.Faithful.of_dirty {t : Tracker} (h : t.dirty = true) : t.Faithful n := by
  intro hf
  simp [h] at hf

theorem trackerAt_legacy : ∀ {c : List (Block β)}, c.length ≤ n.modernStart → TrackerAt n c {}
  | [], _ => .empty
  | b :: below, hc => by
    simp only [length_cons] at hc
    refine .block (fun _ => none) b (trackerAt_legacy (by omega)) ?_
    simp only [applyBlock, ite_eq_right_iff]
    omega

/-- A walk that starts from the right state below `start` ends in the chain's state. -/
theorem walk_trackerAt {start : Nat} {s₀ : State} : ∀ {c : List (Block β)} {s : State},
      (∀ d, d <:+ c → d.length = start → TrackerAt n d s₀) →
      (c.length < start → TrackerAt n c s₀) → walk n sv start s₀ c = some s → TrackerAt n c s
  | [], s, hbase, hshort, hw => by
    simp only [walk, Option.some.injEq] at hw
    rw [← hw]
    by_cases hz : start = 0
    · exact hbase [] (suffix_refl _) hz.symm
    · exact hshort (by simp only [length_nil]; omega)
  | b :: below, s, hbase, hshort, hw => by
    by_cases hlow : below.length < start
    · simp only [walk, if_pos hlow, Option.some.injEq] at hw
      rw [← hw]
      by_cases hl : below.length + 1 = start
      · exact hbase _ (suffix_refl _) hl
      · exact hshort (by simp only [length_cons]; omega)
    · simp only [walk, if_neg hlow] at hw
      cases hr : walk n sv start s₀ below with
      | none => simp [hr] at hw
      | some s' =>
        simp only [hr, Option.ite_none_right_eq_some] at hw
        have hbelow : TrackerAt n below s' := by
          refine walk_trackerAt (fun d hd hl => hbase d ?_ hl) (fun hlt => absurd hlt hlow) hr
          exact hd.trans (suffix_cons b below)
        exact .block sv.rootAt b hbelow hw.2

section Injective

variable (inj : Function.Injective n.hash) (nonnull : ∀ b, n.hash b ≠ 0)
include inj nonnull

variable {t : Tracker} {below : List (Block β)}

theorem Tracker.Faithful.trackerAt (hf : t.Faithful n) {tip : Block β}
    (hl : Linked n.hash (tip :: below)) (hd : t.dirty = false)
    (hh : n.hash tip = t.syncedTip) : TrackerAt n (tip :: below) t.state := by
  obtain ⟨tip', below', hl', hh', _, hat⟩ := hf hd
  rw [Linked.eq_of_hash inj nonnull hl hl' (hh.trans hh'.symm)]
  exact hat

variable {chain : List (Block β)}

/-- Path independence: whatever `Sync` leaves is faithful, and after a success it is the state of
the chain it was given. -/
theorem Tracker.sync_spec (hf : t.Faithful n) (hl : Linked n.hash chain) :
    (t.sync n sv chain).2.Faithful n ∧
      ((t.sync n sv chain).1 = true → TrackerAt n chain (t.sync n sv chain).2.state) := by
  cases chain with
  | nil => exact ⟨hf, nofun⟩
  | cons tip below =>
    simp only [Tracker.sync]
    by_cases hs : t.synced (n.hash tip) = true
    · rw [if_pos hs]
      simp only [Tracker.synced, Bool.and_eq_true, Bool.not_eq_eq_eq_not, Bool.not_true,
        beq_iff_eq] at hs
      exact ⟨hf, fun _ => hf.trackerAt inj nonnull hl hs.1 hs.2.symm⟩
    rw [if_neg hs]
    split
    · exact ⟨.of_dirty rfl, nofun⟩
    rename_i s hw
    suffices hat : TrackerAt n (tip :: below) s from
      ⟨fun _ => ⟨tip, below, hl, rfl, rfl, hat⟩, fun _ => hat⟩
    split_ifs at hw with hres
    · -- resume: the suffix at the synced height is the chain the tracker already holds
      simp only [Tracker.resumes, Bool.and_eq_true, Bool.not_eq_eq_eq_not, Bool.not_true,
        decide_eq_true_eq, beq_iff_eq, Option.map_eq_some_iff] at hres
      obtain ⟨⟨⟨hd, _⟩, _⟩, b, hb, hbh⟩ := hres
      obtain ⟨hlt, rest, hup, hrest⟩ := blockAt_eq_some hb
      refine walk_trackerAt (fun d hdsuf hdlen => ?_) (by omega) hw
      rw [suffix_eq_upTo hdsuf hdlen, hup]
      refine hf.trackerAt inj nonnull ?_ hd hbh
      rw [← hup]
      exact hl.suffix (upTo_suffix _ _)
    · exact walk_trackerAt (fun d _ hdlen => trackerAt_legacy (by
        simp only [Node.modernStart]; omega)) (fun hshort => trackerAt_legacy (by
        simp only [Node.modernStart]; omega)) hw

theorem Tracker.blockConnected_faithful {b : Block β}
    (hf : t.Faithful n) (hl : Linked n.hash (b :: below)) :
    (t.blockConnected n sv b below).Faithful n := by
  unfold Tracker.blockConnected
  by_cases hleg : below.length ≤ n.finalHeight
  · rw [if_pos hleg]
    exact hf
  rw [if_neg hleg]
  by_cases hstep : t.dirty = true ∨ below.head?.map n.hash ≠ some t.syncedTip
  · rw [if_pos hstep]
    exact .of_dirty rfl
  rw [if_neg hstep]
  simp only [not_or, Bool.not_eq_true, Decidable.not_not, Option.map_eq_some_iff] at hstep
  obtain ⟨hd, a, ha, hah⟩ := hstep
  cases happly : applyBlock n sv.rootAt below b t.state with
  | none => exact .of_dirty rfl
  | some s =>
    by_cases htr : sv.stepTrackers below.length = true
    · simp only [htr, if_true]
      intro _
      cases below with
      | nil => simp at ha
      | cons a' rest =>
        simp only [head?_cons, Option.some.injEq] at ha
        subst ha
        have hat := hf.trackerAt inj nonnull hl.tail hd hah
        exact ⟨b, a' :: rest, hl, rfl, rfl, .block sv.rootAt b hat happly⟩
    · simp only [htr]
      exact .of_dirty rfl

end Injective

end B3Coin.Finality
