import B3Coin.Bridge.Params
import B3Coin.Bridge.Ssz
import B3Coin.Lib.Procedure
import Mathlib.Data.Finset.Dedup
import Mathlib.Data.Finset.Card
import Mathlib.Data.Finset.Range
import Mathlib.Data.List.GetD
import Mathlib.Logic.Equiv.List

/-!
# The committees the light client follows

`ProcessUpdate` writes the store in place; it is a procedure here, and it either writes
what `processUpdate` says or nothing. Along any sequence of updates the store only moves
forward (`Later`), and as long as the committees of the beacon chain sign genuine headers
only, the committees in the store are theirs (`FollowsGenuine`).
-/
namespace B3Coin.Bridge

open LightClientStore List SyncAggregate Proc Nat Guards
open LightClientStore (processUpdate advance learnNext headerGuards verifyUpdate)

variable {C : BeaconCrypto} {cfg : LightClientConfig} {u : LightClientUpdate}
  {s t : LightClientStore}

/-! ## Updates in place -/

section InPlace

variable (C cfg)

/-- The rotation of `ProcessUpdate`. -/
def rotateInPlace (newPeriod : Nat) : Proc LcResult LightClientStore Unit := do
  let period ← read (·.period)
  if newPeriod = period + 1 then
    match ← read (·.next) with
    | none => fail .PERIOD
    | some c =>
      write ({ · with current := c })
      write ({ · with next := none })
      write ({ · with period := newPeriod })
  else refuseWith (newPeriod ≠ period) .PERIOD

/-- `bridge::ProcessUpdate`. -/
def processUpdateInPlace (u : LightClientUpdate) : Proc LcResult LightClientStore Unit := do
  let r ← read (·.verifyUpdate C cfg u)
  refuseWith (r ≠ .OK) r
  rotateInPlace (periodAtSlot u.finalized.beacon.slot)
  write (·.advance u)
  write (·.learnNext u)

/-- The store after a sequence of updates, accepted or not. -/
def feed (s : LightClientStore) (us : List LightClientUpdate) : LightClientStore :=
  us.foldl (fun s u => (processUpdateInPlace C cfg u s).2) s

end InPlace

theorem rotateInPlace_eq (newPeriod : Nat) :
    rotateInPlace newPeriod = update (·.rotate newPeriod) := by
  funext s
  rw [rotateInPlace, read_bind, update, LightClientStore.rotate]
  by_cases hrotates : newPeriod = s.period + 1
  · rw [if_pos hrotates, if_pos hrotates, read_bind]
    cases s.next <;> rfl
  · rw [if_neg hrotates, if_neg hrotates, refuseWith_apply]
    split <;> rfl

theorem processUpdateInPlace_eq (u : LightClientUpdate) :
    processUpdateInPlace C cfg u = update (·.processUpdate C cfg u) := by
  funext s
  rw [processUpdateInPlace, read_bind, refuseWith_bind, rotateInPlace_eq,
    update_bind, update, processUpdate]
  cases hr : s.verifyUpdate C cfg u with
  | OK =>
    cases hrotate : s.rotate (periodAtSlot u.finalized.beacon.slot) <;> simp [Except.map]
  | _ => rfl

/-! ## What moves forward -/

theorem rotate_ok {period : Nat} (h : s.rotate period = .ok t) :
    t.finalizedHeader = s.finalizedHeader ∧ t.period = period ∧
      (period = s.period ∧ t = s ∨
        period = s.period + 1 ∧ s.next = some t.current ∧ t.next = none) := by
  unfold LightClientStore.rotate at h
  split at h
  · rename_i hrotates
    split at h
    · cases h
    · rename_i next hnext
      cases h
      exact ⟨rfl, rfl, .inr ⟨hrotates, hnext, rfl⟩⟩
  · split at h
    · cases h
    · rename_i hsame
      cases h
      exact ⟨rfl, (not_not.mp hsame).symm, .inl ⟨not_not.mp hsame, rfl⟩⟩

@[simp] theorem advance_period : (s.advance u).period = s.period := by
  unfold advance
  split <;> rfl

@[simp] theorem advance_current : (s.advance u).current = s.current := by
  unfold advance
  split <;> rfl

@[simp] theorem advance_next : (s.advance u).next = s.next := by
  unfold advance
  split <;> rfl

@[simp] theorem learnNext_period : (s.learnNext u).period = s.period := by
  unfold learnNext
  split <;> rfl

@[simp] theorem learnNext_current : (s.learnNext u).current = s.current := by
  unfold learnNext
  split <;> rfl

@[simp] theorem learnNext_finalizedHeader :
    (s.learnNext u).finalizedHeader = s.finalizedHeader := by
  unfold learnNext
  split <;> rfl

theorem learnNext_of_some {next : SyncCommittee} (h : s.next = some next) :
    (s.learnNext u).next = some next := by
  simp [learnNext, h]

/-- A committee that is new comes from the update, in the period of its attested header. -/
theorem learnNext_of_none {next : SyncCommittee} (h : s.next = none)
    (hnext : (s.learnNext u).next = some next) :
    u.hasNext = true ∧ periodAtSlot u.attested.beacon.slot = s.period ∧
      next = u.nextCommittee := by
  unfold learnNext at hnext
  split at hnext
  · rename_i hlearns
    cases hnext
    simp only [h, Option.isNone_none, Bool.and_true, Bool.and_eq_true, beq_iff_eq] at hlearns
    exact ⟨hlearns.1, hlearns.2, rfl⟩
  · rw [h] at hnext
    cases hnext

/-- The store `t` may come after `s`. -/
structure Later (C : BeaconCrypto) (s t : LightClientStore) : Prop where
  slot_le : s.finalizedHeader.beacon.slot ≤ t.finalizedHeader.beacon.slot
  root_eq : s.finalizedHeader.beacon.slot = t.finalizedHeader.beacon.slot →
    C.beaconRoot s.finalizedHeader.beacon = C.beaconRoot t.finalizedHeader.beacon
  period_le : s.period ≤ t.period
  next_eq : ∀ next, s.next = some next → t.period = s.period → t.next = some next

namespace Later

theorem refl (s : LightClientStore) : Later C s s := ⟨le_rfl, fun _ => rfl, le_rfl, fun _ h _ => h⟩

theorem trans {r : LightClientStore} (h : Later C r s) (h' : Later C s t) : Later C r t where
  slot_le := h.slot_le.trans h'.slot_le
  root_eq heq := by
    have := h.slot_le
    have := h'.slot_le
    exact (h.root_eq (by omega)).trans (h'.root_eq (by omega))
  period_le := h.period_le.trans h'.period_le
  next_eq next hnext hperiod := by
    have := h.period_le
    have := h'.period_le
    exact h'.next_eq next (h.next_eq next hnext (by omega)) (by omega)

end Later

section

variable (h : s.processUpdate C cfg u = .ok t)

include h

/-- The finalized header after an accepted update: the newer one of the two. -/
theorem processUpdate_finalizedHeader :
    t.finalizedHeader = if s.finalizedHeader.beacon.slot ≤ u.finalized.beacon.slot then u.finalized
      else s.finalizedHeader := by
  obtain ⟨-, rotated, hrotate, rfl⟩ := processUpdate_ok h
  rw [learnNext_finalizedHeader, advance, (rotate_ok hrotate).1]
  split
  · rfl
  · exact (rotate_ok hrotate).1

theorem processUpdate_period : t.period = periodAtSlot u.finalized.beacon.slot ∧
      s.period ≤ t.period ∧ t.period ≤ s.period + 1 := by
  obtain ⟨-, rotated, hrotate, rfl⟩ := processUpdate_ok h
  obtain ⟨-, hperiod, hcase⟩ := rotate_ok hrotate
  simp only [learnNext_period, advance_period]
  exact ⟨hperiod, by omega, by omega⟩

theorem processUpdate_later : Later C s t := by
  have hheader := processUpdate_finalizedHeader h
  refine ⟨?_, fun hslot => ?_, (processUpdate_period h).2.1, fun next hnext hsame => ?_⟩
  · rw [hheader]
    split
    · assumption
    · exact le_rfl
  · split at hheader
    · rw [hheader] at hslot ⊢
      exact ((processUpdate_ok h).1.same_root hslot.symm).symm
    · rw [hheader]
  · obtain ⟨-, rotated, hrotate, rfl⟩ := processUpdate_ok h
    obtain ⟨-, hperiod, ⟨-, rfl⟩ | ⟨hrotates, -, -⟩⟩ := rotate_ok hrotate
    · exact learnNext_of_some (by rwa [advance_next])
    · -- a rotation would have left the period
      rw [learnNext_period, advance_period] at hsame
      omega

/-- An older update is accepted only in the period of the store. -/
theorem processUpdate_aligned (hs : s.Aligned) : t.Aligned := by
  rw [LightClientStore.Aligned, (processUpdate_period h).1, processUpdate_finalizedHeader h]
  split
  · rfl
  · rename_i hslot
    have hfills := (processUpdate_ok h).1.fills (not_le.mp hslot)
    simp only [LightClientStore.fillsNextCommittee, Bool.and_eq_true, beq_iff_eq] at hfills
    rw [hfills.1.2, hs]

end

/-! ## The beacon chain -/

/-- A root commits to a leaf at a generalized index: some branch leads from one to the
other. -/
def Commits (C : BeaconCrypto) (root : Uint256) (gindex : Nat) (leaf : Uint256) : Prop :=
  ∃ branch, verifyBranch C.hashPair leaf branch gindex root = true

variable {root : Uint256}

theorem Commits.unique (hinj : Function.Injective2 C.hashPair) {x y : Uint256} {gindex : Nat}
    (hx : Commits C root gindex x) (hy : Commits C root gindex y) : x = y := by
  obtain ⟨path, hpath⟩ := hx
  obtain ⟨path', hpath'⟩ := hy
  simp only [verifyBranch, Bool.and_eq_true, beq_iff_eq, climbBranch_eq] at hpath hpath'
  exact (Merkle.climb_inj (Merkle.collisionFree_univ hinj) (fun _ _ => Set.mem_univ _)
    (fun _ _ => Set.mem_univ _) (hpath.1.2.trans hpath'.1.2.symm)
    (hpath.2.trans hpath'.2.symm)).1

/-- The beacon chain as far as the light client is concerned: which headers are on it, and
the committee of each period. The state of a genuine header holds the committee of its
period and the one after. -/
structure BeaconChain (C : BeaconCrypto) (cfg : LightClientConfig) where
  Genuine : BeaconBlockHeader → Prop
  committee : Nat → SyncCommittee
  full : ∀ period, (committee period).pubkeys.length = SYNC_COMMITTEE_SIZE
  current : ∀ h, Genuine h → Commits C h.stateRoot
    (cfg.currentCommitteeGindex (epochAtSlot h.slot))
    (C.committeeRoot (committee (periodAtSlot h.slot)))
  next : ∀ h, Genuine h → Commits C h.stateRoot
    (cfg.nextCommitteeGindex (epochAtSlot h.slot))
    (C.committeeRoot (committee (periodAtSlot h.slot + 1)))

/-- Two thirds of the seats of a committee have signed the message. -/
def SupermajoritySigned (Signed : Nat → Uint256 → Prop) (committee : SyncCommittee)
    (message : Uint256) : Prop :=
  ∃ seats ⊆ Finset.range SYNC_COMMITTEE_SIZE, 2 * SYNC_COMMITTEE_SIZE ≤ 3 * seats.card ∧
    ∀ i ∈ seats, Signed (committee.pubkeys.getD i 0) message

variable {B : BeaconChain C cfg} {Signed : Nat → Uint256 → Prop}

section

variable (B : BeaconChain C cfg) (Signed : Nat → Uint256 → Prop)

/-- Hashes without collisions, and aggregates that only verify if each of the keys has
signed. `Signed key message` says that the holder of the key signed the message. -/
structure Ideal : Prop where
  hashPair_inj : Function.Injective2 C.hashPair
  beaconRoot_inj : Function.Injective C.beaconRoot
  committeeRoot_inj :
    Set.InjOn C.committeeRoot {c | c.pubkeys.length = SYNC_COMMITTEE_SIZE}
  aggregate : ∀ period keys message signature, keys ⊆ (B.committee period).pubkeys →
    C.fastAggregateVerify keys message signature = true → ∀ key ∈ keys, Signed key message

/-- Every header signed by two thirds of the committee of its period is genuine. -/
def HonestMajority : Prop :=
  ∀ h epoch, SupermajoritySigned Signed (B.committee (periodAtSlot h.slot))
    (C.signingRoot (cfg.forkVersionAt epoch) cfg.genesisValidatorsRoot (C.beaconRoot h)) →
    B.Genuine h

/-- The committees in the store are those of the beacon chain. -/
structure FollowsGenuine (s : LightClientStore) : Prop where
  current : s.current = B.committee s.period
  next : ∀ next, s.next = some next → next = B.committee (s.period + 1)

end

variable {committee : SyncCommittee}

theorem FollowsGenuine.committeeFor (hs : FollowsGenuine B s) {period : Nat}
    (h : s.committeeFor period = some committee) : committee = B.committee period := by
  unfold LightClientStore.committeeFor at h
  split_ifs at h with hcurrent hnext
  · rw [hcurrent, ← hs.current, Option.some.inj h]
  · rw [hnext, hs.next committee h]

/-- The seats whose bits are set. -/
def SyncAggregate.seats (a : SyncAggregate) : Finset Nat :=
  ((List.range SYNC_COMMITTEE_SIZE).filter a.participant).toFinset

theorem SyncAggregate.mem_seats {a : SyncAggregate} {i : Nat} :
    i ∈ a.seats ↔ i ∈ (List.range SYNC_COMMITTEE_SIZE).filter a.participant :=
  mem_toFinset

theorem SyncAggregate.card_seats (a : SyncAggregate) : a.seats.card = a.participation := by
  rw [SyncAggregate.participation, countP_eq_length_filter]
  exact toFinset_card_of_nodup (nodup_range.filter _)

theorem participantKeys_subset (hfull : committee.pubkeys.length = SYNC_COMMITTEE_SIZE) :
    participantKeys u committee ⊆ committee.pubkeys := by
  intro key hkey
  obtain ⟨i, hi, rfl⟩ := mem_map.mp hkey
  have hlt := mem_range.mp (mem_filter.mp hi).1
  rw [← hfull] at hlt
  rw [getD_eq_getElem _ _ hlt]
  exact getElem_mem hlt

/-- Enough seats of the committee an accepted update names have signed its attested header. -/
theorem supermajoritySigned_of_accepts (hI : Ideal B Signed)
    (hmin : ETHEREUM_SYNC_COMMITTEE_SUPERMAJORITY ≤ cfg.minParticipants)
    (hs : FollowsGenuine B s) (hu : s.Accepts C cfg u) :
    ∃ epoch, SupermajoritySigned Signed (B.committee (periodAtSlot u.signatureSlot))
      (C.signingRoot (cfg.forkVersionAt epoch) cfg.genesisValidatorsRoot
        (C.beaconRoot u.attested.beacon)) := by
  obtain ⟨committee, hcommittee, hguards⟩ := hu.signed
  obtain rfl := hs.committeeFor hcommittee
  simp only [signatureGuards, forall_mem_cons, Bool.or_eq_false_iff, decide_eq_false_iff_not,
    not_lt, Bool.not_eq_false'] at hguards
  obtain ⟨⟨hparticipants, -⟩, -, -, hverify, -⟩ := hguards
  refine ⟨epochAtSlot (max u.signatureSlot 1 - 1), u.syncAggregate.seats,
    fun i hi => ?_, ?_, fun i hi => ?_⟩
  · exact Finset.mem_range.mpr
      (mem_range.mp (mem_filter.mp (mem_seats.mp hi)).1)
  · rw [card_seats]
    simp only [ETHEREUM_SYNC_COMMITTEE_SUPERMAJORITY] at hmin
    simp only [SYNC_COMMITTEE_SIZE]
    omega
  · refine hI.aggregate _ _ _ _ (participantKeys_subset (B.full _)) hverify _ ?_
    exact mem_map.mpr ⟨i, mem_seats.mp hi, rfl⟩

section

variable (hI : Ideal B Signed) (hH : HonestMajority B Signed)
  (hmin : ETHEREUM_SYNC_COMMITTEE_SUPERMAJORITY ≤ cfg.minParticipants) (hs : FollowsGenuine B s)

include hI hH hmin hs

/-- The next committee of an accepted update is the genuine one of the period after its
attested header: only there do the signatures of that period stand behind it. -/
theorem nextCommittee_genuine (hu : s.Accepts C cfg u) (hnext : u.hasNext = true) :
    u.nextCommittee = B.committee (periodAtSlot u.attested.beacon.slot + 1) := by
  obtain ⟨epoch, hsigned⟩ := supermajoritySigned_of_accepts hI hmin hs hu
  rw [← hu.same_period hnext] at hsigned
  have hgenuine := hH _ epoch hsigned
  exact hI.committeeRoot_inj (hu.full hnext) (B.full _)
    (Commits.unique hI.hashPair_inj ⟨u.nextBranch, hu.next hnext⟩ (B.next _ hgenuine))

theorem processUpdate_followsGenuine
    (h : s.processUpdate C cfg u = .ok t) : FollowsGenuine B t := by
  obtain ⟨hu, rotated, hrotate, rfl⟩ := processUpdate_ok h
  obtain ⟨-, hperiod, hcase⟩ := rotate_ok hrotate
  -- the committees before the update is asked for a new one
  have hrotated : FollowsGenuine B rotated := by
    rcases hcase with ⟨-, rfl⟩ | ⟨hrotates, hcurrent, hnone⟩
    · exact hs
    · refine ⟨?_, fun next hnext => ?_⟩
      · rw [hperiod, hrotates]
        exact hs.next _ hcurrent
      · rw [hnone] at hnext
        cases hnext
  refine ⟨?_, fun next hnext => ?_⟩
  · simpa only [learnNext_current, learnNext_period, advance_current, advance_period]
      using hrotated.current
  · simp only [learnNext_period, advance_period]
    cases hknown : rotated.next with
    | some known =>
      rw [learnNext_of_some (by rw [advance_next, hknown])] at hnext
      cases hnext
      exact hrotated.next _ hknown
    | none =>
      obtain ⟨hhas, hattested, rfl⟩ := learnNext_of_none (by rw [advance_next, hknown]) hnext
      rw [nextCommittee_genuine hI hH hmin hs hu hhas, hattested, advance_period]

end

/-! ## Sequences of updates -/

theorem feed_invariant {P : LightClientStore → Prop}
    (keep : ∀ s t u, P s → s.processUpdate C cfg u = .ok t → P t) (hs : P s)
    (us : List LightClientUpdate) : P (feed C cfg s us) := by
  induction us generalizing s with
  | nil => exact hs
  | cons u us ih =>
    refine ih (show P (processUpdateInPlace C cfg u s).2 from ?_)
    rw [processUpdateInPlace_eq, update]
    split
    · rename_i t ht
      exact keep s t u hs ht
    · exact hs

theorem feed_later (s : LightClientStore) (us : List LightClientUpdate) :
    Later C s (feed C cfg s us) :=
  feed_invariant (P := Later C s) (fun _ _ _ h hstep => h.trans (processUpdate_later hstep))
    (.refl s) us

variable {header : LightClientHeader} {current : SyncCommittee}

theorem initStore_followsGenuine (hI : Ideal B Signed) {branch : List Uint256}
    (h : initStore C cfg root header current branch = .ok s)
    {checkpoint : BeaconBlockHeader} (hgenuine : B.Genuine checkpoint)
    (hroot : C.beaconRoot checkpoint = root) : FollowsGenuine B s := by
  have hguards := (run_eq_ok.mp h).1
  simp only [forall_mem_cons, bne_eq_false_iff_eq, Bool.not_eq_false'] at hguards
  obtain ⟨hfull, hheader, -, hcommits, -⟩ := hguards
  obtain rfl := initStore_ok h
  obtain rfl := hI.beaconRoot_inj (hroot.trans hheader.symm)
  exact ⟨hI.committeeRoot_inj hfull (B.full _)
    (Commits.unique hI.hashPair_inj ⟨_, hcommits⟩ (B.current _ hgenuine)), fun next hnext => nomatch hnext⟩

/-- The light client only follows genuine committees, whatever it is fed. -/
theorem follows_genuine_committees {root : Uint256} {header : LightClientHeader}
    {current : SyncCommittee} {branch : List Uint256} {s₀ : LightClientStore}
    (h₀ : initStore C cfg root header current branch = .ok s₀) (us vs : List LightClientUpdate) :
    let s := feed C cfg s₀ us
    s.Aligned ∧ Later C s (feed C cfg s vs) ∧
      (∀ u, (processUpdateInPlace C cfg u s).2.period ≤ s.period + 1) ∧
      (∀ u e, (processUpdateInPlace C cfg u s).1 = .error e →
        (processUpdateInPlace C cfg u s).2 = s) ∧
      ∀ (B : BeaconChain C cfg) (Signed : Nat → Uint256 → Prop) (checkpoint : BeaconBlockHeader),
        B.Genuine checkpoint → C.beaconRoot checkpoint = root → Ideal B Signed →
        ETHEREUM_SYNC_COMMITTEE_SUPERMAJORITY ≤ cfg.minParticipants → HonestMajority B Signed →
        FollowsGenuine B s := by
  intro s
  refine ⟨?_, feed_later s vs, fun u => ?_, fun u => ?_, ?_⟩
  · refine feed_invariant (fun _ _ _ hs h => processUpdate_aligned h hs) ?_ us
    rw [initStore_ok h₀]
    rfl
  · rw [processUpdateInPlace_eq, update]
    split
    · rename_i t ht
      exact (processUpdate_period ht).2.2
    · exact le_succ _
  · rw [processUpdateInPlace_eq]
    exact allOrNothing_update _ s
  · intro B Signed checkpoint hgenuine hroot hI hmin hH
    exact feed_invariant (fun _ _ _ hs h => processUpdate_followsGenuine hI hH hmin hs h)
      (initStore_followsGenuine hI h₀ hgenuine hroot) us

/-! ### A chain of two headers -/

section Sample

/-- The state root with both committees equal and the given finalized root. -/
def sampleStateRoot (finalized committee : Uint256) : Uint256 :=
  pair 0 (pair (pair 0 (pair (pair (pair 0 finalized) 0)
    (pair committee committee))) 0)

@[irreducible] def sampleCommittee : SyncCommittee := ⟨List.replicate SYNC_COMMITTEE_SIZE 0, 0⟩

@[irreducible] def sampleBeaconRoot (h : BeaconBlockHeader) : Uint256 :=
  Encodable.encode (h.slot, h.proposerIndex, h.parentRoot, h.stateRoot, h.bodyRoot)

/-- Zero for the committee of the sample, so that its roots stay small. -/
@[irreducible] def sampleCommitteeRoot (c : SyncCommittee) : Uint256 :=
  if c = sampleCommittee then 0 else Encodable.encode (c.pubkeys, c.aggregatePubkey) + 1

/-- A header whose payload root is zero. -/
def sampleHeader (slot : Nat) (finalized : Uint256) : LightClientHeader where
  beacon :=
    { slot := slot, stateRoot := sampleStateRoot finalized (sampleCommitteeRoot sampleCommittee),
      bodyRoot := climbBranch pair 9 0 [0, 0, 0, 0] }
  executionBranch := [0, 0, 0, 0]

def sampleBootstrap : LightClientHeader := sampleHeader 1 0

def sampleAttested : LightClientHeader := sampleHeader 2 (sampleBeaconRoot sampleBootstrap.beacon)

def sampleCrypto : BeaconCrypto where
  hashPair := pair
  beaconRoot := sampleBeaconRoot
  executionRoot _ := 0
  committeeRoot := sampleCommitteeRoot
  signingRoot _ _ root := root
  publicKeyDecodes _ := true
  signatureDecodes _ := true
  fastAggregateVerify _ message _ := message == sampleBeaconRoot sampleAttested.beacon

def sampleConfig : LightClientConfig where
  genesisValidatorsRoot := 0
  forks := []
  electraEpoch := UINT64_MAX
  minParticipants := ETHEREUM_SYNC_COMMITTEE_SUPERMAJORITY

def sampleSigned (_ : Nat) (message : Uint256) : Prop :=
  message = sampleBeaconRoot sampleAttested.beacon

/-- The branch of either committee. -/
def sampleBranch (finalized : Uint256) : List Uint256 :=
  [sampleCommitteeRoot sampleCommittee, pair (pair 0 finalized) 0, 0, 0, 0]

theorem sampleStateRoot_branch {finalized : Uint256} {gindex : Nat}
    (h : gindex = 54 ∨ gindex = 55) :
    verifyBranch pair (sampleCommitteeRoot sampleCommittee) (sampleBranch finalized) gindex
      (sampleStateRoot finalized (sampleCommitteeRoot sampleCommittee)) = true := by
  rcases h with rfl | rfl <;>
    simp [verifyBranch, climbBranch, sampleStateRoot, sampleBranch,
      show log2 54 = 5 by decide, show log2 55 = 5 by decide]

theorem sampleCommittee_full : sampleCommittee.pubkeys.length = SYNC_COMMITTEE_SIZE := by
  rw [sampleCommittee]
  exact length_replicate

/-- Both headers of the sample are of epoch and period zero, and the committee never changes. -/
def sampleChain : BeaconChain sampleCrypto sampleConfig where
  Genuine h := h = sampleBootstrap.beacon ∨ h = sampleAttested.beacon
  committee _ := sampleCommittee
  full _ := sampleCommittee_full
  current h hh := by
    rcases hh with rfl | rfl <;> exact ⟨_, sampleStateRoot_branch (.inl rfl)⟩
  next h hh := by
    rcases hh with rfl | rfl <;> exact ⟨_, sampleStateRoot_branch (.inr rfl)⟩

theorem sampleBeaconRoot_injective : Function.Injective sampleBeaconRoot := by
  intro a b h
  rw [sampleBeaconRoot, sampleBeaconRoot] at h
  cases a
  simp_all

theorem sampleCommitteeRoot_injective : Function.Injective sampleCommitteeRoot := by
  intro a b h
  rw [sampleCommitteeRoot, sampleCommitteeRoot] at h
  split_ifs at h with ha hb
  · rw [ha, hb]
  · cases a
    simp_all

theorem sampleIdeal : Ideal sampleChain sampleSigned where
  hashPair_inj := fun _ _ _ _ h => pair_eq_pair.mp h
  beaconRoot_inj := sampleBeaconRoot_injective
  committeeRoot_inj := sampleCommitteeRoot_injective.injOn
  aggregate _ _ _ _ _ h _ _ := beq_iff_eq.mp h

theorem sampleHonest : HonestMajority sampleChain sampleSigned := by
  rintro h epoch ⟨seats, -, hcard, hsigned⟩
  obtain ⟨i, hi⟩ : seats.Nonempty := by
    rw [← Finset.card_pos]
    simp only [SYNC_COMMITTEE_SIZE] at hcard
    omega
  exact .inr (sampleBeaconRoot_injective (hsigned i hi))

def sampleUpdate : LightClientUpdate where
  attested := sampleAttested
  finalized := sampleBootstrap
  finalityBranch := [0, 0, pair (sampleCommitteeRoot sampleCommittee)
    (sampleCommitteeRoot sampleCommittee), 0, 0, 0]
  hasNext := true
  nextCommittee := sampleCommittee
  nextBranch := sampleBranch (sampleBeaconRoot sampleBootstrap.beacon)
  syncAggregate := ⟨BitVec.allOnes 512, 0⟩
  signatureSlot := 3

theorem sampleHeader_execution (slot : Nat) (finalized : Uint256) :
    (sampleHeader slot finalized).verifyExecution sampleCrypto = true := by
  simp [LightClientHeader.verifyExecution, ExecutionPayloadHeader.validForHashTreeRoot,
    verifyBranch, sampleHeader, sampleCrypto, EXECUTION_PAYLOAD_GINDEX,
    show log2 25 = 4 by decide]

theorem sampleStore_ok : initStore sampleCrypto sampleConfig
    (sampleBeaconRoot sampleBootstrap.beacon) sampleBootstrap sampleCommittee (sampleBranch 0) =
      .ok ⟨sampleBootstrap, 0, sampleCommittee, none⟩ := by
  refine run_eq_ok.mpr ⟨?_, rfl⟩
  have hbranch : verifyBranch sampleCrypto.hashPair (sampleCrypto.committeeRoot sampleCommittee)
      (sampleBranch 0) (sampleConfig.currentCommitteeGindex
        (epochAtSlot sampleBootstrap.beacon.slot)) sampleBootstrap.beacon.stateRoot = true :=
    sampleStateRoot_branch (.inl rfl)
  have hexecution : sampleBootstrap.verifyExecution sampleCrypto = true :=
    sampleHeader_execution _ _
  have hroot : sampleCrypto.beaconRoot sampleBootstrap.beacon =
      sampleBeaconRoot sampleBootstrap.beacon := rfl
  simp [hbranch, hexecution, sampleCommittee_full, hroot]

def sampleStore : LightClientStore := ⟨sampleBootstrap, 0, sampleCommittee, none⟩

theorem sampleUpdate_finality :
    verifyBranch pair (sampleBeaconRoot sampleBootstrap.beacon) sampleUpdate.finalityBranch 105
      sampleAttested.beacon.stateRoot = true := by
  simp [verifyBranch, climbBranch, sampleStateRoot, sampleUpdate, sampleAttested, sampleHeader,
    show log2 105 = 6 by decide]

theorem sampleUpdate_participation : sampleUpdate.syncAggregate.participation = 512 := by
  have hall : ∀ i ∈ List.range SYNC_COMMITTEE_SIZE, sampleUpdate.syncAggregate.participant i := by
    intro i hi
    exact (BitVec.getLsbD_allOnes).trans (decide_eq_true (mem_range.mp hi))
  rw [SyncAggregate.participation, countP_eq_length.mpr hall, length_range]
  rfl

theorem sampleUpdate_OK :
    sampleStore.verifyUpdate sampleCrypto sampleConfig sampleUpdate = .OK := by
  have hnext : verifyBranch sampleCrypto.hashPair
      (sampleCrypto.committeeRoot sampleUpdate.nextCommittee) sampleUpdate.nextBranch
      (sampleConfig.nextCommitteeGindex (epochAtSlot sampleUpdate.attested.beacon.slot))
      sampleUpdate.attested.beacon.stateRoot = true := sampleStateRoot_branch (.inr rfl)
  have hfinality : verifyBranch sampleCrypto.hashPair
      (sampleCrypto.beaconRoot sampleUpdate.finalized.beacon) sampleUpdate.finalityBranch
      (sampleConfig.finalityGindex (epochAtSlot sampleUpdate.attested.beacon.slot))
      sampleUpdate.attested.beacon.stateRoot = true := sampleUpdate_finality
  have hattested : sampleUpdate.attested.verifyExecution sampleCrypto = true :=
    sampleHeader_execution _ _
  have hfinalized : sampleUpdate.finalized.verifyExecution sampleCrypto = true :=
    sampleHeader_execution _ _
  have hheader : first (sampleStore.headerGuards sampleCrypto sampleConfig sampleUpdate) =
      none := by
    rw [first_eq_none]
    simp only [headerGuards, forall_mem_cons, hnext, hfinality, hattested,
      hfinalized]
    exact ⟨by simp [sampleUpdate, sampleCommittee_full], by decide, by decide, by decide,
      rfl, rfl, rfl, by simp [sampleUpdate, sampleStore], by decide, rfl, forall_mem_nil _⟩
  have hsigned : first
      (signatureGuards sampleCrypto sampleConfig sampleUpdate sampleCommittee) = none := by
    rw [first_eq_none]
    simp only [signatureGuards, forall_mem_cons, sampleUpdate_participation]
    exact ⟨by decide, by simp [sampleCrypto], rfl, by simp [sampleCrypto, sampleUpdate],
      forall_mem_nil _⟩
  rw [verifyUpdate, hheader]
  show (first (signatureGuards sampleCrypto sampleConfig sampleUpdate
    sampleCommittee)).getD .OK = .OK
  rw [hsigned]
  rfl

theorem sampleUpdate_accepted : sampleStore.processUpdate sampleCrypto sampleConfig sampleUpdate =
    .ok { sampleStore with next := some sampleCommittee } := by
  rw [processUpdate, sampleUpdate_OK]
  rfl

theorem sample_follows_genuine :
    let s := feed sampleCrypto sampleConfig sampleStore [sampleUpdate]
    s.next = some sampleCommittee ∧ s.Aligned ∧ FollowsGenuine sampleChain s := by
  have h := follows_genuine_committees sampleStore_ok [sampleUpdate] []
  refine ⟨?_, h.1, h.2.2.2.2 sampleChain sampleSigned _ (.inl rfl) rfl sampleIdeal le_rfl
    sampleHonest⟩
  rw [feed, foldl_cons, foldl_nil, processUpdateInPlace_eq, update]
  simp only [sampleUpdate_accepted]

end Sample

end B3Coin.Bridge
