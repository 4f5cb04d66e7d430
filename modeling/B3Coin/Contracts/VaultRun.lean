import B3Coin.Contracts.StakerBridge

/-!
# Runs of the vault

The vault with its token and its verifier. A call to the token hands control to code
nobody knows: it may call the vault again, the verifier, or anyone else, and each of these
calls may be undone by a revert. A state therefore has a stack: a frame for each call that
has not returned, with the world a revert of it restores. Every state in the middle of a
call is a state of the run.

The token moves exactly what it is asked to move, once; apart from that anyone may send
tokens to the vault at any time, and nobody but the vault can take some away.
-/
namespace B3Coin.StakerBridge

open List Guards

open Codec (Bytes)

/-- What the vault has booked. -/
inductive Movement where
  | deposit (received : Nat)
  | release (w : Withdrawal)

/-- `accepted` are the calls the verifier has accepted and `history` the movements the vault
has booked, the latest first; the contracts do not store them. -/
structure World where
  vault : Storage
  verifier : FinalityVerifier.World
  accepted : List FinalityVerifier.Accepted
  balance : Nat
  history : List Movement

inductive Frame where
  | deposit (snapshot : World) (beforeBalance amount : Nat) (moved : Bool)
  | release (snapshot : World) (w : Withdrawal) (moved : Bool)
  | other (snapshot : World)

structure State where
  world : World
  stack : List Frame

def paidIn (history : List Movement) : Nat :=
  (history.map fun | .deposit received => received | .release _ => 0).sum

def paidOut (history : List Movement) : Nat :=
  (history.map fun | .deposit _ => 0 | .release w => w.amount).sum

def releasedIds (history : List Movement) : List Nat :=
  history.filterMap fun | .deposit _ => none | .release w => some w.withdrawalId

section Run

variable (keccak256 : Bytes → Uint256) (c : Immutables)

/-- One step of anyone. Calls that revert at their first checks change nothing and are left
out. -/
inductive Step : State → State → Prop
  /-- The verifier accepts a call. -/
  | verify {w : World} {stack : List Frame} {s' : FinalityVerifier.Storage} (t : Nat)
      (k : FinalityVerifier.Call) : w.verifier.now ≤ t →
      FinalityVerifier.exec keccak256 c.verifier t k w.verifier.storage = .ok s' →
      Step ⟨w, stack⟩ ⟨{ w with
        verifier := ⟨t, s'⟩
        accepted := ⟨t, k, w.verifier.storage, s'⟩ :: w.accepted }, stack⟩
  /-- Time passes. -/
  | wait {w : World} {stack : List Frame} (t : Nat) : w.verifier.now ≤ t →
      Step ⟨w, stack⟩ ⟨{ w with verifier := ⟨t, w.verifier.storage⟩ }, stack⟩
  /-- Someone sends tokens to the vault without being asked. -/
  | donate {w : World} {stack : List Frame} (amount : Nat) :
      Step ⟨w, stack⟩ ⟨{ w with balance := w.balance + amount }, stack⟩
  | enter {w : World} {stack : List Frame} : Step ⟨w, stack⟩ ⟨w, .other w :: stack⟩
  | leave {w snapshot : World} {stack : List Frame} : Step ⟨w, .other snapshot :: stack⟩ ⟨w, stack⟩
  | abort {w snapshot : World} {stack : List Frame} :
      Step ⟨w, .other snapshot :: stack⟩ ⟨snapshot, stack⟩
  /-- `deposit` up to the call to the token. -/
  | deposit {w : World} {stack : List Frame} (amount b3Recipient : Nat) :
      first (depositGuards c w.verifier amount b3Recipient w.vault) = none →
      Step ⟨w, stack⟩ ⟨{ w with vault := { w.vault with entered := true } },
        .deposit w w.balance amount false :: stack⟩
  | moveIn {w snapshot : World} {stack : List Frame} {beforeBalance amount : Nat} :
      Step ⟨w, .deposit snapshot beforeBalance amount false :: stack⟩
        ⟨{ w with balance := w.balance + amount },
          .deposit snapshot beforeBalance amount true :: stack⟩
  | depositReturns {w snapshot : World} {stack : List Frame} {beforeBalance amount : Nat}
      {s' : Storage} : finishDeposit c beforeBalance w.balance w.vault = .ok s' →
      Step ⟨w, .deposit snapshot beforeBalance amount true :: stack⟩
        ⟨{ w with vault := s', history := .deposit (w.balance - beforeBalance) :: w.history }, stack⟩
  /-- The token or a check after it fails. -/
  | depositReverts {w snapshot : World} {stack : List Frame} {beforeBalance amount : Nat}
      {moved : Bool} : Step ⟨w, .deposit snapshot beforeBalance amount moved :: stack⟩ ⟨snapshot, stack⟩
  /-- `release` up to the call to the token. -/
  | release {w : World} {stack : List Frame} (wd : Withdrawal) (path : ProofPath) :
      first (releaseGuards keccak256 c w.verifier.storage wd path w.vault) = none →
      Step ⟨w, stack⟩ ⟨{ w with vault := beginRelease wd w.vault, history := .release wd :: w.history },
        .release w wd false :: stack⟩
  | moveOut {w snapshot : World} {stack : List Frame} {wd : Withdrawal} : wd.amount ≤ w.balance →
      Step ⟨w, .release snapshot wd false :: stack⟩
        ⟨{ w with balance := w.balance - wd.amount }, .release snapshot wd true :: stack⟩
  | releaseReturns {w snapshot : World} {stack : List Frame} {wd : Withdrawal} :
      Step ⟨w, .release snapshot wd true :: stack⟩
        ⟨{ w with vault := { w.vault with entered := false } }, stack⟩
  | releaseReverts {w snapshot : World} {stack : List Frame} {wd : Withdrawal} {moved : Bool} :
      Step ⟨w, .release snapshot wd moved :: stack⟩ ⟨snapshot, stack⟩

/-- A vault right after its deployment; its address may already hold tokens. -/
def Fresh (s : State) : Prop :=
  s.stack = [] ∧ s.world.vault = ⟨0, 0, fun _ => false, false⟩ ∧ s.world.history = [] ∧
    FinalityVerifier.Trace keccak256 c.verifier s.world.accepted s.world.verifier

abbrev Reachable (s : State) : Prop := Transition.Reach (Fresh keccak256 c) (Step keccak256 c) s

end Run

/-! ## The invariant -/

section Invariant

variable {keccak256 : Bytes → Uint256} {c : Immutables} {w w' snapshot : World}
  {stack : List Frame} {wd : Withdrawal}

/-- The withdrawal has a path to a root that the verifier has accepted. -/
structure Contained (keccak256 : Bytes → Uint256) (c : Immutables)
    (accepted : List FinalityVerifier.Accepted) (wd : Withdrawal) : Prop where
  id_lt : wd.withdrawalId < 2 ^ 32
  path : ∃ path : ProofPath, FinalityVerifier.AcceptedRoot accepted (pathRoot keccak256 c wd path)

/-- What the vault's books say, wherever control is. -/
structure Booked (keccak256 : Bytes → Uint256) (c : Immutables) (w : World) : Prop where
  verifier : FinalityVerifier.Trace keccak256 c.verifier w.accepted w.verifier
  accounted : w.vault.locked + paidOut w.history = paidIn w.history
  released : ∀ id, w.vault.released id = true ↔ id ∈ releasedIds w.history
  once : (releasedIds w.history).Nodup
  contained : ∀ wd, .release wd ∈ w.history → Contained keccak256 c w.accepted wd

/-- The books are right and covered by the balance, for the world at hand and for every world
that a revert may bring back. Inside a call of the vault its guard is up, so that no second
call gets in; what is still to be moved by the token is counted as the call needs it. -/
def Solvent (keccak256 : Bytes → Uint256) (c : Immutables) : World → List Frame → Prop
  | w, [] => Booked keccak256 c w ∧ w.vault.entered = false ∧ w.vault.locked ≤ w.balance
  | w, .other snapshot :: stack => Solvent keccak256 c w stack ∧ Solvent keccak256 c snapshot stack
  | w, .deposit snapshot beforeBalance amount moved :: stack =>
    Solvent keccak256 c snapshot stack ∧ snapshot.vault.entered = false ∧ Booked keccak256 c w ∧
      w.vault.entered = true ∧ w.vault.locked ≤ beforeBalance ∧
      beforeBalance + (if moved then amount else 0) ≤ w.balance
  | w, .release snapshot wd moved :: stack =>
    Solvent keccak256 c snapshot stack ∧ snapshot.vault.entered = false ∧ Booked keccak256 c w ∧
      w.vault.entered = true ∧ w.vault.locked + (if moved then 0 else wd.amount) ≤ w.balance

theorem Solvent.booked (h : Solvent keccak256 c w stack) :
    Booked keccak256 c w ∧ w.vault.locked ≤ w.balance := by
  induction stack with
  | nil => exact ⟨h.1, h.2.2⟩
  | cons frame stack ih =>
    cases frame with
    | other snapshot => exact ih h.1
    | deposit snapshot beforeBalance amount moved => exact ⟨h.2.2.1, by have := h.2.2.2.2; omega⟩
    | release snapshot wd moved => exact ⟨h.2.2.1, by have := h.2.2.2.2; omega⟩

/-- Nothing outside the vault can do harm: the vault is as before, and it has not lost tokens. -/
theorem Solvent.grow (h : Solvent keccak256 c w stack) (hbooked : Booked keccak256 c w')
    (hvault : w'.vault = w.vault) (hbalance : w.balance ≤ w'.balance) :
    Solvent keccak256 c w' stack := by
  induction stack with
  | nil => exact ⟨hbooked, by rw [hvault]; exact h.2.1, by rw [hvault]; exact h.2.2.trans hbalance⟩
  | cons frame stack ih =>
    cases frame with
    | other snapshot => exact ⟨ih h.1, h.2⟩
    | deposit snapshot beforeBalance amount moved =>
      obtain ⟨hsnapshot, hfree, -, hentered, hlocked, hcovered⟩ := h
      refine ⟨hsnapshot, hfree, hbooked, ?_, ?_, hcovered.trans hbalance⟩ <;> rw [hvault] <;>
        assumption
    | release snapshot wd moved =>
      obtain ⟨hsnapshot, hfree, -, hentered, hcovered⟩ := h
      refine ⟨hsnapshot, hfree, hbooked, ?_, ?_⟩ <;> rw [hvault]
      · exact hentered
      · exact hcovered.trans hbalance

/-- While the guard is down no call of the vault is open, and any solvent world will do. -/
theorem Solvent.replace (h : Solvent keccak256 c snapshot stack)
    (hfree : snapshot.vault.entered = false) (hbooked : Booked keccak256 c w)
    (hfree' : w.vault.entered = false) (hcovered : w.vault.locked ≤ w.balance) :
    Solvent keccak256 c w stack := by
  induction stack with
  | nil => exact ⟨hbooked, hfree', hcovered⟩
  | cons frame stack ih =>
    cases frame with
    | other snapshot' => exact ⟨ih h.1, h.2⟩
    | deposit snapshot' beforeBalance amount moved => simp [h.2.2.2.1] at hfree
    | release snapshot' wd moved => simp [h.2.2.2.1] at hfree

theorem finishDeposit_ok {beforeBalance balance : Nat} {s s' : Storage}
    (h : finishDeposit c beforeBalance balance s = .ok s') :
    s' = ⟨s.nextDepositId + 1, s.locked + (balance - beforeBalance), s.released, false⟩ :=
  (Except.ok.inj (run_eq_ok.mp h).2).symm

/-- What `release` has checked before it books. -/
theorem releaseGuards_none {path : ProofPath} {verifier : FinalityVerifier.Storage} {s : Storage}
    (h : first (releaseGuards keccak256 c verifier wd path s) = none) : s.entered = false ∧
      c.verifier.config.bridgeActivationHeight ≤ verifier.latestBridgeFinalizedHeight ∧
      wd.withdrawalId < 2 ^ 32 ∧ s.released wd.withdrawalId = false ∧
      pathRoot keccak256 c wd path = verifier.latestBridgeWithdrawalRoot ∧ wd.amount ≤ s.locked := by
  have hguards := first_eq_none.mp h
  simp only [releaseGuards, forall_mem_cons, decide_eq_false_iff_not, not_not, Nat.not_lt,
    Nat.not_le, ge_iff_le, gt_iff_lt, ne_eq, Bool.not_eq_false', FinalityVerifier.releaseReady,
    Bool.and_eq_true, decide_eq_true_eq] at hguards
  obtain ⟨hfree, hready, hid, -, -, -, hreleased, -, hroot, hlocked, -⟩ := hguards
  exact ⟨hfree, hready.2, hid, hreleased, hroot, hlocked⟩

theorem Booked.beginRelease {path : ProofPath} (hw : Booked keccak256 c w)
    (h : first (releaseGuards keccak256 c w.verifier.storage wd path w.vault) = none) :
    Booked keccak256 c
      { w with vault := beginRelease wd w.vault, history := .release wd :: w.history } := by
  obtain ⟨-, hheight, hid, hnew, hroot, hlocked⟩ := releaseGuards_none h
  have haccounted := hw.accounted
  refine ⟨hw.verifier, ?_, fun id => ?_, ?_, fun wd' hwd' => ?_⟩
  · show w.vault.locked - wd.amount + (wd.amount + paidOut w.history) = 0 + paidIn w.history
    omega
  · show (id == wd.withdrawalId || w.vault.released id) = true ↔
      id ∈ wd.withdrawalId :: releasedIds w.history
    rw [Bool.or_eq_true, beq_iff_eq, mem_cons, hw.released]
  · refine nodup_cons.mpr ⟨fun hmem => ?_, hw.once⟩
    have hreleased := (hw.released _).mpr hmem
    rw [hnew] at hreleased
    cases hreleased
  · rcases mem_cons.mp hwd' with hwd' | hwd'
    · cases hwd'
      exact ⟨hid, path, hroot ▸ hw.verifier.root_accepted.2 hheight⟩
    · exact hw.contained wd' hwd'

theorem Booked.finishDeposit {beforeBalance : Nat} {s' : Storage} (hw : Booked keccak256 c w)
    (h : finishDeposit c beforeBalance w.balance w.vault = .ok s') : Booked keccak256 c
      { w with vault := s', history := .deposit (w.balance - beforeBalance) :: w.history } := by
  obtain rfl := finishDeposit_ok h
  have haccounted := hw.accounted
  refine ⟨hw.verifier, ?_, hw.released, hw.once, fun wd hwd => ?_⟩
  · show w.vault.locked + (w.balance - beforeBalance) + (0 + paidOut w.history) =
      w.balance - beforeBalance + paidIn w.history
    omega
  · rcases mem_cons.mp hwd with hwd | hwd
    · cases hwd
    · exact hw.contained wd hwd

theorem step_solvent {s t : State} (hs : Solvent keccak256 c s.world s.stack)
    (h : Step keccak256 c s t) : Solvent keccak256 c t.world t.stack := by
  have hbooked := hs.booked.1
  have hcovered := hs.booked.2
  cases h with
  | verify t k ht hk =>
    refine hs.grow { hbooked with
      verifier := .accept t k hbooked.verifier ht hk, contained := fun wd hwd => ?_ } rfl le_rfl
    obtain ⟨hid, path, hroot⟩ := hbooked.contained wd hwd
    exact ⟨hid, path, hroot.mono (subset_cons_self _ _)⟩
  | wait t ht =>
    exact hs.grow { hbooked with verifier := hbooked.verifier.wait ht } rfl le_rfl
  | donate amount =>
    exact hs.grow { hbooked with } rfl (Nat.le_add_right _ _)
  | enter => exact ⟨hs, hs⟩
  | leave => exact hs.1
  | abort => exact hs.2
  | deposit amount b3Recipient hguards =>
    have hfree := first_eq_none.mp hguards (_, .Reentrancy) mem_cons_self
    exact ⟨hs, hfree, { hbooked with }, rfl, hcovered, le_rfl⟩
  | moveIn =>
    obtain ⟨hsnapshot, hfree, -, hentered, hlocked, hbalance⟩ := hs
    exact ⟨hsnapshot, hfree, { hbooked with }, hentered, hlocked, Nat.add_le_add_right hbalance _⟩
  | depositReturns hfinish =>
    obtain ⟨hsnapshot, hfree, -, -, hlocked, hbalance⟩ := hs
    refine hsnapshot.replace hfree (hbooked.finishDeposit hfinish) ?_ ?_
    · rw [finishDeposit_ok hfinish]
    · -- the books grow by what the balance has grown since the call began
      rw [finishDeposit_ok hfinish]
      dsimp only [if_true] at hlocked hbalance ⊢
      omega
  | depositReverts => exact hs.1
  | release wd path hguards =>
    obtain ⟨hfree, -, -, -, -, hlocked⟩ := releaseGuards_none hguards
    refine ⟨hs, hfree, hbooked.beginRelease hguards, rfl, ?_⟩
    dsimp only [beginRelease] at hcovered ⊢
    simp only [Bool.false_eq_true, if_false]
    omega
  | moveOut hbalance =>
    obtain ⟨hsnapshot, hfree, -, hentered, hcovered⟩ := hs
    refine ⟨hsnapshot, hfree, { hbooked with }, hentered, ?_⟩
    exact Nat.le_sub_of_add_le hcovered
  | releaseReturns =>
    obtain ⟨hsnapshot, hfree, -, -, hcovered⟩ := hs
    exact hsnapshot.replace hfree { hbooked with } rfl hcovered
  | releaseReverts => exact hs.1

theorem Reachable.solvent {s : State} (h : Reachable keccak256 c s) :
    Solvent keccak256 c s.world s.stack := by
  refine h.invariant (P := fun s => Solvent keccak256 c s.world s.stack) ?_
    fun _ _ hs hstep => step_solvent hs hstep
  rintro ⟨w, stack⟩ ⟨rfl, hvault, hhistory, htrace⟩
  dsimp only at hvault hhistory htrace
  refine ⟨⟨htrace, ?_, ?_, ?_, ?_⟩, ?_, ?_⟩ <;> simp [hvault, hhistory, paidIn, paidOut, releasedIds]

/-- The vault stays solvent, in the middle of calls as well. -/
theorem vault_solvent {s : State} (h : Reachable keccak256 c s) :
    s.world.vault.locked + paidOut s.world.history = paidIn s.world.history ∧
      s.world.vault.locked ≤ s.world.balance ∧
      (releasedIds s.world.history).Nodup ∧
      ∀ wd, .release wd ∈ s.world.history →
        ∃ path : ProofPath,
          FinalityVerifier.AcceptedRoot s.world.accepted (pathRoot keccak256 c wd path) ∧
          ∀ (ws : List Bridge.BridgeWithdrawalV1) (leaves : List Uint256),
            (∀ b, keccak256 b < 256 ^ 32) → (∀ w ∈ ws, InRange w) →
            ws.map (Bridge.bridgeWithdrawalLeafV1 keccak256) = leaves.map some →
            withdrawalLeaf keccak256 c wd ≠ 0 →
            Set.InjOn keccak256 (hashedStrings keccak256 c ws leaves wd path) →
            pathRoot keccak256 c wd path = Bridge.withdrawalRoot keccak256 leaves →
            ws[wd.withdrawalId]? = some (wd.toB3 c) := by
  obtain ⟨hbooked, hcovered⟩ := h.solvent.booked
  refine ⟨hbooked.accounted, hcovered, hbooked.once, fun wd hwd => ?_⟩
  obtain ⟨hid, path, hroot⟩ := hbooked.contained wd hwd
  refine ⟨path, hroot, fun ws leaves hdigest hrange hleaves hnull hS hopen => ?_⟩
  have hlt := leaves_lt hdigest hleaves
  exact (leafRow_eq_iff hleaves hrange hnull hS).mp
    ((pathRoot_eq_iff hdigest hlt hid hS).mp hopen).1

/-! ### A deposit and a release -/

section Sample

open FinalityVerifier (digits exampleCalls exampleRotated exampleTrace)

/-- The first leaf of a tree without others. -/
def firstPath : ProofPath where
  siblings := replicate 32 0
  length_eq := rfl
  sibling_lt := by decide

/-- The root of the tree with the withdrawal. -/
def sampleRoot : Uint256 := pathRoot digits sampleVault sampleWithdrawal firstPath

/-- Fifty tokens have been deposited, and seven of them withdrawn. -/
def sampleWorld : World where
  vault := ⟨1, 43, fun id => id == 0 || false, false⟩
  verifier := ⟨86402, exampleRotated sampleRoot⟩
  accepted := exampleCalls sampleRoot
  balance := 43
  history := [.release sampleWithdrawal, .deposit 50]

theorem sampleWorld_reachable : Reachable digits sampleVault ⟨sampleWorld, []⟩ := by
  let fresh : World :=
    { sampleWorld with vault := ⟨0, 0, fun _ => false, false⟩, balance := 0, history := [] }
  let funded : World :=
    { sampleWorld with
      vault := ⟨1, 50, fun _ => false, false⟩, balance := 50, history := [.deposit 50] }
  have hfresh : Reachable digits sampleVault ⟨fresh, []⟩ :=
    .start ⟨rfl, rfl, rfl, exampleTrace (by decide +kernel)⟩
  have hopen : first (depositGuards sampleVault fresh.verifier 50 (2 ^ 160 + 1) fresh.vault) =
      none := by decide +kernel
  have hfunded : Reachable digits sampleVault ⟨funded, []⟩ :=
    ((hfresh.next (.deposit 50 (2 ^ 160 + 1) hopen)).next .moveIn).next (.depositReturns rfl)
  have hproven : first (releaseGuards digits sampleVault funded.verifier.storage
      sampleWithdrawal firstPath funded.vault) = none := by decide +kernel
  exact ((hfunded.next (.release _ _ hproven)).next (.moveOut (by decide))).next .releaseReturns

theorem sampleWorld_solvent :
    sampleWorld.vault.locked + paidOut sampleWorld.history = paidIn sampleWorld.history ∧
      paidOut sampleWorld.history = 7 ∧ sampleWorld.vault.locked ≤ sampleWorld.balance ∧
      ∃ path, FinalityVerifier.AcceptedRoot (exampleCalls sampleRoot)
        (pathRoot digits sampleVault sampleWithdrawal path) := by
  obtain ⟨haccounted, hcovered, -, hcontained⟩ := vault_solvent sampleWorld_reachable
  obtain ⟨path, hroot, -⟩ := hcontained sampleWithdrawal mem_cons_self
  exact ⟨haccounted, rfl, hcovered, path, hroot⟩

end Sample

end Invariant

end B3Coin.StakerBridge
