import B3Coin.FlowMesh.Snapshot
import B3Coin.Lib.Procedure

/-!
# The operations in place

The operations of `flowmesh/ledger.h`, `flowmesh/clearing.h` and `flowmesh/state.h`
as the source runs them: each statement changes the object, and a failed check returns
with everything written before it. Each is shown to write what the operation of the
same name computes, or nothing: a refusal leaves the state and its root as they were.
-/
namespace B3Coin.FlowMesh

open Proc Sample

namespace InPlace

/-! ## The ledger -/

section

variable (src dst account : AccountId) (asset : AssetId) (amount : Int)

def deposit : Proc Unit Ledger Unit := do
  refuse (amount ≤ 0 ∨ amount > MAX_MONEY)
  let available ← read (·.available account asset)
  let custody ← read (·.custodyOf asset)
  refuse (amount > MAX_MONEY - available ∨ amount > MAX_MONEY - custody)
  write fun l => l.put account asset
    { l.balance account asset with available := available + amount }
  write fun l => { l with custody := l.custody.insert asset (custody + amount) }

def reserve : Proc Unit Ledger Unit := do
  refuse (amount ≤ 0)
  let b ← lookup fun l => l.entry? account asset
  refuse (b.available < amount)
  write (·.put account asset ⟨b.available - amount, b.reserved + amount⟩)

def release : Proc Unit Ledger Unit := do
  refuse (amount ≤ 0)
  let b ← lookup fun l => l.entry? account asset
  refuse (b.reserved < amount)
  write (·.put account asset ⟨b.available + amount, b.reserved - amount⟩)

def moveReservedToAvailable : Proc Unit Ledger Unit := do
  refuse (amount ≤ 0)
  let b ← lookup fun l => l.entry? src asset
  refuse (b.reserved < amount)
  let available ← read (·.available dst asset)
  refuse (src ≠ dst ∧ amount > MAX_MONEY - available)
  write (·.put src asset { b with reserved := b.reserved - amount })
  write (·.credit dst asset amount)
  write (·.prune src asset)

def moveAvailableToAvailable : Proc Unit Ledger Unit := do
  refuse (amount ≤ 0 ∨ src = dst)
  let b ← lookup fun l => l.entry? src asset
  refuse (b.available < amount)
  let available ← read (·.available dst asset)
  refuse (amount > MAX_MONEY - available)
  write (·.put src asset { b with available := b.available - amount })
  write (·.credit dst asset amount)
  write (·.prune src asset)

def chargeFee : Proc Unit Ledger Unit := moveAvailableToAvailable account FeeAccount asset amount

def requestWithdrawal (pr : Primitives) (account : AccountId) (asset : AssetId) (amount : Int)
    (destination : Uint256) (withdrawalCapacity : Int) : Proc Unit Ledger WithdrawalReceipt := do
  refuse (amount ≤ 0 ∨ withdrawalCapacity < 0 ∨ withdrawalCapacity > MAX_MONEY)
  let b ← lookup fun l => l.entry? account asset
  refuse (b.available < amount)
  let pending ← read (·.pendingWithdrawals asset)
  refuse (pending > withdrawalCapacity ∨ amount > withdrawalCapacity - pending)
  let request ← read (·.nextReceipt pr.receiptHash account asset amount destination)
  write (·.put account asset { b with available := b.available - amount })
  write (·.prune account asset)
  write fun l => { l with nextReceiptSeq := l.nextReceiptSeq + 1 }
  write fun l => { l with requests := l.requests.emplace request.receiptId request }
  pure request

def consumeRequestId (requestId : Uint256) : Proc Unit Ledger Unit := do
  let r ← lookup (·.requests.find? requestId)
  let c ← lookup (·.custody.find? r.asset)
  refuse (c < r.amount)
  write fun l => { l with
    custody := if c - r.amount = 0 then l.custody.erase r.asset
      else l.custody.insert r.asset (c - r.amount) }
  write fun l => { l with requests := l.requests.erase requestId }

def consumeRequest (settlement : WithdrawalSettlementFact) : Proc Unit Ledger Unit := do
  refuse (¬ settlement.isCanonical)
  let r ← lookup (·.requests.find? settlement.receipt.receiptId)
  refuse (r.receiptId ≠ settlement.receipt.receiptId ∨ r.asset ≠ settlement.receipt.asset ∨
    r.amount ≠ settlement.receipt.amount ∨
    r.destination ≠ settlement.receipt.destinationOwnerCommitment ∨
    r.vaultCommitment ≠ settlement.receipt.vaultId)
  consumeRequestId r.receiptId

/-! ## The book -/

/-- An operation of the ledger, from the book's side. -/
def onLedger {α : Type} (p : Proc Unit Ledger α) : Proc Unit (Book × Ledger) α :=
  zoom Prod.snd (fun x l => (x.1, l)) p

def submitCurve (side : Side) (points : List Breakpoint) : Proc Unit (Book × Ledger) Unit := do
  let b ← read (·.1)
  refuse (¬ curveIsValid b.maxK side points)
  let worst ← need (worstCaseReservation side points)
  let old := b.curveReserved side account
  if worst > old then onLedger (reserve account (b.reserveAsset side) (worst - old))
  else if worst < old then onLedger (release account (b.reserveAsset side) (old - worst))
  else pure ()
  write fun x => (x.1.withSide side ((x.1.side side).insert account ⟨points, 0, worst⟩), x.2)

end

section

variable (account : AccountId) (pr : Primitives) (fee : Option FlowMeshFeeContext)

def cancelCurve (side : Side) : Proc Unit (Book × Ledger) Unit := do
  let c ← lookup fun x => (x.1.side side).find? account
  let asset ← read (·.1.reserveAsset side)
  if c.reserved > 0 then onLedger (release account asset c.reserved) else pure ()
  write fun x => (x.1.withSide side ((x.1.side side).erase account), x.2)

/-- `SettleAndConsume` runs on copies of the book and the ledger, which replace them after success. -/
def settleBest : Option Book.Best → Proc Unit (Book × Ledger) ClearingResult
  | none => pure {}
  | some best => run fun x => x.1.settleAndConsume pr x.2 (x.1.plan best) fee

end

def clearSlot (pr : Primitives) (fee : Option FlowMeshFeeContext) :
    Proc Unit (Book × Ledger) ClearingResult := do
  let best ← lookup fun x => x.1.searchPrice x.1.candidatePrices none
  let r ← settleBest pr fee best
  write fun x => (x.1, x.2.advanceSlot)
  pure r

/-! ## What they write -/

section

variable (account src dst : AccountId) (asset : AssetId) (amount : Int)

theorem deposit_eq : deposit account asset amount = attempt (·.deposit account asset amount) := by
  funext l
  simp only [deposit, refuse_bind, read_bind, write_bind, write_apply, attempt_apply, Ledger.deposit]
  split_ifs <;> rfl

theorem reserve_eq : reserve account asset amount = attempt (·.reserve account asset amount) := by
  funext l
  simp only [reserve, refuse_bind, lookup_bind, write_apply, attempt_apply, Ledger.reserve]
  cases l.entry? account asset <;> dsimp only [Option.elim] <;> split_ifs <;> rfl

theorem release_eq : release account asset amount = attempt (·.release account asset amount) := by
  funext l
  simp only [release, refuse_bind, lookup_bind, write_apply, attempt_apply, Ledger.release]
  cases l.entry? account asset <;> dsimp only [Option.elim] <;> split_ifs <;> rfl

theorem moveReservedToAvailable_eq : moveReservedToAvailable src dst asset amount =
    attempt (·.moveReservedToAvailable src dst asset amount) := by
  funext l
  simp only [moveReservedToAvailable, refuse_bind, lookup_bind, read_bind, write_bind, write_apply,
    attempt_apply, Ledger.moveReservedToAvailable]
  cases l.entry? src asset <;> dsimp only [Option.elim] <;> split_ifs <;> rfl

theorem moveAvailableToAvailable_eq : moveAvailableToAvailable src dst asset amount =
    attempt (·.moveAvailableToAvailable src dst asset amount) := by
  funext l
  simp only [moveAvailableToAvailable, refuse_bind, lookup_bind, read_bind, write_bind, write_apply,
    attempt_apply, Ledger.moveAvailableToAvailable]
  cases l.entry? src asset <;> dsimp only [Option.elim] <;> split_ifs <;> rfl

theorem requestWithdrawal_eq (pr : Primitives) (destination : Uint256) (capacity : Int) :
    requestWithdrawal pr account asset amount destination capacity =
      run (·.requestWithdrawal pr.receiptHash account asset amount destination capacity) := by
  funext l
  simp only [requestWithdrawal, refuse_bind, lookup_bind, read_bind, write_bind, run,
    Ledger.requestWithdrawal]
  cases l.entry? account asset with
  | none => dsimp only [Option.elim]; split_ifs <;> rfl
  | some b =>
    dsimp only [Option.elim]
    split_ifs <;> try rfl
    -- pruning changes the balances only
    simp only [Ledger.prune]
    split_ifs <;> rfl

theorem consumeRequestId_eq (id : Uint256) : consumeRequestId id = attempt (·.consumeRequestId id) := by
  funext l
  simp only [consumeRequestId, refuse_bind, lookup_bind, write_bind, write_apply, attempt_apply,
    Ledger.consumeRequestId]
  cases l.requests.find? id with
  | none => rfl
  | some r =>
    dsimp only [Option.elim]
    cases l.custody.find? r.asset with
    | none => rfl
    | some c => dsimp only [Option.elim]; split_ifs <;> rfl

theorem consumeRequest_eq (settlement : WithdrawalSettlementFact) :
    consumeRequest settlement = attempt (·.consumeRequest settlement) := by
  funext l
  simp only [consumeRequest, refuse_bind, lookup_bind, consumeRequestId_eq, attempt_apply,
    Ledger.consumeRequest]
  cases l.requests.find? settlement.receipt.receiptId <;> dsimp only [Option.elim] <;>
    split_ifs <;> rfl

theorem onLedger_attempt_bind {β : Type} (f : Ledger → Option Ledger)
    (q : Unit → Proc Unit (Book × Ledger) β) (x : Book × Ledger) :
    (onLedger (attempt f) >>= q) x = (f x.2).elim (.error (), x) fun l => q () (x.1, l) := by
  rw [onLedger, zoom_attempt fun _ => rfl, attempt_bind]
  cases f x.2 <;> rfl

/-- The book is written only after the ledger accepted the difference. -/
theorem submitCurve_eq (side : Side) (points : List Breakpoint) :
    submitCurve account side points = attempt fun x => x.1.submitCurve x.2 account side points := by
  funext ⟨b, l⟩
  simp only [submitCurve, read_bind, refuse_bind, need_bind, reserve_eq, release_eq, attempt_apply,
    Book.submitCurve]
  cases worstCaseReservation side points with
  | none => split_ifs <;> rfl
  | some worst =>
    dsimp only [Option.elim]
    split_ifs
    · rw [onLedger_attempt_bind]
      cases l.reserve account (b.reserveAsset side) (worst - b.curveReserved side account) <;> rfl
    · rw [onLedger_attempt_bind]
      cases l.release account (b.reserveAsset side) (b.curveReserved side account - worst) <;> rfl
    · rfl
    · rfl

theorem cancelCurve_eq (side : Side) :
    cancelCurve account side = attempt fun x => x.1.cancelCurve x.2 account side := by
  funext ⟨b, l⟩
  simp only [cancelCurve, lookup_bind, read_bind, release_eq, attempt_apply, Book.cancelCurve]
  cases (b.side side).find? account with
  | none => rfl
  | some c =>
    dsimp only [Option.elim]
    split_ifs
    · rw [onLedger_attempt_bind]
      cases l.release account (b.reserveAsset side) c.reserved <;> rfl
    · rfl

theorem clearSlot_eq (pr : Primitives) (fee : Option FlowMeshFeeContext) :
    clearSlot pr fee = run fun x => x.1.clearSlot pr x.2 fee := by
  funext ⟨b, l⟩
  simp only [clearSlot, lookup_bind, run, Book.clearSlot]
  rcases b.searchPrice b.candidatePrices none with _ | _ | best
  · rfl
  · rfl
  · dsimp only [Option.elim, settleBest]
    rw [run_bind]
    cases b.settleAndConsume pr l (b.plan best) fee <;> rfl

end

/-! ## The state -/

def onState {α : Type} (p : Proc Unit Ledger α) : Proc Unit FlowMeshState α :=
  zoom (·.ledger) (fun s l => { s with ledger := l }) p

def onMarket {α : Type} (p : Proc Unit (Book × Ledger) α) : Proc Unit FlowMeshState α :=
  zoom (fun s => (s.book, s.ledger)) (fun s x => { s with book := x.1, ledger := x.2 }) p

theorem onState_attempt (f : Ledger → Option Ledger) : onState (attempt f) =
    attempt fun s => (f s.ledger).map fun l => { s with ledger := l } :=
  zoom_attempt (fun _ => rfl) f

theorem onMarket_attempt (f : Book × Ledger → Option (Book × Ledger)) : onMarket (attempt f) =
    attempt fun s => (f (s.book, s.ledger)).map fun x => { s with book := x.1, ledger := x.2 } :=
  zoom_attempt (fun _ => rfl) f

def creditDeposit (outpoint : COutPoint) (account : AccountId) (asset : AssetId) (amount : Int) :
    Proc Unit FlowMeshState Unit := do
  let consumed ← read (·.consumedDeposits)
  refuse (outpoint ∈ consumed)
  onState (deposit account asset amount)
  write fun s => { s with consumedDeposits := insert outpoint s.consumedDeposits }

theorem creditDeposit_eq (outpoint : COutPoint) (account : AccountId) (asset : AssetId)
    (amount : Int) : creditDeposit outpoint account asset amount =
      attempt (·.creditDeposit outpoint account asset amount) := by
  funext s
  simp only [creditDeposit, read_bind, refuse_bind, deposit_eq, onState_attempt, attempt_bind, write_apply,
    attempt_apply, FlowMeshState.creditDeposit]
  split_ifs
  · rfl
  · cases s.ledger.deposit account asset amount <;> rfl

end InPlace

/-- An operation of the ledger. -/
inductive LedgerCall where
  | deposit (account : AccountId) (asset : AssetId) (amount : Int)
  | reserve (account : AccountId) (asset : AssetId) (amount : Int)
  | release (account : AccountId) (asset : AssetId) (amount : Int)
  | moveReservedToAvailable (src dst : AccountId) (asset : AssetId) (amount : Int)
  | moveAvailableToAvailable (src dst : AccountId) (asset : AssetId) (amount : Int)
  | chargeFee (account : AccountId) (asset : AssetId) (amount : Int)
  | requestWithdrawal (account : AccountId) (asset : AssetId) (amount : Int)
      (destination : Uint256) (capacity : Int)
  | consumeRequestId (requestId : Uint256)
  | consumeRequest (settlement : WithdrawalSettlementFact)

namespace LedgerCall

def exec (pr : Primitives) : LedgerCall → Proc Unit Ledger Unit
  | deposit account asset amount => InPlace.deposit account asset amount
  | reserve account asset amount => InPlace.reserve account asset amount
  | release account asset amount => InPlace.release account asset amount
  | moveReservedToAvailable src dst asset amount =>
    InPlace.moveReservedToAvailable src dst asset amount
  | moveAvailableToAvailable src dst asset amount =>
    InPlace.moveAvailableToAvailable src dst asset amount
  | chargeFee account asset amount => InPlace.chargeFee account asset amount
  | requestWithdrawal account asset amount destination capacity => do
    let _ ← InPlace.requestWithdrawal pr account asset amount destination capacity
  | consumeRequestId requestId => InPlace.consumeRequestId requestId
  | consumeRequest settlement => InPlace.consumeRequest settlement

/-- The same call as a function. -/
def perform (pr : Primitives) (l : Ledger) : LedgerCall → Option Ledger
  | deposit account asset amount => l.deposit account asset amount
  | reserve account asset amount => l.reserve account asset amount
  | release account asset amount => l.release account asset amount
  | moveReservedToAvailable src dst asset amount => l.moveReservedToAvailable src dst asset amount
  | moveAvailableToAvailable src dst asset amount => l.moveAvailableToAvailable src dst asset amount
  | chargeFee account asset amount => l.chargeFee account asset amount
  | requestWithdrawal account asset amount destination capacity =>
    (l.requestWithdrawal pr.receiptHash account asset amount destination capacity).map (·.2)
  | consumeRequestId requestId => l.consumeRequestId requestId
  | consumeRequest settlement => l.consumeRequest settlement

theorem exec_eq (pr : Primitives) (c : LedgerCall) : c.exec pr = attempt (c.perform pr ·) := by
  cases c with
  | deposit => exact InPlace.deposit_eq _ _ _
  | reserve => exact InPlace.reserve_eq _ _ _
  | release => exact InPlace.release_eq _ _ _
  | moveReservedToAvailable => exact InPlace.moveReservedToAvailable_eq _ _ _ _
  | moveAvailableToAvailable => exact InPlace.moveAvailableToAvailable_eq _ _ _ _
  | chargeFee => exact InPlace.moveAvailableToAvailable_eq _ _ _ _
  | requestWithdrawal =>
    dsimp only [exec]
    rw [InPlace.requestWithdrawal_eq, discard_run]
    rfl
  | consumeRequestId => exact InPlace.consumeRequestId_eq _
  | consumeRequest => exact InPlace.consumeRequest_eq _

end LedgerCall

/-- An operation of a market: one of its ledger, or a call of its own. -/
inductive Operation where
  | ledger (c : LedgerCall)
  | call (c : Call)

namespace Operation

open InPlace

def exec (pr : Primitives) : Operation → Proc Unit FlowMeshState Unit
  | ledger c => onState (c.exec pr)
  | call (.creditDeposit outpoint account asset amount) =>
    creditDeposit outpoint account asset amount
  | call (.submitCurve account side points) =>
    onMarket (submitCurve account side points)
  | call (.cancelCurve account side) => onMarket (cancelCurve account side)
  | call (.clearSlot fee) => do
    let _ ← onMarket (clearSlot pr fee)
  | call (.requestWithdrawal account asset amount destination capacity) => do
    let _ ← onState (requestWithdrawal pr account asset amount destination capacity)
  | call (.consumeWithdrawalSettlement settlement) =>
    onState (consumeRequest settlement)

/-- The same operation as a function. -/
def perform (pr : Primitives) (s : FlowMeshState) : Operation → Option FlowMeshState
  | ledger c => (c.perform pr s.ledger).map fun l => { s with ledger := l }
  | call c => s.perform pr c

/-- Run statement by statement, an operation writes what the function computes, or nothing. -/
theorem exec_eq (pr : Primitives) (op : Operation) : op.exec pr = attempt (op.perform pr ·) := by
  rcases op with c | c
  · dsimp only [exec]
    rw [c.exec_eq, onState_attempt]
    rfl
  · cases c with
    | creditDeposit => exact creditDeposit_eq _ _ _ _
    | submitCurve =>
      dsimp only [exec]
      rw [submitCurve_eq, onMarket_attempt]
      rfl
    | cancelCurve =>
      dsimp only [exec]
      rw [cancelCurve_eq, onMarket_attempt]
      rfl
    | clearSlot =>
      dsimp only [exec]
      rw [clearSlot_eq, onMarket, zoom_run fun _ => rfl, discard_run]
      rfl
    | requestWithdrawal =>
      dsimp only [exec]
      rw [requestWithdrawal_eq, onState, zoom_run fun _ => rfl, discard_run]
      rfl
    | consumeWithdrawalSettlement =>
      dsimp only [exec]
      rw [consumeRequest_eq, onState_attempt]
      rfl

end Operation

/-- Whatever the state and whatever the arguments: a refused operation leaves the
state as it was, and its root. -/
theorem refused_unchanged (pr : Primitives) (H : Hash256) (s : FlowMeshState) (op : Operation)
    (h : (op.exec pr s).1 = .error ()) :
    (op.exec pr s).2 = s ∧ (op.exec pr s).2.root H = s.root H := by
  rw [op.exec_eq] at h ⊢
  have hs := allOrNothing_run _ s () h
  exact ⟨hs, congrArg (·.root H) hs⟩

/-- A bid that needs twenty, with nothing on the account. -/
def Sample.unfunded : Operation := .call (.submitCurve 1 .BID [⟨1, 10⟩, ⟨3, 0⟩])

theorem sample_refused : (∀ pr, (unfunded.exec pr (snapshot 5)).1 = .error ()) ∧
      ∀ pr H, (unfunded.exec pr (snapshot 5)).2 = snapshot 5 ∧
        (unfunded.exec pr (snapshot 5)).2.root H = (snapshot 5).root H :=
  ⟨fun _ => rfl, fun pr H => refused_unchanged pr H (snapshot 5) _ rfl⟩

end B3Coin.FlowMesh
