import B3Coin.FlowMesh.ClearingSpec
import B3Coin.FlowMesh.Wire
import B3Coin.Lib.Transition
import Mathlib.Data.Finset.Insert
import Mathlib.Data.UInt

/-!
# The state of a market

`FlowMeshState` of `flowmesh/state.h` and its calls. A call that the state refuses
is `none` and leaves it unchanged, so a run lists the accepted calls only. In every
run the market stays in order and custody covers the liabilities; custody equals
them as long as no receipt id comes back while its first request is pending.
-/
namespace B3Coin.FlowMesh

open Ledger Transition Option

structure FlowMeshState where
  nextSeq : OrderedMap AccountId UInt64 := ∅
  consumedDeposits : Finset COutPoint := ∅
  ledger : Ledger
  book : Book
  configId : Uint256
  deriving DecidableEq

/-- A market configuration the constructor accepts. -/
structure MarketConfig where
  vault : VaultId
  base : AssetId
  quote : AssetId
  maxK : Nat := 8
  distinct : base ≠ quote
  maxK_pos : 0 < maxK
  maxK_le : maxK ≤ HARD_MAX_CURVE_POINTS
  configId : Uint256

namespace FlowMeshState

/-- The constructor: an empty ledger and an empty book. -/
def new (cfg : MarketConfig) : FlowMeshState where
  ledger := { vault := cfg.vault }
  book :=
    { base := cfg.base, quote := cfg.quote, maxK := cfg.maxK, distinct := cfg.distinct
      maxK_pos := cfg.maxK_pos, maxK_le := cfg.maxK_le }
  configId := cfg.configId

section

variable (s : FlowMeshState) (signer : AccountId)

def nextSequence : UInt64 := (s.nextSeq.find? signer).getD 0

def advanceSequence (next : UInt64) : FlowMeshState :=
  { s with nextSeq := s.nextSeq.insert signer next }

def creditDeposit (outpoint : COutPoint) (account : AccountId) (asset : AssetId) (amount : Int)
    : Option FlowMeshState :=
  if outpoint ∈ s.consumedDeposits then none
  else (s.ledger.deposit account asset amount).map fun l =>
    { s with ledger := l, consumedDeposits := insert outpoint s.consumedDeposits }

def submitCurve (s : FlowMeshState) (account : AccountId) (side : Side)
    (points : List Breakpoint) : Option FlowMeshState :=
  (s.book.submitCurve s.ledger account side points).map fun x =>
    { s with book := x.1, ledger := x.2 }

def cancelCurve (s : FlowMeshState) (account : AccountId) (side : Side) : Option FlowMeshState :=
  (s.book.cancelCurve s.ledger account side).map fun x => { s with book := x.1, ledger := x.2 }

def clearSlot (pr : Primitives) (s : FlowMeshState) (fee : Option FlowMeshFeeContext) :
    Option (ClearingResult × FlowMeshState) :=
  (s.book.clearSlot pr s.ledger fee).map fun x =>
    (x.1, { s with book := x.2.1, ledger := x.2.2 })

def requestWithdrawal (pr : Primitives) (s : FlowMeshState) (account : AccountId)
    (asset : AssetId) (amount : Int) (destination : Uint256) (withdrawalCapacity : Int) :
    Option (WithdrawalReceipt × FlowMeshState) :=
  (s.ledger.requestWithdrawal pr.receiptHash account asset amount destination
    withdrawalCapacity).map fun x => (x.1, { s with ledger := x.2 })

def consumeWithdrawalSettlement (settlement : WithdrawalSettlementFact) : Option FlowMeshState :=
  (s.ledger.consumeRequest settlement).map fun l => { s with ledger := l }

end

end FlowMeshState

/-- The calls that change balances, curves or requests. -/
inductive Call where
  | creditDeposit (outpoint : COutPoint) (account : AccountId) (asset : AssetId) (amount : Int)
  | submitCurve (account : AccountId) (side : Side) (points : List Breakpoint)
  | cancelCurve (account : AccountId) (side : Side)
  | clearSlot (fee : Option FlowMeshFeeContext)
  | requestWithdrawal (account : AccountId) (asset : AssetId) (amount : Int)
      (destination : Uint256) (capacity : Int)
  | consumeWithdrawalSettlement (settlement : WithdrawalSettlementFact)
  deriving DecidableEq

def Call.isRequest : Call → Bool
  | .requestWithdrawal .. => true
  | _ => false

/-- The account a call trades for. -/
def Call.trader : Call → Option AccountId
  | .submitCurve account _ _ => some account
  | _ => none

namespace FlowMeshState

def perform (pr : Primitives) (s : FlowMeshState) : Call → Option FlowMeshState
  | .creditDeposit outpoint account asset amount => s.creditDeposit outpoint account asset amount
  | .submitCurve account side points => s.submitCurve account side points
  | .cancelCurve account side => s.cancelCurve account side
  | .clearSlot fee => (s.clearSlot pr fee).map (·.2)
  | .requestWithdrawal account asset amount destination capacity =>
    (s.requestWithdrawal pr account asset amount destination capacity).map (·.2)
  | .consumeWithdrawalSettlement settlement => s.consumeWithdrawalSettlement settlement

/-- What an accepted call has done. -/
inductive Performed (pr : Primitives) (s : FlowMeshState) : Call → FlowMeshState → Prop where
  | credit {outpoint x a d l} (hnew : outpoint ∉ s.consumedDeposits)
      (hl : s.ledger.deposit x a d = some l) : Performed pr s (.creditDeposit outpoint x a d)
        { s with ledger := l, consumedDeposits := insert outpoint s.consumedDeposits }
  | submit {x side points y} (hy : s.book.submitCurve s.ledger x side points = some y) :
      Performed pr s (.submitCurve x side points) { s with book := y.1, ledger := y.2 }
  | cancel {x side y} (hy : s.book.cancelCurve s.ledger x side = some y) :
      Performed pr s (.cancelCurve x side) { s with book := y.1, ledger := y.2 }
  | clear {fee y} (hy : s.book.clearSlot pr s.ledger fee = some y) :
      Performed pr s (.clearSlot fee) { s with book := y.2.1, ledger := y.2.2 }
  | request {x a d dest capacity y}
      (hy : s.ledger.requestWithdrawal pr.receiptHash x a d dest capacity = some y) :
      Performed pr s (.requestWithdrawal x a d dest capacity) { s with ledger := y.2 }
  | consume {fact l} (hl : s.ledger.consumeRequest fact = some l) :
      Performed pr s (.consumeWithdrawalSettlement fact) { s with ledger := l }

theorem performed {pr : Primitives} {s t : FlowMeshState} {c : Call}
    (h : s.perform pr c = some t) : Performed pr s c t := by
  cases c with
  | creditDeposit outpoint x a d =>
    obtain ⟨hnew, h⟩ := ite_none_left_eq_some.mp h
    obtain ⟨l, hl, rfl⟩ := map_eq_some_iff.mp h
    exact .credit hnew hl
  | submitCurve x side points =>
    obtain ⟨y, hy, rfl⟩ := map_eq_some_iff.mp h
    exact .submit hy
  | cancelCurve x side =>
    obtain ⟨y, hy, rfl⟩ := map_eq_some_iff.mp h
    exact .cancel hy
  | clearSlot fee =>
    obtain ⟨z, hz, rfl⟩ := map_eq_some_iff.mp h
    obtain ⟨y, hy, rfl⟩ := map_eq_some_iff.mp hz
    exact .clear hy
  | requestWithdrawal x a d dest capacity =>
    obtain ⟨z, hz, rfl⟩ := map_eq_some_iff.mp h
    obtain ⟨y, hy, rfl⟩ := map_eq_some_iff.mp hz
    exact .request hy
  | consumeWithdrawalSettlement fact =>
    obtain ⟨l, hl, rfl⟩ := map_eq_some_iff.mp h
    exact .consume hl

end FlowMeshState

end B3Coin.FlowMesh
