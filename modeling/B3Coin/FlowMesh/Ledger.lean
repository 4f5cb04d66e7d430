import B3Coin.Basic
import B3Coin.Lib.OrderedMap
import Mathlib.Data.Prod.Lex
import Mathlib.Algebra.Group.Pi.Basic

/-!
# The asset ledger of a market

`flowmesh/ledger.h` with the receipt and settlement types it reads
(`modern/vault.h`, `modern/flowmesh_checkpoint.h`, `flowmesh/settlement.h`). An
operation that the source reports with `false` or `nullopt` is `none` here and
leaves the caller with the ledger it had. The digest of a receipt is a parameter.
-/
namespace B3Coin.FlowMesh

abbrev AccountId := Uint256
abbrev AssetId := Uint256
abbrev MarketId := Uint256
abbrev VaultId := Uint256

/-- `ComputeFlowMeshVaultId`; `hash` is the tagged hash of the domain and the market. -/
def computeFlowMeshVaultId (hash : Uint256 → MarketId → VaultId) (domain : Uint256)
    (market : MarketId) : Option VaultId :=
  if domain = 0 ∨ market = 0 then none else some (hash domain market)

/-- `modern::NativeAsset`, the null asset id. -/
def NativeAsset : AssetId := 0

/-- The protocol-fee account; its hex form in the source is the reversed byte string. -/
def FeeAccount : AccountId := 0xf000000000000000000000000000000000000000000000000000000000e0feb3

structure Balance where
  available : Int := 0
  reserved : Int := 0
  deriving DecidableEq

structure WithdrawalReceipt where
  receiptId : Uint256
  asset : AssetId
  amount : Int
  destination : Uint256
  finalizedSlot : UInt64
  vaultCommitment : VaultId
  deriving DecidableEq

/-- What the receipt id is the digest of. -/
structure ReceiptPreimage where
  slot : UInt64
  seq : UInt64
  account : AccountId
  asset : AssetId
  amount : Int
  destination : Uint256
  vault : VaultId
  deriving DecidableEq

/-- `FlowMeshWithdrawalReceiptV1`. -/
structure FlowMeshWithdrawalReceipt where
  receiptId : Uint256
  marketId : MarketId
  epoch : UInt64
  sequence : UInt64
  account : AccountId
  asset : AssetId
  amount : Int
  destinationOwnerCommitment : Uint256
  vaultId : VaultId
  deterministicChangeShard : UInt16
  deriving DecidableEq

def validAmount (amount : Int) : Bool := amount > 0 && amount ≤ MAX_MONEY

/-- `EncodeFlowMeshEffectV1` has an encoding for this receipt. -/
def FlowMeshWithdrawalReceipt.encodes (r : FlowMeshWithdrawalReceipt) : Bool :=
  r.receiptId != 0 && r.marketId != 0 && r.account != 0 && r.destinationOwnerCommitment != 0 &&
    r.vaultId != 0 && validAmount r.amount && r.deterministicChangeShard < 256

/-- `WithdrawalSettlementFactV1`: a withdrawal that connected on chain. -/
structure WithdrawalSettlementFact where
  receipt : FlowMeshWithdrawalReceipt
  checkpointId : Uint256
  transactionId : Uint256
  connectedHeight : Int
  connectedBlock : Uint256
  deriving DecidableEq

def WithdrawalSettlementFact.isCanonical (f : WithdrawalSettlementFact) : Bool :=
  f.checkpointId != 0 && f.transactionId != 0 && f.connectedHeight ≥ 0 && f.connectedBlock != 0 &&
    f.receipt.encodes

abbrev BalanceKey := Lex (AccountId × AssetId)

structure Ledger where
  vault : VaultId
  slot : UInt64 := 0
  nextReceiptSeq : UInt64 := 0
  balances : OrderedMap BalanceKey Balance := ∅
  custody : OrderedMap AssetId Int := ∅
  requests : OrderedMap Uint256 WithdrawalReceipt := ∅
  deriving DecidableEq

namespace Ledger

section

variable (receiptHash : ReceiptPreimage → Uint256) (l : Ledger) (src dst account : AccountId)
  (asset : AssetId) (amount : Int) (destination : Uint256)

/-- The entry of an account, if the map has one. -/
def entry? : Option Balance := l.balances.find? (toLex (account, asset))

def balance : Balance := (l.entry? account asset).getD {}

def available (l : Ledger) (account : AccountId) (asset : AssetId) : Int :=
  (l.balance account asset).available

def reserved (l : Ledger) (account : AccountId) (asset : AssetId) : Int :=
  (l.balance account asset).reserved

/-- `m_balances[{account, asset}] = b`. -/
def put (b : Balance) : Ledger :=
  { l with balances := l.balances.insert (toLex (account, asset)) b }

/-- Remove the entry of an account that holds nothing. -/
def prune : Ledger :=
  if l.entry? account asset = some {} then
    { l with balances := l.balances.erase (toLex (account, asset)) }
  else l

def custodyOf : Int := (l.custody.find? asset).getD 0

def deposit : Option Ledger :=
  if amount ≤ 0 ∨ amount > MAX_MONEY then none
  else if amount > MAX_MONEY - l.available account asset ∨
      amount > MAX_MONEY - l.custodyOf asset then none
  else
    let b := l.balance account asset
    some { l.put account asset { b with available := b.available + amount } with
      custody := l.custody.insert asset (l.custodyOf asset + amount) }

def reserve : Option Ledger :=
  if amount ≤ 0 then none
  else
    match l.entry? account asset with
    | none => none
    | some b =>
      if b.available < amount then none
      else some (l.put account asset ⟨b.available - amount, b.reserved + amount⟩)

def release : Option Ledger :=
  if amount ≤ 0 then none
  else
    match l.entry? account asset with
    | none => none
    | some b =>
      if b.reserved < amount then none
      else some (l.put account asset ⟨b.available + amount, b.reserved - amount⟩)

/-- Add to the available balance of `account`, creating its entry. -/
def credit : Ledger :=
  let b := l.balance account asset
  l.put account asset { b with available := b.available + amount }

def moveReservedToAvailable : Option Ledger :=
  if amount ≤ 0 then none
  else
    match l.entry? src asset with
    | none => none
    | some b =>
      if b.reserved < amount then none
      else if src ≠ dst ∧ amount > MAX_MONEY - l.available dst asset then none
      else
        some (((l.put src asset { b with reserved := b.reserved - amount }).credit dst asset
          amount).prune src asset)

def moveAvailableToAvailable : Option Ledger :=
  if amount ≤ 0 ∨ src = dst then none
  else
    match l.entry? src asset with
    | none => none
    | some b =>
      if b.available < amount then none
      else if amount > MAX_MONEY - l.available dst asset then none
      else
        some (((l.put src asset { b with available := b.available - amount }).credit dst asset
          amount).prune src asset)

/-- `ChargeFee`: the same move, to the fee account. -/
def chargeFee : Option Ledger := l.moveAvailableToAvailable account FeeAccount asset amount

def pendingWithdrawals : Int := l.requests.total fun _ r => if r.asset = asset then r.amount else 0

/-- The receipt `RequestWithdrawal` would issue now. -/
def nextReceipt : WithdrawalReceipt where
  receiptId := receiptHash ⟨l.slot, l.nextReceiptSeq, account, asset, amount, destination, l.vault⟩
  asset := asset
  amount := amount
  destination := destination
  finalizedSlot := l.slot
  vaultCommitment := l.vault

def requestWithdrawal (withdrawalCapacity : Int) : Option (WithdrawalReceipt × Ledger) :=
  if amount ≤ 0 ∨ withdrawalCapacity < 0 ∨ withdrawalCapacity > MAX_MONEY then none
  else
    match l.entry? account asset with
    | none => none
    | some b =>
      if b.available < amount then none
      else if l.pendingWithdrawals asset > withdrawalCapacity ∨
          amount > withdrawalCapacity - l.pendingWithdrawals asset then none
      else
        let request := l.nextReceipt receiptHash account asset amount destination
        -- `emplace`: a request whose id is already pending is not recorded again
        let debited := (l.put account asset { b with available := b.available - amount }).prune
          account asset
        some (request, { debited with
          nextReceiptSeq := l.nextReceiptSeq + 1
          requests := l.requests.emplace request.receiptId request })

/-- `ConsumeRequest(request_id)`: custody and liability leave together. -/
def consumeRequestId (requestId : Uint256) : Option Ledger :=
  match l.requests.find? requestId with
  | none => none
  | some r =>
    match l.custody.find? r.asset with
    | none => none
    | some c =>
      if c < r.amount then none
      else some { l with
        custody := if c - r.amount = 0 then l.custody.erase r.asset
          else l.custody.insert r.asset (c - r.amount)
        requests := l.requests.erase requestId }

/-- `ConsumeRequest(settlement)`: only when every value fact agrees. -/
def consumeRequest (settlement : WithdrawalSettlementFact) : Option Ledger :=
  if ¬ settlement.isCanonical then none
  else
    match l.requests.find? settlement.receipt.receiptId with
    | none => none
    | some r =>
      if r.receiptId ≠ settlement.receipt.receiptId ∨ r.asset ≠ settlement.receipt.asset ∨
          r.amount ≠ settlement.receipt.amount ∨
          r.destination ≠ settlement.receipt.destinationOwnerCommitment ∨
          r.vaultCommitment ≠ settlement.receipt.vaultId then none
      else l.consumeRequestId r.receiptId

def advanceSlot : Ledger := { l with slot := l.slot + 1 }

/-- What an entry contributes to the total of an asset. -/
def share (k : BalanceKey) (b : Balance) : Int :=
  if (ofLex k).2 = asset then b.available + b.reserved else 0

/-- Available plus reserved balances of an asset over all accounts. -/
def held : Int := l.balances.total (share asset)

/-- `Liabilities`: balances and pending requests. -/
def liabilities : Int := l.held asset + l.pendingWithdrawals asset

end

end Ledger

end B3Coin.FlowMesh
