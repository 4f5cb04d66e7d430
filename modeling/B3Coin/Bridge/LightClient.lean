import B3Coin.Basic
import B3Coin.Lib.Codec
import B3Coin.Lib.Guards
import Mathlib.Data.Nat.Log

/-!
# The Ethereum light client

`bridge/eth_light_client.h` over the containers of `bridge/ssz.h`: a store made from a
trusted checkpoint, and the updates that advance it by at most one sync-committee
period. Hash-tree roots, the pair hash of a branch and the BLS check are parameters.
Unsigned 64-bit fields are natural numbers; no sum of two of them is taken that could
wrap.
-/
namespace B3Coin.Bridge

open Codec (Bytes)
open Guards

/-- Twenty raw bytes; zero is the null address. -/
abbrev EthAddress := Nat

def SLOTS_PER_EPOCH : Nat := 32
def EPOCHS_PER_SYNC_COMMITTEE_PERIOD : Nat := 256
def SLOTS_PER_PERIOD : Nat := SLOTS_PER_EPOCH * EPOCHS_PER_SYNC_COMMITTEE_PERIOD
def SYNC_COMMITTEE_SIZE : Nat := 512

def epochAtSlot (slot : Nat) : Nat := slot / SLOTS_PER_EPOCH
def periodAtSlot (slot : Nat) : Nat := slot / SLOTS_PER_PERIOD

/-! ## Containers -/

structure BeaconBlockHeader where
  slot : Nat := 0
  proposerIndex : Nat := 0
  parentRoot : Uint256 := 0
  stateRoot : Uint256 := 0
  bodyRoot : Uint256 := 0
  deriving DecidableEq

structure ExecutionPayloadHeader where
  parentHash : Uint256 := 0
  feeRecipient : EthAddress := 0
  stateRoot : Uint256 := 0
  receiptsRoot : Uint256 := 0
  /-- The value of its 256 bytes. -/
  logsBloom : Nat := 0
  prevRandao : Uint256 := 0
  blockNumber : Nat := 0
  gasLimit : Nat := 0
  gasUsed : Nat := 0
  timestamp : Nat := 0
  extraData : Bytes := []
  baseFeePerGas : Uint256 := 0
  blockHash : Uint256 := 0
  transactionsRoot : Uint256 := 0
  withdrawalsRoot : Uint256 := 0
  blobGasUsed : Nat := 0
  excessBlobGas : Nat := 0
  deriving DecidableEq

def ExecutionPayloadHeader.validForHashTreeRoot (h : ExecutionPayloadHeader) : Bool :=
  h.extraData.length ≤ 32

/-- Public keys by the value of their 48 bytes. -/
structure SyncCommittee where
  pubkeys : List Nat := []
  aggregatePubkey : Nat := 0
  deriving DecidableEq

structure LightClientHeader where
  beacon : BeaconBlockHeader := {}
  execution : ExecutionPayloadHeader := {}
  executionBranch : List Uint256 := []
  deriving DecidableEq

/-- Bit `i` of `bits` is the participation of member `i`. -/
structure SyncAggregate where
  bits : BitVec 512 := 0
  signature : Nat := 0
  deriving DecidableEq

def SyncAggregate.participant (a : SyncAggregate) (i : Nat) : Bool := a.bits.getLsbD i

def SyncAggregate.participation (a : SyncAggregate) : Nat :=
  (List.range SYNC_COMMITTEE_SIZE).countP a.participant

structure LightClientUpdate where
  attested : LightClientHeader := {}
  finalized : LightClientHeader := {}
  finalityBranch : List Uint256 := []
  hasNext : Bool := false
  nextCommittee : SyncCommittee := {}
  nextBranch : List Uint256 := []
  syncAggregate : SyncAggregate := {}
  signatureSlot : Nat := 0
  deriving DecidableEq

structure LightClientStore where
  finalizedHeader : LightClientHeader := {}
  period : Nat := 0
  current : SyncCommittee := {}
  next : Option SyncCommittee := none
  deriving DecidableEq

structure ForkVersion where
  epoch : Nat
  version : Nat
  deriving DecidableEq

structure LightClientConfig where
  genesisValidatorsRoot : Uint256
  /-- In ascending order of activation. -/
  forks : List ForkVersion
  electraEpoch : Nat
  minParticipants : Nat

namespace LightClientConfig

variable (cfg : LightClientConfig) (epoch : Nat)

def forkVersionAt : Nat := cfg.forks.foldl (fun v f => if f.epoch ≤ epoch then f.version else v) 0

def finalityGindex : Nat := if epoch ≥ cfg.electraEpoch then 169 else 105
def currentCommitteeGindex : Nat := if epoch ≥ cfg.electraEpoch then 86 else 54
def nextCommitteeGindex : Nat := if epoch ≥ cfg.electraEpoch then 87 else 55

end LightClientConfig

def EXECUTION_PAYLOAD_GINDEX : Nat := 25

/-! ## Proofs -/

/-- SHA-256 and BLS12-381, as far as the light client uses them. -/
structure BeaconCrypto where
  hashPair : Uint256 → Uint256 → Uint256
  beaconRoot : BeaconBlockHeader → Uint256
  executionRoot : ExecutionPayloadHeader → Uint256
  committeeRoot : SyncCommittee → Uint256
  /-- `SigningRoot` under the sync-committee domain of a fork version and a genesis root. -/
  signingRoot : Nat → Uint256 → Uint256 → Uint256
  publicKeyDecodes : Nat → Bool
  signatureDecodes : Nat → Bool
  fastAggregateVerify : List Nat → Uint256 → Nat → Bool

/-- The root a branch leads to from a leaf; the bits of `index` tell left from right. -/
def climbBranch (hashPair : Uint256 → Uint256 → Uint256) : Nat → Uint256 → List Uint256 → Uint256
  | _, node, [] => node
  | index, node, sibling :: rest =>
    climbBranch hashPair (index / 2)
      (if index % 2 = 1 then hashPair sibling node else hashPair node sibling) rest

def verifyBranch (hashPair : Uint256 → Uint256 → Uint256) (leaf : Uint256)
    (branch : List Uint256) (gindex : Nat) (root : Uint256) : Bool :=
  2 ≤ gindex && branch.length == Nat.log2 gindex &&
    climbBranch hashPair (gindex - 2 ^ Nat.log2 gindex) leaf branch == root

variable (C : BeaconCrypto)

def LightClientHeader.verifyExecution (h : LightClientHeader) : Bool :=
  h.execution.validForHashTreeRoot &&
    verifyBranch C.hashPair (C.executionRoot h.execution) h.executionBranch
      EXECUTION_PAYLOAD_GINDEX h.beacon.bodyRoot

inductive LcResult where
  | OK | BAD_STRUCTURE | BOOTSTRAP_PROOF | MONOTONICITY | FINALITY_PROOF | EXECUTION_PROOF
  | NEXT_PROOF | PERIOD | PARTICIPATION | SIGNATURE
  deriving DecidableEq

/-- A store from a trusted checkpoint root and the data of its bootstrap. -/
def initStore (cfg : LightClientConfig) (trustedRoot : Uint256) (header : LightClientHeader)
    (current : SyncCommittee) (committeeBranch : List Uint256) : Except LcResult LightClientStore :=
  run
    [(current.pubkeys.length != SYNC_COMMITTEE_SIZE, .BAD_STRUCTURE),
     (C.beaconRoot header.beacon != trustedRoot, .BOOTSTRAP_PROOF),
     (!header.verifyExecution C, .EXECUTION_PROOF),
     (!verifyBranch C.hashPair (C.committeeRoot current) committeeBranch
        (cfg.currentCommitteeGindex (epochAtSlot header.beacon.slot)) header.beacon.stateRoot,
      .BOOTSTRAP_PROOF)]
    (.ok ⟨header, periodAtSlot header.beacon.slot, current, none⟩)

theorem initStore_ok {C : BeaconCrypto} {cfg : LightClientConfig} {root : Uint256}
    {header : LightClientHeader} {current : SyncCommittee} {branch : List Uint256}
    {store : LightClientStore} (h : initStore C cfg root header current branch = .ok store) :
    store = ⟨header, periodAtSlot header.beacon.slot, current, none⟩ :=
  (Except.ok.inj (run_eq_ok.mp h).2).symm

namespace LightClientStore

variable (store : LightClientStore) (cfg : LightClientConfig) (u : LightClientUpdate)

/-- An update older than the store is of use only if it proves the missing next committee
of the store's own period. -/
def fillsNextCommittee : Bool :=
  u.hasNext && store.next.isNone && periodAtSlot u.attested.beacon.slot == store.period &&
    periodAtSlot u.finalized.beacon.slot == store.period &&
    periodAtSlot u.signatureSlot == store.period

/-- Everything before the choice of the committee. -/
def headerGuards : List (Bool × LcResult) :=
  [(u.hasNext && u.nextCommittee.pubkeys.length != SYNC_COMMITTEE_SIZE, .BAD_STRUCTURE),
   (!(u.signatureSlot > u.attested.beacon.slot : Bool), .MONOTONICITY),
   (!(u.attested.beacon.slot ≥ u.finalized.beacon.slot : Bool), .MONOTONICITY),
   (u.finalized.beacon.slot < store.finalizedHeader.beacon.slot && !store.fillsNextCommittee u,
    .MONOTONICITY),
   (u.hasNext && periodAtSlot u.attested.beacon.slot == store.period &&
      store.next.any (fun next => C.committeeRoot u.nextCommittee != C.committeeRoot next),
    .NEXT_PROOF),
   (!verifyBranch C.hashPair (C.beaconRoot u.finalized.beacon) u.finalityBranch
      (cfg.finalityGindex (epochAtSlot u.attested.beacon.slot)) u.attested.beacon.stateRoot,
    .FINALITY_PROOF),
   (!u.attested.verifyExecution C || !u.finalized.verifyExecution C, .EXECUTION_PROOF),
   (u.finalized.beacon.slot == store.finalizedHeader.beacon.slot &&
      C.beaconRoot u.finalized.beacon != C.beaconRoot store.finalizedHeader.beacon,
    .MONOTONICITY),
   (u.hasNext && periodAtSlot u.attested.beacon.slot != periodAtSlot u.signatureSlot, .PERIOD),
   (u.hasNext && !verifyBranch C.hashPair (C.committeeRoot u.nextCommittee) u.nextBranch
      (cfg.nextCommitteeGindex (epochAtSlot u.attested.beacon.slot)) u.attested.beacon.stateRoot,
    .NEXT_PROOF)]

def committeeFor (sigPeriod : Nat) : Option SyncCommittee :=
  if sigPeriod = store.period then some store.current
  else if sigPeriod = store.period + 1 then store.next
  else none

/-- The keys of the members that take part. -/
def participantKeys (committee : SyncCommittee) : List Nat :=
  ((List.range SYNC_COMMITTEE_SIZE).filter u.syncAggregate.participant).map
    fun i => committee.pubkeys.getD i 0

def signatureGuards (committee : SyncCommittee) : List (Bool × LcResult) :=
  let participants := u.syncAggregate.participation
  let version := cfg.forkVersionAt (epochAtSlot (max u.signatureSlot 1 - 1))
  let root := C.signingRoot version cfg.genesisValidatorsRoot (C.beaconRoot u.attested.beacon)
  let keys := participantKeys u committee
  [(participants < cfg.minParticipants || participants == 0, .PARTICIPATION),
   (!keys.all C.publicKeyDecodes, .BAD_STRUCTURE),
   (!C.signatureDecodes u.syncAggregate.signature, .BAD_STRUCTURE),
   (!C.fastAggregateVerify keys root u.syncAggregate.signature, .SIGNATURE)]

/-- `bridge::VerifyUpdate`. -/
def verifyUpdate : LcResult :=
  match first (store.headerGuards C cfg u) with
  | some r => r
  | none =>
    match store.committeeFor (periodAtSlot u.signatureSlot) with
    | none => .PERIOD
    | some committee => (first (signatureGuards C cfg u committee)).getD .OK

/-- The committees after an update whose finalized header lies in `newPeriod`. -/
def rotate (newPeriod : Nat) : Except LcResult LightClientStore :=
  if newPeriod = store.period + 1 then
    match store.next with
    | none => .error .PERIOD
    | some next => .ok { store with current := next, next := none, period := newPeriod }
  else if newPeriod ≠ store.period then .error .PERIOD
  else .ok store

/-- The finalized header never goes back. -/
def advance : LightClientStore :=
  if u.finalized.beacon.slot ≥ store.finalizedHeader.beacon.slot then
    { store with finalizedHeader := u.finalized }
  else store

def learnNext : LightClientStore :=
  if u.hasNext && store.next.isNone && periodAtSlot u.attested.beacon.slot == store.period then
    { store with next := some u.nextCommittee }
  else store

def processUpdate : Except LcResult LightClientStore :=
  match store.verifyUpdate C cfg u with
  | .OK => (store.rotate (periodAtSlot u.finalized.beacon.slot)).map
      fun s => (s.advance u).learnNext u
  | r => .error r

/-! ## What an update does -/

variable {C store cfg u} {store' : LightClientStore}

/-- The store is in the period of its finalized header. -/
def Aligned (store : LightClientStore) : Prop :=
  store.period = periodAtSlot store.finalizedHeader.beacon.slot

/-- What `VerifyUpdate` has checked of an update it accepts. -/
structure Accepts (C : BeaconCrypto) (cfg : LightClientConfig) (store : LightClientStore)
    (u : LightClientUpdate) : Prop where
  full : u.hasNext → u.nextCommittee.pubkeys.length = SYNC_COMMITTEE_SIZE
  attested_lt : u.attested.beacon.slot < u.signatureSlot
  finalized_le : u.finalized.beacon.slot ≤ u.attested.beacon.slot
  fills : u.finalized.beacon.slot < store.finalizedHeader.beacon.slot →
    store.fillsNextCommittee u = true
  finality : verifyBranch C.hashPair (C.beaconRoot u.finalized.beacon) u.finalityBranch
    (cfg.finalityGindex (epochAtSlot u.attested.beacon.slot)) u.attested.beacon.stateRoot = true
  same_root : u.finalized.beacon.slot = store.finalizedHeader.beacon.slot →
    C.beaconRoot u.finalized.beacon = C.beaconRoot store.finalizedHeader.beacon
  same_period : u.hasNext →
    periodAtSlot u.attested.beacon.slot = periodAtSlot u.signatureSlot
  next : u.hasNext → verifyBranch C.hashPair (C.committeeRoot u.nextCommittee) u.nextBranch
    (cfg.nextCommitteeGindex (epochAtSlot u.attested.beacon.slot))
    u.attested.beacon.stateRoot = true
  signed : ∃ committee, store.committeeFor (periodAtSlot u.signatureSlot) = some committee ∧
    ∀ g ∈ signatureGuards C cfg u committee, g.1 = false

theorem headerGuards_ne_OK : ∀ g ∈ store.headerGuards C cfg u, g.2 ≠ .OK := by
  simp [headerGuards]

theorem signatureGuards_ne_OK (committee : SyncCommittee) :
    ∀ g ∈ signatureGuards C cfg u committee, g.2 ≠ .OK := by
  simp [signatureGuards]

theorem accepts_of_OK (h : store.verifyUpdate C cfg u = .OK) : store.Accepts C cfg u := by
  unfold verifyUpdate at h
  split at h
  · rename_i r hf
    obtain ⟨g, hg, hr⟩ := mem_of_first hf
    exact absurd (hr.trans h) (headerGuards_ne_OK g hg)
  · rename_i hf
    have hheader := first_eq_none.mp hf
    split at h
    · cases h
    · rename_i committee hc
      have hsigned := (first_getD_eq (signatureGuards_ne_OK committee)).mp h
      simp only [headerGuards, List.forall_mem_cons] at hheader
      obtain ⟨hfull, hattested, hfinalized, hfills, -, hfinality, -, hroot, hperiod, hnext, -⟩ :=
        hheader
      exact ⟨by simpa using hfull, by simpa using hattested, by simpa using hfinalized,
        by simpa using hfills, by simpa using hfinality, by simpa using hroot,
        by simpa using hperiod, by simpa using hnext, committee, hc, hsigned⟩

theorem processUpdate_ok (h : store.processUpdate C cfg u = .ok store') :
    store.Accepts C cfg u ∧ ∃ rotated,
      store.rotate (periodAtSlot u.finalized.beacon.slot) = .ok rotated ∧
      store' = (rotated.advance u).learnNext u := by
  unfold processUpdate at h
  split at h
  · rename_i hverify
    obtain ⟨rotated, hrotate, rfl⟩ := map_eq_ok.mp h
    exact ⟨accepts_of_OK hverify, rotated, hrotate, rfl⟩
  · cases h

end LightClientStore

end B3Coin.Bridge
