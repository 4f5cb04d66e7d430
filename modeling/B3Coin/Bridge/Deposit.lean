import B3Coin.Bridge.Params
import B3Coin.Script
import Mathlib.Logic.Relation
import Mathlib.Tactic.Linarith

/-!
# Proven deposits and their admission

`bridge/exec_chain.h`, `bridge/deposit.h` and `bridge/admission.h`: the walk down the
parent hashes of execution headers, the deposit event of a receipt log, the exact
conversion of its amount, and the tuple and caps that admit a mint. Keccak, RLP and the
receipt trie stand behind the functions of `ExecutionCodec`.
-/
namespace B3Coin.Bridge

open Option

open Codec (Bytes)

structure ExecAncestor where
  blockNumber : Nat
  blockHash : Uint256
  receiptsRoot : Uint256
  deriving DecidableEq

structure EthLog where
  address : EthAddress
  topics : List Uint256
  data : Bytes
  deriving DecidableEq

structure EthReceipt where
  status : Bool
  logs : List EthLog
  deriving DecidableEq

/-- The decoders of execution-layer bytes. -/
structure ExecutionCodec where
  /-- `ParseHeader`: the header with its hash, and the hash of its parent. -/
  parseHeader : Bytes → Option (ExecAncestor × Uint256)
  headerTimestamp : Bytes → Option Nat
  /-- `VerifyMptProof` for a receipts root and the key of a transaction index. -/
  verifyMptProof : Uint256 → Nat → List Bytes → Option Bytes
  decodeReceipt : Bytes → Option EthReceipt
  depositTopic : Uint256

/-! ## Ancestry -/

section Ancestry

variable (X : ExecutionCodec)

/-- The loop of `VerifyExecAncestry`: `want` is the hash the next header must have, and from
the second header on `wantNumber` its number. -/
def walkAncestry (target : Nat) : Uint256 → Option Nat → List Bytes → Option ExecAncestor
  | _, _, [] => none
  | want, wantNumber, header :: rest =>
    match X.parseHeader header with
    | none => none
    | some (a, parent) =>
      if a.blockHash ≠ want then none
      else if wantNumber.any (a.blockNumber != ·) then none
      else if a.blockNumber = target then if rest = [] then some a else none
      else if a.blockNumber < target then none
      else walkAncestry target parent (some (a.blockNumber - 1)) rest

def verifyExecAncestry (provenBlockHash : Uint256) (targetBlock : Nat) (headers : List Bytes) :
    Option ExecAncestor :=
  walkAncestry X targetBlock provenBlockHash none headers

/-- A header with the first hash names the second as its parent. -/
def ParentOf (child parent : Uint256) : Prop :=
  ∃ header a, X.parseHeader header = some (a, parent) ∧ a.blockHash = child

/-- The second block is the first or an ancestor of it. -/
def Descends : Uint256 → Uint256 → Prop := Relation.ReflTransGen (ParentOf X)

variable {X}

theorem walkAncestry_descends {target : Nat} {want : Uint256} {wantNumber : Option Nat}
    {headers : List Bytes} {a : ExecAncestor}
    (h : walkAncestry X target want wantNumber headers = some a) :
    Descends X want a.blockHash ∧ a.blockNumber = target := by
  induction headers generalizing want wantNumber with
  | nil => cases h
  | cons header rest ih =>
    unfold walkAncestry at h
    split at h
    · cases h
    · rename_i b parent hparse
      split_ifs at h with hhash hnumber htarget hrest hpast
      · cases h
        exact ⟨by rw [not_not.mp hhash]; exact .refl, htarget⟩
      · obtain ⟨hd, hn⟩ := ih h
        exact ⟨.head ⟨header, b, hparse, not_not.mp hhash⟩ hd, hn⟩

end Ancestry

/-! ## Deposit events -/

structure DepositEvent where
  depositId : Nat
  /-- Zero is native ether. -/
  token : EthAddress
  /-- 32 bytes, most significant first. -/
  amount : Bytes
  b3Recipient : Bytes
  deriving DecidableEq

/-- The padding of the two indexed words has to be zero. -/
def decodeDepositLog (X : ExecutionCodec) (log : EthLog) (vault : EthAddress) :
    Option DepositEvent :=
  match log.topics with
  | [t₀, t₁, t₂] =>
    if log.address ≠ vault ∨ t₀ ≠ X.depositTopic ∨ log.data.length ≠ 64 then none
    else if t₁ ≥ 2 ^ 64 ∨ t₂ ≥ 2 ^ 160 then none
    else some ⟨t₁, t₂, log.data.take 32, log.data.drop 32⟩
  | _ => none

def extractDepositAt (X : ExecutionCodec) (receipt : EthReceipt) (vault : EthAddress)
    (logIndex : Nat) : Option DepositEvent :=
  if !receipt.status then none
  else receipt.logs[logIndex]?.bind fun log => decodeDepositLog X log vault

/-! ## Recipients and amounts -/

/-- `DecodeRecipientV1`: eleven zero bytes, the version, and a public-key hash that is not
all zero. -/
def decodeRecipientV1 (encoded : Bytes) : Option Bytes :=
  if (encoded.take 11).any (· != 0) then none
  else if (encoded.drop 11).head? ≠ some (UInt8.ofNat BRIDGE_RECIPIENT_VERSION_P2PKH_V1) then none
  else if (encoded.drop 12).all (· == 0) then none
  else some (encoded.drop 12)

/-- Pay to public-key hash. -/
def recipientV1Script (pubkeyHash : Bytes) : Bytes :=
  [0x76, 0xa9, 0x14] ++ pubkeyHash ++ [0x88, 0xac]

/-- Long division by ten, most significant byte first: the quotient and the remainder. -/
def divideByTen : Nat → Bytes → Bytes × Nat
  | remainder, [] => ([], remainder)
  | remainder, byte :: rest =>
    let current := remainder * 256 + byte.toNat
    let tail := divideByTen (current % 10) rest
    (UInt8.ofNat (current / 10) :: tail.1, tail.2)

/-- A digit that would be lost refuses the amount. -/
def scaleDown : Nat → Bytes → Option Bytes
  | 0, amount => some amount
  | n + 1, amount =>
    let q := divideByTen 0 amount
    if q.2 ≠ 0 then none else scaleDown n q.1

def readAmount : Int → Bytes → Option Int
  | converted, [] => some converted
  | converted, byte :: rest =>
    if converted > (MAX_MONEY - byte.toNat) / 256 then none
    else readAmount (converted * 256 + byte.toNat) rest

def scaleUp : Nat → Int → Option Int
  | 0, converted => some converted
  | n + 1, converted => if converted > MAX_MONEY / 10 then none else scaleUp n (converted * 10)

def convertRawUnitsExact (amount : Bytes) (originDecimals assetDecimals : Nat) : Option Int :=
  if originDecimals > 18 ∨ assetDecimals > 18 then none
  else (scaleDown (originDecimals - assetDecimals) amount).bind fun scaled =>
    (readAmount 0 scaled).bind fun converted =>
      if converted ≤ 0 then none else scaleUp (assetDecimals - originDecimals) converted

section Amounts

variable {amount scaled : Bytes} {n o a : Nat} {c v : Int}

theorem divideByTen_spec {remainder : Nat} (h : remainder < 10) (amount : Bytes) :
    remainder * 256 ^ amount.length + beValue amount =
      10 * beValue (divideByTen remainder amount).1 + (divideByTen remainder amount).2 ∧
    (divideByTen remainder amount).1.length = amount.length ∧
    (divideByTen remainder amount).2 < 10 := by
  induction amount generalizing remainder with
  | nil => simpa [divideByTen, beValue, Codec.leValue] using h
  | cons byte rest ih =>
    obtain ⟨hvalue, hlength, hlast⟩ := ih (Nat.mod_lt (remainder * 256 + byte.toNat) (by decide))
    have hbyte := byte.toNat_lt
    have hdigit : (UInt8.ofNat ((remainder * 256 + byte.toNat) / 10)).toNat =
        (remainder * 256 + byte.toNat) / 10 := UInt8.toNat_ofNat_of_lt' (by
          show _ < 256
          omega)
    have hcurrent := Nat.div_add_mod (remainder * 256 + byte.toNat) 10
    have hshifted := congrArg (· * 256 ^ rest.length) hcurrent
    simp only [divideByTen, List.length_cons, beValue_cons, hlength, hdigit, Nat.pow_succ]
      at hshifted ⊢
    exact ⟨by linarith, trivial, hlast⟩

theorem scaleDown_some (h : scaleDown n amount = some scaled) :
    10 ^ n * beValue scaled = beValue amount := by
  induction n generalizing amount with
  | zero =>
    cases h
    simp
  | succ n ih =>
    obtain ⟨hvalue, -⟩ := divideByTen_spec (Nat.zero_lt_succ 9) amount
    simp only [scaleDown, ite_none_left_eq_some, not_not] at h
    have hrest := ih h.2
    rw [Nat.pow_succ]
    linarith

theorem scaleDown_of_dvd (h : 10 ^ n ∣ beValue amount) : ∃ scaled, scaleDown n amount = some scaled := by
  induction n generalizing amount with
  | zero => exact ⟨amount, rfl⟩
  | succ n ih =>
    obtain ⟨hvalue, -, hlast⟩ := divideByTen_spec (Nat.zero_lt_succ 9) amount
    obtain ⟨k, hk⟩ := h
    rw [Nat.pow_succ', Nat.mul_assoc] at hk
    have hzero : (divideByTen 0 amount).2 = 0 := by omega
    have hdvd : 10 ^ n ∣ beValue (divideByTen 0 amount).1 := ⟨k, by omega⟩
    obtain ⟨scaled, hscaled⟩ := ih hdvd
    exact ⟨scaled, by simp only [scaleDown, hzero, hscaled]; rfl⟩

theorem readAmount_eq (hc : 0 ≤ c) (hle : c ≤ MAX_MONEY) (amount : Bytes) :
    readAmount c amount = if c * 256 ^ amount.length + beValue amount ≤ MAX_MONEY then
      some (c * 256 ^ amount.length + beValue amount) else none := by
  induction amount generalizing c with
  | nil => simp [readAmount, beValue, Codec.leValue, hle]
  | cons byte rest ih =>
    have hvalue : c * 256 ^ (byte :: rest).length + beValue (byte :: rest) =
        (c * 256 + byte.toNat) * 256 ^ rest.length + beValue rest := by
      rw [List.length_cons, beValue_cons, pow_succ]
      push_cast
      ring
    rw [readAmount, hvalue]
    have hpow : (1 : Int) ≤ 256 ^ rest.length := one_le_pow₀ (by decide)
    split_ifs with hlimit hfits hfits
    · -- the value only grows with the bytes that follow
      have hover : MAX_MONEY < c * 256 + byte.toNat := by omega
      nlinarith
    · rfl
    · rw [ih (by omega) (by omega), if_pos hfits]
    · rw [ih (by omega) (by omega), if_neg hfits]

theorem scaleUp_eq (hc : 0 ≤ c) (hle : c ≤ MAX_MONEY) (n : Nat) :
    scaleUp n c = if c * 10 ^ n ≤ MAX_MONEY then some (c * 10 ^ n) else none := by
  induction n generalizing c with
  | zero => simp [scaleUp, hle]
  | succ n ih =>
    have hpow : (1 : Int) ≤ 10 ^ n := one_le_pow₀ (by decide)
    rw [scaleUp, pow_succ', ← mul_assoc]
    split_ifs with hlimit hfits hfits
    · have hover : MAX_MONEY < c * 10 := by omega
      nlinarith
    · rfl
    · rw [ih (by omega) (by omega), if_pos hfits]
    · rw [ih (by omega) (by omega), if_neg hfits]

/-- The converted amount before its range is looked at. -/
theorem convertRawUnitsExact_eq (amount : Bytes) (o a : Nat) :
    convertRawUnitsExact amount o a = some v ↔ o ≤ 18 ∧ a ≤ 18 ∧ ∃ scaled,
      scaleDown (o - a) amount = some scaled ∧ v = beValue scaled * 10 ^ (a - o) ∧ 1 ≤ v ∧
        v ≤ MAX_MONEY := by
  have hmax : (0 : Int) ≤ MAX_MONEY := by decide
  have hpow : (1 : Int) ≤ 10 ^ (a - o) := one_le_pow₀ (by decide)
  simp only [convertRawUnitsExact, ite_none_left_eq_some, ite_none_right_eq_some,
    some.injEq, bind_eq_some_iff,
    readAmount_eq le_rfl hmax, zero_mul, zero_add, not_or, not_lt, and_assoc]
  refine and_congr_right fun _ => and_congr_right fun _ => exists_congr fun scaled =>
    and_congr_right fun _ => ⟨?_, ?_⟩
  · rintro ⟨c, hle, rfl, hpos, hup⟩
    rw [scaleUp_eq (Int.natCast_nonneg _) hle, ite_none_right_eq_some] at hup
    obtain ⟨hfits, hv⟩ := hup
    obtain rfl := some.inj hv
    exact ⟨rfl, by nlinarith, hfits⟩
  · rintro ⟨rfl, hpos, hfits⟩
    have hvalue : (1 : Int) ≤ beValue scaled := by
      by_contra hlt
      have : (beValue scaled : Int) = 0 := by omega
      rw [this, zero_mul] at hpos
      omega
    have hle : (beValue scaled : Int) ≤ MAX_MONEY := by nlinarith
    exact ⟨_, hle, rfl, by omega, by rw [scaleUp_eq (by omega) hle, if_pos hfits]⟩

theorem convertRawUnitsExact_range (h : convertRawUnitsExact amount o a = some v) :
    0 < v ∧ v ≤ MAX_MONEY := by
  obtain ⟨-, -, -, -, -, hpos, hle⟩ := (convertRawUnitsExact_eq amount o a).mp h
  exact ⟨hpos, hle⟩

/-- No rounding: an amount is converted to the value it has in the units of the asset, or
not at all. -/
theorem convertRawUnitsExact_iff (amount : Bytes) (o a : Nat) (v : Int) :
    convertRawUnitsExact amount o a = some v ↔
      o ≤ 18 ∧ a ≤ 18 ∧ v * 10 ^ o = beValue amount * 10 ^ a ∧ 1 ≤ v ∧ v ≤ MAX_MONEY := by
  -- both products are over the larger of the two scales
  have hscale : (10 : Int) ^ (a - o) * 10 ^ o = 10 ^ (o - a) * 10 ^ a := by
    rw [← pow_add, ← pow_add]
    exact congrArg _ (by omega)
  rw [convertRawUnitsExact_eq]
  refine and_congr_right fun _ => and_congr_right fun _ => ⟨?_, ?_⟩
  · rintro ⟨scaled, hdown, hv, hrange⟩
    have hvalue : (10 : Int) ^ (o - a) * beValue scaled = beValue amount :=
      mod_cast scaleDown_some hdown
    refine ⟨?_, hrange⟩
    rw [hv, ← hvalue, mul_assoc, hscale]
    ring
  · rintro ⟨hexact, hrange⟩
    have hdvd : (10 : Int) ^ (o - a) ∣ beValue amount := by
      rcases le_total o a with h | h
      · simp [Nat.sub_eq_zero_of_le h]
      · refine ⟨v, mul_right_cancel₀ (pow_ne_zero a (by decide : (10 : Int) ≠ 0)) ?_⟩
        rw [← hexact, mul_right_comm, ← hscale, Nat.sub_eq_zero_of_le h]
        ring
    obtain ⟨scaled, hdown⟩ := scaleDown_of_dvd (mod_cast hdvd)
    have hvalue : (10 : Int) ^ (o - a) * beValue scaled = beValue amount :=
      mod_cast scaleDown_some hdown
    refine ⟨scaled, hdown, mul_right_cancel₀ (pow_ne_zero o (by decide : (10 : Int) ≠ 0)) ?_, hrange⟩
    rw [hexact, ← hvalue, mul_assoc _ _ ((10 : Int) ^ o), hscale]
    ring

end Amounts

/-! ## Admission -/

/-- The replay key of a deposit. -/
structure BridgeDepositKey where
  originChainId : Nat
  vaultAddress : EthAddress
  depositId : Nat
  deriving DecidableEq

instance : LinearOrder BridgeDepositKey :=
  LinearOrder.lift'
    (fun k => (toLex (k.originChainId, toLex (k.vaultAddress, k.depositId)) :
      Lex (Nat × Lex (Nat × Nat))))
    fun a b h => by
      cases b
      cases h
      rfl

structure BridgeMintAuthorization where
  asset : Uint256
  amount : Int
  recipientScript : Bytes
  nullifier : BridgeDepositKey
  deriving DecidableEq

structure ProvenBridgeDeposit where
  originChainId : Nat
  executionBlockNumber : Nat
  vaultAddress : EthAddress
  event : DepositEvent

inductive BridgeRegistryState where
  | PROPOSED | ACTIVE | RETIRED
  deriving DecidableEq

structure BridgeAssetRegistryEntry where
  originChainId : Nat
  originDeploymentBlock : Nat
  vaultAddress : EthAddress
  tokenAddress : EthAddress
  b3AssetId : Uint256
  originDecimals : Nat
  assetDecimals : Nat
  vaultRuntimeCodeHash : Uint256
  implementationOrAdapter : Uint256
  adapterVersion : Nat
  approvalFirstHeight : Int
  approvalLastHeight : Option Int
  state : BridgeRegistryState

namespace BridgeAssetRegistryEntry

def valid (e : BridgeAssetRegistryEntry) : Bool :=
  e.originChainId != 0 && 0 < e.originDeploymentBlock && e.vaultAddress != 0 &&
    e.tokenAddress != 0 && e.vaultAddress != e.tokenAddress && e.b3AssetId != 0 &&
    e.originDecimals ≤ 18 && e.assetDecimals ≤ 18 && e.vaultRuntimeCodeHash != 0 &&
    e.implementationOrAdapter != 0 &&
    e.adapterVersion == BRIDGE_ADAPTER_VERSION_DIRECT_TOKEN_V1 && 0 ≤ e.approvalFirstHeight &&
    e.approvalLastHeight.all (e.approvalFirstHeight ≤ ·)

def activeAt (e : BridgeAssetRegistryEntry) (height : Int) : Bool :=
  e.valid && e.state == .ACTIVE && e.approvalFirstHeight ≤ height &&
    e.approvalLastHeight.all (height ≤ ·)

end BridgeAssetRegistryEntry

inductive BridgeAdmissionResult where
  | CONFIGURATION_INCOMPLETE | REGISTRY_INACTIVE | BEFORE_DEPLOYMENT | ORIGIN_MISMATCH
  | VAULT_MISMATCH | TOKEN_MISMATCH | RECIPIENT_INVALID | AMOUNT_INVALID | BLOCK_CAP_EXCEEDED
  | EPOCH_CAP_EXCEEDED
  deriving DecidableEq

def admitProvenDeposit (registry : BridgeAssetRegistryEntry) (deposit : ProvenBridgeDeposit)
    (height : Int) : Except BridgeAdmissionResult BridgeMintAuthorization :=
  if !registry.activeAt height then .error .REGISTRY_INACTIVE
  else if deposit.executionBlockNumber < registry.originDeploymentBlock then
    .error .BEFORE_DEPLOYMENT
  else if deposit.originChainId ≠ registry.originChainId then .error .ORIGIN_MISMATCH
  else if deposit.vaultAddress ≠ registry.vaultAddress then .error .VAULT_MISMATCH
  else if deposit.event.token ≠ registry.tokenAddress then .error .TOKEN_MISMATCH
  else
    match decodeRecipientV1 deposit.event.b3Recipient with
    | none => .error .RECIPIENT_INVALID
    | some recipient =>
      match convertRawUnitsExact deposit.event.amount registry.originDecimals
          registry.assetDecimals with
      | none => .error .AMOUNT_INVALID
      | some amount =>
        .ok
          { asset := registry.b3AssetId
            amount := amount
            recipientScript := recipientV1Script recipient
            nullifier :=
              ⟨registry.originChainId, registry.vaultAddress, deposit.event.depositId⟩ }

/-- The tagged hashes behind the identities of the bridge. -/
structure BridgeIds where
  chainDomain : Uint256 → Uint256 → Uint256
  assetId : Uint256 → BridgeAssetIdentity → Uint256
  registryId : Uint256 → BridgeAssetParams → Uint256

section Configured

variable (I : BridgeIds)

def configuredBridgeAssetId (p : Params) : Option Uint256 :=
  p.busdBridge.bind fun b => p.legacyFinalHash.bind fun final =>
    if !b.asset.valid then none
    else (modernChainDomain I.chainDomain p.hashGenesisBlock final).map (I.assetId · b.asset)

def configuredBridgeRegistryId (p : Params) : Option Uint256 :=
  p.readyBridge.bind fun b => p.legacyFinalHash.bind fun final =>
    (modernChainDomain I.chainDomain p.hashGenesisBlock final).map (I.registryId · b.params)

def configuredBridgeRegistryEntry (p : Params) : Option BridgeAssetRegistryEntry :=
  p.readyBridge.bind fun b => (configuredBridgeAssetId I p).map fun asset =>
    { originChainId := b.params.asset.originChainId
      originDeploymentBlock := b.originDeploymentBlock
      vaultAddress := b.params.asset.vaultAddress
      tokenAddress := b.params.asset.tokenAddress
      b3AssetId := asset
      originDecimals := b.params.asset.originDecimals
      assetDecimals := b.params.asset.assetDecimals
      vaultRuntimeCodeHash := b.vaultRuntimeCodeHash
      implementationOrAdapter := b.implementationOrAdapter
      adapterVersion := b.adapterVersion
      approvalFirstHeight := b.activationHeight
      approvalLastHeight := b.params.approvalLastHeight
      state := .ACTIVE }

structure BridgeMintBudget where
  mintedThisBlock : Int
  mintedThisEpoch : Int

def admitConfiguredDeposit (p : Params) (caps : BridgeMintCaps) (deposit : ProvenBridgeDeposit)
    (height : Int) (used : BridgeMintBudget) :
    Except BridgeAdmissionResult BridgeMintAuthorization :=
  match configuredBridgeRegistryEntry I p with
  | none => .error .CONFIGURATION_INCOMPLETE
  | some registry =>
    match admitProvenDeposit registry deposit height with
    | .error e => .error e
    | .ok out =>
      if used.mintedThisBlock < 0 ∨ used.mintedThisBlock > caps.maxPerBlock ∨
          out.amount > caps.maxPerBlock - used.mintedThisBlock then .error .BLOCK_CAP_EXCEEDED
      else if used.mintedThisEpoch < 0 ∨ used.mintedThisEpoch > caps.maxPerEpoch ∨
          out.amount > caps.maxPerEpoch - used.mintedThisEpoch then .error .EPOCH_CAP_EXCEEDED
      else .ok out

end Configured

/-! ## What an admitted deposit is -/

variable {deposit : ProvenBridgeDeposit} {out : BridgeMintAuthorization}

theorem admitProvenDeposit_ok {registry : BridgeAssetRegistryEntry} {height : Int}
    (h : admitProvenDeposit registry deposit height = .ok out) :
    registry.valid = true ∧ out.asset = registry.b3AssetId ∧ 0 < out.amount ∧
      out.amount ≤ MAX_MONEY ∧ out.recipientScript ≠ [] := by
  unfold admitProvenDeposit at h
  split_ifs at h with hactive hblock horigin hvault htoken
  have hvalid : registry.valid = true := by
    simp only [BridgeAssetRegistryEntry.activeAt, Bool.not_eq_true', Bool.not_eq_false,
      Bool.and_eq_true] at hactive
    exact hactive.1.1.1
  split at h
  · cases h
  · split at h
    · cases h
    · rename_i amount hamount
      cases h
      obtain ⟨hpos, hle⟩ := convertRawUnitsExact_range hamount
      exact ⟨hvalid, rfl, hpos, hle, by simp [recipientV1Script]⟩

/-- An admitted mint is of the configured asset and stays within both caps. -/
theorem admitConfiguredDeposit_ok {I : BridgeIds} {p : Params} {caps : BridgeMintCaps}
    {height : Int} {used : BridgeMintBudget}
    (h : admitConfiguredDeposit I p caps deposit height used = .ok out) :
    configuredBridgeAssetId I p = some out.asset ∧ out.asset ≠ 0 ∧ 0 < out.amount ∧
      out.amount ≤ MAX_MONEY ∧ out.recipientScript ≠ [] ∧
      used.mintedThisBlock + out.amount ≤ caps.maxPerBlock ∧
      used.mintedThisEpoch + out.amount ≤ caps.maxPerEpoch := by
  unfold admitConfiguredDeposit at h
  split at h
  · cases h
  · rename_i registry hregistry
    split at h
    · cases h
    · rename_i a hadmit
      split_ifs at h with hblock hepoch
      cases h
      obtain ⟨hvalid, hasset, hpos, hle, hscript⟩ := admitProvenDeposit_ok hadmit
      obtain ⟨b, -, hentry⟩ := bind_eq_some_iff.mp hregistry
      obtain ⟨asset, hid, rfl⟩ := map_eq_some_iff.mp hentry
      have hne : asset ≠ 0 := by
        simp only [BridgeAssetRegistryEntry.valid, Bool.and_eq_true, bne_iff_ne] at hvalid
        exact hvalid.1.1.1.1.1.1.1.2
      exact ⟨by rw [hid, hasset], by rw [hasset]; exact hne, hpos, hle, hscript, by omega, by omega⟩

end B3Coin.Bridge
