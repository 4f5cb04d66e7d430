import B3Coin.Consensus
import B3Coin.Lib.Guards
import B3Coin.Script

/-!
# Asset outputs

The `B3A1` carrier of `modern/asset_output.h` and the vault parameters of
`modern/policy.h`. A carrier is a minimal push of the asset, the amount and the
policy, followed by the owner script, or by `OP_FALSE` for a burn or a vault.
The hashes and the decoding of a BLS key are parameters.
-/
namespace B3Coin.Assets

open Codec (Bytes)
open Script Guards

/-- The native coin: the all-zero asset id. -/
def NativeAsset : Uint256 := 0

def VAULT_KIND_USER_DEPOSIT : UInt8 := 1
def VAULT_KIND_POOL_CHANGE : UInt8 := 2
def VAULT_POOL_CHANGE_PARAMS_SIZE : Nat := 3
def VAULT_USER_DEPOSIT_PARAMS_SIZE : Nat := 35
def DEX_VAULT_POLICY_VERSION_V2 : Nat := 2
def FN_SEAT_POLICY_VERSION_V2 : Nat := 2
def FN_SEAT_POLICY_PARAMS_SIZE : Nat := 48
def ASSET_OUTPUT_HEADER_SIZE : Nat := 48

structure ModernOutput where
  asset : Uint256 := 0
  amount : Int := 0
  policyType : Nat := 0
  policyVersion : Nat := 0
  policyCommitment : Uint256 := 0
  policyParams : Bytes := []
  deriving DecidableEq

structure Crypto where
  sha256 : Bytes → Uint256
  /-- Whether `bls::PublicKey::Decode` succeeds on 48 bytes. -/
  decodePublicKey : Bytes → Bool
  /-- The first two bytes of the shard digest, before the reduction. -/
  shardDigest : Uint256 → Uint256 → Nat

/-! ## Vault parameters -/

structure VaultParams where
  kind : UInt8
  shard : Nat
  account : Option Uint256 := none
  deriving DecidableEq

/-- `ParseVaultParams`. -/
def parseVaultParams (params : Bytes) : Option VaultParams :=
  if params.length ≠ VAULT_POOL_CHANGE_PARAMS_SIZE ∧
      params.length ≠ VAULT_USER_DEPOSIT_PARAMS_SIZE then none
  else
    let kind := params.getD 0 0
    let shard := (params.getD 1 0).toNat + 256 * (params.getD 2 0).toNat
    if shard ≥ 256 then none
    else if kind = VAULT_KIND_POOL_CHANGE then
      if params.length ≠ VAULT_POOL_CHANGE_PARAMS_SIZE then none else some { kind, shard }
    else if kind = VAULT_KIND_USER_DEPOSIT then
      if params.length ≠ VAULT_USER_DEPOSIT_PARAMS_SIZE then none
      else
        let account := beValue (params.drop 3)
        if account = 0 then none else some { kind, shard, account := some account }
    else none

theorem parseVaultParams_pool {params : Bytes} {vault : VaultParams}
    (h : parseVaultParams params = some vault) (hkind : vault.kind = VAULT_KIND_POOL_CHANGE) :
    vault.account = none := by
  unfold parseVaultParams at h
  simp only at h
  split_ifs at h with hsize hshard hpool hlen huser hlen hnull
  · cases h
    rfl
  · cases h
    exact absurd hkind hpool

variable (C : Crypto)

section

variable (script : Bytes) (pos : Nat) (vaultId : Uint256) (txout : CTxOut) (payload : Bytes)
  (out : ModernOutput)

/-- `FlowMeshUserDepositShard`. -/
def flowMeshUserDepositShard (account : Uint256) : Nat := C.shardDigest vaultId account % 256

/-- `CheckVaultParams`. -/
def checkVaultParams (params : Bytes) : Bool :=
  if vaultId = 0 then false
  else match parseVaultParams params with
    | none => false
    | some parsed =>
      if parsed.kind ≠ VAULT_KIND_USER_DEPOSIT then true
      else parsed.account.any fun account => parsed.shard == flowMeshUserDepositShard C vaultId account

/-! ## The carrier -/

/-- `PushDataOffset`: the claimed size of a push and the position of its data, which may be cut
short. -/
def pushDataOffset : Option (Nat × Nat) :=
  if script.length ≤ pos then none
  else
    let op := script.getD pos 0
    let sized (width : Nat) : Option (Nat × Nat) :=
      if script.length < pos + 1 + width then none
      else some (Codec.leValue ((script.drop (pos + 1)).take width), pos + 1 + width)
    if 1 ≤ op ∧ op ≤ 75 then some (op.toNat, pos + 1)
    else if op = OP_PUSHDATA1 then sized 1
    else if op = OP_PUSHDATA2 then sized 2
    else if op = OP_PUSHDATA4 then sized 4
    else none

def claimsPayloadAt : Bool :=
  match pushDataOffset script pos with
  | none => false
  | some (size, start) =>
    ASSET_OUTPUT_MAGIC.length ≤ size && start ≤ script.length &&
      ASSET_OUTPUT_MAGIC.length ≤ script.length - start &&
      startsWith ASSET_OUTPUT_MAGIC (script.drop start)

/-- `ClaimsAssetOutput`: wider than validity, so that a malformed claim fails closed. -/
def claimsAssetOutput : Bool :=
  claimsPayloadAt script 0 ||
    (script.head? == some OP_RETURN && claimsPayloadAt script 1)

/-- `IsAssetOwnerPolicyShape`. -/
def isAssetOwnerPolicyShape (policyType policyVersion : Nat) (policyParams : Bytes) : Bool :=
  if policyType = PolicyType.OWNER.code then
    policyVersion == POLICY_VERSION_V1 && policyParams.isEmpty
  else if policyType ≠ PolicyType.FN.code then false
  else if policyVersion = POLICY_VERSION_V1 then policyParams.isEmpty
  else
    policyVersion == FN_SEAT_POLICY_VERSION_V2 &&
      policyParams.length == FN_SEAT_POLICY_PARAMS_SIZE && C.decodePublicKey policyParams

/-- `AssetOwnerCommitment`. -/
def assetOwnerCommitment (ownerScript : Bytes) : Uint256 := C.sha256 ownerScript

/-- The policy part of a payload that names a vault. -/
def parseDexVault : Except String ModernOutput := do
  reject (out.policyVersion ≠ DEX_VAULT_POLICY_VERSION_V2) "asset DEX_VAULT policy requires v2"
  let rawParamsSize := payload.length - ASSET_OUTPUT_HEADER_SIZE
  reject (rawParamsSize ≠ 32 + VAULT_POOL_CHANGE_PARAMS_SIZE ∧
    rawParamsSize ≠ 32 + VAULT_USER_DEPOSIT_PARAMS_SIZE)
    "asset DEX_VAULT policy has the wrong wire params size"
  let out := { out with
    policyCommitment := beValue ((payload.drop ASSET_OUTPUT_HEADER_SIZE).take 32)
    policyParams := payload.drop (ASSET_OUTPUT_HEADER_SIZE + 32) }
  reject (checkVaultParams C out.policyCommitment out.policyParams = false)
    "asset DEX_VAULT policy has invalid vault params"
  if out.asset = NativeAsset then
    reject (txout.nValue ≠ out.amount) "native DEX_VAULT value must equal its encoded amount"
  else
    reject (txout.nValue ≠ 0) "non-native DEX_VAULT must have zero native value"
  .ok out

/-- The policy part of every other payload. -/
def parsePlain : Except String ModernOutput := do
  let out := { out with policyParams := payload.drop ASSET_OUTPUT_HEADER_SIZE }
  reject (txout.nValue ≠ 0) "asset output must have zero native value"
  reject (out.asset = NativeAsset) "asset output must carry a non-native asset"
  .ok out

end

/-- The part before the owner script: the payload and what follows its push. -/
def parsePayload (txout : CTxOut) : Except String (ModernOutput × Bytes) := do
  let script := txout.scriptPubKey
  reject (claimsAssetOutput script = false) "not a B3A1 asset output"
  reject (script.head? = some OP_RETURN) "OP_RETURN is not an asset output carrier"
  let x ← demand ((getOp script).filter fun x => x.1 ≤ OP_PUSHDATA4) "asset payload malformed"
  let payload := x.2.1
  let rest := x.2.2
  reject (minimalPush payload ++ rest ≠ script) "asset payload not minimally encoded"
  reject (payload.length < ASSET_OUTPUT_HEADER_SIZE ∨
      payload.length > ASSET_OUTPUT_HEADER_SIZE + MAX_POLICY_PARAMS_SIZE ∨
      startsWith ASSET_OUTPUT_MAGIC payload = false)
    "asset payload has the wrong size or magic"
  let encodedAmount := beValue ((payload.drop 36).take 8)
  let out : ModernOutput :=
    { asset := beValue ((payload.drop 4).take 32)
      policyType := beValue ((payload.drop 44).take 2)
      policyVersion := beValue ((payload.drop 46).take 2) }
  reject (encodedAmount < 1 ∨ (encodedAmount : Int) > MAX_MONEY)
    "asset amount outside [1, MAX_MONEY]"
  let out := { out with amount := encodedAmount }
  let out ← if out.policyType = PolicyType.DEX_VAULT.code then parseDexVault C txout payload out
    else parsePlain txout payload out
  .ok (out, rest)

/-- `ParseAssetOutput`. -/
def parseAssetOutput (txout : CTxOut) : Except String ModernOutput := do
  let x ← parsePayload C txout
  let out := x.1
  if out.policyType = PolicyType.OWNER.code then
    reject (out.policyVersion ≠ POLICY_VERSION_V1) "asset output policy version is not v1"
    reject (out.policyParams ≠ []) "asset output v1 policy params must be empty"
  else
    reject (out.policyType = PolicyType.FN.code ∧ out.policyVersion = POLICY_VERSION_V1 ∧
      out.policyParams ≠ []) "asset output v1 policy params must be empty"
  reject (x.2.head? ≠ some OP_DROP) "asset payload not followed by OP_DROP"
  let suffix := x.2.tail
  if out.policyType = PolicyType.BURN.code then
    reject (out.policyVersion ≠ POLICY_VERSION_V1 ∨ out.policyParams ≠ [])
      "asset BURN policy requires v1 with empty params"
    reject (suffix ≠ [OP_FALSE]) "asset BURN policy requires the exact OP_FALSE terminator"
    .ok out
  else if out.policyType = PolicyType.DEX_VAULT.code then
    reject (suffix ≠ [OP_FALSE]) "asset DEX_VAULT policy requires the exact OP_FALSE terminator"
    .ok out
  else
    reject (isAssetOwnerPolicyShape C out.policyType out.policyVersion out.policyParams = false)
      "spendable asset carrier has an invalid OWNER/FN policy shape"
    reject (suffix = []) "asset owner suffix is empty"
    -- a carrier is a single envelope: its owner script claims no further one
    reject (claimsAssetOutput suffix || claimsB3PolicyCarrier suffix)
      "asset owner suffix cannot be another B3 policy carrier"
    .ok { out with policyCommitment := assetOwnerCommitment C suffix }

section Amounts

variable {C} {txout : CTxOut} {payload : Bytes} {out out' : ModernOutput}

theorem parseDexVault_amount (h : parseDexVault C txout payload out = .ok out') :
    out'.amount = out.amount := by
  have h := of_seq h
  have h := of_seq h
  have h := of_seq h
  split at h
  all_goals
    have h := of_seq h
    cases h
    rfl

theorem parsePlain_amount (h : parsePlain txout payload out = .ok out') :
    out'.amount = out.amount := by
  have h := of_seq h
  have h := of_seq h
  cases h
  rfl

theorem parsePayload_amount {x : ModernOutput × Bytes} (h : parsePayload C txout = .ok x) :
    1 ≤ x.1.amount ∧ x.1.amount ≤ MAX_MONEY := by
  have h := of_seq h
  have h := of_seq h
  obtain ⟨y, -, h⟩ := bind_eq_ok.mp h
  have h := of_seq h
  have h := of_seq h
  obtain ⟨hrange, h⟩ := seq_eq_ok.mp h
  have hrange := reject_eq_ok.mp hrange
  have hamount : x.1.amount = (beValue ((y.2.1.drop 36).take 8) : Int) := by
    dsimp only at h
    split at h
    · obtain ⟨out, hout, h⟩ := bind_eq_ok.mp h
      cases h
      exact parseDexVault_amount hout
    · obtain ⟨out, hout, h⟩ := bind_eq_ok.mp h
      cases h
      exact parsePlain_amount hout
  omega

theorem parseAssetOutput_amount (h : parseAssetOutput C txout = .ok out) :
    1 ≤ out.amount ∧ out.amount ≤ MAX_MONEY := by
  obtain ⟨x, hx, h⟩ := bind_eq_ok.mp h
  have hrange := parsePayload_amount hx
  have hamount : out.amount = x.1.amount := by
    dsimp only at h
    split at h
    all_goals
      have h := of_seq h
      have h := of_seq h
    have h := of_seq h
    all_goals
      split_ifs at h
      · have h := of_seq h
        have h := of_seq h
        cases h
        rfl
      · have h := of_seq h
        cases h
        rfl
      · have h := of_seq h
        have h := of_seq h
        have h := of_seq h
        cases h
        rfl
  rw [hamount]
  exact hrange

end Amounts

/-- `IsAssetBurnOutput`. -/
def isAssetBurnOutput (txout : CTxOut) : Bool :=
  match parseAssetOutput C txout with
  | .ok out => out.policyType == PolicyType.BURN.code
  | .error _ => false

end B3Coin.Assets
