import B3Coin.Assets.Output

/-!
# Outputs at a height

`CheckPolicyOutput` of `modern/policy.h` and the views of `modern/asset_validation.h`:
which policies are open at a height, and how an output or a spent coin is read.
A coin of the legacy era is native whatever its script says.
-/
namespace B3Coin.Assets

open Codec (Bytes)
open Consensus

/-- The hashes behind the identities of a chain and its assets. -/
structure Env where
  output : Crypto
  /-- The hash of `ModernChainDomain`. -/
  chainDomain : Uint256 → Uint256 → Uint256
  fnAssetId : Uint256 → Uint256
  /-- The asset of the bridge, if a valid one is configured. -/
  configuredBridgeAssetId : Params → Option Uint256

/-! ## Policies -/

def STAKE_PARAMS_KEY_SIZE : Nat := 32
def STAKE_PARAMS_SIZE : Nat := 34

/-- `IsActivatedPolicy`. -/
def isActivatedPolicy (policyType policyVersion : Nat)
    (assetsActive fnActive dexVaultActive flowmeshActive : Bool) : Bool :=
  if policyType = PolicyType.DEX_VAULT.code then
    policyVersion == DEX_VAULT_POLICY_VERSION_V2 && dexVaultActive
  else if policyType = PolicyType.FN.code ∧ policyVersion = FN_SEAT_POLICY_VERSION_V2 then
    fnActive && flowmeshActive
  else if policyVersion ≠ POLICY_VERSION_V1 then false
  else if policyType = PolicyType.LEGACY_LOCK.code ∨ policyType = PolicyType.OWNER.code ∨
      policyType = PolicyType.STAKE.code then true
  else if policyType = PolicyType.BURN.code then assetsActive || fnActive
  else if policyType = PolicyType.FN.code then fnActive
  else false

inductive PolicyOutputCheck where
  | OK | NOT_MODERN_ERA | UNKNOWN_POLICY | BAD_AMOUNT | PARAMS_TOO_LARGE | BAD_POLICY_PARAMS
  | BAD_ASSET
  deriving DecidableEq

section Policies

variable (C : Crypto)

/-- The `STAKE` case of the switch. -/
def checkStakeOutput (out : ModernOutput) : PolicyOutputCheck :=
  if out.asset ≠ NativeAsset then .BAD_ASSET
  else if out.amount = 0 then .BAD_AMOUNT
  else if out.policyCommitment = 0 then .BAD_POLICY_PARAMS
  else if out.policyParams.length ≠ STAKE_PARAMS_SIZE then .BAD_POLICY_PARAMS
  else if (out.policyParams.take STAKE_PARAMS_KEY_SIZE).all (· == 0) then .BAD_POLICY_PARAMS
  else if (out.policyParams.drop STAKE_PARAMS_KEY_SIZE).any (· != 0) then .BAD_POLICY_PARAMS
  else .OK

/-- The `FN` case of the switch. -/
def checkFnOutput (out : ModernOutput) : PolicyOutputCheck :=
  if out.asset = NativeAsset then .BAD_ASSET
  else if if out.policyVersion = FN_SEAT_POLICY_VERSION_V2 then out.amount ≠ 1
      else out.amount < 1 ∨ out.amount > MAX_FN_EVER_ISSUED then .BAD_AMOUNT
  else if out.policyCommitment = 0 then .BAD_POLICY_PARAMS
  else if out.policyVersion = POLICY_VERSION_V1 then
    if out.policyParams ≠ [] then .BAD_POLICY_PARAMS else .OK
  else if out.policyVersion ≠ FN_SEAT_POLICY_VERSION_V2 ∨
      out.policyParams.length ≠ FN_SEAT_POLICY_PARAMS_SIZE ∨
      C.decodePublicKey out.policyParams = false then .BAD_POLICY_PARAMS
  else .OK

/-- The switch over the policy type. -/
def checkPolicyParams (out : ModernOutput) : PolicyOutputCheck :=
  if out.policyType = PolicyType.LEGACY_LOCK.code then
    if out.asset ≠ NativeAsset then .BAD_ASSET
    else if out.policyParams ≠ [] then .BAD_POLICY_PARAMS else .OK
  else if out.policyType = PolicyType.OWNER.code then
    if out.policyParams ≠ [] then .BAD_POLICY_PARAMS else .OK
  else if out.policyType = PolicyType.BURN.code then
    if out.policyParams ≠ [] ∨ out.policyCommitment ≠ 0 then .BAD_POLICY_PARAMS else .OK
  else if out.policyType = PolicyType.DEX_VAULT.code then
    if checkVaultParams C out.policyCommitment out.policyParams = false then .BAD_POLICY_PARAMS
    else .OK
  else if out.policyType = PolicyType.STAKE.code then checkStakeOutput out
  else if out.policyType = PolicyType.FN.code then checkFnOutput C out
  else .UNKNOWN_POLICY

/-- `CheckPolicyOutput`. -/
def checkPolicyOutput (out : ModernOutput) (height : Int) (params : Params)
    (configuredBridgeAssetActive : Bool := false) : PolicyOutputCheck :=
  if getB3Era params height ≠ .MODERN then .NOT_MODERN_ERA
  else if isActivatedPolicy out.policyType out.policyVersion
      (assetRulesActive params height || configuredBridgeAssetActive) (fnRulesActive params height)
      (params.testOnlyAssetPoliciesActive || flowMeshVaultPreparationRulesActive params height)
      (flowMeshSeatBindingRulesActive params height) = false then .UNKNOWN_POLICY
  else if out.amount < 0 ∨ out.amount > MAX_MONEY then .BAD_AMOUNT
  else if out.policyParams.length > MAX_POLICY_PARAMS_SIZE then .PARAMS_TOO_LARGE
  else checkPolicyParams C out

end Policies

/-! ## Views -/

variable (E : Env)

/-- The domain of the configured chain. -/
def configuredChainDomain (params : Params) : Option Uint256 :=
  params.legacyFinalHash.bind (modernChainDomain E.chainDomain params.hashGenesisBlock)

def configuredFnAssetId (params : Params) : Option Uint256 :=
  (configuredChainDomain E params).map E.fnAssetId

/-- `ViewNativeOutput`; the commitment is that of `LegacyLockCommitment`. -/
def viewNativeOutput (out : CTxOut) : ModernOutput :=
  { asset := NativeAsset
    amount := out.nValue
    policyType := PolicyType.OWNER.code
    policyVersion := POLICY_VERSION_V1
    policyCommitment := E.output.sha256 out.scriptPubKey }

/-- The switch of `ViewAssetAwareOutput`: the error of a policy that is not open. -/
def closedPolicy (policyType : Nat) (fnId activeBridgeId : Bool) (height : Int) (params : Params) :
    Option String :=
  if policyType = PolicyType.FN.code then
    if fnRulesActive params height = false then some "FN output is not active"
    else if fnId = false then some "FN policy carries the wrong chain-scoped asset id"
    else none
  else if policyType = PolicyType.OWNER.code then
    if assetRulesActive params height = false ∧ activeBridgeId = false then
      some "colored-asset owner output is not active"
    else if fnId then some "FN asset must use the FN policy"
    else none
  else if policyType = PolicyType.BURN.code then
    if fnId then
      if fnRulesActive params height = false then some "FN extinguishment is not active" else none
    else if assetRulesActive params height = false ∧ activeBridgeId = false then
      some "colored-asset burn is not active"
    else none
  else if policyType = PolicyType.DEX_VAULT.code then
    if flowMeshVaultPreparationRulesActive params height = false then
      some "DEX vault output is not active"
    else none
  else some "policy is not valid in the B3A1 carrier"

/-- `ViewAssetAwareOutput`. -/
def viewAssetAwareOutput (out : CTxOut) (height : Int) (params : Params) :
    Except String ModernOutput :=
  if claimsAssetOutput out.scriptPubKey = false then .ok (viewNativeOutput E out)
  else match parseAssetOutput E.output out with
    | .error e => .error e
    | .ok parsed =>
      let fnId := configuredFnAssetId E params == some parsed.asset
      let activeBridgeId := E.configuredBridgeAssetId params == some parsed.asset &&
        bridgeRulesActive params height
      match closedPolicy parsed.policyType fnId activeBridgeId height params with
      | some e => .error e
      | none =>
        if checkPolicyOutput E.output parsed height params activeBridgeId ≠ .OK then
          .error "asset policy output failed contextual validation"
        else .ok parsed

variable {E} in
/-- The view of a carrier is what it parses to. -/
theorem viewAssetAwareOutput_parsed {out : CTxOut} {height : Int} {params : Params}
    {parsed : ModernOutput} (hclaims : ¬ claimsAssetOutput out.scriptPubKey = false)
    (h : viewAssetAwareOutput E out height params = .ok parsed) :
    parseAssetOutput E.output out = .ok parsed := by
  unfold viewAssetAwareOutput at h
  rw [if_neg hclaims] at h
  split at h
  · cases h
  next out' hparse =>
  simp only at h
  split at h
  · cases h
  split_ifs at h
  cases h
  exact hparse

/-! ### A chain for samples -/

/-- Every key is valid and every account has shard four. -/
def sampleEnv : Env where
  output := ⟨fun _ => 0, fun _ => true, fun _ _ => 4⟩
  chainDomain _ _ := 9
  fnAssetId _ := 3
  configuredBridgeAssetId _ := none

/-- Vaults and seats from block two on. -/
def sampleParams : Params where
  hashGenesisBlock := 1
  hardForkHeight := some 1
  legacyFinalHash := some 1
  treasuryScript := some []
  fnPodActivationHeight := some 2
  assetActivationHeight := some 2
  flowmeshActivationHeight := some 32

end B3Coin.Assets
