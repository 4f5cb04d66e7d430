import B3Coin.Bridge.LightClient

/-!
# The parameters of the bridge

`consensus/bridge_params.h`: every pin is optional until it is ratified, and the bridge
is active only once all of them are present and consistent. `ReadyBridge` is such an
envelope; the code reads the pins unchecked after that test, here the test is a field.
-/
namespace B3Coin.Bridge

def BRIDGE_ASSET_IDENTITY_VERSION_V1 : Nat := 1
def BRIDGE_RECIPIENT_VERSION_P2PKH_V1 : Nat := 1
def BRIDGE_ADAPTER_VERSION_DIRECT_TOKEN_V1 : Nat := 1
def ETHEREUM_SYNC_COMMITTEE_SIZE : Nat := 512
def ETHEREUM_SYNC_COMMITTEE_SUPERMAJORITY : Nat := 342
def ETHEREUM_SLOTS_PER_EPOCH : Nat := 32
def BUSD_ETHEREUM_CHAIN_ID : Nat := 1
def BUSD_ORIGIN_DECIMALS : Nat := 6
def BUSD_ASSET_DECIMALS : Nat := 6
def BUSD_ETHEREUM_USDT : EthAddress := 0xdac17f958d2ee523a2206206994597c13d831ec7
def ETHEREUM_MAINNET_GENESIS_VALIDATORS_ROOT : Uint256 :=
  0x4b363db94e286120d76eb905340fdd4e54bfe9f06bf33ff6cf5ad27f511bfe95

structure BridgeAssetIdentity where
  version : Nat := BRIDGE_ASSET_IDENTITY_VERSION_V1
  originChainId : Nat := 0
  vaultAddress : EthAddress := 0
  tokenAddress : EthAddress := 0
  originDecimals : Nat := 0
  assetDecimals : Nat := 0
  deriving DecidableEq

/-- `BridgeAssetIdentityValid`. -/
def BridgeAssetIdentity.valid (a : BridgeAssetIdentity) : Bool :=
  a.version == BRIDGE_ASSET_IDENTITY_VERSION_V1 && a.originChainId != 0 && a.vaultAddress != 0 &&
    a.tokenAddress != 0 && a.vaultAddress != a.tokenAddress && a.originDecimals ≤ 18 &&
    a.assetDecimals ≤ 18

structure EthereumForkVersionPin where
  activationEpoch : Nat
  forkVersion : Nat
  deriving DecidableEq

structure EthereumLightClientPins where
  trustedCheckpointRoot : Uint256 := 0
  trustedCheckpointSlot : Nat := 0
  genesisValidatorsRoot : Uint256 := 0
  forkSchedule : List EthereumForkVersionPin := []
  /-- Verification stops after this epoch instead of reusing the last signing domain. -/
  forkScheduleValidThroughEpoch : Nat := 0
  electraEpoch : Nat := UINT64_MAX
  minSyncCommitteeParticipants : Nat := 0
  maxSyncLagSlots : Nat := 0
  deriving DecidableEq

def EthereumLightClientPins.valid (p : EthereumLightClientPins) : Bool :=
  p.trustedCheckpointRoot != 0 && p.trustedCheckpointSlot != 0 && p.genesisValidatorsRoot != 0 &&
    ETHEREUM_SYNC_COMMITTEE_SUPERMAJORITY ≤ p.minSyncCommitteeParticipants &&
    p.minSyncCommitteeParticipants ≤ ETHEREUM_SYNC_COMMITTEE_SIZE && p.maxSyncLagSlots != 0 &&
    p.forkSchedule.head?.any (·.activationEpoch == 0) &&
    p.forkSchedule.getLast?.any (·.activationEpoch ≤ p.forkScheduleValidThroughEpoch) &&
    p.trustedCheckpointSlot / ETHEREUM_SLOTS_PER_EPOCH ≤ p.forkScheduleValidThroughEpoch &&
    decide (p.forkSchedule.IsChain fun a b => a.activationEpoch < b.activationEpoch) &&
    (p.electraEpoch == UINT64_MAX || p.electraEpoch ≤ p.forkScheduleValidThroughEpoch)

structure BridgeMintCaps where
  maxPerBlock : Int := 0
  maxPerEpoch : Int := 0
  epochLengthBlocks : Nat := 0
  deriving DecidableEq

def BridgeMintCaps.valid (c : BridgeMintCaps) : Bool :=
  0 < c.maxPerBlock && c.maxPerBlock ≤ MAX_MONEY && c.maxPerBlock ≤ c.maxPerEpoch &&
    c.maxPerEpoch ≤ MAX_MONEY && 0 < c.epochLengthBlocks

inductive BridgeWithdrawalMode where
  | MANAGED_V1
  | DECENTRALIZED_VERIFIER_V1
  deriving DecidableEq

def MANAGED_WITHDRAWAL_RULES_VERSION_V1 : Nat := 1
def DECENTRALIZED_WITHDRAWAL_RULES_VERSION_V1 : Nat := 1
def DECENTRALIZED_WITHDRAWAL_RULES_COMMITMENT_V1 : Uint256 :=
  0xf96ee37321b191d9ba3e573fd7739ab8a163033824a1c534045bd168c3c88b44
def MIN_BRIDGE_VALIDATORS_V1 : Nat := 4
def MAX_PROVEN_BRIDGE_VALIDATORS_V1 : Nat := 64

structure BridgeManagedWithdrawalPins where
  authorityAddress : EthAddress := 0
  vaultRuntimeCodeHash : Uint256 := 0
  withdrawalRulesVersion : Nat := 0
  withdrawalRulesCommitment : Uint256 := 0
  deriving DecidableEq

def BridgeManagedWithdrawalPins.valid (p : BridgeManagedWithdrawalPins) : Bool :=
  p.authorityAddress != 0 && p.vaultRuntimeCodeHash != 0 &&
    p.withdrawalRulesVersion == MANAGED_WITHDRAWAL_RULES_VERSION_V1 &&
    p.withdrawalRulesCommitment != 0

structure BridgeDecentralizedWithdrawalPins where
  ethereumVerifierAddress : EthAddress := 0
  ethereumVerifierCodeHash : Uint256 := 0
  bootstrapValidatorSetHash : Uint256 := 0
  withdrawalRulesVersion : Nat := 0
  withdrawalRulesCommitment : Uint256 := 0
  minBridgeValidators : Nat := 0
  maxBridgeValidators : Nat := 0
  minBridgeTotalWeight : Nat := 0
  maxEpochLag : Nat := 0
  deriving DecidableEq

def BridgeDecentralizedWithdrawalPins.valid (p : BridgeDecentralizedWithdrawalPins) : Bool :=
  p.ethereumVerifierAddress != 0 && p.ethereumVerifierCodeHash != 0 &&
    p.bootstrapValidatorSetHash != 0 &&
    p.withdrawalRulesVersion == DECENTRALIZED_WITHDRAWAL_RULES_VERSION_V1 &&
    p.withdrawalRulesCommitment == DECENTRALIZED_WITHDRAWAL_RULES_COMMITMENT_V1 &&
    MIN_BRIDGE_VALIDATORS_V1 ≤ p.minBridgeValidators &&
    p.minBridgeValidators ≤ p.maxBridgeValidators &&
    p.maxBridgeValidators ≤ MAX_PROVEN_BRIDGE_VALIDATORS_V1 && 0 < p.minBridgeTotalWeight &&
    0 < p.maxEpochLag

structure BridgeAssetParams where
  asset : BridgeAssetIdentity := {}
  originDeploymentBlock : Option Nat := none
  vaultRuntimeCodeHash : Option Uint256 := none
  implementationOrAdapter : Option Uint256 := none
  adapterVersion : Option Nat := none
  recipientEncodingVersion : Option Nat := none
  activationHeight : Option Int := none
  /-- Inclusive; without it there is no expiry. -/
  approvalLastHeight : Option Int := none
  mintCaps : Option BridgeMintCaps := none
  lightClient : Option EthereumLightClientPins := none
  withdrawalMode : Option BridgeWithdrawalMode := none
  managedWithdrawal : Option BridgeManagedWithdrawalPins := none
  decentralizedWithdrawal : Option BridgeDecentralizedWithdrawalPins := none
  deriving DecidableEq

namespace BridgeAssetParams

def registryPinsValid (p : BridgeAssetParams) : Bool :=
  p.asset.valid && p.originDeploymentBlock.any (0 < ·) && p.vaultRuntimeCodeHash.any (· != 0) &&
    p.implementationOrAdapter.any (· != 0) &&
    p.adapterVersion.any (· == BRIDGE_ADAPTER_VERSION_DIRECT_TOKEN_V1) &&
    p.recipientEncodingVersion.any (· == BRIDGE_RECIPIENT_VERSION_P2PKH_V1) &&
    p.activationHeight.any (fun first => 0 ≤ first && p.approvalLastHeight.all (first ≤ ·))

/-- Exactly the pins of the chosen mode, and consistent with the vault. -/
def withdrawalPinsValid (p : BridgeAssetParams) : BridgeWithdrawalMode → Bool
  | .MANAGED_V1 =>
    p.managedWithdrawal.any (fun w =>
      w.valid && p.vaultRuntimeCodeHash == some w.vaultRuntimeCodeHash) &&
    p.decentralizedWithdrawal.isNone
  | .DECENTRALIZED_VERIFIER_V1 =>
    p.decentralizedWithdrawal.any (fun w =>
      w.valid && w.ethereumVerifierAddress != p.asset.vaultAddress &&
        w.ethereumVerifierAddress != p.asset.tokenAddress) &&
    p.managedWithdrawal.isNone

/-- `BridgeMintParamsReady`. -/
def mintParamsReady (p : BridgeAssetParams) : Bool :=
  p.registryPinsValid && p.mintCaps.any (·.valid) && p.lightClient.any (·.valid) &&
    p.asset.originDecimals == BUSD_ORIGIN_DECIMALS &&
    p.asset.assetDecimals == BUSD_ASSET_DECIMALS &&
    (p.asset.originChainId != BUSD_ETHEREUM_CHAIN_ID ||
      (p.asset.tokenAddress == BUSD_ETHEREUM_USDT &&
        p.lightClient.any (·.genesisValidatorsRoot == ETHEREUM_MAINNET_GENESIS_VALIDATORS_ROOT))) &&
    p.withdrawalMode.any p.withdrawalPinsValid

end BridgeAssetParams

/-- The consensus parameters the bridge reads. -/
structure Params where
  hashGenesisBlock : Uint256 := 0
  legacyB3coin : Bool := false
  hardForkHeight : Option Int := none
  legacyFinalHash : Option Uint256 := none
  transitionPowLength : Int := 0
  /-- Whether the modern proof-of-stake rule set is present. -/
  modernPos : Bool := false
  bridgeWithdrawalActivationHeight : Option Int := none
  busdBridge : Option BridgeAssetParams := none

namespace Params

section

variable (p : Params) (height : Int)

def legacyFinalHeight : Option Int :=
  if !p.legacyB3coin then none else p.hardForkHeight.map (· - 1)

def modernPosStartHeight : Option Int :=
  p.legacyFinalHeight.map (· + 1 + p.transitionPowLength)

def modernObjectRulesActive : Bool :=
  p.legacyB3coin && p.hardForkHeight.isSome && p.legacyFinalHash.isSome && p.modernPos

def bridgeRulesActive : Bool :=
  p.modernObjectRulesActive && p.busdBridge.any fun b =>
    b.mintParamsReady && b.activationHeight.any fun first =>
      p.modernPosStartHeight.any (· ≤ first) && first ≤ height

def bridgeWithdrawalRulesActive : Bool :=
  p.bridgeRulesActive height && p.bridgeWithdrawalActivationHeight.any fun first =>
    p.busdBridge.any (fun b => b.activationHeight.any (· ≤ first)) && first ≤ height

end

end Params

/-! ## Ratified parameters -/

/-- A complete envelope with its pins. -/
structure ReadyBridge where
  params : BridgeAssetParams
  ready : params.mintParamsReady = true

namespace ReadyBridge

variable (b : ReadyBridge)

theorem pins : b.params.registryPinsValid = true ∧ b.params.mintCaps.any (·.valid) = true ∧
    b.params.lightClient.any (·.valid) = true ∧
    b.params.withdrawalMode.any b.params.withdrawalPinsValid = true := by
  have h := b.ready
  simp only [BridgeAssetParams.mintParamsReady, Bool.and_eq_true] at h
  obtain ⟨⟨⟨⟨⟨⟨h1, h2⟩, h3⟩, -⟩, -⟩, -⟩, h4⟩ := h
  exact ⟨h1, h2, h3, h4⟩

theorem isSome_of_any {α : Type} {o : Option α} {p : α → Bool} (h : o.any p = true) :
    o.isSome = true := by
  cases o with
  | none => simp at h
  | some a => rfl

theorem registryPins : b.params.asset.valid = true ∧ b.params.originDeploymentBlock.any (0 < ·) ∧
    b.params.vaultRuntimeCodeHash.any (· != 0) = true ∧
    b.params.implementationOrAdapter.any (· != 0) = true ∧
    b.params.adapterVersion.any (· == BRIDGE_ADAPTER_VERSION_DIRECT_TOKEN_V1) = true ∧
    b.params.activationHeight.any
      (fun first => 0 ≤ first && b.params.approvalLastHeight.all (first ≤ ·)) = true := by
  have h := b.pins.1
  simp only [BridgeAssetParams.registryPinsValid, Bool.and_eq_true] at h
  obtain ⟨⟨⟨⟨⟨⟨h1, h2⟩, h3⟩, h4⟩, h5⟩, -⟩, h6⟩ := h
  exact ⟨h1, h2, h3, h4, h5, h6⟩

def originDeploymentBlock : Nat :=
  b.params.originDeploymentBlock.get (isSome_of_any b.registryPins.2.1)

def vaultRuntimeCodeHash : Uint256 :=
  b.params.vaultRuntimeCodeHash.get (isSome_of_any b.registryPins.2.2.1)

def implementationOrAdapter : Uint256 :=
  b.params.implementationOrAdapter.get (isSome_of_any b.registryPins.2.2.2.1)

def adapterVersion : Nat := b.params.adapterVersion.get (isSome_of_any b.registryPins.2.2.2.2.1)

def activationHeight : Int := b.params.activationHeight.get (isSome_of_any b.registryPins.2.2.2.2.2)

def mintCaps : BridgeMintCaps := b.params.mintCaps.get (isSome_of_any b.pins.2.1)

def lightClient : EthereumLightClientPins := b.params.lightClient.get (isSome_of_any b.pins.2.2.1)

def withdrawalMode : BridgeWithdrawalMode :=
  b.params.withdrawalMode.get (isSome_of_any b.pins.2.2.2)

theorem get_of_any {α : Type} {o : Option α} {p : α → Bool} (h : o.any p = true) :
    p (o.get (isSome_of_any h)) = true := by
  cases o with
  | none => simp at h
  | some a => exact h

theorem mintCaps_valid : b.mintCaps.valid = true := get_of_any b.pins.2.1

/-- `BridgeEpoch`. -/
def epoch (height : Int) : Nat := (height - b.activationHeight).toNat / b.mintCaps.epochLengthBlocks

end ReadyBridge

/-- The parameters of an active bridge. -/
def Params.readyBridge (p : Params) : Option ReadyBridge :=
  p.busdBridge.bind fun b => if h : b.mintParamsReady = true then some ⟨b, h⟩ else none

/-- Caps of 50 and 100 units and epochs of ten blocks; the withdrawal mode is open. -/
def sampleBridge (activationHeight : Int) : BridgeAssetParams where
  asset := ⟨1, 5, 10, 11, 6, 6⟩
  originDeploymentBlock := some 1
  vaultRuntimeCodeHash := some 1
  implementationOrAdapter := some 1
  adapterVersion := some 1
  recipientEncodingVersion := some 1
  activationHeight := some activationHeight
  mintCaps := some ⟨50, 100, 10⟩
  lightClient := some
    { trustedCheckpointRoot := 64
      trustedCheckpointSlot := 64
      genesisValidatorsRoot := 1
      forkSchedule := [⟨0, 1⟩]
      forkScheduleValidThroughEpoch := 1000
      minSyncCommitteeParticipants := 342
      maxSyncLagSlots := 100 }

/-- A chain with this bridge. -/
def sampleChainParams (b : BridgeAssetParams) : Params where
  hashGenesisBlock := 1
  legacyB3coin := true
  hardForkHeight := some 0
  legacyFinalHash := some 1
  modernPos := true
  busdBridge := some b

end B3Coin.Bridge
