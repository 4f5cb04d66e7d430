import B3Coin.Transaction

/-!
# Eras and activation heights

`consensus/era.h`, for the parameters that the modern rules read. A configured
height is a natural number; an unset one keeps its feature closed.
-/
namespace B3Coin.Consensus

open Codec (Bytes)

structure FnGenesisRight where
  podId : Uint256
  recipientKeyHash : Bytes
  deriving DecidableEq

structure Params where
  legacyB3coin : Bool := true
  hashGenesisBlock : Uint256
  /-- The first modern height. -/
  hardForkHeight : Option Nat := none
  legacyFinalHash : Option Uint256 := none
  transitionPowLength : Nat := 0
  /-- The treasury script of `modern_pos`, once that rule set is present. -/
  treasuryScript : Option Bytes := none
  fnGenesisManifestVersion : Nat := 1
  fnGenesisRightsRoot : Option Uint256 := none
  fnGenesisManifest : List FnGenesisRight := []
  fnGenesisRequired : Bool := false
  fnPodActivationHeight : Option Nat := none
  assetActivationHeight : Option Nat := none
  flowmeshActivationHeight : Option Nat := none
  /-- `busd_bridge->activation_height`, of a bridge whose mint parameters are ready. -/
  bridgeActivationHeight : Option Nat := none
  minStakeAmount : Option Int := none
  testOnlyAssetPoliciesActive : Bool := false
  deriving DecidableEq

def FLOWMESH_ANCHOR_DEPTH : Nat := 30
def MAX_FN_EVER_ISSUED : Nat := 5000
def INT_MAX : Nat := 2 ^ 31 - 1

inductive B3Era where
  | LEGACY | MODERN
  deriving DecidableEq

variable (params : Params)

section

variable (height : Int)

def getB3Era : B3Era :=
  if params.legacyB3coin && params.hardForkHeight.all (fun h => height < h) then .LEGACY
  else .MODERN

def legacyFinalHeight : Option Int :=
  if params.legacyB3coin then params.hardForkHeight.map fun h => (h : Int) - 1 else none

def modernPosStartHeight : Option Int :=
  (legacyFinalHeight params).map fun h => h + 1 + params.transitionPowLength

def modernObjectRulesActive : Bool :=
  params.legacyB3coin && params.hardForkHeight.isSome && params.legacyFinalHash.isSome &&
    params.treasuryScript.isSome

def legacyBoundaryPinned : Bool :=
  (legacyFinalHeight params).isSome && params.legacyFinalHash.isSome

def fnGenesisConfigured : Bool :=
  legacyBoundaryPinned params && params.hardForkHeight.isSome &&
    params.fnGenesisRightsRoot.isSome && !params.fnGenesisManifest.isEmpty

def fnRulesActive : Bool :=
  fnGenesisConfigured params && params.hardForkHeight.any (fun h => h ≤ height)

def fnAssetActivationScheduleConfigured : Bool :=
  modernObjectRulesActive params &&
    match modernPosStartHeight params, params.fnPodActivationHeight,
        params.assetActivationHeight with
    | some start, some pod, some asset => start < pod && pod ≤ asset
    | _, _, _ => false

def assetRulesActive : Bool :=
  params.testOnlyAssetPoliciesActive ||
    (fnAssetActivationScheduleConfigured params &&
      params.assetActivationHeight.any (fun h => h ≤ height))

def flowMeshSeatBindingScheduleConfigured : Bool :=
  fnAssetActivationScheduleConfigured params &&
    match params.assetActivationHeight, params.flowmeshActivationHeight with
    | some asset, some flowmesh =>
      asset ≤ INT_MAX - FLOWMESH_ANCHOR_DEPTH && asset + FLOWMESH_ANCHOR_DEPTH ≤ flowmesh
    | _, _ => false

def flowMeshSeatBindingRulesActive : Bool :=
  flowMeshSeatBindingScheduleConfigured params &&
    params.assetActivationHeight.any (fun h => h ≤ height)

def flowMeshVaultPreparationRulesActive : Bool := flowMeshSeatBindingRulesActive params height

def flowMeshRulesActive : Bool :=
  flowMeshSeatBindingScheduleConfigured params &&
    params.flowmeshActivationHeight.any (fun h => h ≤ height)

def bridgeRulesActive : Bool :=
  modernObjectRulesActive params &&
    match modernPosStartHeight params, params.bridgeActivationHeight with
    | some start, some bridge => start ≤ bridge && bridge ≤ height
    | _, _ => false

end

end B3Coin.Consensus
