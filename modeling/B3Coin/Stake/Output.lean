import B3Coin.Coins
import B3Coin.Finality.Certificate

/-!
# Stake outputs

`modern/stake.h`. A stake output pushes the magic, the validator key and two zero
bytes, drops them, and goes on with the owner's script. An output that claims the
magic has to be a valid one.
-/
namespace B3Coin.Stake

open Codec (Bytes)
open Script Guards List
open Finality (ValidatorKey)

def STAKE_VALIDATOR_KEY_SIZE : Nat := 32
def STAKE_RESERVED_SIZE : Nat := 2
def STAKE_PAYLOAD_SIZE : Nat := 38
def STAKE_ACTIVATION_DEPTH : Int := 20

/-- `IsStakeMature`. -/
def isStakeMature (createHeight currentHeight : Int) : Bool :=
  STAKE_ACTIVATION_DEPTH ≤ currentHeight - createHeight

structure StakeOutputView where
  amount : Int
  validatorKey : ValidatorKey
  ownerScript : Bytes
  deriving DecidableEq

def stakePayload (key : Bytes) : Bytes := STAKE_MAGIC ++ key ++ List.replicate STAKE_RESERVED_SIZE 0

/-- `MakeStakeScript`, for a key of 32 bytes. -/
def makeStakeScript (key ownerScript : Bytes) : Bytes :=
  minimalPush (stakePayload key) ++ OP_DROP :: ownerScript

/-- `ClaimsStakeMagic`. -/
def claimsStakeMagic (script : Bytes) : Bool :=
  match getOp script with
  | none => false
  | some (_, data, _) => data.length == STAKE_PAYLOAD_SIZE && startsWith STAKE_MAGIC data

/-- The owner's script must not be one that the interpreter treats specially. -/
def checkOwner (owner : Bytes) : Except String Unit := do
  reject (isPayToScriptHash owner) "stake owner script cannot be P2SH"
  reject (isWitnessProgram owner) "stake owner script cannot be a witness program"
  reject (claimsB3PolicyCarrier owner) "stake owner script cannot be another B3 policy carrier"

/-- `ParseStakeOutput`. -/
def parseStakeOutput (out : CTxOut) : Except String StakeOutputView := do
  let push ← demand ((getOp out.scriptPubKey).filter fun x => x.2.1.length = STAKE_PAYLOAD_SIZE)
    "stake payload malformed"
  reject (push.1.toNat ≠ STAKE_PAYLOAD_SIZE) "stake payload not minimally encoded"
  let drop ← demand ((getOp push.2.2).filter fun x => x.1 = OP_DROP)
    "stake payload not followed by OP_DROP"
  let owner := drop.2.2
  reject (owner = []) "stake output has no owner script"
  let key := (push.2.1.drop STAKE_MAGIC.length).take STAKE_VALIDATOR_KEY_SIZE
  reject (out.nValue ≤ 0) "stake principal must be positive"
  reject (key.all (· == 0)) "stake validator key is zero"
  reject ((push.2.1.drop (STAKE_MAGIC.length + STAKE_VALIDATOR_KEY_SIZE)).any (· != 0))
    "stake reserved bytes must be zero"
  checkOwner owner
  .ok ⟨out.nValue, beValue key, owner⟩

/-- `CheckStakeOutputs`. -/
def checkStakeOutputs (params : Consensus.Params) (tx : CTransaction) : Except String Unit :=
  tx.vout.foldlM (fun _ out =>
    if claimsStakeMagic out.scriptPubKey = false then .ok ()
    else do
      let view ← parseStakeOutput out
      let least ← demand params.minStakeAmount "stake minimum amount is not configured"
      reject (view.amount < least) "stake principal below the configured minimum") ()

/-- What an output stakes, as the tracker and the registry read it. -/
def stakeView (out : CTxOut) : Option StakeOutputView :=
  if claimsStakeMagic out.scriptPubKey then (parseStakeOutput out).toOption else none

/-! ## Reading back what was made -/

variable {key : Bytes}

section

variable (h : key.length = STAKE_VALIDATOR_KEY_SIZE)

include h

theorem stakePayload_length : (stakePayload key).length = STAKE_PAYLOAD_SIZE := by
  simp [stakePayload, h, STAKE_MAGIC, STAKE_VALIDATOR_KEY_SIZE, STAKE_RESERVED_SIZE,
    STAKE_PAYLOAD_SIZE]

theorem getOp_makeStakeScript (owner : Bytes) : getOp (makeStakeScript key owner) =
      some (UInt8.ofNat STAKE_PAYLOAD_SIZE, stakePayload key, OP_DROP :: owner) := by
  have hlen := stakePayload_length h
  rw [makeStakeScript, getOp_minimalPush (by rw [hlen]; decide), hlen]

theorem claims_makeStakeScript
    (owner : Bytes) : claimsStakeMagic (makeStakeScript key owner) = true := by
  unfold claimsStakeMagic
  rw [getOp_makeStakeScript h]
  simp only [stakePayload_length h, beq_self_eq_true, Bool.true_and, startsWith, beq_iff_eq]
  rw [stakePayload, append_assoc, take_left]

end

theorem parse_makeStakeScript {owner : Bytes} {amount : Int}
    (hkey : key.length = STAKE_VALIDATOR_KEY_SIZE) (hzero : key.all (· == 0) = false)
    (hamount : 0 < amount) (hne : owner ≠ []) (howner : checkOwner owner = .ok ()) :
    parseStakeOutput ⟨amount, makeStakeScript key owner⟩ = .ok ⟨amount, beValue key, owner⟩ := by
  have hread : ((stakePayload key).drop STAKE_MAGIC.length).take STAKE_VALIDATOR_KEY_SIZE = key := by
    rw [stakePayload, append_assoc, drop_left, ← hkey, take_left]
  have hreserved : (stakePayload key).drop (STAKE_MAGIC.length + STAKE_VALIDATOR_KEY_SIZE) =
      List.replicate STAKE_RESERVED_SIZE 0 := by
    rw [stakePayload, ← hkey, ← length_append, drop_left]
  have hdrop : getOp (OP_DROP :: owner) = some (OP_DROP, [], owner) := rfl
  unfold parseStakeOutput
  refine bind_eq_ok.mpr ⟨_, demand_eq_ok.mpr (Option.filter_eq_some_iff.mpr
    ⟨getOp_makeStakeScript hkey owner, by simp [stakePayload_length hkey]⟩), ?_⟩
  refine seq_eq_ok.mpr ⟨reject_eq_ok.mpr (not_not.mpr rfl), ?_⟩
  refine seq_eq_ok.mpr ⟨reject_eq_ok.mpr hne, ?_⟩
  simp only [hread, hreserved]
  refine seq_eq_ok.mpr ⟨reject_eq_ok.mpr (not_le.mpr hamount), ?_⟩
  refine seq_eq_ok.mpr ⟨reject_eq_ok.mpr (by simp [hzero]), ?_⟩
  refine seq_eq_ok.mpr ⟨reject_eq_ok.mpr (by decide), ?_⟩
  exact seq_eq_ok.mpr ⟨howner, rfl⟩

/-! ## Stake outputs are no other kind of output -/

variable {script : Bytes}

theorem claimsStakeMagic_eq :
    claimsStakeMagic script = true ↔ ∃ op data rest, getOp script = some (op, data, rest) ∧
      data.length = STAKE_PAYLOAD_SIZE ∧ startsWith STAKE_MAGIC data = true := by
  unfold claimsStakeMagic
  cases hop : getOp script with
  | none => simp
  | some x =>
    obtain ⟨op, data, rest⟩ := x
    simp only [Bool.and_eq_true, beq_iff_eq, Option.some.injEq, Prod.mk.injEq]
    exact ⟨fun h => ⟨op, data, rest, ⟨rfl, rfl, rfl⟩, h⟩, by
      rintro ⟨_, _, _, ⟨rfl, rfl, rfl⟩, h⟩
      exact h⟩

/-- Data that starts with one magic does not start with another one of its length. -/
theorem startsWith_other {magic other data : Bytes} (h : startsWith magic data = true)
    (hlen : magic.length = other.length) (hne : magic ≠ other) : startsWith other data = false := by
  simp only [startsWith, beq_iff_eq] at h
  simp only [startsWith, ← hlen, h, beq_eq_false_iff_ne]
  exact hne

theorem not_metadataCell (h : claimsStakeMagic script = true) : isMetadataCell script = false := by
  obtain ⟨op, data, rest, hop, -, hmagic⟩ := claimsStakeMagic_eq.mp h
  have hother : startsWith METADATA_CELL_MAGIC data = false :=
    startsWith_other hmagic rfl (by decide)
  unfold isMetadataCell parseMetadataCell
  rw [hop]
  simp only [hother, Bool.not_false, if_true]
  split_ifs <;> rfl

theorem not_assetBurn {C : Assets.Crypto} {out : CTxOut}
    (h : claimsStakeMagic out.scriptPubKey = true) : Assets.isAssetBurnOutput C out = false := by
  obtain ⟨op, data, rest, hop, -, hmagic⟩ := claimsStakeMagic_eq.mp h
  have hother : startsWith ASSET_OUTPUT_MAGIC data = false :=
    startsWith_other hmagic rfl (by decide)
  unfold Assets.isAssetBurnOutput
  cases hparse : Assets.parseAssetOutput C out with
  | error e => rfl
  | ok parsed =>
    obtain ⟨x, hx, -⟩ := bind_eq_ok.mp hparse
    have hx := of_seq hx
    have hx := of_seq hx
    obtain ⟨push, hpush, hx⟩ := bind_eq_ok.mp hx
    have hx := of_seq hx
    obtain ⟨hsize, hx⟩ := seq_eq_ok.mp hx
    have hpush := demand_eq_ok.mp hpush
    rw [hop] at hpush
    obtain ⟨hpush, -⟩ := Option.filter_eq_some_iff.mp hpush
    cases hpush
    exact absurd (.inr (.inr hother)) (reject_eq_ok.mp hsize)

theorem ne_nil_of_claims (h : claimsStakeMagic script = true) : script ≠ [] := by
  rintro rfl
  cases h

/-- `AddCoins` passes over no stake output. -/
theorem not_skipped {C : Assets.Crypto} {modern : Bool} {out : CTxOut}
    (h : claimsStakeMagic out.scriptPubKey = true) : Coins.skipped C modern out = false := by
  unfold Coins.skipped
  rw [not_metadataCell h, not_assetBurn h]
  simp [ne_nil_of_claims h]

theorem head_of_claims (h : claimsStakeMagic script = true) : script.head? ≠ some OP_RETURN := by
  obtain ⟨op, data, rest, hop, hlen, -⟩ := claimsStakeMagic_eq.mp h
  intro hhead
  cases script with
  | nil => cases hhead
  | cons first tail =>
    cases hhead
    simp only [getOp] at hop
    cases hop
    cases hlen

/-- A stake output stays out of the coin set for its length alone. -/
theorem isUnspendable_iff (h : claimsStakeMagic script = true) :
    isUnspendable script = true ↔ MAX_SCRIPT_SIZE < script.length := by
  unfold isUnspendable
  have hhead := head_of_claims h
  simp [hhead]

end B3Coin.Stake
