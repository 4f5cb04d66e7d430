import B3Coin.FlowMesh.Ledger
import B3Coin.FlowMesh.Wire
import B3Coin.Lib.Merkle
import Mathlib.Logic.Equiv.List

/-!
# The effect tree of a checkpoint

The effects of `modern/flowmesh_checkpoint.h`, their encoding, and the tree over them:
its root, the branch of an effect and the check of a branch. A row of effects is
padded to a power of two; the root also binds the first index and the number of
effects. The hashes are parameters, each over what its tag is hashed with.
-/
namespace B3Coin.FlowMesh

open Codec List Nat Merkle

/-- `FlowMeshDepositAcceptanceV1`. -/
structure FlowMeshDepositAcceptance where
  acceptanceId : Uint256
  marketId : MarketId
  epoch : UInt64
  sequence : UInt64
  depositOutpoint : COutPoint
  account : AccountId
  asset : AssetId
  amount : Int
  vaultId : VaultId
  shard : UInt16
  deriving DecidableEq

/-- `FlowMeshEffectV1`. -/
inductive FlowMeshEffect where
  | deposit (d : FlowMeshDepositAcceptance)
  | withdrawal (r : FlowMeshWithdrawalReceipt)
  deriving DecidableEq

def FLOWMESH_MAX_CHECKPOINT_EFFECTS : Nat := 4096

/-! ## The encoding of an effect -/

def u16BE : Codec UInt16 :=
  (natBE 2).map UInt16.ofNat UInt16.toNat fun x hx =>
    UInt16.toNat_ofNat_of_lt' (by simpa [UInt16.size] using natBE_valid.mp hx)

def u32BE : Codec UInt32 :=
  (natBE 4).map UInt32.ofNat UInt32.toNat fun x hx =>
    UInt32.toNat_ofNat_of_lt' (by simpa [UInt32.size] using natBE_valid.mp hx)

def u64BE : Codec UInt64 :=
  (natBE 8).map UInt64.ofNat UInt64.toNat fun x hx =>
    UInt64.toNat_ofNat_of_lt' (by simpa [UInt64.size] using natBE_valid.mp hx)

/-- An amount as `uint64_t`; a reader refuses more than `MAX_MONEY`. -/
def amountBE : Codec Int :=
  ((natBE 8).guard (fun n => (n : Int) ≤ MAX_MONEY)).map (fun n => (n : Int)) Int.toNat fun _ _ => rfl

def depositCodec : Codec FlowMeshDepositAcceptance :=
  (uint256.pair (uint256.pair (u64BE.pair (u64BE.pair (uint256.pair (u32BE.pair (uint256.pair
    (uint256.pair (amountBE.pair (uint256.pair u16BE)))))))))).map
    (fun (acceptanceId, marketId, epoch, sequence, txid, vout, account, asset, amount, vaultId, shard) =>
      ⟨acceptanceId, marketId, epoch, sequence, ⟨txid, vout⟩, account, asset, amount, vaultId, shard⟩)
    (fun d => (d.acceptanceId, d.marketId, d.epoch, d.sequence, d.depositOutpoint.hash,
      d.depositOutpoint.n, d.account, d.asset, d.amount, d.vaultId, d.shard))
    fun _ _ => rfl

def withdrawalCodec : Codec FlowMeshWithdrawalReceipt :=
  (uint256.pair (uint256.pair (u64BE.pair (u64BE.pair (uint256.pair (uint256.pair (amountBE.pair
    (uint256.pair (uint256.pair u16BE))))))))).map
    (fun (receiptId, marketId, epoch, sequence, account, asset, amount, destination, vaultId, shard) =>
      ⟨receiptId, marketId, epoch, sequence, account, asset, amount, destination, vaultId, shard⟩)
    (fun r => (r.receiptId, r.marketId, r.epoch, r.sequence, r.account, r.asset, r.amount,
      r.destinationOwnerCommitment, r.vaultId, r.deterministicChangeShard))
    fun _ _ => rfl

/-- What `EncodeFlowMeshEffectV1` asks of a deposit. -/
def FlowMeshDepositAcceptance.encodes (d : FlowMeshDepositAcceptance) : Bool :=
  d.acceptanceId != 0 && d.marketId != 0 && d.depositOutpoint.hash != 0 &&
    d.depositOutpoint.n != NULL_INDEX && d.vaultId != 0 && d.account != 0 && validAmount d.amount &&
    d.shard < 256

namespace FlowMeshEffect

def encodes : FlowMeshEffect → Bool
  | deposit d => d.encodes
  | withdrawal r => r.encodes

/-- The kind and the fields. -/
def bytes : FlowMeshEffect → Bytes
  | deposit d => 1 :: depositCodec.put d
  | withdrawal r => 2 :: withdrawalCodec.put r

/-- `EncodeFlowMeshEffectV1`. -/
def encode (e : FlowMeshEffect) : Option Bytes := if e.encodes then some e.bytes else none

/-- `DecodeFlowMeshEffectV1`. -/
def decode : Bytes → Option FlowMeshEffect
  | [] => none
  | kind :: rest =>
    if kind = 1 then ((depositCodec.getAll rest).map deposit).filter encodes
    else if kind = 2 then ((withdrawalCodec.getAll rest).map withdrawal).filter encodes
    else none

/-- The 256-bit fields are in the range of their type. -/
def InRange : FlowMeshEffect → Prop
  | deposit d => d.acceptanceId < 2 ^ 256 ∧ d.marketId < 2 ^ 256 ∧ d.depositOutpoint.hash < 2 ^ 256 ∧
      d.account < 2 ^ 256 ∧ d.asset < 2 ^ 256 ∧ d.vaultId < 2 ^ 256
  | withdrawal r => r.receiptId < 2 ^ 256 ∧ r.marketId < 2 ^ 256 ∧ r.account < 2 ^ 256 ∧
      r.asset < 2 ^ 256 ∧ r.destinationOwnerCommitment < 2 ^ 256 ∧ r.vaultId < 2 ^ 256

instance (e : FlowMeshEffect) : Decidable e.InRange := by
  cases e <;> unfold InRange <;> infer_instance

end FlowMeshEffect

theorem u16BE_valid (x : UInt16) : u16BE.valid x := ⟨natBE_valid.mpr x.toNat_lt, UInt16.ofNat_toNat⟩

theorem u32BE_valid (x : UInt32) : u32BE.valid x := ⟨natBE_valid.mpr x.toNat_lt, UInt32.ofNat_toNat⟩

theorem u64BE_valid (x : UInt64) : u64BE.valid x := ⟨natBE_valid.mpr x.toNat_lt, UInt64.ofNat_toNat⟩

theorem amountBE_valid {a : Int} (h : validAmount a = true) : amountBE.valid a := by
  simp only [validAmount, Bool.and_eq_true, decide_eq_true_eq] at h
  have hmax := MAX_MONEY_eq
  refine ⟨⟨natBE_valid.mpr ?_, ?_⟩, Int.toNat_of_nonneg h.1.le⟩
  · omega
  · show ((a.toNat : Nat) : Int) ≤ MAX_MONEY
    rw [Int.toNat_of_nonneg h.1.le]
    exact h.2

namespace FlowMeshEffect

theorem deposit_valid {d : FlowMeshDepositAcceptance} (henc : d.encodes = true)
    (hrange : (deposit d).InRange) : depositCodec.valid d := by
  obtain ⟨hid, hmarket, htxid, haccount, hasset, hvault⟩ := hrange
  simp only [FlowMeshDepositAcceptance.encodes, Bool.and_eq_true] at henc
  exact ⟨⟨uint256_valid.mpr hid, uint256_valid.mpr hmarket, u64BE_valid _, u64BE_valid _,
    uint256_valid.mpr htxid, u32BE_valid _, uint256_valid.mpr haccount, uint256_valid.mpr hasset,
    amountBE_valid henc.1.2, uint256_valid.mpr hvault, u16BE_valid _⟩, rfl⟩

theorem withdrawal_valid {r : FlowMeshWithdrawalReceipt} (henc : r.encodes = true)
    (hrange : (withdrawal r).InRange) : withdrawalCodec.valid r := by
  obtain ⟨hid, hmarket, haccount, hasset, hdestination, hvault⟩ := hrange
  simp only [FlowMeshWithdrawalReceipt.encodes, Bool.and_eq_true] at henc
  exact ⟨⟨uint256_valid.mpr hid, uint256_valid.mpr hmarket, u64BE_valid _, u64BE_valid _,
    uint256_valid.mpr haccount, uint256_valid.mpr hasset, amountBE_valid henc.1.2,
    uint256_valid.mpr hdestination, uint256_valid.mpr hvault, u16BE_valid _⟩, rfl⟩

theorem decode_bytes {e : FlowMeshEffect} (henc : e.encodes = true) (hrange : e.InRange) :
    decode e.bytes = some e := by
  cases e with
  | deposit d =>
    rw [bytes, decode, if_pos rfl, getAll_put depositCodec (deposit_valid henc hrange)]
    simp [Option.filter, henc]
  | withdrawal r =>
    rw [bytes, decode, if_neg (by decide), if_pos rfl,
      getAll_put withdrawalCodec (withdrawal_valid henc hrange)]
    simp [Option.filter, henc]

theorem bytes_injective {e e' : FlowMeshEffect} (henc : e.encodes = true) (hrange : e.InRange)
    (henc' : e'.encodes = true) (hrange' : e'.InRange) (h : e.bytes = e'.bytes) : e = e' := by
  have hdecode := decode_bytes henc hrange
  rw [h, decode_bytes henc' hrange'] at hdecode
  exact (Option.some.inj hdecode).symm

end FlowMeshEffect

/-! ## The tree -/

/-- The hashes of the tree, by their tags. -/
structure EffectHashes where
  leaf : Bytes → Uint256
  pad : Nat → Uint256
  node : Uint256 → Uint256 → Uint256
  empty : Uint256
  root : UInt64 → UInt32 → Uint256 → Uint256

/-- The loop of `FlowMeshEffectTreeDepth`; doubling reaches the count within as many rounds. -/
def treeDepthLoop (count : Nat) : Nat → Nat → Nat → Nat
  | 0, _, depth => depth
  | fuel + 1, width, depth =>
    if width < count then treeDepthLoop count fuel (width * 2) (depth + 1) else depth

def flowMeshEffectTreeDepth (count : Nat) : Nat :=
  if count ≤ 1 then 0 else treeDepthLoop count count 1 0

def flowMeshEffectTreeWidth (count : Nat) : Nat :=
  if count = 0 then 0 else 2 ^ flowMeshEffectTreeDepth count

section Tree

variable (H : EffectHashes)

/-- `FlowMeshEffectLeafHash`. -/
def flowMeshEffectLeafHash (absoluteIndex : Nat) (effect : FlowMeshEffect) : Option Uint256 :=
  effect.encode.map fun bytes => H.leaf ((natBE 8).put absoluteIndex ++ bytes)

/-- The lowest level: the leaves and the padding. -/
def effectLevel (effectStart : UInt64) (effects : List FlowMeshEffect) : Option (List Uint256) := do
  let leaves ← effects.zipIdx.mapM fun x => flowMeshEffectLeafHash H (effectStart.toNat + x.2) x.1
  some (leaves ++ (List.range' effects.length
    (flowMeshEffectTreeWidth effects.length - effects.length)).map fun i => H.pad (effectStart.toNat + i))

/-- `ComputeFlowMeshEffectRoot`. -/
def computeFlowMeshEffectRoot (effectStart : UInt64) (effects : List FlowMeshEffect) :
    Option Uint256 :=
  if effects.length > FLOWMESH_MAX_CHECKPOINT_EFFECTS then none
  else if effects = [] then some (H.root effectStart 0 H.empty)
  else if effectStart.toNat > U64 - 1 - (flowMeshEffectTreeWidth effects.length - 1) then none
  else (effectLevel H effectStart effects).map fun level =>
    H.root effectStart (UInt32.ofNat effects.length) ((Merkle.fold H.node level.length level).headD 0)

/-- `BuildFlowMeshEffectBranch`. -/
def buildFlowMeshEffectBranch (effectStart : UInt64) (effects : List FlowMeshEffect)
    (leafIndex : UInt32) : Option (List Uint256) :=
  if effects = [] ∨ effects.length > FLOWMESH_MAX_CHECKPOINT_EFFECTS ∨
      leafIndex.toNat ≥ effects.length then none
  else if effectStart.toNat > U64 - 1 - (flowMeshEffectTreeWidth effects.length - 1) then none
  else (effectLevel H effectStart effects).map fun level =>
    Merkle.path H.node 0 level.length level leafIndex.toNat

/-- `VerifyFlowMeshEffectInclusion`. -/
def verifyFlowMeshEffectInclusion (effectStart : UInt64) (effectCount : UInt32)
    (expectedRoot : Uint256) (effect : FlowMeshEffect) (leafIndex : UInt32) (branch : List Uint256) :
    Bool :=
  if effectCount = 0 ∨ effectCount.toNat > FLOWMESH_MAX_CHECKPOINT_EFFECTS ∨ leafIndex ≥ effectCount ∨
      branch.length ≠ flowMeshEffectTreeDepth effectCount.toNat ∨
      effectStart.toNat > U64 - 1 - leafIndex.toNat then false
  else
    match flowMeshEffectLeafHash H (effectStart.toNat + leafIndex.toNat) effect with
    | none => false
    | some leaf =>
      H.root effectStart effectCount (Merkle.climb H.node leafIndex.toNat leaf branch) == expectedRoot

end Tree

/-! ## The two builders against one tree -/

theorem le_two_pow_treeDepthLoop {count fuel depth : Nat} (h : count ≤ 2 ^ (depth + fuel)) :
    count ≤ 2 ^ treeDepthLoop count fuel (2 ^ depth) depth := by
  induction fuel generalizing depth with
  | zero => exact h
  | succ fuel ih =>
    rw [treeDepthLoop]
    split_ifs with hlt
    · exact ih (by rwa [show depth + 1 + fuel = depth + (fuel + 1) by omega])
    · omega

theorem le_two_pow_treeDepth (count : Nat) : count ≤ 2 ^ flowMeshEffectTreeDepth count := by
  unfold flowMeshEffectTreeDepth
  split_ifs with h
  · exact h
  · refine @le_two_pow_treeDepthLoop count count 0 ?_
    rw [zero_add]
    exact Nat.lt_two_pow_self.le

theorem treeDepthLoop_le {count fuel depth : Nat} :
    2 ^ treeDepthLoop count fuel (2 ^ depth) depth ≤ max (2 ^ depth) (2 * count) := by
  induction fuel generalizing depth with
  | zero => exact le_max_left _ _
  | succ fuel ih =>
    rw [treeDepthLoop]
    split_ifs with hlt
    · rw [← pow_succ]
      refine ih.trans (max_le ?_ (le_max_right _ _))
      omega
    · exact le_max_left _ _

theorem treeWidth_le (count : Nat) : flowMeshEffectTreeWidth count ≤ 2 * count := by
  unfold flowMeshEffectTreeWidth flowMeshEffectTreeDepth
  split_ifs with hzero hone
  · omega
  · omega
  · refine (@treeDepthLoop_le count count 0).trans ?_
    omega

theorem treeWidth_eq {count : Nat} (h : count ≠ 0) :
    flowMeshEffectTreeWidth count = 2 ^ flowMeshEffectTreeDepth count := if_neg h

section Exact

variable {H : EffectHashes} {start : UInt64} {effects : List FlowMeshEffect}

/-- The leaf of an effect that has an encoding. -/
def leafOf (H : EffectHashes) (index : Nat) (e : FlowMeshEffect) : Uint256 :=
  H.leaf ((natBE 8).put index ++ e.bytes)

/-- The lowest level of the tree at a position. -/
def rowLeaf (H : EffectHashes) (start : UInt64) (effects : List FlowMeshEffect) (i : Nat) : Uint256 :=
  (effects[i]?).elim (H.pad (start.toNat + i)) (leafOf H (start.toNat + i))

theorem leafHash_eq (H : EffectHashes) (index : Nat) (e : FlowMeshEffect) :
    flowMeshEffectLeafHash H index e = if e.encodes then some (leafOf H index e) else none := by
  unfold flowMeshEffectLeafHash FlowMeshEffect.encode
  split_ifs <;> rfl

theorem mapM_leafHash (base k : Nat) (effects : List FlowMeshEffect) :
    (effects.zipIdx k).mapM (fun x => flowMeshEffectLeafHash H (base + x.2) x.1) =
      if effects.all (·.encodes) then some ((effects.zipIdx k).map fun x => leafOf H (base + x.2) x.1)
      else none := by
  induction effects generalizing k with
  | nil => rfl
  | cons e effects ih =>
    rw [zipIdx_cons, mapM_cons, ih, leafHash_eq, all_cons, map_cons]
    cases e.encodes <;> cases effects.all (·.encodes) <;> rfl

theorem zipIdx_map_leafOf (effects : List FlowMeshEffect) :
    (effects.zipIdx.map fun x => leafOf H (start.toNat + x.2) x.1) =
      (List.range effects.length).map (rowLeaf H start effects) := by
  refine ext_getElem (by simp) fun i hi _ => ?_
  have hlt : i < effects.length := by simpa using hi
  simp [rowLeaf, hlt]

theorem effectLevel_eq (hne : effects ≠ []) (henc : effects.all (·.encodes) = true) :
    ∃ level, effectLevel H start effects = some level ∧
      Merkle.Row H.node (rowLeaf H start effects) 0 (2 ^ flowMeshEffectTreeDepth effects.length) level := by
  have hwidth := treeWidth_eq (length_pos_iff.mpr hne).ne'
  have hle := le_two_pow_treeDepth effects.length
  refine ⟨(List.range (2 ^ flowMeshEffectTreeDepth effects.length)).map (rowLeaf H start effects), ?_, rfl⟩
  have hpads : (List.range' effects.length
      (2 ^ flowMeshEffectTreeDepth effects.length - effects.length)).map
        (fun i => H.pad (start.toNat + i)) =
      (List.range' effects.length
        (2 ^ flowMeshEffectTreeDepth effects.length - effects.length)).map (rowLeaf H start effects) := by
    refine map_congr_left fun i hi => ?_
    have hout : effects[i]? = none := getElem?_eq_none (mem_range'_1.mp hi).1
    rw [rowLeaf, hout]
    rfl
  unfold effectLevel
  rw [mapM_leafHash, if_pos henc, hwidth, zipIdx_map_leafOf, hpads]
  show some (_ ++ _) = some _
  have hsplit := @range'_append_1 0 effects.length
    (2 ^ flowMeshEffectTreeDepth effects.length - effects.length)
  rw [Nat.zero_add, Nat.add_sub_cancel' hle] at hsplit
  rw [← map_append, range_eq_range', range_eq_range', hsplit]

/-- The tree of some effects. -/
def effectTree (H : EffectHashes) (start : UInt64) (effects : List FlowMeshEffect) : Uint256 :=
  Merkle.subtree H.node (rowLeaf H start effects) (flowMeshEffectTreeDepth effects.length) 0

/-- The padded range fits in 64 bits. -/
def RangeFits (start : UInt64) (count : Nat) : Prop :=
  start.toNat + flowMeshEffectTreeWidth count ≤ U64

theorem treeWidth_pos {count : Nat} (h : count ≠ 0) : 0 < flowMeshEffectTreeWidth count := by
  rw [treeWidth_eq h]
  exact Nat.two_pow_pos _

theorem computeRoot_eq (hne : effects ≠ []) (hmax : effects.length ≤ FLOWMESH_MAX_CHECKPOINT_EFFECTS)
    (hfits : RangeFits start effects.length) (henc : effects.all (·.encodes) = true) :
    computeFlowMeshEffectRoot H start effects =
      some (H.root start (UInt32.ofNat effects.length) (effectTree H start effects)) := by
  have hpos := treeWidth_pos (length_pos_iff.mpr hne).ne'
  obtain ⟨level, hlevel, hrow⟩ := @effectLevel_eq H start effects hne henc
  unfold RangeFits at hfits
  unfold computeFlowMeshEffectRoot
  rw [if_neg (not_lt.mpr hmax), if_neg hne, if_neg (by omega), hlevel, Option.map_some, hrow.length,
    Merkle.fold_eq Nat.lt_two_pow_self.le hrow, Nat.zero_add]
  rfl

/-- A root is only computed for effects that have an encoding. -/
theorem computeRoot_some {R : Uint256} (h : computeFlowMeshEffectRoot H start effects = some R) :
    effects.length ≤ FLOWMESH_MAX_CHECKPOINT_EFFECTS ∧
      ((effects = [] ∧ R = H.root start 0 H.empty) ∨
        (effects ≠ [] ∧ effects.all (·.encodes) = true ∧
          R = H.root start (UInt32.ofNat effects.length) (effectTree H start effects))) := by
  have hcompute := h
  unfold computeFlowMeshEffectRoot at h
  split_ifs at h with hmax hnil hfits
  · exact ⟨not_lt.mp hmax, .inl ⟨hnil, (Option.some.inj h).symm⟩⟩
  · refine ⟨not_lt.mp hmax, .inr ⟨hnil, ?_⟩⟩
    have henc : effects.all (·.encodes) = true := by
      by_contra hbad
      unfold effectLevel at h
      rw [mapM_leafHash, if_neg hbad] at h
      cases h
    have hrange : RangeFits start effects.length := by
      have hsmall : flowMeshEffectTreeWidth effects.length ≤ U64 :=
        (treeWidth_le _).trans ((mul_le_mul_left 2 (not_lt.mp hmax)).trans (by decide))
      unfold RangeFits
      omega
    rw [computeRoot_eq hnil (not_lt.mp hmax) hrange henc] at hcompute
    exact ⟨henc, (Option.some.inj hcompute).symm⟩

theorem buildBranch_eq_some {i : UInt32} {branch : List Uint256} (hne : effects ≠ [])
    (hmax : effects.length ≤ FLOWMESH_MAX_CHECKPOINT_EFFECTS) (hfits : RangeFits start effects.length)
    (henc : effects.all (·.encodes) = true) :
    buildFlowMeshEffectBranch H start effects i = some branch ↔ i.toNat < effects.length ∧
      branch = Merkle.siblings H.node (rowLeaf H start effects) 0
        (flowMeshEffectTreeDepth effects.length) i.toNat := by
  have hpos := treeWidth_pos (length_pos_iff.mpr hne).ne'
  obtain ⟨level, hlevel, hrow⟩ := @effectLevel_eq H start effects hne henc
  unfold RangeFits at hfits
  unfold buildFlowMeshEffectBranch
  by_cases hi : i.toNat < effects.length
  · have hwide := lt_of_lt_of_le hi (le_two_pow_treeDepth effects.length)
    rw [if_neg (by simp only [hne, false_or]; omega), if_neg (by omega), hlevel, Option.map_some,
      hrow.length, Merkle.path_eq Nat.lt_two_pow_self.le hwide hrow, Option.some.injEq]
    exact ⟨fun h => ⟨hi, h.symm⟩, fun h => h.2.symm⟩
  · rw [if_pos (.inr (.inr (not_lt.mp hi)))]
    exact ⟨nofun, fun h => absurd h.1 hi⟩

/-- The tagged hashes have no collisions. -/
structure EffectHashes.CollisionFree (H : EffectHashes) : Prop where
  leaf : Function.Injective H.leaf
  node : Function.Injective2 H.node
  root : ∀ {start start' count count' tree tree'}, H.root start count tree = H.root start' count' tree' →
    start = start' ∧ count = count' ∧ tree = tree'

/-- Effects in range with an encoding. -/
def AllEncode (effects : List FlowMeshEffect) : Prop := ∀ e ∈ effects, e.encodes = true ∧ e.InRange

theorem leafOf_inj (hH : H.CollisionFree) {index : Nat} {e e' : FlowMeshEffect}
    (he : e.encodes = true ∧ e.InRange) (he' : e'.encodes = true ∧ e'.InRange)
    (h : leafOf H index e = leafOf H index e') : e = e' :=
  FlowMeshEffect.bytes_injective he.1 he.2 he'.1 he'.2 (append_cancel_left (hH.leaf h))

/-- The verifier accepts exactly the effect at the index with the branch of the builder. -/
theorem verify_iff (hH : H.CollisionFree) (hne : effects ≠ [])
    (hmax : effects.length ≤ FLOWMESH_MAX_CHECKPOINT_EFFECTS) (hfits : RangeFits start effects.length)
    (henc : AllEncode effects) {e : FlowMeshEffect} (hrange : e.InRange) (i : UInt32)
    (branch : List Uint256) : verifyFlowMeshEffectInclusion H start (UInt32.ofNat effects.length)
        (H.root start (UInt32.ofNat effects.length) (effectTree H start effects)) e i branch = true ↔
      i.toNat < effects.length ∧ effects[i.toNat]? = some e ∧
        buildFlowMeshEffectBranch H start effects i = some branch := by
  have hall : effects.all (·.encodes) = true := all_eq_true.mpr fun x hx => (henc x hx).1
  have hlen : 0 < effects.length := length_pos_iff.mpr hne
  have hcount : (UInt32.ofNat effects.length).toNat = effects.length :=
    UInt32.toNat_ofNat_of_lt' (lt_of_le_of_lt hmax (by decide))
  rw [buildBranch_eq_some hne hmax hfits hall]
  have hwidth := treeWidth_eq hlen.ne'
  have hwide := le_two_pow_treeDepth effects.length
  unfold RangeFits at hfits
  -- the climb from the leaf of the index
  have hclimb : ∀ j < effects.length, Merkle.climb H.node j (rowLeaf H start effects j)
      (Merkle.siblings H.node (rowLeaf H start effects) 0 (flowMeshEffectTreeDepth effects.length) j) =
        effectTree H start effects := by
    intro j hj
    have hroot := @climb_siblings _ H.node (rowLeaf H start effects) 0
      (flowMeshEffectTreeDepth effects.length) j
    rwa [zero_add, div_eq_of_lt (lt_of_lt_of_le hj hwide)] at hroot
  unfold verifyFlowMeshEffectInclusion
  rw [leafHash_eq]
  constructor
  · intro h
    split_ifs at h with hbad hencodes
    · simp only [not_or, not_lt, not_not, UInt32.le_iff_toNat_le, hcount, not_le] at hbad
      obtain ⟨-, -, hi, hdepth, -⟩ := hbad
      simp only [beq_iff_eq] at h
      obtain ⟨-, -, htree⟩ := hH.root h
      rw [← hclimb _ hi] at htree
      obtain ⟨hleaf, hbranch⟩ := climb_inj (collisionFree_univ hH.node)
        (fun _ _ => Set.mem_univ _) (fun _ _ => Set.mem_univ _)
        (by rw [hdepth, length_siblings]) htree
      have hget : effects[i.toNat]? = some effects[i.toNat] := getElem?_eq_getElem hi
      rw [rowLeaf, hget] at hleaf
      have hsame := leafOf_inj hH ⟨hencodes, hrange⟩ (henc _ (getElem_mem hi)) hleaf
      exact ⟨hi, hsame ▸ hget, hi, hbranch⟩
  · rintro ⟨hi, he, -, rfl⟩
    have hencodes := (henc e (mem_of_getElem? he)).1
    have hgood : ¬ (UInt32.ofNat effects.length = 0 ∨
        (UInt32.ofNat effects.length).toNat > FLOWMESH_MAX_CHECKPOINT_EFFECTS ∨
        i ≥ UInt32.ofNat effects.length ∨
        (Merkle.siblings H.node (rowLeaf H start effects) 0
          (flowMeshEffectTreeDepth effects.length) i.toNat).length ≠
            flowMeshEffectTreeDepth (UInt32.ofNat effects.length).toNat ∨
        start.toNat > U64 - 1 - i.toNat) := by
      rw [length_siblings, ← UInt32.toNat_inj, ge_iff_le, UInt32.le_iff_toNat_le, hcount]
      simp only [UInt32.toNat_zero]
      omega
    have hleaf := hclimb i.toNat hi
    rw [rowLeaf, he] at hleaf
    rw [if_neg hgood, if_pos hencodes]
    simp only [beq_iff_eq]
    exact congrArg _ hleaf

/-- Equal roots come from equal effects at equal indices. -/
theorem root_inj (hH : H.CollisionFree) {start' : UInt64} {effects' : List FlowMeshEffect} {R : Uint256}
    (hrange : ∀ e ∈ effects, e.InRange) (hrange' : ∀ e ∈ effects', e.InRange)
    (h : computeFlowMeshEffectRoot H start effects = some R)
    (h' : computeFlowMeshEffectRoot H start' effects' = some R) : start = start' ∧ effects = effects' := by
  obtain ⟨hmax, hcase⟩ := computeRoot_some h
  obtain ⟨hmax', hcase'⟩ := computeRoot_some h'
  have hcount : ∀ {l : List FlowMeshEffect}, l.length ≤ FLOWMESH_MAX_CHECKPOINT_EFFECTS →
      (UInt32.ofNat l.length).toNat = l.length := fun hl =>
    UInt32.toNat_ofNat_of_lt' (lt_of_le_of_lt hl (by decide))
  have hzero : ∀ {l : List FlowMeshEffect}, l.length ≤ FLOWMESH_MAX_CHECKPOINT_EFFECTS →
      UInt32.ofNat l.length = 0 → l = [] := by
    intro l hl heq
    have := hcount hl
    rw [heq] at this
    exact length_eq_zero_iff.mp this.symm
  rcases hcase with ⟨rfl, rfl⟩ | ⟨hne, henc, rfl⟩ <;> rcases hcase' with ⟨rfl, heq⟩ | ⟨hne', henc', heq⟩
  · exact ⟨(hH.root heq).1, rfl⟩
  · exact absurd (hzero hmax' (hH.root heq).2.1.symm) hne'
  · exact absurd (hzero hmax (hH.root heq).2.1) hne
  · obtain ⟨rfl, hlength, htree⟩ := hH.root heq
    have hsame : effects.length = effects'.length := by
      rw [← hcount hmax, ← hcount hmax', hlength]
    refine ⟨rfl, ext_getElem hsame fun i hi hi' => ?_⟩
    unfold effectTree at htree
    rw [← hsame] at htree
    have hwide := lt_of_lt_of_le hi (le_two_pow_treeDepth effects.length)
    have hleaf := subtree_inj hH.node htree (j := i) (by omega) (by omega)
    rw [rowLeaf, rowLeaf, getElem?_eq_getElem hi, getElem?_eq_getElem hi'] at hleaf
    exact leafOf_inj hH
      ⟨all_eq_true.mp henc _ (getElem_mem hi), hrange _ (getElem_mem hi)⟩
      ⟨all_eq_true.mp henc' _ (getElem_mem hi'), hrange' _ (getElem_mem hi')⟩ hleaf

/-- The effect tree is sound and complete, and its root determines the effects. -/
theorem effect_tree_exact (hH : H.CollisionFree) :
    (∀ (start : UInt64) (effects : List FlowMeshEffect), effects ≠ [] →
      effects.length ≤ FLOWMESH_MAX_CHECKPOINT_EFFECTS → AllEncode effects →
      RangeFits start effects.length →
      ∃ R, computeFlowMeshEffectRoot H start effects = some R ∧
        ∀ e : FlowMeshEffect, e.InRange → ∀ (i : UInt32) (branch : List Uint256),
          verifyFlowMeshEffectInclusion H start (UInt32.ofNat effects.length) R e i branch = true ↔
            i.toNat < effects.length ∧ effects[i.toNat]? = some e ∧
              buildFlowMeshEffectBranch H start effects i = some branch) ∧
      ∀ (start start' : UInt64) (effects effects' : List FlowMeshEffect) (R : Uint256),
        (∀ e ∈ effects, e.InRange) → (∀ e ∈ effects', e.InRange) →
        computeFlowMeshEffectRoot H start effects = some R →
        computeFlowMeshEffectRoot H start' effects' = some R → start = start' ∧ effects = effects' := by
  refine ⟨fun start effects hne hmax henc hfits => ?_,
    fun start start' effects effects' R hrange hrange' h h' => root_inj hH hrange hrange' h h'⟩
  have hall : effects.all (·.encodes) = true := all_eq_true.mpr fun x hx => (henc x hx).1
  exact ⟨_, computeRoot_eq hne hmax hfits hall,
    fun e hrange i branch => verify_iff hH hne hmax hfits henc hrange i branch⟩

end Exact

/-- Hashes that write down what they are given. -/
def sampleEffectHashes : EffectHashes where
  leaf bytes := Encodable.encode (bytes.map UInt8.toNat)
  pad := id
  node := Nat.pair
  empty := 0
  root start count tree := Nat.pair start.toNat (Nat.pair count.toNat tree)

theorem sampleEffectHashes_collisionFree : sampleEffectHashes.CollisionFree where
  leaf _ _ h := map_injective_iff.mpr (fun _ _ => UInt8.toNat_inj.mp) (Encodable.encode_injective h)
  node _ _ _ _ h := pair_eq_pair.mp h
  root h := by
    obtain ⟨hstart, h⟩ := pair_eq_pair.mp h
    obtain ⟨hcount, htree⟩ := pair_eq_pair.mp h
    exact ⟨UInt64.toNat_inj.mp hstart, UInt32.toNat_inj.mp hcount, htree⟩

def sampleWithdrawal : FlowMeshEffect := .withdrawal ⟨1, 2, 3, 4, 5, 0, 60, 7, 8, 9⟩

/-- Three effects from index ten on; the row has four leaves. -/
theorem sample_effect_tree : AllEncode [sampleWithdrawal, sampleWithdrawal, sampleWithdrawal] ∧
    ∃ R, computeFlowMeshEffectRoot sampleEffectHashes 10
        [sampleWithdrawal, sampleWithdrawal, sampleWithdrawal] = some R ∧
      ∀ e : FlowMeshEffect, e.InRange → ∀ (i : UInt32) (branch : List Uint256),
        verifyFlowMeshEffectInclusion sampleEffectHashes 10 (UInt32.ofNat 3) R e i branch = true ↔
          i.toNat < 3 ∧ [sampleWithdrawal, sampleWithdrawal, sampleWithdrawal][i.toNat]? = some e ∧
            buildFlowMeshEffectBranch sampleEffectHashes 10
              [sampleWithdrawal, sampleWithdrawal, sampleWithdrawal] i = some branch :=
  have henc : AllEncode [sampleWithdrawal, sampleWithdrawal, sampleWithdrawal] := by
    unfold AllEncode
    decide +kernel
  ⟨henc, (effect_tree_exact sampleEffectHashes_collisionFree).1 10 _ (by decide) (by decide) henc
    (by unfold RangeFits; decide +kernel)⟩

end B3Coin.FlowMesh
