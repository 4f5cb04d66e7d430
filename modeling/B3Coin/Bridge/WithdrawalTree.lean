import B3Coin.Bridge.Params
import B3Coin.Lib.Merkle
import Mathlib.Data.List.GetD

/-!
# The withdrawal tree

`modern/withdrawal_tree.h`: the leaf of a withdrawal and the incremental Merkle tree of
depth 32 the leaves are appended to. Keccak is a parameter.
-/
namespace B3Coin.Bridge

open List Nat Merkle

open Codec (Bytes)

def WITHDRAWAL_TREE_DEPTH : Nat := 32
def MAX_WITHDRAWAL_LEAVES : Nat := 2 ^ WITHDRAWAL_TREE_DEPTH

structure BridgeWithdrawalV1 where
  withdrawalId : Nat
  originChainId : Nat
  assetId : Uint256
  originToken : EthAddress
  recipient : EthAddress
  amount : Int
  b3Height : Nat
  deriving DecidableEq

/-- 128 bytes; the amount fills the low eight of its 32. -/
def encodeBridgeWithdrawalV1 (w : BridgeWithdrawalV1) : Option Bytes :=
  if w.withdrawalId ≥ MAX_WITHDRAWAL_LEAVES ∨ w.originChainId = 0 ∨ w.assetId = 0 ∨
      w.originToken = 0 ∨ w.recipient = 0 ∨ w.amount ≤ 0 ∨ w.amount > MAX_MONEY then none
  else some (bigEndian 8 w.withdrawalId ++ bigEndian 8 w.originChainId ++ bigEndian 32 w.assetId ++
    bigEndian 20 w.originToken ++ bigEndian 20 w.recipient ++ bigEndian 32 w.amount.toNat ++
    bigEndian 8 w.b3Height)

/-- `frontier[level]` is the completed left subtree that waits for its sibling when that bit
of `count` is set. -/
structure WithdrawalTreeState where
  count : Nat
  frontier : List Uint256
  root : Uint256
  deriving DecidableEq

section Tree

variable (keccak : Bytes → Uint256)

def bridgeWithdrawalLeafV1 (w : BridgeWithdrawalV1) : Option Uint256 :=
  (encodeBridgeWithdrawalV1 w).map keccak

def withdrawalNodeHash (left right : Uint256) : Uint256 :=
  keccak (bigEndian 32 left ++ bigEndian 32 right)

def withdrawalZeroHash : Nat → Uint256
  | 0 => 0
  | level + 1 => withdrawalNodeHash keccak (withdrawalZeroHash level) (withdrawalZeroHash level)

def WithdrawalTreeState.empty : WithdrawalTreeState :=
  ⟨0, List.replicate WITHDRAWAL_TREE_DEPTH 0, withdrawalZeroHash keccak WITHDRAWAL_TREE_DEPTH⟩

/-- The loop of `AppendWithdrawalLeaf` over the levels that are left. -/
def climbTree (index : Nat) : Nat → Nat → Uint256 → List Uint256 → List Uint256 × Uint256
  | 0, _, node, frontier => (frontier, node)
  | left + 1, level, node, frontier =>
    if index / 2 ^ level % 2 = 0 then
      climbTree index left (level + 1)
        (withdrawalNodeHash keccak node (withdrawalZeroHash keccak level)) (frontier.set level node)
    else
      climbTree index left (level + 1)
        (withdrawalNodeHash keccak (frontier.getD level 0) node) frontier

def appendWithdrawalLeaf (state : WithdrawalTreeState) (leaf : Uint256) :
    Option WithdrawalTreeState :=
  if state.count ≥ MAX_WITHDRAWAL_LEAVES ∨ leaf = 0 then none
  else
    let climbed := climbTree keccak state.count WITHDRAWAL_TREE_DEPTH 0 leaf state.frontier
    some ⟨state.count + 1, climbed.1, climbed.2⟩

/-- The leaf and the tree with it. -/
def appendBridgeWithdrawal (state : WithdrawalTreeState) (w : BridgeWithdrawalV1) :
    Option (Uint256 × WithdrawalTreeState) :=
  if w.withdrawalId ≠ state.count then none
  else (bridgeWithdrawalLeafV1 keccak w).bind fun leaf =>
    (appendWithdrawalLeaf keccak state leaf).map (leaf, ·)

variable {keccak}

theorem climbTree_ne_zero (hne : ∀ b, keccak b ≠ 0) {index left level : Nat} {node : Uint256}
    {frontier : List Uint256} (hnode : left = 0 → node ≠ 0) :
    (climbTree keccak index left level node frontier).2 ≠ 0 := by
  induction left generalizing level node frontier with
  | zero => exact hnode rfl
  | succ left ih =>
    rw [climbTree]
    split_ifs
    · exact ih fun _ => hne _
    · exact ih fun _ => hne _

theorem appendWithdrawalLeaf_root_ne_zero (hne : ∀ b, keccak b ≠ 0)
    {state state' : WithdrawalTreeState} {leaf : Uint256}
    (h : appendWithdrawalLeaf keccak state leaf = some state') : state'.root ≠ 0 := by
  unfold appendWithdrawalLeaf at h
  split_ifs at h
  cases h
  exact climbTree_ne_zero hne nofun

theorem appendWithdrawalLeaf_count {state state' : WithdrawalTreeState} {leaf : Uint256}
    (h : appendWithdrawalLeaf keccak state leaf = some state') : state'.count = state.count + 1 := by
  unfold appendWithdrawalLeaf at h
  split_ifs at h
  cases h
  rfl

/-! ### The tree it stands for -/

variable (keccak)

section

variable (leaves : List Uint256)

/-- The leaves in order and zero elsewhere. -/
def leafRow (i : Nat) : Uint256 := leaves.getD i 0

def withdrawalSubtree : Nat → Nat → Uint256 :=
  subtree (withdrawalNodeHash keccak) (leafRow leaves)

def withdrawalRoot : Uint256 :=
  withdrawalSubtree keccak leaves WITHDRAWAL_TREE_DEPTH 0

/-- The state is the one of the tree with these leaves: where a bit of the count is set, the
frontier has the last complete subtree of that level. -/
structure Represents (state : WithdrawalTreeState) : Prop where
  count : state.count = leaves.length
  size : state.frontier.length = WITHDRAWAL_TREE_DEPTH
  frontier : ∀ level < WITHDRAWAL_TREE_DEPTH, leaves.length / 2 ^ level % 2 = 1 →
    state.frontier.getD level 0 =
      withdrawalSubtree keccak leaves level (leaves.length / 2 ^ level - 1)
  root : state.root = withdrawalRoot keccak leaves

end

variable {keccak} {leaves : List Uint256} {leaf : Uint256}

theorem withdrawalZeroHash_eq (level : Nat) :
    withdrawalZeroHash keccak level = zeros (withdrawalNodeHash keccak) 0 level := by
  induction level with
  | zero => rfl
  | succ level ih => rw [withdrawalZeroHash, zeros, ih]

theorem represents_empty : Represents keccak [] (.empty keccak) where
  count := rfl
  size := length_replicate
  frontier level _ hbit := by simp at hbit
  root := by
    show withdrawalZeroHash keccak _ = _
    rw [withdrawalZeroHash_eq]
    exact (subtree_eq_zeros fun _ _ => rfl).symm

theorem lt_of_next_subtree {n level j : Nat} (h : (n / 2 ^ level + 1) * 2 ^ level ≤ j) : n < j :=
  Nat.lt_of_lt_of_le (Nat.lt_mul_of_div_lt (Nat.lt_succ_self _) (Nat.two_pow_pos level)) h

/-- Nothing stands to the right of the leaf that was appended last. -/
theorem subtree_after_last (leaves : List Uint256) (leaf : Uint256) (level : Nat) :
    withdrawalSubtree keccak (leaves ++ [leaf]) level (leaves.length / 2 ^ level + 1) =
      withdrawalZeroHash keccak level := by
  rw [withdrawalZeroHash_eq, withdrawalSubtree]
  refine subtree_eq_zeros fun j hj => ?_
  have := lt_of_next_subtree hj
  exact getD_eq_default _ _ (by simp; omega)

/-- Everything to the left of it is as before. -/
theorem subtree_before_last (leaf : Uint256) {level i : Nat} (h : i < leaves.length / 2 ^ level) :
    withdrawalSubtree keccak (leaves ++ [leaf]) level i = withdrawalSubtree keccak leaves level i := by
  refine subtree_congr fun j _ hj => ?_
  have hlast : (i + 1) * 2 ^ level ≤ leaves.length :=
    (mul_le_mul_right _ h).trans (div_mul_le_self _ _)
  exact getD_append _ _ _ _ (by omega)

theorem getD_set_self {xs : List Uint256} {k : Nat} (h : k < xs.length) (x : Uint256) :
    (xs.set k x).getD k 0 = x := by
  simp [getD_eq_getElem?_getD, h]

theorem getD_set_of_ne {xs : List Uint256} {k k' : Nat} (h : k ≠ k') (x : Uint256) :
    (xs.set k x).getD k' 0 = xs.getD k' 0 := by
  simp [getD_eq_getElem?_getD, getElem?_set_ne h]

/-- The loop of an append, from a level upwards: the node it carries is the one above the new
leaf, and it leaves that node in the frontier wherever it is a left child. -/
theorem climbTree_spec {n : Nat} (hn : n = leaves.length) (left level : Nat)
    (frontier : List Uint256) (hsize : level + left ≤ frontier.length)
    (hfrontier : ∀ k, level ≤ k → k < level + left → n / 2 ^ k % 2 = 1 →
      frontier.getD k 0 = withdrawalSubtree keccak leaves k (n / 2 ^ k - 1)) :
    let T := withdrawalSubtree keccak (leaves ++ [leaf])
    let climbed := climbTree keccak n left level (T level (n / 2 ^ level)) frontier
    climbed.2 = T (level + left) (n / 2 ^ (level + left)) ∧
      climbed.1.length = frontier.length ∧
      ∀ k, climbed.1.getD k 0 = if level ≤ k ∧ k < level + left ∧ n / 2 ^ k % 2 = 0 then
        T k (n / 2 ^ k) else frontier.getD k 0 := by
  intro T
  induction left generalizing level frontier with
  | zero =>
    refine ⟨rfl, rfl, fun k => ?_⟩
    rw [if_neg (by omega)]
    rfl
  | succ left ih =>
    have hhalf : n / 2 ^ level / 2 = n / 2 ^ (level + 1) := by
      rw [Nat.div_div_eq_div_mul, ← Nat.pow_succ]
    rw [show level + (left + 1) = level + 1 + left by omega] at hsize hfrontier ⊢
    unfold climbTree
    split
    · rename_i heven
      have hparent : withdrawalNodeHash keccak (T level (n / 2 ^ level))
          (withdrawalZeroHash keccak level) = T (level + 1) (n / 2 ^ (level + 1)) := by
        rw [← hhalf]
        refine ((subtree_succ_of_even heven).trans ?_).symm
        rw [← subtree_after_last leaves leaf, ← hn]
        rfl
      rw [hparent]
      obtain ⟨hroot, hlength, hget⟩ := ih (level + 1) (frontier.set level (T level (n / 2 ^ level)))
        (by rwa [length_set]) fun k hk hk' hbit => by
          rw [getD_set_of_ne (by omega)]
          exact hfrontier k (by omega) hk' hbit
      refine ⟨hroot, hlength.trans length_set, fun k => (hget k).trans ?_⟩
      by_cases hk : k = level
      · subst hk
        rw [if_neg (by omega), if_pos ⟨le_rfl, by omega, heven⟩, getD_set_self (by omega)]
      · rw [getD_set_of_ne (Ne.symm hk)]
        exact if_congr (by omega) rfl rfl
    · have hbit : n / 2 ^ level % 2 = 1 := by omega
      have hparent : withdrawalNodeHash keccak (frontier.getD level 0) (T level (n / 2 ^ level)) =
          T (level + 1) (n / 2 ^ (level + 1)) := by
        have hlt : n / 2 ^ level - 1 < leaves.length / 2 ^ level := by
          rw [← hn]
          exact sub_one_lt (fun hzero => by simp [hzero] at hbit)
        rw [← hhalf, hfrontier level le_rfl (by omega) hbit, ← subtree_before_last leaf hlt]
        exact (subtree_succ_of_odd hbit).symm
      rw [hparent]
      obtain ⟨hroot, hlength, hget⟩ := ih (level + 1) frontier hsize fun k hk hk' =>
        hfrontier k (by omega) hk'
      refine ⟨hroot, hlength, fun k => (hget k).trans (if_congr ?_ rfl rfl)⟩
      by_cases hk : k = level
      · subst hk
        omega
      · omega

theorem leafRow_last : leafRow (leaves ++ [leaf]) leaves.length = leaf := by
  simp [leafRow]

theorem Represents.append {state state' : WithdrawalTreeState} (hs : Represents keccak leaves state)
    (h : appendWithdrawalLeaf keccak state leaf = some state') :
    Represents keccak (leaves ++ [leaf]) state' := by
  unfold appendWithdrawalLeaf at h
  split_ifs at h with hrefused
  have hroom : state.count < 2 ^ WITHDRAWAL_TREE_DEPTH := not_le.mp (not_or.mp hrefused).1
  have hcount := hs.count
  have hsize := hs.size
  obtain ⟨hroot, hlength, hget⟩ := @climbTree_spec keccak leaves leaf _ hcount
    WITHDRAWAL_TREE_DEPTH 0 state.frontier (by omega) fun k _ hk hbit => by
      rw [hcount] at hbit ⊢
      exact hs.frontier k (by omega) hbit
  have hstart : withdrawalSubtree keccak (leaves ++ [leaf]) 0 (state.count / 2 ^ 0) = leaf := by
    rw [Nat.pow_zero, Nat.div_one, hcount]
    exact leafRow_last
  rw [hstart] at hroot hlength hget
  cases h
  refine ⟨by simp [hcount], hlength.trans hsize, fun k hk hbit => ?_, ?_⟩
  · rw [length_append, length_singleton, ← hcount] at hbit ⊢
    have hsucc : (state.count + 1) / 2 ^ k =
        state.count / 2 ^ k + if 2 ^ k ∣ state.count + 1 then 1 else 0 := Nat.succ_div
    rw [hget]
    by_cases heven : state.count / 2 ^ k % 2 = 0
    · -- the new leaf completes a left child of this level
      have hnext : (state.count + 1) / 2 ^ k = state.count / 2 ^ k + 1 := by
        rw [hsucc]
        split
        · rfl
        · rename_i hno
          rw [hsucc, if_neg hno] at hbit
          exact absurd hbit (by rw [add_zero, heven]; decide)
      rw [if_pos ⟨Nat.zero_le _, by omega, heven⟩, hnext, Nat.add_sub_cancel]
    · have hodd : state.count / 2 ^ k % 2 = 1 := mod_two_ne_zero.mp heven
      have hsame : (state.count + 1) / 2 ^ k = state.count / 2 ^ k := by
        rw [hsucc]
        split
        · rename_i hyes
          rw [hsucc, if_pos hyes, add_mod, hodd] at hbit
          exact absurd hbit (by decide)
        · rfl
      rw [if_neg fun hyes => heven hyes.2.2, hsame]
      rw [hcount] at hodd ⊢
      rw [hs.frontier k hk hodd, subtree_before_last leaf
        (sub_one_lt fun hzero => by simp [hzero] at hodd)]
  · rw [zero_add, div_eq_of_lt hroom] at hroot
    exact hroot

/-- Nonzero leaves that fit are all appended. -/
theorem appendAll_represents (hroom : leaves.length ≤ MAX_WITHDRAWAL_LEAVES)
    (hleaves : ∀ leaf ∈ leaves, leaf ≠ 0) :
    ∃ state, leaves.foldlM (appendWithdrawalLeaf keccak) (.empty keccak) = some state ∧
      Represents keccak leaves state := by
  induction leaves using List.reverseRecOn with
  | nil => exact ⟨_, rfl, represents_empty⟩
  | append_singleton leaves leaf ih =>
    rw [length_append, length_singleton] at hroom
    obtain ⟨state, hstate, hrep⟩ := ih (by omega) fun l hl =>
      hleaves l (mem_append_left _ hl)
    have hcount := hrep.count
    have hroom' : ¬ (state.count ≥ MAX_WITHDRAWAL_LEAVES ∨ leaf = 0) :=
      not_or.mpr ⟨by omega, hleaves leaf (by simp)⟩
    have happend : ∃ state', appendWithdrawalLeaf keccak state leaf = some state' :=
      ⟨_, if_neg hroom'⟩
    obtain ⟨state', hstate'⟩ := happend
    refine ⟨state', ?_, hrep.append hstate'⟩
    rw [foldlM_append, hstate]
    simpa using hstate'

end Tree

end B3Coin.Bridge
