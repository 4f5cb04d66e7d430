import B3Coin.Bridge.LightClient
import B3Coin.Lib.Merkle
import Mathlib.Data.Nat.Pairing

/-!
# SSZ trees

`bridge/ssz.h`: `Merkleize` keeps the part of each level that has chunks below it and
one hash for everything to the right of it; `VerifyBranch` starts from a generalized
index. Both are about the full binary tree over the chunks followed by zeros.
-/
namespace B3Coin.Bridge

open Merkle List

section

variable (hashPair : Uint256 → Uint256 → Uint256)

def zeroSubtree : Nat → Uint256
  | 0 => 0
  | depth + 1 => hashPair (zeroSubtree depth) (zeroSubtree depth)

/-- The next level; `zeroHash` stands to the right of an odd one. -/
def nextLevel (zeroHash : Uint256) : List Uint256 → List Uint256
  | [] => []
  | [left] => [hashPair left zeroHash]
  | left :: right :: rest => hashPair left right :: nextLevel zeroHash rest

def climbLevels : Nat → Uint256 → List Uint256 → Uint256
  | 0, _, chunks => chunks.headD 0
  | level + 1, zeroHash, chunks =>
    climbLevels level (hashPair zeroHash zeroHash) (nextLevel hashPair zeroHash chunks)

def merkleize (chunks : List Uint256) (depth : Nat) : Uint256 :=
  if chunks = [] then zeroSubtree hashPair depth
  else if chunks.length > 2 ^ depth then 0
  else climbLevels hashPair depth 0 chunks

end

variable {hashPair : Uint256 → Uint256 → Uint256} {leaf : Nat → Uint256}

theorem climbBranch_eq (hashPair : Uint256 → Uint256 → Uint256) (i : Nat) (x : Uint256)
    (path : List Uint256) : climbBranch hashPair i x path = climb hashPair i x path := by
  induction path generalizing i x with
  | nil => rfl
  | cons sibling path ih => exact ih _ _

theorem zeroSubtree_eq (depth : Nat) : zeroSubtree hashPair depth = zeros hashPair 0 depth := by
  induction depth with
  | zero => rfl
  | succ depth ih => rw [zeroSubtree, ih, zeros]

theorem nextLevel_range {zeroHash : Uint256} {level k n : Nat}
    (hz : subtree hashPair leaf level (2 * k + n) = zeroHash) :
    nextLevel hashPair zeroHash ((List.range' (2 * k) n).map (subtree hashPair leaf level)) =
      (List.range' k ((n + 1) / 2)).map (subtree hashPair leaf (level + 1)) := by
  induction n using Nat.twoStepInduction generalizing k with
  | zero => rfl
  | one => simp [nextLevel, subtree, hz]
  | more n ih _ =>
    rw [show (n + 2 + 1) / 2 = (n + 1) / 2 + 1 by omega, range'_succ, range'_succ,
      range'_succ, map_cons, map_cons, map_cons, nextLevel, subtree]
    exact congrArg _ (ih (k := k + 1) (by rw [← hz]; exact congrArg _ (by omega)))

/-- The first nodes of a level lead to the root, if all beyond them are the same. -/
theorem climbLevels_eq {zeroHash : Uint256} {depth level n : Nat} (hn : 0 < n)
    (hz : ∀ j, n ≤ j → subtree hashPair leaf level j = zeroHash) :
    climbLevels hashPair depth zeroHash ((List.range n).map (subtree hashPair leaf level)) =
      subtree hashPair leaf (level + depth) 0 := by
  induction depth generalizing level n zeroHash with
  | zero =>
    obtain ⟨n, rfl⟩ := Nat.exists_eq_succ_of_ne_zero hn.ne'
    rw [climbLevels, range_succ_eq_map]
    rfl
  | succ depth ih =>
    have hnext := nextLevel_range (k := 0) (n := n) (hz _ (by omega))
    rw [Nat.mul_zero, ← range_eq_range', ← range_eq_range'] at hnext
    rw [climbLevels, hnext, ih (by omega) fun j hj => ?_, Nat.add_right_comm, Nat.add_assoc]
    rw [subtree, hz _ (by omega), hz _ (by omega)]

/-- The chunk at a position, zero after the last. -/
def chunkAt (chunks : List Uint256) (i : Nat) : Uint256 := chunks.getD i 0

theorem merkleize_eq {chunks : List Uint256} {depth : Nat} (h : chunks.length ≤ 2 ^ depth) :
    merkleize hashPair chunks depth = subtree hashPair (chunkAt chunks) depth 0 := by
  unfold merkleize
  split_ifs with hnil hlong
  · rw [zeroSubtree_eq, hnil]
    exact (subtree_const 0 depth 0).symm
  · omega
  · have hrow : chunks = (List.range chunks.length).map (subtree hashPair (chunkAt chunks) 0) := by
      refine ext_getElem (by simp) fun i hi _ => ?_
      simp [subtree, chunkAt, hi]
    have hroot : climbLevels hashPair depth 0 _ = subtree hashPair (chunkAt chunks) (0 + depth) 0 :=
      climbLevels_eq (length_pos_iff.mpr hnil) fun j hj => getD_eq_default chunks 0 hj
    rwa [← hrow, Nat.zero_add] at hroot

/-- `Merkleize` computes the root of the padded tree, and a branch is accepted for a
position of it only from the chunk there along its true siblings. -/
theorem merkleize_branches (hinj : Function.Injective2 hashPair) {depth : Nat}
    (hdepth : 1 ≤ depth ∧ depth ≤ 62) {chunks : List Uint256} (hlen : chunks.length ≤ 2 ^ depth) :
    merkleize hashPair chunks depth = subtree hashPair (chunkAt chunks) depth 0 ∧
      ∀ i < 2 ^ depth, ∀ leaf branch,
        verifyBranch hashPair leaf branch (2 ^ depth + i) (merkleize hashPair chunks depth) = true ↔
          leaf = chunkAt chunks i ∧ branch = siblings hashPair (chunkAt chunks) 0 depth i := by
  refine ⟨merkleize_eq hlen, fun i hi leaf branch => ?_⟩
  have hpow : 2 ^ 1 ≤ 2 ^ depth := Nat.pow_le_pow_right (by decide) hdepth.1
  have hlog : Nat.log2 (2 ^ depth + i) = depth :=
    (Nat.log2_eq_iff (by omega)).mpr ⟨by omega, by rw [Nat.pow_succ]; omega⟩
  have htrue : climb hashPair i _ _ = _ := climb_siblings (chunkAt chunks) 0 depth i
  rw [Nat.zero_add, Nat.div_eq_of_lt hi, subtree] at htrue
  simp only [verifyBranch, hlog, Nat.add_sub_cancel_left, climbBranch_eq, merkleize_eq hlen,
    ← htrue, Bool.and_eq_true, decide_eq_true_eq, beq_iff_eq]
  constructor
  · rintro ⟨⟨-, hbranch⟩, hclimb⟩
    exact climb_inj (collisionFree_univ hinj) (fun _ _ => Set.mem_univ _)
      (fun _ _ => Set.mem_univ _) (by simpa using hbranch) hclimb
  · rintro ⟨rfl, rfl⟩
    exact ⟨⟨by omega, length_siblings ..⟩, rfl⟩

/-- Three chunks in a tree of four leaves. -/
theorem sample_branch_accepted :
    verifyBranch Nat.pair 6 [5, Nat.pair 7 0] 5 (merkleize Nat.pair [5, 6, 7] 2) = true := by
  have hall := @merkleize_branches Nat.pair (fun _ _ _ _ => Nat.pair_eq_pair.mp) 2 (by decide)
    [5, 6, 7] (by decide)
  exact (hall.2 1 (by decide) 6 _).mpr ⟨rfl, rfl⟩

end B3Coin.Bridge
