import B3Coin.Basic
import B3Coin.Lib.Merkle
import Mathlib.Data.List.GetD

/-!
# Keccak trees over 32-byte words

Both chains commit to withdrawals and to validators by a full binary tree of words, a node
being the keccak of its two children and a missing leaf the zero word. Here are the loop
with which the contracts climb a branch and what a branch that reaches the root says.
Digests are cut to 32 bytes, so freedom from collisions is asked of the strings actually
hashed.
-/
namespace B3Coin.WordTree

open List Merkle

variable (keccak256 : List UInt8 → Uint256)

def nodePreimage (p : Uint256 × Uint256) : List UInt8 := bigEndian 32 p.1 ++ bigEndian 32 p.2

def node (left right : Uint256) : Uint256 := keccak256 (bigEndian 32 left ++ bigEndian 32 right)

def row (leaves : List Uint256) (i : Nat) : Uint256 := leaves.getD i 0

/-- The loop over the path, from `level` on. -/
def climbPath (index : Nat) : Nat → Uint256 → List Uint256 → Uint256
  | _, x, [] => x
  | level, x, sibling :: rest =>
    climbPath index (level + 1)
      (if index / 2 ^ level % 2 = 0 then keccak256 (bigEndian 32 x ++ bigEndian 32 sibling)
        else keccak256 (bigEndian 32 sibling ++ bigEndian 32 x)) rest

variable {keccak256}

theorem climbPath_eq (index level : Nat) (x : Uint256) (path : List Uint256) :
    climbPath keccak256 index level x path =
      climb (node keccak256) (index / 2 ^ level) x path := by
  induction path generalizing level x with
  | nil => rfl
  | cons sibling path ih =>
    have hhalf : index / 2 ^ level / 2 = index / 2 ^ (level + 1) := by
      rw [Nat.div_div_eq_div_mul, ← Nat.pow_succ]
    rw [climbPath, ih, climb, hhalf]
    rcases Nat.mod_two_eq_zero_or_one (index / 2 ^ level) with h | h <;> simp [h, node]

theorem nodePreimage_inj {p q : Uint256 × Uint256} (hp : p.1 < 256 ^ 32 ∧ p.2 < 256 ^ 32)
    (hq : q.1 < 256 ^ 32 ∧ q.2 < 256 ^ 32) (h : nodePreimage p = nodePreimage q) : p = q := by
  obtain ⟨hleft, hright⟩ := append_inj h (by simp)
  exact Prod.ext (bigEndian_inj hp.1 hq.1 hleft) (bigEndian_inj hp.2 hq.2 hright)

section Words

variable (hdigest : ∀ b, keccak256 b < 256 ^ 32)
include hdigest

/-- What is hashed on the way up stays within 32 bytes. -/
theorem climbed_lt {i : Nat} {x : Uint256} {path : List Uint256} (hx : x < 256 ^ 32)
    (hpath : ∀ y ∈ path, y < 256 ^ 32) :
    ∀ p ∈ climbed (node keccak256) i x path, p.1 < 256 ^ 32 ∧ p.2 < 256 ^ 32 := by
  induction path generalizing i x with
  | nil => exact fun p hp => nomatch hp
  | cons sibling path ih =>
    rw [forall_mem_cons] at hpath
    refine forall_mem_cons.mpr ⟨?_, ih ?_ hpath.2⟩
    · unfold children
      split
      · exact ⟨hpath.1, hx⟩
      · exact ⟨hx, hpath.1⟩
    · split <;> exact hdigest _

variable {leaves : List Uint256} (hleaves : ∀ leaf ∈ leaves, leaf < 256 ^ 32)
include hleaves

theorem subtree_lt (level i : Nat) :
    subtree (node keccak256) (row leaves) level i < 256 ^ 32 := by
  cases level with
  | succ level => exact hdigest _
  | zero =>
    show leaves.getD i 0 < 256 ^ 32
    by_cases hi : i < leaves.length
    · rw [getD_eq_getElem _ _ hi]
      exact hleaves _ (getElem_mem hi)
    · rw [getD_eq_default _ _ (by omega)]
      exact Nat.pow_pos (by decide)

theorem siblings_lt (level n i : Nat) :
    ∀ y ∈ siblings (node keccak256) (row leaves) level n i, y < 256 ^ 32 := by
  induction n generalizing level i with
  | zero => exact fun y hy => nomatch hy
  | succ n ih =>
    exact forall_mem_cons.mpr ⟨subtree_lt hdigest hleaves _ _, ih _ _⟩

end Words

/-- The true path leads to the root. -/
theorem climb_siblings (leaves : List Uint256) {depth i : Nat} (hi : i < 2 ^ depth) :
    climb (node keccak256) i (row leaves i)
      (siblings (node keccak256) (row leaves) 0 depth i) =
        subtree (node keccak256) (row leaves) depth 0 := by
  refine (Merkle.climb_siblings (row leaves) 0 depth i).trans ?_
  rw [Nat.div_eq_of_lt hi, Nat.zero_add]

/-- A path that leads to the root is the true one, and its leaf is the one of the tree. -/
theorem climb_eq_root_iff (hdigest : ∀ b, keccak256 b < 256 ^ 32) {leaves : List Uint256}
    (hleaves : ∀ leaf ∈ leaves, leaf < 256 ^ 32) {depth i : Nat} (hi : i < 2 ^ depth)
    {x : Uint256} {path : List Uint256} (hx : x < 256 ^ 32) (hpath : ∀ y ∈ path, y < 256 ^ 32)
    (hlen : path.length = depth) {S : Set (List UInt8)} (hS : Set.InjOn keccak256 S)
    (hclimbed : ∀ p ∈ climbed (node keccak256) i x path, nodePreimage p ∈ S)
    (htrue : ∀ p ∈ climbed (node keccak256) i (row leaves i)
      (siblings (node keccak256) (row leaves) 0 depth i), nodePreimage p ∈ S) :
    climb (node keccak256) i x path = subtree (node keccak256) (row leaves) depth 0 ↔
      x = row leaves i ∧ path = siblings (node keccak256) (row leaves) 0 depth i := by
  have hfree : CollisionFree (node keccak256)
      {p | nodePreimage p ∈ S ∧ p.1 < 256 ^ 32 ∧ p.2 < 256 ^ 32} :=
    fun _ hp _ hq h => nodePreimage_inj hp.2 hq.2 (hS hp.1 hq.1 h)
  rw [← climb_siblings leaves hi]
  constructor
  · refine Merkle.climb_inj hfree (fun p hp => ?_) (fun p hp => ?_) ?_
    · exact ⟨hclimbed p hp, climbed_lt hdigest hx hpath p hp⟩
    · exact ⟨htrue p hp, climbed_lt hdigest (subtree_lt hdigest hleaves 0 i)
        (siblings_lt hdigest hleaves 0 depth i) p hp⟩
    · rw [hlen, length_siblings]
  · rintro ⟨rfl, rfl⟩
    rfl

/-! ### A hash for small trees -/

/-- A stand-in for keccak without collisions on a few strings: a leaf, of `width` bytes, by its
byte `i`, a node one more than the last byte of its left child. -/
def sampleKeccak (width i : Nat) (b : List UInt8) : Uint256 :=
  if b.length = width then 100 + 20 * (b.getD i 0).toNat else (b.getD 31 0).toNat + 1

section Sample

variable {width i : Nat}

theorem sampleKeccak_bounds (b : List UInt8) :
    0 < sampleKeccak width i b ∧ sampleKeccak width i b ≤ (5200 : Nat) := by
  have h1 := (b.getD i 0).toNat_lt
  have h2 := (b.getD 31 0).toNat_lt
  unfold sampleKeccak Uint256
  split <;> omega

theorem sampleKeccak_lt (b : List UInt8) : sampleKeccak width i b < 256 ^ 32 :=
  (sampleKeccak_bounds b).2.trans_lt (by decide)

variable (hwidth : width ≠ 64)
include hwidth

theorem sampleNode (l r : Uint256) : node (sampleKeccak width i) l r = l % 256 + 1 := by
  have hlength : (bigEndian 32 l ++ bigEndian 32 r).length = 64 := by simp
  rw [node, sampleKeccak, hlength, if_neg hwidth.symm]
  show (UInt8.ofNat (l / 256 ^ 0)).toNat + 1 = l % 256 + 1
  rw [UInt8.toNat_ofNat', Nat.pow_zero, Nat.div_one]

/-- An empty subtree is its height. -/
theorem sampleZeros {leaves : List Uint256} {level j : Nat} (hlevel : level ≤ 32)
    (hj : leaves.length ≤ j * 2 ^ level) :
    subtree (node (sampleKeccak width i)) (row leaves) level j = level := by
  have hempty : ∀ k, j * 2 ^ level ≤ k → row leaves k = 0 := fun k hk =>
    getD_eq_default _ _ (hj.trans hk)
  rw [subtree_eq_zeros hempty]
  clear hj hempty
  induction level with
  | zero => rfl
  | succ level ih => rw [zeros, ih (by omega), sampleNode hwidth, Nat.mod_eq_of_lt (by omega)]

end Sample

end B3Coin.WordTree
