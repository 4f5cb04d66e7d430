import Mathlib.Data.Set.Function
import Mathlib.Data.List.Basic
import Mathlib.Data.Nat.Bitwise
import Mathlib.Tactic.Linarith

/-!
# Binary hash trees

`climb` leads from a node to the root above it, given the siblings on the way; the bits of
the position tell left from right. Two climbs from one position that meet agree all the
way, provided the node hash has no collision among the pairs the two climbs hash
(`climbed`); an injective node hash is the case of all pairs.

`subtree` is the full tree over an infinite row of leaves, by level and position. A tree
built level by level over a list (`fold`), and the branch read off on the way (`path`),
are nodes of it.
-/
namespace Merkle

open Nat

variable {H : Type*} (node : H → H → H)

/-! ## Branches -/

/-- The children of a parent, from one of them at position `i` and its sibling. -/
def children (i : Nat) (x s : H) : H × H := if i % 2 = 1 then (s, x) else (x, s)

def climb : Nat → H → List H → H
  | _, x, [] => x
  | i, x, s :: path => climb (i / 2) (if i % 2 = 1 then node s x else node x s) path

/-- The pairs hashed on the way. -/
def climbed : Nat → H → List H → List (H × H)
  | _, _, [] => []
  | i, x, s :: path =>
    children i x s :: climbed (i / 2) (if i % 2 = 1 then node s x else node x s) path

/-- No two pairs of the set have the same hash. -/
def CollisionFree (S : Set (H × H)) : Prop := S.InjOn fun p => node p.1 p.2

variable {node}

variable {i : Nat}

theorem children_inj {x y s t : H} (h : children i x s = children i y t) : x = y ∧ s = t := by
  unfold children at h
  split at h
  · exact (Prod.mk.inj h).symm
  · exact Prod.mk.inj h

theorem node_children (i : Nat) (x s : H) : (if i % 2 = 1 then node s x else node x s) =
      node (children i x s).1 (children i x s).2 := by
  unfold children
  split <;> rfl

theorem collisionFree_univ (h : Function.Injective2 node) : CollisionFree node Set.univ := by
  intro p _ q _ hpq
  exact Prod.ext_iff.mpr (h hpq)

/-- Equal roots come from equal leaves and equal siblings. -/
theorem climb_inj {S : Set (H × H)} (hS : CollisionFree node S) {x y : H}
    {path path' : List H} (hx : ∀ p ∈ climbed node i x path, p ∈ S)
    (hy : ∀ p ∈ climbed node i y path', p ∈ S) (hlen : path.length = path'.length)
    (h : climb node i x path = climb node i y path') : x = y ∧ path = path' := by
  induction path generalizing i x y path' with
  | nil =>
    cases path' with
    | nil => exact ⟨h, rfl⟩
    | cons t rest => cases hlen
  | cons s path ih =>
    cases path' with
    | nil => cases hlen
    | cons t rest =>
      simp only [climbed, List.forall_mem_cons] at hx hy
      obtain ⟨hnode, rfl⟩ := ih hx.2 hy.2 (Nat.succ.inj hlen) h
      rw [node_children, node_children] at hnode
      obtain ⟨rfl, rfl⟩ := children_inj (hS hx.1 hy.1 hnode)
      exact ⟨rfl, rfl⟩

/-! ## Full trees -/

section Tree

variable (node)

/-- The node at a position of a level, level zero being the leaves. -/
def subtree (leaf : Nat → H) : Nat → Nat → H
  | 0, i => leaf i
  | level + 1, i => node (subtree leaf level (2 * i)) (subtree leaf level (2 * i + 1))

/-- The root of a tree whose leaves are all `z`. -/
def zeros (z : H) : Nat → H
  | 0 => z
  | level + 1 => node (zeros z level) (zeros z level)

def sibling (i : Nat) : Nat := if i % 2 = 1 then i - 1 else i + 1

/-- The siblings of the nodes from a position of a level upwards. -/
def siblings (leaf : Nat → H) : Nat → Nat → Nat → List H
  | _, 0, _ => []
  | level, n + 1, i => subtree node leaf level (sibling i) :: siblings leaf (level + 1) n (i / 2)

end Tree

variable {leaf leaf' : Nat → H} {z : H} {level i : Nat}

theorem subtree_succ_of_odd (h : i % 2 = 1) : subtree node leaf (level + 1) (i / 2) =
    node (subtree node leaf level (i - 1)) (subtree node leaf level i) := by
  rw [subtree, show 2 * (i / 2) = i - 1 by omega, show i - 1 + 1 = i by omega]

theorem subtree_succ_of_even (h : i % 2 = 0) : subtree node leaf (level + 1) (i / 2) =
    node (subtree node leaf level i) (subtree node leaf level (i + 1)) := by
  rw [subtree, show 2 * (i / 2) = i by omega]

@[simp] theorem length_siblings (leaf : Nat → H) (level n i : Nat) :
    (siblings node leaf level n i).length = n := by
  induction n generalizing level i with
  | zero => rfl
  | succ n ih => rw [siblings, List.length_cons, ih]

/-- From any node its siblings lead to the root above it. -/
theorem climb_siblings (leaf : Nat → H) (level n i : Nat) :
    climb node i (subtree node leaf level i) (siblings node leaf level n i) =
      subtree node leaf (level + n) (i / 2 ^ n) := by
  induction n generalizing level i with
  | zero => simp [siblings, climb]
  | succ n ih =>
    have hparent : (if i % 2 = 1 then
        node (subtree node leaf level (sibling i)) (subtree node leaf level i)
        else node (subtree node leaf level i) (subtree node leaf level (sibling i))) =
        subtree node leaf (level + 1) (i / 2) := by
      unfold sibling
      split
      · rename_i hodd
        rw [subtree_succ_of_odd hodd]
      · rw [subtree_succ_of_even (by omega)]
    rw [siblings, climb, hparent, ih, Nat.div_div_eq_div_mul, ← Nat.pow_succ',
      show level + 1 + n = level + (n + 1) by omega]

/-- A node only depends on the leaves below it. -/
theorem subtree_congr (h : ∀ j, i * 2 ^ level ≤ j → j < (i + 1) * 2 ^ level → leaf j = leaf' j) :
    subtree node leaf level i = subtree node leaf' level i := by
  induction level generalizing i with
  | zero => exact h i (by omega) (by omega)
  | succ level ih =>
    have hleft : 2 * i * 2 ^ level = i * 2 ^ (level + 1) := by
      rw [pow_succ', ← mul_assoc, mul_comm 2 i]
    have hright : (2 * i + 2) * 2 ^ level = (i + 1) * 2 ^ (level + 1) := by
      rw [pow_succ', ← mul_assoc, show 2 * i + 2 = (i + 1) * 2 by omega]
    have hmiddle : 2 * i * 2 ^ level ≤ (2 * i + 1) * 2 ^ level :=
      mul_le_mul_right _ (le_succ _)
    have hmiddle' : (2 * i + 1) * 2 ^ level ≤ (2 * i + 2) * 2 ^ level :=
      mul_le_mul_right _ (le_succ _)
    rw [subtree, subtree,
      ih fun j hj hj' => h j (hleft ▸ hj) (hright ▸ lt_of_lt_of_le hj' hmiddle'),
      ih fun j hj hj' => h j (hleft ▸ le_trans hmiddle hj) (hright ▸ hj')]

theorem subtree_const (z : H) (level i : Nat) :
    subtree node (fun _ => z) level i = zeros node z level := by
  induction level generalizing i with
  | zero => rfl
  | succ level ih => rw [subtree, zeros, ih, ih]

theorem subtree_eq_zeros (h : ∀ j, i * 2 ^ level ≤ j → leaf j = z) :
    subtree node leaf level i = zeros node z level := by
  rw [← subtree_const z level i]
  exact subtree_congr fun j hj _ => h j hj

/-- Equal roots come from equal leaves. -/
theorem subtree_inj (hnode : Function.Injective2 node)
    (h : subtree node leaf level i = subtree node leaf' level i) {j : Nat} (hlo : i * 2 ^ level ≤ j)
    (hhi : j < (i + 1) * 2 ^ level) : leaf j = leaf' j := by
  induction level generalizing i with
  | zero =>
    have hj : j = i := by omega
    rw [hj]
    exact h
  | succ level ih =>
    obtain ⟨hleft, hright⟩ := hnode h
    rw [pow_succ] at hlo hhi
    by_cases hmiddle : j < (2 * i + 1) * 2 ^ level
    · exact ih hleft (by nlinarith) hmiddle
    · exact ih hright (by omega) (by nlinarith)

/-! ## Trees built level by level -/

section Levels

variable (node)

/-- The nodes above a row of even length. -/
def pairUp : List H → List H
  | left :: right :: rest => node left right :: pairUp rest
  | _ => []

/-- Pair up until one node is left. -/
def fold : Nat → List H → List H
  | 0, row => row
  | fuel + 1, row => if row.length > 1 then fold fuel (pairUp node row) else row

/-- The siblings of a position, noted while the row is paired up. -/
def path (z : H) : Nat → List H → Nat → List H
  | 0, _, _ => []
  | fuel + 1, row, i =>
    if row.length > 1 then row.getD (i ^^^ 1) z :: path z fuel (pairUp node row) (i / 2) else []

/-- The row holds the first nodes of a level. -/
def Row (leaf : Nat → H) (level width : Nat) (row : List H) : Prop :=
  row = (List.range width).map (subtree node leaf level)

end Levels

theorem pairUp_range (leaf : Nat → H) (width k : Nat) :
    pairUp node ((List.range' (2 * k) (2 * width)).map (subtree node leaf level)) =
      (List.range' k width).map (subtree node leaf (level + 1)) := by
  induction width generalizing k with
  | zero => rfl
  | succ width ih =>
    exact congrArg _ (ih (k + 1))

variable {row : List H}

theorem Row.pairUp {width : Nat} (h : Row node leaf level (2 * width) row) :
    Row node leaf (level + 1) width (Merkle.pairUp node row) := by
  have hrange := @pairUp_range H node level leaf width 0
  rw [mul_zero, ← List.range_eq_range', ← List.range_eq_range'] at hrange
  rw [h]
  exact hrange

theorem Row.length {width : Nat} (h : Row node leaf level width row) : row.length = width := by
  rw [h, List.length_map, List.length_range]

theorem fold_eq {d fuel : Nat} (hfuel : d ≤ fuel) (h : Row node leaf level (2 ^ d) row) :
    fold node fuel row = [subtree node leaf (level + d) 0] := by
  induction d generalizing level fuel row with
  | zero =>
    have hlen := h.length
    have hrow : row = [subtree node leaf level 0] := h
    cases fuel with
    | zero => exact hrow
    | succ fuel =>
      rw [fold, if_neg (by omega)]
      exact hrow
  | succ d ih =>
    obtain ⟨fuel, rfl⟩ := exists_eq_succ_of_ne_zero (show fuel ≠ 0 by omega)
    have hlen := h.length
    have hpos : 0 < 2 ^ d := Nat.two_pow_pos d
    rw [Nat.pow_succ'] at h hlen
    rw [fold, if_pos (by omega), ih (by omega) h.pairUp, add_right_comm, add_assoc]

theorem xor_one_eq_sibling (i : Nat) : i ^^^ 1 = sibling i := by
  have hdiv : (i ^^^ 1) / 2 = i / 2 ^^^ 1 / 2 := xor_div_two
  have hmod : (i ^^^ 1) % 2 = (i + 1) % 2 := xor_mod_two_eq
  rw [show 1 / 2 = 0 from rfl, xor_zero] at hdiv
  unfold sibling
  split <;> omega

theorem path_eq {d fuel : Nat} (hfuel : d ≤ fuel) (hi : i < 2 ^ d)
    (h : Row node leaf level (2 ^ d) row) :
    path node z fuel row i = siblings node leaf level d i := by
  induction d generalizing level fuel row i with
  | zero =>
    have hlen := h.length
    cases fuel with
    | zero => rfl
    | succ fuel =>
      rw [path, if_neg (by omega)]
      rfl
  | succ d ih =>
    obtain ⟨fuel, rfl⟩ := exists_eq_succ_of_ne_zero (show fuel ≠ 0 by omega)
    have hlen := h.length
    rw [pow_succ'] at h hlen hi
    have hsibling : sibling i < 2 * 2 ^ d := by
      unfold sibling
      split <;> omega
    rw [path, if_pos (by omega), siblings, ih (by omega) (by omega) h.pairUp, xor_one_eq_sibling, h]
    simp [hsibling]

end Merkle
