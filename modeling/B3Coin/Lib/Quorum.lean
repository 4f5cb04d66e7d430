import Mathlib.Tactic.Ring

/-!
# Quorums of a list of members

The signers are chosen by index. Two choices that each hold more than two thirds of
the total weight have more than a third of it in common.
-/
namespace Quorum

variable {α : Type*} {w : α → Nat} {p q : Nat → Bool} {l : List α}

/-- The members whose index is chosen. -/
def signed (p : Nat → Bool) (l : List α) : List α := (l.zipIdx.filter (p ·.2)).map (·.1)

theorem sum_filter_add_le (w : α → Nat) (p q : α → Bool) :
    ((l.filter p).map w).sum + ((l.filter q).map w).sum ≤
      (l.map w).sum + ((l.filter fun a => p a && q a).map w).sum := by
  induction l with
  | nil => simp
  | cons a l ih => cases hp : p a <;> cases hq : q a <;> simp [hp, hq] <;> omega

theorem third_lt (hp : (l.map w).sum * 2 / 3 < ((signed p l).map w).sum)
    (hq : (l.map w).sum * 2 / 3 < ((signed q l).map w).sum) :
    (l.map w).sum < 3 * ((signed (fun i => p i && q i) l).map w).sum := by
  have total : l.map w = l.zipIdx.map (w ·.1) := by
    conv_lhs => rw [← List.zipIdx_map_fst 0 l, List.map_map]
    rfl
  have hle := sum_filter_add_le (l := l.zipIdx) (w ·.1) (p ·.2) (q ·.2)
  simp only [signed, List.map_map, Function.comp_def, total] at *
  omega

theorem third_lt_length (hp : l.length * 2 / 3 < (signed p l).length)
    (hq : l.length * 2 / 3 < (signed q l).length) :
    l.length < 3 * (signed (fun i => p i && q i) l).length := by
  have hthird := third_lt (w := fun _ => 1) (l := l) (p := p) (q := q)
  simp only [List.map_const', List.sum_replicate_nat, Nat.mul_one] at hthird
  exact hthird hp hq

end Quorum
