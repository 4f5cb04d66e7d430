import Mathlib.Tactic.Ring
import Mathlib.Data.List.Range

/-!
# Counting in steps

The numbers congruent to `m` modulo `k` between two bounds, as a program computes
them: round the lower bound up, round the upper bound down, and count in steps.
-/
namespace Progression

open Int

variable {x : Int}

/-- The least number not below `x` in the class of `m` modulo `k`. -/
theorem round_up {m k : Int} (hk : 0 < k) (hmx : m ≤ x) :
    ∃ a : Nat, (if (x - m) % k ≠ 0 then x + (k - (x - m) % k) else x) = m + a * k ∧
      x ≤ m + a * k ∧ m + a * k < x + k := by
  have hdiv := mul_ediv_add_emod (x - m) k
  have hnn : 0 ≤ (x - m) / k := ediv_nonneg (by omega) (by omega)
  have hlt := emod_lt_of_pos (x - m) hk
  have hge := emod_nonneg (x - m) (by omega : k ≠ 0)
  split_ifs with hr
  · refine ⟨((x - m) / k).toNat + 1, ?_, ?_, ?_⟩ <;> push_cast <;>
      rw [toNat_of_nonneg hnn] <;> grind
  · refine ⟨((x - m) / k).toNat, ?_, ?_, ?_⟩ <;> rw [toNat_of_nonneg hnn] <;> grind

/-- The greatest number not above `x` in the class of `m` modulo `k`. -/
theorem round_down {m k : Int} (hk : 0 < k) (hmx : m ≤ x) :
    ∃ b : Nat, x - (x - m) % k = m + b * k ∧ m + b * k ≤ x ∧ x < m + b * k + k := by
  have hdiv := mul_ediv_add_emod (x - m) k
  have hnn : 0 ≤ (x - m) / k := ediv_nonneg (by omega) (by omega)
  have hlt := emod_lt_of_pos (x - m) hk
  have hge := emod_nonneg (x - m) (by omega : k ≠ 0)
  refine ⟨((x - m) / k).toNat, ?_, ?_, ?_⟩ <;> rw [toNat_of_nonneg hnn] <;> grind

/-- The values of a loop from `first` to `last` in steps of `k`. -/
def steps (first last k : Int) : List Nat :=
  (List.range (((last - first) / k).toNat + 1)).map (fun i : Nat => (first + i * k).toNat)

variable {m k a b : Nat}

theorem steps_eq (hk : 0 < k) (hab : a ≤ b) : steps ((m : Int) + a * k) ((m : Int) + b * k) k =
      (List.range (b - a + 1)).map (fun i => m + (a + i) * k) := by
  have hcount : ((m : Int) + b * k - (m + a * k)) / k = ((b - a : Nat) : Int) := by
    have : (m : Int) + b * k - (m + a * k) = ((b - a : Nat) : Int) * k := by
      rw [Nat.cast_sub hab]; ring
    rw [this, mul_ediv_cancel _ (by omega)]
  rw [steps, hcount, toNat_natCast]
  refine List.map_congr_left fun i _ => ?_
  have hcast : (m : Int) + a * k + i * k = ((m + (a + i) * k : Nat) : Int) := by
    push_cast; ring
  rw [hcast, toNat_natCast]

theorem steps_sorted (hk : 0 < k) (hab : a ≤ b) :
    (steps ((m : Int) + a * k) ((m : Int) + b * k) k).Pairwise (· < ·) := by
  rw [steps_eq hk hab, List.pairwise_map]
  refine List.pairwise_lt_range.imp fun {i j} hij => ?_
  have := Nat.mul_lt_mul_of_pos_right (show a + i < a + j by omega) hk
  omega

theorem mem_steps (hk : 0 < k) (hab : a ≤ b) {x : Nat} :
    x ∈ steps ((m : Int) + a * k) ((m : Int) + b * k) k ↔
      ∃ j, a ≤ j ∧ j ≤ b ∧ x = m + j * k := by
  rw [steps_eq hk hab, List.mem_map]
  constructor
  · rintro ⟨i, hi, rfl⟩
    have := List.mem_range.mp hi
    exact ⟨a + i, by omega, by omega, rfl⟩
  · rintro ⟨j, haj, hjb, rfl⟩
    refine ⟨j - a, List.mem_range.mpr (by omega), ?_⟩
    rw [Nat.add_sub_cancel' haj]

/-- The members of the class of `m` modulo `k` between `lo` and `hi`. -/
def window (m k lo hi : Int) : List Nat :=
  if lo > hi then []
  else
    let remainder := (lo - m) % k
    let first := if remainder ≠ 0 then lo + (k - remainder) else lo
    if first > hi then [] else steps first (hi - (hi - m) % k) k

/-- Neighbours of a progression are a whole step apart. -/
theorem le_of_step_lt (h : x + a * k < x + b * k + k) : a ≤ b := by
  by_contra hlt
  have := Int.mul_le_mul_of_nonneg_right (show ((b : Int) + 1) ≤ a by omega)
    (show (0 : Int) ≤ k by omega)
  rw [add_mul] at this
  omega

variable {lo : Int}

theorem window_cases (hk : 0 < k) (hi : Int) (hm : (m : Int) ≤ lo) :
    (window m k lo hi = [] ∧ ∀ j : Nat, lo ≤ m + j * k → ¬ (m : Int) + j * k ≤ hi) ∨
    ∃ a b : Nat, a ≤ b ∧ window m k lo hi = steps ((m : Int) + a * k) ((m : Int) + b * k) k ∧
      ∀ j : Nat, (lo ≤ m + j * k ↔ a ≤ j) ∧ ((m : Int) + j * k ≤ hi ↔ j ≤ b) := by
  have mono : ∀ {i j : Nat}, i ≤ j → (i : Int) * k ≤ j * k := fun hij =>
    Int.mul_le_mul_of_nonneg_right (by omega) (by omega)
  simp only [window]
  by_cases hempty : lo > hi
  · exact .inl ⟨by rw [if_pos hempty], fun j hlo hhi => by omega⟩
  obtain ⟨a, ha, hlo, hhi⟩ := round_up (k := (k : Int)) (by omega) hm
  rw [if_neg hempty, ha]
  have hstart : ∀ j : Nat, lo ≤ m + j * k ↔ a ≤ j := by
    intro j
    constructor
    · intro hj
      exact le_of_step_lt (k := k) (x := m) (by omega)
    · intro hj
      have := mono hj
      omega
  by_cases hnone : (m : Int) + a * k > hi
  · refine .inl ⟨by rw [if_pos hnone], fun j hj hle => ?_⟩
    have := mono ((hstart j).mp hj)
    omega
  obtain ⟨b, hb, hblo, hbhi⟩ := round_down (m := (m : Int)) (x := hi) (k := (k : Int)) (by omega)
    (by omega)
  have hend : ∀ j : Nat, (m : Int) + j * k ≤ hi ↔ j ≤ b := by
    intro j
    constructor
    · intro hj
      exact le_of_step_lt (k := k) (x := m) (by omega)
    · intro hj
      have := mono hj
      omega
  refine .inr ⟨a, b, (hend a).mp (by omega), ?_, fun j => ⟨hstart j, hend j⟩⟩
  rw [if_neg hnone, hb]

theorem window_sorted (hk : 0 < k) {hi : Int} (hm : (m : Int) ≤ lo) :
    (window m k lo hi).Pairwise (· < ·) := by
  rcases window_cases hk hi hm with ⟨h, _⟩ | ⟨a, b, hab, h, _⟩
  · rw [h]
    exact List.Pairwise.nil
  · rw [h]
    exact steps_sorted hk hab

theorem mem_window (hk : 0 < k) {hi : Int} (hm : (m : Int) ≤ lo) {x : Nat} :
    x ∈ window m k lo hi ↔ ∃ j, x = m + j * k ∧ lo ≤ x ∧ (x : Int) ≤ hi := by
  have cast : ∀ j : Nat, ((m + j * k : Nat) : Int) = m + j * k := fun j => by push_cast; rfl
  rcases window_cases hk hi hm with ⟨h, hnone⟩ | ⟨a, b, hab, h, hj⟩
  · rw [h]
    refine ⟨fun hx => absurd hx (by simp), ?_⟩
    rintro ⟨j, rfl, hlo, hhi⟩
    exact absurd hhi (hnone j hlo)
  · rw [h, mem_steps hk hab]
    constructor
    · rintro ⟨j, haj, hjb, rfl⟩
      exact ⟨j, rfl, by rw [cast]; exact (hj j).1.mpr haj, by rw [cast]; exact (hj j).2.mpr hjb⟩
    · rintro ⟨j, rfl, hlo, hhi⟩
      exact ⟨j, (hj j).1.mp hlo, (hj j).2.mp hhi, rfl⟩

end Progression
