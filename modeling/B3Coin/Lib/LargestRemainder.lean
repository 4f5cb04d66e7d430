import Mathlib.Algebra.BigOperators.Group.List.Basic
import Mathlib.Algebra.Order.BigOperators.Group.List
import Mathlib.Data.Int.Order.Lemmas
import Mathlib.Data.List.Nodup
import Mathlib.Data.List.Sort
import Mathlib.Tactic.Linarith
import Mathlib.Tactic.Ring

/-!
# Largest-remainder apportionment

An amount is divided over weighted keys: everybody receives the floor of the exact
share, and the units left over go, one each, to the largest remainders. The
division is exact, nobody receives more than its weight, and a unit left over
always meets a positive remainder.
-/
namespace LargestRemainder

open List

variable {κ : Type*}

structure Quota (κ : Type*) where
  key : κ
  base : Int
  rem : Int
  deriving DecidableEq

/-- The exact share `w * volume / total`, split into quotient and remainder. -/
def quota (volume total : Int) (w : κ × Int) : Quota κ :=
  ⟨w.1, w.2 * volume / total, w.2 * volume % total⟩

/-- What the floors leave over. -/
def leftover (volume : Int) (qs : List (Quota κ)) : Int := volume - (qs.map (·.base)).sum

/-- The keys that receive one more unit: the first ones in the order `le`. -/
def lucky (le : Quota κ → Quota κ → Prop) [DecidableRel le] (volume : Int)
    (qs : List (Quota κ)) : List κ :=
  ((qs.insertionSort le).take (leftover volume qs).toNat).map (·.key)

def apportion [DecidableEq κ] (le : Quota κ → Quota κ → Prop) [DecidableRel le]
    (volume total : Int) (ws : List (κ × Int)) : List (κ × Int) :=
  let qs := ws.map (quota volume total)
  qs.map fun q => (q.key, if q.key ∈ lucky le volume qs then q.base + 1 else q.base)

/-! ## The units left over -/

variable {volume total : Int}

theorem quota_spec (volume total : Int) (w : κ × Int) :
    total * (quota volume total w).base + (quota volume total w).rem = w.2 * volume :=
  Int.mul_ediv_add_emod _ _

/-- The remainders are worth exactly the units left over. -/
theorem leftover_mul (volume : Int) {ws : List (κ × Int)} (hsum : (ws.map (·.2)).sum = total) :
    leftover volume (ws.map (quota volume total)) * total =
      ((ws.map (quota volume total)).map (·.rem)).sum := by
  have hall : ∀ l : List (κ × Int), total * ((l.map (quota volume total)).map (·.base)).sum +
      ((l.map (quota volume total)).map (·.rem)).sum = (l.map (·.2)).sum * volume := by
    intro l
    induction l with
    | nil => simp
    | cons w l ih =>
      have hw : total * (quota volume total w).base + (quota volume total w).rem = w.2 * volume :=
        quota_spec volume total w
      simp only [map_cons, sum_cons]
      linarith
  have h := hall ws
  rw [hsum] at h
  unfold leftover
  linarith

theorem sum_rem_lt {l : List Int} (hl : l ≠ []) (hlt : ∀ x ∈ l, x < total) :
    l.sum < l.length * total := by
  induction l with
  | nil => exact absurd rfl hl
  | cons x l ih =>
    have hx := hlt x (by simp)
    rcases eq_or_ne l [] with rfl | hne
    · simpa using hx
    · have := ih hne fun y hy => hlt y (by simp [hy])
      simp only [sum_cons, length_cons, Nat.cast_succ]
      linarith

/-- In decreasing order, as many leading remainders are positive as the sum has units. -/
theorem take_pos (total : Int) : ∀ {l : List Int} {k : Nat}, l.Pairwise (fun a b => b ≤ a) →
    (∀ x ∈ l, 0 ≤ x ∧ x < total) → k * total < l.sum + total → ∀ x ∈ l.take k, 0 < x
  | [], _, _, _, _ => by simp
  | _ :: _, 0, _, _, _ => by simp
  | y :: l, k + 1, hs, hb, hk => by
    obtain ⟨hhead, htail⟩ := pairwise_cons.mp hs
    have hy := hb y (by simp)
    have hrest : ∀ x ∈ l, 0 ≤ x ∧ x < total := fun x hx => hb x (by simp [hx])
    simp only [sum_cons, Nat.cast_succ] at hk
    intro x hx
    rcases mem_cons.mp (by simpa using hx) with rfl | hx
    · by_contra hneg
      have hzero : ∀ x ∈ l, x = 0 := fun x hx => by
        have := hhead x hx
        have := (hrest x hx).1
        omega
      have : l.sum = 0 := sum_eq_zero hzero
      nlinarith
    · exact take_pos total htail hrest (by nlinarith) x hx

section Apportion

variable {le : Quota κ → Quota κ → Prop} [DecidableRel le] {ws : List (κ × Int)}

theorem rem_bounds (volume : Int) (htotal : 0 < total) {x : Int}
    (hx : x ∈ (ws.map (quota volume total)).map (·.rem)) : 0 ≤ x ∧ x < total := by
  simp only [map_map, mem_map, Function.comp_apply] at hx
  obtain ⟨w, _, rfl⟩ := hx
  exact ⟨Int.emod_nonneg _ (ne_of_gt htotal), Int.emod_lt_of_pos _ htotal⟩

theorem leftover_bounds (volume : Int) (htotal : 0 < total) (hsum : (ws.map (·.2)).sum = total) :
    0 ≤ leftover volume (ws.map (quota volume total)) ∧
      leftover volume (ws.map (quota volume total)) < ws.length := by
  have hmul := leftover_mul volume hsum
  have hb : ∀ x ∈ (ws.map (quota volume total)).map (·.rem), 0 ≤ x ∧ x < total :=
    fun x hx => rem_bounds volume htotal hx
  have hne : (ws.map (quota volume total)).map (·.rem) ≠ [] := by
    intro h
    simp only [map_eq_nil_iff] at h
    simp only [h, map_nil, sum_nil] at hsum
    omega
  have hnn := sum_nonneg fun x hx => (hb x hx).1
  have hlt := sum_rem_lt hne fun x hx => (hb x hx).2
  simp only [length_map] at hlt
  constructor
  · nlinarith
  · nlinarith

/-- There are as many lucky keys as units left over. -/
theorem lucky_length (htotal : 0 < total) (hsum : (ws.map (·.2)).sum = total) :
    ((lucky le volume (ws.map (quota volume total))).length : Int) =
      leftover volume (ws.map (quota volume total)) := by
  obtain ⟨hlo, hhi⟩ := leftover_bounds volume htotal hsum
  simp only [lucky, length_map, length_take, length_insertionSort]
  omega

variable [DecidableEq κ]

@[simp] theorem apportion_keys (ws : List (κ × Int)) :
    (apportion le volume total ws).map (·.1) = ws.map (·.1) := by
  simp [apportion, quota, Function.comp_def]

/-- Nothing is lost and nothing is created. -/
theorem apportion_sum (htotal : 0 < total) (hsum : (ws.map (·.2)).sum = total)
    (hnd : (ws.map (·.1)).Nodup) : ((apportion le volume total ws).map (·.2)).sum = volume := by
  have hcount : ∀ (L : List κ) (qs : List (Quota κ)),
      (qs.map fun q => if q.key ∈ L then q.base + 1 else q.base).sum =
        (qs.map (·.base)).sum + (qs.filter (fun q => decide (q.key ∈ L))).length := by
    intro L qs
    induction qs with
    | nil => simp
    | cons q qs ih =>
      simp only [map_cons, sum_cons, ih, filter_cons, decide_eq_true_eq]
      split_ifs
      · simp only [length_cons, Nat.cast_succ]
        ring
      · ring
  have hkeys : (ws.map (quota volume total)).map (·.key) = ws.map (·.1) := by
    simp [quota, Function.comp_def]
  have hsorted := (perm_insertionSort le (ws.map (quota volume total))).map (·.key)
  have hndsort : (((ws.map (quota volume total)).insertionSort le).map (·.key)).Nodup :=
    hsorted.nodup_iff.mpr (hkeys ▸ hnd)
  have hluckynd : (lucky le volume (ws.map (quota volume total))).Nodup := by
    unfold lucky
    rw [map_take]
    exact hndsort.sublist (take_sublist _ _)
  have hperm : (((ws.map (quota volume total)).filter
      (fun q => decide (q.key ∈ lucky le volume (ws.map (quota volume total))))).map (·.key)).Perm
      (lucky le volume (ws.map (quota volume total))) := by
    refine (perm_ext_iff_of_nodup ?_ hluckynd).mpr fun k => ?_
    · exact (hkeys ▸ hnd).sublist (filter_sublist.map _)
    · constructor
      · intro hk
        obtain ⟨q, hq, rfl⟩ := mem_map.mp hk
        simpa using (mem_filter.mp hq).2
      · intro hk
        obtain ⟨q, hq, rfl⟩ := mem_map.mp hk
        have hmem := (mem_insertionSort le).mp (mem_of_mem_take hq)
        exact mem_map_of_mem (mem_filter.mpr ⟨hmem, by simpa using hk⟩)
  have hlen := hperm.length_eq
  simp only [length_map] at hlen
  have hval : (apportion le volume total ws).map (·.2) = (ws.map (quota volume total)).map
      fun q => if q.key ∈ lucky le volume (ws.map (quota volume total)) then q.base + 1
        else q.base := by
    simp [apportion, Function.comp_def]
  rw [hval, hcount, hlen, lucky_length htotal hsum, leftover]
  ring

variable [Std.Total le] [IsTrans _ le]

omit [DecidableEq κ] in
/-- A unit left over goes to a key with a positive remainder. -/
theorem lucky_pos (hle : ∀ a b, le a b → b.rem ≤ a.rem) (htotal : 0 < total)
    (hsum : (ws.map (·.2)).sum = total) {q : Quota κ}
    (hq : q ∈ ((ws.map (quota volume total)).insertionSort le).take
      (leftover volume (ws.map (quota volume total))).toNat) : 0 < q.rem := by
  have hperm := (perm_insertionSort le (ws.map (quota volume total))).map (·.rem)
  refine take_pos total (l := ((ws.map (quota volume total)).insertionSort le).map (·.rem))
    (k := (leftover volume (ws.map (quota volume total))).toNat) ?_ ?_ ?_ q.rem ?_
  · exact pairwise_map.mpr ((pairwise_insertionSort le _).imp fun h => hle _ _ h)
  · intro x hx
    exact rem_bounds volume htotal (hperm.mem_iff.mp hx)
  · rw [hperm.sum_eq, Int.toNat_of_nonneg (leftover_bounds volume htotal hsum).1, leftover_mul volume hsum]
    omega
  · rw [← map_take]
    exact mem_map_of_mem hq

omit [IsTrans _ le] [Std.Total le] in
theorem mem_apportion {k : κ} {x : Int} (hx : (k, x) ∈ apportion le volume total ws) :
    ∃ w, (k, w) ∈ ws ∧ x = (quota volume total (k, w)).base +
      if k ∈ lucky le volume (ws.map (quota volume total)) then 1 else 0 := by
  simp only [apportion, mem_map] at hx
  obtain ⟨q, ⟨w, hw, rfl⟩, hk⟩ := hx
  obtain ⟨rfl, rfl⟩ := Prod.mk.inj hk
  refine ⟨w.2, hw, ?_⟩
  split_ifs
  · rfl
  · exact (add_zero _).symm

omit [DecidableEq κ] [IsTrans _ le] [Std.Total le] in
/-- A lucky key stands in the favoured part of the order with its own quota. -/
theorem quota_mem_take (hnd : (ws.map (·.1)).Nodup) {w : κ × Int} (hw : w ∈ ws)
    (hl : w.1 ∈ lucky le volume (ws.map (quota volume total))) :
    quota volume total w ∈ ((ws.map (quota volume total)).insertionSort le).take
      (leftover volume (ws.map (quota volume total))).toNat := by
  obtain ⟨q, hq, hqk⟩ := mem_map.mp hl
  have hqmem : q ∈ ws.map (quota volume total) :=
    (mem_insertionSort le).mp (mem_of_mem_take hq)
  obtain ⟨w', hw', rfl⟩ := mem_map.mp hqmem
  have hsame : w' = w := inj_on_of_nodup_map hnd hw' hw hqk
  rwa [hsame] at hq

section

variable (hle : ∀ a b, le a b → b.rem ≤ a.rem) (htotal : 0 < total)
  (hsum : (ws.map (·.2)).sum = total) (hnd : (ws.map (·.1)).Nodup)

include hle htotal hsum hnd

/-- Everybody receives the exact share, up to less than one unit. -/
theorem apportion_near {k : κ} {x : Int} (hx : (k, x) ∈ apportion le volume total ws) :
    ∃ w, (k, w) ∈ ws ∧ |x * total - w * volume| < total := by
  obtain ⟨w, hw, rfl⟩ := mem_apportion hx
  have hspec := quota_spec volume total (k, w)
  have hrem := rem_bounds volume htotal
    (mem_map_of_mem (f := (·.rem)) (mem_map_of_mem (f := quota volume total) hw))
  refine ⟨w, hw, ?_⟩
  rw [abs_lt]
  split_ifs with hl
  · have hpr := lucky_pos hle htotal hsum (quota_mem_take hnd hw hl)
    constructor <;> nlinarith
  · constructor <;> nlinarith

/-- Nobody receives more than its weight. -/
theorem apportion_le
    (hpos : ∀ w ∈ ws, 0 ≤ w.2) (hv : 0 ≤ volume) (hvt : volume ≤ total) {k : κ} {x : Int}
    (hx : (k, x) ∈ apportion le volume total ws) : ∃ w, (k, w) ∈ ws ∧ 0 ≤ x ∧ x ≤ w := by
  obtain ⟨w, hw, hnear⟩ := apportion_near hle htotal hsum hnd hx
  rw [abs_lt] at hnear
  have hw0 : 0 ≤ w := hpos (k, w) hw
  refine ⟨w, hw, ?_, ?_⟩
  · by_contra! hneg
    nlinarith
  · by_contra! hmore
    nlinarith

end

omit [DecidableEq κ] in
/-- Who is left out has no larger remainder than who is favoured. -/
theorem rem_le_of_lucky (hle : ∀ a b, le a b → b.rem ≤ a.rem) {qs : List (Quota κ)} {q q' : Quota κ}
    (hq : q ∈ (qs.insertionSort le).take (leftover volume qs).toNat) (hq' : q' ∈ qs)
    (hout : q'.key ∉ lucky le volume qs) : q'.rem ≤ q.rem := by
  have hsorted := pairwise_insertionSort le qs
  rw [← take_append_drop (leftover volume qs).toNat (qs.insertionSort le)] at hsorted
  have hmem := (mem_insertionSort le).mpr hq'
  rw [← take_append_drop (leftover volume qs).toNat (qs.insertionSort le)] at hmem
  rcases mem_append.mp hmem with hin | hin
  · exact absurd (mem_map_of_mem hin) hout
  · exact hle _ _ ((pairwise_append.mp hsorted).2.2 q hq q' hin)

/-- A larger weight never receives less. -/
theorem apportion_mono (hle : ∀ a b, le a b → b.rem ≤ a.rem) (htotal : 0 < total)
    (hnd : (ws.map (·.1)).Nodup) (hv : 0 < volume) {k k' : κ} {w w' x x' : Int}
    (hw : (k, w) ∈ ws) (hw' : (k', w') ∈ ws) (hlt : w < w')
    (hx : (k, x) ∈ apportion le volume total ws) (hx' : (k', x') ∈ apportion le volume total ws) :
    x ≤ x' := by
  have hown : ∀ {k : κ} {w x : Int}, (k, w) ∈ ws → (k, x) ∈ apportion le volume total ws →
      x = (quota volume total (k, w)).base +
        if k ∈ lucky le volume (ws.map (quota volume total)) then 1 else 0 := by
    intro k w x hw hx
    obtain ⟨u, hu, rfl⟩ := mem_apportion hx
    have hsame : u = w := congrArg Prod.snd (inj_on_of_nodup_map hnd hu hw rfl)
    rw [hsame]
  rw [hown hw hx, hown hw' hx']
  have hprod : w * volume < w' * volume := Int.mul_lt_mul_of_pos_right hlt hv
  have hbase : (quota volume total (k, w)).base ≤ (quota volume total (k', w')).base :=
    Int.ediv_le_ediv htotal hprod.le
  split_ifs with hl hl' hl'
  · omega
  · -- with equal floors the larger weight has the larger remainder
    rcases eq_or_lt_of_le hbase with heq | hless
    · have hrem := rem_le_of_lucky hle (quota_mem_take hnd hw hl) (mem_map_of_mem hw') hl'
      have hspec := quota_spec volume total (k, w)
      have hspec' := quota_spec volume total (k', w')
      rw [heq] at hspec
      dsimp only at hspec hspec'
      omega
    · omega
  · omega
  · omega

end Apportion

end LargestRemainder
