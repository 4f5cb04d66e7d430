import Mathlib.Data.List.TakeWhile
import Mathlib.Order.Lattice

/-!
# The changes of a value over time

A value that changes at some times is kept as the list of its changes, latest
first. The value at a time is that of the latest change by then. The first time
at which a flag is up is the time asked for or that of a change.
-/
namespace ChangeLog

open List

variable {α τ : Type*} [LinearOrder τ]

/-- The value at time `t`; before the first change it is `start`. -/
def valueAt (start : α) (log : List (τ × α)) (t : τ) : α :=
  (log.find? fun e => decide (e.1 ≤ t)).elim start (·.2)

/-- Later changes come first. -/
def Sorted (log : List (τ × α)) : Prop := log.Pairwise fun a b => b.1 < a.1

section Value

variable {start v : α} {log : List (τ × α)} {s t : τ}

theorem valueAt_cons_of_lt (h : t < s) : valueAt start ((s, v) :: log) t = valueAt start log t := by
  unfold valueAt
  rw [find?_cons_of_neg (by simpa using h)]

theorem valueAt_cons_of_le (h : s ≤ t) : valueAt start ((s, v) :: log) t = v := by
  unfold valueAt
  rw [find?_cons_of_pos (by simpa using h)]
  rfl

theorem Sorted.valueAt_self (h : Sorted log) (hmem : (t, v) ∈ log) : valueAt start log t = v := by
  induction log with
  | nil => cases hmem
  | cons e log ih =>
    obtain ⟨hlater, hrest⟩ := pairwise_cons.mp h
    rcases mem_cons.mp hmem with rfl | hmem
    · exact valueAt_cons_of_le le_rfl
    · exact (valueAt_cons_of_lt (hlater _ hmem)).trans (ih hrest hmem)

/-- Between two times the value stays, or the latest change by the second time is a later one. -/
theorem valueAt_eq_or (start : α) (log : List (τ × α)) (hst : s ≤ t) :
    valueAt start log t = valueAt start log s ∨
    ∃ e ∈ log, s < e.1 ∧ e.1 ≤ t ∧ valueAt start log t = e.2 := by
  induction log with
  | nil => exact .inl rfl
  | cons e log ih =>
    by_cases ht : e.1 ≤ t
    · by_cases hs : e.1 ≤ s
      · exact .inl ((valueAt_cons_of_le ht).trans (valueAt_cons_of_le hs).symm)
      · exact .inr ⟨e, mem_cons_self, not_le.mp hs, ht, valueAt_cons_of_le ht⟩
    · have hs : ¬ e.1 ≤ s := fun hs => ht (hs.trans hst)
      rcases ih with heq | ⟨e', hmem, hse, het, heq⟩
      · refine .inl ?_
        exact (valueAt_cons_of_lt (not_le.mp ht)).trans
          (heq.trans (valueAt_cons_of_lt (not_le.mp hs)).symm)
      · exact .inr ⟨e', mem_cons_of_mem _ hmem, hse, het,
          (valueAt_cons_of_lt (not_le.mp ht)).trans heq⟩

end Value

/-! ## The first time a flag is up -/

variable {log : List (τ × Bool)} {t₀ t : τ}

/-- The earliest change after `t₀` that puts the flag up. -/
def nextUp (log : List (τ × Bool)) (t₀ : τ) : Option (τ × Bool) :=
  (log.takeWhile fun e => decide (t₀ < e.1)).reverse.find? (·.2)

theorem Sorted.mem_takeWhile (h : Sorted log) {e : τ × Bool} :
    e ∈ log.takeWhile (fun e => decide (t₀ < e.1)) ↔ e ∈ log ∧ t₀ < e.1 := by
  induction log with
  | nil => simp
  | cons x log ih =>
    obtain ⟨hlater, hrest⟩ := pairwise_cons.mp h
    by_cases hx : t₀ < x.1
    · rw [takeWhile_cons_of_pos (by simpa using hx), mem_cons, mem_cons, ih hrest]
      constructor
      · rintro (rfl | ⟨hmem, hlt⟩)
        · exact ⟨.inl rfl, hx⟩
        · exact ⟨.inr hmem, hlt⟩
      · rintro ⟨rfl | hmem, hlt⟩
        · exact .inl rfl
        · exact .inr ⟨hmem, hlt⟩
    · rw [takeWhile_cons_of_neg (by simpa using hx)]
      refine ⟨nofun, ?_⟩
      rintro ⟨hmem, hlt⟩
      rcases mem_cons.mp hmem with rfl | hmem
      · exact absurd hlt hx
      · exact absurd (hlt.trans (hlater e hmem)) hx

theorem Sorted.nextUp_some (h : Sorted log) {e : τ × Bool} (hnext : nextUp log t₀ = some e) :
    e ∈ log ∧ t₀ < e.1 ∧ e.2 = true ∧
      ∀ e' ∈ log, t₀ < e'.1 → e'.2 = true → e.1 ≤ e'.1 := by
  obtain ⟨hup, before, after, hsplit, hdown⟩ := find?_eq_some_iff_append.mp hnext
  have hmem : e ∈ log.takeWhile (fun e => decide (t₀ < e.1)) :=
    mem_reverse.mp (hsplit ▸ by simp)
  obtain ⟨hlog, hlt⟩ := h.mem_takeWhile.mp hmem
  refine ⟨hlog, hlt, hup, fun e' hlog' hlt' hup' => ?_⟩
  have hmem' := mem_reverse.mpr (h.mem_takeWhile.mpr ⟨hlog', hlt'⟩)
  have hsorted : ((log.takeWhile fun e => decide (t₀ < e.1)).reverse).Pairwise
      fun a b => a.1 < b.1 :=
    pairwise_reverse.mpr (h.sublist (takeWhile_sublist _))
  rw [hsplit] at hmem' hsorted
  rcases mem_append.mp hmem' with hbefore | hafter
  · have hdown' := hdown e' hbefore
    simp [hup'] at hdown'
  · obtain ⟨-, hrest, -⟩ := pairwise_append.mp hsorted
    rcases mem_cons.mp hafter with rfl | hafter
    · exact le_rfl
    · exact ((pairwise_cons.mp hrest).1 e' hafter).le

theorem Sorted.nextUp_none (h : Sorted log) (hnext : nextUp log t₀ = none) :
    ∀ e ∈ log, t₀ < e.1 → e.2 = false := by
  intro e hlog hlt
  have hmem := mem_reverse.mpr (h.mem_takeWhile.mpr ⟨hlog, hlt⟩)
  simpa using find?_eq_none.mp hnext e hmem

/-- The first time from `t₀` on at which the flag is up. -/
def firstUp (log : List (τ × Bool)) (t₀ : τ) : Option τ :=
  if valueAt false log t₀ then some t₀ else (nextUp log t₀).map (·.1)

theorem Sorted.firstUp_some (h : Sorted log) (hfirst : firstUp log t₀ = some t) :
    t₀ ≤ t ∧ valueAt false log t = true ∧ ∀ s, t₀ ≤ s → s < t → valueAt false log s = false := by
  unfold firstUp at hfirst
  split_ifs at hfirst with hstart
  · cases hfirst
    exact ⟨le_rfl, hstart, fun s hs hlt => absurd hs (not_le.mpr hlt)⟩
  · obtain ⟨e, hnext, rfl⟩ := Option.map_eq_some_iff.mp hfirst
    obtain ⟨hlog, hlt, hup, hleast⟩ := h.nextUp_some hnext
    refine ⟨hlt.le, (h.valueAt_self hlog).trans hup, fun s hs hse => ?_⟩
    rcases valueAt_eq_or false log hs with heq | ⟨e', hlog', hlt', hle', heq⟩
    · rw [heq]
      simpa using hstart
    · rw [heq, Bool.eq_false_iff]
      intro hup'
      exact absurd (hleast e' hlog' hlt' hup') (not_le.mpr (hle'.trans_lt hse))

theorem Sorted.firstUp_none (h : Sorted log) (hfirst : firstUp log t₀ = none) :
    ∀ s, t₀ ≤ s → valueAt false log s = false := by
  unfold firstUp at hfirst
  split_ifs at hfirst with hstart
  intro s hs
  have hnext := Option.map_eq_none_iff.mp hfirst
  rcases valueAt_eq_or false log hs with heq | ⟨e, hlog, hlt, -, heq⟩
  · rw [heq]
    simpa using hstart
  · rw [heq]
    exact h.nextUp_none hnext e hlog hlt

end ChangeLog
