import Mathlib.Logic.Relation

/-!
# Runs of a transition system

`Reach init step s` says that `s` ends some finite run: it starts in a state
satisfying `init` and every further state is a `step` of the one before. `Run`
keeps the labels of the steps, so that a condition on the run can be a condition
on its labels. Each comes with its invariant rule.
-/
namespace Transition

variable {σ : Type*} {init : σ → Prop} {step : σ → σ → Prop}

inductive Reach (init : σ → Prop) (step : σ → σ → Prop) : σ → Prop where
  | start {s : σ} : init s → Reach init step s
  | next {s t : σ} : Reach init step s → step s t → Reach init step t

/-- The invariant rule: true at the start and kept by every step. -/
theorem Reach.invariant {P : σ → Prop} (start : ∀ s, init s → P s)
    (keep : ∀ s t, P s → step s t → P t) {s : σ} (h : Reach init step s) : P s := by
  induction h with
  | start h => exact start _ h
  | next _ hstep ih => exact keep _ _ ih hstep

/-- A run of labelled steps, the latest label first. -/
inductive Run {α : Type*} (act : σ → α → Option σ) (s₀ : σ) : List α → σ → Prop where
  | start : Run act s₀ [] s₀
  | next {as : List α} {s t : σ} {a : α} : Run act s₀ as s → act s a = some t →
      Run act s₀ (a :: as) t

/-- Takes the actions one after the other, the last of the list first. -/
def exec {α : Type*} (act : σ → α → Option σ) (s₀ : σ) : List α → Option σ
  | [] => some s₀
  | a :: as => (exec act s₀ as).bind (act · a)

variable {α : Type*} {act : σ → α → Option σ} {s₀ : σ} {as : List α}

theorem run_of_exec {t : σ} (h : exec act s₀ as = some t) : Run act s₀ as t := by
  induction as generalizing t with
  | nil =>
    cases h
    exact .start
  | cons a as ih =>
    obtain ⟨s, hs, hact⟩ := Option.bind_eq_some_iff.mp h
    exact (ih hs).next hact

theorem Run.trans {s t : σ} {bs : List α}
    (h : Run act s₀ as s) (h' : Run act s bs t) : Run act s₀ (bs ++ as) t := by
  induction h' with
  | start => exact h
  | next _ hact ih => exact ih.next hact

theorem Run.unique {s t : σ} (h : Run act s₀ as s) (h' : Run act s₀ as t) : s = t := by
  induction h generalizing t with
  | start =>
    cases h'
    rfl
  | next _ hact ih =>
    cases h' with
    | next hrun hact' =>
      rw [← ih hrun, hact] at hact'
      exact Option.some.inj hact'

/-- The state in the middle of a run. -/
theorem Run.split {t : σ} {bs : List α}
    (h : Run act s₀ (bs ++ as) t) : ∃ s, Run act s₀ as s ∧ Run act s bs t := by
  induction bs generalizing t with
  | nil => exact ⟨t, h, .start⟩
  | cons b bs ih =>
    cases h with
    | next hrun hact =>
      obtain ⟨s, hfirst, hlast⟩ := ih hrun
      exact ⟨s, hfirst, hlast.next hact⟩

/-- The invariant rule for labelled runs; what holds may depend on the labels so far. -/
theorem Run.invariant {P : List α → σ → Prop}
    (start : P [] s₀) (keep : ∀ as s a t, P as s → act s a = some t → P (a :: as) t)
    {s : σ} (h : Run act s₀ as s) : P as s := by
  induction h with
  | start => exact start
  | next _ hact ih => exact keep _ _ _ _ ih hact

end Transition
