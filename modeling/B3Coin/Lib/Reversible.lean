import B3Coin.Lib.Transition

/-!
# Runs of steps that can be taken back

A chain of blocks is connected and disconnected in any order. When a step back
always restores the state before the latest step, a run of both kinds ends in
the state that the steps still standing reach on their own. An invariant then
needs its step lemma for the forward steps alone.
-/
namespace Reversible

open Transition

variable {σ α δ : Type*}

/-- A step, or taking the latest one back. -/
inductive Move (α δ : Type*) where
  | forward (a : α)
  | back (d : δ)

section

variable (step : σ → α → Option σ) (undo : σ → δ → Option σ)

def act (s : σ) : Move α δ → Option σ
  | .forward a => step s a
  | .back d => undo s d

/-- The steps not taken back; both lists have the latest first. -/
def standing : List (Move α δ) → List α
  | [] => []
  | .forward a :: moves => a :: standing moves
  | .back _ :: moves => (standing moves).tail

/-- Nothing can be taken back at the start, and taking back is exact after every step. -/
structure Undoes (s₀ : σ) : Prop where
  start : ∀ d, undo s₀ d = none
  restores : ∀ {as : List α} {s t u : σ} {a : α} {d : δ}, Run step s₀ as s → step s a = some t →
    undo t d = some u → u = s

end

variable {step : σ → α → Option σ} {undo : σ → δ → Option σ} {s₀ s : σ}

variable {moves : List (Move α δ)}

theorem run_forward {t : σ} {a : α}
    (hrun : Run (act step undo) s₀ moves s) (hstep : step s a = some t) :
    Run (act step undo) s₀ (.forward a :: moves) t :=
  hrun.next hstep

theorem run_back {t : σ} {d : δ}
    (hrun : Run (act step undo) s₀ moves s) (hundo : undo s d = some t) :
    Run (act step undo) s₀ (.back d :: moves) t :=
  hrun.next hundo

/-- A step back leaves the run without its latest step. -/
theorem Undoes.run_undo (h : Undoes step undo s₀) {as : List α} {d : δ} {t : σ}
    (hrun : Run step s₀ as s) (hundo : undo s d = some t) : ∃ a, as = a :: as.tail ∧
      Run step s₀ as.tail t := by
  cases hrun with
  | start =>
    rw [h.start] at hundo
    cases hundo
  | @next as s' _ a hrun hstep =>
    refine ⟨a, rfl, ?_⟩
    rw [h.restores hrun hstep hundo]
    exact hrun

/-- Whatever was connected and disconnected on the way, only the standing steps count. -/
theorem Undoes.run_standing (h : Undoes step undo s₀)
    (hrun : Run (act step undo) s₀ moves s) : Run step s₀ (standing moves) s := by
  induction hrun with
  | start => exact .start
  | @next moves s t move _ hact ih =>
    cases move with
    | forward a => exact ih.next hact
    | back d => exact (h.run_undo ih hact).choose_spec.2

end Reversible
