import Mathlib.Logic.Basic
import Mathlib.Data.Option.Basic

/-!
# Procedures that write in place

A procedure changes a state statement by statement and may fail half way; what it
wrote before stays written. One that equals an `update` or an `attempt` writes all that
a function computes, or nothing: it is `AllOrNothing`.
-/

/-- The result of a procedure or its error, and the state it leaves behind. -/
def Proc (ε σ α : Type) : Type := σ → Except ε α × σ

namespace Proc

variable {ε σ τ α β : Type}

instance : Monad (Proc ε σ) where
  pure a := fun s => (.ok a, s)
  bind p q := fun s =>
    match p s with
    | (.ok a, s') => q a s'
    | (.error e, s') => (.error e, s')

def fail (e : ε) : Proc ε σ α := fun s => (.error e, s)

/-- `if (c) { error = e; return false; }`. -/
def refuseWith (c : Prop) [Decidable c] (e : ε) : Proc ε σ Unit := if c then fail e else pure ()

/-- `if (c) return false;`. -/
def refuse (c : Prop) [Decidable c] : Proc Unit σ Unit := refuseWith c ()

/-- The result of a computation that does not touch the state. -/
def compute : Except ε α → Proc ε σ α
  | .ok a => pure a
  | .error e => fail e

/-- An optional value that has to be there. -/
def need (o : Option α) : Proc Unit σ α := compute (o.elim (.error ()) .ok)

def read (f : σ → α) : Proc ε σ α := fun s => (.ok (f s), s)

/-- A value of the state that has to be there. -/
def lookup (f : σ → Option α) : Proc Unit σ α := fun s => need (f s) s

def write (f : σ → σ) : Proc ε σ Unit := fun s => (.ok (), f s)

/-- A procedure on a part of the state. -/
def zoom (get : σ → τ) (set : σ → τ → σ) (p : Proc ε τ α) : Proc ε σ α := fun s =>
  ((p (get s)).1, set s (p (get s)).2)

/-- Write what a function gives, or nothing. -/
def update (f : σ → Except ε σ) : Proc ε σ Unit := fun s =>
  match f s with
  | .ok s' => (.ok (), s')
  | .error e => (.error e, s)

/-- Write what a function gives beside its result, or nothing. -/
def run (f : σ → Option (α × σ)) : Proc Unit σ α := fun s =>
  (f s).elim (.error (), s) fun x => (.ok x.1, x.2)

/-- The same for a function that gives the state alone. -/
def attempt (f : σ → Option σ) : Proc Unit σ Unit := run fun s => (f s).map ((), ·)

variable {p : Proc ε σ α} {q : α → Proc ε σ β}

theorem bind_of_ok {s s' : σ} {a : α} (h : p s = (.ok a, s')) : (p >>= q) s = q a s' := by
  show (match p s with | (.ok a, s') => q a s' | (.error e, s') => (.error e, s')) = _
  rw [h]

theorem bind_of_error {s s' : σ} {e : ε}
    (h : p s = (.error e, s')) : (p >>= q) s = (.error e, s') := by
  show (match p s with | (.ok a, s') => q a s' | (.error e, s') => (.error e, s')) = _
  rw [h]

@[simp] theorem read_bind (f : σ → α) (q : α → Proc ε σ β) (s : σ) :
    (read f >>= q) s = q (f s) s := rfl

@[simp] theorem write_bind (f : σ → σ) (q : Unit → Proc ε σ β) (s : σ) :
    (write f >>= q) s = q () (f s) := rfl

@[simp] theorem write_apply (f : σ → σ) (s : σ) : (write f : Proc ε σ Unit) s = (.ok (), f s) := rfl

theorem refuseWith_apply (c : Prop) [Decidable c] (e : ε) (s : σ) :
    (refuseWith c e : Proc ε σ Unit) s = if c then (.error e, s) else (.ok (), s) := by
  unfold refuseWith
  split <;> rfl

theorem refuseWith_bind (c : Prop) [Decidable c] (e : ε) (q : Unit → Proc ε σ β) (s : σ) :
    (refuseWith c e >>= q) s = if c then (.error e, s) else q () s := by
  unfold refuseWith
  split <;> rfl

theorem refuse_bind (c : Prop) [Decidable c] (q : Unit → Proc Unit σ β) (s : σ) :
    (refuse c >>= q) s = if c then (.error (), s) else q () s := refuseWith_bind c () q s

theorem need_bind (o : Option α) (q : α → Proc Unit σ β) (s : σ) :
    (need o >>= q) s = o.elim (.error (), s) fun a => q a s := by
  cases o <;> rfl

theorem lookup_bind (f : σ → Option α) (q : α → Proc Unit σ β) (s : σ) :
    (lookup f >>= q) s = (f s).elim (.error (), s) fun a => q a s :=
  need_bind (f s) q s

theorem zoom_run {get : σ → τ} {set : σ → τ → σ} (hset : ∀ s, set s (get s) = s)
    (f : τ → Option (α × τ)) :
    zoom get set (run f) = run fun s => (f (get s)).map fun x => (x.1, set s x.2) := by
  funext s
  simp only [zoom, run]
  cases f (get s) with
  | none => exact congrArg (Prod.mk _) (hset s)
  | some x => rfl

theorem zoom_attempt {get : σ → τ} {set : σ → τ → σ} (hset : ∀ s, set s (get s) = s)
    (f : τ → Option τ) : zoom get set (attempt f) = attempt fun s => (f (get s)).map (set s) := by
  simp only [attempt, zoom_run hset, Option.map_map]
  rfl

theorem run_bind (f : σ → Option (α × σ)) (q : α → Proc Unit σ β) (s : σ) :
    (run f >>= q) s = (f s).elim (.error (), s) fun x => q x.1 x.2 := by
  cases h : f s with
  | none => exact bind_of_error (by rw [run, h]; rfl)
  | some x => exact bind_of_ok (by rw [run, h]; rfl)

theorem attempt_apply (f : σ → Option σ) (s : σ) :
    attempt f s = (f s).elim (.error (), s) fun s' => (.ok (), s') := by
  simp only [attempt, run]
  cases f s <;> rfl

theorem attempt_bind (f : σ → Option σ) (q : Unit → Proc Unit σ β) (s : σ) :
    (attempt f >>= q) s = (f s).elim (.error (), s) fun s' => q () s' := by
  rw [attempt, run_bind]
  cases f s <;> rfl

theorem discard_run (f : σ → Option (α × σ)) :
    (run f >>= fun _ => pure ()) = attempt fun s => (f s).map (·.2) := by
  funext s
  rw [run_bind, attempt_apply]
  cases f s <;> rfl

/-- After an update the state is the one the function gave. -/
theorem update_bind (f : σ → Except ε σ) (q : Unit → Proc ε σ β) (s : σ) :
    (update f >>= q) s = match f s with
      | .ok s' => q () s'
      | .error e => (.error e, s) := by
  cases h : f s with
  | ok s' => rw [bind_of_ok (show update f s = (.ok (), s') by rw [update, h])]
  | error e => rw [bind_of_error (show update f s = (.error e, s) by rw [update, h])]

/-! ## Failures -/

/-- A failure leaves the state as it was. -/
def AllOrNothing (p : Proc ε σ α) : Prop := ∀ s e, (p s).1 = .error e → (p s).2 = s

theorem allOrNothing_run (f : σ → Option (α × σ)) : AllOrNothing (run f) := by
  intro s
  unfold run
  cases f s with
  | none => exact fun _ _ => rfl
  | some x => exact fun e h => nomatch h

theorem allOrNothing_update (f : σ → Except ε σ) : AllOrNothing (update f) := by
  intro s
  unfold update
  split
  · exact fun e h => nomatch h
  · exact fun _ _ => rfl

end Proc
