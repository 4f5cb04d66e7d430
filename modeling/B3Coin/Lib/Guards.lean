import Mathlib.Data.List.Basic
import Mathlib.Data.List.Induction
import Mathlib.Data.List.Nodup

/-!
# Guarded operations

A function that refuses its input on the first of several conditions is a list
of guards in source order, each with the refusal it stands for, followed by the
effect. `first` finds the refusal; `run` performs the effect when there is none.
Where values are bound between the conditions, the same is written with `reject` and
`demand`, and a loop with accumulators as `loop`.
-/
namespace Guards

open List

variable {ε α : Type*}

def first (guards : List (Bool × ε)) : Option ε := (guards.find? (·.1)).map (·.2)

def run (guards : List (Bool × ε)) (effect : Except ε α) : Except ε α :=
  match first guards with
  | some e => .error e
  | none => effect

variable {guards : List (Bool × ε)}

theorem first_eq_none : first guards = none ↔ ∀ g ∈ guards, g.1 = false := by
  simp [first, find?_eq_none]

@[simp] theorem first_nil : first ([] : List (Bool × ε)) = none := rfl

@[simp] theorem first_cons (b : Bool) (e : ε) (guards : List (Bool × ε)) :
    first ((b, e) :: guards) = if b then some e else first guards := by
  cases b <;> simp [first]

variable {e : ε}

theorem mem_of_first (h : first guards = some e) : ∃ g ∈ guards, g.2 = e := by
  obtain ⟨g, hg, he⟩ := Option.map_eq_some_iff.mp h
  exact ⟨g, mem_of_find?_eq_some hg, he⟩

theorem run_eq_ok {effect : Except ε α} {a : α} :
    run guards effect = .ok a ↔ (∀ g ∈ guards, g.1 = false) ∧ effect = .ok a := by
  rw [← first_eq_none]
  unfold run
  cases first guards <;> simp

/-- A default outcome that no guard has stands for "no guard fired". -/
theorem first_getD_eq {d : ε} (hd : ∀ g ∈ guards, g.2 ≠ d) :
    (first guards).getD d = d ↔ ∀ g ∈ guards, g.1 = false := by
  rw [← first_eq_none]
  cases hf : first guards with
  | none => simp
  | some e =>
    obtain ⟨g, hg, he⟩ := mem_of_first hf
    have := hd g hg
    simp only [Option.getD_some, reduceCtorEq, iff_false]
    exact fun h => this (he.trans h)

/-! ## Conditions between bound values -/

/-- `if (c) { error = e; return false; }`. -/
def reject (c : Prop) [Decidable c] (e : ε) : Except ε Unit := if c then .error e else .ok ()

/-- A value that has to be there. -/
def demand (o : Option α) (e : ε) : Except ε α := o.elim (.error e) .ok

theorem reject_eq_ok {c : Prop} [Decidable c] {u : Unit} : reject c e = .ok u ↔ ¬ c := by
  unfold reject
  split <;> simp_all

theorem reject_congr {c c' : Prop} [Decidable c] [Decidable c'] (h : c ↔ c') (e : ε) :
    reject c e = reject c' e := by
  simp only [reject, h]

theorem demand_eq_ok {o : Option α} {a : α} : demand o e = .ok a ↔ o = some a := by
  cases o <;> simp [demand]

variable {β : Type*} {x : Except ε α} {f : α → Except ε β} {b : β}

theorem bind_eq_ok : x.bind f = .ok b ↔ ∃ a, x = .ok a ∧ f a = .ok b := by
  cases x <;> simp [Except.bind]

theorem map_eq_ok {f : α → β} : x.map f = .ok b ↔ ∃ a, x = .ok a ∧ f a = b := by
  cases x <;> simp [Except.map]

theorem toOption_eq_some {a : α} : x.toOption = some a ↔ x = .ok a := by
  cases x <;> simp [Except.toOption]

variable {xs : List α}

theorem mapM_eq_ok {ys : List β} :
    xs.mapM f = .ok ys ↔ List.Forall₂ (fun x y => f x = .ok y) xs ys := by
  induction xs generalizing ys with
  | nil =>
    rw [mapM_nil, forall₂_nil_left_iff]
    exact ⟨fun h => by cases h; rfl, fun h => by rw [h]; rfl⟩
  | cons x xs ih =>
    rw [mapM_cons, forall₂_cons_left_iff]
    constructor
    · intro h
      obtain ⟨y, hy, h⟩ := bind_eq_ok.mp h
      obtain ⟨rest, hrest, h⟩ := bind_eq_ok.mp h
      cases h
      exact ⟨y, rest, hy, ih.mp hrest, rfl⟩
    · rintro ⟨y, rest, hy, hrest, rfl⟩
      exact bind_eq_ok.mpr ⟨y, hy, bind_eq_ok.mpr ⟨rest, ih.mpr hrest, rfl⟩⟩

theorem foldlM_cons_eq_ok {f : β → α → Except ε β} {c : β} {x : α} :
    (x :: xs).foldlM f b = .ok c ↔ ∃ b', f b x = .ok b' ∧ xs.foldlM f b' = .ok c := by
  exact bind_eq_ok

variable {σ : Type*} {f : σ → α → Except ε σ}

/-- A loop that, seen through `view`, does what a pure loop does, under an invariant. -/
theorem foldlM_refines {τ : Type*} (inv : σ → Prop) (view : σ → τ) (g : τ → α → τ)
    (hstep : ∀ s x s', inv s → f s x = .ok s' → inv s' ∧ view s' = g (view s) x)
    {s s' : σ} (hs : inv s) (h : xs.foldlM f s = .ok s') :
    inv s' ∧ view s' = xs.foldl g (view s) := by
  induction xs generalizing s with
  | nil =>
    cases h
    exact ⟨hs, rfl⟩
  | cons x xs ih =>
    obtain ⟨s1, hx, h⟩ := foldlM_cons_eq_ok.mp h
    obtain ⟨hs1, hview⟩ := hstep s x s1 hs hx
    rw [foldl_cons, ← hview]
    exact ih hs1 h

/-- A loop whose steps are, seen through `view`, steps of another one. -/
theorem foldlM_maps {τ ε' : Type*} {g : τ → α → Except ε' τ} (view : σ → τ)
    (hstep : ∀ s x s', f s x = .ok s' → g (view s) x = .ok (view s')) {s s' : σ}
    (h : xs.foldlM f s = .ok s') : xs.foldlM g (view s) = .ok (view s') := by
  induction xs generalizing s with
  | nil =>
    cases h
    rfl
  | cons x xs ih =>
    obtain ⟨s1, hx, h⟩ := foldlM_cons_eq_ok.mp h
    exact foldlM_cons_eq_ok.mpr ⟨view s1, hstep s x s1 hx, ih h⟩

section

variable {x : Except ε Unit} {f : Unit → Except ε β}

theorem seq_eq_ok : x.bind f = .ok b ↔ x = .ok () ∧ f () = .ok b := by
  cases x <;> simp [Except.bind]

theorem of_seq (h : x.bind f = .ok b) : f () = .ok b :=
  (seq_eq_ok.mp h).2

end

/-! ## Two runs side by side -/

/-- Both fail with the same error, or both succeed with related results. -/
inductive Agree {β : Type*} (R : α → β → Prop) : Except ε α → Except ε β → Prop
  | error (e : ε) : Agree R (.error e) (.error e)
  | ok {a : α} {b : β} : R a b → Agree R (.ok a) (.ok b)

namespace Agree

variable {β γ δ : Type*} {R : α → β → Prop} {S : γ → δ → Prop}

theorem refl (x : Except ε α) : Agree Eq x x := by
  cases x with
  | error e => exact .error e
  | ok a => exact .ok rfl

variable {x : Except ε α} {y : Except ε β} {f : α → Except ε γ}

theorem bind {g : β → Except ε δ}
    (h : Agree R x y) (hf : ∀ a b, R a b → Agree S (f a) (g b)) : Agree S (x.bind f) (y.bind g) := by
  cases h with
  | error e => exact .error e
  | ok hab => exact hf _ _ hab

theorem bind_same {g : α → Except ε δ}
    (hf : ∀ a, Agree S (f a) (g a)) : Agree S (x.bind f) (x.bind g) := by
  cases x with
  | error e => exact .error e
  | ok a => exact hf a

theorem demand_map (o : Option α) (f : α → β) (e : ε) :
    Agree (fun a b => b = f a) (demand o e) (demand (o.map f) e) := by
  cases o with
  | none => exact .error e
  | some a => exact .ok rfl

theorem map {f : α → γ} {g : β → δ} (h : Agree R x y)
    (hf : ∀ a b, R a b → S (f a) (g b)) : Agree S (x.map f) (y.map g) := by
  cases h with
  | error e => exact .error e
  | ok hab => exact .ok (hf _ _ hab)

/-- Agreement on the graph of a function is an equation. -/
theorem eq_map {f : α → β} (h : Agree (fun a b => b = f a) x y) : y = x.map f := by
  cases h with
  | error e => rfl
  | ok hab => rw [hab]; rfl

/-- Two loops over one list whose rounds agree. -/
theorem foldlM {f : α → γ → Except ε α} {g : β → γ → Except ε β}
    (hfg : ∀ a b x, R a b → Agree R (f a x) (g b x)) (xs : List γ) {a : α} {b : β} (h : R a b) :
    Agree R (xs.foldlM f a) (xs.foldlM g b) := by
  induction xs generalizing a b with
  | nil => exact .ok h
  | cons x xs ih =>
    exact (hfg a b x h).bind fun a' b' h' => ih h'

end Agree

/-! ## Loops -/

/-- A loop that fails at the first element its accumulator does not admit. -/
def loop {σ : Type*} (bad : σ → α → Bool) (next : σ → α → σ) (e : ε) : σ → List α → Except ε σ
  | acc, [] => .ok acc
  | acc, x :: rest => if bad acc x then .error e else loop bad next e (next acc x) rest

/-- The loop passes when no element is refused by what its predecessors leave. -/
theorem loop_eq_ok {bad : σ → α → Bool} {next : σ → α → σ} {s t : σ} :
    loop bad next e s xs = .ok t ↔
      t = xs.foldl next s ∧ ∀ pre x post, xs = pre ++ x :: post → bad (pre.foldl next s) x = false := by
  induction xs generalizing s with
  | nil =>
    rw [loop, Except.ok.injEq]
    exact ⟨fun h => ⟨h.symm, fun pre x post heq => by simp at heq⟩, fun h => h.1.symm⟩
  | cons x rest ih =>
    unfold loop
    split_ifs with hbad
    · simp only [false_iff, not_and, not_forall]
      intro _
      exact ⟨[], x, rest, rfl, by simp [hbad]⟩
    · rw [ih]
      refine and_congr Iff.rfl ⟨fun h pre y post heq => ?_, fun h pre y post heq => ?_⟩
      · cases pre with
        | nil =>
          cases heq
          exact Bool.eq_false_iff.mpr hbad
        | cons z pre =>
          cases heq
          exact h pre y post rfl
      · exact h (x :: pre) y post (by rw [heq]; rfl)

/-- A loop whose accumulators are read off the elements it has passed. -/
def scan (bad : List α → α → Bool) (e : ε) (xs : List α) : Except ε Unit :=
  (loop bad (fun seen x => seen ++ [x]) e [] xs).map fun _ => ()

theorem scan_eq_ok {bad : List α → α → Bool} {u : Unit} :
    scan bad e xs = .ok u ↔ ∀ pre x post, xs = pre ++ x :: post → bad pre x = false := by
  have hseen (pre : List α) : pre.foldl (fun seen x => seen ++ [x]) [] = pre := by
    induction pre using List.reverseRecOn with
    | nil => rfl
    | append_singleton pre x ih => rw [foldl_append, ih]; rfl
  unfold scan
  cases hl : loop bad (fun seen x => seen ++ [x]) e [] xs with
  | ok t =>
    have h := (loop_eq_ok.mp hl).2
    simp only [hseen] at h
    exact ⟨fun _ => h, fun _ => rfl⟩
  | error e' =>
    refine ⟨fun h => (by cases h), fun h => ?_⟩
    have hok : loop bad (fun seen x => seen ++ [x]) e [] xs = .ok _ :=
      loop_eq_ok.mpr ⟨rfl, fun pre x post heq => (hseen pre).symm ▸ h pre x post heq⟩
    rw [hl] at hok
    cases hok

/-! ## What holds at every split of a list -/

theorem forall_split_iff_mem {P : α → Prop} :
    (∀ pre x post, xs = pre ++ x :: post → P x) ↔ ∀ x ∈ xs, P x := by
  constructor
  · intro h x hx
    obtain ⟨pre, post, rfl⟩ := append_of_mem hx
    exact h pre x post rfl
  · rintro h pre x post rfl
    exact h x (by simp)

theorem forall_split_iff_nodup {κ : Type*} {key : α → κ} {xs : List α} :
    (∀ pre x post, xs = pre ++ x :: post → key x ∉ pre.map key) ↔ (xs.map key).Nodup := by
  induction xs using List.reverseRecOn with
  | nil => simp
  | append_singleton xs y ih =>
    rw [map_append, nodup_append', ← ih]
    constructor
    · intro h
      refine ⟨fun pre x post heq => h pre x (post ++ [y]) (by rw [heq]; simp), by simp, ?_⟩
      simpa [List.Disjoint] using h xs y [] rfl
    · rintro ⟨h, -, hy⟩ pre x post heq
      rcases eq_nil_or_concat post with rfl | ⟨post', z, rfl⟩
      · obtain ⟨rfl, hx⟩ := append_inj' heq rfl
        cases hx
        simpa [List.Disjoint] using hy
      · have hlast : xs ++ [y] = (pre ++ x :: post') ++ [z] := by simpa using heq
        exact h pre x post' (append_inj' hlast rfl).1

theorem forall_split_iff_nodup_self :
    (∀ pre x post, xs = pre ++ x :: post → x ∉ pre) ↔ xs.Nodup := by
  simpa using @forall_split_iff_nodup α α id xs

end Guards
