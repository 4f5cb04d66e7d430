import B3Coin.Lib.OrderedMap

/-!
# A map and its inverse index

Holders have records, a record may hold a key, and a second map names the holder
of every key. The index is determined by the map, so restoring the map restores
the index as soon as both are inverse again.
-/
namespace InverseIndex

open OrderedMap

variable {κ ρ π : Type*} [LinearOrder κ] [LinearOrder π]

/-- `owner` names the holder of every key held, and nothing else. -/
def Inverse (key : ρ → Option π) (m : OrderedMap κ ρ) (owner : OrderedMap π κ) : Prop :=
  ∀ p k, owner.find? p = some k ↔ ∃ r, m.find? k = some r ∧ key r = some p

/-- Give up a key. -/
def release (owner : OrderedMap π κ) : Option π → OrderedMap π κ
  | none => owner
  | some p => owner.erase p

/-- Take a key. -/
def claim (owner : OrderedMap π κ) (k : κ) : Option π → OrderedMap π κ
  | none => owner
  | some p => owner.insert p k

variable {key : ρ → Option π} {m : OrderedMap κ ρ} {owner owner' : OrderedMap π κ}

theorem inverse_empty : Inverse key (∅ : OrderedMap κ ρ) (∅ : OrderedMap π κ) := by
  intro p k
  simp

theorem Inverse.unique (h : Inverse key m owner) (h' : Inverse key m owner') : owner = owner' := by
  refine ext_find? fun p => Option.ext fun k => ?_
  exact (h p k).trans (h' p k).symm

theorem Inverse.holder_unique (h : Inverse key m owner) {p : π} {k k' : κ} {r r' : ρ}
    (hk : m.find? k = some r) (hr : key r = some p) (hk' : m.find? k' = some r')
    (hr' : key r' = some p) : k = k' := by
  have h1 := (h p k).mpr ⟨r, hk, hr⟩
  have h2 := (h p k').mpr ⟨r', hk', hr'⟩
  rw [h1] at h2
  exact Option.some.inj h2

theorem Inverse.find?_eq_none (h : Inverse key m owner) {p : π} :
    owner.find? p = none ↔ ∀ k r, m.find? k = some r → key r ≠ some p := by
  rw [Option.eq_none_iff_forall_ne_some]
  exact ⟨fun hn k r hk hr => hn k ((h p k).mpr ⟨r, hk, hr⟩),
    fun hn k hk => by
      obtain ⟨r, hr, hp⟩ := (h p k).mp hk
      exact hn k r hr hp⟩

omit [LinearOrder κ] in
theorem find?_release (owner : OrderedMap π κ) (q : Option π) (p : π) :
    (release owner q).find? p = if q = some p then none else owner.find? p := by
  cases q with
  | none => simp [release]
  | some q =>
    rw [release, find?_erase]
    simp [eq_comm]

omit [LinearOrder κ] in
theorem find?_claim (owner : OrderedMap π κ) (k : κ) (q : Option π) (p : π) :
    (claim owner k q).find? p = if q = some p then some k else owner.find? p := by
  cases q with
  | none => simp [claim]
  | some q =>
    rw [claim, find?_insert]
    simp [eq_comm]

/-- A holder leaves and gives up its key. -/
theorem Inverse.erase (h : Inverse key m owner) {k : κ} {r : ρ} (hk : m.find? k = some r) :
    Inverse key (m.erase k) (release owner (key r)) := by
  intro p k'
  rw [find?_release, find?_erase]
  by_cases hp : key r = some p
  · rw [if_pos hp]
    refine ⟨fun hn => (nomatch hn), ?_⟩
    rintro ⟨r', hr', hp'⟩
    by_cases hkk : k' = k
    · simp [hkk] at hr'
    · rw [if_neg hkk] at hr'
      exact absurd (h.holder_unique hr' hp' hk hp) hkk
  · rw [if_neg hp, h p k']
    by_cases hkk : k' = k
    · subst hkk
      simp [hk, hp]
    · rw [if_neg hkk]

theorem Inverse.insert (h : Inverse key m owner) {k : κ} (hk : m.find? k = none) {r : ρ}
    (hfree : ∀ p, key r = some p → owner.find? p = none) :
    Inverse key (m.insert k r) (claim owner k (key r)) := by
  intro p k'
  rw [find?_claim, find?_insert]
  by_cases hp : key r = some p
  · rw [if_pos hp]
    have hnone := h.find?_eq_none.mp (hfree p hp)
    by_cases hkk : k' = k
    · simp [hkk, hp]
    · rw [if_neg hkk, Option.some.injEq]
      refine ⟨fun heq => absurd heq.symm hkk, ?_⟩
      rintro ⟨r', hr', hp'⟩
      exact absurd hp' (hnone k' r' hr')
  · rw [if_neg hp, h p k']
    by_cases hkk : k' = k
    · subst hkk
      simp [hk, hp]
    · rw [if_neg hkk]

end InverseIndex
