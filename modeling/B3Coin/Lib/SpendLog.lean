import Mathlib.Data.List.Induction
import B3Coin.Lib.OrderedMap

/-!
# What a log of spends and creations leaves unspent

Each entry of a log spends keys and then creates records under new ones. A record
is unspent when no later entry spends its key. A map that follows the log entry by
entry holds exactly the unspent records.
-/
namespace SpendLog

open List

variable {κ ρ : Type*} {key : ρ → κ}

structure Entry (κ ρ : Type*) where
  spends : List κ
  creates : List ρ

/-- `r` is created by some entry and its key is not spent by a later one; the oldest entry
comes first. -/
def Unspent (key : ρ → κ) (log : List (Entry κ ρ)) (r : ρ) : Prop :=
  ∃ before e after, log = before ++ e :: after ∧ r ∈ e.creates ∧ ∀ e' ∈ after, key r ∉ e'.spends

theorem not_unspent_nil (r : ρ) : ¬ Unspent key [] r := by
  rintro ⟨before, e, after, h, _⟩
  simp at h

variable {log : List (Entry κ ρ)}

/-- One more entry: what it creates, and what it does not spend. -/
theorem unspent_concat {e : Entry κ ρ} {r : ρ} :
    Unspent key (log ++ [e]) r ↔ r ∈ e.creates ∨ (Unspent key log r ∧ key r ∉ e.spends) := by
  constructor
  · rintro ⟨before, e', after, hlog, hmem, hafter⟩
    rcases eq_nil_or_concat after with rfl | ⟨after, last, rfl⟩
    · obtain ⟨_, heq⟩ := append_inj' hlog rfl
      cases heq
      exact .inl hmem
    · rw [concat_eq_append, ← cons_append, ← append_assoc] at hlog
      obtain ⟨hinit, heq⟩ := append_inj' hlog rfl
      cases heq
      refine .inr ⟨⟨before, e', after, hinit, hmem, fun x hx => ?_⟩, ?_⟩
      · exact hafter x (by simp [hx])
      · exact hafter e (by simp)
  · rintro (hmem | ⟨⟨before, e', after, rfl, hmem, hafter⟩, hspent⟩)
    · exact ⟨log, e, [], rfl, hmem, nofun⟩
    · refine ⟨before, e', after ++ [e], by simp, hmem, fun x hx => ?_⟩
      rcases mem_append.mp hx with hx | hx
      · exact hafter x hx
      · rw [mem_singleton.mp hx]
        exact hspent

theorem Unspent.created {r : ρ} (h : Unspent key log r) : r ∈ log.flatMap (·.creates) := by
  obtain ⟨before, e, after, rfl, hr, -⟩ := h
  exact mem_flatMap.mpr ⟨e, by simp, hr⟩

/-- What a longer log leaves unspent was unspent before, or is new. -/
theorem Unspent.of_append {log more : List (Entry κ ρ)} {r : ρ} (h : Unspent key (log ++ more) r) :
    Unspent key log r ∨ r ∈ more.flatMap (·.creates) := by
  induction more using List.reverseRecOn with
  | nil => exact .inl (by simpa using h)
  | append_singleton more e ih =>
    rw [← append_assoc, unspent_concat] at h
    rw [flatMap_append, mem_append]
    rcases h with hr | ⟨h, -⟩
    · exact .inr (.inr (by simpa using hr))
    · exact (ih h).imp_right .inl

variable [LinearOrder κ]

/-- The map holds the unspent records of the log, each under its key. -/
def Holds (key : ρ → κ) (m : OrderedMap κ ρ) (log : List (Entry κ ρ)) : Prop :=
  ∀ k r, m.find? k = some r ↔ key r = k ∧ Unspent key log r

theorem holds_empty : Holds key (∅ : OrderedMap κ ρ) [] := by
  intro k r
  simp [not_unspent_nil]

theorem Holds.unique {m m' : OrderedMap κ ρ} (h : Holds key m log)
    (h' : Holds key m' log) : m = m' :=
  OrderedMap.ext_find? fun k => Option.ext fun r => (h k r).trans (h' k r).symm

/-- The maps before, between and after the two halves of an entry. -/
theorem Holds.concat {m m₁ m₂ : OrderedMap κ ρ} {e : Entry κ ρ} (h : Holds key m log)
    (hspent : ∀ k ∈ e.spends, m₁.find? k = none)
    (hkept : ∀ k, k ∉ e.spends → m₁.find? k = m.find? k)
    (hcreated : ∀ k r, m₂.find? k = some r ↔ m₁.find? k = some r ∨ (r ∈ e.creates ∧ key r = k)) :
    Holds key m₂ (log ++ [e]) := by
  intro k r
  rw [hcreated, unspent_concat]
  by_cases hk : k ∈ e.spends
  · rw [hspent k hk]
    constructor
    · rintro (hn | ⟨hc, rfl⟩)
      · cases hn
      · exact ⟨rfl, .inl hc⟩
    · rintro ⟨rfl, hc | ⟨_, hns⟩⟩
      · exact .inr ⟨hc, rfl⟩
      · exact absurd hk hns
  · rw [hkept k hk, h k r]
    constructor
    · rintro (⟨rfl, hu⟩ | ⟨hc, rfl⟩)
      · exact ⟨rfl, .inr ⟨hu, hk⟩⟩
      · exact ⟨rfl, .inl hc⟩
    · rintro ⟨rfl, hc | ⟨hu, _⟩⟩
      · exact .inr ⟨hc, rfl⟩
      · exact .inl ⟨rfl, hu⟩

end SpendLog
