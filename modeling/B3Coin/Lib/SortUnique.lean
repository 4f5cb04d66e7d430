import Mathlib.Data.List.Chain
import Mathlib.Data.List.Destutter
import Mathlib.Data.List.Sort

/-!
# Sorting and removing adjacent repeats

`sortUnique` sorts stably by a key and then drops each element whose name is that of the one
before it. The result is the strictly ascending list of the elements, and so a function of
their set, exactly when elements with different names have different keys.
-/
namespace SortUnique

open List

variable {α κ ι : Type*} [LinearOrder κ] [DecidableEq ι] {key : α → κ} {name : α → ι}
  {le : α → α → Prop} [DecidableRel le] {xs ys : List α}

def sortUnique (le : α → α → Prop) [DecidableRel le] (name : α → ι) (xs : List α) : List α :=
  (xs.insertionSort le).destutter fun a b => name a ≠ name b

theorem mem_of_mem_sortUnique {x : α} (h : x ∈ sortUnique le name xs) : x ∈ xs :=
  (mem_insertionSort le).mp ((destutter_sublist _ _).subset h)

/-- What is dropped has the name of something that stays. -/
theorem exists_mem_destutter' (a : α) (xs : List α) :
    ∀ x ∈ a :: xs, ∃ y ∈ xs.destutter' (fun a b => name a ≠ name b) a, name y = name x := by
  induction xs generalizing a with
  | nil => exact fun x hx => ⟨a, mem_destutter' _ _ _, by rw [mem_singleton.mp hx]⟩
  | cons b xs ih =>
    intro x hx
    by_cases hab : name a = name b
    · rw [destutter'_cons_neg _ (not_not.mpr hab)]
      rcases mem_cons.mp hx with rfl | hx
      · exact ih x x mem_cons_self
      · rcases mem_cons.mp hx with rfl | hx
        · obtain ⟨y, hy, hname⟩ := ih a a mem_cons_self
          exact ⟨y, hy, hname.trans hab⟩
        · exact ih a x (mem_cons_of_mem _ hx)
    · rw [destutter'_cons_pos _ hab]
      rcases mem_cons.mp hx with rfl | hx
      · exact ⟨x, mem_cons_self, rfl⟩
      · obtain ⟨y, hy, hname⟩ := ih b x hx
        exact ⟨y, mem_cons_of_mem _ hy, hname⟩

theorem exists_mem_sortUnique (le : α → α → Prop) [DecidableRel le] (name : α → ι) {x : α}
    (hx : x ∈ xs) : ∃ y ∈ sortUnique le name xs, name y = name x := by
  have hsorted := (mem_insertionSort le).mpr hx
  unfold sortUnique
  cases h : xs.insertionSort le with
  | nil =>
    rw [h] at hsorted
    cases hsorted
  | cons a rest =>
    rw [h] at hsorted
    exact exists_mem_destutter' a rest x hsorted

/-- Elements are told apart by their names. -/
def Named (name : α → ι) (xs : List α) : Prop := ∀ a ∈ xs, ∀ b ∈ xs, name a = name b → a = b

theorem mem_sortUnique (hname : Named name xs) {x : α} : x ∈ sortUnique le name xs ↔ x ∈ xs := by
  refine ⟨mem_of_mem_sortUnique, fun hx => ?_⟩
  obtain ⟨y, hy, heq⟩ := exists_mem_sortUnique le name hx
  rwa [← hname y (mem_of_mem_sortUnique hy) x hx heq]

section Order

variable (hle : ∀ a b, le a b ↔ key a ≤ key b)

include hle

theorem pairwise_sortUnique (name : α → ι) (xs : List α) :
    (sortUnique le name xs).Pairwise fun a b => key a ≤ key b := by
  have htotal : Std.Total le := ⟨fun a b => by rw [hle, hle]; exact le_total _ _⟩
  have htrans : IsTrans α le := ⟨fun a b c => by rw [hle, hle, hle]; exact le_trans⟩
  exact ((pairwise_insertionSort le xs).imp fun h => (hle _ _).mp h).sublist
    (destutter_sublist _ _)

/-- The result is strictly ascending exactly when no two names share a key. -/
theorem isChain_sortUnique_iff (hname : Named name xs) :
    (sortUnique le name xs).IsChain (fun a b => key a < key b) ↔
      ∀ a ∈ xs, ∀ b ∈ xs, key a = key b → name a = name b := by
  constructor
  · intro h a ha b hb hkey
    have hnodup : ((sortUnique le name xs).map key).Nodup :=
      pairwise_map.mpr (h.pairwise.imp fun hlt => ne_of_lt hlt)
    rw [inj_on_of_nodup_map hnodup ((mem_sortUnique hname).mpr ha)
      ((mem_sortUnique hname).mpr hb) hkey]
  · intro h
    have hne : (sortUnique le name xs).IsChain fun a b => name a ≠ name b :=
      isChain_destutter _ _
    have hasc := isChain_iff_getElem.mp (pairwise_sortUnique hle name xs).isChain
    refine isChain_iff_getElem.mpr fun i hi => lt_of_le_of_ne (hasc i hi) fun hkey => ?_
    exact isChain_iff_getElem.mp hne i hi
      (h _ (mem_of_mem_sortUnique (getElem_mem _)) _
        (mem_of_mem_sortUnique (getElem_mem _)) hkey)

theorem sortUnique_of_isChain (hname : Named name xs)
    (h : xs.IsChain fun a b => key a < key b) : sortUnique le name xs = xs := by
  have hsorted : xs.insertionSort le = xs :=
    List.Pairwise.insertionSort_eq (h.pairwise.imp fun hlt => (hle _ _).mpr (le_of_lt hlt))
  unfold sortUnique
  rw [hsorted]
  refine destutter_of_isChain _ _ (h.imp_of_mem_imp fun a b ha hb hlt heq => ?_)
  rw [hname a ha b hb heq] at hlt
  exact lt_irrefl _ hlt

omit hle in
/-- Two strictly ascending lists with the same members are one list. -/
theorem eq_of_isChain (key : α → κ) (hx : xs.IsChain fun a b => key a < key b)
    (hy : ys.IsChain fun a b => key a < key b) (hmem : ∀ a, a ∈ xs ↔ a ∈ ys) : xs = ys := by
  have hirrefl : Std.Irrefl fun a b : α => key a < key b := ⟨fun a => lt_irrefl (key a)⟩
  have hantisymm : Std.Antisymm fun a b : α => key a < key b :=
    ⟨fun a b hab hba => absurd hab (lt_asymm hba)⟩
  exact hx.pairwise.eq_of_mem_iff hy.pairwise hmem

omit hle in
/-- Sorting by different keys forgets the order. -/
theorem insertionSort_eq_of_perm (hperm : xs.Perm ys) (hnd : (ys.map key).Nodup) :
    xs.insertionSort (fun a b => key a ≤ key b) = ys.insertionSort fun a b => key a ≤ key b := by
  have hsort : ∀ l : List α, (l.insertionSort fun a b => key a ≤ key b).Pairwise
      fun a b => key a ≤ key b :=
    fun l => pairwise_insertionSort (fun a b => key a ≤ key b) l
  have hsame := (perm_insertionSort (fun a b => key a ≤ key b) xs).trans
    (hperm.trans (perm_insertionSort (fun a b => key a ≤ key b) ys).symm)
  refine hsame.eq_of_pairwise (fun a b ha hb hab hba => ?_) (hsort xs) (hsort ys)
  refine inj_on_of_nodup_map hnd ?_ ?_ (le_antisymm hab hba)
  · exact hperm.mem_iff.mp ((mem_insertionSort _).mp ha)
  · exact (mem_insertionSort _).mp hb

end Order

end SortUnique
