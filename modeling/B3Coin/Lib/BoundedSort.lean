import Mathlib.Data.List.Sort

/-!
# Keeping the best of a stream

A list is kept in order and cut to its first `k` after each insertion. What is
dropped would never have come back: the result is the front of the sorted whole.
-/
namespace BoundedSort

open List

variable {α : Type*} (le : α → α → Prop) [DecidableRel le]

/-- Inserts in order and keeps the first `k`. -/
def keep (k : Nat) (l : List α) (x : α) : List α := (l.orderedInsert le x).take k

variable {le}

/-- Whatever stands behind the first `k` has no effect on the first `k` after an insertion. -/
theorem keep_take (k : Nat) (l : List α) (x : α) : keep le k (l.take k) x = keep le k l x := by
  unfold keep
  induction l generalizing k with
  | nil => simp
  | cons y l ih =>
    cases k with
    | zero => simp
    | succ k =>
      by_cases h : le x y
      · simp only [take_succ_cons, List.orderedInsert, h, if_true]
        cases k with
        | zero => simp
        | succ k => simp [take_take]
      · simp only [take_succ_cons, List.orderedInsert, h, if_false]
        rw [ih]

theorem foldl_keep (k : Nat) (xs l : List α) :
    xs.foldl (keep le k) (l.take k) = (xs.foldl (fun l x => l.orderedInsert le x) l).take k := by
  induction xs generalizing l with
  | nil => rfl
  | cons x xs ih =>
    rw [foldl_cons, foldl_cons, keep_take]
    exact ih (l.orderedInsert le x)

/-- The first `k` of any order of the stream that is sorted. -/
theorem foldl_keep_eq [Std.Total le] [IsTrans α le] (k : Nat) {xs l : List α} (hperm : xs.Perm l)
    (hsorted : l.Pairwise le) (hanti : ∀ a ∈ l, ∀ b ∈ l, le a b → le b a → a = b) :
    xs.foldl (keep le k) [] = l.take k := by
  have hfold : xs.foldl (fun l x => l.orderedInsert le x) [] = xs.reverse.insertionSort le := by
    rw [List.insertionSort, foldr_reverse]
  have hall := (perm_insertionSort le xs.reverse).trans (xs.reverse_perm.trans hperm)
  have h : xs.foldl (keep le k) ([].take k) = _ := foldl_keep k xs []
  rw [take_nil, hfold] at h
  rw [h, hall.eq_of_pairwise (fun a b ha hb => hanti a (hall.subset ha) b hb)
    (pairwise_insertionSort le _) hsorted]

end BoundedSort
