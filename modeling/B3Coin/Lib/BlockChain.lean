import Mathlib.Data.List.Basic

/-!
# Hash-linked chains

A chain is the list of its blocks, newest first, so that the tail of a chain is
the chain its tip extends and the height of a block is the number of blocks
below it. When the block hash is injective, the hash of one block fixes the
whole chain under it.
-/
namespace BlockChain

open List

structure Block (β : Type*) where
  prev : Nat
  body : β
  deriving DecidableEq

variable {β : Type*} {α : Type*}

/-- Every block names the hash of the block below it; the first one names nothing. -/
def Linked (hash : Block β → Nat) : List (Block β) → Prop
  | [] => True
  | [b] => b.prev = 0
  | b :: a :: below => b.prev = hash a ∧ Linked hash (a :: below)

/-- The chain that ends at height `h`. -/
def upTo (c : List α) (h : Nat) : List α := c.drop (c.length - (h + 1))

/-- The block at height `h`, if the chain is that long. -/
def blockAt (c : List α) (h : Nat) : Option α := if h < c.length then (upTo c h).head? else none

theorem upTo_suffix (c : List α) (h : Nat) : upTo c h <:+ c := drop_suffix _ _

variable {h : Nat} {c : List α}

theorem upTo_length (hh : h < c.length) : (upTo c h).length = h + 1 := by
  simp only [upTo, length_drop]
  omega

theorem upTo_top (hh : c.length ≤ h + 1) : upTo c h = c := by
  have hz : c.length - (h + 1) = 0 := by omega
  simp [upTo, hz]

theorem upTo_cons_of_lt {b : α} (hh : h < c.length) : upTo (b :: c) h = upTo c h := by
  have hs : (b :: c).length - (h + 1) = (c.length - (h + 1)) + 1 := by
    simp only [length_cons]; omega
  rw [upTo, hs, drop_succ_cons, upTo]

theorem upTo_upTo {k : Nat} (hkh : k ≤ h) (hh : h < c.length) : upTo (upTo c h) k = upTo c k := by
  have hl := upTo_length hh
  rw [upTo, hl, upTo, upTo, drop_drop]
  congr 1
  omega

theorem blockAt_eq_some {b : α} (hb : blockAt c h = some b) :
    h < c.length ∧ ∃ below, upTo c h = b :: below ∧ below.length = h := by
  unfold blockAt at hb
  split_ifs at hb with hh
  refine ⟨hh, ?_⟩
  have hl := upTo_length hh
  cases hu : upTo c h with
  | nil => simp [hu] at hb
  | cons a below =>
    simp only [hu, head?_cons, Option.some.injEq] at hb
    subst hb
    exact ⟨below, rfl, by simpa [hu] using hl⟩

variable {hash : Block β → Nat}

theorem Linked.tail {b : Block β} {c : List (Block β)}
    (h : Linked hash (b :: c)) : Linked hash c := by
  cases c with
  | nil => trivial
  | cons a below => exact h.2

theorem Linked.suffix {c c' : List (Block β)} (h : Linked hash c')
    (hs : c <:+ c') : Linked hash c := by
  obtain ⟨newer, rfl⟩ := hs
  induction newer with
  | nil => exact h
  | cons b newer ih => exact ih h.tail

/-- Two linked chains with the same tip hash are the same chain. -/
theorem Linked.eq_of_hash (inj : Function.Injective hash) (nonnull : ∀ b, hash b ≠ 0) :
    ∀ {c c' : List (Block β)} {b b' : Block β}, Linked hash (b :: c) → Linked hash (b' :: c') →
      hash b = hash b' → b :: c = b' :: c'
  | [], [], _, _, _, _, hh => by rw [inj hh]
  | [], a' :: c', b, b', h, h', hh => by
    have hb := inj hh
    exact absurd (by rw [← h'.1, ← hb]; exact h) (nonnull a')
  | a :: c, [], b, b', h, h', hh => by
    have hb := inj hh
    exact absurd (by rw [← h.1, hb]; exact h') (nonnull a)
  | a :: c, a' :: c', b, b', h, h', hh => by
    have hb := inj hh
    have hprev : hash a = hash a' := by rw [← h.1, ← h'.1, hb]
    have htail := Linked.eq_of_hash inj nonnull h.2 h'.2 hprev
    rw [hb, htail]

theorem suffix_eq_upTo {c' : List α} (hs : c <:+ c') (hl : c.length = h + 1) : c = upTo c' h := by
  obtain ⟨newer, rfl⟩ := hs
  have hd : (newer ++ c).length - (h + 1) = newer.length := by
    simp only [length_append]; omega
  rw [upTo, hd, drop_left]

theorem blockAt_suffix {c' : List α} (hs : c <:+ c') (hh : h < c.length) :
    blockAt c' h = blockAt c h := by
  obtain ⟨newer, rfl⟩ := hs
  have hd : (newer ++ c).length - (h + 1) = newer.length + (c.length - (h + 1)) := by
    simp only [length_append]; omega
  have hlt : h < (newer ++ c).length := by
    simp only [length_append]; omega
  rw [blockAt, blockAt, if_pos hlt, if_pos hh, upTo, upTo, hd, drop_append]
  simp

end BlockChain
