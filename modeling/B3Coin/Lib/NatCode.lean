import Mathlib.Logic.Function.Basic
import Mathlib.Tactic.Ring

/-!
# Numberings

Numbers for the values of a type, no two alike, for examples that need a hash without
collisions. The number of a list is about as long as the list, so that it can be computed.
-/

structure NatCode (α : Type*) where
  num : α → Nat
  inj : Function.Injective num

namespace NatCode

variable {α β : Type*} {a b c d : Nat}

/-- Two numbers in one. The zeros at its end tell the length of the first. -/
def join (a b : Nat) : Nat := (2 * (b * 2 ^ (a.log2 + 1) + a) + 1) * 2 ^ (a.log2 + 1)

theorem odd_mul_pow_inj {x y k l : Nat} (h : (2 * x + 1) * 2 ^ k = (2 * y + 1) * 2 ^ l) :
    k = l ∧ x = y := by
  induction k generalizing l with
  | zero =>
    cases l with
    | zero => omega
    | succ l =>
      rw [pow_succ, ← mul_assoc] at h
      omega
  | succ k ih =>
    cases l with
    | zero =>
      rw [pow_succ, ← mul_assoc] at h
      omega
    | succ l =>
      rw [pow_succ, pow_succ, ← mul_assoc, ← mul_assoc] at h
      have := ih (l := l) (by omega)
      omega

theorem join_inj (h : join a b = join c d) : a = c ∧ b = d := by
  obtain ⟨hlen, hsum⟩ := odd_mul_pow_inj h
  have ha : a < 2 ^ (a.log2 + 1) := Nat.lt_log2_self
  have hc : c < 2 ^ (c.log2 + 1) := Nat.lt_log2_self
  rw [← hlen] at hc hsum
  generalize 2 ^ (a.log2 + 1) = p at *
  have hp : 0 < p := by omega
  have hac : a = c := by
    have := congrArg (· % p) hsum
    simpa [Nat.mod_eq_of_lt ha, Nat.mod_eq_of_lt hc] using this
  exact ⟨hac, Nat.eq_of_mul_eq_mul_right hp (by omega)⟩

def nat : NatCode Nat := ⟨id, Function.injective_id⟩

def int : NatCode Int where
  num
    | .ofNat n => 2 * n
    | .negSucc n => 2 * n + 1
  inj x y h := by cases x <;> cases y <;> simp only [] at h <;> first | omega | (congr 1; omega)

def comap (x : NatCode β) (f : α → β) (hf : Function.Injective f) : NatCode α :=
  ⟨x.num ∘ f, x.inj.comp hf⟩

def prod (x : NatCode α) (y : NatCode β) : NatCode (α × β) where
  num p := join (x.num p.1) (y.num p.2)
  inj _ _ h := Prod.ext (x.inj (join_inj h).1) (y.inj (join_inj h).2)

def list (x : NatCode α) : NatCode (List α) where
  num l := l.foldr (fun a n => join (x.num a) n + 1) 0
  inj l := by
    induction l with
    | nil => rintro (_ | _) h <;> simp_all
    | cons a l ih =>
      rintro (_ | ⟨b, l'⟩) h
      · simp at h
      · obtain ⟨hhead, htail⟩ := join_inj (Nat.succ.inj h)
        rw [x.inj hhead, ih htail]

def u8 : NatCode UInt8 := nat.comap UInt8.toNat fun _ _ => UInt8.toNat_inj.mp

def u32 : NatCode UInt32 := nat.comap UInt32.toNat fun _ _ => UInt32.toNat_inj.mp

end NatCode
