import Mathlib.Data.List.Basic
import Mathlib.Order.Basic
import Mathlib.Tactic.Ring

/-!
# Values shared by the node and the contracts

Digests and other 256-bit identifiers are symbolic: a value is a natural
number, null is zero, and the hash functions are parameters. Collision freedom
is then an injectivity hypothesis on the parameter, which has models, while an
injection of all byte strings into 256 bits has none. Amounts (`CAmount`, 64 bits
signed) are integers, so that a negative argument stays a legal input of the code
that has to refuse it.
-/
namespace B3Coin

open Nat List

/-- A `uint256` or `bytes32` used as an identifier: the big-endian value of its bytes, so that
the byte order of the source is the order of the numbers. Zero is the null value. -/
abbrev Uint256 := Nat

/-- One coin in base units (`consensus/amount.h`). -/
def COIN : Int := 1000000

/-- The consensus bound on every monetary total. -/
def MAX_MONEY : Int := 662200000000 * COIN

/-- `MoneyRange`: the closed interval every stored amount must lie in. -/
def MoneyRange (a : Int) : Prop := 0 ≤ a ∧ a ≤ MAX_MONEY

instance (a : Int) : Decidable (MoneyRange a) := inferInstanceAs (Decidable (_ ∧ _))

theorem MAX_MONEY_eq : MAX_MONEY = 662200000000000000 := rfl

/-- The number of values of an unsigned 64-bit counter. -/
def U64 : Nat := 2 ^ 64

def UINT32_MAX : Nat := 2 ^ 32 - 1
def UINT64_MAX : Nat := 2 ^ 64 - 1

/-- `ModernChainDomain`; `hash` is the tagged hash of the genesis and the last legacy block. -/
def modernChainDomain (hash : Uint256 → Uint256 → Uint256) (genesisHash finalLegacyHash : Uint256) :
    Option Uint256 :=
  if genesisHash = 0 ∨ finalLegacyHash = 0 then none else some (hash genesisHash finalLegacyHash)

/-- Big-endian bytes of a fixed-width unsigned integer. -/
def bigEndian : Nat → Nat → List UInt8
  | 0, _ => []
  | w + 1, n => UInt8.ofNat (n / 256 ^ w) :: bigEndian w n

@[simp] theorem length_bigEndian (w n : Nat) : (bigEndian w n).length = w := by
  induction w with
  | zero => rfl
  | succ w ih => rw [bigEndian, length_cons, ih]

theorem bigEndian_mod {w a b : Nat} (h : bigEndian w a = bigEndian w b) :
    a % 256 ^ w = b % 256 ^ w := by
  induction w with
  | zero => rw [pow_zero, mod_one, mod_one]
  | succ w ih =>
    obtain ⟨hhead, htail⟩ := List.cons.inj h
    have hdigit := congrArg UInt8.toNat hhead
    rw [mod_pow_succ, mod_pow_succ, ih htail]
    exact congrArg (b % 256 ^ w + 256 ^ w * ·) hdigit

/-- Fixed-width integers in range are told apart by their bytes. -/
theorem bigEndian_inj {w a b : Nat} (ha : a < 256 ^ w) (hb : b < 256 ^ w)
    (h : bigEndian w a = bigEndian w b) : a = b := by
  rw [← mod_eq_of_lt ha, ← mod_eq_of_lt hb, bigEndian_mod h]

theorem bigEndian_congr {w a b : Nat} (h : a % 256 ^ w = b % 256 ^ w) :
    bigEndian w a = bigEndian w b := by
  induction w with
  | zero => rfl
  | succ w ih =>
    rw [mod_pow_succ, mod_pow_succ] at h
    have hpos : 0 < 256 ^ w := Nat.pow_pos (by decide)
    have htail : a % 256 ^ w = b % 256 ^ w := by
      have := congrArg (· % 256 ^ w) h
      simpa [add_mul_mod_self_left] using this
    have hdigit : a / 256 ^ w % 256 = b / 256 ^ w % 256 := by
      rw [htail] at h
      exact Nat.eq_of_mul_eq_mul_left hpos (Nat.add_left_cancel h)
    rw [bigEndian, bigEndian, ih htail]
    exact congrArg (· :: _) (UInt8.toNat_inj.mp (by simpa using hdigit))

theorem bigEndian_add (v w n : Nat) :
    bigEndian (v + w) n = bigEndian v (n / 256 ^ w) ++ bigEndian w n := by
  induction v with
  | zero => rw [zero_add, bigEndian, nil_append]
  | succ v ih =>
    rw [Nat.add_right_comm, bigEndian, bigEndian, ih, List.cons_append, Nat.div_div_eq_div_mul,
      ← pow_add, add_comm w v]

@[simp] theorem bigEndian_zero (w : Nat) : bigEndian w 0 = List.replicate w 0 := by
  induction w with
  | zero => rfl
  | succ w ih => rw [bigEndian, ih, Nat.zero_div, List.replicate_succ]; rfl

theorem exists_bigEndian (l : List UInt8) : ∃ n < 256 ^ l.length, l = bigEndian l.length n := by
  induction l with
  | nil => exact ⟨0, one_pos, rfl⟩
  | cons byte l ih =>
    obtain ⟨n, hn, hl⟩ := ih
    have hbyte : byte.toNat < 256 := byte.toNat_lt
    refine ⟨byte.toNat * 256 ^ l.length + n, ?_, ?_⟩
    · calc byte.toNat * 256 ^ l.length + n < (byte.toNat + 1) * 256 ^ l.length := by
            rw [succ_mul]; omega
        _ ≤ 256 * 256 ^ l.length := mul_le_mul_right _ hbyte
        _ = 256 ^ (byte :: l).length := by rw [length_cons, pow_succ']
    · have hquot : (byte.toNat * 256 ^ l.length + n) / 256 ^ l.length = byte.toNat := by
        rw [Nat.mul_comm, Nat.mul_add_div (Nat.pow_pos (by decide)), Nat.div_eq_of_lt hn,
          add_zero]
      have htail : bigEndian l.length (byte.toNat * 256 ^ l.length + n) = l := by
        rw [bigEndian_congr (b := n) (by rw [mul_comm, mul_add_mod]), ← hl]
      rw [length_cons, bigEndian, hquot, htail, UInt8.ofNat_toNat]

end B3Coin
