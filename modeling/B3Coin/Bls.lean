import B3Coin.Lib.Codec
import B3Coin.Basic
import Mathlib.Algebra.Group.Subgroup.Basic
import Mathlib.Data.ZMod.Defs

/-!
# The signature suite

`crypto/bls.h` and the BLS precompiles of Ethereum over one pair of groups. Points of the
first group have coordinates, from which both encodings are computed: the 48 compressed
bytes of the node and the 128 padded bytes of the precompiles. Decoding, pairing and
hashing to the second group are parameters, with their laws as fields.
-/
namespace B3Coin

open Codec (Bytes)

/-- The prime of BLS12-381. -/
def FIELD_MODULUS : Nat :=
  0x1a0111ea397fe69a4b1ba7b6434bacd764774b84f38512bf6730d2a0f6b0f6241eabfffeb153ffffb9feffffffffaaab

theorem FIELD_MODULUS_lt : FIELD_MODULUS < 0x20 * 256 ^ 47 := by decide

theorem FIELD_MODULUS_odd : FIELD_MODULUS % 2 = 1 := by decide

/-- The points of the curve with their affine coordinates; infinity has none. No point has
second coordinate zero, since the order of the curve is odd, and the points over `x = 0` have
order three. -/
structure CurvePoints (G : Type) [AddCommGroup G] where
  coords : G → Option (Nat × Nat)
  /-- The subgroup of prime order. -/
  prime : AddSubgroup G
  coords_eq_none : ∀ P, coords P = none ↔ P = 0
  coords_lt : ∀ P x y, coords P = some (x, y) → x < FIELD_MODULUS ∧ 0 < y ∧ y < FIELD_MODULUS
  coords_neg : ∀ P x y, coords P = some (x, y) → coords (-P) = some (x, FIELD_MODULUS - y)
  eq_or_eq_neg : ∀ P Q x y y', coords P = some (x, y) → coords Q = some (x, y') → P = Q ∨ P = -Q
  prime_ne : ∀ P ∈ prime, ∀ y, coords P ≠ some (0, y)

namespace CurvePoints

variable {G : Type} [AddCommGroup G] (C : CurvePoints G)

/-- `blst_p1_affine_compress` as a number of 48 bytes: the first coordinate, with the flags
of compression, of infinity and of the larger root in the first byte. -/
def compress (P : G) : Nat :=
  match C.coords P with
  | none => 0xc0 * 256 ^ 47
  | some (x, y) => (if FIELD_MODULUS - y < y then 0xa0 else 0x80) * 256 ^ 47 + x

/-- `Eip2537Uncompressed`: two field elements in 64 bytes each, infinity all zero. -/
def eip2537 (P : G) : Bytes :=
  match C.coords P with
  | none => bigEndian 64 0 ++ bigEndian 64 0
  | some (x, y) => bigEndian 64 x ++ bigEndian 64 y

variable {C} {P Q : G} {x y : Nat}

theorem exists_coords (h : P ≠ 0) : ∃ x y, C.coords P = some (x, y) := by
  cases hc : C.coords P with
  | none => exact absurd ((C.coords_eq_none P).mp hc) h
  | some p => exact ⟨p.1, p.2, rfl⟩

/-- A point is its first coordinate and which of the two roots it has. -/
theorem eq_of_coords {y' : Nat} (hP : C.coords P = some (x, y)) (hQ : C.coords Q = some (x, y'))
    (hroot : FIELD_MODULUS - y < y ↔ FIELD_MODULUS - y' < y') : P = Q := by
  rcases C.eq_or_eq_neg P Q x y y' hP hQ with h | rfl
  · exact h
  · have hneg := C.coords_neg Q x y' hQ
    rw [hP] at hneg
    obtain ⟨_, rfl⟩ := Prod.mk.inj (Option.some.inj hneg)
    have := FIELD_MODULUS_odd
    omega

theorem compress_of_coords (h : C.coords P = some (x, y)) :
    C.compress P = (if FIELD_MODULUS - y < y then 0xa0 else 0x80) * 256 ^ 47 + x := by
  rw [compress, h]

theorem compress_lt_of_ne (h : P ≠ 0) : C.compress P < 0xc0 * 256 ^ 47 := by
  obtain ⟨x, y, hc⟩ := exists_coords (C := C) h
  have := (C.coords_lt P x y hc).1.trans FIELD_MODULUS_lt
  rw [compress_of_coords hc]
  split <;> omega

theorem compress_injective : Function.Injective C.compress := by
  intro P Q h
  have hzero : C.compress 0 = 0xc0 * 256 ^ 47 := by
    rw [compress, (C.coords_eq_none 0).mpr rfl]
  by_cases hP : P = 0 <;> by_cases hQ : Q = 0
  · rw [hP, hQ]
  · rw [hP, hzero] at h
    exact absurd h.symm (compress_lt_of_ne hQ).ne
  · rw [hQ, hzero] at h
    exact absurd h (compress_lt_of_ne hP).ne
  · obtain ⟨x, y, hx⟩ := exists_coords (C := C) hP
    obtain ⟨x', y', hx'⟩ := exists_coords (C := C) hQ
    have hlt := (C.coords_lt P x y hx).1.trans FIELD_MODULUS_lt
    have hlt' := (C.coords_lt Q x' y' hx').1.trans FIELD_MODULUS_lt
    rw [compress_of_coords hx, compress_of_coords hx'] at h
    have hsame : x = x' ∧ (FIELD_MODULUS - y < y ↔ FIELD_MODULUS - y' < y') := by
      by_cases hr : FIELD_MODULUS - y < y <;> by_cases hr' : FIELD_MODULUS - y' < y' <;>
        simp only [hr, hr', if_true, if_false, iff_self, and_true] at h ⊢ <;> omega
    obtain ⟨rfl, hroot⟩ := hsame
    exact eq_of_coords hx hx' hroot

theorem coords_lt_word (h : C.coords P = some (x, y)) : x < 256 ^ 64 ∧ y < 256 ^ 64 := by
  have := C.coords_lt P x y h
  have := FIELD_MODULUS_lt
  omega

@[simp] theorem length_eip2537 (P : G) : (C.eip2537 P).length = 128 := by
  unfold eip2537
  split <;> simp

theorem eip2537_zero : C.eip2537 0 = bigEndian 64 0 ++ bigEndian 64 0 := by
  rw [eip2537, (C.coords_eq_none 0).mpr rfl]

/-- The bytes of two coordinates are those of one point at most. -/
theorem coords_of_eip2537 (hx : x < 256 ^ 64) (hy : y < 256 ^ 64) (hP : P ≠ 0)
    (h : bigEndian 64 x ++ bigEndian 64 y = C.eip2537 P) : C.coords P = some (x, y) := by
  obtain ⟨x', y', hc⟩ := exists_coords (C := C) hP
  obtain ⟨hx', hy'⟩ := coords_lt_word hc
  rw [eip2537, hc] at h
  obtain ⟨h1, h2⟩ := List.append_inj h (by simp)
  rw [hc, bigEndian_inj hx hx' h1, bigEndian_inj hy hy' h2]

theorem eip2537_injective (h : C.eip2537 P = C.eip2537 Q) : P = Q := by
  by_cases hP : P = 0
  · by_cases hQ : Q = 0
    · rw [hP, hQ]
    · rw [hP, eip2537_zero] at h
      have hc := coords_of_eip2537 (by decide) (by decide) hQ h
      exact absurd (C.coords_lt Q 0 0 hc).2.1 (lt_irrefl 0)
  · obtain ⟨x, y, hx⟩ := exists_coords (C := C) hP
    obtain ⟨hltx, hlty⟩ := coords_lt_word hx
    have hbytes : bigEndian 64 x ++ bigEndian 64 y = C.eip2537 Q := by rw [← h, eip2537, hx]
    by_cases hQ : Q = 0
    · rw [hQ, eip2537_zero] at hbytes
      have hy := bigEndian_inj hlty (by decide) (List.append_inj hbytes (by simp)).2
      have := (C.coords_lt P x y hx).2.1
      omega
    · exact eq_of_coords hx (coords_of_eip2537 hltx hlty hQ hbytes) Iff.rfl

end CurvePoints

/-- The suite of `crypto/bls.h`: canonical decoding of nonzero points of the two prime order
groups, and the pairing equation of one key, digest and signature. -/
structure Bls (G₁ G₂ : Type) [AddCommGroup G₁] [Zero G₂] extends CurvePoints G₁ where
  decodeKey : Nat → Option G₁
  prime₂ : Set G₂
  compress₂ : G₂ → Bytes
  eip2537₂ : G₂ → Bytes
  decodeSignature : Bytes → Option G₂
  coreVerify : G₁ → Uint256 → G₂ → Bool
  decodeKey_eq_some : ∀ k P, decodeKey k = some P ↔
    P ≠ 0 ∧ P ∈ prime ∧ toCurvePoints.compress P = k
  decodeSignature_eq_some : ∀ b S, decodeSignature b = some S ↔
    S ≠ 0 ∧ S ∈ prime₂ ∧ compress₂ S = b
  length_eip2537₂ : ∀ S, (eip2537₂ S).length = 256
  eip2537₂_zero : eip2537₂ 0 = List.replicate 256 0
  eip2537₂_injective : Function.Injective eip2537₂

namespace Bls

variable {G₁ G₂ : Type} [AddCommGroup G₁] [Zero G₂] (B : Bls G₁ G₂)

/-- The affine sum is at infinity. -/
def isInf (P : G₁) : Bool := (B.coords P).isNone

def aggregatePublicKeys (keys : List G₁) : Option G₁ :=
  if keys = [] then none else B.decodeKey (B.compress keys.sum)

/-- `FastAggregateVerify` on the bytes of the keys and of the signature; what does not decode
does not verify. -/
def fastAggregateVerify (keys : List Nat) (digest : Uint256) (signature : Bytes) : Bool :=
  match B.decodeSignature signature, keys.mapM B.decodeKey with
  | some sig, some points =>
    !points.isEmpty && !B.isInf points.sum && B.coreVerify points.sum digest sig
  | _, _ => false

variable {B}

theorem isInf_eq_false {P : G₁} : B.isInf P = false ↔ P ≠ 0 := by
  rw [isInf, Option.isNone_eq_false_iff, Option.isSome_iff_ne_none, ne_eq, B.coords_eq_none]

/-- The aggregate key is the sum, and not at infinity. -/
theorem aggregatePublicKeys_eq_some {keys : List G₁} {A : G₁}
    (h : B.aggregatePublicKeys keys = some A) : A = keys.sum ∧ A ≠ 0 ∧ A ∈ B.prime := by
  unfold aggregatePublicKeys at h
  split at h
  · cases h
  · obtain ⟨hA, hprime, hcompress⟩ := (B.decodeKey_eq_some _ _).mp h
    exact ⟨CurvePoints.compress_injective hcompress, hA, hprime⟩

end Bls

/-! ## A suite to compute with -/

instance neZero_two : NeZero 2 := ⟨by decide⟩

instance neZero_three : NeZero 3 := ⟨by decide⟩

def sampleCoords (P : Fin 3) : Option (Nat × Nat) :=
  if P = 0 then none else if P = 1 then some (1, 2) else some (1, FIELD_MODULUS - 2)

theorem sampleCoords_ne {P : Fin 3} {c : Nat × Nat} (h : sampleCoords P = some c) : P ≠ 0 := by
  rintro rfl
  cases h

/-- A curve of three points. -/
def sampleCurve : CurvePoints (Fin 3) where
  coords := sampleCoords
  prime := ⊤
  coords_eq_none := by decide
  coords_lt P x y h := by
    unfold sampleCoords at h
    split_ifs at h <;> cases h <;> decide
  coords_neg P x y h := by
    match P with
    | 1 => cases h; decide
    | 2 => cases h; decide
  eq_or_eq_neg P Q x y y' hP hQ := by
    have hpoints : ∀ P Q : Fin 3, P ≠ 0 → Q ≠ 0 → P = Q ∨ P = -Q := by decide
    exact hpoints P Q (sampleCoords_ne hP) (sampleCoords_ne hQ)
  prime_ne P _ y h := by
    unfold sampleCoords at h
    split_ifs at h <;> cases h

/-- A suite in which every signature verifies. -/
def sampleBls : Bls (Fin 3) (Fin 2) where
  toCurvePoints := sampleCurve
  decodeKey k := if k = sampleCurve.compress 1 then some 1 else
    if k = sampleCurve.compress 2 then some 2 else none
  prime₂ := Set.univ
  compress₂ S := [UInt8.ofNat S]
  eip2537₂ S := bigEndian 256 S
  decodeSignature b := if b = [1] then some 1 else none
  coreVerify _ _ _ := true
  decodeKey_eq_some k P := by
    have hpoints : ∀ P : Fin 3, P ≠ 0 → P = 1 ∨ P = 2 := by decide
    constructor
    · intro h
      split_ifs at h with h₁ h₂
      · cases h
        exact ⟨by decide, trivial, h₁.symm⟩
      · cases h
        exact ⟨by decide, trivial, h₂.symm⟩
    · rintro ⟨hne, -, rfl⟩
      rcases hpoints P hne with rfl | rfl
      · rw [if_pos rfl]
      · rw [if_neg (fun h => by cases CurvePoints.compress_injective h), if_pos rfl]
  decodeSignature_eq_some b S := by
    have hpoints : ∀ S : Fin 2, S ≠ 0 → S = 1 := by decide
    constructor
    · intro h
      split_ifs at h with hb
      cases h
      exact ⟨by decide, trivial, hb.symm⟩
    · rintro ⟨hne, -, rfl⟩
      rw [hpoints S hne]
      rfl
  length_eip2537₂ _ := length_bigEndian _ _
  eip2537₂_zero := bigEndian_zero 256
  eip2537₂_injective S T h := by
    have hsmall : ∀ S : Fin 2, (S : Nat) < 256 ^ 256 := fun S =>
      S.isLt.trans_le ((by decide : 2 ≤ 256).trans (Nat.le_self_pow (by decide) 256))
    exact Fin.ext (bigEndian_inj (hsmall S) (hsmall T) h)

end B3Coin
