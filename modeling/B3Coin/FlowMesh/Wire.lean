import B3Coin.Basic
import B3Coin.Lib.Codec
import Mathlib.Data.Prod.Lex

/-!
# Shared wire types

Outpoints, anchors and the digests of the production log. A digest is a parameter
with 256-bit values; what is hashed is kept as bytes, so that collision freedom
can be stated for the byte strings at hand.
-/
namespace B3Coin.FlowMesh

open Codec

/-- `MAX_SIZE` of `serialize.h`. -/
def MAX_SIZE : Nat := 0x02000000

def getSizeOfCompactSize (n : Nat) : Nat :=
  if n < 253 then 1 else if n ≤ 0xffff then 3 else if n ≤ 0xffffffff then 5 else 9

/-- The 32 bytes of a `uint256`. -/
def uint256 : Codec Uint256 := natBE 32

def int32 : Codec Int := intLE 4

def int64 : Codec Int := intLE 8

/-- A vector with its own limit, checked before the elements are read. -/
def boundedVector {α : Type} (limit : Nat) (c : Codec α) : Codec (List α) :=
  counted ((compactSize MAX_SIZE).guard (· ≤ limit)) c

structure COutPoint where
  hash : Uint256
  n : UInt32
  deriving DecidableEq

def NULL_INDEX : UInt32 := 0xffffffff

def COutPoint.isNull (o : COutPoint) : Bool := o.hash == 0 && o.n == NULL_INDEX

def COutPoint.lt (a b : COutPoint) : Bool := a.hash < b.hash || (a.hash == b.hash && a.n < b.n)

/-- The position of an outpoint in `std::map<COutPoint, …>`. -/
def COutPoint.key (o : COutPoint) : Lex (Nat × Nat) := toLex (o.hash, o.n.toNat)

instance : LinearOrder COutPoint :=
  LinearOrder.lift' COutPoint.key fun a b h => by
    obtain ⟨hhash, hn⟩ := Prod.mk.inj (toLex.injective h)
    cases a
    simp_all [UInt32.toNat_inj]

def outPointCodec : Codec COutPoint :=
  (uint256.pair u32).map (fun x => ⟨x.1, x.2⟩) (fun o => (o.hash, o.n)) fun _ _ => rfl

/-- A block of the chain; `height` is an `int32_t`. -/
structure AnchorRef where
  height : Int := -1
  hash : Uint256 := 0
  deriving DecidableEq

/-- Both parts have to be null: a negative height alone is not. -/
def AnchorRef.isNull (a : AnchorRef) : Bool := a.height < 0 && a.hash == 0

def anchorCodec : Codec AnchorRef :=
  (int32.pair uint256).map (fun x => ⟨x.1, x.2⟩) (fun a => (a.height, a.hash)) fun _ _ => rfl

@[simp] theorem uint256_put_length (x : Uint256) : (uint256.put x).length = 32 :=
  natBE_put_length 32 x

@[simp] theorem int32_put_length (x : Int) : (int32.put x).length = 4 := intLE_put_length 4 x

theorem uint256_valid {x : Uint256} : uint256.valid x ↔ x < 2 ^ 256 := natBE_valid

theorem int32_valid {x : Int} : int32.valid x ↔ -2 ^ 31 ≤ x ∧ x < 2 ^ 31 := intLE_valid (by decide)

theorem int64_valid {x : Int} : int64.valid x ↔ -2 ^ 63 ≤ x ∧ x < 2 ^ 63 := intLE_valid (by decide)

/-- The tagged hashes of the production log, over the bytes they are fed. -/
structure Digests where
  actionId : Bytes → Uint256
  actionsRoot : Bytes → Uint256
  handoffResultRoot : Bytes → Uint256
  entryIdentity : Bytes → Uint256
  emptyEffectRoot : UInt64 → Uint256
  actionsRoot_lt : ∀ m, actionsRoot m < 2 ^ 256
  handoffResultRoot_lt : ∀ m, handoffResultRoot m < 2 ^ 256
  emptyEffectRoot_lt : ∀ n, emptyEffectRoot n < 2 ^ 256

end B3Coin.FlowMesh
