import B3Coin.Lib.OrderedMap
import Mathlib.Data.List.Basic
import Mathlib.Data.Nat.Basic
import Mathlib.Tactic.Ring

/-!
# Byte codecs with one encoding per value

A `Codec` writes a value in front of any further bytes and reads it back from
there. Its two laws make the encoding canonical: a valid value is read back, and
whatever is read is valid and was its own encoding. Both laws compose, so a record
format built from the combinators below is injective by construction.
-/
namespace Codec

abbrev Bytes := List UInt8

end Codec

structure Codec (α : Type*) where
  valid : α → Prop
  put : α → Codec.Bytes
  get : Codec.Bytes → Option (α × Codec.Bytes)
  get_put : ∀ a, valid a → ∀ rest, get (put a ++ rest) = some (a, rest)
  put_get : ∀ b a rest, get b = some (a, rest) → valid a ∧ b = put a ++ rest

namespace Codec

open List Option

variable {α β : Type*}

theorem put_injective (c : Codec α) {a b : α} (ha : c.valid a) (hb : c.valid b)
    (h : c.put a = c.put b) : a = b := by
  have h1 := c.get_put a ha []
  have h2 := c.get_put b hb []
  rw [h, h2] at h1
  exact (congrArg Prod.fst (some.inj h1)).symm

/-! ## Fixed-width integers -/

/-- The `n` low bytes of a number, least significant first. -/
def leBytes : Nat → Nat → Bytes
  | 0, _ => []
  | n + 1, x => UInt8.ofNat (x % 256) :: leBytes n (x / 256)

def leValue : Bytes → Nat
  | [] => 0
  | b :: rest => b.toNat + 256 * leValue rest

@[simp] theorem leBytes_length (n x : Nat) : (leBytes n x).length = n := by
  induction n generalizing x with
  | zero => rfl
  | succ n ih => simp [leBytes, ih]

variable {n x : Nat}

theorem leValue_leBytes (h : x < 256 ^ n) : leValue (leBytes n x) = x := by
  induction n generalizing x with
  | zero =>
    obtain rfl : x = 0 := by simpa using h
    rfl
  | succ n ih =>
    have hbyte : (UInt8.ofNat (x % 256)).toNat = x % 256 :=
      UInt8.toNat_ofNat_of_lt' (Nat.mod_lt x (by decide))
    have hdiv : x / 256 < 256 ^ n := Nat.div_lt_of_lt_mul (by rwa [pow_succ, mul_comm] at h)
    rw [leBytes, leValue, ih hdiv, hbyte]
    omega

theorem leValue_lt (b : Bytes) : leValue b < 256 ^ b.length := by
  induction b with
  | nil => exact Nat.one_pos
  | cons x rest ih =>
    have := x.toNat_lt
    rw [leValue, length_cons, pow_succ]
    omega

theorem leBytes_leValue (b : Bytes) : leBytes b.length (leValue b) = b := by
  induction b with
  | nil => rfl
  | cons x rest ih =>
    have := x.toNat_lt
    have hmod : (x.toNat + 256 * leValue rest) % 256 = x.toNat := by omega
    have hdiv : (x.toNat + 256 * leValue rest) / 256 = leValue rest := by omega
    rw [leValue, length_cons, leBytes, hmod, hdiv, ih, UInt8.ofNat_toNat]

/-- Exactly `n` bytes. -/
def raw (n : Nat) : Codec Bytes where
  valid b := b.length = n
  put b := b
  get b := if n ≤ b.length then some (b.take n, b.drop n) else none
  get_put b hb rest := by simp [hb]
  put_get b a rest h := by
    rw [ite_none_right_eq_some, some.injEq, Prod.mk.injEq] at h
    obtain ⟨hle, rfl, rfl⟩ := h
    exact ⟨by rw [length_take, min_eq_left hle], (take_append_drop n b).symm⟩

/-- Read through `f`, write through `g`. -/
def map (c : Codec α) (f : α → β) (g : β → α) (h : ∀ a, c.valid a → g (f a) = a) : Codec β where
  valid b := c.valid (g b) ∧ f (g b) = b
  put b := c.put (g b)
  get b := (c.get b).map fun x => (f x.1, x.2)
  get_put b hb rest := by rw [c.get_put _ hb.1, map_some, hb.2]
  put_get b a rest ha := by
    obtain ⟨x, hx, hxa⟩ := map_eq_some_iff.mp ha
    obtain ⟨rfl, rfl⟩ := Prod.mk.inj hxa
    obtain ⟨hv, hb⟩ := c.put_get _ _ _ hx
    rw [h _ hv]
    exact ⟨⟨hv, rfl⟩, hb⟩

/-- An unsigned integer of `n` bytes, least significant first. -/
def natLE (n : Nat) : Codec Nat :=
  (raw n).map leValue (leBytes n) fun b (hb : b.length = n) => hb ▸ leBytes_leValue b

/-- An unsigned integer of `n` bytes, most significant first. -/
def natBE (n : Nat) : Codec Nat :=
  (raw n).map (fun b => leValue b.reverse) (fun x => (leBytes n x).reverse)
    fun b (hb : b.length = n) => by
      rw [← hb, ← length_reverse, leBytes_leValue, reverse_reverse]

theorem natLE_valid : (natLE n).valid x ↔ x < 256 ^ n := by
  refine ⟨fun h => ?_, fun h => ⟨leBytes_length n x, leValue_leBytes h⟩⟩
  have := leValue_lt (leBytes n x)
  rwa [h.2, leBytes_length] at this

theorem natBE_valid : (natBE n).valid x ↔ x < 256 ^ n := by
  have hrev : leValue ((leBytes n x).reverse).reverse = leValue (leBytes n x) := by
    rw [reverse_reverse]
  refine ⟨fun h => ?_, fun h => ⟨?_, hrev.trans (leValue_leBytes h)⟩⟩
  · have hx : leValue ((leBytes n x).reverse).reverse = x := h.2
    have := leValue_lt (leBytes n x)
    rwa [← hrev, hx, leBytes_length] at this
  · exact (length_reverse).trans (leBytes_length n x)

@[simp] theorem natLE_put_length (n x : Nat) : ((natLE n).put x).length = n := leBytes_length n x

@[simp] theorem natBE_put_length (n x : Nat) : ((natBE n).put x).length = n :=
  (length_reverse).trans (leBytes_length n x)

/-- Two's complement of `n` bytes, least significant first. -/
def intLE (n : Nat) : Codec Int :=
  (natLE n).map (fun x => if 2 * x < 256 ^ n then (x : Int) else x - 256 ^ n)
    (fun i => (i % 256 ^ n).toNat) fun x hx => by
      have hlt := natLE_valid.mp hx
      have hcast : ((256 ^ n : Nat) : Int) = 256 ^ n := by push_cast; rfl
      split_ifs
      · rw [Int.emod_eq_of_lt (by omega) (by omega)]
        omega
      · rw [Int.sub_emod_right, Int.emod_eq_of_lt (by omega) (by omega)]
        omega

theorem intLE_valid {i : Int} (hn : 0 < n) :
    (intLE n).valid i ↔ -(256 ^ n / 2) ≤ i ∧ i < 256 ^ n / 2 := by
  obtain ⟨m, hm⟩ : ∃ m : Int, (256 : Int) ^ n = 2 * m := by
    obtain ⟨k, rfl⟩ := Nat.exists_eq_succ_of_ne_zero hn.ne'
    exact ⟨128 * 256 ^ k, by rw [pow_succ]; ring⟩
  have hpos : (0 : Int) < 256 ^ n := Int.pow_pos (by decide)
  have hcast : ((256 ^ n : Nat) : Int) = 256 ^ n := by push_cast; rfl
  constructor
  · rintro ⟨_, h⟩
    simp only at h
    split_ifs at h <;> omega
  · rintro ⟨h1, h2⟩
    refine ⟨natLE_valid.mpr (show (i % 256 ^ n).toNat < 256 ^ n by omega), ?_⟩
    simp only
    by_cases hneg : i < 0
    · have hmod : i % 256 ^ n = i + 256 ^ n := by
        rw [← Int.add_emod_right, Int.emod_eq_of_lt (by omega) (by omega)]
      omega
    · rw [Int.emod_eq_of_lt (by omega) (by omega), if_pos (by omega)]
      omega

@[simp] theorem intLE_put_length (n : Nat) (i : Int) : ((intLE n).put i).length = n :=
  natLE_put_length n _

/-! ## Machine words -/

def u8 : Codec UInt8 :=
  (natLE 1).map UInt8.ofNat UInt8.toNat fun _ h => UInt8.toNat_ofNat_of_lt' (natLE_valid.mp h)

def u16 : Codec UInt16 :=
  (natLE 2).map UInt16.ofNat UInt16.toNat fun _ h => UInt16.toNat_ofNat_of_lt' (natLE_valid.mp h)

def u32 : Codec UInt32 :=
  (natLE 4).map UInt32.ofNat UInt32.toNat fun _ h => UInt32.toNat_ofNat_of_lt' (natLE_valid.mp h)

def u64 : Codec UInt64 :=
  (natLE 8).map UInt64.ofNat UInt64.toNat fun _ h => UInt64.toNat_ofNat_of_lt' (natLE_valid.mp h)

theorem u8_valid (x : UInt8) : u8.valid x := ⟨natLE_valid.mpr x.toNat_lt, UInt8.ofNat_toNat⟩

theorem u16_valid (x : UInt16) : u16.valid x := ⟨natLE_valid.mpr x.toNat_lt, UInt16.ofNat_toNat⟩

theorem u32_valid (x : UInt32) : u32.valid x := ⟨natLE_valid.mpr x.toNat_lt, UInt32.ofNat_toNat⟩

theorem u64_valid (x : UInt64) : u64.valid x := ⟨natLE_valid.mpr x.toNat_lt, UInt64.ofNat_toNat⟩

@[simp] theorem u8_put_length (x : UInt8) : (u8.put x).length = 1 := natLE_put_length 1 _

@[simp] theorem u16_put_length (x : UInt16) : (u16.put x).length = 2 := natLE_put_length 2 _

@[simp] theorem u32_put_length (x : UInt32) : (u32.put x).length = 4 := natLE_put_length 4 _

@[simp] theorem u64_put_length (x : UInt64) : (u64.put x).length = 8 := natLE_put_length 8 _

/-! ## Records and lists -/

def pair (c : Codec α) (d : Codec β) : Codec (α × β) where
  valid x := c.valid x.1 ∧ d.valid x.2
  put x := c.put x.1 ++ d.put x.2
  get b := (c.get b).bind fun x => (d.get x.2).map fun y => ((x.1, y.1), y.2)
  get_put x hx rest := by
    rw [append_assoc, c.get_put _ hx.1, bind_some, d.get_put _ hx.2, map_some]
  put_get b x rest h := by
    obtain ⟨y, hy, h⟩ := bind_eq_some_iff.mp h
    obtain ⟨z, hz, hxz⟩ := map_eq_some_iff.mp h
    obtain ⟨rfl, rfl⟩ := Prod.mk.inj hxz
    obtain ⟨hvy, rfl⟩ := c.put_get _ _ _ hy
    obtain ⟨hvz, hb⟩ := d.put_get _ _ _ hz
    exact ⟨⟨hvy, hvz⟩, by rw [append_assoc, ← hb]⟩

/-- Refuse values outside `p` when reading. -/
def guard (c : Codec α) (p : α → Prop) [DecidablePred p] : Codec α where
  valid a := c.valid a ∧ p a
  put := c.put
  get b := (c.get b).filter fun x => decide (p x.1)
  get_put a ha rest := by rw [c.get_put _ ha.1]; simp [Option.filter, ha.2]
  put_get b a rest h := by
    obtain ⟨hget, hp⟩ := filter_eq_some_iff.mp h
    obtain ⟨hv, hb⟩ := c.put_get _ _ _ hget
    exact ⟨⟨hv, by simpa using hp⟩, hb⟩

/-- Read one value and nothing after it. -/
def getAll (c : Codec α) (b : Bytes) : Option α :=
  match c.get b with
  | some (a, []) => some a
  | _ => none

theorem getAll_put (c : Codec α) {a : α} (h : c.valid a) : c.getAll (c.put a) = some a := by
  have := c.get_put a h []
  rw [append_nil] at this
  rw [getAll, this]

@[simp] theorem map_put (c : Codec α) (f : α → β) (g : β → α) (h : ∀ a, c.valid a → g (f a) = a)
    (b : β) : (c.map f g h).put b = c.put (g b) := rfl

@[simp] theorem pair_put (c : Codec α) (d : Codec β) (x : α × β) :
    (c.pair d).put x = c.put x.1 ++ d.put x.2 := rfl

/-- Read `n` items, one after the other. -/
def getItems (c : Codec α) : Nat → Bytes → Option (List α × Bytes)
  | 0, b => some ([], b)
  | n + 1, b => (c.get b).bind fun x => (getItems c n x.2).map fun y => (x.1 :: y.1, y.2)

theorem getItems_put (c : Codec α) (l : List α) (hl : ∀ a ∈ l, c.valid a) (rest : Bytes) :
    c.getItems l.length (l.flatMap c.put ++ rest) = some (l, rest) := by
  induction l with
  | nil => rfl
  | cons a l ih =>
    rw [flatMap_cons, append_assoc, length_cons, getItems,
      c.get_put a (hl a (by simp)), bind_some, ih fun x hx => hl x (by simp [hx])]
    rfl

theorem put_getItems (c : Codec α) (n : Nat) (b : Bytes) {l : List α} {rest : Bytes}
    (h : c.getItems n b = some (l, rest)) :
    l.length = n ∧ (∀ a ∈ l, c.valid a) ∧ b = l.flatMap c.put ++ rest := by
  induction n generalizing b l with
  | zero =>
    obtain ⟨rfl, rfl⟩ := Prod.mk.inj (some.inj h)
    exact ⟨rfl, by simp, rfl⟩
  | succ n ih =>
    obtain ⟨x, hx, h⟩ := bind_eq_some_iff.mp h
    obtain ⟨y, hy, hl⟩ := map_eq_some_iff.mp h
    obtain ⟨rfl, rfl⟩ := Prod.mk.inj hl
    obtain ⟨hv, rfl⟩ := c.put_get _ _ _ hx
    obtain ⟨hlen, hall, hb⟩ := ih _ hy
    refine ⟨by rw [length_cons, hlen], ?_, by rw [flatMap_cons, append_assoc, ← hb]⟩
    intro a ha
    rcases mem_cons.mp ha with rfl | ha
    · exact hv
    · exact hall a ha

/-- A list whose length is known. -/
def exactly (c : Codec α) (n : Nat) : Codec (List α) where
  valid l := l.length = n ∧ ∀ a ∈ l, c.valid a
  put l := l.flatMap c.put
  get := c.getItems n
  get_put l hl rest := hl.1 ▸ c.getItems_put l hl.2 rest
  put_get b l rest h := by
    obtain ⟨hlen, hall, hb⟩ := c.put_getItems _ _ h
    exact ⟨⟨hlen, hall⟩, hb⟩

/-- A list behind its length. -/
def counted (size : Codec Nat) (c : Codec α) : Codec (List α) where
  valid l := size.valid l.length ∧ ∀ a ∈ l, c.valid a
  put l := size.put l.length ++ l.flatMap c.put
  get b := (size.get b).bind fun x => c.getItems x.1 x.2
  get_put l hl rest := by
    rw [append_assoc, size.get_put _ hl.1, bind_some, c.getItems_put l hl.2]
  put_get b l rest h := by
    obtain ⟨x, hx, hitems⟩ := bind_eq_some_iff.mp h
    obtain ⟨hv, rfl⟩ := size.put_get _ _ _ hx
    obtain ⟨hlen, hall, hb⟩ := c.put_getItems _ _ hitems
    exact ⟨⟨hlen ▸ hv, hall⟩, by rw [hlen, append_assoc, ← hb]⟩

/-! ## Compact sizes -/

/-- One byte below 253, else a marker byte and two, four or eight bytes. -/
def putCompactSize (n : Nat) : Bytes :=
  if n < 253 then u8.put (UInt8.ofNat n)
  else if n < 0x10000 then u8.put 253 ++ (natLE 2).put n
  else if n < 0x100000000 then u8.put 254 ++ (natLE 4).put n
  else u8.put 255 ++ (natLE 8).put n

/-- The wider forms are refused for sizes that fit a narrower one. -/
def getCompactSize (b : Bytes) : Option (Nat × Bytes) :=
  (u8.get b).bind fun x =>
    if x.1 < 253 then some (x.1.toNat, x.2)
    else if x.1 = 253 then ((natLE 2).get x.2).filter fun y => 253 ≤ y.1
    else if x.1 = 254 then ((natLE 4).get x.2).filter fun y => 0x10000 ≤ y.1
    else ((natLE 8).get x.2).filter fun y => 0x100000000 ≤ y.1

theorem getCompactSize_put (hn : n < 2 ^ 64) (rest : Bytes) :
    getCompactSize (putCompactSize n ++ rest) = some (n, rest) := by
  unfold putCompactSize
  split_ifs with h1 h2 h3
  · have hbyte : (UInt8.ofNat n).toNat = n := UInt8.toNat_ofNat_of_lt' (show n < 256 by omega)
    have hlt : UInt8.ofNat n < 253 := UInt8.lt_iff_toNat_lt.mpr (by rw [hbyte]; exact h1)
    rw [getCompactSize, u8.get_put _ (u8_valid _), bind_some, if_pos hlt, hbyte]
  · rw [getCompactSize, append_assoc, u8.get_put _ (u8_valid _), bind_some,
      if_neg (show ¬ (253 : UInt8) < 253 by decide), if_pos rfl,
      (natLE 2).get_put _ (natLE_valid.mpr (by omega))]
    simp [Option.filter, not_lt.mp h1]
  · rw [getCompactSize, append_assoc, u8.get_put _ (u8_valid _), bind_some,
      if_neg (show ¬ (254 : UInt8) < 253 by decide), if_neg (show ¬ (254 : UInt8) = 253 by decide),
      if_pos rfl,
      (natLE 4).get_put _ (natLE_valid.mpr (by omega))]
    simp [Option.filter, not_lt.mp h2]
  · rw [getCompactSize, append_assoc, u8.get_put _ (u8_valid _), bind_some,
      if_neg (show ¬ (255 : UInt8) < 253 by decide), if_neg (show ¬ (255 : UInt8) = 253 by decide),
      if_neg (show ¬ (255 : UInt8) = 254 by decide),
      (natLE 8).get_put _ (natLE_valid.mpr (by omega))]
    simp [Option.filter, not_lt.mp h3]

theorem putCompactSize_get {b : Bytes} {rest : Bytes}
    (h : getCompactSize b = some (n, rest)) : n < 2 ^ 64 ∧ b = putCompactSize n ++ rest := by
  obtain ⟨x, hx, hsize⟩ := bind_eq_some_iff.mp h
  obtain ⟨_, rfl⟩ := u8.put_get _ _ _ hx
  unfold putCompactSize
  split_ifs at hsize with h1 h2 h3
  · obtain ⟨rfl, rfl⟩ := Prod.mk.inj (some.inj hsize)
    have hlt : x.1.toNat < 253 := UInt8.lt_iff_toNat_lt.mp h1
    rw [if_pos hlt, UInt8.ofNat_toNat]
    exact ⟨by omega, rfl⟩
  · obtain ⟨hget, hge⟩ := filter_eq_some_iff.mp hsize
    obtain ⟨hv, hb⟩ := (natLE 2).put_get _ _ _ hget
    have hlt := natLE_valid.mp hv
    have hge : 253 ≤ n := by simpa using hge
    rw [if_neg (by omega), if_pos (by omega), hb, h2, append_assoc]
    exact ⟨by omega, rfl⟩
  · obtain ⟨hget, hge⟩ := filter_eq_some_iff.mp hsize
    obtain ⟨hv, hb⟩ := (natLE 4).put_get _ _ _ hget
    have hlt := natLE_valid.mp hv
    have hge : 0x10000 ≤ n := by simpa using hge
    rw [if_neg (by omega), if_neg (by omega), if_pos (by omega), hb, h3, append_assoc]
    exact ⟨by omega, rfl⟩
  · obtain ⟨hget, hge⟩ := filter_eq_some_iff.mp hsize
    obtain ⟨hv, hb⟩ := (natLE 8).put_get _ _ _ hget
    have hlt := natLE_valid.mp hv
    have hge : 0x100000000 ≤ n := by simpa using hge
    have h255 : x.1 = 255 := by
      have := UInt8.lt_iff_toNat_lt.not.mp h1
      have h253 : x.1.toNat ≠ 253 := fun he => h2 (UInt8.toNat_inj.mp he)
      have h254 : x.1.toNat ≠ 254 := fun he => h3 (UInt8.toNat_inj.mp he)
      have hmax := x.1.toNat_lt
      have hval : (253 : UInt8).toNat = 253 := rfl
      refine UInt8.toNat_inj.mp ?_
      show x.1.toNat = 255
      omega
    rw [if_neg (by omega), if_neg (by omega), if_neg (by omega), hb, h255, append_assoc]
    exact ⟨by omega, rfl⟩

/-- A compact size of at most `limit`. -/
def compactSize (limit : Nat) : Codec Nat :=
  guard
    { valid := fun n => n < 2 ^ 64
      put := putCompactSize
      get := getCompactSize
      get_put := fun _ hn rest => getCompactSize_put hn rest
      put_get := fun _ _ _ h => putCompactSize_get h } (· ≤ limit)

/-! ## Ordered maps -/

/-- A map as the list of its entries; a list that is not in key order is refused. -/
def orderedMap {κ ν : Type*} [LinearOrder κ] (c : Codec (List (κ × ν))) :
    Codec (OrderedMap κ ν) where
  valid m := c.valid m.entries
  put m := c.put m.entries
  get b := (c.get b).bind fun x =>
    if h : x.1.Pairwise fun a b => a.1 < b.1 then some (⟨x.1, h⟩, x.2) else none
  get_put m hm rest := by rw [c.get_put _ hm, bind_some, dif_pos m.sorted]
  put_get b m rest h := by
    obtain ⟨x, hx, h⟩ := bind_eq_some_iff.mp h
    split_ifs at h
    obtain ⟨rfl, rfl⟩ := Prod.mk.inj (some.inj h)
    exact c.put_get _ _ _ hx

end Codec
