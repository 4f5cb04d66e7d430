import B3Coin.Contracts.CertificateProver

/-!
# Field elements and points of the prover

What the byte loops of the contract compute as numbers, and what its match of an
uncompressed point with a compressed one says: among points of the curve it is equality,
and the precompiles refuse what is no point.
-/

namespace B3Coin.CertificateProver

open List Nat CurvePoints

open Codec (Bytes)

/-! ## Bytes as numbers -/

theorem bigEndian_digit {w r : Nat} (d : Nat) (hr : r < 256 ^ w) :
    bigEndian (w + 1) (r + 256 ^ w * d) = UInt8.ofNat d :: bigEndian w r := by
  have hq : 0 < 256 ^ w := Nat.pow_pos (by decide)
  rw [bigEndian, add_mul_div_left _ _ hq, div_eq_of_lt hr, zero_add,
    bigEndian_congr (add_mul_mod_self_left r (256 ^ w) d)]

theorem ofNat_congr {m n : Nat} (h : m % 256 = n % 256) : UInt8.ofNat m = UInt8.ofNat n :=
  UInt8.toNat_inj.mp (by simpa using h)

theorem digits_lt_iff {q r t : Nat} (d e : Nat) (hr : r < q) (ht : t < q) :
    r + q * d < t + q * e ↔ d < e ∨ d = e ∧ r < t := by
  rcases lt_trichotomy d e with h | rfl | h
  · have := mul_le_mul_left q (succ_le_of_lt h)
    rw [mul_succ] at this
    omega
  · omega
  · have := mul_le_mul_left q (succ_le_of_lt h)
    rw [mul_succ] at this
    omega

/-- A difference of such numbers, cut after its first digit. -/
theorem digits_sub {q r t d e : Nat} (hr : r < q) (ht : t < q) (he : e < 256) :
    r + q * d + q * 256 - (t + q * e) =
      if r < t then (r + q - t) + q * (d + 255 - e) else (r - t) + q * (d + 256 - e) := by
  have := mul_le_mul_left q (le_of_lt_succ he)
  rw [Nat.mul_sub, Nat.mul_sub, Nat.mul_add, Nat.mul_add]
  split_ifs <;> omega

theorem subBytes_bigEndian (w a b : Nat) : subBytes (bigEndian w a) (bigEndian w b) =
      (bigEndian w (a % 256 ^ w + 256 ^ w - b % 256 ^ w),
        if a % 256 ^ w < b % 256 ^ w then 1 else 0) := by
  induction w with
  | zero => simp [bigEndian, subBytes, mod_one]
  | succ w ih =>
    have hq : 0 < 256 ^ w := Nat.pow_pos (by decide)
    have ha : a % 256 ^ w < 256 ^ w := mod_lt _ hq
    have hb : b % 256 ^ w < 256 ^ w := mod_lt _ hq
    have he : b / 256 ^ w % 2 ^ 8 < 256 := mod_lt _ (by decide)
    rw [bigEndian, bigEndian, subBytes, ih, mod_pow_succ, mod_pow_succ, pow_succ]
    simp only [UInt8.toNat_ofNat', show (2 : Nat) ^ 8 = 256 from rfl] at *
    generalize a / 256 ^ w % 256 = d at *
    generalize b / 256 ^ w % 256 = e at *
    generalize a % 256 ^ w = r at *
    generalize b % 256 ^ w = t at *
    rw [digits_sub ha hb he]
    by_cases hborrow : r < t
    · simp only [hborrow, if_true, digits_lt_iff d e ha hb, and_true]
      rw [bigEndian_digit _ (by omega)]
      split_ifs with h1 h2 h2
      · exact Prod.ext (congrArg (· :: _) (ofNat_congr (by omega))) rfl
      · omega
      · omega
      · exact Prod.ext (congrArg (· :: _) (ofNat_congr (by omega))) rfl
    · have htail : bigEndian w (r + 256 ^ w - t) = bigEndian w (r - t) := by
        rw [Nat.sub_add_comm (Nat.le_of_not_lt hborrow)]
        exact bigEndian_congr (add_mod_right _ _)
      simp only [hborrow, if_false, digits_lt_iff d e ha hb, htail, and_false, or_false]
      rw [bigEndian_digit _ (by omega)]
      split_ifs with h1 h2 h2
      · exact Prod.ext (congrArg (· :: _) (ofNat_congr (by omega))) rfl
      · omega
      · omega
      · exact Prod.ext (congrArg (· :: _) (ofNat_congr (by omega))) rfl

theorem greaterThan48_bigEndian (w a b : Nat) :
    greaterThan48 (bigEndian w a) (bigEndian w b) = decide (b % 256 ^ w < a % 256 ^ w) := by
  induction w with
  | zero => simp [bigEndian, greaterThan48, mod_one]
  | succ w ih =>
    have hq : 0 < 256 ^ w := Nat.pow_pos (by decide)
    rw [bigEndian, bigEndian, greaterThan48, ih, mod_pow_succ, mod_pow_succ]
    simp only [digits_lt_iff _ _ (mod_lt b hq) (mod_lt a hq), gt_iff_lt,
      UInt8.lt_iff_toNat_lt, UInt8.toNat_ofNat', show (2 : Nat) ^ 8 = 256 from rfl]
    rw [Bool.eq_iff_iff, decide_eq_true_iff]
    split_ifs <;> simp <;> omega

theorem slice_append (p v t : Bytes) : slice (p ++ v ++ t) p.length v.length = v := by
  have hlen : ¬ p.length + v.length > (p ++ v ++ t).length := by
    simp only [length_append]
    omega
  rw [slice, if_neg hlen, append_assoc, drop_left, take_left]

theorem bigEndian_slot {y : Nat} (hy : y < 256 ^ 48) :
    bigEndian 64 y = replicate 16 0 ++ bigEndian 48 y := by
  rw [show 64 = 16 + 48 from rfl, bigEndian_add, div_eq_of_lt hy, bigEndian_zero]

theorem slice_slot {y : Nat} (hy : y < 256 ^ 48) : slice (bigEndian 64 y) 16 48 = bigEndian 48 y := by
  have := slice_append (replicate 16 0) (bigEndian 48 y) []
  rw [append_nil, length_replicate, length_bigEndian] at this
  rw [bigEndian_slot hy, this]

theorem pad64_bigEndian (n : Nat) : pad64 (bigEndian 48 n) = bigEndian 64 (n % 256 ^ 48) := by
  rw [pad64, if_neg (by simp), bigEndian_slot (mod_lt _ (by decide)),
    bigEndian_congr (mod_mod n (256 ^ 48))]

/-- The negative of a second coordinate as the contract computes it. -/
def negY (y : Nat) : Nat := (FIELD_MODULUS + 256 ^ 48 - y) % 256 ^ 48

theorem subFieldPadded_bigEndian {y : Nat} (hy : y < 256 ^ 48) :
    subFieldPadded (bigEndian 64 y) = bigEndian 64 (negY y) := by
  rw [subFieldPadded, slice_slot hy, subBytes_bigEndian, pad64_bigEndian, mod_eq_of_lt hy,
    mod_eq_of_lt (show FIELD_MODULUS < 256 ^ 48 by decide)]
  rfl

theorem negY_lt (y : Nat) : negY y < 256 ^ 48 := mod_lt _ (by decide)

theorem negY_of_lt {y : Nat} (hpos : 0 < y) (hy : y < FIELD_MODULUS) : negY y = FIELD_MODULUS - y := by
  have := FIELD_MODULUS_lt
  unfold negY
  omega

/-- Only the negative of a coordinate in range has it as its negative. -/
theorem eq_of_negY {y z : Nat} (hy : y < 256 ^ 48) (hpos : 0 < z) (hz : z < FIELD_MODULUS)
    (h : negY y = z) : y = FIELD_MODULUS - z := by
  have := FIELD_MODULUS_lt
  unfold negY at h
  omega

/-! ## The match of a point with its compressed form -/

/-- The string of two field elements. -/
def pointBytes (x y : Nat) : Bytes := bigEndian 64 x ++ bigEndian 64 y

theorem pointBytes_eq {x y : Nat} (hx : x < 256 ^ 48) (hy : y < 256 ^ 48) : pointBytes x y =
      replicate 16 0 ++ (bigEndian 48 x ++ (replicate 16 0 ++ bigEndian 48 y)) := by
  rw [pointBytes, bigEndian_slot hx, bigEndian_slot hy, append_assoc]

theorem getD_append_add {l l' : Bytes} {i : Nat} : (l ++ l').getD (l.length + i) 0 = l'.getD i 0 := by
  simp [getElem?_append_right]

theorem eq_of_getD {l l' : Bytes} {n : Nat} (hl : l.length = n) (hl' : l'.length = n)
    (h : ∀ i < n, l.getD i 0 = l'.getD i 0) : l = l' := by
  apply ext_getElem (hl.trans hl'.symm)
  intro i hi hi'
  have := h i (hl ▸ hi)
  rwa [getD_eq_getElem _ _ hi, getD_eq_getElem _ _ hi'] at this

/-- Zero padding is all that is asked of the form of the bytes. -/
theorem exists_pointBytes {u : Bytes} (hlen : u.length = 128)
    (hpad : ∀ i < 16, u.getD i 0 = 0 ∧ u.getD (64 + i) 0 = 0) :
    ∃ x < 256 ^ 48, ∃ y < 256 ^ 48, u = pointBytes x y := by
  obtain ⟨a, r, rfl, ha⟩ : ∃ a r, u = a ++ r ∧ a.length = 16 :=
    ⟨u.take 16, u.drop 16, (take_append_drop 16 u).symm, by simp [hlen]⟩
  rw [length_append, ha] at hlen
  obtain ⟨b, r, rfl, hb⟩ : ∃ b r', r = b ++ r' ∧ b.length = 48 :=
    ⟨r.take 48, r.drop 48, (take_append_drop 48 r).symm, by rw [length_take]; omega⟩
  rw [length_append, hb] at hlen
  obtain ⟨c, d, rfl, hc⟩ : ∃ c d, r = c ++ d ∧ c.length = 16 :=
    ⟨r.take 16, r.drop 16, (take_append_drop 16 r).symm, by rw [length_take]; omega⟩
  rw [length_append, hc] at hlen
  have hd : d.length = 48 := by omega
  obtain ⟨x, hx, hbx⟩ := exists_bigEndian b
  obtain ⟨y, hy, hdy⟩ := exists_bigEndian d
  rw [hb] at hx hbx
  rw [hd] at hy hdy
  have hzero : ∀ l : Bytes, l.length = 16 → (∀ i < 16, l.getD i 0 = 0) → l = replicate 16 0 :=
    fun l hl h => eq_of_getD hl (by simp) fun i hi => by
      rw [h i hi, getD_eq_getElem _ _ (by simpa using hi), getElem_replicate]
  have ha0 : a = replicate 16 0 := hzero a ha fun i hi => by
    have := (hpad i hi).1
    rwa [getD_append _ _ _ _ (by omega)] at this
  have hc0 : c = replicate 16 0 := hzero c hc fun i hi => by
    have := (hpad i hi).2
    rw [show 64 + i = a.length + (b.length + i) by omega, getD_append_add, getD_append_add] at this
    rwa [getD_append _ _ _ _ (by omega)] at this
  exact ⟨x, hx, y, hy, by rw [pointBytes_eq hx hy, ← hbx, ← hdy, ha0, hc0]⟩

/-- The first byte of a compressed point: a flag for the root and five bits. -/
theorem flag_bits (larger : Bool) {t : Nat} (ht : t < 32) :
    let byte := UInt8.ofNat ((if larger then 0xa0 else 0x80) + t)
    byte &&& 0xe0 &&& 0x80 ≠ 0 ∧ byte &&& 0xe0 &&& 0x40 = 0 ∧
      ((byte &&& 0xe0 &&& 0x20 != 0) = larger) ∧ byte &&& 0x1f = UInt8.ofNat t ∧
      byte &&& 0xc0 = 0x80 := by
  revert t
  cases larger <;> decide

theorem low_bits {d : Nat} (hd : d < 256) : UInt8.ofNat d &&& 0x1f = UInt8.ofNat (d % 32) := by
  revert d
  decide +kernel

theorem ofNat_inj {m n : Nat} (hm : m < 256) (hn : n < 256) :
    UInt8.ofNat m = UInt8.ofNat n ↔ m = n := by
  rw [← UInt8.toNat_inj, UInt8.toNat_ofNat', UInt8.toNat_ofNat', mod_eq_of_lt hm,
    mod_eq_of_lt hn]

/-- The compressed form of a first coordinate and a root. -/
def compressedBytes (larger : Bool) (z : Nat) : Bytes :=
  bigEndian 48 ((if larger then 0xa0 else 0x80) * 256 ^ 47 + z)

theorem compressedBytes_eq (larger : Bool) (z : Nat) : compressedBytes larger z =
      UInt8.ofNat ((if larger then 0xa0 else 0x80) + z / 256 ^ 47) :: bigEndian 47 z := by
  have hhead : ((if larger then 0xa0 else 0x80) * 256 ^ 47 + z) / 256 ^ 47 =
      (if larger then 0xa0 else 0x80) + z / 256 ^ 47 := by
    rw [mul_comm, mul_add_div (by decide)]
  have htail : ((if larger then 0xa0 else 0x80) * 256 ^ 47 + z) % 256 ^ 47 = z % 256 ^ 47 := by
    rw [mul_comm, mul_add_mod]
  rw [compressedBytes, bigEndian, hhead, bigEndian_congr htail]

theorem mod_shift_iff {q x z : Nat} (hq : 0 < q) (hz : z < 0x20 * q) :
    x % (0x20 * q) = z ↔ z / q = x / q % 32 ∧ z % q = x % q := by
  rw [mul_comm, mod_mul]
  have hdiv := div_add_mod z q
  constructor
  · rintro rfl
    rw [add_mul_div_left _ _ hq, div_eq_of_lt (mod_lt _ hq), zero_add,
      add_mul_mod_self_left, mod_mod]
    exact ⟨rfl, rfl⟩
  · rintro ⟨htop, hlow⟩
    rw [← hlow, ← htop, add_comm, hdiv]

/-- The contract compares the low bits of the first coordinates and the roots. -/
theorem compressedG1Matches_iff {larger : Bool} {x y z : Nat} (hx : x < 256 ^ 48)
    (hy : y < 256 ^ 48) (hz : z < 0x20 * 256 ^ 47) :
    compressedG1Matches (pointBytes x y) (compressedBytes larger z) = true ↔
      x % (0x20 * 256 ^ 47) = z ∧ larger = decide (negY y < y) := by
  have hlen : (pointBytes x y).length = 128 := by simp [pointBytes]
  have hlen' : (compressedBytes larger z).length = 48 := by simp [compressedBytes]
  have hd : x / 256 ^ 47 < 256 := by omega
  have ht : z / 256 ^ 47 < 32 := by omega
  obtain ⟨hset, hclear, hroot, hlow, -⟩ := flag_bits larger ht
  have hfirst : (compressedBytes larger z).getD 0 0 =
      UInt8.ofNat ((if larger then 0xa0 else 0x80) + z / 256 ^ 47) := by
    rw [compressedBytes_eq, getD_cons_zero]
  have hsixteen : (pointBytes x y).getD 16 0 = UInt8.ofNat (x / 256 ^ 47) := by
    rfl
  have hpads : (range 16).any (fun i =>
      (pointBytes x y).getD i 0 != 0 || (pointBytes x y).getD (64 + i) 0 != 0) = false := by
    have hzero : ∀ i < 16, (replicate 16 (0 : UInt8)).getD i 0 = 0 := by decide
    refine any_eq_false.mpr fun i hi => ?_
    rw [mem_range] at hi
    rw [pointBytes_eq hx hy, getD_append _ _ _ _ (by simpa using hi), hzero i hi,
      show 64 + i = (replicate 16 (0 : UInt8)).length + ((bigEndian 48 x).length + i) by
        simp only [length_replicate, length_bigEndian]; omega,
      getD_append_add, getD_append_add, getD_append _ _ _ _ (by simpa using hi), hzero i hi]
    decide
  have hrest : (range' 1 47).any (fun i =>
      (compressedBytes larger z).getD i 0 != (pointBytes x y).getD (16 + i) 0) = false ↔
        z % 256 ^ 47 = x % 256 ^ 47 := by
    have htail : ∀ i < 47, (pointBytes x y).getD (16 + (i + 1)) 0 = (bigEndian 47 x).getD i 0 := by
      intro i hi
      rw [pointBytes_eq hx hy, show 16 + (i + 1) = (replicate 16 (0 : UInt8)).length + (i + 1) by
        simp, getD_append_add, getD_append _ _ _ _ (by simp; omega), bigEndian,
        getD_cons_succ]
    have hcompressed : ∀ i, (compressedBytes larger z).getD (i + 1) 0 = (bigEndian 47 z).getD i 0 := by
      intro i
      rw [compressedBytes_eq, getD_cons_succ]
    rw [any_eq_false]
    constructor
    · intro h
      refine bigEndian_mod (eq_of_getD (length_bigEndian 47 z) (length_bigEndian 47 x) fun i hi => ?_)
      have := h (i + 1) (by rw [mem_range'_1]; omega)
      rw [← hcompressed, ← htail i hi]
      simpa using this
    · intro h i hi
      rw [mem_range'_1] at hi
      obtain ⟨i, rfl⟩ := Nat.exists_eq_add_of_le' hi.1
      rw [hcompressed, htail i (by omega), bigEndian_congr h]
      simp
  have hy' : slice (pointBytes x y) 80 48 = bigEndian 48 y := by
    have := slice_append (bigEndian 64 x ++ replicate 16 0) (bigEndian 48 y) []
    rw [append_nil, append_assoc, ← bigEndian_slot hy] at this
    simpa [pointBytes] using this
  have hneg : slice (subFieldPadded (pad64 (bigEndian 48 y))) 16 48 = bigEndian 48 (negY y) := by
    rw [pad64_bigEndian, mod_eq_of_lt hy, subFieldPadded_bigEndian hy, slice_slot (negY_lt y)]
  unfold compressedG1Matches
  simp only [hlen, hlen', hpads, hfirst, hsixteen, hy', hneg, hset, hclear, hroot, hlow,
    low_bits hd, greaterThan48_bigEndian, ne_eq, not_true, or_self, if_false, Bool.false_eq_true,
    mod_eq_of_lt hy, mod_eq_of_lt (negY_lt y), ofNat_inj (ht.trans (by decide))
      (show x / 256 ^ 47 % 32 < 256 by omega)]
  rw [mod_shift_iff (by decide) hz]
  by_cases htop : z / 256 ^ 47 = x / 256 ^ 47 % 32
  · rw [← hrest]
    cases hany : (range' 1 47).any fun i =>
        (compressedBytes larger z).getD i 0 != (pointBytes x y).getD (16 + i) 0
    · simp
    · simp
  · simp only [htop, not_false_iff, if_true, false_and, Bool.false_eq_true]

theorem flagged_byte {d : Nat} (hd : d < 256) (hset : UInt8.ofNat d &&& 0xe0 &&& 0x80 ≠ 0)
    (hclear : UInt8.ofNat d &&& 0xe0 &&& 0x40 = 0) :
    d = (if UInt8.ofNat d &&& 0x20 != 0 then 0xa0 else 0x80) + d % 32 := by
  revert d
  decide +kernel

/-- A string that carries the flags of a compressed point is the form of some coordinate. -/
theorem exists_compressedBytes {c : Bytes} (hlen : c.length = 48)
    (hset : c.getD 0 0 &&& 0xe0 &&& 0x80 ≠ 0) (hclear : c.getD 0 0 &&& 0xe0 &&& 0x40 = 0) :
    ∃ larger, ∃ z < 0x20 * 256 ^ 47, c = compressedBytes larger z := by
  cases c with
  | nil => cases hlen
  | cons byte tail =>
    obtain ⟨d, hd, rfl⟩ : ∃ d < 256, byte = UInt8.ofNat d :=
      ⟨byte.toNat, byte.toNat_lt, UInt8.ofNat_toNat.symm⟩
    obtain ⟨low, hlow, htail⟩ := exists_bigEndian tail
    rw [show tail.length = 47 by simpa using hlen] at hlow htail
    have hbyte := flagged_byte hd hset hclear
    have hdiv : (256 ^ 47 * (d % 32) + low) / 256 ^ 47 = d % 32 := by
      rw [mul_add_div (by decide), div_eq_of_lt hlow, add_zero]
    refine ⟨UInt8.ofNat d &&& 0x20 != 0, 256 ^ 47 * (d % 32) + low, by omega, ?_⟩
    rw [compressedBytes_eq, hdiv, ← hbyte, bigEndian_congr (mul_add_mod _ _ _), htail]

/-- The difference is exact, and of all strings exactly the compressed form of a point passes. -/
theorem compression_check_exact : (∀ y, 0 < y → y < FIELD_MODULUS →
      subFieldPadded (bigEndian 64 y) = bigEndian 64 (FIELD_MODULUS - y)) ∧
    ∀ x y c, x < FIELD_MODULUS → 0 < y → y < FIELD_MODULUS →
      (compressedG1Matches (bigEndian 64 x ++ bigEndian 64 y) c = true ↔
        c = compressedBytes (decide (FIELD_MODULUS - y < y)) x) := by
  have hmodulus := FIELD_MODULUS_lt
  constructor
  · intro y hpos hy
    rw [subFieldPadded_bigEndian (by omega), negY_of_lt hpos hy]
  · intro x y c hx hpos hy
    have hiff : ∀ larger, ∀ z < 0x20 * 256 ^ 47,
        compressedG1Matches (pointBytes x y) (compressedBytes larger z) = true ↔
          x = z ∧ larger = decide (FIELD_MODULUS - y < y) := by
      intro larger z hz
      rw [compressedG1Matches_iff (by omega) (by omega) hz, mod_eq_of_lt (by omega),
        negY_of_lt hpos hy]
    constructor
    · intro h
      have hform : ∃ larger, ∃ z < 0x20 * 256 ^ 47, c = compressedBytes larger z := by
        unfold compressedG1Matches at h
        dsimp only at h
        split_ifs at h with hlen _ hflags
        rw [not_or, not_not] at hflags
        exact exists_compressedBytes (by omega) hflags.1 hflags.2
      obtain ⟨larger, z, hz, rfl⟩ := hform
      obtain ⟨rfl, rfl⟩ := (hiff larger z hz).mp h
      rfl
    · rintro rfl
      exact (hiff _ x (by omega)).mpr ⟨rfl, rfl⟩

/-! ## Points -/

section Points

variable {G : Type} [AddCommGroup G] {C : CurvePoints G} {P Q R : G} {x y : Nat}

theorem coords_lt_element (h : C.coords P = some (x, y)) :
    x < 0x20 * 256 ^ 47 ∧ x < 256 ^ 48 ∧ y < 256 ^ 48 := by
  have := C.coords_lt P x y h
  have := FIELD_MODULUS_lt
  omega

theorem eip2537_of_coords (h : C.coords P = some (x, y)) : C.eip2537 P = pointBytes x y := by
  rw [CurvePoints.eip2537, h, pointBytes]

theorem compress_of_coords (h : C.coords P = some (x, y)) :
    bigEndian 48 (C.compress P) = compressedBytes (decide (FIELD_MODULUS - y < y)) x := by
  simp [CurvePoints.compress_of_coords h, compressedBytes]

/-- Among points the match is equality. -/
theorem compressedG1Matches_eip2537_iff (hprime : Q ∈ C.prime) (hQ : Q ≠ 0) :
    compressedG1Matches (C.eip2537 P) (bigEndian 48 (C.compress Q)) = true ↔ P = Q := by
  obtain ⟨x, y, hq⟩ := exists_coords (C := C) hQ
  obtain ⟨hlow, hx, hy⟩ := coords_lt_element hq
  rw [compress_of_coords hq]
  by_cases hP : P = 0
  · have hzero : C.eip2537 P = pointBytes 0 0 := by rw [hP, eip2537_zero, pointBytes]
    rw [hzero, compressedG1Matches_iff (by decide) (by decide) hlow, zero_mod]
    constructor
    · rintro ⟨rfl, -⟩
      exact absurd hq (C.prime_ne Q hprime y)
    · exact fun h => absurd (h ▸ hP) hQ
  · obtain ⟨x', y', hp⟩ := exists_coords (C := C) hP
    obtain ⟨hlow', hx', hy'⟩ := coords_lt_element hp
    have hrange := (C.coords_lt P x' y' hp).2
    rw [eip2537_of_coords hp, compressedG1Matches_iff hx' hy' hlow, mod_eq_of_lt hlow',
      negY_of_lt hrange.1 hrange.2, decide_eq_decide]
    constructor
    · rintro ⟨rfl, hroot⟩
      exact eq_of_coords hp hq hroot.symm
    · rintro rfl
      rw [hp] at hq
      cases hq
      exact ⟨rfl, Iff.rfl⟩

theorem g1Neg_pointBytes (hy : y < 256 ^ 48) : g1Neg (pointBytes x y) = pointBytes x (negY y) := by
  have hfirst : slice (pointBytes x y) 0 64 = bigEndian 64 x := by
    simpa [pointBytes] using slice_append [] (bigEndian 64 x) (bigEndian 64 y)
  have hsecond : slice (pointBytes x y) 64 64 = bigEndian 64 y := by
    simpa [pointBytes] using slice_append (bigEndian 64 x) (bigEndian 64 y) []
  rw [g1Neg, if_neg (by simp [pointBytes]), hfirst, hsecond, subFieldPadded_bigEndian hy, pointBytes]

theorem g1Neg_eip2537 (hP : P ≠ 0) : g1Neg (C.eip2537 P) = C.eip2537 (-P) := by
  obtain ⟨x, y, hp⟩ := exists_coords (C := C) hP
  obtain ⟨-, -, hy⟩ := coords_lt_element hp
  have hrange := (C.coords_lt P x y hp).2
  rw [eip2537_of_coords hp, g1Neg_pointBytes hy, negY_of_lt hrange.1 hrange.2,
    eip2537_of_coords (C.coords_neg P x y hp)]

theorem matches_pointBytes {u c : Bytes} (h : compressedG1Matches u c = true) :
    ∃ x < 256 ^ 48, ∃ y < 256 ^ 48, u = pointBytes x y := by
  unfold compressedG1Matches at h
  dsimp only at h
  split_ifs at h with hlen hpad
  refine exists_pointBytes (by omega) fun i hi => ?_
  have := any_eq_false.mp (Bool.eq_false_iff.mpr hpad) i (mem_range.mpr hi)
  simpa using this

/-- Bytes that match a key and whose negative the curve accepts are those of the key. -/
theorem eq_eip2537_of_matches {u : Bytes} (hprime : Q ∈ C.prime) (hQ : Q ≠ 0)
    (h : compressedG1Matches u (bigEndian 48 (C.compress Q)) = true)
    (hneg : g1Neg u = C.eip2537 R) : u = C.eip2537 Q := by
  obtain ⟨x, hx, y, hy, rfl⟩ := matches_pointBytes h
  rw [g1Neg_pointBytes hy] at hneg
  have hpoint : ∃ P, pointBytes x y = C.eip2537 P := by
    by_cases hR : R = 0
    · -- both coordinates would be zero, which no key has
      obtain ⟨xq, yq, hq⟩ := exists_coords (C := C) hQ
      rw [hR, eip2537_zero] at hneg
      have hx0 := bigEndian_inj (hx.trans (by decide)) (by decide)
        (append_inj hneg (by simp)).1
      rw [compress_of_coords hq, compressedG1Matches_iff hx hy (coords_lt_element hq).1, hx0,
        zero_mod] at h
      exact absurd (h.1 ▸ hq) (C.prime_ne Q hprime yq)
    · have hcoords := coords_of_eip2537 (hx.trans (by decide))
        ((negY_lt y).trans (by decide)) hR hneg
      have hrange := (C.coords_lt R x _ hcoords).2
      refine ⟨-R, ?_⟩
      rw [eip2537_of_coords (C.coords_neg R x _ hcoords), ← eq_of_negY hy hrange.1 hrange.2 rfl]
  obtain ⟨P, hP⟩ := hpoint
  rw [hP] at h ⊢
  rw [(compressedG1Matches_eip2537_iff hprime hQ).mp h]

end Points

end B3Coin.CertificateProver
