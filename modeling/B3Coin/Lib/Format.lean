import B3Coin.Lib.Codec
import B3Coin.Lib.Guards

/-!
# Formats that name what they refuse

A `Format` is a codec whose reader says why it refuses. Its one law makes it canonical: what is
read is valid and was its own encoding, and every encoding is read.
-/
structure Format (ε α : Type) where
  valid : α → Prop
  put : α → Codec.Bytes
  read : Codec.Bytes → Except ε (α × Codec.Bytes)
  read_eq_ok : ∀ {b a rest}, read b = .ok (a, rest) ↔ valid a ∧ b = put a ++ rest

namespace Format

open Codec Guards List

variable {ε α β : Type}

/-- A codec with one reason to refuse. -/
def field (c : Codec α) (e : ε) : Format ε α where
  valid := c.valid
  put := c.put
  read b := demand (c.get b) e
  read_eq_ok := by
    intro b a rest
    rw [demand_eq_ok]
    refine ⟨c.put_get b a rest, ?_⟩
    rintro ⟨ha, rfl⟩
    exact c.get_put a ha rest

variable (f : Format ε α)

def check (p : α → Prop) [DecidablePred p] (e : ε) : Format ε α where
  valid a := f.valid a ∧ p a
  put := f.put
  read b := do
    let x ← f.read b
    reject (¬ p x.1) e
    .ok x
  read_eq_ok := by
    intro b a rest
    simp only [Bind.bind, bind_eq_ok, reject_eq_ok, exists_const, Prod.exists, f.read_eq_ok, not_not]
    constructor
    · rintro ⟨_, _, ⟨ha, rfl⟩, hp, hx⟩
      cases hx
      exact ⟨⟨ha, hp⟩, rfl⟩
    · rintro ⟨⟨ha, hp⟩, rfl⟩
      exact ⟨_, _, ⟨ha, rfl⟩, hp, rfl⟩

/-- Bytes behind their length follow; `g` and `h` make one value of the two parts. -/
def sized (limit : Nat) (hlimit : limit < 2 ^ 64) (size bound short : ε) (g : α → Bytes → β)
    (h : β → α × Bytes) (hg : ∀ a p, h (g a p) = (a, p)) (hh : ∀ x, g (h x).1 (h x).2 = x) :
    Format ε β where
  valid x := f.valid (h x).1 ∧ (h x).2.length ≤ limit
  put x := f.put (h x).1 ++ (putCompactSize (h x).2.length ++ (h x).2)
  read b := do
    let x ← f.read b
    let len ← demand (getCompactSize x.2) size
    reject (len.1 > limit) bound
    let y ← demand ((raw len.1).get len.2) short
    .ok (g x.1 y.1, y.2)
  read_eq_ok := by
    intro b x rest
    simp only [Bind.bind, bind_eq_ok, demand_eq_ok, reject_eq_ok, exists_const, Prod.exists,
      f.read_eq_ok, not_lt, append_assoc]
    constructor
    · rintro ⟨_, _, ⟨ha, rfl⟩, _, _, hlen, hle, _, _, hy, hx⟩
      cases hx
      obtain ⟨_, rfl⟩ := putCompactSize_get hlen
      obtain ⟨rfl, rfl⟩ := (raw _).put_get _ _ _ hy
      simp only [hg]
      exact ⟨⟨ha, hle⟩, rfl⟩
    · rintro ⟨⟨ha, hle⟩, rfl⟩
      exact ⟨_, _, ⟨ha, rfl⟩, _, _, getCompactSize_put (hle.trans_lt hlimit) _, hle, _, _,
        (raw _).get_put _ rfl _, by rw [hh]⟩

/-! ## Lists -/

/-- Items one after the other. Their sizes are added to `total`, which may not pass the limit. -/
def readItems (size : α → Nat) (limit : Nat) (e : ε) : Nat → Nat → Bytes → Except ε (List α × Bytes)
  | 0, _, b => .ok ([], b)
  | n + 1, total, b => do
    let x ← f.read b
    reject (total > limit - size x.1) e
    let y ← readItems size limit e n (total + size x.1) x.2
    .ok (x.1 :: y.1, y.2)

variable {f} {size : α → Nat} {limit least : Nat} {e : ε}

theorem readItems_eq_ok (hsize : ∀ a, f.valid a → size a ≤ limit) {n total : Nat} {b rest : Bytes}
    {l : List α} (h : total ≤ limit) : f.readItems size limit e n total b = .ok (l, rest) ↔
      l.length = n ∧ (∀ a ∈ l, f.valid a) ∧ total + (l.map size).sum ≤ limit ∧
        b = l.flatMap f.put ++ rest := by
  induction n generalizing total b l rest with
  | zero =>
    constructor
    · rintro ⟨⟩
      simpa using h
    · rintro ⟨hl, -, -, rfl⟩
      rw [eq_nil_of_length_eq_zero hl]
      rfl
  | succ n ih =>
    simp only [readItems, Bind.bind, bind_eq_ok, reject_eq_ok, exists_const, Prod.exists,
      f.read_eq_ok]
    constructor
    · rintro ⟨a, _, ⟨ha, rfl⟩, hle, l, _, hl, hx⟩
      cases hx
      have := hsize a ha
      obtain ⟨rfl, hall, hsum, rfl⟩ := (ih (by omega)).mp hl
      rw [map_cons, sum_cons, ← Nat.add_assoc, flatMap_cons, append_assoc]
      exact ⟨rfl, forall_mem_cons.mpr ⟨ha, hall⟩, hsum, rfl⟩
    · rintro ⟨hlen, hl, hsum, rfl⟩
      obtain ⟨a, l, rfl⟩ := exists_cons_of_length_eq_add_one hlen
      obtain ⟨ha, hl⟩ := forall_mem_cons.mp hl
      have := hsize a ha
      rw [map_cons, sum_cons, ← Nat.add_assoc] at hsum
      rw [flatMap_cons, append_assoc]
      exact ⟨a, _, ⟨ha, rfl⟩, by omega, l, _, (ih (by omega)).mpr ⟨Nat.succ.inj hlen, hl, hsum, rfl⟩,
        rfl⟩

/-- Items of at least `least` bytes leave room for no more than so many. -/
theorem length_le_div (h : ∀ a, least ≤ (f.put a).length) (hpos : 0 < least) (l : List α)
    (rest : Bytes) : l.length ≤ (l.flatMap f.put ++ rest).length / least := by
  rw [Nat.le_div_iff_mul_le hpos, length_append]
  induction l with
  | nil => simp
  | cons a l ih =>
    have := h a
    rw [length_cons, Nat.succ_mul, flatMap_cons, length_append]
    omega

/-- A count, which has to be possible for the bytes that are left, and the items. -/
def list (h : ∀ a, least ≤ (f.put a).length) (hpos : 0 < least) (count few : ε) :
    Format ε (List α) where
  valid l := l.length < 2 ^ 64 ∧ ∀ a ∈ l, f.valid a
  put l := putCompactSize l.length ++ l.flatMap f.put
  read b := do
    let n ← demand (getCompactSize b) count
    reject (n.1 > n.2.length / least) few
    f.readItems (fun _ => 0) 0 few n.1 0 n.2
  read_eq_ok := by
    intro b l rest
    simp only [Bind.bind, bind_eq_ok, demand_eq_ok, reject_eq_ok, exists_const, Prod.exists,
      readItems_eq_ok (fun _ _ => le_refl 0) (le_refl 0), append_assoc]
    constructor
    · rintro ⟨_, _, hn, -, rfl, hl, -, rfl⟩
      obtain ⟨hlen, rfl⟩ := putCompactSize_get hn
      exact ⟨⟨hlen, hl⟩, rfl⟩
    · rintro ⟨⟨hlen, hl⟩, rfl⟩
      exact ⟨_, _, getCompactSize_put hlen _, not_lt.mpr (length_le_div h hpos l rest), rfl, hl,
        by simp, rfl⟩

end Format
