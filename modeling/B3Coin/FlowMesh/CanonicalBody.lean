import B3Coin.FlowMesh.BatchSpec

/-!
# One canonical body for a set of actions

`CanonicalizeActions` promises one body for one logical set of actions. Its order
compares deposits by outpoint alone, so that two deposits of one outpoint with
different ids are neither ordered nor merged. Without such a pair the body, and with it
the slot, is a function of the set of ids; with one it is not.
-/
namespace B3Coin.FlowMesh

open Codec SortUnique List

/-! ## Ids and actions -/

namespace Action

/-- The values an `Action` of the source can hold. -/
structure Typed (a : Action) : Prop where
  signer : a.signer < 2 ^ 256
  asset : a.asset < 2 ^ 256
  destination : a.destination < 2 ^ 256
  outpoint : a.outpoint.hash < 2 ^ 256
  amount : -2 ^ 63 ≤ a.amount ∧ a.amount < 2 ^ 63
  price : ∀ p ∈ a.curve, -2 ^ 63 ≤ p.price ∧ p.price < 2 ^ 63
  qty : ∀ p ∈ a.curve, -2 ^ 63 ≤ p.qty ∧ p.qty < 2 ^ 63
  points : a.curve.length < 2 ^ 64

instance (a : Action) : Decidable a.Typed :=
  decidable_of_iff (a.signer < 2 ^ 256 ∧ a.asset < 2 ^ 256 ∧ a.destination < 2 ^ 256 ∧
      a.outpoint.hash < 2 ^ 256 ∧ (-2 ^ 63 ≤ a.amount ∧ a.amount < 2 ^ 63) ∧
      (∀ p ∈ a.curve, -2 ^ 63 ≤ p.price ∧ p.price < 2 ^ 63) ∧
      (∀ p ∈ a.curve, -2 ^ 63 ≤ p.qty ∧ p.qty < 2 ^ 63) ∧ a.curve.length < 2 ^ 64)
    ⟨fun ⟨h₁, h₂, h₃, h₄, h₅, h₆, h₇, h₈⟩ => ⟨h₁, h₂, h₃, h₄, h₅, h₆, h₇, h₈⟩,
      fun h => ⟨h.signer, h.asset, h.destination, h.outpoint, h.amount, h.price, h.qty, h.points⟩⟩

/-- The action without its credential. -/
def strip (a : Action) : Action := { a with credential := [] }

/-- The hashed fields as one record. -/
def semanticCodec : Codec Action :=
  (uint256.pair (u64.pair (u8.pair ((counted (natLE 8) breakpointCodec).pair
    (uint256.pair (int64.pair (uint256.pair outPointCodec))))))).map
    (fun (signer, sequence, type, curve, asset, amount, destination, outpoint) =>
      ⟨signer, sequence, type, curve, asset, amount, destination, outpoint, []⟩)
    (fun a => (a.signer, a.sequence, a.type, a.curve, a.asset, a.amount, a.destination,
      a.outpoint)) fun _ _ => rfl

variable {D : Digests} {a b : Action}

@[simp] theorem strip_id : a.strip.id D = a.id D := rfl

theorem semanticBytes_eq (h : a.curve.length < 2 ^ 64) :
    a.semanticBytes = semanticCodec.put a.strip := by
  have hlen : u64.put (UInt64.ofNat a.curve.length) = (natLE 8).put a.curve.length := by
    show (natLE 8).put (UInt64.ofNat a.curve.length).toNat = _
    rw [UInt64.toNat_ofNat_of_lt' h]
  unfold semanticBytes
  rw [hlen]
  simp only [append_assoc]
  rfl

theorem Typed.valid (h : a.Typed) : semanticCodec.valid a.strip := by
  refine ⟨⟨uint256_valid.mpr h.signer, u64_valid _, u8_valid _,
    ⟨natLE_valid.mpr h.points, fun p hp => ?_⟩, uint256_valid.mpr h.asset,
    int64_valid.mpr h.amount, uint256_valid.mpr h.destination,
    ⟨uint256_valid.mpr h.outpoint, u32_valid _⟩, rfl⟩, rfl⟩
  exact ⟨⟨int64_valid.mpr (h.price p hp), int64_valid.mpr (h.qty p hp)⟩, rfl⟩

theorem Typed.strip (h : a.Typed) : a.strip.Typed := { h with }

/-- Every field but the credential is hashed. -/
theorem strip_eq_of_semanticBytes (ha : a.Typed) (hb : b.Typed)
    (h : a.semanticBytes = b.semanticBytes) : a.strip = b.strip := by
  rw [semanticBytes_eq ha.points, semanticBytes_eq hb.points] at h
  exact semanticCodec.put_injective ha.valid hb.valid h

/-! ## The canonical order -/

/-- The place of an action in the canonical order. -/
def canonicalKey (D : Digests) (a : Action) : Nat ×ₗ Nat ×ₗ Nat ×ₗ Nat :=
  if a.isDeposit then toLex (0, toLex (a.outpoint.hash, toLex (a.outpoint.n.toNat, 0)))
  else toLex (1, toLex (a.signer, toLex (a.sequence.toNat, a.id D)))

theorem canonicalLess_iff : a.canonicalLess D b = true ↔ a.canonicalKey D < b.canonicalKey D := by
  unfold canonicalLess canonicalKey
  cases ha : a.isDeposit <;> cases hb : b.isDeposit
  · rcases eq_or_ne a.signer b.signer with hs | hs
    · rcases eq_or_ne a.sequence b.sequence with hq | hq
      · simp [Prod.Lex.toLex_lt_toLex, hs, hq]
      · have hq' : a.sequence.toNat ≠ b.sequence.toNat := fun h => hq (UInt64.toNat_inj.mp h)
        simp [Prod.Lex.toLex_lt_toLex, hs, hq, hq', UInt64.lt_iff_toNat_lt]
    · simp [Prod.Lex.toLex_lt_toLex, hs]
  · simp [Prod.Lex.toLex_lt_toLex]
  · simp [Prod.Lex.toLex_lt_toLex]
  · simp [Prod.Lex.toLex_lt_toLex, COutPoint.lt, UInt32.lt_iff_toNat_lt]

/-- The comparison `CanonicalizeActions` sorts with. -/
theorem canonicalLess_eq_false_iff (D : Digests) (a b : Action) :
    b.canonicalLess D a = false ↔ a.canonicalKey D ≤ b.canonicalKey D := by
  rw [← not_lt, ← canonicalLess_iff, Bool.not_eq_true]

/-- Signed actions in one place have one id; deposits in one place have one outpoint. -/
theorem canonicalKey_eq_imp_id_iff : (a.canonicalKey D = b.canonicalKey D → a.id D = b.id D) ↔
    (a.isDeposit → b.isDeposit → a.outpoint = b.outpoint → a.id D = b.id D) := by
  have hout : a.outpoint = b.outpoint ↔
      a.outpoint.hash = b.outpoint.hash ∧ a.outpoint.n.toNat = b.outpoint.n.toNat := by
    rw [UInt32.toNat_inj]
    cases a.outpoint
    cases b.outpoint
    simp
  unfold canonicalKey
  cases ha : a.isDeposit <;> cases hb : b.isDeposit
  · simp [Prod.ext_iff]
  · simp
  · simp
  · simp [hout]

end Action

/-! ## The canonical body -/

section Body

variable {D : Digests} {xs ys : List Action}

/-- The ids of the actions do not collide. -/
def IdsCollisionFree (D : Digests) (xs : List Action) : Prop :=
  ∀ a ∈ xs, ∀ b ∈ xs, a.id D = b.id D → a.semanticBytes = b.semanticBytes

/-- The same set of semantic ids. -/
def SameIds (D : Digests) (xs ys : List Action) : Prop :=
  ∀ i, i ∈ xs.map (·.id D) ↔ i ∈ ys.map (·.id D)

theorem SameIds.of_subset (h : xs ⊆ ys) (h' : ys ⊆ xs) : SameIds D xs ys :=
  fun _ => ⟨fun hi => map_subset _ h hi, fun hi => map_subset _ h' hi⟩

/-- No outpoint is claimed under two ids. -/
def OutpointsUnshared (D : Digests) (xs : List Action) : Prop :=
  ∀ a ∈ xs, ∀ b ∈ xs, a.isDeposit → b.isDeposit → a.outpoint = b.outpoint → a.id D = b.id D

theorem canonicalizeActions_eq (D : Digests) (xs : List Action) : canonicalizeActions D xs =
    sortUnique (fun a b => b.canonicalLess D a = false) (·.id D) (xs.map (·.strip)) := rfl

theorem named_strip (hty : ∀ a ∈ xs, a.Typed) (hfree : IdsCollisionFree D xs) :
    Named (·.id D) (xs.map (·.strip)) := by
  simp only [Named, forall_mem_map, Action.strip_id]
  exact fun a ha b hb h =>
    Action.strip_eq_of_semanticBytes (hty a ha) (hty b hb) (hfree a ha b hb h)

theorem actionsAreCanonical_iff (D : Digests) (xs : List Action) :
    actionsAreCanonical D xs = true ↔ (∀ a ∈ xs, a.credential = []) ∧
      xs.IsChain fun a b => a.canonicalKey D < b.canonicalKey D := by
  simp [actionsAreCanonical, Action.canonicalLess_iff]

/-- The body is strictly ordered exactly when no outpoint is claimed under two ids. -/
theorem canonicalizeActions_canonical_iff (hty : ∀ a ∈ xs, a.Typed)
    (hfree : IdsCollisionFree D xs) :
    actionsAreCanonical D (canonicalizeActions D xs) = true ↔ OutpointsUnshared D xs := by
  have hcred : ∀ a ∈ canonicalizeActions D xs, a.credential = [] := by
    intro a ha
    obtain ⟨x, _, rfl⟩ := mem_map.mp (mem_of_mem_sortUnique ha)
    rfl
  rw [actionsAreCanonical_iff, and_iff_right hcred, canonicalizeActions_eq,
    isChain_sortUnique_iff (Action.canonicalLess_eq_false_iff D) (named_strip hty hfree)]
  simp only [forall_mem_map, Action.canonicalKey_eq_imp_id_iff]
  rfl

theorem outpointsUnshared_strip :
    OutpointsUnshared D (xs.map (·.strip)) ↔ OutpointsUnshared D xs := by
  simp only [OutpointsUnshared, forall_mem_map]
  rfl

section

variable (hty : ∀ a ∈ xs ++ ys, a.Typed) (hfree : IdsCollisionFree D (xs ++ ys))
  (hset : SameIds D xs ys)

include hty hfree hset

theorem SameIds.mem_strip (a : Action) : a ∈ xs.map (·.strip) ↔ a ∈ ys.map (·.strip) := by
  have heq {x y : Action} (hx : x ∈ xs) (hy : y ∈ ys) (h : x.id D = y.id D) :
      x.strip = y.strip :=
    Action.strip_eq_of_semanticBytes (hty x (mem_append_left _ hx))
      (hty y (mem_append_right _ hy))
      (hfree x (mem_append_left _ hx) y (mem_append_right _ hy) h)
  simp only [mem_map]
  constructor
  · rintro ⟨x, hx, rfl⟩
    obtain ⟨y, hy, hid⟩ := mem_map.mp ((hset _).mp (mem_map_of_mem hx))
    exact ⟨y, hy, (heq hx hy hid.symm).symm⟩
  · rintro ⟨y, hy, rfl⟩
    obtain ⟨x, hx, hid⟩ := mem_map.mp ((hset _).mpr (mem_map_of_mem hy))
    exact ⟨x, hx, heq hx hy hid⟩

/-- Two lists of one id set have one body if no outpoint is claimed under two ids. -/
theorem canonicalizeActions_congr
    (h : OutpointsUnshared D xs) : canonicalizeActions D xs = canonicalizeActions D ys := by
  have htyx : ∀ a ∈ xs, a.Typed := fun a ha => hty a (mem_append_left _ ha)
  have htyy : ∀ a ∈ ys, a.Typed := fun a ha => hty a (mem_append_right _ ha)
  have hfreex : IdsCollisionFree D xs := fun a ha b hb =>
    hfree a (mem_append_left _ ha) b (mem_append_left _ hb)
  have hfreey : IdsCollisionFree D ys := fun a ha b hb =>
    hfree a (mem_append_right _ ha) b (mem_append_right _ hb)
  have hmem := hset.mem_strip hty hfree
  have hy : OutpointsUnshared D ys := by
    rw [← outpointsUnshared_strip] at h ⊢
    exact fun a ha b hb => h a ((hmem a).mpr ha) b ((hmem b).mpr hb)
  refine eq_of_isChain (·.canonicalKey D)
    ((actionsAreCanonical_iff D _).mp ((canonicalizeActions_canonical_iff htyx hfreex).mpr h)).2
    ((actionsAreCanonical_iff D _).mp ((canonicalizeActions_canonical_iff htyy hfreey).mpr hy)).2
    fun a => ?_
  rw [canonicalizeActions_eq, canonicalizeActions_eq, mem_sortUnique (named_strip htyx hfreex),
    mem_sortUnique (named_strip htyy hfreey), hmem]

end

/-- A canonical body is its own canonical form. -/
theorem canonicalizeActions_of_canonical (hty : ∀ a ∈ xs, a.Typed)
    (hfree : IdsCollisionFree D xs) (h : actionsAreCanonical D xs = true) :
    canonicalizeActions D xs = xs := by
  obtain ⟨hcred, hchain⟩ := (actionsAreCanonical_iff D xs).mp h
  have hstrip : xs.map (·.strip) = xs := by
    refine (map_congr_left fun a ha => ?_).trans (map_id xs)
    rw [Action.strip, ← hcred a ha]
    rfl
  have hnamed := named_strip hty hfree
  rw [canonicalizeActions_eq]
  rw [hstrip] at hnamed ⊢
  exact sortUnique_of_isChain (Action.canonicalLess_eq_false_iff D) hnamed hchain

theorem executeSlot_congr {C : BatchCrypto}
    (h : canonicalizeActions C.toDigests xs = canonicalizeActions C.toDigests ys)
    (x : SlotContext) (s : FlowMeshState) (settlements : List WithdrawalSettlementFact) :
    executeSlot C x s xs settlements = executeSlot C x s ys settlements := by
  unfold executeSlot
  rw [h]

theorem exists_of_mem_canonicalizeActions {a : Action} (h : a ∈ canonicalizeActions D xs) :
    ∃ x ∈ xs, a = x.strip := by
  obtain ⟨x, hx, rfl⟩ := mem_map.mp (mem_of_mem_sortUnique h)
  exact ⟨x, hx, rfl⟩

/-- For two lists of one id set: one body, canonical and stable, and one outcome of the slot
from every state, exactly when no outpoint is claimed under two ids. -/
theorem execution_by_ids_iff (C : BatchCrypto) (hty : ∀ a ∈ xs ++ ys, a.Typed)
    (hfree : IdsCollisionFree C.toDigests (xs ++ ys)) (hset : SameIds C.toDigests xs ys) :
    (canonicalizeActions C.toDigests xs = canonicalizeActions C.toDigests ys ∧
      actionsAreCanonical C.toDigests (canonicalizeActions C.toDigests xs) = true ∧
      canonicalizeActions C.toDigests (canonicalizeActions C.toDigests xs) =
        canonicalizeActions C.toDigests xs ∧
      ∀ x s settlements, executeSlot C x s xs settlements = executeSlot C x s ys settlements) ↔
    OutpointsUnshared C.toDigests xs := by
  have htyx : ∀ a ∈ xs, a.Typed := fun a ha => hty a (mem_append_left _ ha)
  have hfreex : IdsCollisionFree C.toDigests xs := fun a ha b hb =>
    hfree a (mem_append_left _ ha) b (mem_append_left _ hb)
  have hcanon := canonicalizeActions_canonical_iff htyx hfreex
  refine ⟨fun h => hcanon.mp h.2.1, fun h => ?_⟩
  have hcongr := canonicalizeActions_congr hty hfree hset h
  refine ⟨hcongr, hcanon.mpr h, ?_, executeSlot_congr hcongr⟩
  refine canonicalizeActions_of_canonical ?_ ?_ (hcanon.mpr h)
  · intro a ha
    obtain ⟨x, hx, rfl⟩ := exists_of_mem_canonicalizeActions ha
    exact (htyx x hx).strip
  · intro a ha b hb
    obtain ⟨x, hx, rfl⟩ := exists_of_mem_canonicalizeActions ha
    obtain ⟨y, hy, rfl⟩ := exists_of_mem_canonicalizeActions hb
    exact hfreex x hx y hy

end Body

/-! ## Two deposits of one outpoint -/

namespace Sample

/-- Ids that are injective on the actions below. -/
def idCrypto : BatchCrypto := { crypto with actionId := leValue }

/-- A deposit with an amount, which its shape forbids. -/
def malformedDeposit (amount : Int) : Action :=
  { type := 5, outpoint := ⟨1, 0⟩, amount := amount }

def once : List Action := [malformedDeposit 1, malformedDeposit 2]

def twice : List Action := [malformedDeposit 1, malformedDeposit 2, malformedDeposit 1]

end Sample

open Sample in
/-- The repeated entry is not adjacent to its first copy, and both bodies are executed. -/
theorem shared_outpoint_splits_body :
    (∀ a ∈ twice ++ once, a.Typed) ∧ IdsCollisionFree idCrypto.toDigests (twice ++ once) ∧
      SameIds idCrypto.toDigests twice once ∧
      canonicalizeActions idCrypto.toDigests twice ≠ canonicalizeActions idCrypto.toDigests once ∧
      actionsAreCanonical idCrypto.toDigests (canonicalizeActions idCrypto.toDigests once) = false ∧
      executeSlot idCrypto context (.new config) twice [] ≠
        executeSlot idCrypto context (.new config) once [] := by
  refine ⟨by decide +kernel, by unfold IdsCollisionFree; decide +kernel,
    .of_subset (by decide) (by decide), by decide +kernel, by decide +kernel, fun h => ?_⟩
  have hthree : (executeSlot idCrypto context (.new config) twice []).map
      (·.1.rejected.length) = some 3 := by decide +kernel
  rw [h] at hthree
  exact absurd hthree (by decide +kernel)

open Sample in
theorem sample_execution_by_ids :
    canonicalizeActions idCrypto.toDigests [deposit 2, deposit 1, deposit 2] =
      canonicalizeActions idCrypto.toDigests [deposit 1, deposit 2] ∧
    executeSlot idCrypto context (.new config) [deposit 2, deposit 1, deposit 2] [] =
      executeSlot idCrypto context (.new config) [deposit 1, deposit 2] [] := by
  have h := (execution_by_ids_iff idCrypto
    (show ∀ a ∈ [deposit 2, deposit 1, deposit 2] ++ [deposit 1, deposit 2], a.Typed by
      decide +kernel) (by unfold IdsCollisionFree; decide +kernel)
    (.of_subset (by decide) (by decide))).mpr (by unfold OutpointsUnshared; decide +kernel)
  exact ⟨h.1, h.2.2.2 context (.new config) []⟩

end B3Coin.FlowMesh
