import B3Coin.Contracts.ProverPoints
import B3Coin.Finality.ValidatorSet
import Mathlib.Data.List.Sort

/-!
# What the prover checks of absent members

The bits of a bitmap as the two sides count them, the loop over the absent members, the
branches that lead to the root of a set the node built, and the keys taken off the
aggregate.
-/
namespace B3Coin.CertificateProver

open List WordTree FinalityVerifier CurvePoints

open Codec (Bytes)
open Finality (signerBit signers isWellFormedSignerBitmap ValidatorSetSnapshot ValidatorSetMember
  keyOf totalWeight validatorSetLeafPreimage)

/-! ## Bitmaps -/

theorem popcount_eq (value : UInt8) :
    popcount value = (List.range 8).countP fun j => (value.toNat >>> j) % 2 == 1 := by
  have h : ∀ n < 256, popcount (UInt8.ofNat n) =
      (List.range 8).countP fun j => ((UInt8.ofNat n).toNat >>> j) % 2 == 1 := by decide +kernel
  simpa using h value.toNat value.toNat_lt

theorem signerBit_cons (byte : UInt8) (bitmap : Bytes) (i : Nat) :
    signerBit (byte :: bitmap) (8 + i) = signerBit bitmap i := by
  rw [signerBit, signerBit, show (8 + i) / 8 = i / 8 + 1 by omega,
    show (8 + i) % 8 = i % 8 by omega, getElem?_cons_succ]

theorem signerCount_eq (bitmap : Bytes) :
    signerCount bitmap = (List.range (8 * bitmap.length)).countP (signerBit bitmap) := by
  induction bitmap with
  | nil => rfl
  | cons byte bitmap ih =>
    have hfirst : popcount byte = (List.range 8).countP (signerBit (byte :: bitmap)) := by
      rw [popcount_eq]
      refine countP_congr fun j hj => ?_
      rw [mem_range] at hj
      rw [signerBit, Nat.div_eq_of_lt hj, Nat.mod_eq_of_lt hj, getElem?_cons_zero]
    have hrest : (fun i => signerBit (byte :: bitmap) (8 + i)) = signerBit bitmap :=
      funext (signerBit_cons byte bitmap)
    rw [length_cons, Nat.mul_succ, Nat.add_comm, range_add, countP_append,
      countP_map, ← hfirst]
    show popcount byte + signerCount bitmap = _
    rw [ih, Function.comp_def, hrest]

/-- The shape both sides ask of a bitmap. -/
structure WellFormed (bitmap : Bytes) (n : Nat) : Prop where
  length : bitmap.length = (n + 7) / 8
  high : n % 8 ≠ 0 → (bitmap.getD (n / 8) 0).toNat >>> (n % 8) = 0

variable {bitmap : Bytes} {n : Nat}

theorem isWellFormedSignerBitmap_iff (hpos : n ≠ 0) (hle : n ≤ Finality.MAX_FINALITY_SET) :
    isWellFormedSignerBitmap bitmap n = true ↔ WellFormed bitmap n := by
  have hlast : bitmap.length = (n + 7) / 8 → n % 8 ≠ 0 →
      bitmap.getLastD 0 = bitmap.getD (n / 8) 0 := by
    intro hlen hmod
    rw [getLastD_eq_getLast?, getLast?_eq_getElem?, getD_eq_getElem?_getD, hlen,
      show (n + 7) / 8 - 1 = n / 8 by omega]
  simp only [isWellFormedSignerBitmap, Finality.signerBitmapBytes, Bool.and_eq_true, bne_iff_ne,
    decide_eq_true_eq, beq_iff_eq, Bool.or_eq_true]
  constructor
  · rintro ⟨⟨-, hlen⟩, hhigh⟩
    refine ⟨hlen, fun hmod => ?_⟩
    rw [← hlast hlen hmod]
    exact hhigh.resolve_left hmod
  · rintro ⟨hlen, hhigh⟩
    refine ⟨⟨⟨hpos, hle⟩, hlen⟩, ?_⟩
    by_cases hmod : n % 8 = 0
    · exact .inl hmod
    · exact .inr (by rw [hlast hlen hmod]; exact hhigh hmod)

/-- No bit from `n` on is set. -/
theorem WellFormed.signerBit_eq_false {i : Nat} (h : WellFormed bitmap n)
    (hi : n ≤ i) : signerBit bitmap i = false := by
  unfold signerBit
  by_cases hlast : i / 8 < bitmap.length
  · have hlen := h.length
    have hbyte : i / 8 = n / 8 := by omega
    have hhigh := h.high (by omega)
    rw [← hbyte, getD_eq_getElem _ _ hlast, Nat.shiftRight_eq_div_pow,
      Nat.div_eq_zero_iff_lt (Nat.two_pow_pos _)] at hhigh
    have hsmall := hhigh.trans_le (Nat.pow_le_pow_right (by decide : 0 < 2)
      (show n % 8 ≤ i % 8 by omega))
    rw [getElem?_eq_getElem hlast]
    show (bitmap[i / 8].toNat >>> (i % 8) % 2 == 1) = false
    rw [Nat.shiftRight_eq_div_pow, Nat.div_eq_of_lt hsmall]
    rfl
  · rw [getElem?_eq_none (by omega)]

theorem WellFormed.signerCount (h : WellFormed bitmap n) :
    signerCount bitmap = (List.range n).countP (signerBit bitmap) := by
  have hlen := h.length
  obtain ⟨k, hk⟩ : ∃ k, 8 * bitmap.length = n + k := ⟨8 * bitmap.length - n, by omega⟩
  have hhigh : ((List.range k).map (n + ·)).countP (signerBit bitmap) = 0 := by
    rw [countP_eq_zero]
    intro i hi
    obtain ⟨j, -, rfl⟩ := mem_map.mp hi
    rw [h.signerBit_eq_false (by omega)]
    decide
  rw [signerCount_eq, hk, range_add, countP_append, hhigh, Nat.add_zero]

/-! ## Present and absent members -/

/-- The members whose bit is clear, with their indices. -/
def clearMembers (bitmap : Bytes) (set : ValidatorSetSnapshot) : List (ValidatorSetMember × Nat) :=
  set.members.zipIdx.filter fun m => !signerBit bitmap m.2

theorem sum_signers_add {A : Type} [AddCommMonoid A] (bitmap : Bytes) (set : ValidatorSetSnapshot)
    (f : ValidatorSetMember → A) :
    ((signers bitmap set).map f).sum + ((clearMembers bitmap set).map fun m => f m.1).sum =
      (set.members.map f).sum := by
  have hperm := filter_append_perm (fun m : ValidatorSetMember × Nat => signerBit bitmap m.2)
    set.members.zipIdx
  have hsum := (hperm.map fun m => f m.1).sum_eq
  rw [map_append, sum_append] at hsum
  have hall : set.members.zipIdx.map (fun m => f m.1) = set.members.map f := by
    have := congrArg (List.map f) (zipIdx_map_fst 0 set.members)
    rwa [map_map] at this
  rw [signers, map_map]
  exact hsum.trans (congrArg List.sum hall)

section

variable (bitmap : Bytes) (set : ValidatorSetSnapshot)

theorem length_signers :
    (signers bitmap set).length = (List.range set.size).countP (signerBit bitmap) := by
  have hindices : set.members.zipIdx.map (·.2) = List.range set.size := by
    rw [zipIdx_map_snd, range_eq_range']
    rfl
  rw [signers, length_map, ← countP_eq_length_filter, ← hindices, countP_map]
  rfl

theorem clearMembers_indices : (clearMembers bitmap set).map (·.2) =
      (List.range set.size).filter fun i => !signerBit bitmap i := by
  have hindices : set.members.zipIdx.map (·.2) = List.range set.size := by
    rw [zipIdx_map_snd, range_eq_range']
    rfl
  rw [clearMembers, ← hindices, filter_map]
  rfl

end

/-- Increasing indices of clear bits, as many as there are, are all of them. -/
theorem indices_eq {l : List Nat} (hl : l.Pairwise (· < ·))
    (hclear : ∀ i ∈ l, i < n ∧ signerBit bitmap i = false)
    (hcount : (List.range n).countP (signerBit bitmap) + l.length = n) :
    l = (List.range n).filter fun i => !signerBit bitmap i := by
  have hsub : l ⊆ (List.range n).filter fun i => !signerBit bitmap i := by
    intro i hi
    obtain ⟨hlt, hbit⟩ := hclear i hi
    exact mem_filter.mpr ⟨mem_range.mpr hlt, by rw [hbit]; rfl⟩
  have hsorted : ((List.range n).filter fun i => !signerBit bitmap i).Pairwise (· < ·) :=
    pairwise_lt_range.filter _
  have hlen : ((List.range n).filter fun i => !signerBit bitmap i).length ≤ l.length := by
    have hall := length_eq_length_filter_add (l := List.range n) (signerBit bitmap)
    rw [length_range, ← countP_eq_length_filter] at hall
    omega
  have hperm := (subperm_of_subset (hl.imp ne_of_lt) hsub).perm_of_length_le hlen
  exact hperm.eq_of_pairwise' (hl.imp le_of_lt) (hsorted.imp le_of_lt)

/-! ## The loop over the absent members -/

section Loop

variable (keccak256 : Bytes → Uint256) (h : FinalityVerifier.SetHeader) (bitmap : Bytes)

/-- What is checked of an absent member, its place in the list aside. -/
@[mk_iff] structure AbsentOk (a : Absent) : Prop where
  index_lt : a.index < h.validatorCount
  clear : signerBit bitmap a.index = false
  length : a.pubkey.length = 48
  point_length : a.uncompressedPubkey.length = 128
  key : compressedG1Matches a.uncompressedPubkey a.pubkey = true
  root : memberRoot keccak256 a.index a.pubkey a.weight a.siblings = h.membersRoot

variable {keccak256 h bitmap}

theorem signerBit_eq_getD (bitmap : Bytes) (i : Nat) :
    signerBit bitmap i = ((bitmap.getD (i / 8) 0).toNat >>> (i % 8) % 2 != 0) := by
  rw [signerBit, getD_eq_getElem?_getD]
  cases bitmap[i / 8]? with
  | none => simp
  | some byte =>
    dsimp only [Option.getD_some]
    rcases Nat.mod_two_eq_zero_or_one (byte.toNat >>> (i % 8)) with hbit | hbit <;> rw [hbit] <;> rfl

theorem absentAccepted_iff {previous : Option Nat} {a : Absent} :
    absentAccepted keccak256 h bitmap previous a = true ↔
      (∀ p ∈ previous, p < a.index) ∧ AbsentOk keccak256 h bitmap a := by
  have hprevious : previous.any (a.index ≤ ·) = false ↔ ∀ p ∈ previous, p < a.index := by
    cases previous <;> simp
  simp only [absentAccepted, ← signerBit_eq_getD, Bool.not_eq_true', Bool.or_eq_false_iff,
    hprevious, decide_eq_false_iff_not, Nat.not_le, bne_eq_false_iff_eq, Bool.not_eq_false',
    ge_iff_le, absentOk_iff, and_assoc]
  exact and_left_comm

/-- The loop accepts increasing lists of absent members and adds up their weights. -/
theorem absentWeight_eq_some_iff {previous : Option Nat} {w w' : Nat} {absent : List Absent}
    (hw : w ≤ h.totalWeight) : absentWeight keccak256 h bitmap previous w absent = some w' ↔
      (absent.map (·.index)).Pairwise (· < ·) ∧ (∀ p ∈ previous, ∀ a ∈ absent, p < a.index) ∧
        (∀ a ∈ absent, AbsentOk keccak256 h bitmap a) ∧
        w' = w + (absent.map (·.weight)).sum ∧ w' ≤ h.totalWeight := by
  induction absent generalizing previous w with
  | nil =>
    simp only [absentWeight, Option.some.injEq, map_nil, sum_nil, Nat.add_zero,
      List.Pairwise.nil, not_mem_nil, false_imp_iff, implies_true, true_and]
    constructor
    · rintro rfl
      exact ⟨rfl, hw⟩
    · rintro ⟨rfl, -⟩
      rfl
  | cons a absent ih =>
    rw [absentWeight]
    simp only [map_cons, pairwise_cons, forall_mem_cons,
      sum_cons, mem_map, forall_exists_index, and_imp, forall_apply_eq_imp_iff₂]
    by_cases haccepted : absentAccepted keccak256 h bitmap previous a = true
    · have hok := absentAccepted_iff.mp haccepted
      rw [if_neg (not_not_intro haccepted)]
      by_cases hle : w + a.weight > h.totalWeight
      · rw [if_pos hle]
        refine iff_of_false (by simp) ?_
        omega
      · rw [if_neg hle, ih (by omega)]
        constructor
        · rintro ⟨hsorted, hnext, hall, rfl, hle'⟩
          refine ⟨⟨fun b hb => hnext a.index rfl b hb, hsorted⟩, fun p hp => ⟨hok.1 p hp, ?_⟩,
            ⟨hok.2, hall⟩, by omega, hle'⟩
          exact fun b hb => (hok.1 p hp).trans (hnext a.index rfl b hb)
        · rintro ⟨⟨hfirst, hsorted⟩, -, ⟨-, hall⟩, rfl, hle'⟩
          refine ⟨hsorted, fun p hp b hb => ?_, hall, by omega, hle'⟩
          cases hp
          exact hfirst b hb
    · rw [if_pos haccepted]
      refine iff_of_false (by simp) ?_
      rintro ⟨-, hprev, ⟨ha, -⟩, -⟩
      exact haccepted (absentAccepted_iff.mpr ⟨fun p hp => (hprev p hp).1, ha⟩)

end Loop

/-! ## The header on both chains -/

/-- The header as calldata. -/
def setHeader (h : Finality.ValidatorSetHeader) : FinalityVerifier.SetHeader :=
  ⟨h.epoch, h.rulesetVersion, h.validatorCount, h.totalWeight, h.quorumWeight,
    bigEndian 48 h.aggregatePubkey, h.membersRoot⟩

def finalizedBlock (fb : Finality.FinalizedBlock) : FinalityVerifier.FinalizedBlock :=
  ⟨fb.height, fb.blockHash, fb.withdrawalRoot, fb.validatorSetHash, fb.epoch⟩

theorem hashSetHeader_eq (keccak256 : Bytes → Uint256) (h : Finality.ValidatorSetHeader) :
    hashSetHeader keccak256 (setHeader h) =
      Finality.validatorSetHash keccak256 h := rfl

theorem finalityDigest_eq (sha256 : Bytes → Uint256) (chainDomain : Uint256)
    (fb : Finality.FinalizedBlock) : finalityDigest sha256 chainDomain (finalizedBlock fb) =
      Finality.finalityDigest sha256 chainDomain fb := by
  simp [finalityDigest, Finality.finalityDigest, finalizedBlock, Finality.FinalizedBlock.encode]

section Set

variable {G₁ G₂ : Type} [AddCommGroup G₁] [Zero G₂] {B : Bls G₁ G₂} {keccak256 : Bytes → Uint256}
  {set : Finality.BuiltSet G₁}

theorem headerShapeValid_setHeader (hset : set.Spec B keccak256)
    (hroot : set.header.membersRoot ≠ 0) :
    headerShapeValid (setHeader set.header) = true := by
  have hsize : 0 < set.snapshot.size := length_pos_of_ne_nil hset.nonempty
  have hle := hset.size_le
  have hpos := hset.totalWeight_pos
  have hlt := hset.totalWeight_lt
  have hquorum : Finality.quorumWeightV1 (totalWeight set.snapshot) =
      quorumWeight (totalWeight set.snapshot) := by
    unfold Finality.quorumWeightV1 quorumWeight U64
    rw [if_neg (by omega)]
  obtain ⟨x, y, hA⟩ := exists_coords (C := B.toCurvePoints) hset.aggregate_ne
  have hflag : (bigEndian 48 set.header.aggregatePubkey).headD 0 &&& 0xc0 = 0x80 := by
    rw [hset.aggregate, compress_of_coords hA, compressedBytes_eq]
    exact (flag_bits _ (by have := (coords_lt_element hA).1; omega)).2.2.2.2
  unfold headerShapeValid setHeader
  simp only [hset.ruleset, hset.count, hset.total, hset.quorum, hquorum, hflag, length_bigEndian,
    Finality.FINALITY_RULESET_V1, FinalityVerifier.RULESET_V1, FinalityVerifier.MAX_VALIDATORS]
  unfold Finality.MAX_FINALITY_SET at hle
  simp [hroot, hle]
  omega

/-! ## Branches of the set -/

/-- The string hashed for an absent member. -/
def leafPreimage (a : Absent) : Bytes := bigEndian 4 a.index ++ a.pubkey ++ bigEndian 8 a.weight

variable (keccak256 set) in
/-- The siblings of a member in the tree of the set. -/
def siblingPath (i : Nat) : List Uint256 :=
  Merkle.siblings (node keccak256) (row set.leaves) 0 SET_TREE_DEPTH i

variable (keccak256 set) in
/-- The strings hashed for the leaves of the set, for the branches of a proof, and for the true
branches at the same places. -/
def hashedStrings (absent : List Absent) : List Bytes :=
  (set.snapshot.members.zipIdx.map fun m =>
      validatorSetLeafPreimage m.2 m.1.blsPubkey m.1.weight) ++
    absent.flatMap fun a =>
      leafPreimage a ::
        (Merkle.climbed (node keccak256) a.index (keccak256 (leafPreimage a)) a.siblings ++
          Merkle.climbed (node keccak256) a.index (row set.leaves a.index)
            (siblingPath keccak256 set a.index)).map nodePreimage

/-- The entry of a proof is that of a member. -/
structure Named (a : Absent) (m : ValidatorSetMember × Nat) : Prop where
  index : a.index = m.2
  pubkey : a.pubkey = bigEndian 48 m.1.blsPubkey
  weight : a.weight = m.1.weight

variable {m : ValidatorSetMember}

theorem row_leaves (hset : set.Spec B keccak256) {i : Nat}
    (hm : set.snapshot.members[i]? = some m) : row set.leaves i =
      keccak256 (validatorSetLeafPreimage i m.blsPubkey m.weight) := by
  rw [row, getD_eq_getElem?_getD, hset.leaves, getElem?_map,
    getElem?_zipIdx, hm, Nat.zero_add]
  rfl

theorem leaves_lt (hset : set.Spec B keccak256) (hdigest : ∀ b, keccak256 b < 256 ^ 32) :
    ∀ leaf ∈ set.leaves, leaf < 256 ^ 32 := by
  intro leaf hleaf
  rw [hset.leaves] at hleaf
  obtain ⟨m, -, rfl⟩ := mem_map.mp hleaf
  exact hdigest _

theorem memberRoot_eq (a : Absent) : memberRoot keccak256 a.index a.pubkey a.weight a.siblings =
      Merkle.climb (node keccak256) a.index (keccak256 (leafPreimage a)) a.siblings := by
  rw [memberRoot, climbPath_eq, Nat.pow_zero, Nat.div_one]
  rfl

variable {absent : List Absent}

/-- A branch that reaches the root names the member at its place. -/
theorem named_of_root (hset : set.Spec B keccak256) (hdigest : ∀ b, keccak256 b < 256 ^ 32)
    (hfree : Set.InjOn keccak256 {b | b ∈ hashedStrings keccak256 set absent}) {a : Absent}
    (ha : a ∈ absent) (hm : set.snapshot.members[a.index]? = some m)
    (hroot : memberRoot keccak256 a.index a.pubkey a.weight a.siblings = set.header.membersRoot) :
    Named a (m, a.index) := by
  have hindex : a.index < 2 ^ SET_TREE_DEPTH := by
    have := (List.getElem?_eq_some_iff.mp hm).1
    exact this.trans_le hset.size_le
  have hmember : (m, a.index) ∈ set.snapshot.members.zipIdx :=
    mk_mem_zipIdx_iff_getElem?.mpr hm
  have hleafMem : validatorSetLeafPreimage a.index m.blsPubkey m.weight ∈
      hashedStrings keccak256 set absent :=
    mem_append_left _ (mem_map_of_mem hmember)
  have hbranch : ∀ b ∈ leafPreimage a ::
      (Merkle.climbed (node keccak256) a.index (keccak256 (leafPreimage a)) a.siblings ++
        Merkle.climbed (node keccak256) a.index (row set.leaves a.index)
          (siblingPath keccak256 set a.index)).map nodePreimage,
      b ∈ hashedStrings keccak256 set absent :=
    fun b hb => mem_append_right _ (mem_flatMap.mpr ⟨a, ha, hb⟩)
  rw [memberRoot_eq, hset.root] at hroot
  have hleaf := ((climb_eq_root_iff hdigest (leaves_lt hset hdigest) hindex (hdigest _)
    a.sibling_lt a.length_eq hfree
    (fun p hp => hbranch _ (.tail _ (mem_map_of_mem (mem_append_left _ hp))))
    (fun p hp => hbranch _ (.tail _ (mem_map_of_mem (mem_append_right _ hp))))).mp
    hroot).1
  rw [row_leaves hset hm] at hleaf
  have hstring := hfree (hbranch _ (.head _)) hleafMem hleaf
  obtain ⟨hstring, hweight⟩ := append_inj' hstring (by simp)
  obtain ⟨-, hpubkey⟩ := append_inj hstring (by simp)
  have hbound : m.weight < 256 ^ 8 :=
    (hset.weight m (mem_of_getElem? hm)).2.trans (by decide)
  exact ⟨rfl, hpubkey, bigEndian_inj a.weight_lt hbound hweight⟩

theorem forall₂_of_map_eq {α β γ : Type} {f : α → γ} {g : β → γ} {R : α → β → Prop} {l : List α}
    {l' : List β} (h : l.map f = l'.map g) (hR : ∀ a ∈ l, ∀ b ∈ l', f a = g b → R a b) :
    List.Forall₂ R l l' := by
  induction l generalizing l' with
  | nil =>
    rw [map_eq_nil_iff.mp h.symm]
    exact .nil
  | cons a l ih =>
    cases l' with
    | nil => cases h
    | cons b l' =>
      obtain ⟨hab, h⟩ := List.cons.inj h
      exact .cons (hR a mem_cons_self b mem_cons_self hab)
        (ih h fun x hx y hy => hR x (mem_cons_of_mem _ hx) y (mem_cons_of_mem _ hy))

omit [AddCommGroup G₁] in
/-- The entries of an accepted proof are those of all the members that are absent. -/
theorem forall₂_named {bitmap : Bytes}
    (hindices : absent.map (·.index) = (clearMembers bitmap set.snapshot).map (·.2))
    (hnamed : ∀ a ∈ absent, ∀ m, set.snapshot.members[a.index]? = some m → Named a (m, a.index)) :
    List.Forall₂ Named absent (clearMembers bitmap set.snapshot) := by
  refine forall₂_of_map_eq hindices fun a ha m hm hindex => ?_
  have hm := mem_zipIdx_iff_getElem?.mp (mem_of_mem_filter hm)
  have hnamed := hnamed a ha m.1 (by rw [hindex]; exact hm)
  exact ⟨hindex, hnamed.pubkey, hnamed.weight⟩

variable {l : List (ValidatorSetMember × Nat)}

theorem sum_weight_named (h : List.Forall₂ Named absent l) :
    (absent.map (·.weight)).sum = (l.map fun m => m.1.weight).sum := by
  induction h with
  | nil => rfl
  | cons hnamed _ ih => rw [map_cons, map_cons, sum_cons, sum_cons, hnamed.weight, ih]

/-! ## The aggregate of the signers -/

variable {E : Precompiles B}

theorem subtractAbsent_cons (sum : Bytes) (a : Absent) (absent : List Absent) :
    subtractAbsent E sum (a :: absent) =
      (match E.g1Add (sum ++ g1Neg a.uncompressedPubkey) with
        | none => none
        | some result => if result.length = 128 then some result else none).bind
          fun sum => subtractAbsent E sum absent := rfl

/-- A sum the curve accepts is that of the aggregate and the negated keys of the members. -/
theorem subtractAbsent_sound (hset : set.Spec B keccak256) (hnamed : List.Forall₂ Named absent l)
    (hmem : ∀ m ∈ l, m.1 ∈ set.snapshot.members)
    (hkey : ∀ a ∈ absent, compressedG1Matches a.uncompressedPubkey a.pubkey = true) {sum : Bytes}
    (hlen : sum.length = 128) {T : G₁} (h : subtractAbsent E sum absent = some (B.eip2537 T)) :
    ∃ P, sum = B.eip2537 P ∧ T = P - (l.map fun m => keyOf B m.1).sum := by
  induction hnamed generalizing sum with
  | nil => exact ⟨T, Option.some.inj h, by simp⟩
  | @cons a m absent l hname hrest ih =>
    rw [forall_mem_cons] at hmem hkey
    obtain ⟨hne, hprime, hcompress⟩ := (B.decodeKey_eq_some _ _).mp (hset.decodes m.1 hmem.1)
    rw [subtractAbsent_cons] at h
    obtain ⟨result, hresult, h⟩ := Option.bind_eq_some_iff.mp h
    split at hresult
    · cases hresult
    · rename_i added hadd
      split_ifs at hresult with hlength
      cases hresult
      obtain ⟨P, R, rfl, hneg, rfl⟩ := (E.g1Add_eq_some _ _ _ hlen).mp hadd
      -- the match and the curve together leave the key of the member
      have hpoint : a.uncompressedPubkey = B.eip2537 (keyOf B m.1) := by
        refine eq_eip2537_of_matches hprime hne ?_ hneg
        rw [hcompress, ← hname.pubkey]
        exact hkey.1
      rw [hpoint, g1Neg_eip2537 hne] at hneg
      obtain rfl := eip2537_injective hneg
      obtain ⟨P', hP', rfl⟩ := ih hmem.2 hkey.2 hlength h
      obtain rfl := eip2537_injective hP'
      refine ⟨P, rfl, ?_⟩
      rw [map_cons, sum_cons]
      abel

theorem subtractAbsent_complete (hset : set.Spec B keccak256)
    (hnamed : List.Forall₂ (fun a m => a.uncompressedPubkey = B.eip2537 (keyOf B m.1))
      absent l)
    (hmem : ∀ m ∈ l, m.1 ∈ set.snapshot.members) (P : G₁) : subtractAbsent E (B.eip2537 P) absent =
      some (B.eip2537 (P - (l.map fun m => keyOf B m.1).sum)) := by
  induction hnamed generalizing P with
  | nil => simp [subtractAbsent]
  | @cons a m absent l hname hrest ih =>
    rw [forall_mem_cons] at hmem
    obtain ⟨hne, -, -⟩ := (B.decodeKey_eq_some _ _).mp (hset.decodes m.1 hmem.1)
    have hadd : E.g1Add (B.eip2537 P ++ g1Neg a.uncompressedPubkey) =
        some (B.eip2537 (P + -keyOf B m.1)) := by
      rw [hname, g1Neg_eip2537 hne]
      exact (E.g1Add_eq_some _ _ _ (length_eip2537 P)).mpr ⟨_, _, rfl, rfl, rfl⟩
    rw [subtractAbsent_cons, hadd]
    simp only [length_eip2537, if_true, Option.bind_some]
    rw [ih hmem.2, map_cons, sum_cons, sub_add_eq_sub_sub, sub_eq_add_neg P]

end Set

end B3Coin.CertificateProver
