import B3Coin.Bls
import B3Coin.WordTree
import B3Coin.Finality.Certificate

/-!
# Validator sets

`node/validator_set.cpp` and the set commitment of `modern/finality_types.h`: the members
of a set from the active stake and the key bindings, the tree over them and the header both
chains hash. Totals are 64 bits wide and wrap, as in the source.
-/
namespace B3Coin.Finality

open List Option Nat Merkle WordTree

open Codec (Bytes)

/-- The base units in one unit of weight. -/
def FINALITY_WEIGHT_UNIT : Int := 1000000000
def FINALITY_RULESET_V1 : Nat := 1
def FINALITY_SET_TREE_DEPTH : Nat := 13

/-- The part of a binding the set reads; a revoked one has the null key. -/
structure BindingRecord where
  blsPubkey : BlsPubkey
  deriving DecidableEq

def BindingRecord.isRevoked (b : BindingRecord) : Bool := b.blsPubkey == 0

structure ValidatorSetHeader where
  epoch : Nat
  rulesetVersion : Nat
  validatorCount : Nat
  totalWeight : Nat
  quorumWeight : Nat
  aggregatePubkey : BlsPubkey
  membersRoot : Uint256
  deriving DecidableEq

def ValidatorSetHeader.encode (h : ValidatorSetHeader) : Bytes :=
  bigEndian 8 h.epoch ++ bigEndian 2 h.rulesetVersion ++ bigEndian 4 h.validatorCount ++
    bigEndian 8 h.totalWeight ++ bigEndian 8 h.quorumWeight ++ bigEndian 48 h.aggregatePubkey ++
    bigEndian 32 h.membersRoot

def FinalizedBlock.encode (fb : FinalizedBlock) : Bytes :=
  bigEndian 8 fb.height ++ bigEndian 32 fb.blockHash ++ bigEndian 32 fb.withdrawalRoot ++
    bigEndian 32 fb.validatorSetHash ++ bigEndian 8 fb.epoch

/-- `FinalityDigest`, the tag being hashed twice in front as in every tagged hash. -/
def finalityDigest (sha256 : Bytes → Uint256) (chainDomain : Uint256) (fb : FinalizedBlock) :
    Uint256 :=
  let tag := bigEndian 32 (sha256 "B3/FINALITY/V1".toUTF8.toList)
  sha256 ((tag ++ tag) ++ (bigEndian 32 chainDomain ++ fb.encode))

section Commitment

variable (keccak : Bytes → Uint256)

def validatorSetHash (h : ValidatorSetHeader) : Uint256 := keccak h.encode

def validatorSetLeafPreimage (index : Nat) (blsPubkey : BlsPubkey) (weight : Nat) : Bytes :=
  bigEndian 4 index ++ bigEndian 48 blsPubkey ++ bigEndian 8 weight

def validatorSetLeaf (index : Nat) (blsPubkey : BlsPubkey) (weight : Nat) : Uint256 :=
  keccak (validatorSetLeafPreimage index blsPubkey weight)

/-- One pass of `ValidatorSetMembersRoot` over a level of even size. -/
def nextLevel : List Uint256 → List Uint256
  | left :: right :: rest => keccak (bigEndian 32 left ++ bigEndian 32 right) :: nextLevel rest
  | _ => []

/-- The passes, while more than one node is left. -/
def foldLevels : Nat → List Uint256 → List Uint256
  | 0, level => level
  | passes + 1, level =>
    if level.length > 1 then foldLevels passes (nextLevel keccak level) else level

def validatorSetMembersRoot (leaves : List Uint256) : Option Uint256 :=
  if leaves.length > MAX_FINALITY_SET then none
  else
    let padded := leaves ++ List.replicate (MAX_FINALITY_SET - leaves.length) 0
    some ((foldLevels keccak FINALITY_SET_TREE_DEPTH padded).headD 0)

variable {keccak}

theorem nextLevel_subtree (leaf : Nat → Uint256) (level i m : Nat) :
    nextLevel keccak ((List.range' (2 * i) (2 * m)).map
      (subtree (node keccak) leaf level)) =
        (List.range' i m).map (subtree (node keccak) leaf (level + 1)) := by
  induction m generalizing i with
  | zero => rfl
  | succ m ih =>
    rw [show 2 * (m + 1) = 2 * m + 1 + 1 by omega, range'_succ, range'_succ,
      range'_succ, map_cons, map_cons, map_cons, nextLevel,
      show 2 * i + 1 + 1 = 2 * (i + 1) by omega, ih]
    rfl

theorem foldLevels_subtree (leaf : Nat → Uint256) (passes level : Nat) :
    foldLevels keccak passes ((List.range' 0 (2 ^ passes)).map
      (subtree (node keccak) leaf level)) =
        [subtree (node keccak) leaf (level + passes) 0] := by
  induction passes generalizing level with
  | zero => rfl
  | succ passes ih =>
    have hmany : 1 < 2 ^ (passes + 1) := Nat.one_lt_two_pow (by omega)
    rw [foldLevels, if_pos (by simp [hmany]), Nat.pow_succ', ← Nat.mul_zero 2,
      nextLevel_subtree, mul_zero, ih, add_right_comm, add_assoc]

/-- The loop computes the root of the full tree. -/
theorem validatorSetMembersRoot_eq {leaves : List Uint256} (hlen : leaves.length ≤ MAX_FINALITY_SET) :
    validatorSetMembersRoot keccak leaves =
      some (subtree (node keccak) (row leaves)
        FINALITY_SET_TREE_DEPTH 0) := by
  have hpadded : leaves ++ List.replicate (MAX_FINALITY_SET - leaves.length) 0 =
      (List.range' 0 (2 ^ FINALITY_SET_TREE_DEPTH)).map
        (subtree (node keccak) (row leaves) 0) := by
    have hsize : 2 ^ FINALITY_SET_TREE_DEPTH = MAX_FINALITY_SET := by decide
    apply ext_getElem
    · simp only [length_append, length_replicate, length_map, length_range',
        hsize]
      omega
    · intro i hi hi'
      simp only [getElem_map, getElem_range', subtree, row]
      by_cases hleaf : i < leaves.length
      · simp [hleaf]
      · simp [hleaf, getElem_append_right (Nat.le_of_not_lt hleaf)]
  unfold validatorSetMembersRoot
  rw [if_neg (not_lt.mpr hlen), hpadded]
  dsimp only
  rw [foldLevels_subtree, zero_add, headD_cons]

end Commitment

/-! ## Building a set -/

/-- The member of one stake holder, if it has whole coins and a key. -/
def memberOf (bindings : OrderedMap ValidatorKey BindingRecord) (stake : ValidatorKey × Int) :
    Option ValidatorSetMember :=
  if stake.2 ≤ 0 then none
  else
    let w := (stake.2 / FINALITY_WEIGHT_UNIT).toNat
    if w = 0 then none
    else match bindings.find? stake.1 with
      | none => none
      | some binding =>
        if binding.isRevoked then none else some ⟨stake.1, binding.blsPubkey, w⟩

/-- A snapshot with what `Build` derives from its members. -/
structure BuiltSet (G : Type) where
  snapshot : ValidatorSetSnapshot
  header : ValidatorSetHeader
  leaves : List Uint256
  setHash : Uint256
  keys : List G

section Build

variable {G₁ G₂ : Type} [AddCommGroup G₁] [Zero G₂] (B : Bls G₁ G₂) (keccak : Bytes → Uint256)

def buildHeader (epoch : Nat) (members : List ValidatorSetMember) (aggregate : G₁)
    (root : Uint256) : ValidatorSetHeader :=
  let total := (members.map (·.weight)).foldl (fun w x => (w + x) % U64) 0
  { epoch := epoch
    rulesetVersion := FINALITY_RULESET_V1
    validatorCount := members.length
    totalWeight := total
    quorumWeight := quorumWeightV1 total
    aggregatePubkey := B.compress aggregate
    membersRoot := root }

/-- `ValidatorSetSnapshot::Build`. -/
def build (epoch : Nat) (activeWeights : OrderedMap ValidatorKey Int)
    (bindings : OrderedMap ValidatorKey BindingRecord) : Option (BuiltSet G₁) :=
  let members := activeWeights.entries.filterMap (memberOf bindings)
  if members = [] ∨ members.length > MAX_FINALITY_SET then none
  else do
    let keys ← members.mapM fun m => B.decodeKey m.blsPubkey
    let leaves := members.zipIdx.map fun m => validatorSetLeaf keccak m.2 m.1.blsPubkey m.1.weight
    let aggregate ← B.aggregatePublicKeys keys
    let root ← validatorSetMembersRoot keccak leaves
    let header := buildHeader B epoch members aggregate root
    some ⟨⟨epoch, members⟩, header, leaves, validatorSetHash keccak header, keys⟩

/-- `WithEpoch`: the same members carried over to another epoch. -/
def BuiltSet.withEpoch (s : BuiltSet G₁) (epoch : Nat) : BuiltSet G₁ :=
  let header := { s.header with epoch := epoch }
  { s with
    snapshot := s.snapshot.withEpoch epoch
    header := header
    setHash := validatorSetHash keccak header }

/-- The point of a member's key. -/
def keyOf (m : ValidatorSetMember) : G₁ := (B.decodeKey m.blsPubkey).getD 0

/-- What is true of every set the node builds. -/
structure BuiltSet.Spec (s : BuiltSet G₁) : Prop where
  nonempty : s.snapshot.members ≠ []
  size_le : s.snapshot.size ≤ MAX_FINALITY_SET
  decodes : ∀ m ∈ s.snapshot.members, B.decodeKey m.blsPubkey = some (keyOf B m)
  weight : ∀ m ∈ s.snapshot.members, 0 < m.weight ∧ m.weight < 2 ^ 34
  leaves : s.leaves = s.snapshot.members.zipIdx.map fun m =>
    validatorSetLeaf keccak m.2 m.1.blsPubkey m.1.weight
  setHash : s.setHash = validatorSetHash keccak s.header
  ruleset : s.header.rulesetVersion = FINALITY_RULESET_V1
  count : s.header.validatorCount = s.snapshot.size
  total : s.header.totalWeight = totalWeight s.snapshot
  quorum : s.header.quorumWeight = quorumWeightV1 (totalWeight s.snapshot)
  aggregate : s.header.aggregatePubkey = B.compress (s.snapshot.members.map (keyOf B)).sum
  aggregate_ne : (s.snapshot.members.map (keyOf B)).sum ≠ 0
  root : s.header.membersRoot = subtree (node keccak) (row s.leaves)
    FINALITY_SET_TREE_DEPTH 0

variable {B} {keccak}

variable {bindings : OrderedMap ValidatorKey BindingRecord}

theorem memberOf_weight
    {stake : ValidatorKey × Int} {m : ValidatorSetMember} (htyped : stake.2 < 2 ^ 63)
    (h : memberOf bindings stake = some m) : 0 < m.weight ∧ m.weight < 2 ^ 34 := by
  unfold memberOf FINALITY_WEIGHT_UNIT at h
  split at h
  · cases h
  · dsimp only at h
    split at h
    · cases h
    · split at h
      · cases h
      · split at h
        · cases h
        · cases h
          dsimp only
          omega

theorem foldl_total {ws : List Nat} {w : Nat} (h : w + ws.sum < U64) :
    ws.foldl (fun w x => (w + x) % U64) w = w + ws.sum := by
  induction ws generalizing w with
  | nil => rfl
  | cons x ws ih =>
    rw [sum_cons] at h
    rw [foldl_cons, sum_cons, mod_eq_of_lt (by omega), ih (by omega), add_assoc]

theorem sum_weight_le {members : List ValidatorSetMember} (h : ∀ m ∈ members, m.weight < 2 ^ 34) :
    (members.map (·.weight)).sum ≤ members.length * 2 ^ 34 := by
  have := sum_le_card_nsmul (members.map (·.weight)) (2 ^ 34) fun w hw => by
    obtain ⟨m, hm, rfl⟩ := mem_map.mp hw
    exact (h m hm).le
  simpa using this

theorem mapM_decodeKey {members : List ValidatorSetMember} {keys : List G₁}
    (h : (members.mapM fun m => B.decodeKey m.blsPubkey) = some keys) :
    keys = members.map (keyOf B) ∧
      ∀ m ∈ members, B.decodeKey m.blsPubkey = some (keyOf B m) := by
  induction members generalizing keys with
  | nil =>
    cases h
    exact ⟨rfl, fun m hm => nomatch hm⟩
  | cons m members ih =>
    rw [mapM_cons] at h
    cases hkey : B.decodeKey m.blsPubkey with
    | none => simp [hkey] at h
    | some P =>
      cases hrest : members.mapM fun m => B.decodeKey m.blsPubkey with
      | none => simp [hkey, hrest] at h
      | some points =>
        simp only [hkey, hrest, Option.bind_eq_bind, Option.bind_some, Option.pure_def,
          some.injEq] at h
        have hpoint : keyOf B m = P := by rw [keyOf, hkey, getD_some]
        obtain ⟨hpoints, hdecodes⟩ := ih hrest
        refine ⟨by rw [← h, hpoints, List.map_cons, hpoint], ?_⟩
        exact forall_mem_cons.mpr ⟨by rw [hkey, hpoint], hdecodes⟩

variable {s : BuiltSet G₁} {epoch : Nat} {activeWeights : OrderedMap ValidatorKey Int}

/-- Amounts are 64 bits wide, so the weights of a set never add up to a wrap. -/
theorem build_spec (htyped : ∀ stake ∈ activeWeights.entries, stake.2 < 2 ^ 63)
    (h : build B keccak epoch activeWeights bindings = some s) : s.Spec B keccak := by
  unfold build at h
  dsimp only at h
  split_ifs at h with hsize
  rw [not_or, not_lt] at hsize
  obtain ⟨keys, hkeys, h⟩ := bind_eq_some_iff.mp h
  obtain ⟨A, hA, h⟩ := bind_eq_some_iff.mp h
  obtain ⟨root, hroot, h⟩ := bind_eq_some_iff.mp h
  cases h
  obtain ⟨rfl, hdecodes⟩ := mapM_decodeKey hkeys
  obtain ⟨rfl, hne, -⟩ := Bls.aggregatePublicKeys_eq_some hA
  have hweight : ∀ m ∈ activeWeights.entries.filterMap (memberOf bindings),
      0 < m.weight ∧ m.weight < 2 ^ 34 := by
    intro m hm
    obtain ⟨stake, hstake, hm⟩ := mem_filterMap.mp hm
    exact memberOf_weight (htyped stake hstake) hm
  have htotal := @foldl_total ((activeWeights.entries.filterMap (memberOf bindings)).map
    (·.weight)) 0 (by
      have := sum_weight_le fun m hm => (hweight m hm).2
      have := hsize.2
      unfold MAX_FINALITY_SET at this
      unfold U64
      omega)
  rw [zero_add] at htotal
  exact
    { nonempty := hsize.1
      size_le := hsize.2
      decodes := hdecodes
      weight := hweight
      leaves := rfl
      setHash := rfl
      ruleset := rfl
      count := rfl
      total := htotal
      quorum := congrArg quorumWeightV1 htotal
      aggregate := rfl
      aggregate_ne := hne
      root := by
        rw [validatorSetMembersRoot_eq (by simpa using hsize.2)] at hroot
        exact (some.inj hroot).symm }

theorem BuiltSet.Spec.totalWeight_lt (h : s.Spec B keccak) : totalWeight s.snapshot < 2 ^ 63 := by
  have hsum := sum_weight_le fun m hm => (h.weight m hm).2
  have hsize : s.snapshot.members.length ≤ 8192 := h.size_le
  unfold totalWeight
  omega

theorem BuiltSet.Spec.totalWeight_pos (h : s.Spec B keccak) : 0 < totalWeight s.snapshot := by
  obtain ⟨m, hm⟩ := exists_mem_of_ne_nil _ h.nonempty
  exact (h.weight m hm).1.trans_le (le_sum_of_mem (mem_map_of_mem hm))

/-- A set carried over is the one that would have been built for the epoch. -/
theorem build_withEpoch (h : build B keccak epoch activeWeights bindings = some s) (later : Nat) :
    build B keccak later activeWeights bindings = some (s.withEpoch keccak later) := by
  unfold build at h ⊢
  dsimp only at h ⊢
  split_ifs at h ⊢
  obtain ⟨keys, hkeys, h⟩ := bind_eq_some_iff.mp h
  obtain ⟨A, hA, h⟩ := bind_eq_some_iff.mp h
  obtain ⟨root, hroot, h⟩ := bind_eq_some_iff.mp h
  cases h
  exact bind_eq_some_iff.mpr ⟨keys, hkeys,
    bind_eq_some_iff.mpr ⟨A, hA, bind_eq_some_iff.mpr ⟨root, hroot, rfl⟩⟩⟩

/-! ### Headers of snapshots -/

variable (B keccak) in
/-- The header of a set from its epoch and members alone. -/
def headerOf (s : ValidatorSetSnapshot) : ValidatorSetHeader :=
  buildHeader B s.epoch s.members (s.members.map (keyOf B)).sum
    (subtree (node keccak) (row (s.members.zipIdx.map fun m =>
      validatorSetLeaf keccak m.2 m.1.blsPubkey m.1.weight)) FINALITY_SET_TREE_DEPTH 0)

variable (B keccak) in
/-- A snapshot the node can have built. -/
def Built (snapshot : ValidatorSetSnapshot) : Prop :=
  ∃ epoch activeWeights bindings s, (∀ stake ∈ activeWeights.entries, stake.2 < 2 ^ 63) ∧
    build B keccak epoch activeWeights bindings = some s ∧ s.snapshot = snapshot

theorem build_header (h : build B keccak epoch activeWeights bindings = some s) :
    s.header = headerOf B keccak s.snapshot ∧ s.snapshot.epoch = epoch := by
  unfold build at h
  dsimp only at h
  split_ifs at h with hsize
  rw [not_or, not_lt] at hsize
  obtain ⟨keys, hkeys, h⟩ := bind_eq_some_iff.mp h
  obtain ⟨A, hA, h⟩ := bind_eq_some_iff.mp h
  obtain ⟨root, hroot, h⟩ := bind_eq_some_iff.mp h
  cases h
  obtain ⟨rfl, -⟩ := mapM_decodeKey hkeys
  obtain ⟨rfl, -, -⟩ := Bls.aggregatePublicKeys_eq_some hA
  rw [validatorSetMembersRoot_eq (by simpa using hsize.2)] at hroot
  cases hroot
  exact ⟨rfl, rfl⟩

theorem Built.withEpoch {snapshot : ValidatorSetSnapshot} (h : Built B keccak snapshot)
    (later : Nat) : Built B keccak (snapshot.withEpoch later) := by
  obtain ⟨epoch, activeWeights, bindings, s, htyped, hbuild, rfl⟩ := h
  exact ⟨later, activeWeights, bindings, s.withEpoch keccak later, htyped,
    build_withEpoch hbuild later, rfl⟩

end Build

end B3Coin.Finality
