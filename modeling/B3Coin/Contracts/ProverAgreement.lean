import B3Coin.Contracts.ProverSpec
import Mathlib.Algebra.Group.Submonoid.BigOperators

/-!
# The prover counts as the chain does

The chain adds up the members whose bit is set; the contract proves the members whose bit
is clear and subtracts them from the totals of the header. The two agree on every set the
node builds: a list of branches the contract accepts is the list of all clear bits, each
with the key and weight of its member.
-/
namespace B3Coin.CertificateProver

open List Nat CurvePoints Merkle FinalityVerifier

open Codec (Bytes)
open Finality (signerBit signers isWellFormedSignerBitmap ValidatorSetSnapshot ValidatorSetMember
  keyOf verifyFinalityCertificate totalWeight validatorSetLeafPreimage ValidatorKey)
open WordTree (row node)

section Set

variable {G₁ G₂ : Type} [AddCommGroup G₁] [Zero G₂] {B : Bls G₁ G₂} {keccak256 : Bytes → Uint256}
  {set : Finality.BuiltSet G₁} {E : Precompiles B}

/-! ## What each side accepts -/

theorem isAllZero_iff {v : Bytes} : isAllZero v = true ↔ v = List.replicate v.length 0 := by
  simp [isAllZero, eq_replicate_iff]

theorem isAllZero_eip2537 {P : G₁} : isAllZero (B.eip2537 P) = true ↔ P = 0 := by
  rw [isAllZero_iff, length_eip2537]
  have hzero : B.eip2537 (0 : G₁) = List.replicate 128 0 := by
    rw [eip2537_zero]
    simp
  rw [← hzero]
  exact ⟨fun h => eip2537_injective h, fun h => by rw [h]⟩

theorem isAllZero_eip2537₂ {S : G₂} : isAllZero (B.eip2537₂ S) = true ↔ S = 0 := by
  rw [isAllZero_iff, B.length_eip2537₂, ← B.eip2537₂_zero, B.eip2537₂_injective.eq_iff]

/-- The checks of `verify` that lead to the pairing. -/
structure Accepted (keccak256 : Bytes → Uint256) (E : Precompiles B) (digest : Uint256)
    (h : FinalityVerifier.SetHeader) (proof : Witness) : Prop where
  wellFormed : WellFormed proof.bitmap h.validatorCount
  signature_length : proof.signature.length = 256
  aggregate_length : proof.aggregatePubkey.length = 128
  signature_ne : isAllZero proof.signature = false
  signers : signerCount proof.bitmap ≠ 0
  count : signerCount proof.bitmap + proof.absent.length = h.validatorCount
  headcount : headcountQuorum h.validatorCount ≤ signerCount proof.bitmap
  weight : ∃ w, absentWeight keccak256 h proof.bitmap none 0 proof.absent = some w ∧
    h.quorumWeight ≤ h.totalWeight - w
  aggregate : compressedG1Matches proof.aggregatePubkey h.aggregatePubkey = true
  pairing : ∃ signed, subtractAbsent E proof.aggregatePubkey proof.absent = some signed ∧
    isAllZero signed = false ∧ E.pairing signed digest proof.signature = true

theorem check_eq_true {p : Prop} [Decidable p] {x : Option Bool} :
    (if p then some false else x) = some true ↔ ¬ p ∧ x = some true := by
  split <;> simp [*]

theorem verify_eq_true_iff (sha256 : Bytes → Uint256) (fb : FinalityVerifier.FinalizedBlock)
    (proof : Witness) {chainDomain setHash : Uint256} {h : FinalityVerifier.SetHeader}
    (hdomain : chainDomain ≠ 0) (hhash : setHash ≠ 0)
    (hshape : headerShapeValid h = true)
    (hheader : hashSetHeader keccak256 h = setHash) :
    verify keccak256 sha256 E chainDomain fb setHash h proof = some true ↔
      Accepted keccak256 E (finalityDigest sha256 chainDomain fb) h proof := by
  simp only [verify, check_eq_true, hdomain, hhash, hshape, hheader, not_true, ne_eq, or_self,
    not_false_iff, true_and, not_or, not_not, not_lt, Bool.not_eq_true]
  constructor
  · rintro ⟨hlen, hhigh, ⟨hsig, hagg⟩, hne, ⟨hsigners, hcount⟩, hhead, hverify⟩
    split at hverify
    · cases hverify
    · rename_i w hw
      rw [check_eq_true, check_eq_true, Bool.not_eq_false] at hverify
      obtain ⟨hquorum, hmatch, hverify⟩ := hverify
      split at hverify
      · cases hverify
      · rename_i signed hsigned
        rw [check_eq_true] at hverify
        exact
          { wellFormed := ⟨hlen, fun hmod => by_contra fun hbyte => hhigh ⟨hmod, hbyte⟩⟩
            signature_length := hsig
            aggregate_length := hagg
            signature_ne := hne
            signers := hsigners
            count := hcount
            headcount := hhead
            weight := ⟨w, hw, Nat.le_of_not_lt hquorum⟩
            aggregate := hmatch
            pairing := ⟨signed, hsigned, Bool.eq_false_iff.mpr hverify.1,
              Option.some.inj hverify.2⟩ }
  · rintro ⟨⟨hlen, hhigh⟩, hsig, hagg, hne, hsigners, hcount, hhead, ⟨w, hw, hquorum⟩, hmatch,
      signed, hsigned, hinf, hpair⟩
    refine ⟨hlen, fun hbyte => hbyte.2 (hhigh hbyte.1), ⟨hsig, hagg⟩, hne, ⟨hsigners, hcount⟩, hhead,
      ?_⟩
    simp [hw, hsigned, hmatch, hinf, hpair, not_lt.mpr hquorum]

/-- The checks of `VerifyFinalityCertificate`, with the keys decoded. -/
structure ChainAccepts (B : Bls G₁ G₂) (digest : Uint256) (set : ValidatorSetSnapshot)
    (bitmap : Bytes) (S : G₂) : Prop where
  wellFormed : WellFormed bitmap set.size
  signers_ne : signers bitmap set ≠ []
  weight : Finality.quorumWeightV1 (totalWeight set) ≤
    ((signers bitmap set).map (·.weight)).sum
  headcount : Finality.finalityHeadcountQuorum set.size ≤ (signers bitmap set).length
  sum_ne : ((signers bitmap set).map (keyOf B)).sum ≠ 0
  verifies : B.coreVerify ((signers bitmap set).map (keyOf B)).sum digest S = true

variable {bitmap : Bytes}

theorem mem_of_mem_signers {set : ValidatorSetSnapshot} {m : ValidatorSetMember}
    (hm : m ∈ signers bitmap set) : m ∈ set.members := by
  obtain ⟨x, hx, rfl⟩ := mem_map.mp hm
  exact fst_mem_of_mem_zipIdx (mem_of_mem_filter hx)

variable {l : List ValidatorSetMember}

theorem mapM_decodeKey_signers (h : ∀ m ∈ l, B.decodeKey m.blsPubkey = some (keyOf B m)) :
    (l.map (·.blsPubkey)).mapM B.decodeKey = some (l.map (keyOf B)) := by
  induction l with
  | nil => rfl
  | cons m l ih =>
    rw [forall_mem_cons] at h
    rw [map_cons, mapM_cons, h.1, ih h.2]
    rfl

theorem fastAggregateVerify_iff {l : List ValidatorSetMember}
    (h : ∀ m ∈ l, B.decodeKey m.blsPubkey = some (keyOf B m)) {digest : Uint256}
    {signature : Bytes} : B.fastAggregateVerify (l.map (·.blsPubkey)) digest signature = true ↔
      ∃ S, B.decodeSignature signature = some S ∧ l ≠ [] ∧
        (l.map (keyOf B)).sum ≠ 0 ∧
        B.coreVerify (l.map (keyOf B)).sum digest S = true := by
  unfold Bls.fastAggregateVerify
  rw [mapM_decodeKey_signers h]
  cases B.decodeSignature signature with
  | none => simp
  | some S => simp [Bls.isInf_eq_false, and_assoc]

variable {digest : Uint256}

theorem verifyFinalityCertificate_iff (hset : set.Spec B keccak256)
    {fb : Finality.FinalizedBlock} {cert : Finality.FinalityCertificate} :
    verifyFinalityCertificate B.fastAggregateVerify digest fb cert set.snapshot
        fb.validatorSetHash = .OK ↔
      ∃ S, B.decodeSignature cert.aggregateSig = some S ∧
        ChainAccepts B digest set.snapshot cert.signerBitmap S := by
  have hsize : set.snapshot.size ≠ 0 := by
    have := hset.nonempty
    simpa [ValidatorSetSnapshot.size] using this
  have hverify := @fastAggregateVerify_iff _ _ _ _ B (signers cert.signerBitmap set.snapshot)
    (fun m hm => hset.decodes m (mem_of_mem_signers hm)) digest cert.aggregateSig
  have hform : isWellFormedSignerBitmap cert.signerBitmap set.snapshot.size = true ↔
      WellFormed cert.signerBitmap set.snapshot.size :=
    isWellFormedSignerBitmap_iff hsize hset.size_le
  unfold verifyFinalityCertificate
  simp only [hsize, if_false, ne_eq, not_true]
  constructor
  · intro hok
    split_ifs at hok with h1 h2 h3 h4 h5
    obtain ⟨S, hS, hne, hsum, hcore⟩ := hverify.mp h5
    exact ⟨S, hS, hform.mp h1, hne, Nat.le_of_not_lt h3, Nat.le_of_not_lt h4, hsum, hcore⟩
  · rintro ⟨S, hS, hwell, hne, hweight, hhead, hsum, hcore⟩
    rw [if_neg (not_not_intro (hform.mpr hwell)), if_neg hne, if_neg (not_lt.mpr hweight),
      if_neg (not_lt.mpr hhead), if_neg (not_not_intro (hverify.mpr ⟨S, hS, hne, hsum, hcore⟩))]

/-! ## Agreement -/

variable {snapshot : ValidatorSetSnapshot}

theorem signerCount_eq_length (hwell : WellFormed bitmap snapshot.size) :
    signerCount bitmap = (signers bitmap snapshot).length := by
  rw [hwell.signerCount, length_signers]

variable (B keccak256 set) in
/-- The entry of an absent member with its branch and the point of its key. -/
structure CorrectEntry (a : Absent) (m : ValidatorSetMember × Nat) : Prop extends Named a m where
  point : a.uncompressedPubkey = B.eip2537 (keyOf B m.1)
  siblings : a.siblings = siblingPath keccak256 set m.2

variable (B keccak256 set) in
/-- The proof a relayer puts together: all absent members, and the points of the aggregate and
of the signature. -/
structure Correct (bitmap : Bytes) (S : G₂) (proof : Witness) : Prop where
  bitmap_eq : proof.bitmap = bitmap
  signature : proof.signature = B.eip2537₂ S
  aggregate : proof.aggregatePubkey =
    B.eip2537 (set.snapshot.members.map (keyOf B)).sum
  entries : List.Forall₂ (CorrectEntry B keccak256 set) proof.absent
    (clearMembers bitmap set.snapshot)

variable {m : ValidatorSetMember × Nat}

theorem mem_of_mem_clearMembers (hm : m ∈ clearMembers bitmap snapshot) : m.1 ∈ snapshot.members :=
  fst_mem_of_mem_zipIdx (mem_of_mem_filter hm)

/-- Keys of members add up within the subgroup. -/
theorem sum_keyOf_mem_prime (hset : set.Spec B keccak256)
    (hl : ∀ m ∈ l, m ∈ set.snapshot.members) : (l.map (keyOf B)).sum ∈ B.prime := by
  refine list_sum_mem fun P hP => ?_
  obtain ⟨m, hm, rfl⟩ := mem_map.mp hP
  exact ((B.decodeKey_eq_some _ _).mp (hset.decodes m (hl m hm))).2.1

section

variable (bitmap : Bytes) (snapshot : ValidatorSetSnapshot)

theorem sum_keys_sub : (snapshot.members.map (keyOf B)).sum -
        ((clearMembers bitmap snapshot).map fun m => keyOf B m.1).sum =
      ((signers bitmap snapshot).map (keyOf B)).sum := by
  rw [← sum_signers_add bitmap snapshot (keyOf B), add_sub_cancel_right]

theorem sum_weights_sub :
    totalWeight snapshot - ((clearMembers bitmap snapshot).map fun m => m.1.weight).sum =
      ((signers bitmap snapshot).map (·.weight)).sum := by
  rw [totalWeight, ← sum_signers_add bitmap snapshot (·.weight), Nat.add_sub_cancel]

end

variable {proof : Witness}

/-- A proof whose entries are the absent members is accepted only for a certificate the chain
accepts. -/
theorem chainAccepts_of_accepted (hset : set.Spec B keccak256)
    (h : Accepted keccak256 E digest (setHeader set.header) proof)
    (hnamed : List.Forall₂ Named proof.absent (clearMembers proof.bitmap set.snapshot)) :
    ∃ S, proof.signature = B.eip2537₂ S ∧ S ≠ 0 ∧ S ∈ B.prime₂ ∧
      ChainAccepts B digest set.snapshot proof.bitmap S := by
  have hwell : WellFormed proof.bitmap set.snapshot.size := hset.count ▸ h.wellFormed
  have hcount := signerCount_eq_length hwell
  obtain ⟨w, hw, hquorum⟩ := h.weight
  obtain ⟨-, -, hok, rfl, -⟩ := (absentWeight_eq_some_iff (zero_le _)).mp hw
  obtain ⟨signed, hsigned, hinf, hpair⟩ := h.pairing
  obtain ⟨⟨T, rfl⟩, S, hS⟩ := E.pairing_parses _ _ _ hpair
  obtain ⟨P, hP, rfl⟩ := subtractAbsent_sound hset hnamed (fun m hm => mem_of_mem_clearMembers hm)
    (fun a ha => (hok a ha).key) h.aggregate_length hsigned
  have haggregate : P = (set.snapshot.members.map (keyOf B)).sum := by
    have hmatch := h.aggregate
    rw [hP, setHeader, hset.aggregate] at hmatch
    exact (compressedG1Matches_eip2537_iff (sum_keyOf_mem_prime hset fun _ hm => hm)
      hset.aggregate_ne).mp hmatch
  rw [haggregate, sum_keys_sub] at hinf hpair
  rw [hS] at hpair
  have hsum : ((signers proof.bitmap set.snapshot).map (keyOf B)).sum ≠ 0 := by
    rw [ne_eq, ← isAllZero_eip2537 (B := B), hinf]
    decide
  have hne : S ≠ 0 := by
    rw [ne_eq, ← isAllZero_eip2537₂ (B := B), ← hS, h.signature_ne]
    decide
  obtain ⟨-, hprime, hcore⟩ := (E.pairing_iff _ _ _ hsum hne).mp hpair
  refine ⟨S, hS, hne, hprime, hwell, ?_, ?_, ?_, hsum, hcore⟩
  · intro hnil
    rw [hnil] at hsum
    exact hsum rfl
  · rw [zero_add, sum_weight_named hnamed] at hquorum
    rw [← sum_weights_sub, ← hset.quorum, ← hset.total]
    exact hquorum
  · rw [← hcount, ← hset.count]
    exact h.headcount

theorem map_index_named {absent : List Absent} {l : List (ValidatorSetMember × Nat)}
    (h : List.Forall₂ Named absent l) : absent.map (·.index) = l.map (·.2) := by
  induction h with
  | nil => rfl
  | cons hnamed _ ih => rw [map_cons, map_cons, hnamed.index, ih]

theorem exists_of_forall₂ {α β : Type} {R : α → β → Prop} {l : List α} {l' : List β}
    (h : List.Forall₂ R l l') {a : α} (ha : a ∈ l) : ∃ b ∈ l', R a b := by
  induction h with
  | nil => cases ha
  | cons hR _ ih =>
    rcases mem_cons.mp ha with rfl | ha
    · exact ⟨_, mem_cons_self, hR⟩
    · obtain ⟨b, hb, hab⟩ := ih ha
      exact ⟨b, mem_cons_of_mem _ hb, hab⟩

section

variable (hset : set.Spec B keccak256)

include hset

theorem absentOk_of_correctEntry {a : Absent}
    (hm : m ∈ clearMembers bitmap set.snapshot) (h : CorrectEntry B keccak256 set a m) :
    AbsentOk keccak256 (setHeader set.header) bitmap a := by
  obtain ⟨hmem, hclear⟩ := mem_filter.mp hm
  have hat : set.snapshot.members[m.2]? = some m.1 := mem_zipIdx_iff_getElem?.mp hmem
  have hlt : m.2 < set.snapshot.size := (List.getElem?_eq_some_iff.mp hat).1
  obtain ⟨hne, hprime, hcompress⟩ :=
    (B.decodeKey_eq_some _ _).mp (hset.decodes m.1 (mem_of_getElem? hat))
  have hleaf : keccak256 (leafPreimage a) = row set.leaves m.2 := by
    rw [row_leaves hset hat, leafPreimage, h.index, h.pubkey, h.weight]
    rfl
  exact
    { index_lt := by rw [h.index, setHeader, hset.count]; exact hlt
      clear := by rw [h.index]; simpa using hclear
      length := by rw [h.pubkey, length_bigEndian]
      point_length := by rw [h.point, length_eip2537]
      key := by
        rw [h.point, h.pubkey, ← hcompress]
        exact (compressedG1Matches_eip2537_iff hprime hne).mpr rfl
      root := by
        rw [memberRoot_eq, hleaf, h.siblings, h.index, setHeader, hset.root]
        exact WordTree.climb_siblings set.leaves (hlt.trans_le hset.size_le) }

/-- An accepted proof lists all absent members, and nothing else. -/
theorem named_of_accepted (hdigest : ∀ b, keccak256 b < 256 ^ 32)
    (hfree : Set.InjOn keccak256 {b | b ∈ hashedStrings keccak256 set proof.absent})
    (h : Accepted keccak256 E digest (setHeader set.header) proof) :
    List.Forall₂ Named proof.absent (clearMembers proof.bitmap set.snapshot) := by
  have hwell : WellFormed proof.bitmap set.snapshot.size := hset.count ▸ h.wellFormed
  obtain ⟨w, hw, -⟩ := h.weight
  obtain ⟨hsorted, -, hok, -, -⟩ := (absentWeight_eq_some_iff (zero_le _)).mp hw
  have hcount := h.count
  rw [hwell.signerCount, setHeader, hset.count] at hcount
  refine forall₂_named ?_ fun a ha m hm => named_of_root hset hdigest hfree ha hm (hok a ha).root
  rw [clearMembers_indices]
  refine indices_eq hsorted (fun i hi => ?_) (by rwa [length_map])
  obtain ⟨a, ha, rfl⟩ := mem_map.mp hi
  have hlt := (hok a ha).index_lt
  rw [setHeader, hset.count] at hlt
  exact ⟨hlt, (hok a ha).clear⟩

theorem accepted_of_chainAccepts {S : G₂}
    (hne : S ≠ 0) (hprime : S ∈ B.prime₂) (hproof : Correct B keccak256 set proof.bitmap S proof)
    (h : ChainAccepts B digest set.snapshot proof.bitmap S) :
    Accepted keccak256 E digest (setHeader set.header) proof := by
  have hcount := signerCount_eq_length h.wellFormed
  have hnamed : List.Forall₂ Named proof.absent (clearMembers proof.bitmap set.snapshot) :=
    hproof.entries.imp fun _ _ h => h.toNamed
  have hindices := map_index_named hnamed
  have hok : ∀ a ∈ proof.absent, AbsentOk keccak256 (setHeader set.header) proof.bitmap a := by
    intro a ha
    obtain ⟨m, hm, hentry⟩ := exists_of_forall₂ hproof.entries ha
    exact absentOk_of_correctEntry hset hm hentry
  have hweights := sum_weight_named hnamed
  have htotal := sum_signers_add proof.bitmap set.snapshot (·.weight)
  have hsub := subtractAbsent_complete (E := E) hset
    (hproof.entries.imp fun _ _ h => h.point) (fun m hm => mem_of_mem_clearMembers hm)
    (set.snapshot.members.map (keyOf B)).sum
  rw [sum_keys_sub, ← hproof.aggregate] at hsub
  exact
    { wellFormed := by rw [setHeader, hset.count]; exact h.wellFormed
      signature_length := by rw [hproof.signature, B.length_eip2537₂]
      aggregate_length := by rw [hproof.aggregate, length_eip2537]
      signature_ne := by
        rw [hproof.signature, Bool.eq_false_iff, ne_eq, isAllZero_eip2537₂]
        exact hne
      signers := by
        rw [hcount]
        exact fun hzero => h.signers_ne (length_eq_zero_iff.mp hzero)
      count := by
        have hall := length_eq_length_filter_add (l := List.range set.snapshot.size)
          (signerBit proof.bitmap)
        rw [length_range, ← countP_eq_length_filter, ← h.wellFormed.signerCount,
          ← clearMembers_indices, ← hindices, length_map] at hall
        rw [setHeader, hset.count, ← hall]
      headcount := by
        rw [hcount, setHeader, hset.count]
        exact h.headcount
      weight := by
        refine ⟨0 + (proof.absent.map (·.weight)).sum, ?_, ?_⟩
        · refine (absentWeight_eq_some_iff (zero_le _)).mpr ⟨?_, by simp, hok, rfl, ?_⟩
          · rw [hindices, clearMembers_indices]
            exact pairwise_lt_range.filter _
          · rw [zero_add, hweights, setHeader, hset.total, totalWeight, ← htotal]
            exact le_add_left _ _
        · rw [zero_add, hweights, setHeader, hset.total, hset.quorum, sum_weights_sub]
          exact h.weight
      aggregate := by
        rw [hproof.aggregate, setHeader, hset.aggregate]
        exact (compressedG1Matches_eip2537_iff (sum_keyOf_mem_prime hset fun _ hm => hm)
          hset.aggregate_ne).mpr rfl
      pairing := by
        refine ⟨_, hsub, ?_, ?_⟩
        · rw [Bool.eq_false_iff, ne_eq, isAllZero_eip2537]
          exact h.sum_ne
        · rw [hproof.signature]
          exact (E.pairing_iff _ _ _ h.sum_ne hne).mpr
            ⟨sum_keyOf_mem_prime hset fun _ hm => mem_of_mem_signers hm, hprime, h.verifies⟩ }

theorem exists_correct (hdigest : ∀ b, keccak256 b < 256 ^ 32)
    (bitmap : Bytes) (S : G₂) : ∃ proof, Correct B keccak256 set bitmap S proof := by
  have hentries : ∀ l : List (ValidatorSetMember × Nat), (∀ m ∈ l, m ∈ set.snapshot.members.zipIdx) →
      ∃ absent, List.Forall₂ (CorrectEntry B keccak256 set) absent l := by
    intro l hl
    induction l with
    | nil => exact ⟨[], .nil⟩
    | cons m l ih =>
      rw [forall_mem_cons] at hl
      obtain ⟨absent, habsent⟩ := ih hl.2
      have hat : set.snapshot.members[m.2]? = some m.1 := mem_zipIdx_iff_getElem?.mp hl.1
      have hlt : m.2 < set.snapshot.size := (List.getElem?_eq_some_iff.mp hat).1
      exact ⟨{ index := m.2
               pubkey := bigEndian 48 m.1.blsPubkey
               weight := m.1.weight
               uncompressedPubkey := B.eip2537 (keyOf B m.1)
               siblings := siblingPath keccak256 set m.2
               index_lt := (hlt.trans_le hset.size_le).trans (by decide)
               weight_lt := (hset.weight _ (mem_of_getElem? hat)).2.trans (by decide)
               length_eq := length_siblings _ _ _ _
               sibling_lt := WordTree.siblings_lt hdigest (leaves_lt hset hdigest) _ _ _ } :: absent,
        .cons ⟨⟨rfl, rfl, rfl⟩, rfl, rfl⟩ habsent⟩
  obtain ⟨absent, habsent⟩ := hentries (clearMembers bitmap set.snapshot)
    fun m hm => mem_of_mem_filter hm
  exact ⟨⟨bitmap, B.eip2537₂ S, B.eip2537 (set.snapshot.members.map (keyOf B)).sum, absent⟩,
    rfl, rfl, rfl, habsent⟩

end

/-- The prover counts quorums as the chain does. The correct proof is accepted exactly for the
certificates of the chain, and no proof is accepted for any other, unless two of the strings
hashed for it collide. -/
theorem prover_counts_as_chain {sha256 : Bytes → Uint256} {epoch : Nat}
    {activeWeights : OrderedMap Finality.ValidatorKey Int}
    {bindings : OrderedMap Finality.ValidatorKey Finality.BindingRecord}
    (htyped : ∀ stake ∈ activeWeights.entries, stake.2 < 2 ^ 63)
    (hbuild : Finality.build B keccak256 epoch activeWeights bindings = some set)
    {chainDomain : Uint256} (hdomain : chainDomain ≠ 0)
    (hdigest : ∀ b, keccak256 b < 256 ^ 32) (hroot : set.header.membersRoot ≠ 0)
    (hhash : set.setHash ≠ 0) (fb : Finality.FinalizedBlock) :
    let verifies (proof : Witness) := verify keccak256 sha256 E chainDomain (finalizedBlock fb)
      set.setHash (setHeader set.header) proof = some true
    let chainAccepts (cert : Finality.FinalityCertificate) :=
      Finality.verifyFinalityCertificate B.fastAggregateVerify
        (Finality.finalityDigest sha256 chainDomain fb) fb cert set.snapshot fb.validatorSetHash = .OK
    (∀ bitmap S, ∃ proof, Correct B keccak256 set bitmap S proof) ∧
      (∀ cert S proof, B.decodeSignature cert.aggregateSig = some S →
        Correct B keccak256 set cert.signerBitmap S proof → (verifies proof ↔ chainAccepts cert)) ∧
      (∀ cert, B.decodeSignature cert.aggregateSig = none → ¬ chainAccepts cert) ∧
      ∀ proof, Set.InjOn keccak256 {b | b ∈ hashedStrings keccak256 set proof.absent} →
        verifies proof → ∃ S, proof.signature = B.eip2537₂ S ∧
          chainAccepts ⟨proof.bitmap, B.compress₂ S⟩ := by
  have hset := Finality.build_spec htyped hbuild
  have hheader : hashSetHeader keccak256 (setHeader set.header) = set.setHash := by
    rw [hashSetHeader_eq, hset.setHash]
  have haccept := fun proof => verify_eq_true_iff (E := E) sha256 (finalizedBlock fb) proof hdomain
    hhash (headerShapeValid_setHeader hset hroot) hheader
  simp only [finalityDigest_eq] at haccept
  dsimp only
  simp only [haccept, verifyFinalityCertificate_iff hset]
  refine ⟨exists_correct hset hdigest, ?_, ?_, ?_⟩
  · rintro ⟨bitmap, signature⟩ S proof hS hproof
    obtain ⟨hne, hprime, -⟩ := (B.decodeSignature_eq_some _ _).mp hS
    obtain rfl := hproof.bitmap_eq
    constructor
    · intro h
      obtain ⟨S', hS', hne', hprime', hchain⟩ := chainAccepts_of_accepted hset h
        (hproof.entries.imp fun _ _ h => h.toNamed)
      obtain rfl := B.eip2537₂_injective (hproof.signature.symm.trans hS')
      exact ⟨S, hS, hchain⟩
    · rintro ⟨S', hS', hchain⟩
      obtain rfl := Option.some.inj (hS.symm.trans hS')
      exact accepted_of_chainAccepts hset hne hprime hproof hchain
  · rintro cert hnone ⟨S, hS, -⟩
    rw [hnone] at hS
    cases hS
  · intro proof hfree h
    obtain ⟨S, hS, hne, hprime, hchain⟩ :=
      chainAccepts_of_accepted hset h (named_of_accepted hset hdigest hfree h)
    exact ⟨S, hS, S, (B.decodeSignature_eq_some _ _).mpr ⟨hne, hprime, rfl⟩, hchain⟩

end Set

/-! ### Five members, one absent -/

section Sample

def sampleParse (b : Bytes) : Option (Fin 3) := [0, 1, 2].find? fun P => b = sampleBls.eip2537 P

theorem sampleParse_eq_some {b : Bytes} {P : Fin 3} :
    sampleParse b = some P ↔ b = sampleBls.eip2537 P := by
  constructor
  · intro h
    simpa using find?_some h
  · rintro rfl
    have hmem : ∀ P : Fin 3, P ∈ [0, 1, 2] := by decide
    have hfound : ∃ Q, sampleParse (sampleBls.eip2537 P) = some Q :=
      Option.isSome_iff_exists.mp (find?_isSome.mpr ⟨P, hmem P, by simp⟩)
    obtain ⟨Q, hQ⟩ := hfound
    have hsame : sampleBls.eip2537 P = sampleBls.eip2537 Q := by simpa using find?_some hQ
    rw [hQ, eip2537_injective hsame]

def samplePrecompiles : Precompiles sampleBls where
  g1Add b :=
    match sampleParse (b.take 128), sampleParse (b.drop 128) with
    | some P, some Q => some (sampleBls.eip2537 (P + Q))
    | _, _ => none
  pairing a _ s :=
    (sampleParse a).isSome && (s == sampleBls.eip2537₂ 0 || s == sampleBls.eip2537₂ 1)
  g1Add_eq_some a b r hlen := by
    rw [take_left' hlen, drop_left' hlen]
    constructor
    · intro h
      split at h
      · rename_i P Q hP hQ
        exact ⟨P, Q, sampleParse_eq_some.mp hP, sampleParse_eq_some.mp hQ, (Option.some.inj h).symm⟩
      · cases h
    · rintro ⟨P, Q, rfl, rfl, rfl⟩
      simp [sampleParse_eq_some.mpr rfl]
  pairing_parses a _ s h := by
    simp only [Bool.and_eq_true, Option.isSome_iff_exists, sampleParse_eq_some, Bool.or_eq_true,
      beq_iff_eq] at h
    exact ⟨h.1, h.2.elim (fun h => ⟨0, h⟩) (fun h => ⟨1, h⟩)⟩
  pairing_iff P _ S _ hne := by
    have hpoints : ∀ S : Fin 2, S ≠ 0 → S = 1 := by decide
    refine iff_of_true ?_ ⟨trivial, trivial, rfl⟩
    rw [hpoints S hne, sampleParse_eq_some.mpr rfl]
    simp

/-- Leaves are told apart by the last byte of their indices. -/
abbrev sampleKeccak : Bytes → Uint256 := WordTree.sampleKeccak 60 3

def sampleKey : Nat := sampleCurve.compress 1

def sampleMembers : List ValidatorSetMember :=
  [⟨1, sampleKey, 1⟩, ⟨2, sampleKey, 1⟩, ⟨3, sampleKey, 1⟩, ⟨4, sampleKey, 1⟩, ⟨5, sampleKey, 1⟩]

def sampleStakes : OrderedMap ValidatorKey Int where
  entries := [(1, 1000000000), (2, 1000000000), (3, 1000000000), (4, 1000000000), (5, 1999999999)]
  sorted := by decide

def sampleBindings : OrderedMap ValidatorKey Finality.BindingRecord where
  entries := [(1, ⟨sampleKey⟩), (2, ⟨sampleKey⟩), (3, ⟨sampleKey⟩), (4, ⟨sampleKey⟩), (5, ⟨sampleKey⟩)]
  sorted := by simp

def sampleLeaves : List Uint256 := [100, 120, 140, 160, 180]

def sampleRoot : Uint256 :=
  subtree (node sampleKeccak) (row sampleLeaves)
    Finality.FINALITY_SET_TREE_DEPTH 0

def sampleHeader : Finality.ValidatorSetHeader := ⟨0, 1, 5, 5, 4, sampleCurve.compress 2, sampleRoot⟩

def sampleSet : Finality.BuiltSet (Fin 3) where
  snapshot := ⟨0, sampleMembers⟩
  header := sampleHeader
  leaves := sampleLeaves
  setHash := Finality.validatorSetHash sampleKeccak sampleHeader
  keys := [1, 1, 1, 1, 1]

theorem sampleBuild :
    Finality.build sampleBls sampleKeccak 0 sampleStakes sampleBindings = some sampleSet := by
  have hmembers : sampleStakes.entries.filterMap (Finality.memberOf sampleBindings) =
      sampleMembers := by decide +kernel
  have hleaves : (sampleMembers.zipIdx.map fun m =>
      Finality.validatorSetLeaf sampleKeccak m.2 m.1.blsPubkey m.1.weight) = sampleLeaves := by
    decide +kernel
  have hroot : Finality.validatorSetMembersRoot sampleKeccak sampleLeaves = some sampleRoot :=
    Finality.validatorSetMembersRoot_eq (by decide)
  unfold Finality.build
  rw [hmembers]
  simp only [Option.bind_eq_bind, Option.bind_some, hleaves, hroot]
  rfl

theorem sampleSiblings : siblingPath sampleKeccak sampleSet 4 =
    [0, 1, 102, 3, 4, 5, 6, 7, 8, 9, 10, 11, 12] := by
  have hleft : subtree (node sampleKeccak) (row sampleLeaves) 2 0 = 102 := by
    decide +kernel
  have hwidth : 60 ≠ 64 := by decide
  show siblings (node sampleKeccak) (row sampleLeaves) 0 13 4 = _
  simp (disch := decide) only [siblings, sibling, Nat.reduceMod, Nat.reduceDiv,
    Nat.reduceAdd, Nat.reduceSub, if_true, if_false, hleft, zero_ne_one,
    WordTree.sampleZeros hwidth]

def sampleBranch : List Bytes :=
  (climbed (node sampleKeccak) 4 180
    [0, 1, 102, 3, 4, 5, 6, 7, 8, 9, 10, 11, 12]).map WordTree.nodePreimage

def sampleStrings : List Bytes :=
  (sampleMembers.zipIdx.map fun m =>
    validatorSetLeafPreimage m.2 m.1.blsPubkey m.1.weight) ++ sampleBranch

theorem sampleStrings_injOn : Set.InjOn sampleKeccak {b | b ∈ sampleStrings} := by
  have hnodup : (sampleStrings.map sampleKeccak).Nodup := by decide +kernel
  exact fun a ha b hb => inj_on_of_nodup_map hnodup ha hb

theorem sampleClear : clearMembers [0x0f] sampleSet.snapshot = [(⟨5, sampleKey, 1⟩, 4)] := by
  decide +kernel

theorem sample_hashedStrings {S : Fin 2} {proof : Witness}
    (h : Correct sampleBls sampleKeccak sampleSet [0x0f] S proof) :
    ∀ b ∈ hashedStrings sampleKeccak sampleSet proof.absent, b ∈ sampleStrings := by
  have hentries := h.entries
  rw [sampleClear] at hentries
  obtain ⟨a, rest, hentry, hrest, habsent⟩ := forall₂_cons_right_iff.mp hentries
  rw [forall₂_nil_right_iff] at hrest
  have hleaf : leafPreimage a = validatorSetLeafPreimage 4 sampleKey 1 := by
    rw [leafPreimage, hentry.index, hentry.pubkey, hentry.weight]
    rfl
  have hdigest : sampleKeccak (validatorSetLeafPreimage 4 sampleKey 1) = 180 := by
    decide +kernel
  have hrow : row sampleSet.leaves 4 = 180 := rfl
  have hmember : validatorSetLeafPreimage 4 sampleKey 1 ∈ sampleStrings := by
    decide +kernel
  intro b hb
  rw [habsent, hrest, hashedStrings, flatMap_singleton, hleaf, hdigest, hentry.index,
    hentry.siblings, hrow, sampleSiblings] at hb
  rcases mem_append.mp hb with hb | hb
  · exact mem_append_left _ hb
  · rcases mem_cons.mp hb with rfl | hb
    · exact hmember
    · rw [map_append, mem_append, or_self] at hb
      exact mem_append_right _ hb

/-- Four of five signed: the chain accepts, and so does the contract with the branch of the
fifth. -/
theorem sample_prover_counts : ∃ proof, verify sampleKeccak sampleKeccak samplePrecompiles 1
        (finalizedBlock ⟨8, 1, 1, 1, 0⟩) sampleSet.setHash (setHeader sampleSet.header) proof =
          some true ∧
      proof.bitmap = [0x0f] ∧ proof.absent.length = 1 ∧
      Set.InjOn sampleKeccak {b | b ∈ hashedStrings sampleKeccak sampleSet proof.absent} ∧
      ∃ S, proof.signature = sampleBls.eip2537₂ S ∧
        Finality.verifyFinalityCertificate sampleBls.fastAggregateVerify
          (Finality.finalityDigest sampleKeccak 1 ⟨8, 1, 1, 1, 0⟩) ⟨8, 1, 1, 1, 0⟩
          ⟨proof.bitmap, sampleBls.compress₂ S⟩ sampleSet.snapshot 1 = .OK := by
  have hroot : sampleSet.header.membersRoot ≠ 0 := by
    show Merkle.subtree (node sampleKeccak) (row sampleLeaves) (12 + 1) 0 ≠ 0
    rw [Merkle.subtree, node]
    exact (WordTree.sampleKeccak_bounds _).1.ne'
  obtain ⟨hexists, hcorrect, -, hsound⟩ := @prover_counts_as_chain (Fin 3) (Fin 2) _ _ sampleBls
    sampleKeccak sampleSet samplePrecompiles sampleKeccak 0 sampleStakes sampleBindings (by decide)
    sampleBuild 1 (by decide) WordTree.sampleKeccak_lt
    hroot (by decide +kernel) ⟨8, 1, 1, 1, 0⟩
  obtain ⟨proof, hproof⟩ := hexists [0x0f] 1
  have hchain : Finality.verifyFinalityCertificate sampleBls.fastAggregateVerify
      (Finality.finalityDigest sampleKeccak 1 ⟨8, 1, 1, 1, 0⟩) ⟨8, 1, 1, 1, 0⟩ ⟨[0x0f], [1]⟩
      sampleSet.snapshot 1 = .OK := by
    decide +kernel
  have hverifies := (hcorrect ⟨[0x0f], [1]⟩ 1 proof rfl hproof).mpr hchain
  have hfree : Set.InjOn sampleKeccak {b | b ∈ hashedStrings sampleKeccak sampleSet proof.absent} :=
    sampleStrings_injOn.mono (sample_hashedStrings hproof)
  refine ⟨proof, hverifies, hproof.bitmap_eq, ?_, hfree, hsound proof hfree hverifies⟩
  rw [hproof.entries.length_eq, sampleClear]
  rfl

end Sample

end B3Coin.CertificateProver
