import B3Coin.FlowMesh.Entry

/-!
# What the entry hash binds

A decoded entry is its bytes. The hash of a handoff with a commitment fixes every
byte of it; the hash of an execution leaves the height of its null next anchor
open, and entries without a commitment all hash to null.
-/
namespace B3Coin.FlowMesh

open Codec List UInt64

variable {D : Digests} {e : ProductionEntryCore}

/-! ## The shape check -/

/-- What `CheckBasicShape` accepts. -/
structure ShapeOk (D : Digests) (e : ProductionEntryCore) : Prop where
  version : e.version = FLOWMESH_PRODUCTION_ENTRY_VERSION_V1
  kind : e.kind = EXECUTION ∨ e.kind = EPOCH_HANDOFF
  domain : e.domain ≠ 0
  marketId : e.marketId ≠ 0
  seatSetHash : e.seatSetHash ≠ 0
  count : e.actions.length ≤ FLOWMESH_V1_MAX_MICROBLOCK_ACTIONS
  canonical : actionsAreCanonical D e.actions = true
  shapes : ∀ a ∈ e.actions, a.shapeIsCanonicalSansCredential = true ∧
    a.curve.length ≤ FLOWMESH_V1_MAX_CURVE_POINTS
  parent : e.sequence = 0 ↔ e.parentHash = 0
  anchor : e.anchor.isNull = false
  actionsRoot : e.actionsRoot = computeProductionActionsRoot D e.actions
  effects : effectRangeOk D e = true
  execution : e.kind = EXECUTION →
    e.nextEpoch = 0 ∧ e.nextAnchor.isNull = true ∧ e.nextSeatSetHash = 0
  handoff : e.kind = EPOCH_HANDOFF →
    e.actions = [] ∧ e.epoch.toNat ≠ 2 ^ 64 - 1 ∧ e.nextEpoch = e.epoch + 1 ∧
      e.nextAnchor.isNull = false ∧ e.nextSeatSetHash ≠ 0 ∧ e.stateRoot = e.previousStateRoot ∧
      e.resultRoot = computeProductionHandoffResultRoot D e

theorem execution_ne_handoff : EXECUTION ≠ EPOCH_HANDOFF := by decide

theorem handoffFieldsOk_iff (hk : e.kind = EXECUTION ∨ e.kind = EPOCH_HANDOFF) :
    handoffFieldsOk D e = true ↔
      (e.kind = EXECUTION → e.nextEpoch = 0 ∧ e.nextAnchor.isNull = true ∧ e.nextSeatSetHash = 0) ∧
      (e.kind = EPOCH_HANDOFF → e.actions = [] ∧ e.epoch.toNat ≠ 2 ^ 64 - 1 ∧
        e.nextEpoch = e.epoch + 1 ∧ e.nextAnchor.isNull = false ∧ e.nextSeatSetHash ≠ 0 ∧
        e.stateRoot = e.previousStateRoot ∧
        e.resultRoot = computeProductionHandoffResultRoot D e) := by
  unfold handoffFieldsOk
  rcases hk with hk | hk
  · simp [hk, execution_ne_handoff, and_assoc]
  · simp [hk, execution_ne_handoff.symm, and_assoc]

theorem checkBasicShape_ok : checkBasicShape D e = .OK ↔ ShapeOk D e := by
  have hguards : checkBasicShape D e = .OK ↔ ∀ g ∈ shapeGuards D e, g.1 = false :=
    Guards.first_getD_eq (by simp [shapeGuards])
  rw [hguards]
  simp only [shapeGuards, forall_mem_cons, not_mem_nil, false_implies, implies_true,
    and_true, Bool.or_eq_false_iff, Bool.and_eq_false_iff, bne_eq_false_iff_eq, beq_eq_false_iff_ne,
    decide_eq_false_iff_not, Bool.not_eq_false', not_lt, any_eq_false, Bool.not_eq_true]
  constructor
  · rintro ⟨⟨⟨⟨⟨hv, hk⟩, hd⟩, hm⟩, hs⟩, hcount, hcan, hshapes, hparent, hanchor, hroot, heff, hhand⟩
    obtain ⟨hexec, hhand⟩ := (handoffFieldsOk_iff hk).mp hhand
    refine ⟨hv, hk, hd, hm, hs, hcount, hcan, fun a ha => ?_, ?_, hanchor, hroot, heff, hexec, hhand⟩
    · exact hshapes a ha
    · split_ifs at hparent <;> simp_all
  · intro h
    refine ⟨⟨⟨⟨⟨h.version, h.kind⟩, h.domain⟩, h.marketId⟩, h.seatSetHash⟩, h.count, h.canonical,
      h.shapes, ?_, h.anchor, h.actionsRoot, h.effects,
      (handoffFieldsOk_iff h.kind).mpr ⟨h.execution, h.handoff⟩⟩
    have := h.parent
    split_ifs <;> simp_all

/-! ## Bytes and entries -/

theorem decodeProductionEntry_some {b : Bytes} (h : decodeProductionEntry D b = some e) :
    b = entryCodec.put e ∧ entryCodec.valid e ∧ ShapeOk D e ∧
      b.length ≤ FLOWMESH_V1_MAX_MICROBLOCK_BYTES := by
  unfold decodeProductionEntry at h
  rw [Option.ite_none_left_eq_some, not_or, not_lt] at h
  obtain ⟨⟨_, hsize⟩, h⟩ := h
  split at h
  · rename_i e' hget
    rw [Option.ite_none_right_eq_some, Option.some.injEq] at h
    obtain ⟨hshape, rfl⟩ := h
    obtain ⟨hv, hb⟩ := entryCodec.put_get _ _ _ hget
    rw [append_nil] at hb
    exact ⟨hb, hv, checkBasicShape_ok.mp hshape, hsize⟩
  · cases h

theorem decodeProductionEntry_put (hv : entryCodec.valid e) (hs : ShapeOk D e)
    (hsize : (entryCodec.put e).length ≤ FLOWMESH_V1_MAX_MICROBLOCK_BYTES) :
    decodeProductionEntry D (entryCodec.put e) = some e := by
  have hne : entryCodec.put e ≠ [] := by
    intro hnil
    have := congrArg List.length hnil
    simp [entryCodec] at this
  have hget := entryCodec.get_put e hv []
  rw [append_nil] at hget
  rw [decodeProductionEntry, if_neg (by simp [hne, hsize]), hget]
  simp only
  rw [if_pos (checkBasicShape_ok.mpr hs)]

/-! ## Entries with a commitment -/

/-- The fields of an accepted entry that decide whether it has a commitment. -/
@[mk_iff] structure ProductionEntryCore.Committable (e : ProductionEntryCore) : Prop where
  anchorHeight : 0 ≤ e.anchor.height
  anchorHash : e.anchor.hash ≠ 0
  previousStateRoot : e.previousStateRoot ≠ 0
  actionsRoot : e.actionsRoot ≠ 0
  resultRoot : e.resultRoot ≠ 0
  stateRoot : e.stateRoot ≠ 0
  effectRoot : e.effectRoot ≠ 0
  nextAnchor : e.kind = EPOCH_HANDOFF → 0 ≤ e.nextAnchor.height ∧ e.nextAnchor.hash ≠ 0

theorem anchor_valid {a : AnchorRef} (h : anchorCodec.valid a) :
    a.height < 2 ^ 31 ∧ -2 ^ 31 ≤ a.height ∧ a.hash < 2 ^ 256 :=
  ⟨(int32_valid.mp h.1.1).2, (int32_valid.mp h.1.1).1, uint256_valid.mp h.1.2⟩

/-- The codec's validity, field by field. -/
theorem entryCodec_valid : entryCodec.valid e ↔
    u16.valid e.version ∧ u8.valid e.kind ∧ uint256.valid e.domain ∧ uint256.valid e.marketId ∧
      u64.valid e.epoch ∧ uint256.valid e.seatSetHash ∧ u64.valid e.sequence ∧
      uint256.valid e.parentHash ∧ anchorCodec.valid e.anchor ∧
      uint256.valid e.previousStateRoot ∧
      (boundedVector FLOWMESH_V1_MAX_MICROBLOCK_ACTIONS actionCodec).valid e.actions ∧
      uint256.valid e.actionsRoot ∧ uint256.valid e.resultRoot ∧ uint256.valid e.stateRoot ∧
      u64.valid e.effectStart ∧ u32.valid e.effectCount ∧ uint256.valid e.effectRoot ∧
      u64.valid e.nextEpoch ∧ anchorCodec.valid e.nextAnchor ∧
      uint256.valid e.nextSeatSetHash :=
  and_iff_left rfl

theorem height_toNat {h : Int} (hlt : h < 2 ^ 31) : (ofNat h.toNat).toNat = h.toNat :=
  toNat_ofNat_of_lt' (show h.toNat < 2 ^ 64 by omega)

section

variable (hs : ShapeOk D e) (hv : entryCodec.valid e)

include hs hv

theorem wellFormed_iff (ha : 0 ≤ e.anchor.height)
    (hn : e.kind = EPOCH_HANDOFF → 0 ≤ e.nextAnchor.height) :
    e.commitmentFields.wellFormed = true ↔ e.Committable := by
  obtain ⟨_, _, _, _, _, _, _, _, hanchor, _, _, _, _, _, _, _, _, _, hnext, _⟩ :=
    entryCodec_valid.mp hv
  have hheight := height_toNat (anchor_valid hanchor).1
  have hheight' := height_toNat (anchor_valid hnext).1
  have hlt := (anchor_valid hanchor).1
  have hlt' := (anchor_valid hnext).1
  have heff : e.effectStart.toNat ≤ 2 ^ 64 - 1 - e.effectCount.toNat := by
    have := hs.effects
    simp only [effectRangeOk, Bool.and_eq_true, decide_eq_true_eq] at this
    exact this.1.2
  have hparent : (if e.sequence = 0 then e.parentHash == 0 else e.parentHash != 0) = true := by
    have := hs.parent
    split_ifs <;> simp_all
  have hheights : e.anchor.height.toNat ≤ 2 ^ 31 - 1 ∧ e.nextAnchor.height.toNat ≤ 2 ^ 31 - 1 := by
    omega
  unfold ProductionEntryCommitment.wellFormed ProductionEntryCore.commitmentFields
  rcases hs.kind with hk | hk
  · simp only [hk, execution_ne_handoff, if_false, hs.version, hheight, heff, hparent, hs.domain,
      hs.marketId, hs.seatSetHash, hheights.1, beq_self_eq_true, Bool.true_or, Bool.true_and,
      Bool.and_true, if_true, bne_iff_ne, ne_eq, not_false_eq_true, Bool.and_eq_true,
      decide_true, true_and]
    simp [ProductionEntryCore.committable_iff, hk, execution_ne_handoff, ha, and_assoc]
  · obtain ⟨_, hepoch, hnextEpoch, _, hset, _⟩ := hs.handoff hk
    simp only [hk, execution_ne_handoff.symm, if_true, if_false, hs.version, hheight, hheight', heff,
      hparent, hs.domain, hs.marketId, hs.seatSetHash, hheights.1, hheights.2, beq_self_eq_true,
      Bool.or_true, Bool.true_and, Bool.and_true, bne_iff_ne, ne_eq, not_false_eq_true,
      Bool.and_eq_true, decide_true, hepoch, hnextEpoch, hset, true_and, and_true]
    simp [ProductionEntryCore.committable_iff, hk, ha, hn hk, and_assoc]

theorem getHash_of_committable (hc : e.Committable) :
    e.getHash D = D.entryIdentity (commitmentCodec.put e.commitmentFields) := by
  have hid : computeProductionEntryIdentity D e.commitmentFields =
      some (D.entryIdentity (commitmentCodec.put e.commitmentFields)) :=
    if_pos ((wellFormed_iff hs hv hc.anchorHeight fun hk => (hc.nextAnchor hk).1).mpr hc)
  have hnext : ¬ (e.kind = EPOCH_HANDOFF ∧ e.nextAnchor.height < 0) :=
    fun h => absurd h.2 (not_lt.mpr (hc.nextAnchor h.1).1)
  rw [ProductionEntryCore.getHash, ProductionEntryCore.commitment,
    if_neg (not_lt.mpr hc.anchorHeight), if_neg hnext, if_neg (by simp [hid]), Option.bind_some, hid]
  rfl

theorem getHash_of_not_committable (hc : ¬ e.Committable) : e.getHash D = 0 := by
  have hnone : e.commitment D = none := by
    unfold ProductionEntryCore.commitment
    by_cases ha : e.anchor.height < 0
    · rw [if_pos ha]
    · by_cases hn : e.kind = EPOCH_HANDOFF ∧ e.nextAnchor.height < 0
      · rw [if_neg ha, if_pos hn]
      · have hwf := mt (wellFormed_iff hs hv (not_lt.mp ha)
          fun hk => not_lt.mp fun hlt => hn ⟨hk, hlt⟩).mp hc
        have hid : computeProductionEntryIdentity D e.commitmentFields = none := if_neg hwf
        rw [if_neg ha, if_neg hn, if_pos hid]
  rw [ProductionEntryCore.getHash, hnone]
  rfl

end

/-! ## What equal hashes imply -/

theorem commitmentAnchor_valid {a : ProductionCommitmentAnchor} (h : uint256.valid a.blockHash) :
    commitmentAnchorCodec.valid a := ⟨⟨u64BE_valid _, h⟩, rfl⟩

theorem commitmentFields_valid (hv : entryCodec.valid e) :
    commitmentCodec.valid e.commitmentFields := by
  obtain ⟨_, hkind, hdom, hmark, _, hset, _, hpar, hanchor, hprev, _, hacts, hres, hst, _, _, heff,
    _, hnext, hnset⟩ := entryCodec_valid.mp hv
  have hzero : uint256.valid 0 := uint256_valid.mpr (by decide)
  unfold ProductionEntryCore.commitmentFields
  split_ifs with hk
  · exact ⟨⟨u16BE_valid _, hkind, hdom, hmark, u64BE_valid _, hset, u64BE_valid _, hpar,
      commitmentAnchor_valid hanchor.1.2, hprev, hacts, hres, hst, u64BE_valid _, u32BE_valid _, heff,
      u64BE_valid _, commitmentAnchor_valid hnext.1.2, hnset⟩, rfl⟩
  · exact ⟨⟨u16BE_valid _, hkind, hdom, hmark, u64BE_valid _, hset, u64BE_valid _, hpar,
      commitmentAnchor_valid hanchor.1.2, hprev, hacts, hres, hst, u64BE_valid _, u32BE_valid _, heff,
      u64BE_valid _, commitmentAnchor_valid hzero, hzero⟩, rfl⟩

/-- The tagged hashes do not collide on what these two entries feed them; an entry without a
commitment feeds the identity hash nothing. -/
structure CollisionFree (D : Digests) (e₁ e₂ : ProductionEntryCore) : Prop where
  identity : e₁.Committable → e₂.Committable →
    D.entryIdentity (commitmentCodec.put e₁.commitmentFields) =
      D.entryIdentity (commitmentCodec.put e₂.commitmentFields) →
    commitmentCodec.put e₁.commitmentFields = commitmentCodec.put e₂.commitmentFields
  actions : D.actionsRoot (actionsBytes e₁.actions) = D.actionsRoot (actionsBytes e₂.actions) →
    actionsBytes e₁.actions = actionsBytes e₂.actions

theorem anchor_eq {a b : AnchorRef} (ha : anchorCodec.valid a) (hb : anchorCodec.valid b)
    (ha₀ : 0 ≤ a.height) (hb₀ : 0 ≤ b.height)
    (hh : ofNat a.height.toNat = ofNat b.height.toNat) (hhash : a.hash = b.hash) :
    a = b := by
  have := congrArg toNat hh
  rw [height_toNat (anchor_valid ha).1, height_toNat (anchor_valid hb).1] at this
  obtain ⟨x, xhash⟩ := a
  obtain ⟨y, yhash⟩ := b
  obtain rfl : x = y := by simp only at *; omega
  exact congrArg _ hhash

/-- Behind equal commitments two entries agree up to their actions and next anchors. -/
theorem eq_of_commitmentFields {e₁ e₂ : ProductionEntryCore} (hs₁ : ShapeOk D e₁)
    (hs₂ : ShapeOk D e₂) (hv₁ : entryCodec.valid e₁) (hv₂ : entryCodec.valid e₂)
    (hc₁ : e₁.Committable) (hc₂ : e₂.Committable) (h : e₁.commitmentFields = e₂.commitmentFields) :
    e₂ = { e₁ with actions := e₂.actions, nextAnchor := e₂.nextAnchor } ∧
      (e₁.kind = EPOCH_HANDOFF → e₂.nextAnchor = e₁.nextAnchor) := by
  obtain ⟨_, _, _, _, _, _, _, _, ha1, _, _, _, _, _, _, _, _, _, hn1, _⟩ :=
    entryCodec_valid.mp hv₁
  obtain ⟨_, _, _, _, _, _, _, _, ha2, _, _, _, _, _, _, _, _, _, hn2, _⟩ :=
    entryCodec_valid.mp hv₂
  have hkind : e₁.kind = e₂.kind := by
    have := congrArg ProductionEntryCommitment.kind h
    simp only [ProductionEntryCore.commitmentFields] at this
    split_ifs at this <;> exact this
  unfold ProductionEntryCore.commitmentFields at h
  rcases hs₁.kind with hk | hk
  · obtain ⟨hep1, _, hset1⟩ := hs₁.execution hk
    obtain ⟨hep2, _, hset2⟩ := hs₂.execution (hkind ▸ hk)
    simp only [← hkind, hk, execution_ne_handoff, if_false] at h
    injection h with hver _ hdom hmark hepoch hset hseq hpar hanc hprev hacts hres hst hes hec her
    injection hanc with hh hhash
    have hanchor := anchor_eq ha1 ha2 hc₁.anchorHeight hc₂.anchorHeight hh hhash
    exact ⟨ProductionEntryCore.ext hver.symm hkind.symm hdom.symm hmark.symm hepoch.symm hset.symm
      hseq.symm hpar.symm hanchor.symm hprev.symm rfl hacts.symm hres.symm hst.symm hes.symm hec.symm
      her.symm (hep2.trans hep1.symm) rfl (hset2.trans hset1.symm),
      fun hk' => absurd (hk.symm.trans hk') execution_ne_handoff⟩
  · simp only [← hkind, hk, if_true] at h
    injection h with hver _ hdom hmark hepoch hset hseq hpar hanc hprev hacts hres hst hes hec her
      hne hna hns
    injection hanc with hh hhash
    injection hna with hnh hnhash
    have hanchor := anchor_eq ha1 ha2 hc₁.anchorHeight hc₂.anchorHeight hh hhash
    have hnext := anchor_eq hn1 hn2 (hc₁.nextAnchor hk).1 (hc₂.nextAnchor (hkind ▸ hk)).1 hnh hnhash
    exact ⟨ProductionEntryCore.ext hver.symm hkind.symm hdom.symm hmark.symm hepoch.symm hset.symm
      hseq.symm hpar.symm hanchor.symm hprev.symm rfl hacts.symm hres.symm hst.symm hes.symm hec.symm
      her.symm hne.symm rfl hns.symm, fun _ => hnext.symm⟩

theorem actions_eq {as bs : List Action}
    (ha : (boundedVector FLOWMESH_V1_MAX_MICROBLOCK_ACTIONS actionCodec).valid as)
    (hb : (boundedVector FLOWMESH_V1_MAX_MICROBLOCK_ACTIONS actionCodec).valid bs)
    (h : actionsBytes as = actionsBytes bs) : as = bs := by
  have hlen : ∀ {l : List Action},
      (boundedVector FLOWMESH_V1_MAX_MICROBLOCK_ACTIONS actionCodec).valid l →
        l.length < 2 ^ 64 := fun {l} hl => hl.1.1.1
  obtain ⟨hcount, hbytes⟩ := append_inj h (by simp)
  have hlength : as.length = bs.length := by
    have := congrArg toNat (u64.put_injective (u64_valid _) (u64_valid _) hcount)
    rwa [toNat_ofNat_of_lt' (hlen ha), toNat_ofNat_of_lt' (hlen hb)] at this
  have hget := actionCodec.getItems_put as ha.2 []
  rw [hbytes, hlength, actionCodec.getItems_put bs hb.2 []] at hget
  exact (Prod.mk.inj (Option.some.inj hget)).1.symm

/-- An execution's hash binds it up to the height of its next anchor. -/
theorem execution_hash_binds {e₁ e₂ : ProductionEntryCore} (hnull : ∀ m, D.entryIdentity m ≠ 0)
    (hs₁ : ShapeOk D e₁) (hs₂ : ShapeOk D e₂) (hv₁ : entryCodec.valid e₁)
    (hv₂ : entryCodec.valid e₂) (hc₁ : e₁.Committable) (hfree : CollisionFree D e₁ e₂)
    (hhash : e₁.getHash D = e₂.getHash D) : e₂ = { e₁ with nextAnchor := e₂.nextAnchor } ∧
      (e₁.kind = EPOCH_HANDOFF → e₂ = e₁) := by
  have hc2 : e₂.Committable := by
    by_contra hc
    rw [getHash_of_not_committable hs₂ hv₂ hc, getHash_of_committable hs₁ hv₁ hc₁] at hhash
    exact hnull _ hhash
  rw [getHash_of_committable hs₁ hv₁ hc₁, getHash_of_committable hs₂ hv₂ hc2] at hhash
  have hfields := commitmentCodec.put_injective (commitmentFields_valid hv₁)
    (commitmentFields_valid hv₂) (hfree.identity hc₁ hc2 hhash)
  obtain ⟨heq, hnext⟩ := eq_of_commitmentFields hs₁ hs₂ hv₁ hv₂ hc₁ hc2 hfields
  have hroot : e₁.actionsRoot = e₂.actionsRoot := by rw [heq]
  rw [hs₁.actionsRoot, hs₂.actionsRoot] at hroot
  have hacts : e₁.actions = e₂.actions := by
    obtain ⟨_, _, _, _, _, _, _, _, _, _, ha1, _⟩ := entryCodec_valid.mp hv₁
    obtain ⟨_, _, _, _, _, _, _, _, _, _, ha2, _⟩ := entryCodec_valid.mp hv₂
    exact actions_eq ha1 ha2 (hfree.actions hroot)
  refine ⟨by rw [hacts]; exact heq, fun hk => ?_⟩
  rw [heq, ← hacts, hnext hk]

/-! ## Two encodings of one hash -/

/-- The same execution with another height in its null next anchor. -/
def ProductionEntryCore.reheight (e : ProductionEntryCore) : ProductionEntryCore :=
  { e with nextAnchor := ⟨if e.nextAnchor.height = -1 then -2 else -1, e.nextAnchor.hash⟩ }

theorem reheight_shape (hs : ShapeOk D e) (hk : e.kind = EXECUTION) : ShapeOk D e.reheight := by
  obtain ⟨hep, hnull, hset⟩ := hs.execution hk
  refine ⟨hs.version, hs.kind, hs.domain, hs.marketId, hs.seatSetHash, hs.count, hs.canonical,
    hs.shapes, hs.parent, hs.anchor, hs.actionsRoot, hs.effects, fun _ => ⟨hep, ?_, hset⟩,
    fun hk' => absurd (hk.symm.trans hk') execution_ne_handoff⟩
  simp only [AnchorRef.isNull, Bool.and_eq_true, ProductionEntryCore.reheight] at hnull ⊢
  exact ⟨by split_ifs <;> decide, hnull.2⟩

theorem reheight_valid (hv : entryCodec.valid e) : entryCodec.valid e.reheight := by
  rw [entryCodec_valid] at hv ⊢
  obtain ⟨h1, h2, h3, h4, h5, h6, h7, h8, h9, h10, h11, h12, h13, h14, h15, h16, h17, h18, hnext,
    h20⟩ := hv
  refine ⟨h1, h2, h3, h4, h5, h6, h7, h8, h9, h10, h11, h12, h13, h14, h15, h16, h17, h18,
    ⟨⟨int32_valid.mpr ?_, hnext.1.2⟩, rfl⟩, h20⟩
  simp only [ProductionEntryCore.reheight]
  split_ifs <;> decide

theorem reheight_length : (entryCodec.put e.reheight).length = (entryCodec.put e).length := by
  simp [entryCodec, ProductionEntryCore.reheight, anchorCodec]

theorem reheight_ne : e.reheight ≠ e := by
  intro h
  have : (if e.nextAnchor.height = -1 then -2 else -1) = e.nextAnchor.height :=
    congrArg (fun x => x.nextAnchor.height) h
  split_ifs at this <;> omega

theorem reheight_commitmentFields (hk : e.kind = EXECUTION) :
    e.reheight.commitmentFields = e.commitmentFields := by
  unfold ProductionEntryCore.commitmentFields
  have hk' : e.reheight.kind = EXECUTION := hk
  rw [if_neg (by rw [hk']; exact execution_ne_handoff), if_neg (by rw [hk]; exact execution_ne_handoff)]
  rfl

theorem reheight_getHash (hk : e.kind = EXECUTION) : e.reheight.getHash D = e.getHash D := by
  have hk' : e.reheight.kind = EXECUTION := hk
  have hcommit : e.reheight.commitment D = e.commitment D := by
    unfold ProductionEntryCore.commitment
    rw [reheight_commitmentFields hk, hk', hk]
    rfl
  rw [ProductionEntryCore.getHash, hcommit]
  rfl

/-- An accepted execution whose anchor has a negative height. -/
def unanchored (D : Digests) : ProductionEntryCore where
  domain := 1
  marketId := 1
  epoch := 0
  seatSetHash := 1
  sequence := 0
  parentHash := 0
  anchor := ⟨-1, 1⟩
  previousStateRoot := 1
  actionsRoot := computeProductionActionsRoot D []
  resultRoot := 1
  stateRoot := 1
  effectStart := 0
  effectRoot := D.emptyEffectRoot 0

theorem unanchored_shape (D : Digests) : ShapeOk D (unanchored D) where
  version := rfl
  kind := .inl rfl
  domain := one_ne_zero
  marketId := one_ne_zero
  seatSetHash := one_ne_zero
  count := Nat.zero_le _
  canonical := by simp [unanchored, actionsAreCanonical]
  shapes := by simp [unanchored]
  parent := by simp [unanchored]
  anchor := rfl
  actionsRoot := rfl
  effects := by simp [effectRangeOk, unanchored]
  execution _ := ⟨rfl, rfl, rfl⟩
  handoff h := absurd h execution_ne_handoff

/-- Decoded bytes of an entry with no actions are always short enough. -/
theorem put_length_of_no_actions (h : e.actions = []) :
    (entryCodec.put e).length ≤ FLOWMESH_V1_MAX_MICROBLOCK_BYTES := by
  have hcount : ((boundedVector FLOWMESH_V1_MAX_MICROBLOCK_ACTIONS actionCodec).put []).length = 1 :=
    rfl
  simp [entryCodec, anchorCodec, h, hcount, FLOWMESH_V1_MAX_MICROBLOCK_BYTES]

theorem noActions_valid : (boundedVector FLOWMESH_V1_MAX_MICROBLOCK_ACTIONS actionCodec).valid [] :=
  ⟨⟨⟨by decide, by decide⟩, by decide⟩, by simp⟩

theorem unanchored_valid (D : Digests) : entryCodec.valid (unanchored D) := by
  have hone : uint256.valid 1 := uint256_valid.mpr (by decide)
  have hzero : uint256.valid 0 := uint256_valid.mpr (by decide)
  have hanchor : ∀ x : Uint256, uint256.valid x → anchorCodec.valid ⟨-1, x⟩ :=
    fun x hx => ⟨⟨int32_valid.mpr (show -2 ^ 31 ≤ (-1 : Int) ∧ (-1 : Int) < 2 ^ 31 by decide), hx⟩,
      rfl⟩
  exact ⟨⟨u16_valid _, u8_valid _, hone, hone, u64_valid _, hone, u64_valid _, hzero,
    hanchor 1 hone, hone, noActions_valid, uint256_valid.mpr (D.actionsRoot_lt _), hone, hone,
    u64_valid _, u32_valid _, uint256_valid.mpr (D.emptyEffectRoot_lt _), u64_valid _,
    hanchor 0 hzero, hzero⟩, rfl⟩

/-- The hash fixes the bytes of an accepted entry exactly when the entry is a handoff whose
anchors and roots are in order. -/
theorem entry_hash_binds_iff (hnull : ∀ m, D.entryIdentity m ≠ 0) {b₁ : Bytes}
    {e₁ : ProductionEntryCore} (h₁ : decodeProductionEntry D b₁ = some e₁) :
    (∀ b₂ e₂, decodeProductionEntry D b₂ = some e₂ → CollisionFree D e₁ e₂ →
      e₁.getHash D = e₂.getHash D → b₁ = b₂) ↔
    e₁.kind = EPOCH_HANDOFF ∧ e₁.Committable := by
  obtain ⟨rfl, hv₁, hs₁, hsize⟩ := decodeProductionEntry_some h₁
  constructor
  · intro hbinds
    by_contra hcond
    rcases hs₁.kind with hk | hk
    · -- an execution: another height in the null next anchor
      have hdec := decodeProductionEntry_put (reheight_valid hv₁) (reheight_shape hs₁ hk)
        (by rwa [reheight_length])
      have hput := hbinds _ _ hdec
        ⟨fun _ _ _ => by rw [reheight_commitmentFields hk], fun _ => rfl⟩ (reheight_getHash hk).symm
      exact reheight_ne (entryCodec.put_injective (reheight_valid hv₁) hv₁ hput.symm)
    · -- a handoff without a commitment: every such entry hashes to null
      have hc₁ : ¬ e₁.Committable := fun hc => hcond ⟨hk, hc⟩
      have hc₂ : ¬ (unanchored D).Committable := fun hc =>
        absurd hc.anchorHeight (show ¬ (0 : Int) ≤ -1 by decide)
      have hdec := decodeProductionEntry_put (unanchored_valid D) (unanchored_shape D)
        (put_length_of_no_actions rfl)
      have hput := hbinds _ _ hdec
        ⟨fun hc => absurd hc hc₁, fun _ => by rw [(hs₁.handoff hk).1]; rfl⟩
        (by rw [getHash_of_not_committable hs₁ hv₁ hc₁,
          getHash_of_not_committable (unanchored_shape D) (unanchored_valid D) hc₂])
      have heq := entryCodec.put_injective hv₁ (unanchored_valid D) hput
      rw [heq] at hk
      exact execution_ne_handoff hk
  · rintro ⟨hk, hc₁⟩ b₂ e₂ h₂ hfree hhash
    obtain ⟨rfl, hv₂, hs₂, _⟩ := decodeProductionEntry_some h₂
    rw [(execution_hash_binds hnull hs₁ hs₂ hv₁ hv₂ hc₁ hfree hhash).2 hk]

/-! ## Sample entries -/

namespace Sample

/-- Digests whose identity hash is injective. -/
def digests : Digests where
  actionId := leValue
  actionsRoot _ := 1
  handoffResultRoot _ := 2
  entryIdentity m := leValue (m ++ [1])
  emptyEffectRoot _ := 3
  actionsRoot_lt _ := by decide
  handoffResultRoot_lt _ := by decide
  emptyEffectRoot_lt _ := by decide

theorem entryIdentity_ne_zero (m : Bytes) : digests.entryIdentity m ≠ 0 := by
  change leValue (m ++ [1]) ≠ 0
  induction m with
  | nil => decide
  | cons x m ih =>
    rw [cons_append, leValue]
    omega

def execution : ProductionEntryCore := { unanchored digests with anchor := ⟨5, 1⟩ }

def handoff : ProductionEntryCore :=
  { unanchored digests with
    kind := EPOCH_HANDOFF
    anchor := ⟨5, 1⟩
    resultRoot := 2
    nextEpoch := 1
    nextAnchor := ⟨6, 2⟩
    nextSeatSetHash := 4 }

theorem execution_decodes :
    decodeProductionEntry digests (entryCodec.put execution) = some execution := by
  refine decodeProductionEntry_put ?_ (checkBasicShape_ok.mp (by decide))
    (put_length_of_no_actions rfl)
  obtain ⟨h1, h2, h3, h4, h5, h6, h7, h8, h9, hrest⟩ :=
    entryCodec_valid.mp (unanchored_valid digests)
  exact ⟨⟨h1, h2, h3, h4, h5, h6, h7, h8, ⟨⟨int32_valid.mpr (by decide), h9.1.2⟩, rfl⟩, hrest⟩, rfl⟩

theorem handoff_decodes :
    decodeProductionEntry digests (entryCodec.put handoff) = some handoff := by
  refine decodeProductionEntry_put ?_ (checkBasicShape_ok.mp (by decide))
    (put_length_of_no_actions rfl)
  have huint : ∀ x < 5, uint256.valid x := fun x hx =>
    uint256_valid.mpr (lt_trans hx (by decide))
  exact ⟨⟨u16_valid _, u8_valid _, huint 1 (by decide), huint 1 (by decide), u64_valid _,
    huint 1 (by decide), u64_valid _, huint 0 (by decide),
    ⟨⟨int32_valid.mpr (by decide), huint 1 (by decide)⟩, rfl⟩, huint 1 (by decide), noActions_valid,
    huint 1 (by decide), huint 2 (by decide), huint 1 (by decide), u64_valid _, u32_valid _,
    huint 3 (by decide), u64_valid _,
    ⟨⟨int32_valid.mpr (by decide), huint 2 (by decide)⟩, rfl⟩, huint 4 (by decide)⟩, rfl⟩

end Sample

theorem sample_handoff_binds :
    decodeProductionEntry Sample.digests (entryCodec.put Sample.handoff) = some Sample.handoff ∧
      ∀ b₂ e₂, decodeProductionEntry Sample.digests b₂ = some e₂ →
        CollisionFree Sample.digests Sample.handoff e₂ →
        Sample.handoff.getHash Sample.digests = e₂.getHash Sample.digests →
        entryCodec.put Sample.handoff = b₂ :=
  ⟨Sample.handoff_decodes,
    (entry_hash_binds_iff Sample.entryIdentity_ne_zero Sample.handoff_decodes).mpr
      ⟨rfl, by decide, by decide, by decide, by decide, by decide, by decide, by decide,
        fun _ => by decide⟩⟩

/-- Two different byte strings of one certified execution. -/
theorem execution_malleable : ∃ b₁ b₂ e₁ e₂, decodeProductionEntry Sample.digests b₁ = some e₁ ∧
      decodeProductionEntry Sample.digests b₂ = some e₂ ∧ CollisionFree Sample.digests e₁ e₂ ∧
      e₁.getHash Sample.digests ≠ 0 ∧ e₁.getHash Sample.digests = e₂.getHash Sample.digests ∧
      b₁ ≠ b₂ := by
  obtain ⟨_, hv, hs, _⟩ := decodeProductionEntry_some Sample.execution_decodes
  refine ⟨_, _, _, Sample.execution.reheight, Sample.execution_decodes,
    decodeProductionEntry_put (reheight_valid hv) (reheight_shape hs rfl)
      (put_length_of_no_actions rfl),
    ⟨fun _ _ _ => by rw [reheight_commitmentFields rfl], fun _ => rfl⟩, ?_,
    (reheight_getHash rfl).symm,
    fun h => reheight_ne (entryCodec.put_injective (reheight_valid hv) hv h.symm)⟩
  rw [getHash_of_committable hs hv ⟨by decide, by decide, by decide, by decide, by decide, by decide,
    by decide, fun h => absurd h execution_ne_handoff⟩]
  exact Sample.entryIdentity_ne_zero _

end B3Coin.FlowMesh
