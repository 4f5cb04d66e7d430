import B3Coin.Finality.BindingIndex

/-!
# Key bindings over connected and disconnected blocks

The owner map is the inverse of the bindings: a transition that passes its check
keeps it so, the undo record restores both maps, and the overlay answers every
lookup as the index will after the transitions found so far.
-/
open Transition (Run)

namespace B3Coin.KeyBinding

open Codec (Bytes)
open Finality (ValidatorKey BlsPubkey)
open InverseIndex Reversible Guards OrderedMap BindingRecord FinalityBindingIndex
open FinalityBindingOverlay (previousOf record)

/-! ## One transition -/

theorem BindingRecord.key_eq_some {r : BindingRecord} {p : BlsPubkey} :
    r.key = some p ↔ r.blsPubkey = p ∧ p ≠ 0 := by
  unfold key isRevoked
  by_cases h : r.blsPubkey = 0
  · simp only [h, beq_self_eq_true, if_true]
    exact ⟨fun hn => (nomatch hn), fun hp => absurd hp.1.symm hp.2⟩
  · simp only [beq_iff_eq, h, if_false, Option.some.injEq]
    exact ⟨fun hp => ⟨hp, hp ▸ h⟩, fun hp => hp.1⟩

theorem BindingRecord.not_revoked {r : BindingRecord} (h : r.isRevoked = false) :
    r.key = some r.blsPubkey := by
  unfold key
  rw [h]
  rfl

namespace Bindings

variable {b : Bindings} {t : Transition}

/-- The owner map is the inverse of the bindings in force. -/
def OneToOne (b : Bindings) : Prop := Inverse key b.byValidator b.ownerOfKey

theorem claimed_eq (owner : OrderedMap BlsPubkey ValidatorKey) (vk : ValidatorKey)
    (r : BindingRecord) : claimed owner vk r = claim owner vk r.key := by
  unfold claimed key
  cases r.isRevoked <;> rfl

variable {vk : ValidatorKey}

/-- What the inverse says makes the owner test of `Set` and `Restore` redundant. -/
theorem OneToOne.released_eq (h : b.OneToOne) {r : BindingRecord}
    (hr : b.byValidator.find? vk = some r) : b.released vk = release b.ownerOfKey r.key := by
  unfold released
  rw [hr]
  cases hrev : r.isRevoked with
  | true => simp [key, hrev, release]
  | false =>
    have hkey := not_revoked hrev
    have hown := (h r.blsPubkey vk).mpr ⟨r, hr, hkey⟩
    simp [hrev, hown, hkey, release]

theorem released_of_none (hr : b.byValidator.find? vk = none) : b.released vk = b.ownerOfKey := by
  unfold released
  rw [hr]

theorem OneToOne.without (h : b.OneToOne) (vk : ValidatorKey) :
    Inverse key (b.byValidator.erase vk) (b.released vk) := by
  cases hr : b.byValidator.find? vk with
  | none =>
    rw [erase_of_find?_none hr, released_of_none hr]
    exact h
  | some r =>
    rw [h.released_eq hr]
    exact h.erase hr

/-- The key of a transition is free or already the validator's own. -/
def Free (b : Bindings) (t : Transition) : Prop :=
  ∀ p w, t.record.key = some p → b.ownerOfKey.find? p = some w → w = t.validatorKey

/-- A transition that the rules let through. -/
structure Allowed (b : Bindings) (t : Transition) : Prop where
  free : Free b t
  rises : ∀ r, b.get t.validatorKey = some r → r.seq < t.record.seq

/-- A record enters a validator's place when nobody else holds its key. -/
theorem OneToOne.enter (h : b.OneToOne) {r : BindingRecord}
    (hfree : ∀ k r' p, k ≠ vk → b.byValidator.find? k = some r' → r'.key = some p →
      r.key ≠ some p) :
    OneToOne ⟨b.byValidator.insert vk r, claimed (b.released vk) vk r⟩ := by
  have hwithout := h.without vk
  unfold OneToOne
  rw [claimed_eq, ← insert_erase]
  refine hwithout.insert (find?_erase_self _ _) fun p hp => ?_
  refine hwithout.find?_eq_none.mpr fun k r' hk hr' => ?_
  rw [find?_erase] at hk
  split_ifs at hk with hkk
  exact hfree k r' p hkk hk hr' hp

theorem OneToOne.set (h : b.OneToOne) (hfree : Free b t) : (b.set t).OneToOne := by
  refine h.enter fun k r' p hk hr' hp' hp => hk ?_
  exact hfree p k hp ((h p k).mpr ⟨r', hr', hp'⟩)

/-- The undo entry of a transition restores both maps. -/
theorem OneToOne.restore_set (h : b.OneToOne) (hfree : Free b t) :
    (b.set t).restore ⟨t.validatorKey, b.get t.validatorKey⟩ = b := by
  have hset := h.set hfree
  have herase : (b.set t).byValidator.erase t.validatorKey = b.byValidator.erase t.validatorKey :=
    erase_insert _ _ _
  unfold restore get
  cases hr : b.byValidator.find? t.validatorKey with
  | none =>
    have hmap : (b.set t).byValidator.erase t.validatorKey = b.byValidator := by
      rw [herase, erase_of_find?_none hr]
    have hown := hset.without t.validatorKey
    rw [hmap] at hown
    simp [hmap, hown.unique h]
  | some r =>
    have hmap : ((b.set t).byValidator.erase t.validatorKey).insert t.validatorKey r =
        b.byValidator := by
      rw [herase, insert_erase, insert_of_find? hr]
    have hown : OneToOne ⟨(b.set t).byValidator.insert t.validatorKey r,
        claimed ((b.set t).released t.validatorKey) t.validatorKey r⟩ := hset.enter ?_
    · unfold OneToOne at hown
      rw [← insert_erase] at hown
      simp only [hmap] at hown ⊢
      rw [hown.unique h]
    · -- whoever else holds the old key now held it before, next to the validator itself
      intro k r' p hk hr' hp' hp
      have hbefore : b.byValidator.find? k = some r' := by
        rw [Bindings.set, find?_insert, if_neg hk] at hr'
        exact hr'
      exact hk (h.holder_unique hbefore hp' hr hp)

end Bindings

/-! ## The transitions of a block -/

namespace Bindings

/-- Every transition is allowed at its place. -/
def AllAllowed : List Transition → Bindings → Prop
  | [], _ => True
  | t :: ts, b => Allowed b t ∧ AllAllowed ts (b.set t)

variable {ts : List Transition} {b : Bindings}

theorem AllAllowed.append {ts' : List Transition} (h : AllAllowed ts b)
    (h' : AllAllowed ts' (setAll ts b).2) : AllAllowed (ts ++ ts') b := by
  induction ts generalizing b with
  | nil => exact h'
  | cons t ts ih => exact ⟨h.1, ih h.2 h'⟩

theorem setAll_append (ts ts' : List Transition) (b : Bindings) :
    (setAll (ts ++ ts') b).2 = (setAll ts' (setAll ts b).2).2 := by
  induction ts generalizing b with
  | nil => rfl
  | cons t ts ih => exact ih (b.set t)

theorem OneToOne.setAll (h : b.OneToOne) (hts : AllAllowed ts b) : (setAll ts b).2.OneToOne := by
  induction ts generalizing b with
  | nil => exact h
  | cons t ts ih => exact ih (h.set hts.1.free) hts.2

theorem OneToOne.restoreAll_setAll (h : b.OneToOne)
    (hts : AllAllowed ts b) : restoreAll (Bindings.setAll ts b).1 (Bindings.setAll ts b).2 = b := by
  induction ts generalizing b with
  | nil => rfl
  | cons t ts ih =>
    have hrest := ih (h.set hts.1.free) hts.2
    rw [Bindings.setAll, restoreAll, List.foldr_cons]
    rw [restoreAll] at hrest
    rw [hrest]
    exact h.restore_set hts.1.free

/-- The binding of a validator stays, or gives way to one with a higher number. -/
def Rises (b b' : Bindings) : Prop :=
  ∀ vk r, b.get vk = some r → ∃ r', b'.get vk = some r' ∧ (r' = r ∨ r.seq < r'.seq)

theorem Rises.refl (b : Bindings) : Rises b b := fun _ r hr => ⟨r, hr, .inl rfl⟩

theorem Rises.trans {a c : Bindings} (h : Rises a b) (h' : Rises b c) : Rises a c := by
  intro vk r hr
  obtain ⟨r', hr', hcase⟩ := h vk r hr
  obtain ⟨r'', hr'', hcase'⟩ := h' vk r' hr'
  refine ⟨r'', hr'', ?_⟩
  rcases hcase with rfl | hlt
  · exact hcase'
  · rcases hcase' with rfl | hlt'
    · exact .inr hlt
    · exact .inr (UInt32.lt_trans hlt hlt')

theorem Allowed.rises_set {t : Transition} (h : Allowed b t) : Rises b (b.set t) := by
  intro vk r hr
  by_cases hvk : vk = t.validatorKey
  · subst hvk
    exact ⟨t.record, find?_insert_self _ _ _, .inr (h.rises r hr)⟩
  · refine ⟨r, ?_, .inl rfl⟩
    rw [get, set, find?_insert, if_neg hvk]
    exact hr

theorem AllAllowed.rises (h : AllAllowed ts b) : Rises b (setAll ts b).2 := by
  induction ts generalizing b with
  | nil => exact .refl b
  | cons t ts ih => exact h.1.rises_set.trans (ih h.2)

end Bindings

/-! ## The overlay -/

section Overlay

variable {C : Crypto} {chainDomain : Uint256}

theorem seq_lt_of_succ {a b : UInt32} (h : a.toNat ≠ UINT32_MAX) (hb : b = a + 1) : a < b := by
  rw [UInt32.lt_iff_toNat_lt, hb, UInt32.toNat_add]
  have hlt := a.toNat_lt
  unfold UINT32_MAX at h
  have hone : (1 : UInt32).toNat = 1 := rfl
  omega

/-- What a transition that passes says about the binding and the owner before it. -/
theorem check_ok {commitment : ValidatorKey} {params : FinalityKeyParams}
    {evidence : FinalityKeyEvidence} {previous : Option BindingRecord}
    {ownerOf : BlsPubkey → Option ValidatorKey}
    (h : checkFinalityKeyTransition C chainDomain commitment params evidence previous ownerOf =
      .OK) :
    (∀ r, previous = some r → r.seq < params.seq) ∧
      (params.blsPubkey ≠ 0 → ∀ owner, ownerOf params.blsPubkey = some owner →
        owner = commitment) := by
  have hpass := (first_getD_eq (by
    cases previous <;> simp [consistencyGuards, sequenceGuards, authorityGuards])).mp h
  constructor
  · rintro r rfl
    have hmax := hpass (decide (r.seq.toNat = UINT32_MAX), .SEQ_OVERFLOW) (by simp [sequenceGuards])
    have hseq := hpass (decide (params.seq ≠ r.seq + 1), .BAD_SEQ) (by simp [sequenceGuards])
    exact seq_lt_of_succ (by simpa using hmax) (by simpa using hseq)
  · intro hne owner howner
    have huse := hpass (_, .BLS_KEY_IN_USE)
      (List.mem_append_right _ (by simp [authorityGuards]; rfl))
    simpa [hne, howner] using huse

/-- The overlay over an index, and the bindings that the transitions so far lead to. -/
structure Mirrors (ov : FinalityBindingOverlay) (b : Bindings) : Prop where
  base : ov.base.OneToOne
  now : b.OneToOne
  pending : Inverse key ov.pending ov.pendingOwner
  previous : ∀ vk, ov.previousOf vk = b.get vk

theorem mirrors_start {index : FinalityBindingIndex} {height : Int} (h : index.OneToOne) :
    Mirrors { base := index, height } index.toBindings :=
  ⟨h, h, inverse_empty, fun _ => rfl⟩

variable {b : Bindings}

theorem ownerOf_eq_some (h : b.OneToOne) {pk : BlsPubkey} {vk : ValidatorKey} :
    b.ownerOf pk = some vk ↔ ∃ r, b.get vk = some r ∧ r.key = some pk := by
  rw [Bindings.ownerOf]
  by_cases hz : pk = 0
  · rw [if_pos hz]
    refine ⟨fun hn => (nomatch hn), ?_⟩
    rintro ⟨r, _, hr⟩
    exact absurd hz (key_eq_some.mp hr).2
  · rw [if_neg hz]
    exact h pk vk

variable {ov : FinalityBindingOverlay}

/-- The owner lookup of the overlay is that of the bindings it stands for. -/
theorem Mirrors.ownerOf (h : Mirrors ov b) (pk : BlsPubkey) : ov.ownerOf pk = b.ownerOf pk := by
  have hprev : ∀ vk r, ov.previousOf vk = some r → r.key = some pk → b.ownerOf pk = some vk :=
    fun vk r hr hk => (ownerOf_eq_some h.now).mpr ⟨r, by rw [← h.previous, hr], hk⟩
  unfold FinalityBindingOverlay.ownerOf
  cases hp : ov.pendingOwner.find? pk with
  | some owner =>
    obtain ⟨r, hr, hk⟩ := (h.pending pk owner).mp hp
    exact (hprev owner r (by rw [previousOf, hr]) hk).symm
  | none =>
    have hfree := h.pending.find?_eq_none.mp hp
    cases ho : ov.base.ownerOf pk with
    | some owner =>
      obtain ⟨r, hr, hk⟩ := (ownerOf_eq_some h.base).mp ho
      cases hq : ov.pending.find? owner with
      | none =>
        have := hprev owner r (by rw [previousOf, hq]; exact hr) hk
        simp [this, hq]
      | some r' =>
        -- the confirmed owner has moved, and nobody has taken the key since
        have hz := (key_eq_some.mp hk).2
        have hne : r'.blsPubkey ≠ pk := fun heq =>
          hfree owner r' hq (key_eq_some.mpr ⟨heq, hz⟩)
        simp only [hq, Option.any_some, decide_not, hne, decide_false, Bool.not_false, if_true]
        refine (Option.eq_none_iff_forall_ne_some.mpr fun vk hvk => ?_).symm
        obtain ⟨r'', hr'', hk''⟩ := (ownerOf_eq_some h.now).mp hvk
        rw [← h.previous, previousOf] at hr''
        cases hv : ov.pending.find? vk with
        | some w =>
          rw [hv] at hr''
          cases hr''
          exact hfree vk _ hv hk''
        | none =>
          rw [hv] at hr''
          have heq := h.base.holder_unique hr'' hk'' hr hk
          rw [heq, hq] at hv
          cases hv
    | none =>
      refine (Option.eq_none_iff_forall_ne_some.mpr fun vk hvk => ?_).symm
      obtain ⟨r, hr, hk⟩ := (ownerOf_eq_some h.now).mp hvk
      rw [← h.previous, previousOf] at hr
      cases hv : ov.pending.find? vk with
      | some w =>
        rw [hv] at hr
        cases hr
        exact hfree vk _ hv hk
      | none =>
        rw [hv] at hr
        rw [(ownerOf_eq_some h.base).mpr ⟨r, hr, hk⟩] at ho
        cases ho

/-- Recording a transition treats the pending maps as `Set` treats those of the index: a key
released from the confirmed index is not among the pending ones. -/
theorem Mirrors.record_eq (h : Mirrors ov b) (t : Transition) : ov.record t = { ov with
      pending := (Bindings.set ⟨ov.pending, ov.pendingOwner⟩ t).byValidator
      pendingOwner := (Bindings.set ⟨ov.pending, ov.pendingOwner⟩ t).ownerOfKey } := by
  unfold record Bindings.set Bindings.released
  cases hp : ov.pending.find? t.validatorKey with
  | some r => simp [previousOf, hp]
  | none =>
    cases hb : ov.base.get t.validatorKey with
    | none => simp [previousOf, hp, hb]
    | some r =>
      have hown : ov.pendingOwner.find? r.blsPubkey ≠ some t.validatorKey := by
        intro hown
        obtain ⟨r', hr', _⟩ := (h.pending _ _).mp hown
        rw [hp] at hr'
        cases hr'
      simp [previousOf, hp, hb, hown]

variable {ov' : FinalityBindingOverlay}

theorem applyPair_allowed {pair : FinalityKeyPair}
    {t : Transition} (h : Mirrors ov b) (happly : applyPair C chainDomain ov pair = .ok (t, ov')) :
    b.Allowed t ∧ Mirrors ov' (b.set t) := by
  unfold applyPair at happly
  split at happly
  case h_2 => cases happly
  case h_1 hcheck =>
    obtain ⟨rfl, rfl⟩ := happly
    obtain ⟨hseq, howner⟩ := check_ok hcheck
    set t : Transition := ⟨pair.commitment, ⟨pair.params.blsPubkey, pair.params.seq, ov.height⟩⟩
    have hkey : ∀ p, t.record.key = some p → pair.params.blsPubkey = p ∧ p ≠ 0 :=
      fun p hp => key_eq_some.mp hp
    have hfree : b.Free t := by
      intro p w hp hw
      obtain ⟨rfl, hz⟩ := hkey p hp
      refine howner hz w ?_
      rw [h.ownerOf, Bindings.ownerOf, if_neg hz]
      exact hw
    have hallowed : b.Allowed t := ⟨hfree, fun r hr => hseq r (by rw [h.previous]; exact hr)⟩
    have hpending : Bindings.Free ⟨ov.pending, ov.pendingOwner⟩ t := by
      intro p w hp hw
      obtain ⟨rfl, hz⟩ := hkey p hp
      refine howner hz w ?_
      have hw' : ov.pendingOwner.find? pair.params.blsPubkey = some w := hw
      rw [FinalityBindingOverlay.ownerOf, hw']
    refine ⟨hallowed, ?_⟩
    rw [h.record_eq]
    refine ⟨h.base, h.now.set hfree, Bindings.OneToOne.set h.pending hpending, fun vk => ?_⟩
    have hprev := h.previous vk
    simp only [previousOf, Bindings.get, Bindings.set,
      find?_insert] at hprev ⊢
    by_cases hvk : vk = t.validatorKey
    · simp [hvk]
    · simp only [hvk, if_false]
      exact hprev

theorem applyPairs_allowed {pairs : List FinalityKeyPair} {ts : List Transition} (h : Mirrors ov b)
    (happly : applyPairs C chainDomain pairs ov = .ok (ts, ov')) :
    Bindings.AllAllowed ts b ∧ Mirrors ov' (Bindings.setAll ts b).2 := by
  induction pairs generalizing ov b ts with
  | nil =>
    cases happly
    exact ⟨trivial, h⟩
  | cons pair pairs ih =>
    obtain ⟨x, hx, happly⟩ := bind_eq_ok.mp happly
    obtain ⟨y, hy, happly⟩ := bind_eq_ok.mp happly
    cases happly
    obtain ⟨hallowed, hmirror⟩ := applyPair_allowed h hx
    obtain ⟨hrest, hend⟩ := ih hmirror hy
    exact ⟨⟨hallowed, hrest⟩, hend⟩

theorem applyTransactions_allowed {vtx : List CTransaction}
    {ts : List Transition} (h : Mirrors ov b)
    (happly : applyTransactions C chainDomain vtx ov = .ok (ts, ov')) :
    Bindings.AllAllowed ts b ∧ Mirrors ov' (Bindings.setAll ts b).2 := by
  induction vtx generalizing ov b ts with
  | nil =>
    cases happly
    exact ⟨trivial, h⟩
  | cons tx vtx ih =>
    obtain ⟨x, hx, happly⟩ := bind_eq_ok.mp happly
    obtain ⟨y, hy, happly⟩ := bind_eq_ok.mp happly
    cases happly
    obtain ⟨pairs, _, hpairs⟩ := bind_eq_ok.mp hx
    obtain ⟨hallowed, hmirror⟩ := applyPairs_allowed h hpairs
    obtain ⟨hrest, hend⟩ := ih hmirror hy
    exact ⟨hallowed.append hrest, by rw [Bindings.setAll_append]; exact hend⟩

end Overlay

/-! ## Chains of blocks -/

section Chains

variable {C : Crypto} {chainDomain : Uint256}

variable {index index' : FinalityBindingIndex} {block : List CTransaction × Int}

section

variable (h : index.OneToOne) (hc : connect C chainDomain index block = some index')

include h hc

theorem connect_eq_some : ∃ ts, Bindings.AllAllowed ts index.toBindings ∧
      index' = { toBindings := (Bindings.setAll ts index.toBindings).2
                 trail := (block.2, (Bindings.setAll ts index.toBindings).1) :: index.trail } := by
  unfold connect at hc
  cases hv : verifyBlockFinalityBindings C chainDomain block.1 block.2 index with
  | error e => simp [hv] at hc
  | ok ts =>
    simp only [hv, connectBlock, Option.ite_none_left_eq_some,
      Option.some.injEq] at hc
    obtain ⟨x, hx, hts⟩ := bind_eq_ok.mp hv
    cases hts
    exact ⟨x.1, (applyTransactions_allowed (mirrors_start h) hx).1, hc.2.symm⟩

theorem connect_oneToOne : index'.OneToOne ∧ Bindings.Rises index.toBindings index'.toBindings := by
  obtain ⟨ts, hts, rfl⟩ := connect_eq_some h hc
  exact ⟨h.setAll hts, hts.rises⟩

theorem disconnectBlock_of_connect : index'.disconnectBlock block.2 = some index := by
  obtain ⟨ts, hts, rfl⟩ := connect_eq_some h hc
  simp [disconnectBlock, h.restoreAll_setAll hts]

end

theorem chain_oneToOne {blocks : List (List CTransaction × Int)}
    (hrun : Run (connect C chainDomain) {} blocks index) : index.OneToOne :=
  hrun.invariant (P := fun _ index => index.OneToOne) inverse_empty
    fun _ _ _ _ h hc => (connect_oneToOne h hc).1

theorem disconnect_undoes :
    Undoes (connect C chainDomain) disconnectBlock {} where
  start _ := rfl
  restores := by
    intro _ s t u block height hrun hstep hundo
    have hback := disconnectBlock_of_connect (chain_oneToOne hrun) hstep
    obtain ⟨_, _, rfl⟩ := connect_eq_some (chain_oneToOne hrun) hstep
    have hheight : block.2 = height := by
      by_contra hne
      simp [disconnectBlock, hne] at hundo
    rw [← hheight, hback] at hundo
    exact (Option.some.inj hundo).symm

/-- Over any blocks connected and disconnected: the owner map is the inverse of the bindings,
so no key has two holders; sequence numbers rise along every further chain; a disconnected
block leaves the index as it was; and the overlay of the next block answers as the index will
after the transitions found so far. -/
theorem bindings_one_to_one {moves : List (Move (List CTransaction × Int) Int)}
    {index : FinalityBindingIndex}
    (hrun : Run (act (connect C chainDomain) disconnectBlock) {} moves
      index) :
    (∀ pk vk, index.ownerOfKey.find? pk = some vk ↔
      ∃ r, index.get vk = some r ∧ r.isRevoked = false ∧ r.blsPubkey = pk) ∧
    (∀ vk vk' r r', index.get vk = some r → index.get vk' = some r' → r.isRevoked = false →
      r.blsPubkey = r'.blsPubkey → vk = vk') ∧
    (∀ blocks later, Run (connect C chainDomain) index blocks later →
      ∀ vk r, index.get vk = some r →
        ∃ r', later.get vk = some r' ∧ (r' = r ∨ r.seq < r'.seq)) ∧
    (∀ block later, connect C chainDomain index block = some later →
      later.disconnectBlock block.2 = some index) ∧
    Run (connect C chainDomain) {} (standing moves) index ∧
    (∀ height pairs ts ov,
      applyPairs C chainDomain pairs { base := index, height } = .ok (ts, ov) →
      (∀ vk, ov.previousOf vk = (Bindings.setAll ts index.toBindings).2.get vk) ∧
      (∀ pk, ov.ownerOf pk = (Bindings.setAll ts index.toBindings).2.ownerOf pk)) := by
  have hchain := disconnect_undoes.run_standing hrun
  have h := chain_oneToOne hchain
  have hkey : ∀ r : BindingRecord, r.isRevoked = false ↔ r.key = some r.blsPubkey := fun r =>
    ⟨not_revoked, fun hk => by
      have := (key_eq_some.mp hk).2
      simpa [isRevoked] using this⟩
  refine ⟨fun pk vk => ?_, fun vk vk' r r' hr hr' hrev heq => ?_, fun blocks later hlater => ?_,
    fun block later hc => disconnectBlock_of_connect h hc, hchain, fun height pairs ts ov hpairs => ?_⟩
  · refine (h pk vk).trans (exists_congr fun r => and_congr_right fun _ => ?_)
    rw [hkey]
    exact ⟨fun hk => by rw [(key_eq_some.mp hk).1]; exact ⟨hk, rfl⟩,
      fun hk => hk.2 ▸ hk.1⟩
  · have hrev' : r'.isRevoked = false := by
      rw [isRevoked] at hrev ⊢
      rw [← heq, hrev]
    exact h.holder_unique hr ((hkey r).mp hrev) hr' (heq ▸ (hkey r').mp hrev')
  · have hlast : later.OneToOne ∧ Bindings.Rises index.toBindings later.toBindings := by
      refine hlater.invariant (P := fun _ later =>
        later.OneToOne ∧ Bindings.Rises index.toBindings later.toBindings) ⟨h, .refl _⟩ ?_
      intro _ s _ t hs hstep
      have hnext := connect_oneToOne hs.1 hstep
      exact ⟨hnext.1, hs.2.trans hnext.2⟩
    exact hlast.2
  · have hmirror := (applyPairs_allowed (mirrors_start h) hpairs).2
    exact ⟨hmirror.previous, hmirror.ownerOf⟩

end Chains

/-! ## A run with a rotation, a freed key taken in the same block, and a disconnect -/

def lenientCrypto : Crypto where
  finalityBindDigest _ _ _ _ := 0
  verifySchnorr _ _ _ := true
  decodePublicKey _ := true
  verifyPoP _ _ := true

/-- A transaction with the cell and the evidence of one binding. -/
def bindingTx (vk : ValidatorKey) (pk : BlsPubkey) (seq : Nat) : CTransaction where
  vin := []
  vout := [⟨0, Script.minimalPush (METADATA_CELL_MAGIC ++ bigEndian 2 7 ++ bigEndian 2 1 ++
    bigEndian 32 vk ++ bigEndian 48 pk ++ bigEndian 4 seq) ++ [OP_DROP, OP_FALSE]⟩]
  mpa := [⟨MPA_TYPE_FINALITY_KEY_EVIDENCE, MPA_VERSION_V1,
    bigEndian 32 vk ++ bigEndian 48 pk ++ bigEndian 4 seq ++ bigEndian 160 0⟩]

def firstBlock : List CTransaction × Int := ([bindingTx 1 7 0], 10)

/-- Validator 1 moves to key 8 and validator 2 takes key 7. -/
def rotationBlock : List CTransaction × Int := ([bindingTx 1 8 1, bindingTx 2 7 0], 12)

def firstIndex : FinalityBindingIndex := (connect lenientCrypto 0 {} firstBlock).getD {}

def rotatedIndex : FinalityBindingIndex :=
  (connect lenientCrypto 0 firstIndex rotationBlock).getD {}

theorem rotation_undone : firstIndex.ownerOf 7 = some 1 ∧ rotatedIndex.ownerOf 7 = some 2 ∧
    rotatedIndex.disconnectBlock 12 = some firstIndex := by
  have hfirst : connect lenientCrypto 0 {} firstBlock = some firstIndex := by decide +kernel
  have hrotated : connect lenientCrypto 0 firstIndex rotationBlock = some rotatedIndex := by
    decide +kernel
  have hback : rotatedIndex.disconnectBlock 12 = some firstIndex := by decide +kernel
  have hrun : Run (act (connect lenientCrypto 0) disconnectBlock) {}
      [.back 12, .forward rotationBlock, .forward firstBlock] firstIndex :=
    run_back (run_forward (run_forward .start hfirst) hrotated) hback
  exact ⟨by decide +kernel, by decide +kernel,
    (bindings_one_to_one hrun).2.2.2.1 rotationBlock rotatedIndex hrotated⟩

end B3Coin.KeyBinding
