import B3Coin.FlowMesh.CanonicalBody
import B3Coin.FlowMesh.ProductionEngine

/-!
# The verifier accepts what the builder returns

The builder checks the caller's actions and fills the entry while it goes; the verifier
checks a finished entry with the canonical body. What both read of an entry does not
change while it is filled, so the verifier finds every check answered, and the bytes
of the entry decode to the entry again.
-/
namespace B3Coin.FlowMesh

open Codec Guards Option

variable {C : EngineCrypto} {x : ProductionContext} {anchor : AnchorRef} {actions : List Action}

/-! ## What execution adds -/

variable {settlements : List WithdrawalSettlementFact}

/-- Next to a settlement the caller has no actions, and so the body has none. -/
theorem settlements_canonical (h : x.settlements anchor actions = .ok settlements) :
    x.settlements anchor (canonicalizeActions C.toDigests actions) = .ok settlements := by
  obtain ⟨facts, hfacts, h⟩ := bind_eq_ok.mp h
  obtain ⟨halone, h⟩ := seq_eq_ok.mp h
  refine bind_eq_ok.mpr ⟨facts, hfacts, seq_eq_ok.mpr ⟨reject_eq_ok.mpr ?_, h⟩⟩
  rintro ⟨hne, hactions⟩
  refine reject_eq_ok.mp halone ⟨hne, fun hnil => ?_⟩
  rw [hnil] at hactions
  exact hactions rfl

variable {effects : List FlowMeshEffect}

theorem deriveProductionEffects_length {e : ProductionEntryCore} {result : BatchResult}
    (h : deriveProductionEffects C e result = some effects) :
    effects.length ≤ FLOWMESH_MAX_CHECKPOINT_EFFECTS := by
  unfold deriveProductionEffects at h
  obtain ⟨-, h⟩ := ite_none_left_eq_some.mp h
  obtain ⟨vault, -, h⟩ := bind_eq_some_iff.mp h
  obtain ⟨deposits, -, h⟩ := bind_eq_some_iff.mp h
  obtain ⟨withdrawals, -, h⟩ := bind_eq_some_iff.mp h
  obtain ⟨hlen, h⟩ := ite_none_left_eq_some.mp h
  cases h
  exact not_lt.mp hlen

theorem executeSlot_stateRoot {y : SlotContext} {s next : FlowMeshState} {result : BatchResult}
    (h : executeSlot C.toBatchCrypto y s actions settlements = some (result, next)) :
    result.stateRoot < 2 ^ 256 := by
  unfold executeSlot at h
  simp only at h
  split_ifs at h
  · obtain ⟨s', -, h⟩ := map_eq_some_iff.mp h
    cases h
    exact C.stateRoot_lt _
  · obtain ⟨cleared, -, h⟩ := bind_eq_some_iff.mp h
    obtain ⟨paid, -, h⟩ := map_eq_some_iff.mp h
    cases h
    exact C.stateRoot_lt _

theorem computeProductionExecutionResultRoot_lt {commitment root : Uint256}
    (h : computeProductionExecutionResultRoot C commitment effects = some root) :
    root < 2 ^ 256 := by
  unfold computeProductionExecutionResultRoot at h
  obtain ⟨-, h⟩ := ite_none_left_eq_some.mp h
  obtain ⟨encoded, -, rfl⟩ := map_eq_some_iff.mp h
  exact C.resultRoot_lt _

theorem computeFlowMeshEffectRoot_lt {start : UInt64} {root : Uint256}
    (h : computeFlowMeshEffectRoot C.effects start effects = some root) : root < 2 ^ 256 := by
  unfold computeFlowMeshEffectRoot at h
  split_ifs at h
  · cases h
    exact C.effectRoot_lt _ _ _
  · obtain ⟨level, -, rfl⟩ := map_eq_some_iff.mp h
    exact C.effectRoot_lt _ _ _

/-! ## The bytes of the entry -/

/-- The caller's values are in the range of their types. -/
structure ProductionContext.Typed (x : ProductionContext) (anchor : AnchorRef)
    (actions : List Action) : Prop where
  domain : x.domain < 2 ^ 256
  marketId : x.marketId < 2 ^ 256
  setHash : x.activeSeats.setHash < 2 ^ 256
  parentHash : x.parentHash < 2 ^ 256
  height : -2 ^ 31 ≤ anchor.height ∧ anchor.height < 2 ^ 31
  hash : anchor.hash < 2 ^ 256
  actions : ∀ a ∈ actions, a.Typed

theorem Action.Typed.codec_valid {a : Action} (h : a.Typed) (hpoints : a.curve.length ≤ 8) :
    actionCodec.valid a.strip := by
  refine ⟨⟨uint256_valid.mpr h.signer, u64_valid _, u8_valid _, ⟨⟨⟨?_, ?_⟩, ?_⟩, fun p hp => ?_⟩,
    uint256_valid.mpr h.asset, int64_valid.mpr h.amount, uint256_valid.mpr h.destination,
    ⟨⟨uint256_valid.mpr h.outpoint, u32_valid _⟩, rfl⟩,
    ⟨⟨⟨Nat.two_pow_pos 64, Nat.zero_le _⟩, Nat.zero_le _⟩, nofun⟩⟩, rfl⟩
  · exact hpoints.trans_lt (by decide)
  · exact hpoints.trans (by decide)
  · exact hpoints.trans (by decide)
  · exact ⟨⟨int64_valid.mpr (h.price p hp), int64_valid.mpr (h.qty p hp)⟩, rfl⟩

/-- The entry that the builder returns fits its wire format. -/
theorem ProductionContext.Typed.entry_valid (hty : x.Typed anchor actions)
    {entry : ProductionEntryCore} {resultRoot stateRoot effectRoot : Uint256} {count : UInt32}
    (heq : entry = { newProductionEntry C x anchor actions with
      resultRoot, stateRoot, effectCount := count, effectRoot })
    (hresult : resultRoot < 2 ^ 256) (hstate : stateRoot < 2 ^ 256) (heffect : effectRoot < 2 ^ 256)
    (hshape : ShapeOk C.toDigests entry) : entryCodec.valid entry := by
  have hactions : ∀ a ∈ entry.actions, actionCodec.valid a := by
    intro a ha
    have hpoints : a.curve.length ≤ 8 := (hshape.shapes a ha).2
    rw [heq] at ha
    obtain ⟨y, hy, rfl⟩ := exists_of_mem_canonicalizeActions ha
    exact (hty.actions y hy).codec_valid hpoints
  have hcount := hshape.count
  subst heq
  exact ⟨⟨u16_valid _, u8_valid _, uint256_valid.mpr hty.domain, uint256_valid.mpr hty.marketId,
    u64_valid _, uint256_valid.mpr hty.setHash, u64_valid _, uint256_valid.mpr hty.parentHash,
    ⟨⟨int32_valid.mpr hty.height, uint256_valid.mpr hty.hash⟩, rfl⟩,
    uint256_valid.mpr (C.stateRoot_lt _),
    ⟨⟨⟨hcount.trans_lt (by decide), hcount.trans (by decide)⟩, hcount⟩, hactions⟩,
    uint256_valid.mpr (C.actionsRoot_lt _), uint256_valid.mpr hresult, uint256_valid.mpr hstate,
    u64_valid _, u32_valid _, uint256_valid.mpr heffect, u64_valid _,
    ⟨⟨int32_valid.mpr (show -2 ^ 31 ≤ (-1 : Int) ∧ (-1 : Int) < 2 ^ 31 by decide),
      uint256_valid.mpr (Nat.two_pow_pos 256)⟩, rfl⟩, uint256_valid.mpr (Nat.two_pow_pos 256)⟩, rfl⟩

/-- **Builder and verifier.** With the same context the verifier accepts the entry that the
builder returns, with the builder's state, result, effects and settlements; and the entry is
what its bytes decode to. -/
theorem built_entry_executes (hty : x.Typed anchor actions) {b : BuiltProductionExecution}
    (h : buildProductionExecutionEntry C x anchor actions = .ok b) :
    executeProductionEntry C x b.entry = .ok ⟨b.nextState, b.result, b.effects, b.settlements⟩ ∧
      ∃ bytes, encodeProductionEntry C.toDigests b.entry = some bytes ∧
        decodeProductionEntry C.toDigests bytes = some b.entry := by
  have h := of_seq h
  have h := of_seq h
  have h := of_seq h
  obtain ⟨hseats, h⟩ := seq_eq_ok.mp h
  obtain ⟨hgate, h⟩ := seq_eq_ok.mp h
  obtain ⟨hanchors, h⟩ := seq_eq_ok.mp h
  obtain ⟨settlements, hsettlements, h⟩ := bind_eq_ok.mp h
  obtain ⟨fee, hfee, h⟩ := bind_eq_ok.mp h
  have h := of_seq h
  obtain ⟨⟨result, next⟩, hslot, h⟩ := bind_eq_ok.mp h
  obtain ⟨effects, heffects, h⟩ := bind_eq_ok.mp h
  obtain ⟨resultRoot, hresult, h⟩ := bind_eq_ok.mp h
  obtain ⟨effectRoot, hroot, h⟩ := bind_eq_ok.mp h
  obtain ⟨hshape, h⟩ := seq_eq_ok.mp h
  obtain ⟨bytes, hbytes, h⟩ := bind_eq_ok.mp h
  cases h
  rw [demand_eq_ok] at hslot heffects hresult hroot hbytes
  have hcount : (UInt32.ofNat effects.length).toNat = effects.length :=
    UInt32.toNat_ofNat_of_lt' ((deriveProductionEffects_length heffects).trans_lt (by decide))
  have hsame {α : Type} (a : α) [Decidable (a ≠ a)] (e : ProductionEntryCheck) :
      reject (a ≠ a) e = Except.ok () :=
    reject_eq_ok.mpr (not_not.mpr rfl)
  constructor
  · refine seq_eq_ok.mpr ⟨hshape, seq_eq_ok.mpr ⟨hsame _ _, ?_⟩⟩
    refine bind_eq_ok.mpr ⟨bytes, demand_eq_ok.mpr hbytes, ?_⟩
    refine seq_eq_ok.mpr ⟨hsame _ _, ?_⟩
    refine seq_eq_ok.mpr ⟨hsame _ _, ?_⟩
    refine seq_eq_ok.mpr ⟨hseats, seq_eq_ok.mpr ⟨hgate, ?_⟩⟩
    refine seq_eq_ok.mpr ⟨hsame _ _, ?_⟩
    refine seq_eq_ok.mpr ⟨hsame _ _, ?_⟩
    refine seq_eq_ok.mpr ⟨hsame _ _, seq_eq_ok.mpr ⟨hanchors, ?_⟩⟩
    refine seq_eq_ok.mpr ⟨hsame _ _, ?_⟩
    refine bind_eq_ok.mpr ⟨settlements, settlements_canonical hsettlements, ?_⟩
    refine bind_eq_ok.mpr ⟨fee, hfee, bind_eq_ok.mpr ⟨(result, next), demand_eq_ok.mpr hslot, ?_⟩⟩
    refine bind_eq_ok.mpr ⟨effects, demand_eq_ok.mpr heffects, ?_⟩
    refine bind_eq_ok.mpr ⟨resultRoot, demand_eq_ok.mpr hresult, ?_⟩
    refine bind_eq_ok.mpr ⟨effectRoot, demand_eq_ok.mpr hroot, ?_⟩
    refine seq_eq_ok.mpr ⟨reject_eq_ok.mpr ?_, seq_eq_ok.mpr ⟨hsame _ _, rfl⟩⟩
    simp [hcount]
  · have hok := checkBasicShape_ok.mp (not_not.mp (reject_eq_ok.mp hshape))
    have hvalid := hty.entry_valid rfl (computeProductionExecutionResultRoot_lt hresult)
      (executeSlot_stateRoot hslot) (computeFlowMeshEffectRoot_lt hroot) hok
    refine ⟨bytes, hbytes, ?_⟩
    obtain ⟨-, hbytes⟩ := ite_none_left_eq_some.mp hbytes
    obtain ⟨hsize, hbytes⟩ := ite_none_left_eq_some.mp hbytes
    cases hbytes
    exact decodeProductionEntry_put hvalid hok (not_lt.mp hsize)

/-! A slot with a deposit given twice and no chain view: the body keeps it once. -/

namespace Sample

def engine : EngineCrypto where
  toBatchCrypto := { crypto with execResult := fun _ _ _ _ _ => 1 }
  seats := ⟨fun b => leValue (b.drop 63), fun _ => 1, fun _ => 0, fun _ => true, fun _ _ _ => true⟩
  effects := ⟨fun _ => 0, fun _ => 0, fun _ _ => 0, 0, fun _ _ _ => 0⟩
  vaultId _ := 1
  vaultShard _ := 0
  withdrawalShard _ := 0
  acceptanceId _ := 0
  resultRoot _ := 0
  stateRoot_lt _ := Nat.two_pow_pos 256
  resultRoot_lt _ := Nat.two_pow_pos 256
  effectRoot_lt _ _ _ := Nat.two_pow_pos 256
  emptyEffectRoot_eq _ := rfl

def seats : ActiveFnBlsSeatSet := ⟨1, 13, 0, 1, 1, [1, 2, 3, 4].map fun i => ⟨i, ⟨i, 0⟩, i⟩⟩

def production : ProductionContext where
  previousState := .new config
  domain := 9
  marketId := 13
  activeSeats := seats
  epochGate := ⟨9, 13, 1, 1, true, false, none⟩
  sequence := 0
  effectStart := 0
  parentHash := 0
  anchorContext := { b3TipHeight := 30, policy := some ⟨fun _ => true, fun _ => true⟩ }
  treasuryOwnerCommitment := 14

end Sample

open Sample in
theorem sample_entry_executes : ∃ b, buildProductionExecutionEntry engine production ⟨0, 1⟩
      [deposit 1, deposit 1] = .ok b ∧ b.entry.actions = [deposit 1] ∧
    executeProductionEntry engine production b.entry =
      .ok ⟨b.nextState, b.result, b.effects, b.settlements⟩ := by
  have hty : production.Typed ⟨0, 1⟩ [deposit 1, deposit 1] :=
    ⟨by decide, by decide, by decide, by decide, by decide, by decide, by decide⟩
  have hbuilt : ((buildProductionExecutionEntry engine production ⟨0, 1⟩
      [deposit 1, deposit 1]).toOption.map (·.entry.actions)) = some [deposit 1] := by
    decide +kernel
  cases h : buildProductionExecutionEntry engine production ⟨0, 1⟩ [deposit 1, deposit 1] with
  | error e => simp [h, Except.toOption] at hbuilt
  | ok b =>
    rw [h] at hbuilt
    exact ⟨b, rfl, Option.some.inj hbuilt, (built_entry_executes hty h).1⟩

end B3Coin.FlowMesh
