import B3Coin.Bridge.Records

/-!
# The overlay of a verified block

What every run of `verifyBridgeTransaction` over a block keeps: the base state and the
identity of the effect, the accounting of the mints, and the anchors of overlay and base
together.
-/
namespace B3Coin.Bridge

open Guards List Option OrderedMap BridgeBlockDelta

variable {E : BridgeEnv} {ctx : BlockContext} {tx : CTransaction} {txs : List CTransaction}
  {s : BridgeState} {t t' : Trial} {auth : BridgeTxAuthorization}
  {trace : List (BridgeTxAuthorization × Trial)}

theorem Verified.invariant {Q : Trial → Prop} (h : Verified E ctx txs t trace t') (start : Q t)
    (keep : ∀ {tx t auth t'}, RecordStep E ctx tx t auth t' → Q t → Q t') : Q t' := by
  induction h with
  | nil => exact start
  | cons hstep _ ih => exact ih (keep hstep start)

/-- A step that is made of changes to the store, the anchors, the mints and the withdrawals
keeps what each of them keeps. -/
theorem RecordStep.keeps {Q : Trial → Prop} (h : RecordStep E ctx tx t auth t') (start : Q t)
    (store : ∀ t store, Q t → Q (t.setStore store))
    (anchor : ∀ t a, Unknown a t → Q t → Q (t.addAnchor a))
    (mint : ∀ a, Minted E ctx tx t a → Q (t.mint (ctx.epochKey a.authorization.asset) a))
    (withdraw : ∀ r, Withdrawn E ctx tx t r → Q (t.withdraw r))
    (burn : ∀ r tree, Burned E ctx tx t r tree → Q (t.burn r tree)) : Q t' := by
  cases h with
  | idle => exact start
  | bootstrap _ _ _ ha =>
    cases ha with
    | known => exact store t _ start
    | new unknown => exact anchor _ _ unknown (store t _ start)
  | follow => exact store t _ start
  | advance _ _ _ _ _ _ ha =>
    cases ha with
    | known => exact store t _ start
    | new unknown => exact anchor _ _ unknown (store t _ start)
  | backfill _ checked => exact anchor t _ checked.new start
  | mint _ checked => exact mint _ checked
  | withdraw checked => exact withdraw _ checked
  | burn checked => exact burn _ _ checked

/-! ## The frame -/

structure Frame (s : BridgeState) (ctx : BlockContext) (t : Trial) : Prop where
  base : t.state.base = s
  height : t.delta.height = ctx.height
  blockHash : t.delta.blockHash = ctx.blockHash
  previousHeight : t.delta.previousHeight = s.connectedHeight
  previousBlockHash : t.delta.previousBlockHash = s.connectedHash
  lightClient : KeepsLightClient t.delta
  epochMintChanges : t.delta.epochMintChanges = []
  treeBefore : t.delta.withdrawalTreeBefore = s.withdrawalTree

theorem Frame.start (s : BridgeState) (ctx : BlockContext) :
    Frame s ctx (s.trial ctx.height ctx.blockHash) :=
  ⟨rfl, rfl, rfl, rfl, rfl, ⟨rfl, rfl, rfl, rfl⟩, rfl, rfl⟩

theorem Frame.step (h : Frame s ctx t) (hstep : RecordStep E ctx tx t auth t') :
    Frame s ctx t' := by
  refine hstep.keeps h ?_ ?_ ?_ ?_ ?_
  · intro t store h
    exact { h with lightClient := { h.lightClient with } }
  · intro t a _ h
    exact { h with lightClient := { h.lightClient with } }
  all_goals intros
  all_goals exact { h with lightClient := { h.lightClient with } }

/-! ## Mints -/

/-- The overlay of the mint accounting follows from the authorizations. -/
structure MintLedger (E : BridgeEnv) (ctx : BlockContext) (t : Trial) : Prop where
  minted : t.state.mintedThisBlock = t.delta.authorizedAmount
  listed : t.delta.nullifiersAdded = t.delta.authorizedNullifiers
  asset : ∀ a ∈ t.delta.mintAuthorizations,
    configuredBridgeAssetId E.toBridgeIds ctx.params = some a.authorization.asset
  idle : t.delta.mintAuthorizations = [] → t.state.epochMintedOverlay = ∅
  overlay : ∀ a ∈ t.delta.mintAuthorizations, t.state.epochMintedOverlay =
    OrderedMap.insert ∅ (ctx.epochKey a.authorization.asset)
      (t.state.base.minted (ctx.epochKey a.authorization.asset) + t.delta.authorizedAmount)
  block_cap : t.delta.authorizedAmount ≤ ctx.bridge.mintCaps.maxPerBlock
  epoch_cap : ∀ a ∈ t.delta.mintAuthorizations,
    t.state.base.minted (ctx.epochKey a.authorization.asset) + t.delta.authorizedAmount ≤
      ctx.bridge.mintCaps.maxPerEpoch

theorem BlockContext.maxPerBlock_pos (ctx : BlockContext) : 0 < ctx.bridge.mintCaps.maxPerBlock := by
  have := ctx.bridge.mintCaps_valid
  simp only [BridgeMintCaps.valid, Bool.and_eq_true, decide_eq_true_eq] at this
  exact this.1.1.1.1

theorem MintLedger.start (s : BridgeState) (ctx : BlockContext) :
    MintLedger E ctx (s.trial ctx.height ctx.blockHash) where
  minted := rfl
  listed := rfl
  asset _ h := by cases h
  idle _ := rfl
  overlay _ h := by cases h
  block_cap := ctx.maxPerBlock_pos.le
  epoch_cap _ h := by cases h

theorem MintLedger.epochMinted (h : MintLedger E ctx t) {asset : Uint256}
    (hasset : configuredBridgeAssetId E.toBridgeIds ctx.params = some asset) :
    t.state.epochMinted (ctx.epochKey asset) =
      t.state.base.minted (ctx.epochKey asset) + t.delta.authorizedAmount := by
  cases hl : t.delta.mintAuthorizations with
  | nil =>
    simp [ScratchState.epochMinted, h.idle hl, BridgeState.minted,
      authorizedAmount, hl]
  | cons a rest =>
    have ha : a ∈ t.delta.mintAuthorizations := by simp [hl]
    obtain rfl : a.authorization.asset = asset := some_inj.mp ((h.asset a ha).symm.trans hasset)
    rw [ScratchState.epochMinted, h.overlay a ha, find?_insert_self]
    rfl

/-- Another mint of the block is in the same asset and epoch, so the entry is replaced. -/
theorem MintLedger.mint (h : MintLedger E ctx t) {a : BridgeTxMintAuthorization}
    (ha : Minted E ctx tx t a) :
    MintLedger E ctx (t.mint (ctx.epochKey a.authorization.asset) a) := by
  have hsum : (t.mint (ctx.epochKey a.authorization.asset) a).delta.authorizedAmount =
      t.delta.authorizedAmount + a.authorization.amount := by
    simp [authorizedAmount, Trial.mint]
  have hasset : ∀ b ∈ t.delta.mintAuthorizations ++ [a],
      configuredBridgeAssetId E.toBridgeIds ctx.params = some b.authorization.asset := by
    intro b hb
    rcases mem_append.mp hb with hb | hb
    · exact h.asset b hb
    · rw [mem_singleton.mp hb]
      exact ha.asset
  have hsame : ∀ b ∈ t.delta.mintAuthorizations ++ [a],
      b.authorization.asset = a.authorization.asset := fun b hb =>
    some_inj.mp ((hasset b hb).symm.trans ha.asset)
  have htotal := h.epochMinted ha.asset
  refine ⟨?_, ?_, hasset, ?_, ?_, ?_, ?_⟩
  · rw [hsum, ← h.minted]
    rfl
  · simp [Trial.mint, authorizedNullifiers, h.listed]
  · intro hnil
    simp [Trial.mint] at hnil
  · intro b hb
    rw [hsame b hb, hsum, Trial.mint_base, ← add_assoc, ← htotal]
    cases hl : t.delta.mintAuthorizations with
    | nil =>
      show t.state.epochMintedOverlay.insert _ _ = _
      rw [h.idle hl]
    | cons c rest =>
      have hc : c ∈ t.delta.mintAuthorizations := by simp [hl]
      show t.state.epochMintedOverlay.insert _ _ = _
      rw [h.overlay c hc, hsame c (mem_append_left _ hc), insert_insert]
  · rw [hsum, ← h.minted]
    exact ha.block_cap
  · intro b hb
    rw [hsame b hb, hsum, Trial.mint_base, ← add_assoc, ← htotal]
    exact ha.epoch_cap

theorem MintLedger.step (h : MintLedger E ctx t) (hstep : RecordStep E ctx tx t auth t') :
    MintLedger E ctx t' := by
  refine hstep.keeps h ?_ ?_ (fun a ha => h.mint ha) ?_ ?_
  · intro t store h
    exact { h with }
  · intro t a _ h
    exact { h with }
  all_goals intros
  all_goals exact { h with }

/-! ## Anchors -/

/-- Overlay and base together hold what connecting the anchors would give. -/
structure AnchorLedger (t : Trial) : Prop where
  byHash : ∀ hash, t.state.anchor hash = (t.state.base.connectAnchors t.delta).anchors.find? hash
  byHeight : ∀ number, t.state.anchorHashAtHeight number =
    (t.state.base.connectAnchors t.delta).anchorByHeight.find? number

theorem AnchorLedger.start (s : BridgeState) (height : Int) (blockHash : Uint256) :
    AnchorLedger (s.trial height blockHash) :=
  ⟨fun _ => rfl, fun _ => rfl⟩

variable {a : BridgeExecutionAnchor}

theorem Trial.addAnchor_anchor (t : Trial)
    (hnew : t.state.anchor a.blockHash = none) (hash : Uint256) :
    (t.addAnchor a).state.anchor hash =
      (t.state.anchor hash).or (if hash = a.blockHash then some a else none) := by
  simp only [ScratchState.anchor, Trial.addAnchor, ScratchState.addAnchor,
    find?_emplace] at hnew ⊢
  by_cases h : hash = a.blockHash
  · subst h
    obtain ⟨h1, h2⟩ := or_eq_none_iff.mp hnew
    simp [h1, h2]
  · simp [h]

theorem Trial.addAnchor_anchorHashAtHeight (t : Trial)
    (hfree : ∀ hash, t.state.anchorHashAtHeight a.blockNumber = some hash → hash = a.blockHash)
    (number : Nat) : (t.addAnchor a).state.anchorHashAtHeight number =
      (t.state.anchorHashAtHeight number).or
        (if number = a.blockNumber then some a.blockHash else none) := by
  simp only [ScratchState.anchorHashAtHeight, Trial.addAnchor, ScratchState.addAnchor,
    find?_emplace] at hfree ⊢
  by_cases h : number = a.blockNumber
  · subst h
    cases ho : t.state.anchorByHeightOverlay.find? a.blockNumber with
    | some hash => simp
    | none =>
      cases hb : t.state.base.anchorByHeight.find? a.blockNumber with
      | none => simp
      | some hash => simp [hfree hash (by simp [ho, hb])]
  · simp [h]

theorem AnchorLedger.addAnchor (h : AnchorLedger t)
    (ha : Unknown a t) : AnchorLedger (t.addAnchor a) := by
  have hsplit {γ : Type} (f : BridgeExecutionAnchor → γ) :
      (t.addAnchor a).delta.anchorsAdded.map f = t.delta.anchorsAdded.map f ++ [f a] :=
    map_append
  constructor
  · intro hash
    rw [t.addAnchor_anchor ha.missing, h.byHash, BridgeState.connectAnchors,
      BridgeState.connectAnchors, hsplit, emplaceAll_concat, find?_emplace]
    rfl
  · intro number
    rw [t.addAnchor_anchorHashAtHeight ha.free, h.byHeight, BridgeState.connectAnchors,
      BridgeState.connectAnchors, hsplit, hsplit, emplaceAll_concat,
      emplaceAll_concat, find?_emplace]
    rfl

theorem AnchorLedger.step (h : AnchorLedger t) (hstep : RecordStep E ctx tx t auth t') :
    AnchorLedger t' :=
  hstep.keeps h (fun _ _ h => ⟨h.byHash, h.byHeight⟩) (fun _ _ ha h => h.addAnchor ha)
    (fun _ _ => ⟨h.byHash, h.byHeight⟩) (fun _ _ => ⟨h.byHash, h.byHeight⟩)
    (fun _ _ _ => ⟨h.byHash, h.byHeight⟩)

/-! ## Origins -/

/-- Every anchor found is stored under its hash, within the backfill bound of an anchor that
is found too, satisfies `finalized`, and that it descends from. -/
def Originated (X : ExecutionCodec) (finalized : BridgeExecutionAnchor → Prop)
    (find : Uint256 → Option BridgeExecutionAnchor) : Prop :=
  ∀ hash a, find hash = some a → a.blockHash = hash ∧ hasValidBackfillOrigin a = true ∧
    ∃ origin, find origin.blockHash = some origin ∧ finalized origin ∧
      origin.blockNumber = a.sourceFinalizedExecutionBlock ∧
      Descends X origin.blockHash a.blockHash

namespace Originated

variable {X : ExecutionCodec} {finalized : BridgeExecutionAnchor → Prop}
  {find : Uint256 → Option BridgeExecutionAnchor} {a : BridgeExecutionAnchor}

theorem mono {finalized' : BridgeExecutionAnchor → Prop} (h : Originated X finalized find)
    (himp : ∀ a, finalized a → finalized' a) : Originated X finalized' find := by
  intro hash a hfind
  obtain ⟨hkey, hvalid, origin, horigin, hfin, hnumber, hdesc⟩ := h hash a hfind
  exact ⟨hkey, hvalid, origin, horigin, himp _ hfin, hnumber, hdesc⟩

/-- A new anchor is finalized itself, or it is reached from one that has an origin. -/
theorem add (h : Originated X finalized find) (hnew : find a.blockHash = none)
    (hvalid : hasValidBackfillOrigin a = true)
    (horigin : finalized a ∧ a.blockNumber = a.sourceFinalizedExecutionBlock ∨
      ∃ hash source, find hash = some source ∧ Descends X source.blockHash a.blockHash ∧
        a.sourceFinalizedExecutionBlock = source.sourceFinalizedExecutionBlock) :
    Originated X finalized fun hash =>
      (find hash).or (if hash = a.blockHash then some a else none) := by
  have hkeep {k : Uint256} {b : BridgeExecutionAnchor} (hk : find k = some b) :
      (find k).or (if k = a.blockHash then some a else none) = some b := by
    rw [hk, some_or]
  intro hash b hfind
  rcases or_eq_some_iff.mp hfind with hold | ⟨-, hb⟩
  · obtain ⟨hkey, hvalid', origin, ho, hfin, hnumber, hdesc⟩ := h hash b hold
    exact ⟨hkey, hvalid', origin, hkeep ho, hfin, hnumber, hdesc⟩
  · split_ifs at hb with hhash
    obtain rfl := some_inj.mp hb
    refine ⟨hhash.symm, hvalid, ?_⟩
    rcases horigin with ⟨hfin, hnumber⟩ | ⟨hash', source, hsource, hdesc, hnumber⟩
    · exact ⟨a, by simp [hnew], hfin, hnumber, .refl⟩
    · obtain ⟨-, -, origin, ho, hfin, hnumber', hdesc'⟩ := h hash' source hsource
      exact ⟨origin, hkeep ho, hfin, hnumber'.trans hnumber.symm, hdesc'.trans hdesc⟩

end Originated

/-- The anchor of a header the light client holds as finalized after some transaction. -/
def FinalizedBy (height : Int) (blockHash : Uint256) (trace : List (BridgeTxAuthorization × Trial))
    (a : BridgeExecutionAnchor) : Prop :=
  ∃ x ∈ trace, ∃ store, x.2.state.lightClientState = some store ∧
    a = finalizedAnchor store.finalizedHeader height blockHash

variable {finalized : BridgeExecutionAnchor → Prop}

theorem RecordStep.originated (hstep : RecordStep E ctx tx t auth t')
    (hfin : ∀ store, t'.state.lightClientState = some store →
      finalized (finalizedAnchor store.finalizedHeader ctx.height ctx.blockHash))
    (h : Originated E.toExecutionCodec finalized t.state.anchor) :
    Originated E.toExecutionCodec finalized t'.state.anchor := by
  have hfinalized {store : LightClientStore} {t' : Trial}
      (hfin : ∀ store, t'.state.lightClientState = some store →
        finalized (finalizedAnchor store.finalizedHeader ctx.height ctx.blockHash))
      (ha : AnchorStep (finalizedAnchor store.finalizedHeader ctx.height ctx.blockHash)
        (t.setStore store) t') : Originated E.toExecutionCodec finalized t'.state.anchor := by
    cases ha with
    | known => exact h
    | new unknown =>
      rw [funext (Trial.addAnchor_anchor _ unknown.missing)]
      exact h.add unknown.missing unknown.shape.origin (.inl ⟨hfin store rfl, rfl⟩)
  cases hstep with
  | bootstrap _ _ _ ha => exact hfinalized hfin ha
  | advance _ _ _ _ _ _ ha => exact hfinalized hfin ha
  | @backfill _ source a _ checked =>
    obtain ⟨hash, hsource⟩ := checked.stored
    rw [funext (t.addAnchor_anchor checked.new.missing)]
    exact h.add checked.new.missing checked.new.shape.origin
      (.inr ⟨hash, source, hsource, checked.descends, checked.origin⟩)
  | _ => exact h

theorem Verified.originated (h : Verified E ctx txs t trace t')
    (hfin : ∀ a, FinalizedBy ctx.height ctx.blockHash trace a → finalized a)
    (start : Originated E.toExecutionCodec finalized t.state.anchor) :
    Originated E.toExecutionCodec finalized t'.state.anchor := by
  induction h with
  | nil => exact start
  | cons hstep _ ih =>
    refine ih (fun a ⟨x, hx, hstore⟩ => hfin a ⟨x, mem_cons_of_mem _ hx, hstore⟩) ?_
    exact hstep.originated
      (fun store hs => hfin _ ⟨_, mem_cons_self, store, hs, rfl⟩) start

theorem RecordStep.mintAuthorizations (h : RecordStep E ctx tx t auth t') :
    t'.delta.mintAuthorizations = t.delta.mintAuthorizations ++ auth.mint.toList := by
  cases h with
  | bootstrap _ _ _ ha => cases ha <;> exact (append_nil _).symm
  | advance _ _ _ _ _ _ ha => cases ha <;> exact (append_nil _).symm
  | mint => rfl
  | _ => exact (append_nil _).symm

theorem Verified.mintAuthorizations (h : Verified E ctx txs t trace t') :
    t'.delta.mintAuthorizations = t.delta.mintAuthorizations ++ trace.filterMap (·.1.mint) := by
  induction h with
  | nil => simp
  | @cons _ _ auth _ _ _ _ hstep _ ih =>
    rw [ih, hstep.mintAuthorizations, filterMap_cons, append_assoc]
    cases auth.mint <;> rfl

/-! ## The effect of the block -/

namespace Trial

variable (t : Trial)

@[simp] theorem finish_anchorsAdded : t.finish.anchorsAdded = t.delta.anchorsAdded := by
  unfold finish withLightClient
  split <;> rfl

@[simp] theorem finish_mintAuthorizations :
    t.finish.mintAuthorizations = t.delta.mintAuthorizations := by
  unfold finish withLightClient
  split <;> rfl

@[simp] theorem finish_nullifiersAdded : t.finish.nullifiersAdded = t.delta.nullifiersAdded := by
  unfold finish withLightClient
  split <;> rfl

end Trial

theorem MintLedger.epochMintChanges_nil (h : MintLedger E ctx t) (hframe : Frame s ctx t)
    (hnil : t.delta.mintAuthorizations = []) : t.finish.epochMintChanges = [] := by
  rw [Trial.finish, hframe.epochMintChanges, h.idle hnil]
  rfl

/-- A block with mints changes the epoch of its height, by what it authorizes. -/
theorem MintLedger.epochMintChanges (h : MintLedger E ctx t) (hframe : Frame s ctx t)
    {a : BridgeTxMintAuthorization} (ha : a ∈ t.delta.mintAuthorizations) :
    t.finish.epochMintChanges =
      [⟨a.authorization.asset, ctx.bridge.epoch ctx.height,
        s.minted (ctx.epochKey a.authorization.asset),
        s.minted (ctx.epochKey a.authorization.asset) + t.delta.authorizedAmount⟩] := by
  rw [Trial.finish, hframe.epochMintChanges, h.overlay a ha, hframe.base]
  rfl

end B3Coin.Bridge
