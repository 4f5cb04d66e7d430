import B3Coin.Bridge.MintSafety

/-!
# The preview of a block template

`BeginBlockPreview` and `TryAppend` run the verification of a block chunk by chunk under
a placeholder for its hash. `relabel` replaces that placeholder; every step of the
verification commutes with it, so the preview accepts what `VerifyBlock` accepts and
collects the same effect.
-/
namespace B3Coin.Bridge

open Guards Proc List Agree Trial

/-! ## Another block hash -/

def BridgeExecutionAnchor.relabel (id : Uint256) (a : BridgeExecutionAnchor) :
    BridgeExecutionAnchor :=
  { a with connectedBlock := id }

def BridgeManagedWithdrawalRequest.relabel (id : Uint256) (r : BridgeManagedWithdrawalRequest) :
    BridgeManagedWithdrawalRequest :=
  { r with connectedBlock := id }

def BridgeDecentralizedWithdrawalRequest.relabel (id : Uint256)
    (r : BridgeDecentralizedWithdrawalRequest) : BridgeDecentralizedWithdrawalRequest :=
  { r with connectedBlock := id }

def BridgeTxAuthorization.relabel (id : Uint256) (a : BridgeTxAuthorization) :
    BridgeTxAuthorization :=
  { a with
    withdrawal := a.withdrawal.map (·.relabel id)
    decentralizedWithdrawal := a.decentralizedWithdrawal.map (·.relabel id) }

/-- The effect of the same transactions in a block of another hash. -/
def BridgeBlockDelta.relabel (id : Uint256) (d : BridgeBlockDelta) : BridgeBlockDelta :=
  { d with
    blockHash := id
    lightClientConnectionAfter :=
      d.lightClientConnectionAfter.map fun c => { c with blockHash := id }
    anchorsAdded := d.anchorsAdded.map (·.relabel id)
    withdrawalsAdded := d.withdrawalsAdded.map (·.relabel id)
    decentralizedWithdrawalsAdded := d.decentralizedWithdrawalsAdded.map (·.relabel id) }

def ScratchState.relabel (id : Uint256) (s : ScratchState) : ScratchState :=
  { s with anchorsOverlay := s.anchorsOverlay.mapValues (·.relabel id) }

def Trial.relabel (id : Uint256) (t : Trial) : Trial where
  state := t.state.relabel id
  delta := t.delta.relabel id

def BlockContext.relabel (id : Uint256) (ctx : BlockContext) : BlockContext :=
  { ctx with blockHash := id }

section Relabel

variable {E : BridgeEnv} {ctx : BlockContext} {t : Trial} {id : Uint256}

theorem Trial.relabel_anchor (id : Uint256) (t : Trial) (hash : Uint256) :
    (t.relabel id).state.anchor hash =
      ((t.state.anchorsOverlay.find? hash).map (·.relabel id)).or
        (t.state.base.anchors.find? hash) := by
  rw [ScratchState.anchor, relabel, ScratchState.relabel, OrderedMap.find?_mapValues]

/-- Two anchors that differ in their block at most. -/
def SameAnchor (a b : BridgeExecutionAnchor) : Prop := b = a.relabel b.connectedBlock

theorem demand_anchor_agree (hash : Uint256) (e : String) :
    Agree SameAnchor (demand (t.state.anchor hash) e) (demand ((t.relabel id).state.anchor hash) e) := by
  rw [relabel_anchor, ScratchState.anchor]
  cases t.state.anchorsOverlay.find? hash with
  | some a => exact .ok rfl
  | none =>
    cases t.state.base.anchors.find? hash with
    | some a => exact .ok rfl
    | none => exact .error e

theorem Trial.relabel_addAnchor (t : Trial) (a : BridgeExecutionAnchor) :
    (t.addAnchor a).relabel id = (t.relabel id).addAnchor (a.relabel id) := by
  simp only [relabel, ScratchState.relabel, addAnchor, ScratchState.addAnchor,
    BridgeBlockDelta.relabel, OrderedMap.mapValues_emplace, map_append, map_cons, map_nil]
  rfl

/-- The outcomes of a step under two block hashes. -/
abbrev Relabelled (id : Uint256) : Except String Trial → Except String Trial → Prop :=
  Agree fun t u => u = t.relabel id

theorem addAnchor_agree {a : BridgeExecutionAnchor} (hid : id ≠ 0) (ha : a.connectedBlock ≠ 0) :
    Relabelled id (addAnchor a t) (addAnchor (a.relabel id) (t.relabel id)) := by
  have hshape : (a.blockHash = 0 ∨ a.receiptsRoot = 0 ∨ a.connectedHeight < 0 ∨
        a.connectedBlock = 0 ∨ (!hasValidBackfillOrigin a) = true) ↔
      ((a.relabel id).blockHash = 0 ∨ (a.relabel id).receiptsRoot = 0 ∨
        (a.relabel id).connectedHeight < 0 ∨ (a.relabel id).connectedBlock = 0 ∨
        (!hasValidBackfillOrigin (a.relabel id)) = true) := by
    have horigin : hasValidBackfillOrigin (a.relabel id) = hasValidBackfillOrigin a := rfl
    rw [horigin]
    simp [BridgeExecutionAnchor.relabel, hid, ha]
  unfold addAnchor
  rw [reject_congr hshape]
  refine bind_same fun _ => ?_
  have hanchor := t.relabel_anchor id a.blockHash
  have hblock : (a.relabel id).blockHash = a.blockHash := rfl
  rw [hblock, hanchor, ScratchState.anchor]
  cases t.state.anchorsOverlay.find? a.blockHash with
  | some same => exact bind_same fun _ => .ok rfl
  | none =>
    cases t.state.base.anchors.find? a.blockHash with
    | some same => exact bind_same fun _ => .ok rfl
    | none => exact bind_same fun _ => .ok (t.relabel_addAnchor a).symm

variable {tx : CTransaction}

section

variable (hid : id ≠ 0) (hctx : ctx.blockHash ≠ 0)

include hid hctx

theorem verifyBootstrap_agree (record : BridgeBootstrapV1) :
    Relabelled id (verifyBootstrap E ctx record t)
      (verifyBootstrap E (ctx.relabel id) record (t.relabel id)) := by
  unfold verifyBootstrap
  refine bind_same fun _ => bind_same fun _ => bind_same fun _ =>
    bind_same fun _ => bind_same fun store => ?_
  exact addAnchor_agree hid hctx

theorem verifyUpdate_agree (record : LightClientUpdate) :
    Relabelled id (verifyUpdate E ctx record t)
      (verifyUpdate E (ctx.relabel id) record (t.relabel id)) := by
  unfold verifyUpdate
  refine bind_same fun current => bind_same fun _ => bind_same fun _ =>
    bind_same fun next => bind_same fun _ => bind_same fun _ => ?_
  split
  · exact .ok rfl
  · exact addAnchor_agree hid hctx

theorem verifyBackfill_agree (record : BridgeExecutionBackfillV1) :
    Relabelled id (verifyBackfill E ctx record t)
      (verifyBackfill E (ctx.relabel id) record (t.relabel id)) := by
  unfold verifyBackfill
  refine (demand_anchor_agree _ _).bind fun source source' hsource => ?_
  rw [hsource]
  refine bind_same fun target => bind_same fun _ => bind_same fun timestamp => ?_
  refine (addAnchor_agree hid hctx).bind fun t1 u1 hu => ?_
  have hlength : (t1.delta.anchorsAdded.length = t.delta.anchorsAdded.length) ↔
      (u1.delta.anchorsAdded.length = (t.relabel id).delta.anchorsAdded.length) := by
    rw [hu]
    simp [relabel, BridgeBlockDelta.relabel]
  rw [reject_congr hlength]
  exact bind_same fun _ => .ok hu

end

/-- The authorization and the trial under two block hashes. -/
abbrev RelabelledTx (id : Uint256) : Except String (BridgeTxAuthorization × Trial) →
    Except String (BridgeTxAuthorization × Trial) → Prop :=
  Agree fun x y => y = (x.1.relabel id, x.2.relabel id)

theorem provenDeposit_agree (record : BridgeMintV1) : Agree Eq (provenDeposit E ctx record t)
      (provenDeposit E (ctx.relabel id) record (t.relabel id)) := by
  unfold provenDeposit
  refine bind_same fun _ => bind_same fun _ => bind_same fun _ =>
    bind_same fun _ => bind_same fun _ => ?_
  refine (demand_anchor_agree _ _).bind fun anchor anchor' hanchor => ?_
  rw [hanchor]
  exact bind_same fun _ => bind_same fun _ => bind_same fun _ =>
    bind_same fun _ => .refl _

theorem verifyMint_agree (record : BridgeMintV1) : RelabelledTx id (verifyMint E ctx tx record t)
      (verifyMint E (ctx.relabel id) tx record (t.relabel id)) := by
  unfold verifyMint
  refine (provenDeposit_agree record).bind fun event event' hevent => ?_
  rw [← hevent]
  exact bind_same fun _ => bind_same fun _ => bind_same fun _ =>
    bind_same fun _ => bind_same fun _ => bind_same fun _ =>
    bind_same fun _ => .ok rfl

theorem verifyWithdrawal_agree (record : BridgeBurnFields) :
    RelabelledTx id (verifyWithdrawal E ctx tx record t)
      (verifyWithdrawal E (ctx.relabel id) tx record (t.relabel id)) := by
  unfold verifyWithdrawal
  refine bind_same fun x => bind_same fun _ => .ok ?_
  simp only [relabel, BridgeBlockDelta.relabel, map_append]
  rfl

theorem ScratchState.relabel_addDecentralizedWithdrawal (s : ScratchState)
    (source : BridgeWithdrawalId) (w : BridgeWithdrawalV1) :
    (s.relabel id).addDecentralizedWithdrawal E source w =
      (s.addDecentralizedWithdrawal E source w).map fun x => (x.1, x.2.relabel id) := by
  unfold addDecentralizedWithdrawal
  simp only [apply_ite (Option.map _), Option.map_none, Option.map_map]
  rfl

theorem verifyBridgeBurn_agree (record : BridgeBurnFields) :
    RelabelledTx id (verifyBridgeBurn E ctx tx record t)
      (verifyBridgeBurn E (ctx.relabel id) tx record (t.relabel id)) := by
  unfold verifyBridgeBurn
  refine bind_same fun x => bind_same fun _ => ?_
  have hstate : (t.relabel id).state = t.state.relabel id := rfl
  dsimp only
  rw [hstate, ScratchState.relabel_addDecentralizedWithdrawal]
  refine (demand_map _ _ _).bind fun y z hz => ?_
  rw [hz]
  refine .ok ?_
  simp only [relabel, BridgeBlockDelta.relabel, map_append]
  rfl

theorem verifyPayload_agree (hid : id ≠ 0) (hctx : ctx.blockHash ≠ 0)
    (payload : BridgeRecordPayloadV1) : RelabelledTx id (verifyPayload E ctx tx t payload)
      (verifyPayload E (ctx.relabel id) tx (t.relabel id) payload) := by
  cases payload with
  | bootstrap record =>
    exact (verifyBootstrap_agree hid hctx record).map fun a b h => by rw [h]; rfl
  | update record => exact (verifyUpdate_agree hid hctx record).map fun a b h => by rw [h]; rfl
  | mint record => exact verifyMint_agree record
  | executionBackfill record =>
    exact (verifyBackfill_agree hid hctx record).map fun a b h => by rw [h]; rfl
  | managedWithdrawal record => exact verifyWithdrawal_agree record
  | bridgeBurn record => exact verifyBridgeBurn_agree record

theorem verifyBridgeTransaction_agree (hid : id ≠ 0) (hctx : ctx.blockHash ≠ 0) (tx : CTransaction)
    (t : Trial) : RelabelledTx id (verifyBridgeTransaction E ctx tx t)
      (verifyBridgeTransaction E (ctx.relabel id) tx (t.relabel id)) := by
  unfold verifyBridgeTransaction
  split
  · exact bind_same fun _ => .ok rfl
  · exact bind_same fun _ => bind_same fun _ => bind_same fun payload =>
      verifyPayload_agree hid hctx payload
  · exact .error _

theorem verifyTransactions_agree (ctx : BlockContext) (hid : id ≠ 0) (hctx : ctx.blockHash ≠ 0)
    (txs : List CTransaction) (t : Trial) : Relabelled id (verifyTransactions E ctx txs t)
      (verifyTransactions E (ctx.relabel id) txs (t.relabel id)) := by
  induction txs generalizing t with
  | nil => exact .ok rfl
  | cons tx txs ih =>
    refine (verifyBridgeTransaction_agree hid hctx tx t).bind fun x y hxy => ?_
    rw [hxy]
    exact ih x.2

/-- The effect of a block under another hash, once its trial is finished. -/
theorem Trial.finish_relabel (t : Trial) : (t.relabel id).finish = t.finish.relabel id := by
  have hchanged : (t.relabel id).state.lightClientChanged = t.state.lightClientChanged := rfl
  unfold finish withLightClient
  rw [hchanged]
  split <;> rfl

end Relabel

/-! ## Chunks -/

section Chunks

variable {E : BridgeEnv} {ctx : BlockContext}

theorem verifyTransactions_append (xs ys : List CTransaction) (t : Trial) :
    verifyTransactions E ctx (xs ++ ys) t =
      (verifyTransactions E ctx xs t).bind (verifyTransactions E ctx ys) := by
  induction xs generalizing t with
  | nil => rfl
  | cons tx xs ih =>
    simp only [cons_append, verifyTransactions, Bind.bind]
    cases verifyBridgeTransaction E ctx tx t with
    | error e => rfl
    | ok x => exact ih x.2

theorem verifyBridgeTransaction_plain {tx : CTransaction} (h : hasBridgeMaterial E tx = false)
    (t : Trial) : verifyBridgeTransaction E ctx tx t = .ok ({}, t) := by
  simp only [hasBridgeMaterial, Bool.or_eq_false_iff, bne_eq_false_iff_eq] at h
  have hrecords : bridgeRecords tx = [] := by
    simpa [bridgeRecords] using h.2
  rw [verifyBridgeTransaction, hrecords]
  simp [reject, h.1, Bind.bind, Except.bind]

/-- Transactions without bridge material change nothing and are never refused. -/
theorem verifyTransactions_plain {txs : List CTransaction}
    (h : txs.any (hasBridgeMaterial E) = false) (t : Trial) :
    verifyTransactions E ctx txs t = .ok t := by
  induction txs with
  | nil => rfl
  | cons tx txs ih =>
    rw [any_cons, Bool.or_eq_false_iff] at h
    rw [verifyTransactions, verifyBridgeTransaction_plain h.1]
    exact ih h.2

/-- `TryAppend`: the chunk is verified on top of what the preview holds. -/
theorem tryAppend_eq (txs : List CTransaction) (p : BridgeBlockPreview) : tryAppend E txs p =
      match verifyTransactions E p.ctx txs p.trial with
      | .ok trial => (.ok (), { p with trial := trial })
      | .error e => (.error e, p) := by
  unfold tryAppend
  split
  · rename_i hplain
    rw [verifyTransactions_plain (by simpa using hplain)]
    rfl
  · cases hv : verifyTransactions E p.ctx txs p.trial with
    | ok trial => simp [Bind.bind, Proc.read, compute, Pure.pure, hv]
    | error e => simp [Bind.bind, Proc.read, compute, fail, hv]

/-- Successive calls of `TryAppend`, up to the first refusal. -/
def appendAll (E : BridgeEnv) : List (List CTransaction) → Proc String BridgeBlockPreview Unit
  | [] => pure ()
  | chunk :: rest => do
    tryAppend E chunk
    appendAll E rest

theorem appendAll_ok {chunks : List (List CTransaction)} {p q : BridgeBlockPreview} :
    appendAll E chunks p = (.ok (), q) ↔
      verifyTransactions E p.ctx chunks.flatten p.trial = .ok q.trial ∧ q.ctx = p.ctx := by
  induction chunks generalizing p with
  | nil =>
    obtain ⟨pctx, ptrial⟩ := p
    obtain ⟨qctx, qtrial⟩ := q
    simp [appendAll, Pure.pure, verifyTransactions, eq_comm, and_comm]
  | cons chunk rest ih =>
    have hstep : appendAll E (chunk :: rest) p =
        match verifyTransactions E p.ctx chunk p.trial with
        | .ok trial => appendAll E rest { p with trial := trial }
        | .error e => (.error e, p) := by
      simp only [appendAll, Bind.bind]
      rw [tryAppend_eq]
      cases verifyTransactions E p.ctx chunk p.trial <;> rfl
    rw [hstep, flatten_cons, verifyTransactions_append]
    cases verifyTransactions E p.ctx chunk p.trial with
    | ok trial => exact ih
    | error e => simp [Except.bind]

end Chunks

section Preview

variable {E : BridgeEnv} {params : Params} {s : BridgeState} {block : CBlock} {height : Int}
  {previewBlockId blockHash : Uint256}

/-- The time of a block is always in the range of a candidate. -/
theorem beginBlockPreview_ok (hid : previewBlockId ≠ 0) {p : BridgeBlockPreview} :
    beginBlockPreview params s height block.nTime.toNat previewBlockId = .ok p ↔
      ∃ bridge, configuredAndActive params height = .ok bridge ∧
        p = ⟨⟨params, bridge, height, block.nTime.toNat, previewBlockId⟩,
          s.trial height previewBlockId⟩ := by
  have htime : ¬ ((block.nTime.toNat : Int) < 0 ∨ (block.nTime.toNat : Int) > 2 ^ 32 - 1) := by
    have := block.nTime.toNat_lt
    omega
  simp only [beginBlockPreview, Bind.bind, bind_eq_ok, reject_eq_ok, exists_const, htime, hid,
    not_false_eq_true, true_and, Except.ok.injEq, @eq_comm _ p]

theorem verifyBlock_ok (hhash : blockHash ≠ 0) {d : BridgeBlockDelta} :
    verifyBlock E params s block height blockHash = .ok d ↔
      ∃ bridge, configuredAndActive params height = .ok bridge ∧
        ∃ t, verifyTransactions E ⟨params, bridge, height, block.nTime.toNat, blockHash⟩ block.vtx
          (s.trial height blockHash) = .ok t ∧ d = t.finish := by
  simp [verifyBlock, Bind.bind, bind_eq_ok, reject_eq_ok, hhash, @eq_comm _ d]

theorem verifyTransactions_relabel (hid : previewBlockId ≠ 0) (hhash : blockHash ≠ 0)
    (bridge : ReadyBridge) (txs : List CTransaction) :
    verifyTransactions E ⟨params, bridge, height, block.nTime.toNat, blockHash⟩ txs
        (s.trial height blockHash) =
      (verifyTransactions E ⟨params, bridge, height, block.nTime.toNat, previewBlockId⟩ txs
        (s.trial height previewBlockId)).map (·.relabel blockHash) :=
  (verifyTransactions_agree ⟨params, bridge, height, block.nTime.toNat, previewBlockId⟩ hhash hid
    txs (s.trial height previewBlockId)).eq_map

/-- A preview accepts a list of chunks exactly when `VerifyBlock` accepts the block they
make up, and with the block hash in the place of the preview's id it collects the same
effect; a refused chunk leaves the preview as it was. -/
theorem preview_verifies (block : CBlock) {chunks : List (List CTransaction)}
    (hid : previewBlockId ≠ 0) (hhash : blockHash ≠ 0) (hvtx : block.vtx = chunks.flatten) :
    ((∃ p q, beginBlockPreview params s height block.nTime.toNat previewBlockId = .ok p ∧
        appendAll E chunks p = (.ok (), q)) ↔
      ∃ d, verifyBlock E params s block height blockHash = .ok d) ∧
    (∀ p q d, beginBlockPreview params s height block.nTime.toNat previewBlockId = .ok p →
      appendAll E chunks p = (.ok (), q) → verifyBlock E params s block height blockHash = .ok d →
      d = q.trial.finish.relabel blockHash ∧
        d.mintAuthorizations = q.trial.delta.mintAuthorizations) ∧
    ∀ p chunk e q, tryAppend E chunk p = (.error e, q) → q = p := by
  refine ⟨⟨?_, ?_⟩, ?_, ?_⟩
  · rintro ⟨p, q, hp, hq⟩
    obtain ⟨bridge, hbridge, rfl⟩ := (beginBlockPreview_ok hid).mp hp
    refine ⟨_, (verifyBlock_ok hhash).mpr ⟨bridge, hbridge, q.trial.relabel blockHash, ?_, rfl⟩⟩
    rw [verifyTransactions_relabel hid hhash, hvtx, (appendAll_ok.mp hq).1]
    rfl
  · rintro ⟨d, hd⟩
    obtain ⟨bridge, hbridge, t, ht, rfl⟩ := (verifyBlock_ok hhash).mp hd
    rw [verifyTransactions_relabel hid hhash, hvtx] at ht
    obtain ⟨t', ht', -⟩ := map_eq_ok.mp ht
    exact ⟨_, ⟨_, t'⟩, (beginBlockPreview_ok hid).mpr ⟨bridge, hbridge, rfl⟩,
      appendAll_ok.mpr ⟨ht', rfl⟩⟩
  · intro p q d hp hq hd
    obtain ⟨bridge, hbridge, rfl⟩ := (beginBlockPreview_ok hid).mp hp
    obtain ⟨bridge', hbridge', t, ht, rfl⟩ := (verifyBlock_ok hhash).mp hd
    obtain rfl : bridge = bridge' := Except.ok.inj (hbridge.symm.trans hbridge')
    rw [verifyTransactions_relabel hid hhash, hvtx, (appendAll_ok.mp hq).1] at ht
    obtain rfl := Except.ok.inj ht
    rw [finish_relabel]
    exact ⟨rfl, q.trial.finish_mintAuthorizations⟩
  · intro p chunk e q h
    rw [tryAppend_eq] at h
    split at h
    · cases h
    · cases h
      rfl

end Preview

/-- The light client starts and a deposit is minted, in two chunks of one block. -/
theorem sample_preview :
    ∃ p q, beginBlockPreview sampleParams (.empty sampleEnv.keccak) 0 0 7 = .ok p ∧
      appendAll sampleEnv [[bootstrapTx], [mintTx]] p = (.ok (), q) := by
  have hblock : (verifyBlock sampleEnv sampleParams (.empty sampleEnv.keccak)
      ⟨0, [bootstrapTx, mintTx]⟩ 0 9).isOk = true := by decide +kernel
  refine (preview_verifies ⟨0, [bootstrapTx, mintTx]⟩ (by decide)
    (show (9 : Uint256) ≠ 0 by decide) rfl).1.mpr ?_
  cases h : verifyBlock sampleEnv sampleParams (.empty sampleEnv.keccak)
      ⟨0, [bootstrapTx, mintTx]⟩ 0 9 with
  | ok d => exact ⟨d, rfl⟩
  | error e => simp [h, Except.isOk, Except.toBool] at hblock

end B3Coin.Bridge
