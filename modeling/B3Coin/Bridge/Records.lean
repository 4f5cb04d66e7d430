import B3Coin.Bridge.ConnectSpec

/-!
# What a verified transaction does

`RecordStep` says once what a transaction that passes `VerifyBridgeTransaction` has been
checked for and what it leaves in the overlay and the effect; everything about whole
blocks is read off it by induction over `Verified`.
-/
namespace B3Coin.Bridge

open Guards Bind Except

variable {E : BridgeEnv} {ctx : BlockContext} {tx : CTransaction} {t t' : Trial}

/-! ## Anchors -/

def Trial.setStore (t : Trial) (store : LightClientStore) : Trial :=
  { t with state := t.state.setLightClient store }

def Trial.addAnchor (t : Trial) (a : BridgeExecutionAnchor) : Trial :=
  ⟨t.state.addAnchor a, { t.delta with anchorsAdded := t.delta.anchorsAdded ++ [a] }⟩

structure AnchorShape (a : BridgeExecutionAnchor) : Prop where
  blockHash : a.blockHash ≠ 0
  receiptsRoot : a.receiptsRoot ≠ 0
  height : 0 ≤ a.connectedHeight
  block : a.connectedBlock ≠ 0
  origin : hasValidBackfillOrigin a = true

/-- A well-formed anchor of a block that is not known. -/
structure Unknown (a : BridgeExecutionAnchor) (t : Trial) : Prop where
  shape : AnchorShape a
  missing : t.state.anchor a.blockHash = none
  free : ∀ hash, t.state.anchorHashAtHeight a.blockNumber = some hash → hash = a.blockHash

/-- A block that is known already is not recorded again. -/
inductive AnchorStep (a : BridgeExecutionAnchor) (t : Trial) : Trial → Prop
  | known (shape : AnchorShape a) (same : BridgeExecutionAnchor)
      (found : t.state.anchor a.blockHash = some same) : AnchorStep a t t
  | new (unknown : Unknown a t) : AnchorStep a t (t.addAnchor a)

theorem addAnchor_ok {a : BridgeExecutionAnchor} (h : addAnchor a t = .ok t') :
    AnchorStep a t t' := by
  simp only [addAnchor, bind, seq_eq_ok, reject_eq_ok, not_or, not_lt, Bool.not_eq_true,
    Bool.not_eq_false'] at h
  obtain ⟨⟨h1, h2, h3, h4, h5⟩, h⟩ := h
  have shape : AnchorShape a := ⟨h1, h2, h3, h4, h5⟩
  cases hf : t.state.anchor a.blockHash with
  | some same =>
    simp only [hf, seq_eq_ok, ok.injEq] at h
    obtain ⟨-, rfl⟩ := h
    exact .known shape same hf
  | none =>
    simp only [hf, seq_eq_ok, reject_eq_ok, ok.injEq] at h
    obtain ⟨hfree, rfl⟩ := h
    refine .new ⟨shape, hf, fun hash hh => ?_⟩
    simpa [hh] using hfree

/-! ## Records -/

section

variable (E : BridgeEnv) (ctx : BlockContext) (tx : CTransaction) (t : Trial)
  (r : BridgeDecentralizedWithdrawalRequest) (tree : WithdrawalTreeState)

/-- The record of a transaction that has one. -/
def payloadOf : Option BridgeRecordPayloadV1 :=
  match bridgeRecords tx with
  | [record] => E.decodeRecord record
  | _ => none

/-- The anchor a backfill adds, reached from `source`. -/
structure Backfilled (source a : BridgeExecutionAnchor) : Prop where
  stored : ∃ hash, t.state.anchor hash = some source
  descends : Descends E.toExecutionCodec source.blockHash a.blockHash
  origin : a.sourceFinalizedExecutionBlock = source.sourceFinalizedExecutionBlock
  height : a.connectedHeight = ctx.height
  block : a.connectedBlock = ctx.blockHash
  new : Unknown a t

/-- The epoch a block mints in. -/
def BlockContext.epochKey (asset : Uint256) : EpochKey := toLex (asset, ctx.bridge.epoch ctx.height)

/-- What is checked of a mint before it is authorized. -/
structure Minted (a : BridgeTxMintAuthorization) : Prop where
  asset : configuredBridgeAssetId E.toBridgeIds ctx.params = some a.authorization.asset
  asset_ne : a.authorization.asset ≠ 0
  amount_pos : 0 < a.authorization.amount
  amount_le : a.authorization.amount ≤ MAX_MONEY
  script : a.authorization.recipientScript ≠ []
  block_cap : t.state.mintedThisBlock + a.authorization.amount ≤ ctx.bridge.mintCaps.maxPerBlock
  epoch_cap : t.state.epochMinted (ctx.epochKey a.authorization.asset) + a.authorization.amount ≤
    ctx.bridge.mintCaps.maxPerEpoch
  unspent : a.authorization.nullifier ∉ t.state.base.nullifiers
  fresh : a.authorization.nullifier ∉ t.state.nullifiersOverlay
  transaction : a.transactionId = E.ptxid tx
  unlisted : a.transactionId ∉ t.delta.mintAuthorizations.map (·.transactionId)

structure Withdrawn (r : BridgeManagedWithdrawalRequest) : Prop where
  payload : ∃ record, payloadOf E tx = some (.managedWithdrawal record) ∧
    r.burnOutputIndex = record.burnOutputIndex
  mode : ctx.bridge.withdrawalMode = .MANAGED_V1
  transaction : r.transactionId = E.txid tx
  burn : (E.makeAssetBurnOutput r.asset r.amount).isSome = true
  amount_pos : 0 < r.amount
  amount_le : r.amount ≤ MAX_MONEY
  recipient : r.ethereumRecipient ≠ 0
  height : r.connectedHeight = ctx.height
  block : r.connectedBlock = ctx.blockHash
  unspent : t.state.base.withdrawals.find? r.id = none
  fresh : r.id ∉ t.state.withdrawalsOverlay

def Trial.withdraw (r : BridgeManagedWithdrawalRequest) : Trial where
  state := { t.state with withdrawalsOverlay := insert r.id t.state.withdrawalsOverlay }
  delta := { t.delta with withdrawalsAdded := t.delta.withdrawalsAdded ++ [r] }

structure Burned : Prop where
  payload : ∃ record, payloadOf E tx = some (.bridgeBurn record) ∧
    r.burnOutputIndex = record.burnOutputIndex
  mode : ctx.bridge.withdrawalMode = .DECENTRALIZED_VERIFIER_V1
  transaction : r.transactionId = E.txid tx
  withdrawalId : r.withdrawal.withdrawalId = t.state.withdrawalTree.count
  b3Height : r.withdrawal.b3Height = ctx.height.toNat
  height : r.connectedHeight = ctx.height
  block : r.connectedBlock = ctx.blockHash
  leaf : bridgeWithdrawalLeafV1 E.keccak r.withdrawal = some r.leaf
  append : appendWithdrawalLeaf E.keccak t.state.withdrawalTree r.leaf = some tree
  sourceUnspent : t.state.base.decentralizedWithdrawalSources.find? r.source = none
  sourceFresh : r.source ∉ t.state.decentralizedSourcesOverlay
  idUnspent : t.state.base.decentralizedWithdrawals.find? r.withdrawal.withdrawalId = none
  idFresh : r.withdrawal.withdrawalId ∉ t.state.decentralizedWithdrawalsOverlay

def Trial.burn : Trial where
  state := { t.state with
    withdrawalTree := tree
    decentralizedSourcesOverlay := insert r.source t.state.decentralizedSourcesOverlay
    decentralizedWithdrawalsOverlay :=
      insert r.withdrawal.withdrawalId t.state.decentralizedWithdrawalsOverlay }
  delta := { t.delta with
    withdrawalTreeAfter := tree
    decentralizedWithdrawalsAdded := t.delta.decentralizedWithdrawalsAdded ++ [r] }

end

/-- Everything a transaction can do to the trial, with its authorization. -/
inductive RecordStep (E : BridgeEnv) (ctx : BlockContext) (tx : CTransaction) (t : Trial) :
    BridgeTxAuthorization → Trial → Prop
  | idle (payload : payloadOf E tx = none) : RecordStep E ctx tx t {} t
  | bootstrap {record : BridgeBootstrapV1} {store : LightClientStore} {branch : List Uint256}
      {t' : Trial} (payload : payloadOf E tx = some (.bootstrap record))
      (first : t.state.lightClientState = none)
      (init : initStore E.toBeaconCrypto (lightClientConfigFor ctx.bridge.lightClient)
        ctx.bridge.lightClient.trustedCheckpointRoot store.finalizedHeader store.current branch =
        .ok store)
      (anchor : AnchorStep (finalizedAnchor store.finalizedHeader ctx.height ctx.blockHash)
        (t.setStore store) t') : RecordStep E ctx tx t {} t'
  | follow {current store : LightClientStore} {u : LightClientUpdate}
      (payload : payloadOf E tx = some (.update u))
      (old : t.state.lightClientState = some current)
      (process : current.processUpdate E.toBeaconCrypto
        (lightClientConfigFor ctx.bridge.lightClient) u = .ok store)
      (changed : store ≠ current) (header : store.finalizedHeader = current.finalizedHeader) :
      RecordStep E ctx tx t {} (t.setStore store)
  | advance {current store : LightClientStore} {u : LightClientUpdate} {t' : Trial}
      (payload : payloadOf E tx = some (.update u))
      (old : t.state.lightClientState = some current)
      (process : current.processUpdate E.toBeaconCrypto
        (lightClientConfigFor ctx.bridge.lightClient) u = .ok store)
      (header : store.finalizedHeader ≠ current.finalizedHeader)
      (conflict : u.finalized.beacon.slot = current.finalizedHeader.beacon.slot →
        u.finalized = current.finalizedHeader)
      (window : executionRangeReachable store.finalizedHeader.execution.blockNumber
        current.finalizedHeader.execution.blockNumber = true)
      (anchor : AnchorStep (finalizedAnchor store.finalizedHeader ctx.height ctx.blockHash)
        (t.setStore store) t') : RecordStep E ctx tx t {} t'
  | backfill {record : BridgeExecutionBackfillV1} {source a : BridgeExecutionAnchor}
      (payload : payloadOf E tx = some (.executionBackfill record))
      (checked : Backfilled E ctx t source a) : RecordStep E ctx tx t {} (t.addAnchor a)
  | mint {record : BridgeMintV1} {a : BridgeTxMintAuthorization}
      (payload : payloadOf E tx = some (.mint record)) (checked : Minted E ctx tx t a) :
      RecordStep E ctx tx t { mint := some a } (t.mint (ctx.epochKey a.authorization.asset) a)
  | withdraw {r : BridgeManagedWithdrawalRequest} (checked : Withdrawn E ctx tx t r) :
      RecordStep E ctx tx t { withdrawal := some r } (t.withdraw r)
  | burn {r : BridgeDecentralizedWithdrawalRequest} {tree : WithdrawalTreeState}
      (checked : Burned E ctx tx t r tree) :
      RecordStep E ctx tx t { decentralizedWithdrawal := some r } (t.burn r tree)

@[simp] theorem Trial.mint_base (t : Trial) (key : EpochKey) (a : BridgeTxMintAuthorization) :
    (t.mint key a).state.base = t.state.base := rfl

/-! ## One lemma for each record kind -/

theorem verifyBootstrap_ok {record : BridgeBootstrapV1}
    (hp : payloadOf E tx = some (.bootstrap record))
    (h : verifyBootstrap E ctx record t = .ok t') : RecordStep E ctx tx t {} t' := by
  simp only [verifyBootstrap, bind, bind_eq_ok, reject_eq_ok, demand_eq_ok, exists_const,
    toOption_eq_some] at h
  obtain ⟨hfirst, -, -, -, store, hinit, h⟩ := h
  obtain rfl := initStore_ok hinit
  exact .bootstrap hp (by simpa using hfirst) hinit (addAnchor_ok h)

theorem verifyUpdate_ok {record : LightClientUpdate} (hp : payloadOf E tx = some (.update record))
    (h : verifyUpdate E ctx record t = .ok t') : RecordStep E ctx tx t {} t' := by
  simp only [verifyUpdate, bind, bind_eq_ok, reject_eq_ok, demand_eq_ok, exists_const,
    toOption_eq_some, not_and, Bool.not_eq_true', Bool.not_eq_false, Bool.not_not,
    sameLightClientHeader_iff, sameLightClientStore_iff] at h
  obtain ⟨current, hold, -, hconflict, store, hprocess, hchanged, hwindow, h⟩ := h
  split_ifs at h with hheader
  · cases h
    exact .follow hp hold hprocess hchanged hheader
  · have hne : sameLightClientHeader store.finalizedHeader current.finalizedHeader = false :=
      Bool.eq_false_iff.mpr fun heq => hheader (sameLightClientHeader_iff.mp heq)
    exact .advance hp hold hprocess hheader hconflict (hwindow hne) (addAnchor_ok h)

theorem verifyBackfill_ok {record : BridgeExecutionBackfillV1}
    (hp : payloadOf E tx = some (.executionBackfill record))
    (h : verifyBackfill E ctx record t = .ok t') : RecordStep E ctx tx t {} t' := by
  simp only [verifyBackfill, bind, bind_eq_ok, reject_eq_ok, demand_eq_ok, exists_const,
    ok.injEq] at h
  obtain ⟨source, hsource, target, htarget, -, -, timestamp, -, t'', hadd, hnew, rfl⟩ := h
  have hstep := addAnchor_ok hadd
  obtain ⟨hdescends, -⟩ := walkAncestry_descends htarget
  cases hstep with
  | known => exact absurd rfl hnew
  | new unknown => exact .backfill hp ⟨⟨_, hsource⟩, hdescends, rfl, rfl, rfl, unknown⟩

variable {auth : BridgeTxAuthorization}

theorem verifyMint_ok {record : BridgeMintV1} (hp : payloadOf E tx = some (.mint record))
    (h : verifyMint E ctx tx record t = .ok (auth, t')) : RecordStep E ctx tx t auth t' := by
  simp only [verifyMint, bind, bind_eq_ok, reject_eq_ok, demand_eq_ok, exists_const,
    toOption_eq_some, ok.injEq, Prod.mk.injEq] at h
  obtain ⟨event, -, asset, hasset, a, hadmit, hunspent, output, -, -, hunlisted, hfresh, rfl, rfl⟩ := h
  obtain ⟨hid, hne, hpos, hle, hscript, hblock, hepoch⟩ := admitConfiguredDeposit_ok hadmit
  obtain rfl : asset = a.asset := Option.some_inj.mp (hasset.symm.trans hid)
  refine .mint (a := ⟨E.ptxid tx, record.outputIndex, a⟩) hp
    ⟨hid, hne, hpos, hle, hscript, hblock, hepoch, ?_, hfresh, rfl, ?_⟩
  · simp only [ScratchState.isNullified, Bool.or_eq_true, decide_eq_true_eq, not_or] at hunspent
    exact hunspent.2
  · simpa using hunlisted

variable {record : BridgeBurnFields}

theorem checkBurn_ok {mode : BridgeWithdrawalMode} {texts : BurnTexts}
    {asset : Uint256} {amount : Int}
    (h : checkBurn E ctx mode texts tx record = .ok (asset, amount)) :
    ctx.bridge.withdrawalMode = mode ∧ record.ethereumRecipient ≠ 0 ∧ 0 < amount ∧
      amount ≤ MAX_MONEY ∧ (E.makeAssetBurnOutput asset amount).isSome = true := by
  simp only [checkBurn, bind, bind_eq_ok, reject_eq_ok, demand_eq_ok, exists_const,
    ok.injEq, Prod.mk.injEq, not_or, not_not, ne_eq] at h
  obtain ⟨-, hmode, asset', -, -, hrecipient, ⟨hzero, hle⟩, output, -, hburn, rfl, rfl⟩ := h
  refine ⟨hmode, hrecipient, ?_, not_lt.mp hle, by rw [hburn]; rfl⟩
  exact_mod_cast Nat.pos_of_ne_zero hzero

theorem verifyWithdrawal_ok (hp : payloadOf E tx = some (.managedWithdrawal record))
    (h : verifyWithdrawal E ctx tx record t = .ok (auth, t')) : RecordStep E ctx tx t auth t' := by
  simp only [verifyWithdrawal, bind, bind_eq_ok, reject_eq_ok, exists_const, Prod.exists,
    ok.injEq, Prod.mk.injEq, not_or, Bool.not_eq_true, OrderedMap.contains_eq_false] at h
  obtain ⟨asset, amount, hburn, ⟨hunspent, hfresh⟩, rfl, rfl⟩ := h
  obtain ⟨hmode, hrecipient, hpos, hle, hout⟩ := checkBurn_ok hburn
  exact .withdraw ⟨⟨record, hp, rfl⟩, hmode, rfl, hout, hpos, hle, hrecipient, rfl, rfl, hunspent, hfresh⟩

theorem appendBridgeWithdrawal_eq_some {keccak : Codec.Bytes → Uint256} {tree tree' : WithdrawalTreeState}
    {w : BridgeWithdrawalV1} {leaf : Uint256} :
    appendBridgeWithdrawal keccak tree w = some (leaf, tree') ↔ w.withdrawalId = tree.count ∧
      bridgeWithdrawalLeafV1 keccak w = some leaf ∧
      appendWithdrawalLeaf keccak tree leaf = some tree' := by
  unfold appendBridgeWithdrawal
  split_ifs with h
  · simp [h]
  · rw [not_not] at h
    simp [h, Option.bind_eq_some_iff]

theorem verifyBridgeBurn_ok (hp : payloadOf E tx = some (.bridgeBurn record))
    (h : verifyBridgeBurn E ctx tx record t = .ok (auth, t')) : RecordStep E ctx tx t auth t' := by
  simp only [verifyBridgeBurn, bind, bind_eq_ok, reject_eq_ok, demand_eq_ok, exists_const,
    Prod.exists, ok.injEq, Prod.mk.injEq] at h
  obtain ⟨asset, amount, hburn, -, leaf, state, hadd, rfl, rfl⟩ := h
  obtain ⟨hmode, -⟩ := checkBurn_ok hburn
  unfold ScratchState.addDecentralizedWithdrawal at hadd
  split_ifs at hadd with hused
  obtain ⟨⟨leaf', tree⟩, happend, hout⟩ := Option.map_eq_some_iff.mp hadd
  obtain ⟨hid, hleaf, htree⟩ := appendBridgeWithdrawal_eq_some.mp happend
  cases hout
  simp only [not_or, Bool.not_eq_true, OrderedMap.contains_eq_false] at hused
  obtain ⟨h1, h2, h3, h4⟩ := hused
  exact .burn ⟨⟨record, hp, rfl⟩, hmode, rfl, rfl, rfl, rfl, rfl, hleaf, htree, h1, h2, h3, h4⟩

/-! ## Transactions and blocks -/

theorem verifyPayload_ok {payload : BridgeRecordPayloadV1} (hp : payloadOf E tx = some payload)
    (h : verifyPayload E ctx tx t payload = .ok (auth, t')) : RecordStep E ctx tx t auth t' := by
  cases payload with
  | bootstrap record =>
    obtain ⟨t1, h1, heq⟩ := map_eq_ok.mp h
    cases heq
    exact verifyBootstrap_ok hp h1
  | update record =>
    obtain ⟨t1, h1, heq⟩ := map_eq_ok.mp h
    cases heq
    exact verifyUpdate_ok hp h1
  | mint record => exact verifyMint_ok hp h
  | executionBackfill record =>
    obtain ⟨t1, h1, heq⟩ := map_eq_ok.mp h
    cases heq
    exact verifyBackfill_ok hp h1
  | managedWithdrawal record => exact verifyWithdrawal_ok hp h
  | bridgeBurn record => exact verifyBridgeBurn_ok hp h

theorem verifyBridgeTransaction_ok
    (h : verifyBridgeTransaction E ctx tx t = .ok (auth, t')) : RecordStep E ctx tx t auth t' := by
  unfold verifyBridgeTransaction at h
  split at h
  · rename_i hnone
    simp only [bind, bind_eq_ok, ok.injEq, Prod.mk.injEq] at h
    obtain ⟨-, -, rfl, rfl⟩ := h
    exact .idle (by rw [payloadOf, hnone])
  · rename_i record hone
    simp only [bind, bind_eq_ok, demand_eq_ok] at h
    obtain ⟨-, -, -, -, payload, hdecode, h⟩ := h
    exact verifyPayload_ok (by rw [payloadOf, hone]; exact hdecode) h
  · cases h

/-- The authorization of each transaction, and the trial after it. -/
def traceTransactions (E : BridgeEnv) (ctx : BlockContext) :
    List CTransaction → Trial → List (BridgeTxAuthorization × Trial)
  | [], _ => []
  | tx :: rest, t =>
    match verifyBridgeTransaction E ctx tx t with
    | .ok x => x :: traceTransactions E ctx rest x.2
    | .error _ => []

/-- The run over the transactions of a block. -/
inductive Verified (E : BridgeEnv) (ctx : BlockContext) :
    List CTransaction → Trial → List (BridgeTxAuthorization × Trial) → Trial → Prop
  | nil {t : Trial} : Verified E ctx [] t [] t
  | cons {tx : CTransaction} {txs : List CTransaction} {auth : BridgeTxAuthorization}
      {trace : List (BridgeTxAuthorization × Trial)} {t t' t'' : Trial} :
      RecordStep E ctx tx t auth t' → Verified E ctx txs t' trace t'' →
      Verified E ctx (tx :: txs) t ((auth, t') :: trace) t''

theorem verifyTransactions_ok {txs : List CTransaction} (h : verifyTransactions E ctx txs t = .ok t') :
    Verified E ctx txs t (traceTransactions E ctx txs t) t' := by
  induction txs generalizing t with
  | nil =>
    cases h
    exact .nil
  | cons tx txs ih =>
    simp only [verifyTransactions, bind, bind_eq_ok, Prod.exists] at h
    obtain ⟨auth, t1, hfirst, hrest⟩ := h
    rw [traceTransactions, hfirst]
    exact .cons (verifyBridgeTransaction_ok hfirst) (ih hrest)

end B3Coin.Bridge
