import B3Coin.Bridge.Overlay
import B3Coin.Bridge.Undo

/-!
# Mint safety of the connected chain

A node verifies each block against its index before it connects it, and disconnects from
the tip. Whatever it is asked to do, its index accounts exactly for the mints of the
blocks it has connected: no deposit is minted twice, no block and no epoch exceeds its
cap, and every execution anchor goes back to a finalized Ethereum header.
-/
namespace B3Coin.Bridge

open Guards Proc List OrderedMap BridgeStateIndex BridgeBlockDelta

/-! ## The node -/

/-- A connected block, with its effect and the run that verified it. -/
structure ChainBlock where
  block : CBlock
  height : Int
  blockHash : Uint256
  delta : BridgeBlockDelta
  trace : List (BridgeTxAuthorization × Trial)

/-- The mints the transactions of the block were authorized for. -/
def ChainBlock.mints (b : ChainBlock) : List BridgeTxMintAuthorization :=
  b.trace.filterMap (·.1.mint)

/-- The tip first. -/
abbrev Chain := List ChainBlock

structure BridgeNode where
  index : BridgeStateIndex
  chain : Chain

inductive NodeCall where
  | connect (block : CBlock) (height : Int) (blockHash : Uint256)
  | disconnect (height : Int) (blockHash : Uint256)
  | clear

section Node

variable (E : BridgeEnv) (params : Params)

def blockTrace (s : BridgeState) (block : CBlock) (height : Int) (blockHash : Uint256) :
    List (BridgeTxAuthorization × Trial) :=
  params.readyBridge.elim [] fun bridge =>
    traceTransactions E ⟨params, bridge, height, block.nTime.toNat, blockHash⟩ block.vtx
      (s.trial height blockHash)

/-- A block is connected only if it passes `VerifyBlock` on the index as it is. -/
def NodeCall.exec : NodeCall → BridgeNode → BridgeNode
  | .connect block height blockHash, n =>
    match verifyBlock E params n.index.state block height blockHash with
    | .error _ => n
    | .ok delta =>
      match connectBlock E delta n.index with
      | (.ok (), index) => ⟨index, ⟨block, height, blockHash, delta,
          blockTrace E params n.index.state block height blockHash⟩ :: n.chain⟩
      | (.error _, index) => ⟨index, n.chain⟩
  | .disconnect height blockHash, n =>
    match disconnectBlock height blockHash n.index with
    | (.ok (), index) => ⟨index, n.chain.tail⟩
    | (.error _, index) => ⟨index, n.chain⟩
  | .clear, _ => ⟨.empty E.keccak, []⟩

def BridgeNode.run (calls : List NodeCall) : BridgeNode :=
  calls.foldl (fun n call => call.exec E params n) ⟨.empty E.keccak, []⟩

/-- The block passed `VerifyBlock` on `s`. -/
structure VerifiedOn (s : BridgeState) (b : ChainBlock) : Prop where
  verified : verifyBlock E params s b.block b.height b.blockHash = .ok b.delta
  trace : b.trace = blockTrace E params s b.block b.height b.blockHash

/-- The index is that of the chain of verified blocks. -/
def BridgeNode.Consistent (n : BridgeNode) : Prop :=
  Retained E ChainBlock.delta (VerifiedOn E params) n.index n.chain

variable {E params}

theorem NodeCall.exec_consistent (call : NodeCall) {n : BridgeNode} (h : n.Consistent E params) :
    (call.exec E params n).Consistent E params := by
  cases call with
  | connect block height blockHash =>
    simp only [exec]
    split
    · exact h
    · rename_i delta hverify
      split
      · rename_i index hconnect
        exact Retained.connectBlock (δ := ChainBlock.delta) h hconnect ⟨hverify, rfl⟩
      · rename_i e index hconnect
        rw [connectBlock_error hconnect]
        exact h
  | disconnect height blockHash =>
    simp only [exec]
    split
    · rename_i index hdisconnect
      exact Retained.disconnectBlock h hdisconnect
    · rename_i e index hdisconnect
      rw [disconnectBlock_error hdisconnect]
      exact h
  | clear => exact .empty

theorem BridgeNode.run_consistent (calls : List NodeCall) :
    (BridgeNode.run E params calls).Consistent E params := by
  induction calls using List.reverseRecOn with
  | nil => exact .empty
  | append_singleton calls call ih =>
    rw [run, foldl_append]
    exact call.exec_consistent ih

end Node

/-! ## One verified block -/

section Block

variable {E : BridgeEnv} {params : Params} {bridge : ReadyBridge} {s : BridgeState}
  {b : ChainBlock} {bs : Chain}

def ChainBlock.ctx (params : Params) (bridge : ReadyBridge) (b : ChainBlock) : BlockContext :=
  ⟨params, bridge, b.height, b.block.nTime.toNat, b.blockHash⟩

theorem VerifiedOn.run (h : VerifiedOn E params s b) (hready : params.readyBridge = some bridge) :
    ∃ t, Verified E (b.ctx params bridge) b.block.vtx (s.trial b.height b.blockHash) b.trace t ∧
      b.delta = t.finish := by
  have hverified := h.verified
  simp only [verifyBlock, configuredAndActive, Bind.bind, bind_eq_ok, demand_eq_ok, hready,
    Option.some_inj] at hverified
  obtain ⟨_, ⟨_, rfl, _, _, hb⟩, -, -, t, ht, hdelta⟩ := hverified
  cases hb
  refine ⟨t, ?_, (Except.ok.inj hdelta).symm⟩
  rw [h.trace, blockTrace, hready]
  exact verifyTransactions_ok ht

/-- What verification and connection together say of the mints of a block. -/
structure BlockMints (bridge : ReadyBridge) (s : BridgeState) (b : ChainBlock) : Prop where
  mints : b.delta.mintAuthorizations = b.mints
  listed : b.delta.nullifiersAdded = b.mints.map (·.authorization.nullifier)
  cap : (b.mints.map (·.authorization.amount)).sum ≤ bridge.mintCaps.maxPerBlock
  idle : b.mints = [] → b.delta.epochMintChanges = []
  epoch : ∀ a ∈ b.mints, b.delta.epochMintChanges =
    [⟨a.authorization.asset, bridge.epoch b.height,
      s.minted (toLex (a.authorization.asset, bridge.epoch b.height)),
      s.minted (toLex (a.authorization.asset, bridge.epoch b.height)) +
        (b.mints.map (·.authorization.amount)).sum⟩]
  asset : ∀ a ∈ b.mints, ∀ a' ∈ b.mints, a.authorization.asset = a'.authorization.asset
  epoch_cap : ∀ a ∈ b.mints, s.minted (toLex (a.authorization.asset, bridge.epoch b.height)) +
    (b.mints.map (·.authorization.amount)).sum ≤ bridge.mintCaps.maxPerEpoch

theorem VerifiedOn.mints (h : VerifiedOn E params s b)
    (hready : params.readyBridge = some bridge) : BlockMints bridge s b := by
  obtain ⟨t, hrun, hdelta⟩ := h.run hready
  have hframe : Frame s (b.ctx params bridge) t :=
    hrun.invariant (Frame.start s _) fun hstep h => h.step hstep
  have hledger : MintLedger E (b.ctx params bridge) t :=
    hrun.invariant (MintLedger.start s _) fun hstep h => h.step hstep
  have hmints : t.delta.mintAuthorizations = b.mints := by
    rw [hrun.mintAuthorizations]
    rfl
  have hamount : t.delta.authorizedAmount = (b.mints.map (·.authorization.amount)).sum := by
    rw [authorizedAmount, hmints]
  have hasset := hledger.asset
  have hcap := hledger.epoch_cap
  rw [hmints] at hasset hcap
  rw [hframe.base, hamount] at hcap
  refine ⟨?_, ?_, ?_, ?_, ?_, ?_, hcap⟩
  · rw [hdelta, Trial.finish_mintAuthorizations, hmints]
  · rw [hdelta, Trial.finish_nullifiersAdded, hledger.listed, authorizedNullifiers,
      hmints]
  · rw [← hamount]
    exact hledger.block_cap
  · intro hnil
    rw [hdelta]
    exact hledger.epochMintChanges_nil hframe (hmints.trans hnil)
  · intro a ha
    rw [hdelta, hledger.epochMintChanges hframe (hmints ▸ ha), hamount]
    rfl
  · intro a ha a' ha'
    exact Option.some_inj.mp ((hasset a ha).symm.trans (hasset a' ha'))

/-! ## Nullifiers -/

def Chain.mints (bs : Chain) : List BridgeTxMintAuthorization := bs.flatMap (·.mints)

/-- The nullifier set is that of the mints of the chain, each of which is in it once. -/
theorem Built.nullifiers (h : Built E ChainBlock.delta (VerifiedOn E params) bs s)
    (hready : params.readyBridge = some bridge) :
    ((Chain.mints bs).map (·.authorization.nullifier)).Nodup ∧
      ∀ k, k ∈ s.nullifiers ↔ k ∈ (Chain.mints bs).map (·.authorization.nullifier) := by
  induction h with
  | empty => simp [Chain.mints, BridgeState.empty]
  | @connect bs s b _ hv hc ih =>
    obtain ⟨hnodup, hmem⟩ := ih
    have hlisted := (hv.mints hready).listed
    have hsplit : (Chain.mints (b :: bs)).map (·.authorization.nullifier) =
        b.delta.nullifiersAdded ++ (Chain.mints bs).map (·.authorization.nullifier) := by
      rw [hlisted, ← map_append]
      rfl
    rw [hsplit]
    constructor
    · refine nodup_append'.mpr ⟨hc.mints.listed, hnodup, fun k hnew hold => ?_⟩
      exact hc.mints.newNullifier k hnew ((hmem k).mpr hold)
    · intro k
      rw [BridgeState.connect_eq, mem_append, ← hmem k, or_comm]
      simp

/-! ## Totals -/

/-- The sum of the mints of an asset by the blocks of an epoch. -/
def Chain.mintedIn (bridge : ReadyBridge) (asset : Uint256) (epoch : Nat) (bs : Chain) : Int :=
  (((Chain.mints (bs.filter (bridge.epoch ·.height == epoch))).filter
    (·.authorization.asset == asset)).map (·.authorization.amount)).sum

theorem BlockMints.mintedIn (h : BlockMints bridge s b) (asset : Uint256) (epoch : Nat) :
    Chain.mintedIn bridge asset epoch [b] =
      if bridge.epoch b.height = epoch ∧ ∃ a ∈ b.mints, a.authorization.asset = asset then
        (b.mints.map (·.authorization.amount)).sum
      else 0 := by
  by_cases hepoch : bridge.epoch b.height = epoch
  · have hblock : Chain.mints ([b].filter (bridge.epoch ·.height == epoch)) = b.mints := by
      simp [Chain.mints, hepoch]
    rw [Chain.mintedIn, hblock]
    by_cases hasset : ∃ a ∈ b.mints, a.authorization.asset = asset
    · rw [if_pos ⟨hepoch, hasset⟩]
      obtain ⟨a, ha, rfl⟩ := hasset
      rw [filter_eq_self.mpr fun a' ha' => by simpa using h.asset a' ha' a ha]
    · rw [if_neg fun hc => hasset hc.2, filter_eq_nil_iff.mpr fun a ha heq =>
        hasset ⟨a, ha, by simpa using heq⟩]
      rfl
  · have hblock : Chain.mints ([b].filter (bridge.epoch ·.height == epoch)) = [] := by
      simp [Chain.mints, hepoch]
    rw [Chain.mintedIn, hblock, if_neg fun hc => hepoch hc.1]
    rfl

theorem Chain.mintedIn_cons (bridge : ReadyBridge) (asset : Uint256) (epoch : Nat)
    (b : ChainBlock) (bs : Chain) : Chain.mintedIn bridge asset epoch (b :: bs) =
      Chain.mintedIn bridge asset epoch [b] + Chain.mintedIn bridge asset epoch bs := by
  simp only [mintedIn, mints]
  rw [filter_cons, filter_cons]
  split <;> simp

theorem BlockMints.minted_connect (h : BlockMints bridge s b) (asset : Uint256) (epoch : Nat) :
    (s.connect b.delta).minted (toLex (asset, epoch)) =
      s.minted (toLex (asset, epoch)) + Chain.mintedIn bridge asset epoch [b] := by
  have hfind : (s.connect b.delta).minted (toLex (asset, epoch)) =
      ((s.epochMinted.insertAll (b.delta.epochMintChanges.map fun c => (c.key, c.after))).find?
        (toLex (asset, epoch))).getD 0 := by
    rw [BridgeState.connect_eq]
    rfl
  rw [hfind, h.mintedIn]
  cases hm : b.mints with
  | nil => simp [h.idle hm, insertAll, BridgeState.minted]
  | cons a rest =>
    have ha : a ∈ b.mints := by simp [hm]
    have hsame : (∃ a' ∈ b.mints, a'.authorization.asset = asset) ↔ a.authorization.asset = asset := by
      constructor
      · rintro ⟨a', ha', rfl⟩
        exact h.asset a ha a' ha'
      · intro heq
        exact ⟨a, ha, heq⟩
    rw [← hm, h.epoch a ha]
    simp only [hsame]
    by_cases hkey : bridge.epoch b.height = epoch ∧ a.authorization.asset = asset
    · obtain ⟨rfl, rfl⟩ := hkey
      simp [insertAll, BridgeEpochMintChange.key]
    · rw [if_neg hkey, add_zero]
      have hne : ¬ (asset = a.authorization.asset ∧ epoch = bridge.epoch b.height) := by
        rintro ⟨rfl, rfl⟩
        exact hkey ⟨rfl, rfl⟩
      simp [insertAll, BridgeEpochMintChange.key, find?_insert, hne,
        BridgeState.minted]

theorem ReadyBridge.maxPerEpoch_nonneg (bridge : ReadyBridge) : 0 ≤ bridge.mintCaps.maxPerEpoch := by
  have := bridge.mintCaps_valid
  simp only [BridgeMintCaps.valid, Bool.and_eq_true, decide_eq_true_eq] at this
  omega

/-- The minted total of an epoch is the sum of its authorizations and within the cap. -/
theorem Built.epochs (h : Built E ChainBlock.delta (VerifiedOn E params) bs s)
    (hready : params.readyBridge = some bridge) (asset : Uint256) (epoch : Nat) :
    s.minted (toLex (asset, epoch)) = Chain.mintedIn bridge asset epoch bs ∧
      s.minted (toLex (asset, epoch)) ≤ bridge.mintCaps.maxPerEpoch := by
  induction h with
  | empty => exact ⟨rfl, bridge.maxPerEpoch_nonneg⟩
  | @connect bs s b _ hv _ ih =>
    have hm := hv.mints hready
    rw [hm.minted_connect, Chain.mintedIn_cons bridge asset epoch b bs, ← ih.1]
    refine ⟨add_comm _ _, ?_⟩
    rw [hm.mintedIn]
    split
    · rename_i hc
      obtain ⟨rfl, a, ha, rfl⟩ := hc
      exact hm.epoch_cap a ha
    · rw [add_zero]
      exact ih.2

theorem VerifiedOn.total (h : VerifiedOn E params s b) (hc : Connects E s b.delta)
    (hready : params.readyBridge = some bridge) :
    b.delta.changedAmount = (b.mints.map (·.authorization.amount)).sum ∧
      b.delta.changedAmount ≤ bridge.mintCaps.maxPerBlock := by
  have hm := h.mints hready
  have htotal : b.delta.changedAmount = (b.mints.map (·.authorization.amount)).sum := by
    rw [hc.epochs.total, authorizedAmount, hm.mints]
  exact ⟨htotal, htotal ▸ hm.cap⟩

/-! ## Anchors -/

theorem Built.anchor_maps {β : Type} {δ : β → BridgeBlockDelta} {P : BridgeState → β → Prop}
    {bs : List β} (h : Built E δ P bs s) (number : Nat) (hash : Uint256) :
    s.anchorByHeight.find? number = some hash ↔
      ∃ a, s.anchors.find? hash = some a ∧ a.blockNumber = number := by
  induction h with
  | empty => simp [BridgeState.empty]
  | @connect bs s b _ _ hc ih =>
    rw [BridgeState.connect_eq]
    simp only [find?_emplaceAll_eq_some hc.anchors.hashes hc.anchors.newHash,
      find?_emplaceAll_eq_some hc.anchors.numbers hc.anchors.newNumber, ih]
    constructor
    · rintro (⟨a, ha, hn⟩ | ⟨a, ha, hn, hh⟩)
      · exact ⟨a, .inl ha, hn⟩
      · exact ⟨a, .inr ⟨a, ha, hh, rfl⟩, hn⟩
    · rintro ⟨a, ha | ⟨a', ha', hh, rfl⟩, hn⟩
      · exact .inl ⟨a, ha, hn⟩
      · exact .inr ⟨a', ha', hn, hh⟩

/-- The anchor of a header that was finalized in the verification of a block of the chain. -/
def Chain.Finalized (bs : Chain) (a : BridgeExecutionAnchor) : Prop :=
  ∃ b ∈ bs, FinalizedBy b.height b.blockHash b.trace a

theorem Built.originated (h : Built E ChainBlock.delta (VerifiedOn E params) bs s)
    (hready : params.readyBridge = some bridge) :
    Originated E.toExecutionCodec (Chain.Finalized bs) s.anchors.find? := by
  induction h with
  | empty =>
    intro hash a ha
    cases ha
  | @connect bs s b _ hv _ ih =>
    obtain ⟨t, hrun, hdelta⟩ := hv.run hready
    have hframe : Frame s (b.ctx params bridge) t :=
      hrun.invariant (Frame.start s _) fun hstep h => h.step hstep
    have hanchors : AnchorLedger t :=
      hrun.invariant (AnchorLedger.start s _ _) fun hstep h => h.step hstep
    have hlookup : (s.connect b.delta).anchors.find? = t.state.anchor := by
      funext hash
      rw [hanchors.byHash, hframe.base, BridgeState.connect_eq, hdelta, Trial.finish_anchorsAdded]
      rfl
    rw [hlookup]
    refine hrun.originated (fun a ha => ⟨b, mem_cons_self, ha⟩) ?_
    exact ih.mono fun a ⟨b', hb', ha⟩ => ⟨b', mem_cons_of_mem _ hb', ha⟩

end Block

/-! ## Every moment of a node -/

structure MintSafe (E : BridgeEnv) (bridge : ReadyBridge) (n : BridgeNode) : Prop where
  once : ((Chain.mints n.chain).map (·.authorization.nullifier)).Nodup
  nullified : ∀ k, k ∈ n.index.state.nullifiers ↔
    k ∈ (Chain.mints n.chain).map (·.authorization.nullifier)
  block : ∀ b ∈ n.chain, b.delta.changedAmount = (b.mints.map (·.authorization.amount)).sum ∧
    b.delta.changedAmount ≤ bridge.mintCaps.maxPerBlock
  epoch : ∀ asset epoch,
    n.index.state.minted (toLex (asset, epoch)) = Chain.mintedIn bridge asset epoch n.chain ∧
      n.index.state.minted (toLex (asset, epoch)) ≤ bridge.mintCaps.maxPerEpoch
  anchor : ∀ hash a, n.index.state.anchors.find? hash = some a → a.blockHash = hash ∧
    ∃ origin, n.index.state.anchors.find? origin.blockHash = some origin ∧
      Chain.Finalized n.chain origin ∧ Descends E.toExecutionCodec origin.blockHash hash ∧
      a.blockNumber ≤ origin.blockNumber ∧
      origin.blockNumber - a.blockNumber ≤ MAX_BRIDGE_CUMULATIVE_BACKFILL_BLOCKS
  inverse : ∀ number hash, n.index.state.anchorByHeight.find? number = some hash ↔
    ∃ a, n.index.state.anchors.find? hash = some a ∧ a.blockNumber = number

/-- Whatever a node connects and disconnects, its chain mints each deposit at most once and
within the caps, and its anchors are bounded by finalized headers. -/
theorem mint_safe {E : BridgeEnv} {params : Params} {bridge : ReadyBridge}
    (hready : params.readyBridge = some bridge) (calls : List NodeCall) :
    MintSafe E bridge (BridgeNode.run E params calls) := by
  have hconsistent : (BridgeNode.run E params calls).Consistent E params :=
    BridgeNode.run_consistent calls
  have hbuilt := hconsistent.built
  obtain ⟨honce, hnullified⟩ := hbuilt.nullifiers hready
  refine ⟨honce, hnullified, hbuilt.forall_mem fun s b hv hc => hv.total hc hready,
    hbuilt.epochs hready, ?_, hbuilt.anchor_maps⟩
  intro hash a ha
  obtain ⟨rfl, hvalid, origin, hfind, hfin, hnumber, hdesc⟩ := hbuilt.originated hready hash a ha
  simp only [hasValidBackfillOrigin, ← hnumber, Bool.and_eq_true, decide_eq_true_eq] at hvalid
  exact ⟨rfl, origin, hfind, hfin, hdesc, hvalid⟩

/-- A bridge that is active from the first block. -/
def managedBridge : BridgeAssetParams :=
  { sampleBridge 0 with
    withdrawalMode := some .MANAGED_V1
    managedWithdrawal := some ⟨1, 1, 1, 1⟩ }

def sampleParams : Params := sampleChainParams managedBridge

def bootstrapTx : CTransaction where
  vin := [{ prevout := ⟨1, 0⟩ }]
  vout := [⟨0, []⟩]
  mpa := [⟨BRIDGE_MPA_TYPE, 1, []⟩]

def mintTx : CTransaction where
  vin := [{ prevout := ⟨2, 0⟩ }]
  vout := [⟨0, [1]⟩, ⟨40, recipientV1Script (replicate 20 1)⟩]
  mpa := [⟨BRIDGE_MPA_TYPE, 1, [1]⟩]

/-- The light client starts, a deposit is minted, and the block after that is disconnected. -/
theorem sample_mint_safe :
    let n := BridgeNode.run sampleEnv sampleParams [.connect ⟨0, [bootstrapTx]⟩ 0 9,
      .connect ⟨0, [mintTx]⟩ 1 10, .connect ⟨0, []⟩ 2 11, .disconnect 2 11]
    (Chain.mints n.chain).map (·.authorization.amount) = [40] ∧
      MintSafe sampleEnv ⟨managedBridge, by decide⟩ n :=
  ⟨by decide +kernel, mint_safe rfl _⟩

end B3Coin.Bridge
