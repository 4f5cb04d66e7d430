import B3Coin.Bridge.ConnectSpec
import B3Coin.Lib.Transition

/-!
# Undoing a block

A block that connects is undone exactly: its undo passes every check of `DisconnectBlock`
on the new state and gives back the old one. Every index is therefore built by
connecting blocks alone, and its history is the end of that chain.
-/
namespace B3Coin.Bridge

open Guards Proc Transition List OrderedMap BridgeStateIndex BridgeState

variable {E : BridgeEnv} {s : BridgeState} {d : BridgeBlockDelta}

namespace BridgeState

/-! ## The writes, field by field -/

theorem connect_eq (s : BridgeState) (d : BridgeBlockDelta) : s.connect d =
    { lightClient := if d.lightClientChanged then d.lightClientAfter else s.lightClient
      lightClientConnection := if d.lightClientChanged then d.lightClientConnectionAfter
        else s.lightClientConnection
      lightClientFloor := if d.lightClientChanged then
          s.lightClientFloor.or (d.lightClientAfter.bind fun store =>
            d.lightClientConnectionAfter.map fun connection => ⟨store, connection⟩)
        else s.lightClientFloor
      anchors := s.anchors.emplaceAll (d.anchorsAdded.map fun a => (a.blockHash, a))
      anchorByHeight :=
        s.anchorByHeight.emplaceAll (d.anchorsAdded.map fun a => (a.blockNumber, a.blockHash))
      nullifiers := s.nullifiers ∪ d.nullifiersAdded.toFinset
      nullifierConnections :=
        s.nullifierConnections.emplaceAll (d.nullifiersAdded.map fun k => (k, d.connection))
      epochMinted := s.epochMinted.insertAll (d.epochMintChanges.map fun c => (c.key, c.after))
      withdrawals := s.withdrawals.emplaceAll (d.withdrawalsAdded.map fun r => (r.id, r))
      decentralizedWithdrawals := s.decentralizedWithdrawals.emplaceAll
        (d.decentralizedWithdrawalsAdded.map fun r => (r.withdrawal.withdrawalId, r))
      decentralizedWithdrawalSources := s.decentralizedWithdrawalSources.emplaceAll
        (d.decentralizedWithdrawalsAdded.map fun r => (r.source, r.withdrawal.withdrawalId))
      withdrawalTree := d.withdrawalTreeAfter
      withdrawalRoots := s.withdrawalRoots.emplace d.height d.withdrawalTreeAfter.root
      connectedHeight := d.height
      connectedHash := d.blockHash } := by
  cases h : d.lightClientChanged <;>
    simp [connect, connectLightClient, connectAnchors, connectNullifiers, connectEpochs,
      connectWithdrawals, connectDecentralized, connectTip, h]

theorem undo_eq (s : BridgeState) (d : BridgeBlockDelta) : s.undo d =
    { lightClient := if d.lightClientChanged then d.lightClientBefore else s.lightClient
      lightClientConnection := if d.lightClientChanged then d.lightClientConnectionBefore
        else s.lightClientConnection
      lightClientFloor := if d.lightClientChanged ∧ s.lightClientFloor.any (fun f =>
          some f.connection == d.lightClientConnectionAfter) then none else s.lightClientFloor
      anchors := s.anchors.eraseAll (d.anchorsAdded.reverse.map (·.blockHash))
      anchorByHeight := s.anchorByHeight.eraseAll (d.anchorsAdded.reverse.map (·.blockNumber))
      nullifiers := s.nullifiers \ d.nullifiersAdded.toFinset
      nullifierConnections := s.nullifierConnections.eraseAll d.nullifiersAdded.reverse
      epochMinted :=
        s.epochMinted.restore (d.epochMintChanges.reverse.map fun c => (c.key, c.before))
      withdrawals := s.withdrawals.eraseAll (d.withdrawalsAdded.reverse.map (·.id))
      decentralizedWithdrawals := s.decentralizedWithdrawals.eraseAll
        (d.decentralizedWithdrawalsAdded.reverse.map (·.withdrawal.withdrawalId))
      decentralizedWithdrawalSources := s.decentralizedWithdrawalSources.eraseAll
        (d.decentralizedWithdrawalsAdded.reverse.map (·.source))
      withdrawalTree := d.withdrawalTreeBefore
      withdrawalRoots := s.withdrawalRoots.erase d.height
      connectedHeight := d.previousHeight
      connectedHash := d.previousBlockHash } := by
  cases h : d.lightClientChanged <;>
    simp [undo, undoLightClient, undoAnchors, undoNullifiers, undoEpochs, undoTree,
      undoWithdrawals, undoDecentralized, undoTip, h]

end BridgeState

/-! ## Keys of new entries -/

theorem NewWithdrawals.ids_nodup (h : NewWithdrawals s d) : (d.withdrawalsAdded.map (·.id)).Nodup := by
  apply List.Nodup.of_map (·.transactionId)
  rw [map_map]
  exact h.transactions

namespace NewDecentralized

theorem count_treeAfter (h : NewDecentralized E s d) {pre post : List BridgeDecentralizedWithdrawalRequest}
    (heq : d.decentralizedWithdrawalsAdded = pre ++ post) :
    (Bridge.treeAfter E s.withdrawalTree pre).count = s.withdrawalTree.count + pre.length := by
  induction pre using List.reverseRecOn generalizing post with
  | nil => rfl
  | append_singleton pre r ih =>
    have hsplit : d.decentralizedWithdrawalsAdded = pre ++ r :: post := by simpa using heq
    obtain ⟨tree, htree⟩ := Option.isSome_iff_exists.mp (h.appends pre r post hsplit)
    rw [treeAfter_concat, htree, Option.getD_some, appendWithdrawalLeaf_count htree, ih hsplit,
      length_append]
    rfl

/-- Withdrawal ids count up from the leaves already in the tree. -/
theorem ids_nodup (h : NewDecentralized E s d) :
    (d.decentralizedWithdrawalsAdded.map (·.withdrawal.withdrawalId)).Nodup := by
  rw [← forall_split_iff_nodup]
  rintro pre r post heq hmem
  obtain ⟨r', hr', hid⟩ := mem_map.mp hmem
  obtain ⟨pre', post', rfl⟩ := append_of_mem hr'
  have heq' : d.decentralizedWithdrawalsAdded = pre' ++ r' :: (post' ++ r :: post) := by
    simpa using heq
  rw [h.withdrawalId _ _ _ heq, h.withdrawalId _ _ _ heq', h.count_treeAfter heq,
    h.count_treeAfter heq', length_append, length_cons] at hid
  omega

end NewDecentralized

/-! ## The undo -/

/-- What the undo relies on in the state a block is connected to. -/
structure Sound (s : BridgeState) : Prop where
  minted_pos : ∀ key amount, s.epochMinted.find? key = some amount → 0 < amount
  floor : ∀ f, s.lightClientFloor = some f →
    0 ≤ s.connectedHeight ∧ f.connection.height ≤ s.connectedHeight

theorem Sound.empty (keccak : Codec.Bytes → Uint256) : Sound (.empty keccak) :=
  ⟨fun _ _ h => (by cases h), fun _ h => (by cases h)⟩

theorem Sound.minted_nonneg (h : Sound s) (key : EpochKey) : 0 ≤ s.minted key := by
  unfold BridgeState.minted
  cases hf : s.epochMinted.find? key with
  | none => exact le_rfl
  | some amount => exact (h.minted_pos key amount hf).le

namespace Connects

section

variable (h : Connects E s d) (hs : Sound s)

include h hs

theorem height_of_floor {f : BridgeLightClientSnapshot}
    (hf : s.lightClientFloor = some f) : f.connection.height < d.height := by
  obtain ⟨hpos, hle⟩ := hs.floor f hf
  rw [h.tip.next hpos]
  omega

theorem sound : Sound (s.connect d) := by
  constructor
  · intro key amount hf
    rw [connect_eq] at hf
    by_cases hk : key ∈ d.epochMintChanges.map (·.key)
    · obtain ⟨c, hc, rfl⟩ := mem_map.mp hk
      rw [find?_insertAll_map h.epochs.keys hc] at hf
      cases hf
      have hb := hs.minted_nonneg c.key
      rw [← h.epochs.before c hc] at hb
      exact lt_of_le_of_lt hb (h.epochs.grows c hc)
    · rw [find?_insertAll_of_notMem (by simpa using hk)] at hf
      exact hs.minted_pos key amount hf
  · intro f hf
    rw [connect_eq] at hf ⊢
    refine ⟨h.tip.height, ?_⟩
    rcases h.lightClient with hk | hm
    · simp only [hk.lightClientChanged] at hf
      exact (h.height_of_floor hs hf).le
    · obtain ⟨store, hstore⟩ := Option.isSome_iff_exists.mp hm.after
      simp only [hm.lightClientChanged, hstore, hm.connectionAfter] at hf
      rcases hfloor : s.lightClientFloor with _ | f'
      · rw [hfloor] at hf
        cases hf
        exact le_rfl
      · rw [hfloor] at hf
        cases hf
        exact (h.height_of_floor hs hfloor).le

/-- The entry that made the floor is the one that removes it. -/
theorem undo_floor : ((s.connect d).undo d).lightClientFloor = s.lightClientFloor := by
  rw [undo_eq, connect_eq]
  rcases h.lightClient with hk | hm
  · simp [hk.lightClientChanged]
  · obtain ⟨store, hstore⟩ := Option.isSome_iff_exists.mp hm.after
    cases hfloor : s.lightClientFloor with
    | none => simp [hm.lightClientChanged, hstore, hm.connectionAfter]
    | some f =>
      have hne : f.connection ≠ d.connection := by
        intro heq
        have := h.height_of_floor hs hfloor
        rw [heq] at this
        exact lt_irrefl _ this
      simp [hm.connectionAfter, hne]

theorem undo_connect : (s.connect d).undo d = s := by
  refine BridgeState.ext ?_ ?_ (h.undo_floor hs) ?_ ?_ ?_ ?_ ?_ ?_ ?_ ?_ ?_ ?_ ?_ ?_
  all_goals rw [undo_eq, connect_eq]
  · rcases h.lightClient with hk | hm
    · simp [hk.lightClientChanged]
    · simp [hm.lightClientChanged, hm.before]
  · rcases h.lightClient with hk | hm
    · simp [hk.lightClientChanged]
    · simp [hm.lightClientChanged, hm.connectionBefore]
  · exact eraseAll_emplaceAll h.anchors.newHash
  · exact eraseAll_emplaceAll h.anchors.newNumber
  · refine Finset.union_sdiff_cancel_right (Finset.disjoint_right.mpr fun k hk => ?_)
    exact h.mints.newNullifier k (mem_toFinset.mp hk)
  · have := eraseAll_emplaceAll (f := id) (g := fun _ => d.connection)
      h.mints.newConnection
    rwa [map_id] at this
  · exact restore_insertAll h.epochs.keys (fun k v hv => (hs.minted_pos k v hv).ne')
      h.epochs.before
  · exact eraseAll_emplaceAll h.withdrawals.new
  · exact eraseAll_emplaceAll h.decentralized.newId
  · exact eraseAll_emplaceAll h.decentralized.newSource
  · exact h.decentralized.treeBefore
  · have hnew : ∀ k ∈ [d.height], s.withdrawalRoots.find? k = none := by
      simpa using h.decentralized.newRoot
    exact eraseAll_emplaceAll (f := id) (g := fun _ => d.withdrawalTreeAfter.root) hnew
  · exact h.tip.previousHeight
  · exact h.tip.previousBlockHash

end

theorem checkUndo (h : Connects E s d) : (s.connect d).checkUndo d = .ok () := by
  rw [connect_eq]
  simp only [BridgeState.checkUndo, BridgeState.checkUndoTree, Bind.bind, seq_eq_ok, reject_eq_ok,
    any_reverse, any_eq_true, not_exists, not_and, Bool.or_eq_true, decide_eq_true_eq,
    not_or, ne_eq, not_not, not_true_eq_false, not_false_eq_true, true_and]
  refine ⟨?_, fun r hr => ⟨?_, ?_⟩, fun r hr => ?_, fun c hc => ?_, fun k hk => ⟨?_, ?_⟩,
    fun a ha => ⟨?_, ?_⟩, fun hlc => ?_⟩
  · simp [find?_emplace, h.decentralized.newRoot]
  · exact find?_emplaceAll_map (f := fun r => r.withdrawal.withdrawalId)
      h.decentralized.ids_nodup hr (h.decentralized.newId r hr)
  · exact find?_emplaceAll_map h.decentralized.sources hr
      (h.decentralized.newSource r hr)
  · exact find?_emplaceAll_map h.withdrawals.ids_nodup hr (h.withdrawals.new r hr)
  · exact find?_insertAll_map h.epochs.keys hc
  · exact Finset.mem_union_right _ (mem_toFinset.mpr hk)
  · exact find?_emplaceAll_map (f := id) (by simpa using h.mints.listed) hk
      (h.mints.newConnection k hk)
  · exact find?_emplaceAll_map h.anchors.hashes ha (h.anchors.newHash a ha)
  · exact find?_emplaceAll_map h.anchors.numbers ha (h.anchors.newNumber a ha)
  · rcases h.lightClient with hk | hm
    · rw [hk.lightClientChanged] at hlc
      cases hlc
    · simp [hlc, Option.isSome_iff_ne_none.mp hm.after, hm.connectionAfter, sameOptionalStore_iff]

end Connects

/-! ## The index -/

namespace BridgeStateIndex

/-- `ConnectBlock`: the checks decide, and the writes are made together. -/
theorem connectBlock_eq (d : BridgeBlockDelta) (i : BridgeStateIndex) : connectBlock E d i =
    match i.state.checkConnect E d with
    | .ok () => (.ok (), ⟨i.state.connect d, remember i.history d⟩)
    | .error e => (.error e, i) := by
  unfold connectBlock
  cases hc : i.state.checkConnect E d with
  | error e => simp [Bind.bind, Proc.read, compute, fail, hc]
  | ok u => simp [Bind.bind, Proc.read, compute, writeState, Pure.pure, hc, BridgeState.connect]

theorem disconnectBlock_eq (height : Int) (blockHash : Uint256) (i : BridgeStateIndex) :
    disconnectBlock height blockHash i =
    match i.retainedUndo height blockHash with
    | .error e => (.error e, i)
    | .ok d =>
      match i.state.checkUndo d with
      | .ok () => (.ok (), ⟨i.state.undo d, i.history.dropLast⟩)
      | .error e => (.error e, i) := by
  unfold disconnectBlock
  cases hr : i.retainedUndo height blockHash with
  | error e => simp [Bind.bind, Proc.read, compute, fail, hr]
  | ok d =>
    cases hc : i.state.checkUndo d with
    | error e => simp [Bind.bind, Proc.read, compute, fail, Pure.pure, hr, hc]
    | ok u => simp [Bind.bind, Proc.read, compute, writeState, Pure.pure, hr, hc, BridgeState.undo]

theorem connectBlock_ok {i j : BridgeStateIndex} (h : connectBlock E d i = (.ok (), j)) :
    Connects E i.state d ∧ j = ⟨i.state.connect d, remember i.history d⟩ := by
  rw [connectBlock_eq] at h
  cases hc : i.state.checkConnect E d with
  | error e =>
    rw [hc] at h
    cases h
  | ok u =>
    rw [hc] at h
    cases h
    exact ⟨checkConnect_ok.mp hc, rfl⟩

theorem disconnectBlock_ok {i j : BridgeStateIndex} {height : Int} {blockHash : Uint256}
    (h : disconnectBlock height blockHash i = (.ok (), j)) :
    ∃ d, i.history.getLast? = some d ∧ j = ⟨i.state.undo d, i.history.dropLast⟩ := by
  rw [disconnectBlock_eq] at h
  cases hr : i.retainedUndo height blockHash with
  | error e =>
    rw [hr] at h
    cases h
  | ok d =>
    cases hc : i.state.checkUndo d with
    | error e =>
      simp only [hr, hc] at h
      cases h
    | ok u =>
      simp only [hr, hc] at h
      cases h
      simp only [retainedUndo, Bind.bind, bind_eq_ok, demand_eq_ok] at hr
      obtain ⟨-, -, d', hd', -, -, hdd⟩ := hr
      cases hdd
      exact ⟨d, hd', rfl⟩

end BridgeStateIndex

/-- The calls that change the index. -/
inductive IndexCall where
  | connect (delta : BridgeBlockDelta)
  | disconnect (height : Int) (blockHash : Uint256)
  | clear

def IndexCall.perform (E : BridgeEnv) : IndexCall → Proc String BridgeStateIndex Unit
  | .connect delta => connectBlock E delta
  | .disconnect height blockHash => disconnectBlock height blockHash
  | .clear => write fun _ => .empty E.keccak

def Reachable (E : BridgeEnv) : BridgeStateIndex → Prop :=
  Reach (· = .empty E.keccak) fun i j => ∃ call : IndexCall, j = (call.perform E i).2

/-- A refused call leaves the index as it was. -/
theorem IndexCall.perform_allOrNothing (call : IndexCall) : AllOrNothing (call.perform E) := by
  intro i e h
  cases call with
  | connect d =>
    simp only [perform, connectBlock_eq] at h ⊢
    split at h
    · cases h
    · simp
  | disconnect height blockHash =>
    simp only [perform, disconnectBlock_eq] at h ⊢
    split at h
    · simp
    · split at h
      · cases h
      · simp
  | clear => cases h

section

variable {i j : BridgeStateIndex} {e : String}

theorem BridgeStateIndex.connectBlock_error (h : connectBlock E d i = (.error e, j)) : j = i := by
  have := (IndexCall.connect d).perform_allOrNothing (E := E) i e (by rw [IndexCall.perform, h])
  rwa [IndexCall.perform, h] at this

theorem BridgeStateIndex.disconnectBlock_error {height : Int} {blockHash : Uint256}
    (h : disconnectBlock height blockHash i = (.error e, j)) : j = i := by
  rw [disconnectBlock_eq] at h
  split at h
  · cases h
    rfl
  · split at h
    · cases h
    · cases h
      rfl

end

/-! ## Chains -/

section Chains

variable {β : Type} {δ : β → BridgeBlockDelta} {P : BridgeState → β → Prop}

/-- A state made from the empty one by connecting the effects `δ b` of blocks `b` that
satisfy `P`, tip first. -/
inductive Built (E : BridgeEnv) (δ : β → BridgeBlockDelta) (P : BridgeState → β → Prop) :
    List β → BridgeState → Prop
  | empty : Built E δ P [] (.empty E.keccak)
  | connect {bs : List β} {s : BridgeState} {b : β} :
      Built E δ P bs s → P s b → Connects E s (δ b) → Built E δ P (b :: bs) (s.connect (δ b))

theorem Built.sound {bs : List β} (h : Built E δ P bs s) : Sound s := by
  induction h with
  | empty => exact .empty E.keccak
  | connect _ _ hc ih => exact hc.sound ih

theorem Built.forall_mem {bs : List β} {Q : β → Prop} (h : Built E δ P bs s)
    (hQ : ∀ s b, P s b → Connects E s (δ b) → Q b) : ∀ b ∈ bs, Q b := by
  induction h with
  | empty => simp
  | connect _ hP hc ih => exact forall_mem_cons.mpr ⟨hQ _ _ hP hc, ih⟩

theorem Built.tip {bs : List β} {b : β} {t : BridgeState} (h : Built E δ P (b :: bs) t) :
    ∃ s, t = s.connect (δ b) ∧ Built E δ P bs s ∧ Connects E s (δ b) := by
  cases h with
  | connect hb _ hc => exact ⟨_, rfl, hb, hc⟩

/-- The recorded roots are roots of trees, never null. -/
theorem Built.roots_ne_zero (hne : ∀ b, E.keccak b ≠ 0) {bs : List β} (h : Built E δ P bs s) :
    s.withdrawalTree.root ≠ 0 ∧
      ∀ height root, s.withdrawalRoots.find? height = some root → root ≠ 0 := by
  induction h with
  | empty => exact ⟨hne _, fun _ _ h => by cases h⟩
  | @connect bs s b _ _ hc ih =>
    have hroot : (δ b).withdrawalTreeAfter.root ≠ 0 := by
      rw [hc.decentralized.treeAfter]
      exact treeAfter_root_ne_zero hne ih.1 _
    rw [connect_eq]
    refine ⟨hroot, fun height root hfind => ?_⟩
    rw [find?_emplace, Option.or_eq_some_iff] at hfind
    rcases hfind with hold | ⟨-, hnew⟩
    · exact ih.2 height root hold
    · split_ifs at hnew
      cases hnew
      exact hroot

/-- The index of a chain: its history is the end of the chain. -/
structure Retained (E : BridgeEnv) (δ : β → BridgeBlockDelta) (P : BridgeState → β → Prop)
    (i : BridgeStateIndex) (bs : List β) : Prop where
  built : Built E δ P bs i.state
  history : i.history.reverse <+: bs.map δ

namespace Retained

variable {i j : BridgeStateIndex} {bs : List β}

theorem empty : Retained E δ P (.empty E.keccak) [] := ⟨.empty, prefix_rfl⟩

theorem connectBlock {b : β} (h : Retained E δ P i bs)
    (hcall : connectBlock E (δ b) i = (.ok (), j)) (hP : P i.state b) :
    Retained E δ P j (b :: bs) := by
  obtain ⟨hc, rfl⟩ := connectBlock_ok hcall
  refine ⟨h.built.connect hP hc, ?_⟩
  have hall : (i.history ++ [δ b]).reverse <+: δ b :: bs.map δ := by
    rw [reverse_append, reverse_singleton, singleton_append]
    exact (prefix_cons_inj _).mpr h.history
  unfold remember
  split
  · exact (List.reverse_prefix.mpr (tail_suffix _)).trans hall
  · exact hall

/-- The last retained undo is that of the tip of the chain. -/
theorem disconnectBlock {height : Int} {blockHash : Uint256} (h : Retained E δ P i bs)
    (hcall : disconnectBlock height blockHash i = (.ok (), j)) :
    Retained E δ P j bs.tail := by
  obtain ⟨d, hd, rfl⟩ := disconnectBlock_ok hcall
  obtain ⟨older, hsplit⟩ := getLast?_eq_some_iff.mp hd
  have hpre := h.history
  rw [hsplit, reverse_append, reverse_singleton, singleton_append] at hpre
  cases bs with
  | nil => exact absurd (prefix_nil.mp hpre) (cons_ne_nil _ _)
  | cons b bs =>
    obtain ⟨rfl, hrest⟩ := cons_prefix_cons.mp hpre
    obtain ⟨s, hs, hb, hc⟩ := h.built.tip
    refine ⟨?_, ?_⟩
    · rw [hs, hc.undo_connect hb.sound]
      exact hb
    · rw [hsplit, dropLast_concat]
      exact hrest

end Retained

end Chains

/-- Whatever was called, the index is that of a chain. -/
theorem Reachable.retained {i : BridgeStateIndex} (h : Reachable E i) :
    ∃ ds, Retained E id (fun _ _ => True) i ds := by
  refine Reach.invariant (P := fun i => ∃ ds, Retained E id (fun _ _ => True) i ds) ?_ ?_ h
  · rintro i rfl
    exact ⟨[], .empty⟩
  · rintro i j ⟨ds, hr⟩ ⟨call, rfl⟩
    cases hcall : (call.perform E i).1 with
    | error e =>
      rw [call.perform_allOrNothing i e hcall]
      exact ⟨ds, hr⟩
    | ok u =>
      have hok : call.perform E i = (.ok (), (call.perform E i).2) := Prod.ext hcall rfl
      cases call with
      | connect d => exact ⟨d :: ds, hr.connectBlock hok trivial⟩
      | disconnect height blockHash => exact ⟨ds.tail, hr.disconnectBlock hok⟩
      | clear => exact ⟨[], .empty⟩

namespace BridgeStateIndex

/-- The oldest undo falls out when the history is full. -/
theorem remember_eq (history : List BridgeBlockDelta) : remember history d =
    (if history.length < BRIDGE_STATE_UNDO_BLOCKS then history else history.tail) ++ [d] := by
  unfold remember
  cases history with
  | nil => rfl
  | cons oldest rest =>
    simp only [length_append, length_cons, length_nil, gt_iff_lt, cons_append,
      tail_cons]
    split_ifs <;> first | rfl | omega

theorem retainedUndo_tip {i : BridgeStateIndex} (hd : i.history.getLast? = some d)
    (hheight : i.state.connectedHeight = d.height) (hhash : i.state.connectedHash = d.blockHash) :
    i.retainedUndo d.height d.blockHash = .ok d := by
  simp only [retainedUndo, Bind.bind, bind_eq_ok, reject_eq_ok, demand_eq_ok]
  exact ⟨(), by simp [hheight, hhash], d, hd, (), by simp, rfl⟩

end BridgeStateIndex

/-- Connecting and then disconnecting a block gives back every part of the index, down to
the undo entries the retention bound drops; a refused call changes nothing. -/
theorem disconnect_connect {i : BridgeStateIndex} (hi : Reachable E i) :
    (∀ (d : BridgeBlockDelta) (j : BridgeStateIndex),
      connectBlock E d i = (.ok (), j) →
      disconnectBlock d.height d.blockHash j = (.ok (), { i with history :=
        if i.history.length < BRIDGE_STATE_UNDO_BLOCKS then i.history else i.history.tail })) ∧
    ∀ (call : IndexCall) (e : String) (j : BridgeStateIndex),
      call.perform E i = (.error e, j) → j = i := by
  constructor
  · intro d j hcall
    obtain ⟨ds, hr⟩ := hi.retained
    obtain ⟨hc, rfl⟩ := connectBlock_ok hcall
    rw [remember_eq, disconnectBlock_eq,
      retainedUndo_tip (by simp) rfl rfl]
    simp [hc.checkUndo, hc.undo_connect hr.built.sound]
  · intro call e j hcall
    have := call.perform_allOrNothing i e (by rw [hcall])
    rwa [hcall] at this

/-- A checkpoint at slot 64 with execution block 100. -/
def sampleCheckpoint : BridgeBootstrapV1 where
  header :=
    { beacon := { slot := 64 }
      execution := { blockNumber := 100, blockHash := 11, receiptsRoot := 12 }
      executionBranch := List.replicate 4 0 }
  currentCommittee := ⟨List.replicate SYNC_COMMITTEE_SIZE 0, 0⟩
  currentCommitteeBranch := List.replicate 5 0

/-- The log of a deposit of forty units to a key hash of ones. -/
def sampleLog : EthLog where
  address := 10
  topics := [0, 3, 11]
  data := List.replicate 31 0 ++ 40 :: List.replicate 11 0 ++ List.replicate 21 1

/-- Hashes and signatures that accept everything. There are two records, the checkpoint and the
mint of the deposit, which every proof of a receipt shows. -/
def sampleEnv : BridgeEnv where
  hashPair _ _ := 0
  beaconRoot header := header.slot
  executionRoot _ := 0
  committeeRoot _ := 0
  signingRoot _ _ root := root
  publicKeyDecodes _ := true
  signatureDecodes _ := true
  fastAggregateVerify _ _ _ := true
  parseHeader _ := some (⟨100, 11, 12⟩, 0)
  headerTimestamp _ := none
  verifyMptProof _ _ _ := some []
  decodeReceipt _ := some ⟨true, [sampleLog]⟩
  depositTopic := 0
  chainDomain _ _ := 1
  assetId _ _ := 7
  registryId _ _ := 8
  keccak _ := 5
  txid tx := tx.vout.length + 1
  ptxid tx := tx.vout.length + 1
  decodeRecord r := some <|
    if r.payload = [] then .bootstrap sampleCheckpoint else .mint ⟨8, 1, 11, 100, 0, 0, [[]], []⟩
  bindingOutput r := some ⟨0, r.payload⟩
  isBindingCell script := script.length ≤ 1
  makeAssetOwnerOutput _ amount script := some ⟨amount, script⟩
  makeAssetBurnOutput _ _ := none

/-- A block with one anchor and one mint of forty units. -/
def sampleDelta : BridgeBlockDelta where
  height := 3
  blockHash := 9
  anchorsAdded := [⟨100, 11, 12, 5, 100, 0, 3, 9⟩]
  mintAuthorizations := [⟨21, 0, ⟨7, 40, [1], ⟨1, 2, 3⟩⟩⟩]
  nullifiersAdded := [⟨1, 2, 3⟩]
  epochMintChanges := [⟨7, 0, 0, 40⟩]
  withdrawalTreeBefore := .empty sampleEnv.keccak
  withdrawalTreeAfter := .empty sampleEnv.keccak

theorem sampleDelta_undone : disconnectBlock 3 9
      (connectBlock sampleEnv sampleDelta (.empty sampleEnv.keccak)).2 =
      (.ok (), .empty sampleEnv.keccak) :=
  (disconnect_connect (.start rfl)).1 sampleDelta _ rfl

end B3Coin.Bridge
