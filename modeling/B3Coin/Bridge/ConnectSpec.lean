import B3Coin.Bridge.Connect
import Mathlib.Tactic.MkIffOfInductiveProp

/-!
# What connects

`Connects E s d` says what the checks of `ConnectBlock` come to, one structure for each
group of checks and one field for each condition.
-/
namespace B3Coin.Bridge

open Guards Proc OrderedMap

variable {E : BridgeEnv} {s : BridgeState} {d : BridgeBlockDelta}

/-! ## The checks as properties -/

@[mk_iff] structure ExtendsTip (s : BridgeState) (d : BridgeBlockDelta) : Prop where
  height : 0 ≤ d.height
  blockHash : d.blockHash ≠ 0
  previousHeight : d.previousHeight = s.connectedHeight
  previousBlockHash : d.previousBlockHash = s.connectedHash
  next : 0 ≤ s.connectedHeight → d.height = s.connectedHeight + 1

/-- Nothing of the light client is touched. -/
structure KeepsLightClient (d : BridgeBlockDelta) : Prop where
  before : d.lightClientBefore = none
  after : d.lightClientAfter = none
  connectionBefore : d.lightClientConnectionBefore = none
  connectionAfter : d.lightClientConnectionAfter = none

structure MovesLightClient (s : BridgeState) (d : BridgeBlockDelta) : Prop where
  after : d.lightClientAfter.isSome = true
  before : d.lightClientBefore = s.lightClient
  changed : d.lightClientBefore ≠ d.lightClientAfter
  connectionBefore : d.lightClientConnectionBefore = s.lightClientConnection
  connectionAfter : d.lightClientConnectionAfter = some d.connection
  window : BridgeState.advanceTooFar d = false

theorem KeepsLightClient.lightClientChanged (h : KeepsLightClient d) :
    d.lightClientChanged = false := by
  simp [BridgeBlockDelta.lightClientChanged, h.before, h.after]

theorem MovesLightClient.lightClientChanged (h : MovesLightClient s d) :
    d.lightClientChanged = true := by
  simp [BridgeBlockDelta.lightClientChanged, h.after]

@[mk_iff] structure NewAnchors (s : BridgeState) (d : BridgeBlockDelta) : Prop where
  blockHash : ∀ a ∈ d.anchorsAdded, a.blockHash ≠ 0
  receiptsRoot : ∀ a ∈ d.anchorsAdded, a.receiptsRoot ≠ 0
  origin : ∀ a ∈ d.anchorsAdded, hasValidBackfillOrigin a = true
  connectedHeight : ∀ a ∈ d.anchorsAdded, a.connectedHeight = d.height
  connectedBlock : ∀ a ∈ d.anchorsAdded, a.connectedBlock = d.blockHash
  newHash : ∀ a ∈ d.anchorsAdded, s.anchors.find? a.blockHash = none
  newNumber : ∀ a ∈ d.anchorsAdded, s.anchorByHeight.find? a.blockNumber = none
  hashes : (d.anchorsAdded.map (·.blockHash)).Nodup
  numbers : (d.anchorsAdded.map (·.blockNumber)).Nodup

@[mk_iff] structure NewMints (s : BridgeState) (d : BridgeBlockDelta) : Prop where
  transactionId : ∀ a ∈ d.mintAuthorizations, a.transactionId ≠ 0
  asset : ∀ a ∈ d.mintAuthorizations, a.authorization.asset ≠ 0
  amount : ∀ a ∈ d.mintAuthorizations, 0 < a.authorization.amount
  amount_le : ∀ a ∈ d.mintAuthorizations, a.authorization.amount ≤ MAX_MONEY
  recipientScript : ∀ a ∈ d.mintAuthorizations, a.authorization.recipientScript ≠ []
  transactions : (d.mintAuthorizations.map (·.transactionId)).Nodup
  authorized : d.authorizedNullifiers.Nodup
  sum_le : ∀ pre a post, d.mintAuthorizations = pre ++ a :: post →
    (pre.map (·.authorization.amount)).sum + a.authorization.amount ≤ MAX_MONEY
  listed : d.nullifiersAdded.Nodup
  newNullifier : ∀ k ∈ d.nullifiersAdded, k ∉ s.nullifiers
  newConnection : ∀ k ∈ d.nullifiersAdded, s.nullifierConnections.find? k = none
  same : d.nullifiersAdded.toFinset = d.authorizedNullifiers.toFinset

@[mk_iff] structure NewEpochs (s : BridgeState) (d : BridgeBlockDelta) : Prop where
  asset : ∀ c ∈ d.epochMintChanges, c.asset ≠ 0
  before : ∀ c ∈ d.epochMintChanges, c.before = s.minted c.key
  grows : ∀ c ∈ d.epochMintChanges, c.before < c.after
  after_le : ∀ c ∈ d.epochMintChanges, c.after ≤ MAX_MONEY
  keys : (d.epochMintChanges.map (·.key)).Nodup
  sum_le : ∀ pre c post, d.epochMintChanges = pre ++ c :: post →
    (pre.map fun x => x.after - x.before).sum + (c.after - c.before) ≤ MAX_MONEY
  total : d.changedAmount = d.authorizedAmount

@[mk_iff] structure NewWithdrawals (s : BridgeState) (d : BridgeBlockDelta) : Prop where
  transactionId : ∀ r ∈ d.withdrawalsAdded, r.transactionId ≠ 0
  asset : ∀ r ∈ d.withdrawalsAdded, r.asset ≠ 0
  amount : ∀ r ∈ d.withdrawalsAdded, 0 < r.amount
  amount_le : ∀ r ∈ d.withdrawalsAdded, r.amount ≤ MAX_MONEY
  recipient : ∀ r ∈ d.withdrawalsAdded, r.ethereumRecipient ≠ 0
  connectedHeight : ∀ r ∈ d.withdrawalsAdded, r.connectedHeight = d.height
  connectedBlock : ∀ r ∈ d.withdrawalsAdded, r.connectedBlock = d.blockHash
  transactions : (d.withdrawalsAdded.map (·.transactionId)).Nodup
  new : ∀ r ∈ d.withdrawalsAdded, s.withdrawals.find? r.id = none

/-- The tree after some of the new leaves. -/
def treeAfter (E : BridgeEnv) (tree : WithdrawalTreeState)
    (rs : List BridgeDecentralizedWithdrawalRequest) : WithdrawalTreeState :=
  rs.foldl (fun t r => (appendWithdrawalLeaf E.keccak t r.leaf).getD t) tree

theorem treeAfter_root_ne_zero (hne : ∀ b, E.keccak b ≠ 0) {tree : WithdrawalTreeState}
    (htree : tree.root ≠ 0) (rs : List BridgeDecentralizedWithdrawalRequest) :
    (treeAfter E tree rs).root ≠ 0 := by
  induction rs generalizing tree with
  | nil => exact htree
  | cons r rs ih =>
    refine ih ?_
    dsimp only
    cases h : appendWithdrawalLeaf E.keccak tree r.leaf with
    | none => exact htree
    | some tree' => exact appendWithdrawalLeaf_root_ne_zero hne h

theorem treeAfter_concat (tree : WithdrawalTreeState)
    (rs : List BridgeDecentralizedWithdrawalRequest) (r : BridgeDecentralizedWithdrawalRequest) :
    treeAfter E tree (rs ++ [r]) =
      (appendWithdrawalLeaf E.keccak (treeAfter E tree rs) r.leaf).getD (treeAfter E tree rs) := by
  simp [treeAfter]

@[mk_iff] structure NewDecentralized (E : BridgeEnv) (s : BridgeState) (d : BridgeBlockDelta) : Prop where
  treeBefore : d.withdrawalTreeBefore = s.withdrawalTree
  transactionId : ∀ r ∈ d.decentralizedWithdrawalsAdded, r.transactionId ≠ 0
  withdrawalId : ∀ pre r post, d.decentralizedWithdrawalsAdded = pre ++ r :: post →
    r.withdrawal.withdrawalId = (treeAfter E s.withdrawalTree pre).count
  b3Height : ∀ r ∈ d.decentralizedWithdrawalsAdded, r.withdrawal.b3Height = d.height.toNat
  connectedHeight : ∀ r ∈ d.decentralizedWithdrawalsAdded, r.connectedHeight = d.height
  connectedBlock : ∀ r ∈ d.decentralizedWithdrawalsAdded, r.connectedBlock = d.blockHash
  leaf : ∀ r ∈ d.decentralizedWithdrawalsAdded,
    bridgeWithdrawalLeafV1 E.keccak r.withdrawal = some r.leaf
  unmanaged : ∀ r ∈ d.decentralizedWithdrawalsAdded,
    r.transactionId ∉ d.withdrawalsAdded.map (·.transactionId)
  transactions : (d.decentralizedWithdrawalsAdded.map (·.transactionId)).Nodup
  sources : (d.decentralizedWithdrawalsAdded.map (·.source)).Nodup
  newSource : ∀ r ∈ d.decentralizedWithdrawalsAdded,
    s.decentralizedWithdrawalSources.find? r.source = none
  newId : ∀ r ∈ d.decentralizedWithdrawalsAdded,
    s.decentralizedWithdrawals.find? r.withdrawal.withdrawalId = none
  appends : ∀ pre r post, d.decentralizedWithdrawalsAdded = pre ++ r :: post →
    (appendWithdrawalLeaf E.keccak (treeAfter E s.withdrawalTree pre) r.leaf).isSome = true
  treeAfter : d.withdrawalTreeAfter =
    Bridge.treeAfter E s.withdrawalTree d.decentralizedWithdrawalsAdded
  newRoot : s.withdrawalRoots.find? d.height = none

/-- Everything `ConnectBlock` checks. -/
@[mk_iff] structure Connects (E : BridgeEnv) (s : BridgeState) (d : BridgeBlockDelta) : Prop where
  tip : ExtendsTip s d
  lightClient : KeepsLightClient d ∨ MovesLightClient s d
  anchors : NewAnchors s d
  mints : NewMints s d
  epochs : NewEpochs s d
  withdrawals : NewWithdrawals s d
  decentralized : NewDecentralized E s d

namespace BridgeState

theorem checkIdentity_ok : s.checkIdentity d = .ok () ↔ ExtendsTip s d := by
  simp [checkIdentity, Bind.bind, bind_eq_ok, reject_eq_ok, extendsTip_iff, and_assoc]

theorem lightClientChanged_eq_false : d.lightClientChanged = false ↔
    d.lightClientBefore = none ∧ d.lightClientAfter = none := by
  simp [BridgeBlockDelta.lightClientChanged]

theorem lightClientConnectionChanged_eq_false : d.lightClientConnectionChanged = false ↔
    d.lightClientConnectionBefore = none ∧ d.lightClientConnectionAfter = none := by
  simp [BridgeBlockDelta.lightClientConnectionChanged]

theorem checkLightClient_ok :
    s.checkLightClient d = .ok () ↔ KeepsLightClient d ∨ MovesLightClient s d := by
  cases hlc : d.lightClientChanged with
  | false =>
    simp only [checkLightClient, hlc, Bind.bind, seq_eq_ok, reject_eq_ok, ne_eq, not_not,
      Bool.false_eq_true, if_false, and_true]
    rw [eq_comm, lightClientConnectionChanged_eq_false]
    obtain ⟨hb, ha⟩ := lightClientChanged_eq_false.mp hlc
    constructor
    · rintro ⟨hcb, hca⟩
      exact .inl ⟨hb, ha, hcb, hca⟩
    · rintro (h | h)
      · exact ⟨h.connectionBefore, h.connectionAfter⟩
      · rw [h.lightClientChanged] at hlc
        cases hlc
  | true =>
    simp only [checkLightClient, hlc, Bind.bind, seq_eq_ok, reject_eq_ok, ne_eq, not_not, not_or,
      if_true, Bool.not_eq_true, Bool.not_eq_false', sameOptionalStore_iff]
    constructor
    · rintro ⟨-, ⟨h1, h2, h3, h4, h5⟩, h6⟩
      exact .inr ⟨Option.isSome_iff_ne_none.mpr h1, h2.symm, h3, h4, h5, h6⟩
    · rintro (h | h)
      · rw [h.lightClientChanged] at hlc
        cases hlc
      · have hc : d.lightClientConnectionChanged = true := by
          simp [BridgeBlockDelta.lightClientConnectionChanged, h.connectionAfter]
        exact ⟨hc.symm, ⟨Option.isSome_iff_ne_none.mp h.after, h.before.symm, h.changed,
          h.connectionBefore, h.connectionAfter⟩, h.window⟩

theorem checkAnchors_ok : s.checkAnchors d = .ok () ↔ NewAnchors s d := by
  simp only [checkAnchors, scan_eq_ok, badAnchor, Bool.or_eq_false_iff, decide_eq_false_iff_not,
    contains_eq_false, imp_and, forall_and, forall_split_iff_mem,
    forall_split_iff_nodup, ne_eq, not_not, Bool.not_eq_false', newAnchors_iff, and_assoc]

theorem checkMints_ok : s.checkMints d = .ok () ↔ NewMints s d := by
  simp only [checkMints, Bind.bind, bind_eq_ok, reject_eq_ok, scan_eq_ok, badMint,
    Bool.or_eq_false_iff, decide_eq_false_iff_not, contains_eq_false, imp_and,
    forall_and, forall_split_iff_mem, forall_split_iff_nodup, forall_split_iff_nodup_self, ne_eq,
    not_not, not_le, not_lt, gt_iff_lt, List.isEmpty_eq_false_iff, le_sub_iff_add_le,
    exists_const, newMints_iff, and_assoc]
  rfl

theorem checkEpochs_ok : s.checkEpochs d = .ok () ↔ NewEpochs s d := by
  simp only [checkEpochs, Bind.bind, bind_eq_ok, reject_eq_ok, scan_eq_ok, badEpochChange,
    Bool.or_eq_false_iff, decide_eq_false_iff_not, imp_and, forall_and, forall_split_iff_mem,
    forall_split_iff_nodup, ne_eq, not_not, not_le, not_lt, gt_iff_lt, le_sub_iff_add_le, exists_const,
    newEpochs_iff, and_assoc]

theorem checkWithdrawals_ok : s.checkWithdrawals d = .ok () ↔ NewWithdrawals s d := by
  simp only [checkWithdrawals, scan_eq_ok, badWithdrawal, Bool.or_eq_false_iff,
    decide_eq_false_iff_not, contains_eq_false, imp_and, forall_and,
    forall_split_iff_mem, forall_split_iff_nodup, ne_eq, not_not, not_le, not_lt, gt_iff_lt,
    newWithdrawals_iff, and_assoc]

theorem foldl_nextDecentralized (tree : WithdrawalTreeState)
    (seen rs : List BridgeDecentralizedWithdrawalRequest) :
    rs.foldl (nextDecentralized E) (tree, seen) = (treeAfter E tree rs, seen ++ rs) := by
  induction rs generalizing tree seen with
  | nil => simp [treeAfter]
  | cons r rs ih =>
    rw [List.foldl_cons, nextDecentralized, ih, treeAfter, treeAfter, List.foldl_cons,
      List.append_assoc, List.singleton_append]

theorem checkDecentralized_ok : s.checkDecentralized E d = .ok () ↔ NewDecentralized E s d := by
  simp only [checkDecentralized, Bind.bind, bind_eq_ok, reject_eq_ok, loop_eq_ok,
    badDecentralized, foldl_nextDecentralized, List.nil_append, Bool.or_eq_false_iff,
    decide_eq_false_iff_not, contains_eq_false, imp_and, forall_and,
    forall_split_iff_mem, forall_split_iff_nodup, ne_eq, not_not, Bool.not_eq_true,
    Option.isNone_eq_false_iff, exists_const, exists_eq_left, newDecentralized_iff, and_assoc]

theorem checkConnect_ok : s.checkConnect E d = .ok () ↔ Connects E s d := by
  simp [checkConnect, Bind.bind, seq_eq_ok, checkIdentity_ok, checkLightClient_ok,
    checkAnchors_ok, checkMints_ok, checkEpochs_ok, checkWithdrawals_ok, checkDecentralized_ok, connects_iff]

end BridgeState

end B3Coin.Bridge
