import B3Coin.FlowMesh.VaultIndexRun
import B3Coin.Lib.BoundedSort

/-!
# The inputs of a withdrawal at an old block

A pool-change output that was unspent at a block is still live or was removed by a
later block, and not both: the two sources of `LargestWithdrawalInputsAt` together
are the records of that block. Its insertion loop keeps the best of them.
-/
open Transition (Run)

namespace B3Coin.FlowMesh.VaultIndex

open Assets (VAULT_KIND_POOL_CHANGE sampleParams)
open Consensus (Params)
open BlockJournal ChainLog NetDelta Reversible SpendLog List BoundedSort
open FlowMeshVaultIndex (better eligible consider removedSince)

/-! ## The order of the inputs -/

section Order

variable {a b c : FlowMeshVaultRecord}

theorem better_iff : better a b = true ↔
    b.amount < a.amount ∨ (a.amount = b.amount ∧ a.outpoint < b.outpoint) := by
  simp [better]

/-- `a` may stand before `b`. -/
def inOrder (a b : FlowMeshVaultRecord) : Prop := better b a = false

instance : DecidableRel inOrder := fun a b => inferInstanceAs (Decidable (better b a = false))

theorem inOrder_iff : inOrder a b ↔
    b.amount < a.amount ∨ (a.amount = b.amount ∧ a.outpoint ≤ b.outpoint) := by
  unfold inOrder
  rw [Bool.eq_false_iff, Ne, better_iff, not_or, not_and, not_lt, not_lt]
  constructor
  · rintro ⟨hle, hout⟩
    rcases hle.lt_or_eq with hlt | heq
    · exact .inl hlt
    · exact .inr ⟨heq.symm, hout heq⟩
  · rintro (hlt | ⟨heq, hout⟩)
    · exact ⟨hlt.le, fun heq => absurd heq hlt.ne⟩
    · exact ⟨heq.ge, fun _ => hout⟩

instance : Std.Total inOrder where
  total a b := by
    rw [inOrder_iff, inOrder_iff]
    rcases lt_trichotomy a.amount b.amount with h | h | h
    · exact .inr (.inl h)
    · rcases le_total a.outpoint b.outpoint with ho | ho
      · exact .inl (.inr ⟨h, ho⟩)
      · exact .inr (.inr ⟨h.symm, ho⟩)
    · exact .inl (.inl h)

instance : IsTrans FlowMeshVaultRecord inOrder where
  trans a b c hab hbc := by
    rw [inOrder_iff] at hab hbc ⊢
    rcases hab with hab | ⟨hab, ho⟩ <;> rcases hbc with hbc | ⟨hbc, ho'⟩
    · exact .inl (hbc.trans hab)
    · exact .inl (hbc ▸ hab)
    · exact .inl (hab ▸ hbc)
    · exact .inr ⟨hab.trans hbc, ho.trans ho'⟩

theorem inOrder_antisymm (hab : inOrder a b) (hba : inOrder b a) : a.outpoint = b.outpoint := by
  rw [inOrder_iff] at hab hba
  rcases hab with hab | ⟨hab, ho⟩ <;> rcases hba with hba | ⟨hba, ho'⟩
  · omega
  · omega
  · omega
  · exact le_antisymm ho ho'

theorem better_of_inOrder (h : inOrder a b) (hne : a.outpoint ≠ b.outpoint) : better a b = true := by
  rw [better_iff]
  rcases inOrder_iff.mp h with h | ⟨h, ho⟩
  · exact .inl h
  · exact .inr ⟨h, lt_of_le_of_ne ho hne⟩

end Order

/-! ## The insertion loop -/

section Loop

variable {v : VaultId} {asset : Uint256} {anchor : BlockInfo} {r : FlowMeshVaultRecord}
variable {selected : List FlowMeshVaultRecord}

theorem eligible_eq_true : eligible v asset anchor r = true ↔
    r.createdHeight ≤ anchor.height ∧ r.vaultId = v ∧ r.asset = asset ∧
      r.kind = VAULT_KIND_POOL_CHANGE ∧ r.account = none ∧ 0 < r.amount ∧ r.amount ≤ MAX_MONEY := by
  simp [eligible, and_assoc]

/-- A new record is put in its place, and the list cut to 64. -/
theorem consider_new (hr : eligible v asset anchor r = true)
    (hnew : ∀ x ∈ selected, x.outpoint ≠ r.outpoint)
    (hlen : selected.length ≤ FLOWMESH_MAX_WITHDRAWAL_VAULT_INPUTS) :
    consider v asset anchor selected r =
      keep inOrder FLOWMESH_MAX_WITHDRAWAL_VAULT_INPUTS selected r := by
  have hbefore : (fun x => !decide (inOrder r x)) = (better · r) := by
    funext x
    by_cases h : better x r = true <;> simp [inOrder, h]
  have hparts := takeWhile_append_dropWhile (p := (better · r)) (l := selected)
  have hdup : ¬ selected.any (·.outpoint == r.outpoint) = true := by simpa using hnew
  unfold consider keep
  rw [if_neg (by simp [hr]), if_neg hdup, orderedInsert_eq_take_drop]
  simp only [decide_not, hbefore]
  have hlength := congrArg List.length hparts
  rw [length_append] at hlength
  split_ifs with hfull hlong
  · rw [hfull.1, append_nil] at hparts
    rw [hparts, take_left' hfull.2]
  · rw [length_append, length_cons] at hlong
    rw [dropLast_eq_take, length_append, length_cons]
    congr 1
    omega
  · exact (take_of_length_le (not_lt.mp hlong)).symm

/-- Over records with different outpoints the loop keeps the best of the eligible ones. -/
theorem foldl_consider (xs : List FlowMeshVaultRecord)
    (hlen : selected.length ≤ FLOWMESH_MAX_WITHDRAWAL_VAULT_INPUTS)
    (hnd : (selected ++ xs.filter (eligible v asset anchor)).Pairwise fun x y =>
      x.outpoint ≠ y.outpoint) :
    xs.foldl (consider v asset anchor) selected =
      (xs.filter (eligible v asset anchor)).foldl
        (keep inOrder FLOWMESH_MAX_WITHDRAWAL_VAULT_INPUTS) selected := by
  induction xs generalizing selected with
  | nil => rfl
  | cons r xs ih =>
    rw [foldl_cons]
    by_cases hr : eligible v asset anchor r = true
    · rw [filter_cons_of_pos hr] at hnd ⊢
      obtain ⟨-, -, hnew⟩ := pairwise_append.mp hnd
      rw [foldl_cons, consider_new hr (fun x hx => hnew x hx r mem_cons_self) hlen]
      refine ih (length_take_le _ _) ?_
      have hsub : (keep inOrder FLOWMESH_MAX_WITHDRAWAL_VAULT_INPUTS selected r ++
          xs.filter (eligible v asset anchor)).Sublist
          (selected.orderedInsert inOrder r ++ xs.filter (eligible v asset anchor)) :=
        (take_sublist _ _).append_right _
      refine List.Pairwise.sublist hsub ?_
      have hperm : (selected.orderedInsert inOrder r ++ xs.filter (eligible v asset anchor)).Perm
          (selected ++ r :: xs.filter (eligible v asset anchor)) :=
        ((perm_orderedInsert inOrder r selected).append_right _).trans perm_middle.symm
      exact (hperm.pairwise_iff fun h => Ne.symm h).mpr hnd
    · rw [filter_cons_of_neg hr] at hnd ⊢
      have hskip : consider v asset anchor selected r = selected := if_pos (by simpa using hr)
      rw [hskip]
      exact ih hlen hnd

end Loop

/-! ## The records of an old block -/

section Sources

variable {E : VaultEnv} {params : Params} {index mid : FlowMeshVaultIndex} {b : Block}
variable {chain older newer : List Block} {r : FlowMeshVaultRecord}

/-- A vault output has an amount, and a pool change no account. -/
theorem readVault_amount {info : BlockInfo} {txid : Uint256} {i : Nat} {out : CTxOut}
    (h : readVault E params info txid i out = .ok (some r)) :
    0 < r.amount ∧ r.amount ≤ MAX_MONEY ∧ (r.kind = VAULT_KIND_POOL_CHANGE → r.account = none) := by
  unfold readVault at h
  split at h
  · cases h
  next hclaims =>
  split at h
  · cases h
  next parsed hview =>
  split at h
  · cases h
  split at h
  · cases h
  next vault hparse =>
  split_ifs at h
  cases h
  have hamount : 1 ≤ parsed.amount ∧ parsed.amount ≤ MAX_MONEY :=
    Assets.parseAssetOutput_amount (Assets.viewAssetAwareOutput_parsed hclaims hview)
  refine ⟨hamount.1, hamount.2, fun hkind => ?_⟩
  exact Assets.parseVaultParams_pool hparse hkind

theorem createdBy_read (h : r ∈ createdBy E params chain) :
    ∃ b ∈ chain, ∃ txid i out, readVault E params b.info txid i out = .ok (some r) := by
  obtain ⟨e, he, hr⟩ := mem_flatMap.mp h
  obtain ⟨b, hb, he⟩ := mem_flatMap.mp he
  obtain ⟨tx, _, rfl⟩ := mem_map.mp he
  obtain ⟨i, out, hread⟩ := mem_vaultEntry hr
  exact ⟨b, mem_reverse.mp hb, E.txid tx, i, out, hread⟩

theorem run_height_le (h : Run (connect E params) {} (b :: older) index) {b' : Block}
    (hb : b' ∈ b :: older) : b'.info.height ≤ b.info.height := by
  rcases mem_cons.mp hb with rfl | hb
  · exact le_rfl
  · exact ((pairwise_cons.mp (journal.heights h)).1 b' hb).le

theorem run_height_nonneg (h : Run (connect E params) {} (b :: older) index) :
    0 ≤ b.info.height := by
  cases h with
  | next hrun hstep =>
    obtain ⟨_, _, _, judged, -, -⟩ := (run_tracks hrun).connect hstep
    exact judged.height_nonneg

theorem run_keyed (h : Run (connect E params) {} chain index) :
    Keyed FlowMeshVaultRecord.outpoint index.live := (run_tracks h).keyed

theorem run_live_read (h : Run (connect E params) {} chain index)
    (hr : r ∈ index.live.entries.map (·.2)) :
    ∃ b ∈ chain, ∃ txid i out, readVault E params b.info txid i out = .ok (some r) := by
  have hfind := (run_keyed h).mem_values.mp hr
  exact createdBy_read (((run_tracks h).holds _ r).mp hfind).2.created

theorem Judged.added_height {delta : FlowMeshVaultBlockDelta} {next : LiveMap} {markets : MarketMap}
    (hj : Judged E params chain index b delta next markets) (h : Tracks E params chain index)
    (hr : r ∈ delta.added) : r.createdHeight = b.info.height := by
  obtain ⟨hnext, hbase⟩ := hj.between.added_iff r hr
  have hunspent := ((hj.holds _ r).mp hnext).2
  rw [chainLog_cons] at hunspent
  rcases hunspent.of_append with hold | hnew
  · rw [(h.holds _ r).mpr ⟨rfl, hold⟩] at hbase
    cases hbase
  · exact (blockLog_valid hnew).height

/-- The records of a block are the live ones and those removed since that were created by then. -/
theorem run_sources (hmid : Run (connect E params) {} (b :: older) mid)
    (hnew : Run (connect E params) mid newer index) :
    ((index.live.entries.map (·.2) ++ index.removedSince b.info).filter
      (·.createdHeight ≤ b.info.height)).Perm (mid.live.entries.map (·.2)) := by
  induction hnew with
  | start =>
    obtain ⟨d, rest, hhist, hinfo, -⟩ := map_eq_cons_iff.mp (journal.blocks hmid)
    have hnone : mid.removedSince b.info = [] := by
      unfold removedSince
      rw [hhist, takeWhile_cons_of_neg (by simp [← hinfo])]
      rfl
    rw [hnone, append_nil, filter_eq_self.mpr]
    intro r hr
    obtain ⟨b', hb', _, _, _, hread⟩ := run_live_read hmid hr
    rw [(readVault_spec hread).2.2.height]
    exact decide_eq_true (run_height_le hmid hb')
  | @next newer index index' top hrun hstep ih =>
    have hlt := journal.height_lt hmid hrun hstep
    have hall := hmid.trans hrun
    have hkeyed := run_keyed (hall.next hstep)
    obtain ⟨delta, next, markets, judged, -, rfl⟩ := (run_tracks hall).connect hstep
    have hsince : removedSince ⟨next, markets, delta :: index.history⟩ b.info =
        delta.removed ++ index.removedSince b.info := by
      unfold removedSince
      rw [takeWhile_cons_of_pos (by simp [judged.height, hlt]), flatMap_cons]
    have hadded : delta.added.filter (·.createdHeight ≤ b.info.height) = [] := by
      refine filter_eq_nil_iff.mpr fun r hr => ?_
      rw [judged.added_height (run_tracks hall) hr]
      simpa using hlt
    have hperm := (judged.between.perm (run_keyed hall) hkeyed).filter
      (fun r => decide (r.createdHeight ≤ b.info.height))
    rw [filter_append, hadded, append_nil] at hperm
    rw [hsince, ← append_assoc, filter_append]
    refine (hperm.symm.append_right _).trans ?_
    rw [← filter_append]
    exact ih

end Sources

/-! ## The query -/

section Query

variable {E : VaultEnv} {params : Params} {index mid : FlowMeshVaultIndex} {b : Block}
variable {older newer : List Block} {v : VaultId} {asset : Uint256}

/-- The pool-change outputs of a vault and asset that the chain leaves unspent, best first. -/
structure WithdrawalRanking (E : VaultEnv) (params : Params) (chain : List Block) (v : VaultId)
    (asset : Uint256) (ranking : List FlowMeshVaultRecord) : Prop where
  sorted : ranking.Pairwise fun a b => better a b = true
  mem_iff : ∀ r, r ∈ ranking ↔
    Unspent FlowMeshVaultRecord.outpoint (chainLog (vaultEntry E params) chain) r ∧
      r.vaultId = v ∧ r.asset = asset ∧ r.kind = VAULT_KIND_POOL_CHANGE

def poolChange (v : VaultId) (asset : Uint256) (r : FlowMeshVaultRecord) : Bool :=
  r.vaultId == v && r.asset == asset && r.kind == VAULT_KIND_POOL_CHANGE

/-- The ranking of the records an index holds. -/
def poolRanking (index : FlowMeshVaultIndex) (v : VaultId) (asset : Uint256) :
    List FlowMeshVaultRecord :=
  ((index.live.entries.map (·.2)).filter (poolChange v asset)).insertionSort inOrder

theorem poolRanking_perm (index : FlowMeshVaultIndex) (v : VaultId) (asset : Uint256) :
    (poolRanking index v asset).Perm
      ((index.live.entries.map (·.2)).filter (poolChange v asset)) :=
  perm_insertionSort _ _

theorem poolRanking_outpoints {chain : List Block} (h : Run (connect E params) {} chain index) :
    (poolRanking index v asset).Pairwise fun a b => a.outpoint ≠ b.outpoint := by
  refine ((poolRanking_perm index v asset).pairwise_iff fun h => Ne.symm h).mpr ?_
  refine List.Pairwise.filter _ (pairwise_map.mp ?_)
  rw [(run_keyed h).map_values]
  exact index.live.keys_nodup

theorem run_ranking {chain : List Block} (h : Run (connect E params) {} chain index) :
    WithdrawalRanking E params chain v asset (poolRanking index v asset) where
  sorted := (pairwise_insertionSort inOrder _).imp₂
    (fun _ _ hle hne => better_of_inOrder hle hne) (poolRanking_outpoints h)
  mem_iff r := by
    rw [(poolRanking_perm index v asset).mem_iff, mem_filter, (run_keyed h).mem_values,
      (run_tracks h).holds]
    simp [poolChange, and_assoc]

/-- Among the records of a block the code's conditions are those of the ranking. -/
theorem eligible_iff (h : Run (connect E params) {} (b :: older) mid) {r : FlowMeshVaultRecord}
    (hr : r ∈ mid.live.entries.map (·.2)) : eligible v asset b.info r = poolChange v asset r := by
  obtain ⟨b', hb', _, _, _, hread⟩ := run_live_read h hr
  obtain ⟨hpos, hmax, haccount⟩ := readVault_amount hread
  have hheight : r.createdHeight ≤ b.info.height := by
    rw [(readVault_spec hread).2.2.height]
    exact run_height_le h hb'
  rw [Bool.eq_iff_iff, eligible_eq_true]
  simp only [poolChange, Bool.and_eq_true, beq_iff_eq, and_assoc]
  constructor
  · rintro ⟨-, hvault, hasset, hkind, -⟩
    exact ⟨hvault, hasset, hkind⟩
  · rintro ⟨hvault, hasset, hkind⟩
    exact ⟨hheight, hvault, hasset, hkind, haccount hkind, hpos, hmax⟩

section

variable (hmid : Run (connect E params) {} (b :: older) mid)
  (hnew : Run (connect E params) mid newer index)

include hmid hnew

/-- The eligible records of both sources are the ranking, in some order. -/
theorem run_eligible : ((index.live.entries.map (·.2) ++ index.removedSince b.info).filter
      (eligible v asset b.info)).Perm (poolRanking mid v asset) := by
  have hperm := (run_sources hmid hnew).filter (eligible v asset b.info)
  rw [filter_filter] at hperm
  have hheight : ∀ r : FlowMeshVaultRecord, (eligible v asset b.info r &&
      decide (r.createdHeight ≤ b.info.height)) = eligible v asset b.info r := by
    intro r
    rw [Bool.eq_iff_iff, Bool.and_eq_true, decide_eq_true_eq]
    exact and_iff_left_of_imp fun h => (eligible_eq_true.mp h).1
  simp only [hheight] at hperm
  refine hperm.trans ?_
  rw [filter_congr fun r hr => eligible_iff hmid hr]
  exact (poolRanking_perm mid v asset).symm

theorem run_largest (hv : v ≠ 0) : index.largestWithdrawalInputsAt v asset b.info =
      some ((poolRanking mid v asset).take FLOWMESH_MAX_WITHDRAWAL_VAULT_INPUTS) := by
  have hdistinct : (poolRanking mid v asset).Pairwise fun a b => a.outpoint ≠ b.outpoint :=
    poolRanking_outpoints hmid
  have hperm : (_ : List FlowMeshVaultRecord).Perm (poolRanking mid v asset) :=
    run_eligible hmid hnew
  have hloop : List.foldl (consider v asset b.info) [] _ = _ := foldl_consider _ (Nat.zero_le _)
    ((hperm.pairwise_iff fun h => Ne.symm h).mpr hdistinct)
  have hb : b ∈ newer ++ b :: older := mem_append_right _ mem_cons_self
  have hheight : ¬ b.info.height < 0 := not_lt.mpr (run_height_nonneg hmid)
  unfold FlowMeshVaultIndex.largestWithdrawalInputsAt
  rw [if_neg (not_or.mpr ⟨hv, hheight⟩), run_hasAnchor (hmid.trans hnew) hb, if_neg (by decide)]
  simp only
  rw [← foldl_append, hloop, foldl_keep_eq _ hperm
    (pairwise_insertionSort inOrder _)]
  -- records of one block that stand under the same outpoint are the same
  intro x hx y hy hxy hyx
  exact inj_on_of_nodup_map (pairwise_map.mpr hdistinct) hx hy (inOrder_antisymm hxy hyx)

end

/-- Adding up amounts that stay within the supply. -/
theorem foldlM_capacity {l : List FlowMeshVaultRecord} (hpos : ∀ r ∈ l, 0 ≤ r.amount) {c : Int}
    (hle : c + (l.map (·.amount)).sum ≤ MAX_MONEY) : l.foldlM (fun capacity r =>
      if r.amount > MAX_MONEY - capacity then none else some (capacity + r.amount)) c =
      some (c + (l.map (·.amount)).sum) := by
  induction l generalizing c with
  | nil => simp
  | cons r l ih =>
    rw [map_cons, sum_cons] at hle ⊢
    have hrest : 0 ≤ (l.map (·.amount)).sum := sum_nonneg fun a ha => by
      obtain ⟨r', hr', rfl⟩ := mem_map.mp ha
      exact hpos r' (mem_cons_of_mem _ hr')
    rw [foldlM_cons, if_neg (by omega)]
    change l.foldlM _ (c + r.amount) = _
    rw [ih (fun r' hr' => hpos r' (mem_cons_of_mem _ hr')) (by omega), add_assoc]

/-- For every vault, asset and retained block: the first 64 of the pool-change outputs that were
unspent right after the block, and what they are worth. The null id names no vault. -/
theorem withdrawal_inputs_exact {moves : List (Reversible.Move Block BlockInfo)}
    (hmoves : Run (act (connect E params) disconnect) {} moves index)
    (hchain : standing moves = newer ++ b :: older) (v : VaultId) (asset : Uint256) :
    ∃ ranking, WithdrawalRanking E params (b :: older) v asset ranking ∧
      (v = 0 → ranking = []) ∧
      (v ≠ 0 → index.largestWithdrawalInputsAt v asset b.info = some (ranking.take 64) ∧
        (((ranking.take 64).map (·.amount)).sum ≤ MAX_MONEY →
          index.withdrawalCapacityAt v asset b.info =
            some ((ranking.take 64).map (·.amount)).sum)) := by
  have hrun := disconnect_undoes.run_standing hmoves
  rw [hchain] at hrun
  obtain ⟨mid, hmid, hnew⟩ := hrun.split
  have hread : ∀ r ∈ poolRanking mid v asset, ∃ b' ∈ b :: older, ∃ txid i out,
      readVault E params b'.info txid i out = .ok (some r) := by
    intro r hr
    exact run_live_read hmid (mem_filter.mp ((poolRanking_perm mid v asset).subset hr)).1
  refine ⟨poolRanking mid v asset, run_ranking hmid, fun hv => ?_, fun hv => ?_⟩
  · refine eq_nil_iff_forall_not_mem.mpr fun r hr => ?_
    obtain ⟨_, _, _, _, _, h⟩ := hread r hr
    exact (readVault_spec h).2.2.vault ((((run_ranking hmid).mem_iff r).mp hr).2.1.trans hv)
  · have hlargest : index.largestWithdrawalInputsAt v asset b.info = _ :=
      run_largest hmid hnew hv
    refine ⟨hlargest, fun hle => ?_⟩
    have hpos : ∀ r ∈ (poolRanking mid v asset).take 64, 0 ≤ r.amount := by
      intro r hr
      obtain ⟨_, _, _, _, _, h⟩ := hread r (mem_of_mem_take hr)
      exact (readVault_amount h).1.le
    unfold FlowMeshVaultIndex.withdrawalCapacityAt
    rw [hlargest]
    exact (foldlM_capacity hpos (by rwa [zero_add])).trans (by rw [zero_add])

end Query

/-! ## A pool change that is spent after the anchor -/

/-- A pool change of asset 7 in the vault that `depositTx` established. -/
def poolTx (spent : Uint256) : CTransaction where
  vin := [{ prevout := ⟨spent, 0⟩ }]
  vout := [⟨0, Script.minimalPush (ASSET_OUTPUT_MAGIC ++ bigEndian 32 7 ++ bigEndian 8 5 ++
    bigEndian 2 PolicyType.DEX_VAULT.code ++ bigEndian 2 2 ++ bigEndian 32 27 ++
    [VAULT_KIND_POOL_CHANGE, 4, 0]) ++ [OP_DROP, OP_FALSE]⟩]

def poolBlock : Block := ⟨[poolTx 200], ⟨3, 30⟩⟩

/-- The pool change of transaction 201 is replaced by a new one. -/
def renewBlock : Block := ⟨[poolTx 201], ⟨4, 40⟩⟩

def poolIndex : FlowMeshVaultIndex :=
  (connect sampleEnv sampleParams depositIndex poolBlock).getD {}

def renewedIndex : FlowMeshVaultIndex :=
  (connect sampleEnv sampleParams poolIndex renewBlock).getD {}

theorem spent_pool_change_counted :
    (renewedIndex.largestWithdrawalInputsAt 27 7 ⟨3, 30⟩).map (·.map (·.outpoint)) =
      some [⟨201, 0⟩] ∧
    renewedIndex.withdrawalCapacityAt 27 7 ⟨3, 30⟩ = some 5 ∧
    ∃ ranking, WithdrawalRanking sampleEnv sampleParams [poolBlock, depositBlock] 27 7 ranking ∧
      renewedIndex.largestWithdrawalInputsAt 27 7 ⟨3, 30⟩ = some (ranking.take 64) := by
  have hdeposit : connect sampleEnv sampleParams {} depositBlock = some depositIndex := by
    decide +kernel
  have hpool : connect sampleEnv sampleParams depositIndex poolBlock = some poolIndex := by
    decide +kernel
  have hrenew : connect sampleEnv sampleParams poolIndex renewBlock = some renewedIndex := by
    decide +kernel
  have hrun : Run (act (connect sampleEnv sampleParams) disconnect) {}
      [.forward renewBlock, .forward poolBlock, .forward depositBlock] renewedIndex :=
    run_forward (run_forward (run_forward .start hdeposit) hpool) hrenew
  obtain ⟨ranking, hranking, -, hexact⟩ := withdrawal_inputs_exact hrun
    (show standing _ = [renewBlock] ++ poolBlock :: [depositBlock] from rfl) 27 7
  exact ⟨by decide +kernel, by decide +kernel, ranking, hranking, (hexact (by decide)).1⟩

end B3Coin.FlowMesh.VaultIndex
