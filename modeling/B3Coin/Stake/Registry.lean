import B3Coin.Stake.Tracker

/-!
# The stake registry

`node/stake_registry.cpp` derives the validators and their weights from the coin
set. A validator whose stake is all immature is listed with weight zero; the
tracker's weights leave such validators out. Otherwise the two agree on every
valid chain, unless a stake output was created that is too long to be stored:
the tracker counts it, and nothing can ever spend it.
-/
namespace B3Coin.Stake

open BlockChain (Linked)
open ChainTracker List Option Guards OrderedMap CTransaction Tracker
open Codec (Bytes)
open Coins (CoinMap outPoint spends)
open Finality (ValidatorKey)
open FlowMesh (COutPoint)

structure StakeOutputRecord where
  outpoint : COutPoint
  amount : Int
  ownerCommitment : Uint256
  creationHeight : Int
  active : Bool
  deriving DecidableEq

structure ValidatorRecord where
  key : ValidatorKey
  outputs : List StakeOutputRecord := []
  totalWeight : Int := 0
  deriving DecidableEq

structure StakeRegistry where
  validators : OrderedMap ValidatorKey ValidatorRecord := ∅
  matureOutputs : Nat := 0
  immatureOutputs : Nat := 0
  totalWeight : Int := 0

section Derive

variable (sha256 : Bytes → Uint256) (finalHeight : Nat) (currentHeight : Int)

/-- A stake output is attributed to its validator, and counted if it is mature. -/
def StakeRegistry.add (registry : StakeRegistry) (record : StakeOutputRecord) (key : ValidatorKey) :
    StakeRegistry :=
  let validator := (registry.validators.find? key).getD { key }
  if record.active then
    { registry with
      validators := registry.validators.insert key
        { key
          outputs := validator.outputs ++ [record]
          totalWeight := validator.totalWeight + record.amount }
      matureOutputs := registry.matureOutputs + 1
      totalWeight := registry.totalWeight + record.amount }
  else
    { registry with
      validators := registry.validators.insert key
        { key
          outputs := validator.outputs ++ [record]
          totalWeight := validator.totalWeight }
      immatureOutputs := registry.immatureOutputs + 1 }

/-- One round of `DeriveStakeRegistry`. -/
def registerCoin (registry : StakeRegistry) (entry : COutPoint × Coin) : StakeRegistry :=
  if entry.2.nHeight ≤ finalHeight then registry
  else match stakeView entry.2.out with
    | none => registry
    | some view =>
      registry.add
        { outpoint := entry.1
          amount := view.amount
          ownerCommitment := sha256 view.ownerScript
          creationHeight := entry.2.nHeight
          active := isStakeMature entry.2.nHeight currentHeight }
        view.validatorKey

/-- `DeriveStakeRegistry`, over the coins in the order of their outpoints. -/
def deriveStakeRegistry (coins : CoinMap) : StakeRegistry :=
  coins.entries.foldl (registerCoin sha256 finalHeight currentHeight) {}

end Derive

/-- The weight the registry has for a validator. -/
def StakeRegistry.weight (registry : StakeRegistry) (key : ValidatorKey) : Option Int :=
  (registry.validators.find? key).map (·.totalWeight)

/-- The tracker's weights are the registry's, validators without mature stake aside. -/
structure Agree (w : OrderedMap ValidatorKey Int × Int) (registry : StakeRegistry) : Prop where
  weights : ∀ key, w.1.find? key = (registry.weight key).filter (0 < ·)
  total : w.2 = registry.totalWeight

/-! ## The registry of a list of stakes -/

variable {sha256 : Bytes → Uint256} {finalHeight : Nat} {currentHeight : Int}
variable {registry : StakeRegistry} {w : OrderedMap ValidatorKey Int × Int}

def Nonneg (registry : StakeRegistry) : Prop := ∀ key x, registry.weight key = some x → 0 ≤ x

theorem add_weight (record : StakeOutputRecord) (key other : ValidatorKey) :
    (registry.add record key).weight other =
      if other = key then
        some ((registry.weight key).getD 0 + if record.active then record.amount else 0)
      else registry.weight other := by
  unfold StakeRegistry.weight StakeRegistry.add
  cases registry.validators.find? key <;>
    split_ifs <;> simp_all [find?_insert]

theorem add_totalWeight (record : StakeOutputRecord) (key : ValidatorKey) :
    (registry.add record key).totalWeight =
      registry.totalWeight + if record.active then record.amount else 0 := by
  unfold StakeRegistry.add
  split_ifs <;> simp

theorem Nonneg.getD (h : Nonneg registry) (key : ValidatorKey) :
    0 ≤ (registry.weight key).getD 0 := by
  cases hw : registry.weight key with
  | none => exact le_rfl
  | some x => exact h key x hw

variable {record : StakeOutputRecord}

theorem Nonneg.add (h : Nonneg registry) (key : ValidatorKey)
    (hpos : 0 < record.amount) : Nonneg (registry.add record key) := by
  intro other x hx
  rw [add_weight] at hx
  by_cases hkey : other = key
  · rw [if_pos hkey] at hx
    cases hx
    have hold := h.getD key
    split_ifs <;> omega
  · rw [if_neg hkey] at hx
    exact h other x hx

theorem Agree.getD (h : Agree w registry) (hnonneg : Nonneg registry) (key : ValidatorKey) :
    (w.1.find? key).getD 0 = (registry.weight key).getD 0 := by
  rw [h.weights]
  cases hw : registry.weight key with
  | none => rfl
  | some x =>
    have := hnonneg key x hw
    by_cases hx : 0 < x
    · simp [Option.filter, hx]
    · simp only [Option.filter, hx, decide_false, Bool.false_eq_true, if_false, getD_none,
        getD_some]
      omega

theorem Agree.add (h : Agree w registry) (hnonneg : Nonneg registry)
    (key : ValidatorKey) (hpos : 0 < record.amount)
    (hactive : record.active = isStakeMature record.creationHeight currentHeight) :
    Agree (addWeight currentHeight w ⟨record.amount, key, record.creationHeight⟩)
      (registry.add record key) := by
  have hold := h.getD hnonneg key
  unfold addWeight
  rw [← hactive]
  cases hrec : record.active with
  | true =>
    simp only [if_true]
    refine ⟨fun other => ?_, ?_⟩
    · rw [find?_insert, add_weight, hrec, hold]
      by_cases hkey : other = key
      · have hnew := hnonneg.getD key
        rw [if_pos hkey, if_pos hkey, if_pos rfl, filter_some, if_pos]
        simp only [decide_eq_true_eq]
        omega
      · rw [if_neg hkey, if_neg hkey]
        exact h.weights other
    · rw [add_totalWeight, hrec, if_pos rfl, h.total]
  | false =>
    simp only [Bool.false_eq_true, if_false]
    refine ⟨fun other => ?_, ?_⟩
    · rw [add_weight, hrec]
      by_cases hkey : other = key
      · rw [hkey, if_pos rfl, h.weights]
        cases hw : registry.weight key <;> simp [Option.filter]
      · rw [if_neg hkey]
        exact h.weights other
    · rw [add_totalWeight, hrec, h.total]
      simp

/-- The coins' stakes, in the order of the coins. -/
def stakesOf (finalHeight : Nat) (entries : List (COutPoint × Coin)) : List (COutPoint × Entry) :=
  entries.filterMap fun e => (stakeEntry finalHeight e.2).map (e.1, ·)

variable {e : Entry}

theorem stakeEntry_pos {coin : Coin} (h : stakeEntry finalHeight coin = some e) : 0 < e.amount := by
  unfold stakeEntry at h
  split_ifs at h
  obtain ⟨view, hview, rfl⟩ := map_eq_some_iff.mp h
  exact amount_pos hview

theorem registerCoin_none {e : COutPoint × Coin} (h : stakeEntry finalHeight e.2 = none) :
    registerCoin sha256 finalHeight currentHeight registry e = registry := by
  unfold registerCoin
  unfold stakeEntry at h
  split_ifs at h ⊢
  · rfl
  · rw [map_eq_none_iff.mp h]

theorem registerCoin_some (sha256 : Bytes → Uint256) (currentHeight : Int)
    (registry : StakeRegistry) {e : COutPoint × Coin} {x : Entry}
    (h : stakeEntry finalHeight e.2 = some x) : ∃ record : StakeOutputRecord,
      record.amount = x.amount ∧ record.creationHeight = x.creationHeight ∧
      record.active = isStakeMature x.creationHeight currentHeight ∧
      registerCoin sha256 finalHeight currentHeight registry e = registry.add record x.key := by
  unfold registerCoin
  unfold stakeEntry at h
  split_ifs at h ⊢
  obtain ⟨view, hview, rfl⟩ := map_eq_some_iff.mp h
  rw [hview]
  exact ⟨_, rfl, rfl, rfl, rfl⟩

/-- The registry of some coins agrees with the weights of their stakes. -/
theorem agree_fold (entries : List (COutPoint × Coin)) (h : Agree w registry)
    (hnonneg : Nonneg registry) :
    Agree (((stakesOf finalHeight entries).map (·.2)).foldl (addWeight currentHeight) w)
      (entries.foldl (registerCoin sha256 finalHeight currentHeight) registry) ∧
    Nonneg (entries.foldl (registerCoin sha256 finalHeight currentHeight) registry) := by
  induction entries generalizing w registry with
  | nil => exact ⟨h, hnonneg⟩
  | cons e entries ih =>
    rw [foldl_cons, stakesOf, filterMap_cons]
    cases hentry : stakeEntry finalHeight e.2 with
    | none =>
      rw [registerCoin_none hentry]
      exact ih h hnonneg
    | some x =>
      obtain ⟨record, hamount, hheight, hactive, heq⟩ := registerCoin_some sha256 currentHeight
        registry hentry
      have hpos : 0 < record.amount := hamount ▸ stakeEntry_pos hentry
      have hstep := h.add hnonneg x.key hpos
        (hheight ▸ hactive)
      rw [hamount, hheight] at hstep
      rw [heq]
      exact ih hstep (hnonneg.add x.key hpos)

theorem agree_derive (sha256 : Bytes → Uint256) (finalHeight : Nat) (currentHeight : Int)
    (coins : CoinMap) :
    Agree (((stakesOf finalHeight coins.entries).map (·.2)).foldl (addWeight currentHeight) (∅, 0))
      (deriveStakeRegistry sha256 finalHeight currentHeight coins) ∧
    Nonneg (deriveStakeRegistry sha256 finalHeight currentHeight coins) :=
  agree_fold coins.entries ⟨fun _ => rfl, rfl⟩ nofun

/-! ## Weights as sums -/

/-- What a stake adds to the weight of a validator. -/
def contribution (evalHeight : Int) (key : ValidatorKey) (e : Entry) : Int :=
  if isStakeMature e.creationHeight evalHeight = true ∧ e.key = key then e.amount else 0

section

variable (evalHeight : Int) (key : ValidatorKey)

theorem addWeight_getD (e : Entry) : ((addWeight evalHeight w e).1.find? key).getD 0 =
      (w.1.find? key).getD 0 + contribution evalHeight key e := by
  unfold addWeight contribution
  by_cases hmature : isStakeMature e.creationHeight evalHeight = true
  · rw [if_pos hmature, find?_insert]
    by_cases hkey : key = e.key
    · rw [if_pos hkey, if_pos ⟨hmature, hkey.symm⟩, hkey]
      rfl
    · rw [if_neg hkey, if_neg fun h => hkey h.2.symm, add_zero]
  · rw [if_neg hmature, if_neg fun h => hmature h.1, add_zero]

theorem weights_getD (l : List Entry) : ((l.foldl (addWeight evalHeight) w).1.find? key).getD 0 =
      (w.1.find? key).getD 0 + (l.map (contribution evalHeight key)).sum := by
  induction l generalizing w with
  | nil => simp
  | cons e l ih =>
    rw [foldl_cons, ih, addWeight_getD, map_cons, sum_cons, add_assoc]

end

/-! ## The two weights of a chain -/

variable {stakes : StakeMap} {coins : CoinMap} {lost : List COutPoint}

theorem Mirrors.agree (h : Mirrors finalHeight stakes coins []) (evalHeight : Int) :
    Agree (activeWeights stakes evalHeight)
      (deriveStakeRegistry sha256 finalHeight evalHeight coins) := by
  have hentries : stakesOf finalHeight coins.entries = stakes.entries :=
    filterMap_entries fun o => h.kept o not_mem_nil
  unfold activeWeights
  rw [← hentries]
  exact (agree_derive _ _ _ coins).1

variable {o : COutPoint}

/-- A lost stake and the stake of all coins are different entries of the tracker. -/
theorem Mirrors.subperm (h : Mirrors finalHeight stakes coins lost)
    (ho : o ∈ lost) (he : stakes.find? o = some e) :
    ((o, e) :: stakesOf finalHeight coins.entries).Subperm stakes.entries := by
  have hmem : ∀ x ∈ stakesOf finalHeight coins.entries, x ∈ stakes.entries ∧ x.1 ∉ lost := by
    intro x hx
    obtain ⟨⟨o', coin⟩, hcoin, hx⟩ := mem_filterMap.mp hx
    obtain ⟨e', he', rfl⟩ := map_eq_some_iff.mp hx
    have hfind := find?_eq_some.mpr hcoin
    have hout : o' ∉ lost := by
      intro hlost
      rw [h.missing o' hlost] at hfind
      cases hfind
    refine ⟨find?_eq_some.mp ?_, hout⟩
    rw [h.kept o' hout, hfind]
    exact he'
  have hnd : (stakesOf finalHeight coins.entries).Nodup :=
    nodup_of_sorted (coins.filterMap_sorted _)
  refine subperm_of_subset (nodup_cons.mpr ⟨fun hin => (hmem _ hin).2 ho, hnd⟩) ?_
  intro x hx
  rcases mem_cons.mp hx with rfl | hx
  · exact find?_eq_some.mp he
  · exact (hmem x hx).1

theorem Mirrors.amount_pos (h : Mirrors finalHeight stakes coins lost)
    (he : stakes.find? o = some e) : 0 < e.amount := by
  by_cases ho : o ∈ lost
  · obtain ⟨e', he', hpos⟩ := h.counted o ho
    rw [he] at he'
    cases he'
    exact hpos
  · rw [h.kept o ho] at he
    obtain ⟨coin, -, hentry⟩ := bind_eq_some_iff.mp he
    exact stakeEntry_pos hentry

/-- Where stake was lost, its validator has more weight in the tracker than in the registry as soon
as that stake is mature. -/
theorem Mirrors.heavier (sha256 : Bytes → Uint256) (h : Mirrors finalHeight stakes coins lost)
    (ho : o ∈ lost) (he : stakes.find? o = some e) {evalHeight : Int}
    (hmature : isStakeMature e.creationHeight evalHeight = true) :
    ((deriveStakeRegistry sha256 finalHeight evalHeight coins).weight e.key).getD 0 <
      ((activeWeights stakes evalHeight).1.find? e.key).getD 0 := by
  obtain ⟨hagree, hnonneg⟩ := agree_derive sha256 finalHeight evalHeight coins
  rw [← hagree.getD hnonneg, activeWeights, weights_getD, weights_getD]
  have hzero : ∀ x ∈ stakes.entries.map (fun x => contribution evalHeight e.key x.2), 0 ≤ x := by
    intro x hx
    obtain ⟨y, hy, rfl⟩ := mem_map.mp hx
    have hpos := h.amount_pos (find?_eq_some.mpr hy)
    unfold contribution
    split_ifs <;> omega
  have hsum : (((o, e) :: stakesOf finalHeight coins.entries).map
      fun x => contribution evalHeight e.key x.2).sum ≤
      (stakes.entries.map fun x => contribution evalHeight e.key x.2).sum := by
    obtain ⟨l, hperm, hsub⟩ := h.subperm ho he
    rw [← (hperm.map _).sum_eq]
    exact (hsub.map _).sum_le_sum hzero
  have hlost : contribution evalHeight e.key e = e.amount := by
    unfold contribution
    rw [if_pos ⟨hmature, rfl⟩]
  have hpos := h.amount_pos he
  rw [map_cons, sum_cons, hlost] at hsum
  simp only [List.map_map, Function.comp_def, OrderedMap.find?_empty, Option.getD_none]
  omega

/-- The two weights agree at every height exactly if nothing was lost. -/
theorem Mirrors.agree_iff (h : Mirrors finalHeight stakes coins lost) :
    (∀ evalHeight, Agree (activeWeights stakes evalHeight)
      (deriveStakeRegistry sha256 finalHeight evalHeight coins)) ↔ lost = [] := by
  constructor
  · intro hagree
    refine eq_nil_iff_forall_not_mem.mpr fun o ho => ?_
    obtain ⟨e, he, -⟩ := h.counted o ho
    have hmature : isStakeMature e.creationHeight (e.creationHeight + STAKE_ACTIVATION_DEPTH) =
        true := by
      simp [isStakeMature]
    have hlt := h.heavier sha256 ho he hmature
    rw [(hagree _).getD (agree_derive _ _ _ coins).2] at hlt
    exact absurd hlt (lt_irrefl _)
  · rintro rfl
    exact h.agree

/-! ## Whatever was called -/

section Run

variable {C : Assets.Crypto} {txid : CTransaction → Uint256} {params : Consensus.Params}
variable {hash : ChainBlock → Uint256} {legacyCoins : List ChainBlock → CoinMap}

/-- The tracker after some calls. -/
def trackerAfter (txid : CTransaction → Uint256) (hash : ChainBlock → Uint256) (finalHeight : Nat)
    (calls : List (Tracker.Call (List CTransaction))) : Tracker StakeMap :=
  calls.foldl (call (stakeReplay txid hash finalHeight))
    (fresh (stakeReplay txid hash finalHeight))

/-- After any calls that leave the tracker synced at the tip of a valid chain, its weights are those
of the registry at every height, exactly if no stake output of the chain is too long to be stored. -/
theorem weights_agree_iff (hashInj : Function.Injective hash) (nonnull : ∀ b, hash b ≠ 0)
    (idBinds : Binds txid)
    (hlegacy : ∀ c o coin, (legacyCoins c).find? o = some coin → coin.nHeight ≤ finalHeight)
    (calls : List (Tracker.Call (List CTransaction))) (hcalls : ∀ c ∈ calls, Linked hash c.chain)
    (tip : ChainBlock) (below : List ChainBlock) (hlinked : Linked hash (tip :: below))
    (hvalid : ValidChain C txid finalHeight params legacyCoins (tip :: below))
    (hsynced : (trackerAfter txid hash finalHeight calls).synced (hash tip) = true) :
    (∀ evalHeight, Agree (activeWeights (trackerAfter txid hash finalHeight calls).state evalHeight)
      (deriveStakeRegistry sha256 finalHeight evalHeight
        (coinsAt C txid finalHeight legacyCoins (tip :: below)))) ↔
      StakesFit finalHeight (tip :: below) := by
  rw [← lostAt_eq_nil txid]
  have hfaithful : (trackerAfter txid hash finalHeight calls).Faithful
      (stakeReplay txid hash finalHeight) :=
    call_faithful (R := stakeReplay txid hash finalHeight) hashInj nonnull hcalls
      faithful_fresh
  have hrun := hfaithful.run_eq (R := stakeReplay txid hash finalHeight) hashInj nonnull hlinked
    hsynced
  exact (run_mirrors idBinds hlegacy hvalid hrun).agree_iff

end Run

/-! ## A block that stakes once -/

section Staking

def plainCrypto : Assets.Crypto := ⟨fun _ => 0, fun _ => true, fun _ _ => 0⟩

def stakeParams : Consensus.Params := { hashGenesisBlock := 0, minStakeAmount := some 1 }

def stakeKey : Bytes := List.replicate 32 1

def stakingTx (owner : Bytes) : CTransaction :=
  { vin := [{ prevout := ⟨0, FlowMesh.NULL_INDEX⟩ }], vout := [⟨5, makeStakeScript stakeKey owner⟩] }

def stakingBlock (owner : Bytes) : ChainBlock := ⟨blockNumber genesis, [stakingTx owner]⟩

def stakingPoint (owner : Bytes) : COutPoint := outPoint number (stakingTx owner) 0

/-- The tracker after one `Sync`. -/
def stakingTracker (owner : Bytes) : Tracker StakeMap :=
  trackerAfter number blockNumber 0 [.sync (fun _ => true) [stakingBlock owner, genesis]]

variable {owner : Bytes}

theorem stakeView_staking (hne : owner ≠ []) (howner : checkOwner owner = .ok ()) :
    stakeView ⟨5, makeStakeScript stakeKey owner⟩ = some ⟨5, beValue stakeKey, owner⟩ := by
  unfold stakeView
  rw [if_pos (claims_makeStakeScript (by decide) owner),
    parse_makeStakeScript (by decide) (by decide) (by decide) hne howner]
  rfl

theorem staking_linked (owner : Bytes) : Linked blockNumber [stakingBlock owner, genesis] :=
  ⟨rfl, rfl⟩

theorem staking_valid (hne : owner ≠ []) (howner : checkOwner owner = .ok ()) :
    ValidChain plainCrypto number 0 stakeParams (fun _ => ∅)
      [stakingBlock owner, genesis] := by
  intro b below hsuffix hhigh
  rcases suffix_cons_iff.mp hsuffix with heq | hsuffix
  · cases heq
    refine ⟨nodup_singleton _, nofun, ?_, ⟨nofun, trivial⟩, ?_⟩
    · rintro tx htx
      rw [mem_singleton.mp htx]
      exact (by decide : 1 ≤ 2 ^ 32)
    · rintro tx htx
      rw [mem_singleton.mp htx]
      refine foldlM_cons_eq_ok.mpr ⟨(), ?_, rfl⟩
      refine bind_eq_ok.mpr ⟨_, parse_makeStakeScript (by decide) (by decide) (by decide) hne
        howner, ?_⟩
      rfl
  · have := hsuffix.length_le
    simp only [length_cons, length_nil] at this
    omega

theorem stakingTracker_synced (owner : Bytes) :
    (stakingTracker owner).synced (blockNumber (stakingBlock owner)) = true := by
  simp [stakingTracker, trackerAfter, call, sync, synced, fresh,
    startOf, resumes, walk, stakeReplay]

theorem stakingTracker_state (hne : owner ≠ []) (howner : checkOwner owner = .ok ()) :
    (stakingTracker owner).state =
      (∅ : StakeMap).insert (stakingPoint owner) ⟨5, beValue stakeKey, 1⟩ := by
  have hblock : applyBlock number 1 [stakingTx owner] ∅ =
      (∅ : StakeMap).insert (stakingPoint owner) ⟨5, beValue stakeKey, 1⟩ := by
    show addStake number (stakingTx owner) 1 ∅ (⟨5, makeStakeScript stakeKey owner⟩, 0) = _
    unfold addStake
    rw [stakeView_staking hne howner]
    rfl
  simpa [stakingTracker, trackerAfter, call, sync, synced, fresh,
    startOf, resumes, walk, stakeReplay, stakingBlock] using hblock

theorem checkOwner_of_long {rest : Bytes} (h : 42 < rest.length) :
    checkOwner (OP_1 :: rest) = .ok () := by
  refine seq_eq_ok.mpr ⟨reject_eq_ok.mpr ?_, seq_eq_ok.mpr
    ⟨reject_eq_ok.mpr ?_, reject_eq_ok.mpr nofun⟩⟩
  · have hlen : rest.length ≠ 22 := by omega
    simp [Script.isPayToScriptHash, hlen]
  · have hlen : ¬ rest.length + 1 ≤ 42 := by omega
    simp [Script.isWitnessProgram, hlen]

/-- An output that is too long is not stored, so the coin set stays empty. -/
theorem coinsAt_of_long (h : MAX_SCRIPT_SIZE < owner.length) :
    coinsAt plainCrypto number 0 (fun _ => ∅) [stakingBlock owner, genesis] = ∅ := by
  show Coins.addOutput plainCrypto number (stakingTx owner) 1 true ∅
    (⟨5, makeStakeScript stakeKey owner⟩, 0) = ∅
  have hclaims := claims_makeStakeScript (by decide : stakeKey.length = _) owner
  have hlong : Script.isUnspendable (makeStakeScript stakeKey owner) = true := by
    rw [isUnspendable_iff hclaims, makeStakeScript, length_append, length_cons]
    omega
  unfold Coins.addOutput Coins.addCoin
  rw [if_neg (by rw [not_skipped hclaims]; decide), if_pos hlong]

/-- An owner's script that makes the stake output too long for the coin set. -/
def longOwner : Bytes := OP_1 :: List.replicate 10000 OP_1

theorem longOwner_ne : longOwner ≠ [] := cons_ne_nil _ _

theorem longOwner_ok : checkOwner longOwner = .ok () :=
  checkOwner_of_long (by rw [length_replicate]; decide)

theorem longOwner_length : MAX_SCRIPT_SIZE < longOwner.length := by
  rw [longOwner, length_cons, length_replicate]
  decide

/-- One valid block, one call of `Sync`: the tracker gives a validator weight that no coin backs. -/
theorem long_stake_counted : ValidChain plainCrypto number 0 stakeParams (fun _ => ∅)
        [stakingBlock longOwner, genesis] ∧
      Linked blockNumber [stakingBlock longOwner, genesis] ∧
      (stakingTracker longOwner).synced (blockNumber (stakingBlock longOwner)) = true ∧
      (activeWeights (stakingTracker longOwner).state 21).1.find? (beValue stakeKey) = some 5 ∧
      (deriveStakeRegistry plainCrypto.sha256 0 21 (coinsAt plainCrypto number 0
        (fun _ => ∅) [stakingBlock longOwner, genesis])).weight (beValue stakeKey) = none := by
  refine ⟨staking_valid longOwner_ne longOwner_ok, staking_linked _, stakingTracker_synced _, ?_, ?_⟩
  · rw [stakingTracker_state longOwner_ne longOwner_ok]
    rfl
  · rw [coinsAt_of_long longOwner_length]
    rfl

/-- A stake with a short owner's script is weighed alike by both. -/
theorem short_stake_agrees :
    (stakingTracker [OP_1]).synced (blockNumber (stakingBlock [OP_1])) = true ∧
      ∀ evalHeight, Agree (activeWeights (stakingTracker [OP_1]).state evalHeight)
        (deriveStakeRegistry plainCrypto.sha256 0 evalHeight (coinsAt plainCrypto
          number 0 (fun _ => ∅) [stakingBlock [OP_1], genesis])) := by
  refine ⟨stakingTracker_synced _, (weights_agree_iff blockNumber_injective blockNumber_ne_zero
    vout_eq_of_number_eq (fun _ _ _ h => by cases h) _
    (by simpa [Tracker.Call.chain] using staking_linked [OP_1])
    _ _ (staking_linked _) (staking_valid (cons_ne_nil _ _) rfl)
    (stakingTracker_synced _)).mpr ?_⟩
  rw [← lostAt_eq_nil number]
  rfl

end Staking

end B3Coin.Stake
