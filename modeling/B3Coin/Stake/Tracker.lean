import B3Coin.Lib.ChainTracker
import B3Coin.Stake.Output

/-!
# The stake tracker and the coin set

`node/stake_tracker.cpp` replays the modern blocks and keeps the stake outputs by
outpoint; `Sync`, `BlockConnected` and `MarkDirty` are those of a chain tracker.
The coin set is updated by the same blocks. As long as no stake output is too long
to be stored as a coin, the tracker holds exactly the stake among the coins.
-/
namespace B3Coin.Stake

open BlockChain ChainTracker List Option Guards OrderedMap
open Coins (CoinMap outPoint spends addOutput addCoins updateCoins)
open Finality (ValidatorKey)
open FlowMesh (COutPoint)

structure Entry where
  amount : Int
  key : ValidatorKey
  creationHeight : Int
  deriving DecidableEq

abbrev StakeMap := OrderedMap COutPoint Entry

section Replay

variable (txid : CTransaction → Uint256)

/-- One round of the loop over the outputs. -/
def addStake (tx : CTransaction) (height : Int) (stakes : StakeMap) (x : CTxOut × Nat) : StakeMap :=
  match stakeView x.1 with
  | none => stakes
  | some view =>
    stakes.emplace (outPoint txid tx x.2) ⟨view.amount, view.validatorKey, height⟩

def applyTransaction (height : Int) (stakes : StakeMap) (tx : CTransaction) : StakeMap :=
  tx.vout.zipIdx.foldl (addStake txid tx height) (stakes.eraseAll (spends tx))

/-- `StakeTracker::ApplyBlock`. -/
def applyBlock (height : Int) (vtx : List CTransaction) (stakes : StakeMap) : StakeMap :=
  vtx.foldl (applyTransaction txid height) stakes

/-- The `StakeTracker` of a chain whose last legacy block has height `finalHeight`. -/
def stakeReplay (hash : BlockChain.Block (List CTransaction) → Uint256) (finalHeight : Nat) :
    Replay (List CTransaction) StakeMap where
  hash := hash
  finalHeight := finalHeight
  init := ∅
  apply below b stakes := some (applyBlock txid below.length b.body stakes)

end Replay

/-- One step of `ActiveWeights`. -/
def addWeight (evalHeight : Int) (w : OrderedMap ValidatorKey Int × Int) (e : Entry) :
    OrderedMap ValidatorKey Int × Int :=
  if isStakeMature e.creationHeight evalHeight then
    (w.1.insert e.key ((w.1.find? e.key).getD 0 + e.amount), w.2 + e.amount)
  else w

/-- `StakeTracker::ActiveWeights`, with the total. -/
def activeWeights (stakes : StakeMap) (evalHeight : Int) : OrderedMap ValidatorKey Int × Int :=
  (stakes.entries.map (·.2)).foldl (addWeight evalHeight) (∅, 0)

/-! ## The coins of a chain -/

abbrev ChainBlock := BlockChain.Block (List CTransaction)

section Coins

variable (C : Assets.Crypto) (txid : CTransaction → Uint256) (finalHeight : Nat)

/-- The coins after a block of the modern era. -/
def connectCoins (height : Int) (vtx : List CTransaction) (coins : CoinMap) : CoinMap :=
  vtx.foldl (fun coins tx => updateCoins C txid tx height true coins) coins

/-- The coin set of a chain; that of its legacy part is given. -/
def coinsAt (legacyCoins : List ChainBlock → CoinMap) : List ChainBlock → CoinMap
  | [] => legacyCoins []
  | b :: below =>
    if below.length ≤ finalHeight then legacyCoins (b :: below)
    else connectCoins C txid below.length b.body (coinsAt legacyCoins below)

/-- Every transaction spends coins that are there when its turn comes. -/
def inputsAvailable (height : Int) : List CTransaction → CoinMap → Prop
  | [], _ => True
  | tx :: rest, coins => (∀ o ∈ spends tx, coins.contains o = true) ∧
    inputsAvailable height rest (updateCoins C txid tx height true coins)

/-- What validation has checked of a modern block, as far as coins and stake are concerned. -/
structure Connectable (params : Consensus.Params) (coins : CoinMap) (height : Int)
    (vtx : List CTransaction) : Prop where
  ids : (vtx.map txid).Nodup
  /-- No transaction has the id of one with unspent outputs. -/
  unspent : ∀ o coin, coins.find? o = some coin → o.hash ∉ vtx.map txid
  outputs : ∀ tx ∈ vtx, tx.vout.length ≤ 2 ^ 32
  inputs : inputsAvailable C txid height vtx coins
  stake : ∀ tx ∈ vtx, checkStakeOutputs params tx = .ok ()

/-- A chain of valid modern blocks on top of legacy ones. -/
def ValidChain (params : Consensus.Params) (legacyCoins : List ChainBlock → CoinMap)
    (chain : List ChainBlock) : Prop :=
  ∀ b below, b :: below <:+ chain → finalHeight < below.length →
    Connectable C txid params (coinsAt C txid finalHeight legacyCoins below) below.length b.body

/-- A stake output too long to be stored as a coin. -/
def oversize (out : CTxOut) : Bool :=
  claimsStakeMagic out.scriptPubKey && decide (MAX_SCRIPT_SIZE < out.scriptPubKey.length)

/-- No modern block creates a stake output whose script is longer than a script may be. -/
def StakesFit (chain : List ChainBlock) : Prop :=
  ∀ b below, b :: below <:+ chain → finalHeight < below.length → ∀ tx ∈ b.body, ∀ out ∈ tx.vout,
    oversize out = false

/-- The oversize outputs of a transaction, of a block's transactions and of a chain. -/
def lostOutputs (tx : CTransaction) : List COutPoint :=
  (tx.vout.zipIdx.filter (oversize ·.1)).map (outPoint txid tx ·.2)

def lostIn (vtx : List CTransaction) : List COutPoint := vtx.flatMap (lostOutputs txid)

def lostAt : List ChainBlock → List COutPoint
  | [] => []
  | b :: below => if below.length ≤ finalHeight then [] else lostAt below ++ lostIn txid b.body

end Coins

/-! ## The tracker mirrors the coins -/

/-- The stake of a coin. -/
def stakeEntry (finalHeight : Nat) (coin : Coin) : Option Entry :=
  if coin.nHeight ≤ finalHeight then none
  else (stakeView coin.out).map fun view => ⟨view.amount, view.validatorKey, coin.nHeight⟩

/-- The tracker holds the stake among the coins and, besides, every stake that was lost. -/
structure Mirrors (finalHeight : Nat) (stakes : StakeMap) (coins : CoinMap)
    (lost : List COutPoint) : Prop where
  kept : ∀ o, o ∉ lost → stakes.find? o = (coins.find? o).bind (stakeEntry finalHeight)
  missing : ∀ o ∈ lost, coins.find? o = none
  counted : ∀ o ∈ lost, ∃ e, stakes.find? o = some e ∧ 0 < e.amount

variable {C : Assets.Crypto} {txid : CTransaction → Uint256} {finalHeight : Nat}
variable {stakes : StakeMap} {coins : CoinMap} {lost : List COutPoint} {tx : CTransaction}
variable {height : Int}

variable {view : StakeOutputView}

variable {out : CTxOut}

theorem claims_of_stakeView (h : stakeView out = some view) :
    claimsStakeMagic out.scriptPubKey = true := by
  unfold stakeView at h
  split_ifs at h with hclaims
  exact hclaims

/-- Nothing that was lost can be spent. -/
theorem Mirrors.eraseAll (h : Mirrors finalHeight stakes coins lost) {ks : List COutPoint}
    (hks : ∀ o ∈ ks, coins.contains o = true) :
    Mirrors finalHeight (stakes.eraseAll ks) (coins.eraseAll ks) lost := by
  have hout : ∀ o ∈ lost, o ∉ ks := by
    intro o ho hmem
    have := hks o hmem
    rw [OrderedMap.contains, h.missing o ho] at this
    cases this
  refine ⟨fun o ho => ?_, fun o ho => ?_, fun o ho => ?_⟩
  · rw [find?_eraseAll, find?_eraseAll, h.kept o ho]
    split_ifs <;> rfl
  · rw [find?_eraseAll, if_neg (hout o ho)]
    exact h.missing o ho
  · rw [find?_eraseAll, if_neg (hout o ho)]
    exact h.counted o ho

variable {x : CTxOut × Nat}

theorem Mirrors.addPlain (h : Mirrors finalHeight stakes coins lost)
    (hlost : outPoint txid tx x.2 ∉ lost) (hfree : coins.find? (outPoint txid tx x.2) = none)
    (hview : stakeView x.1 = none) :
    Mirrors finalHeight stakes (Coins.addOutput C txid tx height true coins x) lost := by
  unfold Coins.addOutput Coins.addCoin
  split_ifs
  · exact h
  · exact h
  · refine ⟨fun o ho => ?_, fun o ho => ?_, h.counted⟩
    · rw [find?_insert]
      split_ifs with heq
      · rw [heq, h.kept _ hlost, hfree]
        simp [stakeEntry, hview]
      · exact h.kept o ho
    · rw [find?_insert, if_neg (ne_of_mem_of_not_mem ho hlost)]
      exact h.missing o ho

theorem Mirrors.addStored (h : Mirrors finalHeight stakes coins lost)
    (hheight : (finalHeight : Int) < height)
    (hlost : outPoint txid tx x.2 ∉ lost) (hfree : coins.find? (outPoint txid tx x.2) = none)
    (hview : stakeView x.1 = some view) (hfit : oversize x.1 = false) :
    Mirrors finalHeight (addStake txid tx height stakes x)
      (Coins.addOutput C txid tx height true coins x) lost := by
  have hclaims := claims_of_stakeView hview
  have hstored : Script.isUnspendable x.1.scriptPubKey = false := by
    rw [Bool.eq_false_iff, ne_eq, isUnspendable_iff hclaims]
    simpa [oversize, hclaims] using hfit
  have hnone : stakes.find? (outPoint txid tx x.2) = none := by
    rw [h.kept _ hlost, hfree]
    rfl
  simp only [addStake, hview, Coins.addOutput, Coins.addCoin, not_skipped hclaims, hstored,
    Bool.false_eq_true, if_false]
  rw [emplace_of_none _ hnone]
  refine ⟨fun o ho => ?_, fun o ho => ?_, fun o ho => ?_⟩
  · rw [find?_insert, find?_insert]
    split_ifs
    · simp [stakeEntry, hview, not_le.mpr hheight]
    · exact h.kept o ho
  · rw [find?_insert, if_neg (ne_of_mem_of_not_mem ho hlost)]
    exact h.missing o ho
  · rw [find?_insert, if_neg (ne_of_mem_of_not_mem ho hlost)]
    exact h.counted o ho

theorem amount_pos (h : stakeView out = some view) : 0 < view.amount := by
  unfold stakeView at h
  split_ifs at h
  have h := toOption_eq_some.mp h
  unfold parseStakeOutput at h
  obtain ⟨push, -, h⟩ := bind_eq_ok.mp h
  have h := of_seq h
  obtain ⟨drop, -, h⟩ := bind_eq_ok.mp h
  have h := of_seq h
  obtain ⟨hpos, h⟩ := seq_eq_ok.mp h
  have h := of_seq h
  have h := of_seq h
  have h := of_seq h
  cases h
  exact not_le.mp (reject_eq_ok.mp hpos)

theorem Mirrors.addLost (h : Mirrors finalHeight stakes coins lost)
    (hfree : coins.find? (outPoint txid tx x.2) = none)
    (hview : stakeView x.1 = some view) (hbig : oversize x.1 = true) :
    Mirrors finalHeight (addStake txid tx height stakes x)
      (Coins.addOutput C txid tx height true coins x) (lost ++ [outPoint txid tx x.2]) := by
  have hclaims := claims_of_stakeView hview
  have hunspendable : Script.isUnspendable x.1.scriptPubKey = true := by
    rw [isUnspendable_iff hclaims]
    simpa [oversize, hclaims] using hbig
  simp only [addStake, hview, Coins.addOutput, Coins.addCoin, not_skipped hclaims, hunspendable,
    Bool.false_eq_true, if_false, if_true]
  refine ⟨fun o ho => ?_, fun o ho => ?_, fun o ho => ?_⟩
  · rw [mem_append, mem_singleton, not_or] at ho
    rw [find?_emplace, if_neg ho.2, or_none]
    exact h.kept o ho.1
  · rcases mem_append.mp ho with ho | ho
    · exact h.missing o ho
    · rw [mem_singleton.mp ho, hfree]
  · rw [find?_emplace]
    by_cases hold : o ∈ lost
    · obtain ⟨e, he, hpos⟩ := h.counted o hold
      exact ⟨e, by rw [he, some_or], hpos⟩
    · have heq : o = outPoint txid tx x.2 := by simpa [hold] using ho
      rw [h.kept o hold, heq, hfree]
      exact ⟨⟨view.amount, view.validatorKey, height⟩, by simp, amount_pos hview⟩

variable {o : COutPoint} {coin : Coin}

theorem addOutput_find? (h : (Coins.addOutput C txid tx height true coins x).find? o = some coin) :
    coins.find? o = some coin ∨ o = outPoint txid tx x.2 := by
  unfold Coins.addOutput Coins.addCoin at h
  split_ifs at h
  · exact .inl h
  · exact .inl h
  · rw [find?_insert] at h
    split_ifs at h with ho
    · exact .inr ho
    · exact .inl h

theorem Mirrors.addOutput (h : Mirrors finalHeight stakes coins lost)
    (hheight : (finalHeight : Int) < height) (hfree : coins.find? (outPoint txid tx x.2) = none)
    (hlost : outPoint txid tx x.2 ∈ lost → oversize x.1 = true)
    (hvalid : claimsStakeMagic x.1.scriptPubKey = true → (stakeView x.1).isSome = true) :
    Mirrors finalHeight (addStake txid tx height stakes x)
      (Coins.addOutput C txid tx height true coins x)
      (lost ++ ([x].filter (oversize ·.1)).map (outPoint txid tx ·.2)) := by
  cases hbig : oversize x.1 with
  | true =>
    have hclaims : claimsStakeMagic x.1.scriptPubKey = true := by
      rw [oversize, Bool.and_eq_true] at hbig
      exact hbig.1
    obtain ⟨view, hview⟩ := isSome_iff_exists.mp (hvalid hclaims)
    simpa [hbig] using h.addLost (C := C) hfree hview hbig
  | false =>
    have hout : outPoint txid tx x.2 ∉ lost := by
      intro hmem
      rw [hlost hmem] at hbig
      cases hbig
    simp only [filter_cons, hbig, Bool.false_eq_true, if_false, filter_nil, map_nil,
      append_nil]
    cases hview : stakeView x.1 with
    | none =>
      simp only [addStake, hview]
      exact h.addPlain hout hfree hview
    | some view => exact h.addStored hheight hout hfree hview hbig

variable {xs : List (CTxOut × Nat)}

theorem Mirrors.addOutputs (h : Mirrors finalHeight stakes coins lost)
    (hheight : (finalHeight : Int) < height) (hnd : (xs.map fun x => outPoint txid tx x.2).Nodup)
    (hfree : ∀ x ∈ xs, coins.find? (outPoint txid tx x.2) = none)
    (hlost : ∀ x ∈ xs, outPoint txid tx x.2 ∈ lost → oversize x.1 = true)
    (hvalid : ∀ x ∈ xs, claimsStakeMagic x.1.scriptPubKey = true → (stakeView x.1).isSome = true) :
    Mirrors finalHeight (xs.foldl (addStake txid tx height) stakes)
      (xs.foldl (Coins.addOutput C txid tx height true) coins)
      (lost ++ (xs.filter (oversize ·.1)).map (outPoint txid tx ·.2)) := by
  induction xs generalizing stakes coins lost with
  | nil => simpa using h
  | cons x xs ih =>
    rw [map_cons, nodup_cons] at hnd
    have hother : ∀ y ∈ xs, outPoint txid tx y.2 ≠ outPoint txid tx x.2 := fun y hy heq =>
      hnd.1 (heq ▸ mem_map_of_mem (f := fun y : CTxOut × Nat => outPoint txid tx y.2) hy)
    have hstep := h.addOutput (C := C) hheight (hfree x mem_cons_self)
      (hlost x mem_cons_self) (hvalid x mem_cons_self)
    have hrest := ih hstep hnd.2
      (fun y hy => by
        refine eq_none_iff_forall_ne_some.mpr fun coin hcoin => ?_
        rcases addOutput_find? hcoin with hold | hnew
        · rw [hfree y (mem_cons_of_mem _ hy)] at hold
          cases hold
        · exact hother y hy hnew)
      (fun y hy hmem => by
        rcases mem_append.mp hmem with hmem | hmem
        · exact hlost y (mem_cons_of_mem _ hy) hmem
        · obtain ⟨z, hz, heq⟩ := mem_map.mp hmem
          rw [mem_singleton.mp (mem_of_mem_filter hz)] at heq
          exact absurd heq.symm (hother y hy))
      (fun y hy => hvalid y (mem_cons_of_mem _ hy))
    rw [append_assoc, ← map_append, ← filter_append] at hrest
    exact hrest

theorem addOutputs_find?
    (h : (xs.foldl (Coins.addOutput C txid tx height true) coins).find? o = some coin) :
    coins.find? o = some coin ∨ o.hash = txid tx := by
  induction xs generalizing coins with
  | nil => exact .inl h
  | cons x xs ih =>
    rcases ih h with hmid | hhash
    · exact (addOutput_find? hmid).imp_right (congrArg COutPoint.hash)
    · exact .inr hhash

theorem outPoints_nodup (txid : CTransaction → Uint256) (hsize : tx.vout.length ≤ 2 ^ 32) :
    (tx.vout.zipIdx.map fun x => outPoint txid tx x.2).Nodup := by
  have hnd : (tx.vout.zipIdx.map Prod.snd).Nodup := by
    rw [zipIdx_map_snd]
    exact nodup_range'
  have hlt : ∀ x ∈ tx.vout.zipIdx, x.2 < 2 ^ 32 := fun x hx =>
    lt_of_lt_of_le (by simpa using snd_lt_add_of_mem_zipIdx hx) hsize
  refine List.Nodup.map_on (fun x hx y hy heq => ?_) (List.Nodup.of_map _ hnd)
  refine inj_on_of_nodup_map hnd hx hy ?_
  have hn : UInt32.ofNat x.2 = UInt32.ofNat y.2 := congrArg COutPoint.n heq
  rw [← UInt32.toNat_ofNat_of_lt' (hlt x hx), hn, UInt32.toNat_ofNat_of_lt' (hlt y hy)]

variable {params : Consensus.Params}

theorem stakeView_of_check (h : checkStakeOutputs params tx = .ok ())
    (hout : out ∈ tx.vout) (hclaims : claimsStakeMagic out.scriptPubKey = true) :
    (stakeView out).isSome = true := by
  unfold checkStakeOutputs at h
  generalize tx.vout = outs at h hout
  induction outs with
  | nil => cases hout
  | cons first outs ih =>
    obtain ⟨u, hfirst, hrest⟩ := foldlM_cons_eq_ok.mp h
    rcases mem_cons.mp hout with rfl | hout
    · rw [if_neg (by simp [hclaims])] at hfirst
      obtain ⟨view, hview, -⟩ := bind_eq_ok.mp hfirst
      unfold stakeView
      rw [if_pos hclaims, hview]
      rfl
    · exact ih hrest hout

/-- A transaction id that commits to the outputs, as one that hashes them does. -/
def Binds (txid : CTransaction → Uint256) : Prop :=
  ∀ tx tx' : CTransaction, txid tx = txid tx' → tx.vout = tx'.vout

/-- An outpoint that was lost belongs to an oversize output. -/
def LostSource (txid : CTransaction → Uint256) (o : COutPoint) : Prop :=
  ∃ tx : CTransaction, tx.vout.length ≤ 2 ^ 32 ∧ o ∈ lostOutputs txid tx

/-- A transaction with a lost outpoint has an oversize output there. -/
theorem LostSource.oversize (bind : Binds txid)
    (hsize : tx.vout.length ≤ 2 ^ 32) (hx : x ∈ tx.vout.zipIdx)
    (h : LostSource txid (outPoint txid tx x.2)) : oversize x.1 = true := by
  obtain ⟨tx', -, hmem⟩ := h
  obtain ⟨y, hy, heq⟩ := mem_map.mp hmem
  obtain ⟨hy, hbig⟩ := mem_filter.mp hy
  rw [bind tx' tx (congrArg COutPoint.hash heq)] at hy
  have hindex : outPoint txid tx x.2 = outPoint txid tx y.2 := by
    rw [← heq, outPoint, outPoint, show txid tx' = txid tx from congrArg COutPoint.hash heq]
  rw [inj_on_of_nodup_map (outPoints_nodup txid hsize) hx hy hindex]
  exact hbig

/-- A transaction whose id has no coin. -/
theorem Mirrors.transaction (bind : Binds txid)
    (h : Mirrors finalHeight stakes coins lost) (hsource : ∀ o ∈ lost, LostSource txid o)
    (hheight : (finalHeight : Int) < height) (hsize : tx.vout.length ≤ 2 ^ 32)
    (hid : ∀ o coin, coins.find? o = some coin → o.hash ≠ txid tx)
    (hspends : ∀ o ∈ spends tx, coins.contains o = true)
    (hcheck : checkStakeOutputs params tx = .ok ()) :
    Mirrors finalHeight (applyTransaction txid height stakes tx)
      (updateCoins C txid tx height true coins) (lost ++ lostOutputs txid tx) := by
  refine (h.eraseAll hspends).addOutputs hheight (outPoints_nodup txid hsize) (fun x hx => ?_)
    (fun x hx hmem => (hsource _ hmem).oversize bind hsize hx)
    (fun x hx => stakeView_of_check hcheck (fst_mem_of_mem_zipIdx hx))
  rw [find?_eraseAll]
  split_ifs
  · rfl
  · exact eq_none_iff_forall_ne_some.mpr fun coin hcoin => hid _ coin hcoin rfl

theorem updateCoins_find? (h : (updateCoins C txid tx height true coins).find? o = some coin) :
    coins.find? o = some coin ∨ o.hash = txid tx := by
  refine (addOutputs_find? h).imp_left fun hkept => ?_
  rw [find?_eraseAll] at hkept
  split_ifs at hkept
  exact hkept

theorem Mirrors.block (bind : Binds txid) {params : Consensus.Params}
    {vtx : List CTransaction} (h : Mirrors finalHeight stakes coins lost)
    (hsource : ∀ o ∈ lost, LostSource txid o) (hheight : (finalHeight : Int) < height)
    (hvalid : Connectable C txid params coins height vtx) :
    Mirrors finalHeight (applyBlock txid height vtx stakes)
      (connectCoins C txid height vtx coins) (lost ++ lostIn txid vtx) := by
  induction vtx generalizing stakes coins lost with
  | nil => simpa [lostIn, applyBlock, connectCoins] using h
  | cons tx vtx ih =>
    have hids := hvalid.ids
    rw [map_cons, nodup_cons] at hids
    have hsize := hvalid.outputs tx mem_cons_self
    have htx := h.transaction (C := C) bind hsource hheight hsize
      (fun o coin hcoin heq => hvalid.unspent o coin hcoin (heq ▸ mem_cons_self))
      hvalid.inputs.1 (hvalid.stake tx mem_cons_self)
    have hrest := ih htx
      (fun o ho => (mem_append.mp ho).elim (hsource o) fun ho => ⟨tx, hsize, ho⟩)
      { ids := hids.2
        unspent := fun o coin hcoin hmem => by
          rcases updateCoins_find? hcoin with hold | hhash
          · exact hvalid.unspent o coin hold (mem_cons_of_mem _ hmem)
          · exact hids.1 (hhash ▸ hmem)
        outputs := fun x hx => hvalid.outputs x (mem_cons_of_mem _ hx)
        inputs := hvalid.inputs.2
        stake := fun x hx => hvalid.stake x (mem_cons_of_mem _ hx) }
    rw [append_assoc] at hrest
    exact hrest

/-! ## Along a chain -/

section Chain

variable {params : Consensus.Params} {legacyCoins : List ChainBlock → CoinMap}
variable {hash : ChainBlock → Uint256} {chain : List ChainBlock}

theorem ValidChain.tail {b : ChainBlock}
    (h : ValidChain C txid finalHeight params legacyCoins (b :: chain)) :
    ValidChain C txid finalHeight params legacyCoins chain :=
  fun b' below hsuffix => h b' below (hsuffix.trans (suffix_cons _ _))

theorem lostAt_source (h : ValidChain C txid finalHeight params legacyCoins chain) :
    ∀ o ∈ lostAt txid finalHeight chain, LostSource txid o := by
  induction chain with
  | nil => exact nofun
  | cons b below ih =>
    unfold lostAt
    split_ifs with hlow
    · exact nofun
    · intro o ho
      rcases mem_append.mp ho with ho | ho
      · exact ih h.tail o ho
      · obtain ⟨tx, htx, ho⟩ := mem_flatMap.mp ho
        exact ⟨tx, (h b below (suffix_refl _) (not_le.mp hlow)).outputs tx htx, ho⟩

theorem mirrors_legacy (hlegacy : ∀ o coin, coins.find? o = some coin → coin.nHeight ≤ finalHeight) :
    Mirrors finalHeight ∅ coins [] := by
  refine ⟨fun o _ => ?_, nofun, nofun⟩
  cases hcoin : coins.find? o with
  | none => rfl
  | some coin => simp [stakeEntry, hlegacy o coin hcoin]

/-- The replay of a valid chain against its coins. -/
theorem run_mirrors (bind : Binds txid)
    (hlegacy : ∀ c o coin, (legacyCoins c).find? o = some coin → coin.nHeight ≤ finalHeight)
    (hvalid : ValidChain C txid finalHeight params legacyCoins chain)
    (hrun : (stakeReplay txid hash finalHeight).run chain = some stakes) :
    Mirrors finalHeight stakes (coinsAt C txid finalHeight legacyCoins chain)
      (lostAt txid finalHeight chain) := by
  induction chain generalizing stakes with
  | nil =>
    cases hrun
    exact mirrors_legacy (hlegacy [])
  | cons b below ih =>
    unfold Replay.run at hrun
    unfold coinsAt lostAt
    change (if below.length ≤ finalHeight then _ else _) = _ at hrun
    split_ifs at hrun ⊢ with hlow
    · cases hrun
      exact mirrors_legacy (hlegacy _)
    · obtain ⟨before, hbefore, happly⟩ := bind_eq_some_iff.mp hrun
      cases happly
      exact (ih hvalid.tail hbefore).block bind (lostAt_source hvalid.tail)
        (by exact_mod_cast not_le.mp hlow) (hvalid b below (suffix_refl _) (not_le.mp hlow))

theorem lostOutputs_eq_nil : lostOutputs txid tx = [] ↔ ∀ out ∈ tx.vout, oversize out = false := by
  simp only [lostOutputs, map_eq_nil_iff, filter_eq_nil_iff, Bool.not_eq_true]
  refine ⟨fun h out hout => ?_, fun h x hx => h x.1 (fst_mem_of_mem_zipIdx hx)⟩
  obtain ⟨i, hi⟩ := getElem?_of_mem hout
  exact h (out, i) (mk_mem_zipIdx_iff_getElem?.mpr hi)

theorem lostAt_eq_nil (txid : CTransaction → Uint256) :
    lostAt txid finalHeight chain = [] ↔ StakesFit finalHeight chain := by
  induction chain with
  | nil => simp [lostAt, StakesFit]
  | cons b below ih =>
    unfold lostAt
    split_ifs with hlow
    · refine iff_of_true rfl fun b' below' hsuffix hhigh => ?_
      have := hsuffix.length_le
      simp only [length_cons] at this
      omega
    · rw [append_eq_nil_iff, ih, lostIn, flatMap_eq_nil_iff]
      simp only [lostOutputs_eq_nil]
      constructor
      · rintro ⟨hbelow, hhere⟩ b' below' hsuffix hhigh
        rcases suffix_cons_iff.mp hsuffix with heq | hsuffix
        · cases heq
          exact hhere
        · exact hbelow b' below' hsuffix hhigh
      · exact fun h => ⟨fun b' below' hsuffix => h b' below' (hsuffix.trans (suffix_cons _ _)),
          h b below (suffix_refl _) (not_le.mp hlow)⟩

end Chain

/-! ## Blocks with numbers for hashes -/

def blockNumbering : NatCode ChainBlock :=
  ((NatCode.list CTransaction.numbering).prod .nat).comap (fun b => (b.body, b.prev))
    (by rintro ⟨⟩ ⟨⟩ h; simpa [and_comm] using h)

/-- A block hash without collisions. -/
def blockNumber (b : ChainBlock) : Uint256 := blockNumbering.num b + 1

theorem blockNumber_injective : Function.Injective blockNumber :=
  (add_left_injective 1).comp blockNumbering.inj

theorem blockNumber_ne_zero (b : ChainBlock) : blockNumber b ≠ 0 := Nat.succ_ne_zero _

def genesis : ChainBlock := ⟨0, []⟩

end B3Coin.Stake
