import B3Coin.FlowMesh.VaultIndex
import B3Coin.Lib.Reversible

/-!
# The vault index along a chain

The live records follow the log of spends and vault outputs. A market is the first
deposit of its vault in a coloured asset: no hash has to be free of collisions for
that, since a base asset determines its market and the market its vault.
-/
open Transition (Run)

namespace B3Coin.FlowMesh.VaultIndex

open Assets (NativeAsset configuredChainDomain configuredFnAssetId flowMeshUserDepositShard
  VAULT_KIND_USER_DEPOSIT sampleParams)
open Consensus (Params)
open BlockJournal ChainLog NetDelta Reversible SpendLog List Option Guards OrderedMap
open FlowMeshVaultRecord
open FlowMeshVaultIndex (remove put addMarket marketOk removeMarket connectBlock disconnectBlock history
  lookbackAdded lookbackRemoved lookbackBlock lookback hasAnchor market marketAt sortMarkets
  marketsAt lookupAt)

/-! ## Vault outputs -/

section Outputs

variable {E : VaultEnv} {params : Params} {info : BlockInfo} {txid : Uint256} {i : Nat}
variable {out : CTxOut} {r : FlowMeshVaultRecord}

/-- What every recorded vault output satisfies. -/
structure FlowMeshVaultRecord.Valid (C : Assets.Crypto) (info : BlockInfo)
    (r : FlowMeshVaultRecord) : Prop where
  vault : r.vaultId ≠ 0
  deposit : r.kind = VAULT_KIND_USER_DEPOSIT → ∃ a, r.account = some a ∧ a ≠ 0 ∧
    r.shard = flowMeshUserDepositShard C r.vaultId a
  height : r.createdHeight = info.height
  block : r.createdBlock = info.blockHash

section

variable {params : Codec.Bytes} {vault : Assets.VaultParams}

theorem parseVaultParams_account {a : Uint256} (h : Assets.parseVaultParams params = some vault)
    (ha : vault.account = some a) : a ≠ 0 := by
  unfold Assets.parseVaultParams at h
  simp only at h
  split_ifs at h with hsize hshard hpool hlen huser hlen hnull
  · cases h
    cases ha
  · cases h
    cases ha
    exact hnull

theorem checkVaultParams_spec {C : Assets.Crypto} {v : VaultId}
    (hparse : Assets.parseVaultParams params = some vault)
    (h : Assets.checkVaultParams C v params = true) :
    v ≠ 0 ∧ (vault.kind = VAULT_KIND_USER_DEPOSIT → ∃ a, vault.account = some a ∧ a ≠ 0 ∧
      vault.shard = flowMeshUserDepositShard C v a) := by
  unfold Assets.checkVaultParams at h
  rw [hparse] at h
  simp only at h
  split_ifs at h with hv hkind
  · exact ⟨hv, fun heq => absurd heq hkind⟩
  · refine ⟨hv, fun _ => ?_⟩
    cases ha : vault.account with
    | none =>
      rw [ha] at h
      cases h
    | some a =>
      rw [ha] at h
      exact ⟨a, rfl, parseVaultParams_account hparse ha, by simpa using h⟩

end

theorem readVault_spec (h : readVault E params info txid i out = .ok (some r)) :
    r.outpoint = ⟨txid, UInt32.ofNat i⟩ ∧ i < 2 ^ 32 ∧ r.Valid E.output info := by
  unfold readVault at h
  split at h
  · cases h
  split at h
  · cases h
  split at h
  · cases h
  split at h
  · cases h
  next vault hparse =>
  split_ifs at h with hcheck hindex
  cases h
  obtain ⟨hvault, hdeposit⟩ := checkVaultParams_spec hparse (by simpa using hcheck)
  refine ⟨rfl, ?_, hvault, hdeposit, rfl, rfl⟩
  unfold UINT32_MAX at hindex
  omega

/-- What a transaction does to the vault outputs. -/
def vaultEntry (E : VaultEnv) (params : Params) (info : BlockInfo) (tx : CTransaction) :
    Entry COutPoint FlowMeshVaultRecord where
  spends := tx.prevouts
  creates := tx.vout.zipIdx.filterMap fun x =>
    (readVault E params info (E.txid tx) x.2 x.1).toOption.join

theorem toOption_join_eq_some {x : Except String (Option FlowMeshVaultRecord)} :
    x.toOption.join = some r ↔ x = .ok (some r) := by
  cases x with
  | error e => exact ⟨nofun, nofun⟩
  | ok o => exact ⟨congrArg Except.ok, Except.ok.inj⟩

theorem mem_vaultEntry {tx : CTransaction} (h : r ∈ (vaultEntry E params info tx).creates) :
    ∃ i out, readVault E params info (E.txid tx) i out = .ok (some r) := by
  obtain ⟨x, _, hr⟩ := mem_filterMap.mp h
  exact ⟨x.2, x.1, toOption_join_eq_some.mp hr⟩

theorem vaultEntry_valid {tx : CTransaction} (h : r ∈ (vaultEntry E params info tx).creates) :
    r.Valid E.output info :=
  let ⟨_, _, hread⟩ := mem_vaultEntry h
  (readVault_spec hread).2.2

theorem vaultEntry_hash (info : BlockInfo) (tx : CTransaction) :
    ∀ r ∈ (vaultEntry E params info tx).creates, r.outpoint.hash = E.txid tx := by
  intro r hr
  obtain ⟨i, out, hread⟩ := mem_vaultEntry hr
  rw [(readVault_spec hread).1]

theorem vaultEntry_nodup (info : BlockInfo) (tx : CTransaction) :
    ((vaultEntry E params info tx).creates.map outpoint).Nodup := by
  have hindex : tx.vout.zipIdx.Pairwise fun x y => x.2 ≠ y.2 := by
    have hnd : (tx.vout.zipIdx.map Prod.snd).Nodup := by
      rw [zipIdx_map_snd]
      exact nodup_range'
    exact pairwise_map.mp hnd
  refine pairwise_map.mpr (List.Pairwise.filterMap _ (fun x y hne r hr r' hr' heq => ?_) hindex)
  obtain ⟨hout, hlt, _⟩ := readVault_spec (toOption_join_eq_some.mp hr)
  obtain ⟨hout', hlt', _⟩ := readVault_spec (toOption_join_eq_some.mp hr')
  rw [hout, hout'] at heq
  have hn := congrArg (fun o : COutPoint => o.n.toNat) heq
  simp only [UInt32.toNat_ofNat_of_lt' hlt, UInt32.toNat_ofNat_of_lt' hlt'] at hn
  exact hne hn

end Outputs

/-! ## Markets -/

section Markets

variable {E : VaultEnv} {domain fnAsset : Uint256}

/-- A deposit of a coloured asset: the first one of its vault establishes the market. -/
def establishes (v : VaultId) (r : FlowMeshVaultRecord) : Bool :=
  r.kind == VAULT_KIND_USER_DEPOSIT && r.asset != NativeAsset && r.vaultId == v

def marketOf (E : VaultEnv) (domain : Uint256) (r : FlowMeshVaultRecord) : FlowMeshMarketRecord where
  baseAsset := r.asset
  marketId := (computeFlowMeshMarketId E domain r.asset).getD 0
  vaultId := r.vaultId
  establishingDeposit := r.outpoint
  createdHeight := r.createdHeight
  createdBlock := r.createdBlock

/-- The market of a vault after the given records were created. -/
def firstMarket (E : VaultEnv) (domain : Uint256) (records : List FlowMeshVaultRecord)
    (v : VaultId) : Option FlowMeshMarketRecord :=
  (records.find? (establishes v)).map (marketOf E domain)

theorem firstMarket_append (records more : List FlowMeshVaultRecord) (v : VaultId) :
    firstMarket E domain (records ++ more) v =
      (firstMarket E domain records v).or (firstMarket E domain more v) := by
  unfold firstMarket
  rw [find?_append]
  cases records.find? (establishes v) <;> rfl

theorem firstMarket_other {r : FlowMeshVaultRecord} {v : VaultId} (h : establishes v r = false) :
    firstMarket E domain [r] v = none := by
  simp [firstMarket, List.find?, h]

/-- Every market has the ids of its base asset. -/
def MarketsSound (E : VaultEnv) (domain : Uint256) (markets : MarketMap) : Prop :=
  ∀ v m, markets.find? v = some m → m.vaultId = v ∧
    computeFlowMeshMarketId E domain m.baseAsset = some m.marketId ∧
    computeFlowMeshVaultId E.vaultHash domain m.marketId = some v

/-- Two markets with one id, or one base asset, are the same. -/
theorem MarketsSound.unique {markets : MarketMap} (h : MarketsSound E domain markets)
    {v v' : VaultId} {m m' : FlowMeshMarketRecord} (hm : markets.find? v = some m)
    (hm' : markets.find? v' = some m')
    (heq : m.marketId = m'.marketId ∨ m.baseAsset = m'.baseAsset) : v = v' := by
  obtain ⟨-, hmarket, hvault⟩ := h v m hm
  obtain ⟨-, hmarket', hvault'⟩ := h v' m' hm'
  have hid : m.marketId = m'.marketId := by
    rcases heq with heq | heq
    · exact heq
    · rw [heq, hmarket'] at hmarket
      exact (some.inj hmarket).symm
  rw [hid, hvault'] at hvault
  exact (some.inj hvault).symm

/-- The markets in the middle of a block: those of the records so far. -/
structure Scratch.Kept (E : VaultEnv) (domain : Uint256) (base : MarketMap)
    (records : List FlowMeshVaultRecord) (s : Scratch) : Prop where
  sound : MarketsSound E domain s.markets
  exact : ∀ v, s.markets.find? v = firstMarket E domain records v
  introduced : ∀ v, s.introduced.find? v = if base.contains v then none else s.markets.find? v
  base : ∀ v m, base.find? v = some m → s.markets.find? v = some m

def Scratch.book (s : Scratch) : NetDelta.Book COutPoint FlowMeshVaultRecord :=
  ⟨s.live, s.removedFromParent, s.createdInOrder⟩

variable {records : List FlowMeshVaultRecord} {base : MarketMap} {s s' : Scratch}
variable {r : FlowMeshVaultRecord}

section

variable (h : s.Kept E domain base records)

include h

/-- A record that establishes no new market. -/
theorem Scratch.Kept.same (hest : ∀ v, establishes v r = true → s.markets.contains v = true) :
    s.Kept E domain base (records ++ [r]) := by
  refine ⟨h.sound, fun v => ?_, h.introduced, h.base⟩
  rw [firstMarket_append, ← h.exact]
  cases hv : establishes v r with
  | false => rw [firstMarket_other hv, or_none]
  | true =>
    obtain ⟨m, hm⟩ := isSome_iff_exists.mp (hest v hv)
    rw [hm]
    rfl

/-- The record is the first coloured deposit of its vault. -/
theorem Scratch.Kept.establish
    (huser : r.kind = VAULT_KIND_USER_DEPOSIT) (hcolored : r.asset ≠ NativeAsset) {market : MarketId}
    (hmarket : computeFlowMeshMarketId E domain r.asset = some market)
    (hvault : computeFlowMeshVaultId E.vaultHash domain market = some r.vaultId)
    (hnone : s.markets.find? r.vaultId = none) : Scratch.Kept E domain base (records ++ [r])
      { s with
        markets := s.markets.emplace r.vaultId (marketOf E domain r)
        introduced := s.introduced.emplace r.vaultId (marketOf E domain r) } := by
  have hbase : base.find? r.vaultId = none := by
    refine eq_none_iff_forall_ne_some.mpr fun m hm => ?_
    rw [h.base _ m hm] at hnone
    cases hnone
  have hnew : s.introduced.find? r.vaultId = none := by
    rw [h.introduced, hnone, ite_self]
  rw [emplace_of_none (marketOf E domain r) hnone,
    emplace_of_none (marketOf E domain r) hnew]
  refine ⟨fun v m hm => ?_, fun v => ?_, fun v => ?_, fun v m hm => ?_⟩
  · rw [find?_insert] at hm
    split_ifs at hm with hv
    · cases hm
      refine ⟨hv.symm, ?_, ?_⟩
      · simp [marketOf, hmarket]
      · simpa [marketOf, hmarket, hv] using hvault
    · exact h.sound v m hm
  · rw [find?_insert, firstMarket_append, ← h.exact]
    split_ifs with hv
    · subst hv
      rw [hnone]
      simp [firstMarket, establishes, huser, hcolored]
    · have hne : establishes v r = false := by
        simp [establishes, Ne.symm hv]
      rw [firstMarket_other hne, or_none]
  · rw [find?_insert, find?_insert]
    by_cases hv : v = r.vaultId
    · subst hv
      simp [contains_eq_false.mpr hbase]
    · rw [if_neg hv, if_neg hv]
      exact h.introduced v
  · rw [find?_insert]
    split_ifs with hv
    · rw [hv, hbase] at hm
      cases hm
    · exact h.base v m hm

theorem establish_refines
    (huser : r.kind = VAULT_KIND_USER_DEPOSIT) (hcolored : r.asset ≠ NativeAsset)
    (hok : establish E domain fnAsset s r = .ok s') :
    s'.Kept E domain base (records ++ [r]) ∧ s'.book = s.book := by
  have hok := of_seq hok
  obtain ⟨market, hmarket, hok⟩ := bind_eq_ok.mp hok
  obtain ⟨vault, hvault, hok⟩ := bind_eq_ok.mp hok
  obtain ⟨heq, hok⟩ := seq_eq_ok.mp hok
  have hmarket := demand_eq_ok.mp hmarket
  have hvault := demand_eq_ok.mp hvault
  have heq : vault = r.vaultId := not_not.mp (reject_eq_ok.mp heq)
  subst heq
  cases hfound : s.markets.find? r.vaultId with
  | none =>
    have hrecord : (⟨r.asset, market, r.vaultId, r.outpoint, r.createdHeight, r.createdBlock⟩ :
        FlowMeshMarketRecord) = marketOf E domain r := by
      simp [marketOf, hmarket]
    rw [hfound, hrecord] at hok
    cases hok
    exact ⟨h.establish huser hcolored hmarket hvault hfound, rfl⟩
  | some m =>
    rw [hfound] at hok
    simp only at hok
    split_ifs at hok
    cases hok
    refine ⟨h.same fun v hv => ?_, rfl⟩
    have hv : r.vaultId = v := by
      simp only [establishes, Bool.and_eq_true, beq_iff_eq] at hv
      exact hv.2
    rw [← hv, OrderedMap.contains, hfound]
    rfl

theorem marketRules_refines (hok : marketRules E domain fnAsset s r = .ok s') :
    s'.Kept E domain base (records ++ [r]) ∧ s'.book = s.book := by
  unfold marketRules at hok
  split_ifs at hok with huser hnative hfirst hpool
  · cases hok
    exact ⟨h.same fun v hv => by simp [establishes, hnative] at hv, rfl⟩
  · exact establish_refines h huser hnative hok
  · cases hok
    exact ⟨h.same fun v hv => by simp [establishes, huser] at hv, rfl⟩

theorem create_refines (hok : create E domain fnAsset s r = .ok s') :
    s'.Kept E domain base (records ++ [r]) ∧
      s'.book = s.book.create outpoint r := by
  obtain ⟨hnew, hok⟩ := seq_eq_ok.mp hok
  obtain ⟨s1, hrules, hok⟩ := bind_eq_ok.mp hok
  have hok := of_seq hok
  obtain ⟨h1, hbook⟩ := marketRules_refines h hrules
  cases hok
  refine ⟨{ h1 with }, ?_⟩
  have hfree : s.live.find? r.outpoint = none :=
    contains_eq_false.mp (by simpa using reject_eq_ok.mp hnew)
  have hlive : s1.live = s.live := congrArg NetDelta.Book.live hbook
  rw [← hlive] at hfree
  rw [← hbook]
  simp only [Scratch.book, NetDelta.Book.create, emplace_of_none r hfree]

end

end Markets

/-! ## Judging a block -/

section Verify

variable {E : VaultEnv} {params : Params} {domain fnAsset : Uint256} {info : BlockInfo}
variable {before : List FlowMeshVaultRecord} {baseLive : LiveMap} {base : MarketMap}
variable {s s' : Scratch}

theorem verifyOutput_refines {txid : Uint256} {x : CTxOut × Nat}
    (h : s.Kept E domain base (before ++ s.createdInOrder))
    (hok : verifyOutput E params domain fnAsset info txid s x = .ok s') :
    s'.Kept E domain base (before ++ s'.createdInOrder) ∧
      s'.book = ((readVault E params info txid x.2 x.1).toOption.join).elim s.book
        (s.book.create outpoint) := by
  obtain ⟨record, hread, hok⟩ := bind_eq_ok.mp hok
  rw [hread]
  cases record with
  | none =>
    cases hok
    exact ⟨h, rfl⟩
  | some r =>
    obtain ⟨hkept, hbook⟩ := create_refines h hok
    have hcreated : s'.createdInOrder = s.createdInOrder ++ [r] :=
      congrArg NetDelta.Book.created hbook
    rw [hcreated, ← append_assoc]
    exact ⟨hkept, hbook⟩

theorem spend_book (s : Scratch) (prevout : COutPoint) : (spend baseLive s prevout).book =
      s.book.spend outpoint baseLive prevout := by
  unfold spend NetDelta.Book.spend
  simp only [Scratch.book]
  cases s.live.find? prevout <;> rfl

theorem Scratch.Kept.spend (h : s.Kept E domain base (before ++ s.createdInOrder))
    (prevout : COutPoint) : (VaultIndex.spend baseLive s prevout).Kept E domain base
      (before ++ (VaultIndex.spend baseLive s prevout).createdInOrder) := by
  unfold VaultIndex.spend
  cases s.live.find? prevout with
  | none => exact h
  | some r => exact { h with }

theorem spends_refines (baseLive : LiveMap) (h : s.Kept E domain base (before ++ s.createdInOrder))
    (vin : List COutPoint) : (vin.foldl (spend baseLive) s).Kept E domain base
        (before ++ (vin.foldl (spend baseLive) s).createdInOrder) ∧
      (vin.foldl (spend baseLive) s).book =
        vin.foldl (NetDelta.Book.spend outpoint baseLive) s.book := by
  induction vin generalizing s with
  | nil => exact ⟨h, rfl⟩
  | cons prevout vin ih =>
    rw [foldl_cons, foldl_cons, ← spend_book]
    exact ih (h.spend prevout)

theorem verifyTransaction_refines {tx : CTransaction}
    (h : s.Kept E domain base (before ++ s.createdInOrder))
    (hok : verifyTransaction E params domain fnAsset info baseLive s tx = .ok s') :
    s'.Kept E domain base (before ++ s'.createdInOrder) ∧
      s'.book = s.book.entry outpoint baseLive (vaultEntry E params info tx) := by
  obtain ⟨h1, hbook1⟩ := spends_refines baseLive h tx.prevouts
  obtain ⟨h2, hbook2⟩ := foldlM_refines
    (fun s => s.Kept E domain base (before ++ s.createdInOrder)) Scratch.book
    (fun book x => ((readVault E params info (E.txid tx) x.2 x.1).toOption.join).elim book
      (book.create outpoint))
    (fun _ _ _ hs => verifyOutput_refines hs) h1 hok
  refine ⟨h2, ?_⟩
  rw [hbook2, hbook1, NetDelta.Book.entry, vaultEntry, foldl_filterMap]
  congr 1
  funext book x
  cases (readVault E params info (E.txid tx) x.2 x.1).toOption.join <;> rfl

end Verify

/-! ## Chains -/

section Chains

variable (E : VaultEnv) (params : Params)

/-- `VerifyBlock`, then `ConnectBlock` of the delta, for a block with new transaction ids. -/
def connect : FlowMeshVaultIndex → Block → Option FlowMeshVaultIndex :=
  verifyAndConnect E.txid (·.live) (fun index b => verifyBlock E params index b.vtx b.info)
    (connectBlock E.output)

def disconnect (index : FlowMeshVaultIndex) (info : BlockInfo) : Option FlowMeshVaultIndex :=
  (index.disconnectBlock info).toOption

/-- Every vault output of the chain, spent or not, oldest first. -/
def createdBy (chain : List Block) : List FlowMeshVaultRecord :=
  (chainLog (vaultEntry E params) chain).flatMap (·.creates)

def chainDomainOf : Uint256 := (configuredChainDomain E.toEnv params).getD 0

end Chains

section ChainLemmas

variable {E : VaultEnv} {params : Params} {index : FlowMeshVaultIndex} {b : Block}
variable {chain : List Block} {delta : FlowMeshVaultBlockDelta} {next : LiveMap}
variable {markets : MarketMap}

/-- What the index keeps about the chain connected to it. -/
structure Tracks (E : VaultEnv) (params : Params) (chain : List Block)
    (index : FlowMeshVaultIndex) : Prop where
  holds : Holds outpoint index.live (chainLog (vaultEntry E params) chain)
  exact : ∀ v, index.markets.find? v =
    firstMarket E (chainDomainOf E params) (createdBy E params chain) v
  sound : MarketsSound E (chainDomainOf E params) index.markets

theorem tracks_start : Tracks E params [] {} := ⟨holds_empty, fun _ => rfl, nofun⟩

/-- What `ConnectBlock` asks of the markets of a delta. -/
structure Established (C : Assets.Crypto) (delta : FlowMeshVaultBlockDelta) (next : LiveMap)
    (m : FlowMeshMarketRecord) (r : FlowMeshVaultRecord) : Prop where
  height : m.createdHeight = delta.height
  block : m.createdBlock = delta.blockHash
  live : next.find? m.establishingDeposit = some r
  asset : r.asset = m.baseAsset
  vault : r.vaultId = m.vaultId
  kind : r.kind = VAULT_KIND_USER_DEPOSIT
  valid : ∃ info, r.Valid C info
  added : r ∈ delta.added

/-- A delta that `VerifyBlock` produced leads to the records and markets of the longer chain. -/
structure Judged (E : VaultEnv) (params : Params) (chain : List Block)
    (index : FlowMeshVaultIndex) (b : Block) (delta : FlowMeshVaultBlockDelta) (next : LiveMap)
    (markets : MarketMap) : Prop extends
    Change (vaultEntry E params) outpoint chain index.live b next
      delta.toBlockDelta where
  exact : ∀ v, markets.find? v =
    firstMarket E (chainDomainOf E params) (createdBy E params (b :: chain)) v
  sound : MarketsSound E (chainDomainOf E params) markets
  marketsBetween : Between FlowMeshMarketRecord.vaultId index.markets markets [] delta.marketsAdded
  established : ∀ m ∈ delta.marketsAdded, ∃ r, Established E.output delta next m r

theorem blockLog_valid {r : FlowMeshVaultRecord}
    (h : r ∈ (blockLog (vaultEntry E params) b).flatMap (·.creates)) : r.Valid E.output b.info := by
  obtain ⟨e, he, hr⟩ := mem_flatMap.mp h
  obtain ⟨tx, _, rfl⟩ := mem_map.mp he
  exact vaultEntry_valid hr

theorem createdBy_cons (b : Block) (chain : List Block) : createdBy E params (b :: chain) =
      createdBy E params chain ++ (blockLog (vaultEntry E params) b).flatMap (·.creates) := by
  rw [createdBy, chainLog_cons, flatMap_append]
  rfl

/-- The introduced markets are the change from the markets before the block. -/
theorem Scratch.Kept.between {domain : Uint256} {base : MarketMap}
    {records : List FlowMeshVaultRecord} {s : Scratch} (h : s.Kept E domain base records) :
    Between FlowMeshMarketRecord.vaultId base s.markets [] (s.introduced.entries.map (·.2)) := by
  have hentry : ∀ e ∈ s.introduced.entries, base.find? e.1 = none ∧ s.markets.find? e.1 = some e.2 ∧
      e.2.vaultId = e.1 := by
    intro e he
    have hfind := find?_eq_some.mpr he
    rw [h.introduced] at hfind
    split_ifs at hfind with hin
    exact ⟨contains_eq_false.mp (by simpa using hin), hfind, (h.sound _ _ hfind).1⟩
  have hkeys : (s.introduced.entries.map (·.2)).map FlowMeshMarketRecord.vaultId =
      s.introduced.keys := by
    rw [List.map_map]
    exact map_congr_left fun e he => (hentry e he).2.2
  refine ⟨nofun, .nil, fun m hm => ?_, hkeys ▸ s.introduced.keys_nodup, fun v _ hv => ?_⟩
  · obtain ⟨e, he, rfl⟩ := mem_map.mp hm
    obtain ⟨hbase, hfind, hvault⟩ := hentry e he
    rw [hvault]
    exact ⟨hfind, hbase⟩
  · rw [hkeys] at hv
    have hnone : s.introduced.find? v = none := by
      refine eq_none_iff_forall_ne_some.mpr fun m hm => hv ?_
      exact mem_map_of_mem (find?_eq_some.mp hm)
    cases hb : base.find? v with
    | some m => exact h.base v m hb
    | none =>
      rw [h.introduced, contains_eq_false.mpr hb] at hnone
      exact hnone

theorem Tracks.keyed (h : Tracks E params chain index) (o : COutPoint) (r : FlowMeshVaultRecord)
    (hr : index.live.find? o = some r) : r.outpoint = o :=
  ((h.holds o r).mp hr).1

theorem Tracks.scratch (h : Tracks E params chain index) :
    Scratch.Kept E (chainDomainOf E params) index.markets (createdBy E params chain ++ [])
      { live := index.live, markets := index.markets } := by
  refine ⟨h.sound, by simpa using h.exact, fun v => ?_, fun _ _ hm => hm⟩
  rw [find?_empty]
  cases hv : index.markets.find? v with
  | none => rw [ite_self]
  | some m => simp [OrderedMap.contains, hv]

variable {m : FlowMeshMarketRecord}

/-- A market that is new in a block comes from a record of that block. -/
theorem Tracks.introduced (h : Tracks E params chain index) {s : Scratch}
    {created : List FlowMeshVaultRecord}
    (hkept : s.Kept E (chainDomainOf E params) index.markets (createdBy E params chain ++ created))
    (hm : m ∈ s.introduced.entries.map (·.2)) :
    ∃ r ∈ created, m = marketOf E (chainDomainOf E params) r := by
  obtain ⟨hfind, hbase⟩ := hkept.between.added_iff m hm
  rw [hkept.exact, firstMarket_append, ← h.exact, hbase, none_or] at hfind
  obtain ⟨r, hr, rfl⟩ := map_eq_some_iff.mp hfind
  exact ⟨r, mem_of_find?_eq_some hr, rfl⟩

theorem height_nonneg {height : Int}
    (h : Consensus.flowMeshVaultPreparationRulesActive params height = true) : 0 ≤ height := by
  unfold Consensus.flowMeshVaultPreparationRulesActive Consensus.flowMeshSeatBindingRulesActive at h
  cases ha : params.assetActivationHeight with
  | none => simp [ha] at h
  | some a =>
    have hle : (a : Int) ≤ height := by simpa [ha] using (Bool.and_eq_true_iff.mp h).2
    omega

theorem depositLive_iff {s : Scratch} : depositLive s m = true ↔
    ∃ r, s.live.find? m.establishingDeposit = some r ∧ r.kind = VAULT_KIND_USER_DEPOSIT ∧
      r.asset = m.baseAsset ∧ r.vaultId = m.vaultId := by
  simp [depositLive, Option.any_eq_true, and_assoc]

theorem depositLive_of_mem {s : Scratch}
    (h : ¬ s.introduced.entries.any fun e => depositLive s e.2 = false)
    (hm : m ∈ s.introduced.entries.map (·.2)) : depositLive s m = true := by
  obtain ⟨e, he, rfl⟩ := mem_map.mp hm
  rw [List.any_eq_true, not_exists] at h
  simpa [he] using h e

theorem verifyBlock_judged (h : Tracks E params chain index)
    (hfresh : freshIds E.txid index.live b = true)
    (hok : verifyBlock E params index b.vtx b.info = .ok delta) :
    ∃ next markets, Judged E params chain index b delta next markets := by
  obtain ⟨hactive, hok⟩ := seq_eq_ok.mp hok
  obtain ⟨hhash, hok⟩ := seq_eq_ok.mp hok
  obtain ⟨domain, hdomain, hok⟩ := bind_eq_ok.mp hok
  obtain ⟨fnAsset, -, hok⟩ := bind_eq_ok.mp hok
  obtain ⟨s, hfold, hok⟩ := bind_eq_ok.mp hok
  obtain ⟨hdeposits, hok⟩ := seq_eq_ok.mp hok
  cases hok
  have hdom : domain = chainDomainOf E params := by
    rw [chainDomainOf, demand_eq_ok.mp hdomain]
    rfl
  subst hdom
  obtain ⟨hkept, hbook⟩ := foldlM_refines
    (fun s => s.Kept E (chainDomainOf E params) index.markets
      (createdBy E params chain ++ s.createdInOrder)) Scratch.book
    (fun book tx => book.entry outpoint index.live
      (vaultEntry E params b.info tx))
    (fun _ _ _ hs => verifyTransaction_refines hs) h.scratch hfold
  have hnew : NetDelta.Book.Fresh outpoint index.live
      (blockLog (vaultEntry E params) b) :=
    fresh_blockLog vaultEntry_hash vaultEntry_nodup hfresh
  obtain ⟨hprogress, hcreated, hholds⟩ :=
    book_block vaultEntry_hash vaultEntry_nodup hfresh h.holds hbook
  change s.createdInOrder = _ at hcreated
  refine ⟨s.live, s.markets, ⟨rfl, height_nonneg (by simpa using reject_eq_ok.mp hactive),
    reject_eq_ok.mp hhash, hholds, hprogress.between⟩, fun v => ?_, hkept.sound, hkept.between,
    fun m hm => ?_⟩
  · rw [createdBy_cons, ← hcreated]
    exact hkept.exact v
  · obtain ⟨r0, hr0, rfl⟩ := h.introduced hkept hm
    obtain ⟨r, hr, hkind, hasset, hvault⟩ :=
      depositLive_iff.mp (depositLive_of_mem (reject_eq_ok.mp hdeposits) hm)
    have hr : s.live.find? r0.outpoint = some r := hr
    have hkey : r.outpoint = r0.outpoint := hprogress.key_eq hr
    have hr0' : r0 ∈ (blockLog (vaultEntry E params) b).flatMap (·.creates) := hcreated ▸ hr0
    have hmem : r ∈ s.createdInOrder := by
      rcases hprogress.origin _ r hr with hb | hc
      · rw [hnew.new r0 hr0'] at hb
        cases hb
      · exact hc.1
    have hvalid0 := blockLog_valid hr0'
    refine ⟨r, hvalid0.height, hvalid0.block, hr, hasset, hvault, hkind,
      ⟨b.info, blockLog_valid (hcreated ▸ hmem)⟩, ?_⟩
    refine mem_filter.mpr ⟨hmem, decide_eq_true ?_⟩
    rw [hkey]
    exact hr

/-! ## Connecting and disconnecting -/

section

variable (e : String) {m : LiveMap} {r : FlowMeshVaultRecord}

theorem remove_ok (h : m.find? r.outpoint = some r) :
    remove e m r = .ok (m.erase r.outpoint) :=
  if_neg (not_not.mpr h)

theorem put_ok (h : m.find? r.outpoint = none) :
    put e m r = .ok (m.insert r.outpoint r) := by
  unfold put
  rw [contains_eq_false.mpr h, emplace_of_none r h]
  rfl

/-- The records of one map, changed step by step, become those of the other. -/
theorem liveBetween {base : LiveMap} {removed added : List FlowMeshVaultRecord}
    (h : Between outpoint base m removed added) (e e' : String) :
    ∃ mid, removed.foldlM (remove e) base = .ok mid ∧
      added.foldlM (put e') mid = .ok m := by
  obtain ⟨mid, last, hremoved, hadded, -, hlast⟩ := h.run id (fun _ => True)
    (remove e) (put e')
    (fun _ _ _ _ hr => ⟨_, remove_ok e hr, trivial, rfl⟩)
    (fun _ _ _ _ hr _ => ⟨_, put_ok e' hr, trivial, rfl⟩) trivial rfl
  exact ⟨mid, hremoved, hlast ▸ hadded⟩

end

section

variable {C : Assets.Crypto} {r : FlowMeshVaultRecord}

theorem Established.vault_ne (h : Established C delta next m r) : m.vaultId ≠ 0 := by
  obtain ⟨info, hvalid⟩ := h.valid
  exact h.vault ▸ hvalid.vault

/-- A new market passes the checks of `ConnectBlock`. -/
theorem addMarket_ok {domain : Uint256} {cur target : MarketMap}
    (hest : Established C delta next m r) (hsound : MarketsSound E domain target)
    (hnone : cur.find? m.vaultId = none) (hsub : NetDelta.Sub (cur.insert m.vaultId m) target) :
    addMarket C delta next cur m = .ok (cur.insert m.vaultId m) := by
  have hm : target.find? m.vaultId = some m := hsub _ _ (find?_insert_self _ _ _)
  obtain ⟨-, hmarket, hvault⟩ := hsound _ m hm
  have hother : ∀ e ∈ cur.entries, e.2.marketId ≠ m.marketId ∧ e.2.baseAsset ≠ m.baseAsset := by
    intro e he
    have hcur := find?_eq_some.mpr he
    have hne : e.1 ≠ m.vaultId := by
      intro heq
      rw [heq, hnone] at hcur
      cases hcur
    have htarget : target.find? e.1 = some e.2 :=
      hsub _ _ (by rw [find?_insert, if_neg hne]; exact hcur)
    exact ⟨fun heq => hne (hsound.unique htarget hm (.inl heq)),
      fun heq => hne (hsound.unique htarget hm (.inr heq))⟩
  obtain ⟨info, hvalid⟩ := hest.valid
  obtain ⟨a, haccount, ha, hshard⟩ := hvalid.deposit hest.kind
  have hbase : m.baseAsset ≠ 0 ∧ m.baseAsset ≠ NativeAsset := by
    unfold computeFlowMeshMarketId at hmarket
    split_ifs at hmarket with hnull
    simp only [not_or] at hnull
    exact hnull.2
  have hid : m.marketId ≠ 0 := by
    unfold computeFlowMeshVaultId at hvault
    split_ifs at hvault with hnull
    exact (not_or.mp hnull).2
  have hok : marketOk C delta next cur m = true := by
    unfold marketOk
    rw [hest.live]
    simp only [Bool.and_eq_true, beq_iff_eq, bne_iff_ne, List.all_eq_true, Option.any_some,
      contains_iff_mem]
    refine ⟨⟨⟨⟨⟨⟨⟨hest.height, hest.block⟩, hbase.1⟩, hbase.2⟩, hid⟩, hest.vault_ne⟩, hother⟩,
      ⟨⟨⟨hest.asset, hest.vault⟩, hest.kind⟩, ?_⟩, hest.added⟩
    rw [haccount, any_some, Bool.and_eq_true, bne_iff_ne, beq_iff_eq, ← hest.vault]
    exact ⟨ha, hshard⟩
  unfold addMarket
  rw [hok, contains_eq_false.mpr hnone, emplace_of_none m hnone]
  simp

end

theorem Judged.addMarkets (hj : Judged E params chain index b delta next markets) :
    delta.marketsAdded.foldlM (addMarket E.output delta next) index.markets =
      .ok markets := by
  obtain ⟨mid, last, hmid, hadded, -, hlast⟩ := hj.marketsBetween.run id (fun _ => True)
    removeMarket (addMarket E.output delta next) nofun
    (fun cur m hm _ hnone hsub =>
      let ⟨_, hest⟩ := hj.established m hm
      ⟨_, addMarket_ok hest hj.sound hnone hsub, trivial, rfl⟩)
    trivial rfl
  cases hmid
  exact hlast ▸ hadded

theorem Judged.removeMarkets (hj : Judged E params chain index b delta next markets) :
    delta.marketsAdded.reverse.foldlM removeMarket markets =
      .ok index.markets := by
  obtain ⟨mid, last, hremoved, hlast, -, heq⟩ := hj.marketsBetween.symm.reverse.run id (fun _ => True)
    removeMarket (fun cur _ => .ok cur)
    (fun cur m _ _ hm => ⟨cur.erase m.vaultId, if_neg (not_not.mpr hm), trivial, rfl⟩) nofun
    trivial rfl
  cases hlast
  exact heq ▸ hremoved

theorem Judged.connectBlock_iff {index' : FlowMeshVaultIndex}
    (hj : Judged E params chain index b delta next markets) :
    index.connectBlock E.output delta = .ok index' ↔
      contiguous (index.history.map (·.toBlockInfo)) b ∧
        index' = ⟨next, markets, delta :: index.history⟩ := by
  obtain ⟨mid, hremoved, hadded⟩ := liveBetween hj.between
    "FlowMesh vault delta removes the wrong outpoint" "FlowMesh vault delta duplicates an outpoint"
  refine seq_eq_ok.trans ((and_iff_right (reject_eq_ok.mpr hj.identity)).trans ?_)
  refine seq_eq_ok.trans (and_congr ?_ ⟨fun h => ?_, fun h => ?_⟩)
  · rw [reject_eq_ok, hj.info]
    exact contiguous_iff
  · obtain ⟨_, hremove, h⟩ := bind_eq_ok.mp h
    cases hremoved.symm.trans hremove
    obtain ⟨_, hadd, h⟩ := bind_eq_ok.mp h
    cases hadded.symm.trans hadd
    obtain ⟨_, hmarkets, h⟩ := bind_eq_ok.mp h
    cases hj.addMarkets.symm.trans hmarkets
    exact (Except.ok.inj h).symm
  · refine bind_eq_ok.mpr ⟨mid, hremoved, bind_eq_ok.mpr ⟨next, hadded, ?_⟩⟩
    exact bind_eq_ok.mpr ⟨markets, hj.addMarkets, congrArg Except.ok h.symm⟩

theorem Judged.disconnectBlock (hj : Judged E params chain index b delta next markets) :
    disconnectBlock ⟨next, markets, delta :: index.history⟩ b.info =
      .ok index := by
  obtain ⟨mid, hadded, hremoved⟩ := liveBetween hj.between.symm.reverse
    "FlowMesh vault undo cannot remove its addition" "FlowMesh vault undo cannot restore its removal"
  refine seq_eq_ok.mpr ⟨reject_eq_ok.mpr hj.tip, ?_⟩
  refine bind_eq_ok.mpr ⟨mid, hadded, bind_eq_ok.mpr ⟨_, hremoved, ?_⟩⟩
  exact bind_eq_ok.mpr ⟨index.markets, hj.removeMarkets, rfl⟩

theorem Tracks.connect {index' : FlowMeshVaultIndex} (h : Tracks E params chain index)
    (hstep : VaultIndex.connect E params index b = some index') :
    ∃ delta next markets, Judged E params chain index b delta next markets ∧
      contiguous (index.history.map (·.toBlockInfo)) b ∧
      index' = ⟨next, markets, delta :: index.history⟩ := by
  obtain ⟨hfresh, delta, hok, hconn⟩ := verifyAndConnect_eq_some.mp hstep
  obtain ⟨next, markets, judged⟩ := verifyBlock_judged h hfresh hok
  exact ⟨delta, next, markets, judged, judged.connectBlock_iff.mp hconn⟩

theorem run_tracks (h : Run (connect E params) {} chain index) : Tracks E params chain index := by
  induction h with
  | start => exact tracks_start
  | next _ hstep ih =>
    obtain ⟨_, _, _, judged, _, rfl⟩ := ih.connect hstep
    exact { judged with }

theorem journal : Journal (connect E params) {} history (·.toBlockInfo) where
  start := rfl
  next hrun hstep := by
    obtain ⟨delta, _, _, judged, hnext, rfl⟩ := (run_tracks hrun).connect hstep
    exact ⟨delta, rfl, judged.info, hnext⟩

theorem disconnect_undoes : Undoes (connect E params) disconnect {} where
  start _ := rfl
  restores := by
    intro chain index index' restored b info hrun hstep hundo
    obtain ⟨delta, next, markets, judged, _, rfl⟩ := (run_tracks hrun).connect hstep
    have hundo := toOption_eq_some.mp hundo
    obtain rfl : b.info = info := judged.info.symm.trans
      (eq_of_tip (reject_eq_ok.mp (seq_eq_ok.mp hundo).1))
    rw [judged.disconnectBlock] at hundo
    exact (Except.ok.inj hundo).symm

variable {older newer : List Block} {mid : FlowMeshVaultIndex}
  (hmid : Run (connect E params) {} (b :: older) mid)
  (hnew : Run (connect E params) mid newer index)

/-! ## Records of old blocks -/

section

variable {e : String} (o : COutPoint) {m m' : LiveMap} {r : FlowMeshVaultRecord}

theorem lookbackAdded_of_remove (h : remove e m r = .ok m') :
    lookbackAdded o (m.find? o) r = .ok (m'.find? o) := by
  unfold remove at h
  split_ifs at h with hr
  cases h
  unfold lookbackAdded
  rw [find?_erase]
  by_cases ho : r.outpoint = o
  · subst ho
    simp [not_not.mp hr]
  · simp [ho, Ne.symm ho]

theorem lookbackRemoved_of_put (h : put e m r = .ok m') :
    lookbackRemoved o (m.find? o) r = .ok (m'.find? o) := by
  unfold put at h
  split_ifs at h with hr
  have hnone := contains_eq_false.mp (Bool.eq_false_iff.mpr hr)
  rw [emplace_of_none r hnone] at h
  cases h
  unfold lookbackRemoved
  rw [find?_insert]
  by_cases ho : r.outpoint = o
  · subst ho
    simp [hnone]
  · simp [ho, Ne.symm ho]

end

theorem Judged.lookbackBlock (hj : Judged E params chain index b delta next markets)
    (o : COutPoint) :
    lookbackBlock o delta (next.find? o) = .ok (index.live.find? o) := by
  obtain ⟨mid, hadded, hremoved⟩ := liveBetween hj.between.symm.reverse "" ""
  exact bind_eq_ok.mpr ⟨_, foldlM_maps (fun m : LiveMap => m.find? o)
    (fun _ _ _ => lookbackAdded_of_remove o) hadded, foldlM_maps (fun m : LiveMap => m.find? o)
    (fun _ _ _ => lookbackRemoved_of_put o) hremoved⟩

include hmid hnew in
theorem run_lookback (o : COutPoint) :
    lookback o b.info index.history (index.live.find? o) =
      .ok (mid.live.find? o) := by
  refine journal.rewind hmid hnew (fun index => index.live.find? o) fun hrun hstep heq => ?_
  obtain ⟨_, _, _, judged, _, rfl⟩ := (run_tracks hrun).connect hstep
  cases heq
  exact judged.lookbackBlock o

/-! ## Markets of old blocks -/

/-- A market stands in the delta of the block that it says created it. -/
theorem run_market_created (h : Run (connect E params) {} chain index) {v : VaultId}
    (hm : index.markets.find? v = some m) :
    ∃ d ∈ index.history, d.height = m.createdHeight ∧ d.blockHash = m.createdBlock ∧
      m ∈ d.marketsAdded := by
  induction h with
  | start => cases hm
  | next hrun hstep ih =>
    obtain ⟨delta, next, markets, judged, _, rfl⟩ := (run_tracks hrun).connect hstep
    rcases judged.marketsBetween.origin hm with hold | hadded
    · obtain ⟨d, hd, hcreated⟩ := ih hold
      exact ⟨d, mem_cons_of_mem _ hd, hcreated⟩
    · obtain ⟨r, hest⟩ := judged.established m hadded
      exact ⟨delta, mem_cons_self, hest.height.symm, hest.block.symm, hadded⟩

include hmid hnew in
/-- The markets right after a block are those of the tip that were created by then. -/
theorem run_markets (v : VaultId) (m : FlowMeshMarketRecord) :
    mid.markets.find? v = some m ↔
      index.markets.find? v = some m ∧ m.createdHeight ≤ b.info.height := by
  induction hnew with
  | start =>
    refine ⟨fun hm => ⟨hm, ?_⟩, And.left⟩
    obtain ⟨d, hd, hheight, -⟩ := run_market_created hmid hm
    obtain ⟨b', hb', hinfo⟩ := mem_map.mp (journal.blocks hmid ▸ mem_map_of_mem hd)
    have hheights := pairwise_cons.mp (journal.heights hmid)
    rw [← hheight, ← hinfo]
    rcases mem_cons.mp hb' with rfl | hb'
    · exact le_rfl
    · exact (hheights.1 b' hb').le
  | @next newer index index' top hrun hstep ih =>
    have hlt := journal.height_lt hmid hrun hstep
    obtain ⟨delta, next, markets, judged, _, rfl⟩ := (run_tracks (hmid.trans hrun)).connect hstep
    rw [ih]
    refine and_congr_left fun hle => ⟨fun hm => judged.marketsBetween.kept v m hm, fun hm => ?_⟩
    refine (judged.marketsBetween.origin hm).resolve_right fun hadded => ?_
    obtain ⟨r, hest⟩ := judged.established m hadded
    have := hest.height
    have := judged.height
    omega

theorem run_hasAnchor (h : Run (connect E params) {} chain index) (hb : b ∈ chain) :
    index.hasAnchor b.info = true := by
  obtain ⟨d, hd, hinfo⟩ := journal.mem h hb
  unfold hasAnchor
  rw [journal.find? h hd (p := fun d' => d'.height == b.info.height) (by simp [← hinfo])
    (fun d' hd' => by
      rw [beq_iff_eq, ← hinfo] at hd'
      exact hd')]
  simp [← hinfo]

/-- A market of the index that was created by then is found at a retained block. -/
theorem run_marketAt (h : Run (connect E params) {} chain index) (hb : b ∈ chain) {v : VaultId}
    (hm : index.markets.find? v = some m)
    (hle : m.createdHeight ≤ b.info.height) : index.marketAt m.marketId b.info = some m := by
  have hmarket : index.market m.marketId = some m := by
    unfold market
    cases hfound : (index.markets.entries.map (·.2)).find? (·.marketId == m.marketId) with
    | none =>
      have := find?_eq_none.mp hfound m (mem_map_of_mem (find?_eq_some.mp hm))
      simp at this
    | some m' =>
      obtain ⟨e, he, rfl⟩ := mem_map.mp (mem_of_find?_eq_some hfound)
      have hid : e.2.marketId = m.marketId := by simpa using find?_some hfound
      have he := find?_eq_some.mpr he
      rw [(run_tracks h).sound.unique he hm (.inl hid), hm] at he
      exact he.symm
  obtain ⟨d, hd, hheight, hblock, hmem⟩ := run_market_created h hm
  unfold marketAt
  rw [hmarket]
  simp only
  rw [if_neg (not_lt.mpr hle), run_hasAnchor h hb,
    journal.find? h hd (p := fun d' => d'.height == m.createdHeight && d'.blockHash == m.createdBlock)
      (by simp [hheight, hblock]) (fun d' hd' => by
        rw [Bool.and_eq_true, beq_iff_eq] at hd'
        rw [hheight]
        exact hd'.1)]
  simp [hmem]

include hmid hnew in
theorem run_marketsAt : index.marketsAt b.info =
      sortMarkets (mid.markets.entries.map (·.2)) := by
  have hall := hmid.trans hnew
  have hb : b ∈ newer ++ b :: older := mem_append_right _ mem_cons_self
  unfold marketsAt
  rw [run_hasAnchor hall hb, if_neg (by decide)]
  congr 1
  rw [List.filter_map]
  congr 1
  refine filter_entries (m := index.markets) (p := fun m => decide
    (m.createdHeight ≤ b.info.height ∧ (index.marketAt m.marketId b.info).isSome)) fun v m => ?_
  rw [run_markets hmid hnew, decide_eq_true_eq]
  refine and_congr_right fun hm => ⟨fun hle => ⟨hle, ?_⟩, And.left⟩
  rw [run_marketAt hall hb hm hle]
  rfl

/-- What the index is for a connected chain. -/
structure Exact (E : VaultEnv) (params : Params) (chain : List Block)
    (index : FlowMeshVaultIndex) : Prop where
  /-- The live records are the unspent vault outputs of the chain. -/
  live : ∀ o r, index.live.find? o = some r ↔
    r.outpoint = o ∧ Unspent outpoint (chainLog (vaultEntry E params) chain) r
  /-- The market of a vault is the one of its first deposit in a coloured asset. -/
  markets : ∀ v, index.markets.find? v =
    firstMarket E (chainDomainOf E params) (createdBy E params chain) v
  /-- What `VerifyBlock` produced is connected if and only if the block stands right above the
  tip, and disconnecting it gives the index back. -/
  connects : ∀ b delta, freshIds E.txid index.live b = true →
    verifyBlock E params index b.vtx b.info = .ok delta →
    ((∃ index', index.connectBlock E.output delta = .ok index') ↔
      contiguous (index.history.map (·.toBlockInfo)) b) ∧
    ∀ index', index.connectBlock E.output delta = .ok index' →
      index'.disconnectBlock b.info = .ok index
  /-- Queries for a retained block give what the index held right after it. -/
  queries : ∀ newer b older, chain = newer ++ b :: older → ∃ mid,
    Run (connect E params) {} (b :: older) mid ∧
    (∀ o, index.lookupAt o b.info = mid.live.find? o) ∧
    index.marketsAt b.info = sortMarkets (mid.markets.entries.map (·.2))

theorem vault_index_exact {moves : List (Reversible.Move Block BlockInfo)}
    (hmoves : Run (act (connect E params) disconnect) {} moves index) :
    Run (connect E params) {} (standing moves) index ∧ Exact E params (standing moves) index := by
  have hrun := disconnect_undoes.run_standing hmoves
  have htracks := run_tracks hrun
  refine ⟨hrun, htracks.holds, htracks.exact, fun b delta hfresh hok => ?_,
    fun newer b older hchain => ?_⟩
  · obtain ⟨next, markets, judged⟩ := verifyBlock_judged htracks hfresh hok
    simp only [judged.connectBlock_iff, exists_and_left, exists_eq, and_true, true_and]
    rintro index' ⟨-, rfl⟩
    exact judged.disconnectBlock
  · rw [hchain] at hrun
    obtain ⟨mid, hmid, hnew⟩ := hrun.split
    refine ⟨mid, hmid, fun o => ?_, run_marketsAt hmid hnew⟩
    rw [lookupAt, run_lookback hmid hnew o]

end ChainLemmas

/-! ## A market with a deposit that is spent later -/

def sampleEnv : VaultEnv where
  toEnv := Assets.sampleEnv
  marketHash _ base := base + 10
  vaultHash _ market := market + 10
  txid tx := (tx.prevouts.map (·.hash)).sum + 1

/-- A deposit of asset 7 into its vault, for account 6. -/
def depositTx (spent : Uint256) : CTransaction where
  vin := [{ prevout := ⟨spent, 0⟩ }]
  vout := [⟨0, Script.minimalPush (ASSET_OUTPUT_MAGIC ++ bigEndian 32 7 ++ bigEndian 8 5 ++
    bigEndian 2 PolicyType.DEX_VAULT.code ++ bigEndian 2 2 ++ bigEndian 32 27 ++
    [VAULT_KIND_USER_DEPOSIT, 4, 0] ++ bigEndian 32 6) ++ [OP_DROP, OP_FALSE]⟩]

def depositBlock : Block := ⟨[depositTx 100], ⟨2, 20⟩⟩

/-- The deposit of transaction 101 is spent by another one. -/
def spendBlock : Block := ⟨[depositTx 101], ⟨3, 30⟩⟩

def depositIndex : FlowMeshVaultIndex := (connect sampleEnv sampleParams {} depositBlock).getD {}

def spentIndex : FlowMeshVaultIndex :=
  (connect sampleEnv sampleParams depositIndex spendBlock).getD {}

theorem deposit_spent : (spentIndex.live.find? ⟨101, 0⟩).isNone = true ∧
    (spentIndex.live.find? ⟨102, 0⟩).isSome = true ∧
    (spentIndex.lookupAt ⟨101, 0⟩ ⟨2, 20⟩).isSome = true ∧
    (spentIndex.markets.find? 27).map (·.establishingDeposit) = some ⟨101, 0⟩ ∧
    Exact sampleEnv sampleParams [spendBlock, depositBlock] spentIndex := by
  have hdeposit : connect sampleEnv sampleParams {} depositBlock = some depositIndex := by
    decide +kernel
  have hspend : connect sampleEnv sampleParams depositIndex spendBlock = some spentIndex := by
    decide +kernel
  have hrun : Run (act (connect sampleEnv sampleParams) disconnect) {}
      [.forward spendBlock, .forward depositBlock] spentIndex :=
    run_forward (run_forward .start hdeposit) hspend
  exact ⟨by decide +kernel, by decide +kernel, by decide +kernel, by decide +kernel,
    (vault_index_exact hrun).2⟩

end B3Coin.FlowMesh.VaultIndex
