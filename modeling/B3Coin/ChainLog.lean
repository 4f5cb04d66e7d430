import B3Coin.Lib.NetDelta
import B3Coin.Transaction

/-!
# Blocks as entries of a log

An index of outputs sees a transaction as the outpoints it spends and the records
it creates. The log of a chain is that of its blocks, oldest first. Validation has
refused a block that repeats a transaction id or reuses one with unspent outputs
before an index sees it; the keys of the log are then new.
-/
namespace B3Coin

open FlowMesh (COutPoint)
open NetDelta SpendLog List

/-- What a block is judged and recorded under. -/
structure BlockInfo where
  height : Int
  blockHash : Uint256
  deriving DecidableEq

structure Block where
  vtx : List CTransaction
  info : BlockInfo
  deriving DecidableEq

/-- `CChain`: the active chain by height, from the first block on. -/
structure CChain where
  blocks : List BlockInfo
  heights : ∀ (i : Nat) info, blocks[i]? = some info → info.height = i

/-- `operator[]`. -/
def CChain.get? (c : CChain) (height : Int) : Option BlockInfo :=
  if height < 0 then none else c.blocks[height.toNat]?

theorem CChain.get?_of_mem {c : CChain} {info : BlockInfo} (h : info ∈ c.blocks) :
    c.get? info.height = some info := by
  obtain ⟨i, hi, hget⟩ := getElem_of_mem h
  have hget : c.blocks[i]? = some info := by rw [getElem?_eq_getElem hi, hget]
  unfold CChain.get?
  rw [c.heights i info hget, if_neg (by omega), Int.toNat_natCast, hget]

theorem CChain.get?_isSome {c : CChain} {height : Int} (h₀ : 0 ≤ height)
    (h : height < c.blocks.length) : ∃ info, c.get? height = some info ∧ info.height = height := by
  have hlt : height.toNat < c.blocks.length := by omega
  have hget := getElem?_eq_getElem hlt
  refine ⟨_, (if_neg (not_lt.mpr h₀)).trans hget, ?_⟩
  rw [c.heights _ _ hget]
  omega

namespace ChainLog

variable {ρ : Type*}

section Logs

variable (entry : BlockInfo → CTransaction → Entry COutPoint ρ)

def blockLog (b : Block) : List (Entry COutPoint ρ) := b.vtx.map (entry b.info)

/-- The log of a chain, whose latest block comes first. -/
def chainLog (chain : List Block) : List (Entry COutPoint ρ) :=
  chain.reverse.flatMap (blockLog entry)

theorem chainLog_cons (b : Block) (below : List Block) :
    chainLog entry (b :: below) = chainLog entry below ++ blockLog entry b := by
  simp [chainLog]

end Logs

/-- No two transactions of the block share an id, and none has the id of a transaction with a
live record. -/
def freshIds (txid : CTransaction → Uint256) (live : OrderedMap COutPoint ρ) (b : Block) : Bool :=
  decide (b.vtx.map txid).Nodup &&
    live.entries.all fun e => decide (e.1.hash ∉ b.vtx.map txid)

variable {txid : CTransaction → Uint256} {live : OrderedMap COutPoint ρ} {b : Block}

theorem freshIds_iff : freshIds txid live b = true ↔ (b.vtx.map txid).Nodup ∧
    ∀ o r, live.find? o = some r → o.hash ∉ b.vtx.map txid := by
  unfold freshIds
  rw [Bool.and_eq_true, decide_eq_true_eq, all_eq_true]
  refine and_congr_right fun _ => ⟨fun h o r hr => ?_, fun h e he => ?_⟩
  · exact of_decide_eq_true (h (o, r) (OrderedMap.find?_eq_some.mp hr))
  · exact decide_eq_true (h e.1 e.2 (OrderedMap.find?_eq_some.mpr he))

/-- Records under outpoints of their own transactions have new keys. -/
theorem fresh_blockLog {entry : BlockInfo → CTransaction → Entry COutPoint ρ} {key : ρ → COutPoint}
    (hhash : ∀ info tx, ∀ r ∈ (entry info tx).creates, (key r).hash = txid tx)
    (hnd : ∀ info tx, ((entry info tx).creates.map key).Nodup)
    (hfresh : freshIds txid live b = true) : Book.Fresh key live (blockLog entry b) := by
  obtain ⟨hids, hlive⟩ := freshIds_iff.mp hfresh
  refine ⟨?_, fun r hr => ?_⟩
  · unfold blockLog
    rw [flatMap_map, map_flatMap, nodup_flatMap]
    refine ⟨fun tx _ => hnd b.info tx, ?_⟩
    refine (pairwise_map.mp hids).imp fun {tx tx'} hne => ?_
    intro k hk hk'
    obtain ⟨r, hr, rfl⟩ := mem_map.mp hk
    obtain ⟨r', hr', heq⟩ := mem_map.mp hk'
    exact hne (by rw [← hhash _ tx r hr, ← hhash _ tx' r' hr', heq])
  · obtain ⟨e, he, hr⟩ := mem_flatMap.mp hr
    obtain ⟨tx, htx, rfl⟩ := mem_map.mp he
    refine Option.eq_none_iff_forall_ne_some.mpr fun x hx => hlive _ x hx ?_
    rw [hhash _ tx r hr]
    exact mem_map_of_mem htx

end ChainLog

end B3Coin
