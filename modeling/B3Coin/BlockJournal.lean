import B3Coin.ChainLog
import B3Coin.Lib.Guards
import B3Coin.Lib.Reversible

/-!
# Indices that keep the net change of every block

The indices of seats and of vault outputs judge a block against what they hold, take
in its net change and put it on their history, whose deltas have heights in a row.
Going back through the history undoes the deltas down to a retained block. What such
an index keeps along a chain is stated here once for both.
-/
namespace B3Coin

open FlowMesh (COutPoint)
open Guards NetDelta SpendLog List
open Transition (Run)

/-- The net change of one block. -/
structure BlockDelta (ρ : Type) extends BlockInfo where
  height := -1
  blockHash := 0
  removed : List ρ := []
  added : List ρ := []
  deriving DecidableEq

namespace BlockJournal

open ChainLog

/-! ## One block -/

section Change

variable {ρ : Type}

/-- The delta of a block leads from the records of a chain to those of the longer one. -/
structure Change (entry : BlockInfo → CTransaction → Entry COutPoint ρ) (key : ρ → COutPoint)
    (chain : List Block) (live : OrderedMap COutPoint ρ) (b : Block)
    (next : OrderedMap COutPoint ρ) (delta : BlockDelta ρ) : Prop where
  info : delta.toBlockInfo = b.info
  height_nonneg : 0 ≤ b.info.height
  hash_ne : b.info.blockHash ≠ 0
  holds : Holds key next (chainLog entry (b :: chain))
  between : Between key live next delta.removed delta.added

variable {entry : BlockInfo → CTransaction → Entry COutPoint ρ} {key : ρ → COutPoint}
  {chain : List Block} {live next : OrderedMap COutPoint ρ} {b : Block} {delta : BlockDelta ρ}

theorem Change.height (h : Change entry key chain live b next delta) :
    delta.height = b.info.height :=
  congrArg BlockInfo.height h.info

/-- The delta of a verified block passes the check of its identity. -/
theorem Change.identity (h : Change entry key chain live b next delta) :
    ¬ (delta.height < 0 ∨ delta.blockHash = 0) := by
  rw [h.info]
  exact not_or.mpr ⟨not_lt.mpr h.height_nonneg, h.hash_ne⟩

theorem Change.tip (h : Change entry key chain live b next delta) :
    ¬ (delta.height ≠ b.info.height ∨ delta.blockHash ≠ b.info.blockHash) := by
  simp [h.info]

theorem eq_of_tip {info : BlockInfo}
    (h : ¬ (delta.height ≠ info.height ∨ delta.blockHash ≠ info.blockHash)) :
    delta.toBlockInfo = info := by
  rw [not_or, not_not, not_not] at h
  cases info
  cases hd : delta.toBlockInfo
  simp_all

/-- The loop over a block of new transaction ids follows its log. -/
theorem book_block {txid : CTransaction → Uint256}
    (hhash : ∀ info tx, ∀ r ∈ (entry info tx).creates, (key r).hash = txid tx)
    (hnd : ∀ info tx, ((entry info tx).creates.map key).Nodup)
    (hfresh : freshIds txid live b = true) (hholds : Holds key live (chainLog entry chain))
    {book : Book COutPoint ρ}
    (hbook : book = b.vtx.foldl (fun book tx => book.entry key live (entry b.info tx)) { live }) :
    book.Ok key live ∧ book.created = (blockLog entry b).flatMap (·.creates) ∧
      Holds key book.live (chainLog entry (b :: chain)) := by
  have hblock : book = Book.block key live (blockLog entry b) := by
    rw [hbook, Book.block, blockLog, foldl_map]
  rw [hblock, chainLog_cons]
  exact Book.block_spec (fun o r hr => ((hholds o r).mp hr).1) hholds
    (fresh_blockLog hhash hnd hfresh)

end Change

/-! ## Connecting -/

section Connect

variable {σ δ ρ : Type}

/-- The block stands right above the latest of the history. -/
def contiguous (history : List BlockInfo) (b : Block) : Prop :=
  ∀ last ∈ history.head?, b.info.height = last.height + 1

/-- As the code tests it. -/
theorem contiguous_iff {info : δ → BlockInfo} {history : List δ} {b : Block} :
    ¬ (history.head?.any fun last => b.info.height ≠ (info last).height + 1) = true ↔
      contiguous (history.map info) b := by
  cases history <;> simp [contiguous]

/-- A block of new transaction ids is verified, and its delta connected. -/
def verifyAndConnect (txid : CTransaction → Uint256) (live : σ → OrderedMap COutPoint ρ)
    (verify : σ → Block → Except String δ) (connectBlock : σ → δ → Except String σ) (s : σ)
    (b : Block) : Option σ :=
  if freshIds txid (live s) b then ((verify s b).bind (connectBlock s)).toOption else none

theorem verifyAndConnect_eq_some {txid : CTransaction → Uint256} {live : σ → OrderedMap COutPoint ρ}
    {verify : σ → Block → Except String δ} {connectBlock : σ → δ → Except String σ} {s t : σ}
    {b : Block} : verifyAndConnect txid live verify connectBlock s b = some t ↔
      freshIds txid (live s) b = true ∧
        ∃ delta, verify s b = .ok delta ∧ connectBlock s delta = .ok t := by
  unfold verifyAndConnect
  rw [Option.ite_none_right_eq_some, toOption_eq_some, bind_eq_ok]

end Connect

/-! ## Going back -/

section Rewind

variable {δ τ : Type} {info : δ → BlockInfo} {undo : δ → τ → Except Unit τ} {anchor : BlockInfo}
  {d : δ} {rest : List δ} {x y : τ}

/-- Back through the history to a block, latest delta first; the block has to be there. -/
def rewind (info : δ → BlockInfo) (undo : δ → τ → Except Unit τ) (anchor : BlockInfo) :
    List δ → τ → Except Unit τ
  | [], _ => .error ()
  | d :: rest, x =>
    if (info d).height = anchor.height then
      if (info d).blockHash ≠ anchor.blockHash then .error () else .ok x
    else if (info d).height < anchor.height then .error ()
    else do
      let previous ← undo d x
      rewind info undo anchor rest previous

theorem rewind_here (h : info d = anchor) : rewind info undo anchor (d :: rest) x = .ok x := by
  simp [rewind, h]

theorem rewind_below (hlt : anchor.height < (info d).height) (hundo : undo d x = .ok y) :
    rewind info undo anchor (d :: rest) x = rewind info undo anchor rest y := by
  conv_lhs => unfold rewind
  rw [if_neg hlt.ne', if_neg hlt.not_gt, hundo]
  rfl

theorem rewind_le (h : rewind info undo anchor rest x = .ok y) : ∃ last, rest.head? = some last ∧
    anchor.height ≤ (info last).height ∧
      (anchor.height = (info last).height → anchor.blockHash = (info last).blockHash) := by
  cases rest with
  | nil => cases h
  | cons d rest =>
    refine ⟨d, rfl, ?_⟩
    unfold rewind at h
    split_ifs at h with heq hhash hlt
    · exact ⟨heq.ge, fun _ => (not_not.mp hhash).symm⟩
    · exact ⟨not_lt.mp hlt, fun h => absurd h.symm heq⟩

theorem rewind_retained (h : rewind info undo anchor rest x = .ok y) :
    ∃ d ∈ rest, (info d).blockHash = anchor.blockHash := by
  induction rest generalizing x with
  | nil => cases h
  | cons d rest ih =>
    unfold rewind at h
    split_ifs at h with heq hhash hlt
    · exact ⟨d, mem_cons_self, not_not.mp hhash⟩
    · obtain ⟨_, _, h⟩ := bind_eq_ok.mp h
      obtain ⟨d', hd', heq⟩ := ih h
      exact ⟨d', mem_cons_of_mem _ hd', heq⟩

end Rewind

/-! ## Along a chain -/

variable {σ δ τ : Type} {step : σ → Block → Option σ} {s₀ s mid : σ} {history : σ → List δ}
  {info : δ → BlockInfo} {chain older newer : List Block} {b : Block}

/-- Every step puts the delta of its block on the history. -/
structure Journal (step : σ → Block → Option σ) (s₀ : σ) (history : σ → List δ)
    (info : δ → BlockInfo) : Prop where
  start : history s₀ = []
  next : ∀ {chain : List Block} {s t : σ} {b : Block}, Run step s₀ chain s → step s b = some t →
    ∃ d, history t = d :: history s ∧ info d = b.info ∧ contiguous ((history s).map info) b

section

variable (J : Journal step s₀ history info) (h : Run step s₀ chain s)

include J h

/-- The history is that of the chain's blocks. -/
theorem Journal.blocks : (history s).map info = chain.map Block.info := by
  induction h with
  | start => rw [J.start]; rfl
  | next hrun hstep ih =>
    obtain ⟨d, hd, hinfo, -⟩ := J.next hrun hstep
    rw [hd, map_cons, map_cons, hinfo, ih]

theorem Journal.mem (hb : b ∈ chain) : ∃ d ∈ history s, info d = b.info := by
  have hmem := mem_map_of_mem (f := Block.info) hb
  rw [← J.blocks h] at hmem
  exact mem_map.mp hmem

theorem Journal.heights : chain.Pairwise fun b b' => b'.info.height < b.info.height := by
  induction h with
  | start => exact .nil
  | @next chain s _ b hrun hstep ih =>
    obtain ⟨-, -, -, hnext⟩ := J.next hrun hstep
    rw [J.blocks hrun] at hnext
    refine pairwise_cons.mpr ⟨fun b' hb' => ?_, ih⟩
    cases chain with
    | nil => cases hb'
    | cons last below =>
      have hlast := hnext last.info rfl
      rcases mem_cons.mp hb' with rfl | hb'
      · omega
      · have := (pairwise_cons.mp ih).1 b' hb'
        omega

/-- A delta of the history is the only one of its height. -/
theorem Journal.find? {p : δ → Bool} {d : δ} (hd : d ∈ history s) (hp : p d = true)
    (hheight : ∀ d', p d' = true → (info d').height = (info d).height) :
    (history s).reverse.find? p = some d := by
  cases hfound : (history s).reverse.find? p with
  | none => exact absurd hp (find?_eq_none.mp hfound d (mem_reverse.mpr hd))
  | some d' =>
    have hd' := mem_reverse.mp (mem_of_find?_eq_some hfound)
    have hnd : ((history s).map fun d => (info d).height).Nodup := by
      have hblocks := congrArg (map BlockInfo.height) (J.blocks h)
      rw [map_map, map_map] at hblocks
      exact hblocks ▸ pairwise_map.mpr ((J.heights h).imp fun hlt => hlt.ne')
    rw [inj_on_of_nodup_map hnd hd' hd (hheight d' (find?_some hfound))]

end

section

variable (J : Journal step s₀ history info) (hmid : Run step s₀ (b :: older) mid)
  (hnew : Run step mid newer s)

include J hmid hnew

theorem Journal.height_lt {t : σ} {top : Block} (hstep : step s top = some t) :
    b.info.height < top.info.height :=
  (pairwise_cons.mp (J.heights ((hmid.trans hnew).next hstep))).1 b (by simp)

/-- Going back to a block finds what was seen right after it, if each delta is undone rightly. -/
theorem Journal.rewind {undo : δ → τ → Except Unit τ} (view : σ → τ)
    (hundo : ∀ {chain s t b d}, Run step s₀ chain s → step s b = some t →
      history t = d :: history s → undo d (view t) = .ok (view s)) :
    BlockJournal.rewind info undo b.info (history s) (view s) = .ok (view mid) := by
  induction hnew with
  | start =>
    cases hmid with
    | next hrun hstep =>
      obtain ⟨d, hd, hinfo, -⟩ := J.next hrun hstep
      rw [hd, rewind_here hinfo]
  | next hrun hstep ih =>
    have hall := hmid.trans hrun
    obtain ⟨d, hd, hinfo, -⟩ := J.next hall hstep
    have hlt := J.height_lt hmid hrun hstep
    rw [hd, rewind_below (hinfo ▸ hlt) (hundo hall hstep hd)]
    exact ih

end

end BlockJournal

end B3Coin
