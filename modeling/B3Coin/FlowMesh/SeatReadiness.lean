import B3Coin.FlowMesh.SeatIndexRun
import B3Coin.Lib.ChangeLog

/-!
# The bootstrap seat snapshot

The readiness transitions are the change log of whether four seats stand. They
describe every retained block, whatever was connected and disconnected, so the
height that `EarliestFlowMeshReadySnapshot` selects is the first one with enough
seats. A longer chain does not change what stands below it.
-/
open Transition (Run)

namespace B3Coin.FlowMesh.SeatIndex

open BlockJournal ChainLog SpendLog List
open Assets (sampleParams)
open ChangeLog (valueAt firstUp)
open Consensus (Params flowMeshRulesActive FLOWMESH_ANCHOR_DEPTH INT_MAX)
open FnSeatIndex (members)

/-! ## The seats at a height -/

section Heights

variable (E : SeatEnv) (params : Params)

/-- `b` is the block of the chain at height `h`, and `m` are the seats right after it. -/
structure SeatsAfter (chain : List Block) (h : Int) (b : Block)
    (m : OrderedMap COutPoint FnSeatRecord) : Prop where
  block : ∃ newer below, chain = newer ++ b :: below ∧
    Holds FnSeatRecord.outpoint m (chainLog (seatEntry E params) (b :: below))
  height : b.info.height = h

/-- At least four seats are active at height `h`. -/
def ReadyAt (chain : List Block) (h : Int) : Prop :=
  ∃ b m, SeatsAfter E params chain h b m ∧ 4 ≤ m.size

/-- `h` is the smallest height from `first` on with at least four active seats. -/
structure EarliestReady (chain : List Block) (first h : Int) : Prop where
  first_le : first ≤ h
  ready : ReadyAt E params chain h
  earliest : ∀ h', first ≤ h' → h' < h → ¬ ReadyAt E params chain h'

/-- The connected blocks are those of the active chain from the asset activation on. -/
def Synced (active : CChain) (chain : List Block) : Prop :=
  ∃ a, params.assetActivationHeight = some a ∧
    chain.map Block.info = (active.blocks.drop a).reverse

end Heights

section Readiness

variable {E : SeatEnv} {params : Params} {index : FnSeatIndex} {chain : List Block} {b : Block}

/-- What the transitions say about the chain. -/
structure Readiness (E : SeatEnv) (params : Params) (chain : List Block) (index : FnSeatIndex) :
    Prop where
  sorted : ChangeLog.Sorted index.readinessTransitions
  heights : ∀ e ∈ index.readinessTransitions, ∃ b ∈ chain, b.info.height = e.1
  /-- From the tip on they give the present readiness. -/
  now : ∀ t, (∀ b ∈ chain, b.info.height ≤ t) →
    valueAt false index.readinessTransitions t = index.ready
  /-- They give the readiness right after every retained block. -/
  past : ∀ h b m, SeatsAfter E params chain h b m →
    valueAt false index.readinessTransitions h = decide (4 ≤ m.size)

theorem extended_transitions (index : FnSeatIndex) (delta : FnSeatBlockDelta) (next : Seats) :
    (index.ready = next.ready ∧
      (extended index delta next).readinessTransitions = index.readinessTransitions) ∨
    (extended index delta next).readinessTransitions =
      (delta.height, next.ready) :: index.readinessTransitions := by
  unfold extended
  by_cases hready : index.ready = next.ready
  · exact .inl ⟨hready, by simp [hready]⟩
  · exact .inr (by simp [hready])

theorem Readiness.push {delta : FnSeatBlockDelta} {next : Seats}
    (h : Readiness E params chain index) (judged : Judged E params chain index b delta next)
    (hlt : ∀ b' ∈ chain, b'.info.height < b.info.height) :
    Readiness E params (b :: chain) (extended index delta next) := by
  have hnow : ∀ t, b.info.height ≤ t →
      valueAt false (extended index delta next).readinessTransitions t = next.ready := by
    intro t ht
    rcases extended_transitions index delta next with ⟨hready, heq⟩ | heq
    · rw [heq, ← hready]
      exact h.now t fun b' hb' => (hlt b' hb').le.trans ht
    · rw [heq]
      exact ChangeLog.valueAt_cons_of_le (judged.height ▸ ht)
  refine ⟨?_, fun e he => ?_, fun t ht => hnow t (ht b mem_cons_self),
    fun height b' m hafter => ?_⟩
  · rcases extended_transitions index delta next with ⟨-, heq⟩ | heq
    · rw [heq]
      exact h.sorted
    · rw [heq]
      refine pairwise_cons.mpr ⟨fun e he => ?_, h.sorted⟩
      obtain ⟨b', hb', hheight⟩ := h.heights e he
      rw [← hheight, judged.height]
      exact hlt b' hb'
  · rcases extended_transitions index delta next with ⟨-, heq⟩ | heq
    · obtain ⟨b', hb', hheight⟩ := h.heights e (heq ▸ he)
      exact ⟨b', mem_cons_of_mem _ hb', hheight⟩
    · rcases mem_cons.mp (heq ▸ he) with rfl | he
      · exact ⟨b, mem_cons_self, judged.height.symm⟩
      · obtain ⟨b', hb', hheight⟩ := h.heights e he
        exact ⟨b', mem_cons_of_mem _ hb', hheight⟩
  · obtain ⟨⟨newer, below, hchain, hholds⟩, rfl⟩ := hafter
    cases newer with
    | nil =>
      cases hchain
      rw [hnow _ le_rfl, Seats.ready, judged.holds.unique hholds]
    | cons top newer =>
      cases hchain
      have hb' : b'.info.height < b.info.height := hlt b' (by simp)
      have hpast := h.past _ b' m ⟨⟨newer, below, rfl, hholds⟩, rfl⟩
      rcases extended_transitions index delta next with ⟨-, heq⟩ | heq
      · rw [heq, hpast]
      · rw [heq, ChangeLog.valueAt_cons_of_lt (judged.height ▸ hb'), hpast]

theorem run_readiness (h : Run (connect E params) {} chain index) :
    Readiness E params chain index := by
  induction h with
  | start =>
    refine ⟨.nil, nofun, fun _ _ => rfl, ?_⟩
    rintro h b m ⟨⟨newer, below, hchain, -⟩, -⟩
    simp at hchain
  | next hrun hstep ih =>
    have hheights := journal.heights (hrun.next hstep)
    obtain ⟨delta, next, judged, -, rfl⟩ := (run_tracks hrun).connect hstep
    exact ih.push judged (pairwise_cons.mp hheights).1

theorem Built.readiness (h : Built E params chain index) : Readiness E params chain index :=
  { run_readiness h with }

end Readiness

/-! ## The selected height -/

section Select

variable {index : FnSeatIndex} {first latest h : Int}

/-- The readiness at the first height, as the code reads it. -/
theorem prev_any (log : List (Int × Bool)) (first : Int) :
    (log.dropWhile (first < ·.1)).head?.any (·.2) = valueAt false log first := by
  induction log with
  | nil => rfl
  | cons e log ih =>
    by_cases h : first < e.1
    · rw [dropWhile_cons_of_pos (by simpa using h), ih]
      exact (ChangeLog.valueAt_cons_of_lt h).symm
    · rw [dropWhile_cons_of_neg (by simpa using h)]
      exact (ChangeLog.valueAt_cons_of_le (not_lt.mp h)).symm

theorem selectHeight_eq_ok (hle : first ≤ latest) : index.selectHeight first latest = .ok h ↔
    firstUp index.readinessTransitions first = some h ∧ h ≤ latest := by
  unfold FnSeatIndex.selectHeight firstUp ChangeLog.nextUp
  simp only
  rw [prev_any]
  split_ifs with hready
  · constructor
    · intro heq
      cases heq
      exact ⟨rfl, hle⟩
    · rintro ⟨heq, -⟩
      cases heq
      rfl
  · cases hfind : (index.readinessTransitions.takeWhile (first < ·.1)).reverse.find? (·.2) with
    | none => simp
    | some e =>
      simp only [Option.map_some, Option.some.injEq]
      split_ifs with hlate
      · refine ⟨nofun, ?_⟩
        rintro ⟨rfl, hle⟩
        exact absurd hle (not_le.mpr hlate)
      · constructor
        · intro heq
          cases heq
          exact ⟨rfl, not_lt.mp hlate⟩
        · rintro ⟨rfl, -⟩
          rfl

end Select

/-! ## The active chain -/

section Active

variable {E : SeatEnv} {params : Params} {active : CChain} {chain : List Block} {b : Block}

theorem Synced.get? (h : Synced params active chain) (hb : b ∈ chain) :
    active.get? b.info.height = some b.info := by
  obtain ⟨a, -, hmap⟩ := h
  have hmem := mem_map_of_mem (f := Block.info) hb
  rw [hmap, mem_reverse] at hmem
  exact CChain.get?_of_mem (mem_of_mem_drop hmem)

/-- Every height from the activation to the tip has its block. -/
theorem Synced.exists_block (h : Synced params active chain) {height : Int}
    (hfirst : ∀ a ∈ params.assetActivationHeight, (a : Int) ≤ height)
    (hlt : height < active.blocks.length) : ∃ b ∈ chain, b.info.height = height := by
  obtain ⟨a, ha, hmap⟩ := h
  have hle := hfirst a ha
  have hlt' : height.toNat - a < (active.blocks.drop a).length := by
    rw [length_drop]
    omega
  have hmem := mem_reverse.mpr (getElem_mem hlt')
  rw [← hmap] at hmem
  obtain ⟨b, hb, hinfo⟩ := mem_map.mp hmem
  refine ⟨b, hb, ?_⟩
  have hget : active.blocks[height.toNat]? = some b.info := by
    rw [hinfo, getElem_drop, ← getElem?_eq_getElem]
    congr 1
    omega
  rw [active.heights _ _ hget]
  omega

end Active

/-! ## The query -/

section Query

variable {E : SeatEnv} {params : Params} {index : FnSeatIndex} {chain : List Block} {b : Block}
variable {active : CChain} {first candidate h : Int} {m : OrderedMap COutPoint FnSeatRecord}

theorem Built.exists_seats (hs : Built E params chain index) (hb : b ∈ chain) :
    ∃ m, SeatsAfter E params chain b.info.height b m := by
  obtain ⟨newer, below, rfl⟩ := append_of_mem hb
  obtain ⟨m, -, hholds⟩ := hs.unwind
  exact ⟨m, ⟨newer, below, rfl, hholds⟩, rfl⟩

theorem SeatsAfter.mem (ha : SeatsAfter E params chain h b m) : b ∈ chain := by
  obtain ⟨⟨newer, below, rfl, -⟩, -⟩ := ha
  simp

/-- At a retained height the transitions say whether enough seats stand. -/
theorem Built.readyAt_iff (hs : Built E params chain index) (hsync : Synced params active chain)
    (hfirst : ∀ a ∈ params.assetActivationHeight, (a : Int) ≤ h) (hlt : h < active.blocks.length) :
    ReadyAt E params chain h ↔ valueAt false index.readinessTransitions h = true := by
  constructor
  · rintro ⟨b, m, hafter, hsize⟩
    rw [hs.readiness.past h b m hafter]
    exact decide_eq_true hsize
  · intro hup
    obtain ⟨b, hb, rfl⟩ := hsync.exists_block hfirst hlt
    obtain ⟨m, hafter⟩ := hs.exists_seats hb
    rw [hs.readiness.past _ b m hafter] at hup
    exact ⟨b, m, hafter, of_decide_eq_true hup⟩

/-- The first height at which the flag of the transitions is up is the earliest ready one. -/
theorem Built.earliest_iff (hs : Built E params chain index) (hsync : Synced params active chain)
    (hfirst : ∀ a ∈ params.assetActivationHeight, (a : Int) ≤ first)
    (hlt : h < active.blocks.length) :
    firstUp index.readinessTransitions first = some h ↔ EarliestReady E params chain first h := by
  have hready : ∀ t, first ≤ t → t < active.blocks.length →
      (ReadyAt E params chain t ↔ valueAt false index.readinessTransitions t = true) :=
    fun t ht => hs.readyAt_iff hsync fun a ha => (hfirst a ha).trans ht
  have hsorted := hs.readiness.sorted
  constructor
  · intro hup
    obtain ⟨hle, hvalue, hbefore⟩ := hsorted.firstUp_some hup
    refine ⟨hle, (hready h hle hlt).mpr hvalue, fun t ht hth hr => ?_⟩
    have := (hready t ht (hth.trans hlt)).mp hr
    rw [hbefore t ht hth] at this
    cases this
  · rintro ⟨hle, hr, hearliest⟩
    have hvalue := (hready h hle hlt).mp hr
    cases hup : firstUp index.readinessTransitions first with
    | none =>
      rw [hsorted.firstUp_none hup h hle] at hvalue
      cases hvalue
    | some t =>
      obtain ⟨ht, hvalue', hbefore⟩ := hsorted.firstUp_some hup
      have hth : t ≤ h := by
        by_contra hlt'
        rw [hbefore h hle (not_le.mp hlt')] at hvalue
        cases hvalue
      have hht : h ≤ t := by
        by_contra hlt'
        exact hearliest t ht (not_le.mp hlt') ((hready t ht (hth.trans_lt hlt)).mpr hvalue')
      rw [le_antisymm hth hht]

theorem Built.snapshotAt (hs : Built E params chain index) (hcache : CacheOk index)
    (ha : SeatsAfter E params chain h b m) :
    (index.snapshotAt b.info).1 = some ⟨h, b.info.blockHash, members m⟩ := by
  obtain ⟨⟨newer, below, rfl, hholds⟩, rfl⟩ := ha
  obtain ⟨m', hm', hholds'⟩ := hs.unwind
  rw [(hcache.snapshotAt b.info).2 m' hm', hholds'.unique hholds]

theorem members_length (m : OrderedMap COutPoint FnSeatRecord) :
    (members m).length = m.size := by
  simp [members, OrderedMap.size]

theorem earliest_selects {snapshot : FnSeatSnapshot}
    (hok : (index.earliestFlowMeshReadySnapshot params active first candidate).1 = .ok snapshot) :
    first ≤ candidate - FLOWMESH_ANCHOR_DEPTH ∧
      ∃ h, index.selectHeight first (candidate - FLOWMESH_ANCHOR_DEPTH) = .ok h := by
  unfold FnSeatIndex.earliestFlowMeshReadySnapshot at hok
  simp only at hok
  split_ifs at hok with hactive hstart hdeep hcanonical
  cases hselect : index.selectHeight first (candidate - FLOWMESH_ANCHOR_DEPTH) with
  | error e =>
    rw [hselect] at hok
    cases hok
  | ok h => exact ⟨by omega, h, rfl⟩

section Answers

variable (hs : Built E params chain index) (hcache : CacheOk index)
  (hsync : Synced params active chain) (hactive : flowMeshRulesActive params candidate = true)
include hs hcache hsync hactive

theorem Built.anchoredSnapshot (ha : SeatsAfter E params chain h b m)
    (hdeep : h ≤ candidate - FLOWMESH_ANCHOR_DEPTH) :
    (index.anchoredSnapshot params active b.info candidate).1 =
      .ok ⟨h, b.info.blockHash, members m⟩ := by
  have hget := hsync.get? ha.mem
  have hsnap := hs.snapshotAt hcache ha
  have hheight : b.info.height = h := ha.height
  have hneg : ¬ b.info.height < 0 := by
    intro hneg
    rw [CChain.get?, if_pos hneg] at hget
    cases hget
  unfold FnSeatIndex.anchoredSnapshot
  rw [if_neg (by simp [hactive]), if_neg (not_or.mpr ⟨hneg, not_not.mpr hget⟩),
    if_neg (by omega)]
  generalize index.snapshotAt b.info = answer at hsnap ⊢
  obtain ⟨snapshot, index'⟩ := answer
  cases hsnap
  rfl

variable (hfirst : ∀ a ∈ params.assetActivationHeight, (a : Int) ≤ first)
  (hint : candidate ≤ INT_MAX) (htip : candidate ≤ active.blocks.length)
include hfirst hint htip

/-- The earliest ready height is answered with its seats once it is deep enough. -/
theorem Built.earliest_ok (hearliest : EarliestReady E params chain first h)
    (hdeep : h ≤ candidate - FLOWMESH_ANCHOR_DEPTH)
    (ha : SeatsAfter E params chain h b m) :
    (index.earliestFlowMeshReadySnapshot params active first candidate).1 =
      .ok ⟨h, b.info.blockHash, members m⟩ := by
  obtain ⟨a, hactivation, -⟩ := id hsync
  have hdepth : (0 : Int) < FLOWMESH_ANCHOR_DEPTH := by decide
  have hle := hearliest.first_le
  have hstart : (a : Int) ≤ first := hfirst a hactivation
  obtain ⟨info, hinfo, -⟩ : ∃ info, active.get? first = some info ∧ info.height = first :=
    CChain.get?_isSome (by omega) (by omega)
  have hselect : index.selectHeight first (candidate - FLOWMESH_ANCHOR_DEPTH) = .ok h :=
    (selectHeight_eq_ok (hle.trans hdeep)).mpr
      ⟨(hs.earliest_iff hsync hfirst (by omega)).mpr hearliest, hdeep⟩
  have hget : active.get? h = some b.info := ha.height ▸ hsync.get? ha.mem
  have hanchored := hs.anchoredSnapshot hcache hsync hactive ha hdeep
  have hready : 4 ≤ m.size := by
    obtain ⟨b', m', ha', hsize⟩ := hearliest.ready
    have heq := (hs.readiness.past h b m ha).symm.trans (hs.readiness.past h b' m' ha')
    exact of_decide_eq_true (heq.trans (decide_eq_true hsize))
  unfold FnSeatIndex.earliestFlowMeshReadySnapshot
  rw [if_neg (by simp [hactive]), hactivation, if_neg (by simpa using hstart)]
  rw [if_neg (by omega), if_neg (by simp [hinfo]), hselect]
  simp only
  rw [if_neg (not_lt.mpr hdeep), hget]
  simp only
  generalize index.anchoredSnapshot params active b.info candidate = answer at hanchored ⊢
  obtain ⟨snapshot, index'⟩ := answer
  cases hanchored
  simp [FnSeatSnapshot.flowMeshReady, members_length, hready]

theorem Built.earliest_ok_iff {snapshot : FnSeatSnapshot} :
    (index.earliestFlowMeshReadySnapshot params active first candidate).1 = .ok snapshot ↔
      ∃ h b m, EarliestReady E params chain first h ∧ h ≤ candidate - FLOWMESH_ANCHOR_DEPTH ∧
        SeatsAfter E params chain h b m ∧
        snapshot = ⟨h, b.info.blockHash, members m⟩ := by
  constructor
  · intro hok
    obtain ⟨hle, h, hselect⟩ := earliest_selects hok
    obtain ⟨hup, hdeep⟩ := (selectHeight_eq_ok hle).mp hselect
    have hdepth : (0 : Int) < FLOWMESH_ANCHOR_DEPTH := by decide
    have hearliest := (hs.earliest_iff hsync hfirst (by omega)).mp hup
    obtain ⟨b, m, ha, -⟩ := hearliest.ready
    rw [hs.earliest_ok hcache hsync hactive hfirst hint htip hearliest hdeep ha] at hok
    exact ⟨h, b, m, hearliest, hdeep, ha, (Except.ok.inj hok).symm⟩
  · rintro ⟨h, b, m, hearliest, hdeep, ha, rfl⟩
    exact hs.earliest_ok hcache hsync hactive hfirst hint htip hearliest hdeep ha

end Answers

/-! ## Longer chains -/

theorem SeatsAfter.append (ha : SeatsAfter E params chain h b m) (more : List Block) :
    SeatsAfter E params (more ++ chain) h b m := by
  obtain ⟨⟨newer, below, rfl, hholds⟩, hheight⟩ := ha
  exact ⟨⟨more ++ newer, below, (append_assoc _ _ _).symm, hholds⟩, hheight⟩

/-- What a longer chain holds below one of its blocks, the shorter one holds. -/
theorem SeatsAfter.of_append {more : List Block} (hs : Built E params (more ++ chain) index)
    {top : Block} (htop : top ∈ chain) (ha : SeatsAfter E params (more ++ chain) h b m)
    (hlt : h < top.info.height) : SeatsAfter E params chain h b m := by
  obtain ⟨⟨newer, below, hchain, hholds⟩, hheight⟩ := ha
  refine ⟨?_, hheight⟩
  rcases append_eq_append_iff.mp hchain with ⟨rest, rfl, hrest⟩ | ⟨rest, rfl, hrest⟩
  · exact ⟨rest, below, hrest, hholds⟩
  · cases rest with
    | nil => exact ⟨[], below, hrest.symm, hholds⟩
    | cons x rest =>
      -- the block would stand above the top one
      obtain ⟨rfl, rfl⟩ := List.cons.inj hrest
      have hheights := journal.heights hs
      rw [append_assoc, pairwise_append] at hheights
      have := (pairwise_cons.mp hheights.2.1).1 top (by simp [htop])
      omega

theorem EarliestReady.append (he : EarliestReady E params chain first h) {more : List Block}
    (hs : Built E params (more ++ chain) index) : EarliestReady E params (more ++ chain) first h := by
  obtain ⟨b, m, ha, hsize⟩ := he.ready
  refine ⟨he.first_le, ⟨b, m, ha.append more, hsize⟩, fun h' hfirst hlt => ?_⟩
  rintro ⟨b', m', ha', hsize'⟩
  exact he.earliest h' hfirst hlt
    ⟨b', m', ha'.of_append hs ha.mem (ha.height.symm ▸ hlt), hsize'⟩

theorem flowMeshRulesActive_mono {height height' : Int} (hle : height ≤ height')
    (h : flowMeshRulesActive params height = true) : flowMeshRulesActive params height' = true := by
  unfold flowMeshRulesActive at h ⊢
  rw [Bool.and_eq_true] at h ⊢
  refine ⟨h.1, ?_⟩
  obtain ⟨a, ha, hact⟩ := (Option.any_eq_true _ _).mp h.2
  exact (Option.any_eq_true _ _).mpr ⟨a, ha, by simp only [decide_eq_true_eq] at hact ⊢; omega⟩

/-- The snapshot is that of the earliest ready height, or nothing; and once it is found it stays,
for every later candidate on every extension of the chain. -/
theorem earliest_snapshot_exact {calls : List Call} (hrun : Run (call E params) {} calls index)
    (hsync : Synced params active (connected calls))
    (hfirst : ∀ a ∈ params.assetActivationHeight, (a : Int) ≤ first)
    (hactive : flowMeshRulesActive params candidate = true) (hint : candidate ≤ INT_MAX)
    (htip : candidate ≤ active.blocks.length) : (∀ snapshot,
      (index.earliestFlowMeshReadySnapshot params active first candidate).1 = .ok snapshot ↔
        ∃ h b m, EarliestReady E params (connected calls) first h ∧
          h ≤ candidate - FLOWMESH_ANCHOR_DEPTH ∧ SeatsAfter E params (connected calls) h b m ∧
          snapshot = ⟨h, b.info.blockHash, members m⟩) ∧
    ∀ snapshot,
      (index.earliestFlowMeshReadySnapshot params active first candidate).1 = .ok snapshot →
      ∀ calls' index' active' more candidate', Run (call E params) {} calls' index' →
        connected calls' = more ++ connected calls → Synced params active' (connected calls') →
        candidate ≤ candidate' → candidate' ≤ INT_MAX → candidate' ≤ active'.blocks.length →
        (index'.earliestFlowMeshReadySnapshot params active' first candidate').1 =
          .ok snapshot := by
  have hs := run_built hrun
  have hcache := run_cacheOk hrun
  refine ⟨fun _ => hs.earliest_ok_iff hcache hsync hactive hfirst hint htip, ?_⟩
  intro snapshot hok calls' index' active' more candidate' hrun' hmore hsync' hle hint' htip'
  obtain ⟨h, b, m, hearliest, hdeep, ha, rfl⟩ :=
    (hs.earliest_ok_iff hcache hsync hactive hfirst hint htip).mp hok
  have hs' := run_built hrun'
  rw [hmore] at hs' hsync'
  exact hs'.earliest_ok (run_cacheOk hrun') hsync' (flowMeshRulesActive_mono hle hactive) hfirst hint' htip'
    (hearliest.append hs') (by omega) (ha.append more)

end Query

/-! ## Four seats at the activation -/

def fourBlock : Block := ⟨[seatTx 100 1, seatTx 110 2, seatTx 120 3, seatTx 130 4], ⟨2, 22⟩⟩

/-- The empty blocks from height 3 on, latest first. -/
def emptyBlocks : Nat → List Block
  | 0 => []
  | n + 1 => ⟨[], ⟨n + 3, n + 23⟩⟩ :: emptyBlocks n

def bootstrapCalls : List Call := (emptyBlocks 29 ++ [fourBlock]).map Call.connect

def fourIndex : FnSeatIndex := (connect sampleEnv sampleParams {} fourBlock).getD {}

def bootstrapIndex : FnSeatIndex :=
  (Transition.exec (call sampleEnv sampleParams) {} bootstrapCalls).getD {}

/-- The active chain, with two blocks below the activation. -/
def bootstrapChain : CChain where
  blocks := (List.range 32).map fun n : Nat => ⟨n, n + 20⟩
  heights i info h := by
    rw [getElem?_map, Option.map_eq_some_iff] at h
    obtain ⟨n, hn, rfl⟩ := h
    obtain ⟨_, hget⟩ := List.getElem?_eq_some_iff.mp hn
    rw [getElem_range] at hget
    rw [hget]

theorem bootstrap_snapshot_found : ∃ snapshot,
    (bootstrapIndex.earliestFlowMeshReadySnapshot sampleParams bootstrapChain 2 32).1 =
      .ok snapshot ∧ snapshot.anchorHeight = 2 ∧ snapshot.members.length = 4 := by
  have hexec : Transition.exec (call sampleEnv sampleParams) {} bootstrapCalls =
      some bootstrapIndex := by
    decide +kernel
  have hfour : call sampleEnv sampleParams {} (.connect fourBlock) = some fourIndex := by
    decide +kernel
  have hsync : Synced sampleParams bootstrapChain (connected bootstrapCalls) :=
    ⟨2, rfl, by decide +kernel⟩
  have hholds := (run_built (Run.next Run.start hfour)).tracks.holds
  have hsize : fourIndex.byOutpoint.size = 4 := by decide +kernel
  have hafter : SeatsAfter sampleEnv sampleParams (connected bootstrapCalls) 2 fourBlock
      fourIndex.byOutpoint :=
    ⟨⟨emptyBlocks 29, [], rfl, hholds⟩, rfl⟩
  have hearliest : EarliestReady sampleEnv sampleParams (connected bootstrapCalls) 2 2 :=
    ⟨le_rfl, ⟨fourBlock, _, hafter, hsize.ge⟩, fun h' hle hlt => absurd hle (not_le.mpr hlt)⟩
  have hexact : (∀ snapshot,
      (bootstrapIndex.earliestFlowMeshReadySnapshot sampleParams bootstrapChain 2 32).1 =
        .ok snapshot ↔ _) ∧ _ :=
    earliest_snapshot_exact (Transition.run_of_exec hexec) hsync (by decide) (by decide)
      (by decide) (by decide)
  refine ⟨_, (hexact.1 _).mpr ⟨2, fourBlock, _, hearliest, by decide, hafter, rfl⟩, rfl, ?_⟩
  exact (members_length _).trans hsize

end B3Coin.FlowMesh.SeatIndex
