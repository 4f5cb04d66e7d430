import B3Coin.Bridge.Undo

/-!
# The light client at a finalized height

`FinalizedLightClientSnapshot` looks at the present store, at both sides of every
retained change and at the first store of all. For a height whose undo is still
retained the first eligible one is the store that was in force there.
-/
namespace B3Coin.Bridge

open Proc Transition List Option BridgeBlockDelta
open BridgeStateIndex (eligible searchHistory)

/-- What a block sets the light client to, with the block itself. -/
def BridgeBlockDelta.sets (d : BridgeBlockDelta) : Option BridgeLightClientSnapshot :=
  d.lightClientAfter.map fun store => ⟨store, d.connection⟩

/-- The light client after a chain of blocks, tip first: what the latest change set. -/
def inForce (ds : List BridgeBlockDelta) : Option BridgeLightClientSnapshot :=
  ds.findSome? sets

/-- The store of a state with the block that set it. -/
def BridgeState.lightClientView (s : BridgeState) : Option BridgeLightClientSnapshot :=
  s.lightClient.bind fun store => s.lightClientConnection.map fun connection => ⟨store, connection⟩

section Chains

variable {E : BridgeEnv} {s : BridgeState} {d : BridgeBlockDelta} {ds : List BridgeBlockDelta}

theorem inForce_cons_of_none (h : d.lightClientAfter = none) : inForce (d :: ds) = inForce ds := by
  simp [inForce, sets, h]

theorem inForce_cons_of_some {store : LightClientStore} (h : d.lightClientAfter = some store) :
    inForce (d :: ds) = some ⟨store, d.connection⟩ := by
  simp [inForce, sets, h]

/-- A chain as `ConnectBlock` lets it grow, as far as the light client goes. -/
inductive Grown : List BridgeBlockDelta → Prop
  | nil : Grown []
  | keeps {d : BridgeBlockDelta} {ds : List BridgeBlockDelta} (below : Grown ds)
      (height : 0 ≤ d.height) (above : ∀ d' ∈ ds, d'.height < d.height) (keeps : KeepsLightClient d) :
      Grown (d :: ds)
  | moves {d : BridgeBlockDelta} {ds : List BridgeBlockDelta} {store : LightClientStore}
      (below : Grown ds) (height : 0 ≤ d.height) (above : ∀ d' ∈ ds, d'.height < d.height)
      (after : d.lightClientAfter = some store)
      (connectionAfter : d.lightClientConnectionAfter = some d.connection)
      (before : d.lightClientBefore = (inForce ds).map (·.store))
      (connectionBefore : d.lightClientConnectionBefore = (inForce ds).map (·.connection)) :
      Grown (d :: ds)

/-- What the state of a chain knows about it. -/
structure Follows (ds : List BridgeBlockDelta) (s : BridgeState) : Prop where
  grown : Grown ds
  tip : ∀ d ∈ ds, 0 ≤ s.connectedHeight ∧ d.height ≤ s.connectedHeight
  lightClient : s.lightClient = (inForce ds).map (·.store)
  connection : s.lightClientConnection = (inForce ds).map (·.connection)
  floor : ∀ f, s.lightClientFloor = some f → ∃ d ∈ ds, d.sets = some f

theorem Follows.above (h : Follows ds s) (hc : Connects E s d) :
    ∀ d' ∈ ds, d'.height < d.height := by
  intro d' hd'
  obtain ⟨hpos, hle⟩ := h.tip d' hd'
  have := hc.tip.next hpos
  omega

theorem Follows.connect (h : Follows ds s) (hc : Connects E s d) :
    Follows (d :: ds) (s.connect d) := by
  have habove := h.above hc
  have htip : ∀ d' ∈ d :: ds, 0 ≤ d.height ∧ d'.height ≤ d.height := by
    intro d' hd'
    refine ⟨hc.tip.height, ?_⟩
    rcases mem_cons.mp hd' with rfl | hd'
    · exact le_rfl
    · exact (habove d' hd').le
  rw [BridgeState.connect_eq]
  rcases hc.lightClient with hk | hm
  · refine ⟨.keeps h.grown hc.tip.height habove hk, htip, ?_, ?_, fun f hf => ?_⟩
    · simp [hk.lightClientChanged, inForce_cons_of_none hk.after, h.lightClient]
    · simp [hk.lightClientChanged, inForce_cons_of_none hk.after, h.connection]
    · obtain ⟨d', hd', hsets⟩ := h.floor f (by simpa [hk.lightClientChanged] using hf)
      exact ⟨d', mem_cons_of_mem _ hd', hsets⟩
  · obtain ⟨store, hstore⟩ := isSome_iff_exists.mp hm.after
    refine ⟨.moves h.grown hc.tip.height habove hstore hm.connectionAfter
      (hm.before.trans h.lightClient) (hm.connectionBefore.trans h.connection), htip, ?_, ?_,
      fun f hf => ?_⟩
    · simp [hm.lightClientChanged, inForce_cons_of_some hstore, hstore]
    · simp [hm.lightClientChanged, inForce_cons_of_some hstore, hm.connectionAfter]
    · simp only [hm.lightClientChanged, if_true, hstore, hm.connectionAfter, bind_some,
        map_some] at hf
      cases hfloor : s.lightClientFloor with
      | none =>
        rw [hfloor] at hf
        cases hf
        exact ⟨d, mem_cons_self, by simp [sets, hstore]⟩
      | some f' =>
        rw [hfloor] at hf
        cases hf
        obtain ⟨d', hd', hsets⟩ := h.floor f hfloor
        exact ⟨d', mem_cons_of_mem _ hd', hsets⟩

theorem Built.follows (h : Built E id (fun _ _ => True) ds s) : Follows ds s := by
  induction h with
  | empty =>
    refine ⟨.nil, fun d hd => absurd hd not_mem_nil, ?_, ?_, fun f hf => ?_⟩
    · rfl
    · rfl
    · unfold BridgeState.empty at hf
      cases hf
  | connect _ _ hc ih => exact ih.connect hc

theorem Built.suffix {newer : List BridgeBlockDelta}
    (h : Built E id (fun _ _ => True) (newer ++ ds) s) :
    ∃ t, Built E id (fun _ _ => True) ds t := by
  induction newer generalizing s with
  | nil => exact ⟨s, h⟩
  | cons d newer ih =>
    obtain ⟨t, -, hbelow, -⟩ := h.tip
    exact ih hbelow

theorem Follows.view (h : Follows ds s) : s.lightClientView = inForce ds := by
  unfold BridgeState.lightClientView
  rw [h.lightClient, h.connection]
  cases inForce ds <;> rfl

end Chains

/-! ## The search -/

section Search

variable {ds : List BridgeBlockDelta} {h : Int} {f : BridgeLightClientSnapshot}

theorem Grown.height_nonneg (hg : Grown ds) : ∀ d ∈ ds, 0 ≤ d.height := by
  induction hg with
  | nil => exact fun d hd => absurd hd not_mem_nil
  | keeps _ height _ _ ih => exact forall_mem_cons.mpr ⟨height, ih⟩
  | moves _ height _ _ _ _ _ ih => exact forall_mem_cons.mpr ⟨height, ih⟩

variable {d : BridgeBlockDelta}

theorem Grown.height_lt (hg : Grown (d :: ds)) : ∀ d' ∈ ds, d'.height < d.height := by
  cases hg with
  | keeps _ _ above _ => exact above
  | moves _ _ above _ _ _ _ => exact above

theorem Grown.height_le (hg : Grown (d :: ds)) : ∀ d' ∈ d :: ds, d'.height ≤ d.height := by
  intro d' hd'
  rcases mem_cons.mp hd' with rfl | hd'
  · exact le_rfl
  · exact (hg.height_lt d' hd').le

variable {newer older : List BridgeBlockDelta}

theorem Grown.of_append (hg : Grown (newer ++ older)) : Grown older := by
  induction newer with
  | nil => exact hg
  | cons d newer ih =>
    cases hg with
    | keeps below _ _ _ => exact ih below
    | moves below _ _ _ _ _ _ => exact ih below

theorem Grown.above_mem
    (hg : Grown (newer ++ d :: older)) : ∀ d' ∈ newer, d.height < d'.height := by
  intro d' hd'
  obtain ⟨front, back, rfl⟩ := append_of_mem hd'
  rw [append_assoc] at hg
  exact hg.of_append.height_lt d (by simp)

theorem inForce_mem (hf : inForce ds = some f) : ∃ d ∈ ds, d.sets = some f :=
  exists_of_findSome?_eq_some hf

theorem sets_connection (hsets : d.sets = some f) : f.connection = d.connection := by
  obtain ⟨store, -, rfl⟩ := map_eq_some_iff.mp hsets
  rfl

/-- A snapshot that is split in its two parts is eligible by its height alone. -/
theorem eligible_view (view : Option BridgeLightClientSnapshot)
    (hpos : ∀ f ∈ view, 0 ≤ f.connection.height) :
    eligible h (view.map (·.store)) (view.map (·.connection)) =
      view.filter fun f => decide (f.connection.height ≤ h) := by
  cases view with
  | none => rfl
  | some f =>
    have hf := hpos f rfl
    unfold eligible
    simp only [map_some]
    by_cases hle : f.connection.height ≤ h
    · rw [if_neg (by omega), filter_some_pos (by simpa using hle)]
    · rw [if_pos (by omega), filter_some_neg (by simpa using hle)]

theorem Grown.inForce_nonneg (hg : Grown ds) : ∀ f ∈ inForce ds, 0 ≤ f.connection.height := by
  intro f hf
  obtain ⟨d, hd, hsets⟩ := inForce_mem hf
  rw [sets_connection hsets]
  exact hg.height_nonneg d hd

theorem Grown.eligible_inForce (hg : Grown ds) :
    eligible h ((inForce ds).map (·.store)) ((inForce ds).map (·.connection)) =
      (inForce ds).filter fun f => decide (f.connection.height ≤ h) :=
  eligible_view _ hg.inForce_nonneg

variable {retained rest : List BridgeBlockDelta}

theorem Grown.searchHistory_none (hg : Grown ds) (hnone : inForce ds = none)
    (hsplit : ds = retained ++ rest) : searchHistory h retained = none := by
  induction hg generalizing retained with
  | nil =>
    obtain ⟨rfl, -⟩ := append_eq_nil_iff.mp hsplit.symm
    rfl
  | @keeps d ds _ _ _ hk ih =>
    cases retained with
    | nil => rfl
    | cons d' retained =>
      obtain ⟨rfl, rfl⟩ := List.cons.inj hsplit
      rw [inForce_cons_of_none hk.after] at hnone
      simp [searchHistory, eligible, hk.after, hk.before, ih hnone rfl]
  | moves _ _ _ after =>
    rw [inForce_cons_of_some after] at hnone
    cases hnone

theorem exists_retained_cons
    (hsplit : d :: ds = retained ++ rest) (hrest : ∀ d ∈ rest, d.height ≤ h) (hlt : h < d.height) :
    ∃ retained', retained = d :: retained' ∧ ds = retained' ++ rest := by
  cases retained with
  | nil =>
    have hd : d ∈ rest := by
      rw [← nil_append rest, ← hsplit]
      exact mem_cons_self
    exact absurd (hrest d hd) (not_le.mpr hlt)
  | cons d' retained =>
    obtain ⟨rfl, hds⟩ := List.cons.inj hsplit
    exact ⟨retained, rfl, hds⟩

/-- At the tip or above it the present store is the answer. -/
theorem Grown.search_low (hg : Grown (d :: ds)) (hsplit : d :: ds = retained ++ rest)
    (hle : d.height ≤ h) : ((inForce (d :: ds)).filter fun f => decide (f.connection.height ≤ h)).or
      (searchHistory h retained) = inForce (d :: ds) := by
  cases hf : inForce (d :: ds) with
  | none => rw [hg.searchHistory_none hf hsplit, filter_none, none_or]
  | some f =>
    obtain ⟨d', hd', hsets⟩ := inForce_mem hf
    have hheight : f.connection.height ≤ h := by
      rw [sets_connection hsets]
      exact (hg.height_le d' hd').trans hle
    rw [filter_some_pos (by simpa using hheight), some_or]

/-- The present store, or else the first eligible one of the retained changes, is what was in
force at the height, when the blocks above it are all retained. -/
theorem Grown.search (hg : Grown ds)
    (hsplit : ds = retained ++ rest) (hrest : ∀ d ∈ rest, d.height ≤ h) :
    ((inForce ds).filter fun f => decide (f.connection.height ≤ h)).or (searchHistory h retained) =
      inForce (ds.dropWhile fun d => decide (h < d.height)) := by
  induction hg generalizing retained with
  | nil =>
    obtain ⟨rfl, -⟩ := append_eq_nil_iff.mp hsplit.symm
    rfl
  | @keeps d ds below height above hk ih =>
    by_cases hlt : h < d.height
    · obtain ⟨retained, rfl, hds⟩ := exists_retained_cons hsplit hrest hlt
      have hstep : searchHistory h (d :: retained) = searchHistory h retained := by
        simp [searchHistory, eligible, hk.after, hk.before]
      rw [inForce_cons_of_none hk.after, hstep, dropWhile_cons_of_pos (by simpa using hlt)]
      exact ih hds
    · rw [dropWhile_cons_of_neg (by simpa using hlt)]
      exact (Grown.keeps below height above hk).search_low hsplit (not_lt.mp hlt)
  | @moves d ds store below height above after connectionAfter before connectionBefore ih =>
    by_cases hlt : h < d.height
    · obtain ⟨retained, rfl, hds⟩ := exists_retained_cons hsplit hrest hlt
      have hfuture : eligible h d.lightClientAfter d.lightClientConnectionAfter = none := by
        rw [after, connectionAfter]
        exact if_pos (.inr hlt)
      have hstep : searchHistory h (d :: retained) =
          ((inForce ds).filter fun f => decide (f.connection.height ≤ h)).or
            (searchHistory h retained) := by
        rw [searchHistory, hfuture, none_or, before, connectionBefore,
          below.eligible_inForce]
      have hskip : ((inForce (d :: ds)).filter fun f => decide (f.connection.height ≤ h)) = none := by
        rw [inForce_cons_of_some after]
        exact filter_some_neg (decide_eq_false (not_le.mpr hlt))
      rw [hskip, none_or, hstep, dropWhile_cons_of_pos (by simpa using hlt)]
      exact ih hds
    · rw [dropWhile_cons_of_neg (by simpa using hlt)]
      exact (Grown.moves below height above after connectionAfter before connectionBefore).search_low
        hsplit (not_lt.mp hlt)

theorem mem_upTo (hd : d ∈ ds) (hle : d.height ≤ h) :
    d ∈ ds.dropWhile fun d => decide (h < d.height) := by
  rw [← takeWhile_append_dropWhile (p := fun d => decide (h < d.height)) (l := ds)] at hd
  rcases mem_append.mp hd with hd | hd
  · have hlt := of_decide_eq_true (all_eq_true.mp all_takeWhile d hd)
    exact absurd hle (not_le.mpr hlt)
  · exact hd

/-- When nothing was in force at the height, the first store of all came later. -/
theorem Follows.floor_none {s : BridgeState} (hs : Follows ds s)
    (hnone : inForce (ds.dropWhile fun d => decide (h < d.height)) = none) :
    (s.lightClientFloor.filter fun floor =>
      decide (0 ≤ floor.connection.height ∧ floor.connection.height ≤ h)) = none := by
  refine filter_eq_none_iff.mpr fun f hf hle => ?_
  obtain ⟨d, hd, hsets⟩ := hs.floor f hf
  have hheight := (of_decide_eq_true hle).2
  rw [sets_connection hsets] at hheight
  have := findSome?_eq_none_iff.mp hnone d (mem_upTo hd hheight)
  rw [this] at hsets
  cases hsets

/-- The answer for a height whose undo is retained. -/
theorem Retained.finalized {E : BridgeEnv} {i : BridgeStateIndex} {oldest : BridgeBlockDelta}
    (hr : Retained E id (fun _ _ => True) i ds) (holdest : i.history.head? = some oldest)
    (hle : oldest.height ≤ h) :
    i.finalizedLightClientSnapshot h = inForce (ds.dropWhile fun d => decide (h < d.height)) := by
  have hs := hr.built.follows
  obtain ⟨newer, hhistory⟩ : ∃ newer, i.history = oldest :: newer :=
    head?_eq_some_iff.mp holdest
  obtain ⟨rest, hsplit⟩ := hr.history
  rw [List.map_id] at hsplit
  have hlast : ds = newer.reverse ++ oldest :: rest := by
    rw [← hsplit, hhistory, reverse_cons, append_assoc, singleton_append]
  have hgrown : Grown (oldest :: rest) := by
    have hg := hs.grown
    rw [hlast] at hg
    exact hg.of_append
  have hrest : ∀ d ∈ rest, d.height ≤ h := fun d hd => (hgrown.height_lt d hd).le.trans hle
  have hpos : ¬ h < 0 := not_lt.mpr ((hgrown.height_nonneg oldest mem_cons_self).trans hle)
  have hsearch := hs.grown.search hsplit.symm hrest
  unfold BridgeStateIndex.finalizedLightClientSnapshot
  rw [if_neg hpos, hs.lightClient, hs.connection, hs.grown.eligible_inForce, ← Option.or_assoc,
    hsearch]
  cases hforce : inForce (ds.dropWhile fun d => decide (h < d.height)) with
  | some f => rfl
  | none => rw [none_or, hs.floor_none hforce]

end Search

/-! ## Runs of calls -/

section Runs

variable {E : BridgeEnv} {i : BridgeStateIndex}

/-- A call that is not refused; a refused one leaves the index as it was. -/
def act (E : BridgeEnv) (i : BridgeStateIndex) (call : IndexCall) : Option BridgeStateIndex :=
  match call.perform E i with
  | (.ok (), j) => some j
  | (.error _, _) => none

/-- The deltas connected after the calls, tip first. -/
def connectedBy : List IndexCall → List BridgeBlockDelta
  | [] => []
  | .connect d :: calls => d :: connectedBy calls
  | .disconnect _ _ :: calls => (connectedBy calls).tail
  | .clear :: _ => []

theorem act_ok {call : IndexCall} {j : BridgeStateIndex} (h : act E i call = some j) :
    call.perform E i = (.ok (), j) := by
  unfold act at h
  split at h
  · cases h
    assumption
  · cases h

theorem run_retained {calls : List IndexCall} (h : Run (act E) (.empty E.keccak) calls i) :
    Retained E id (fun _ _ => True) i (connectedBy calls) := by
  induction h with
  | start => exact .empty
  | @next calls i j call _ hact ih =>
    have hok := act_ok hact
    cases call with
    | connect d => exact ih.connectBlock hok trivial
    | disconnect height blockHash => exact ih.disconnectBlock hok
    | clear =>
      cases hok
      exact .empty

/-- For a height from the oldest retained undo on: the light client that was in force after the
blocks up to it, which is the one right after the block at that height, with the block that set
it; or nothing if there was none. -/
theorem finalized_snapshot_exact {calls : List IndexCall} {oldest : BridgeBlockDelta} {h : Int}
    (hrun : Run (act E) (.empty E.keccak) calls i) (holdest : i.history.head? = some oldest)
    (hle : oldest.height ≤ h) : i.finalizedLightClientSnapshot h =
      inForce ((connectedBy calls).dropWhile fun d => decide (h < d.height)) ∧
    ∀ newer d older, connectedBy calls = newer ++ d :: older → d.height = h →
      ∃ s, Built E id (fun _ _ => True) (d :: older) s ∧
        i.finalizedLightClientSnapshot h = s.lightClientView ∧
        s.lightClientView = inForce (d :: older) := by
  have hr := run_retained hrun
  have hanswer := hr.finalized holdest hle
  refine ⟨hanswer, fun newer d older hchain hd => ?_⟩
  have hbuilt := hr.built
  rw [hchain] at hbuilt
  obtain ⟨s, hs⟩ := hbuilt.suffix
  refine ⟨s, hs, ?_, hs.follows.view⟩
  have hnewer : ∀ d' ∈ newer, h < d'.height := hd ▸ hbuilt.follows.grown.above_mem
  rw [hanswer, hs.follows.view, hchain, dropWhile_append_of_pos (by simpa using hnewer),
    dropWhile_cons_of_neg (by simp [hd])]

end Runs

/-! ## Two stores in a row -/

def bootstrapDelta : BridgeBlockDelta where
  height := 3
  blockHash := 9
  lightClientAfter := some { period := 1 }
  lightClientConnectionAfter := some ⟨3, 9⟩
  withdrawalTreeBefore := .empty sampleEnv.keccak
  withdrawalTreeAfter := .empty sampleEnv.keccak

def updateDelta : BridgeBlockDelta where
  height := 4
  blockHash := 10
  previousHeight := 3
  previousBlockHash := 9
  lightClientBefore := some { period := 1 }
  lightClientAfter := some { period := 2 }
  lightClientConnectionBefore := some ⟨3, 9⟩
  lightClientConnectionAfter := some ⟨4, 10⟩
  withdrawalTreeBefore := .empty sampleEnv.keccak
  withdrawalTreeAfter := .empty sampleEnv.keccak

def updatedIndex : BridgeStateIndex :=
  ((exec (act sampleEnv) (.empty sampleEnv.keccak)
    [.connect updateDelta, .connect bootstrapDelta])).getD (.empty sampleEnv.keccak)

theorem finalized_below_update :
    updatedIndex.finalizedLightClientSnapshot 3 = some ⟨{ period := 1 }, ⟨3, 9⟩⟩ ∧
    updatedIndex.finalizedLightClientSnapshot 4 = some ⟨{ period := 2 }, ⟨4, 10⟩⟩ := by
  have hexec : exec (act sampleEnv) (.empty sampleEnv.keccak)
      [.connect updateDelta, .connect bootstrapDelta] = some updatedIndex := by
    decide +kernel
  have holdest : updatedIndex.history.head? = some bootstrapDelta := by decide +kernel
  have hrun := run_of_exec hexec
  refine ⟨?_, ?_⟩
  · rw [(finalized_snapshot_exact hrun holdest (le_refl (3 : Int))).1]
    decide +kernel
  · rw [(finalized_snapshot_exact hrun holdest (show (3 : Int) ≤ 4 by decide)).1]
    decide +kernel

end B3Coin.Bridge
