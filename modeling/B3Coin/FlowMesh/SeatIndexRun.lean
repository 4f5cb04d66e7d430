import B3Coin.FlowMesh.SeatIndex
import B3Coin.Lib.Transition

/-!
# The seat index along a chain

The scratch maps of a block follow the log of spends and seat bindings, its delta
is the net change, and connecting the delta reaches the scratch maps. Taken back,
it restores the maps; unwinding reaches the maps of every retained block.
-/
namespace B3Coin.FlowMesh.SeatIndex

open Codec (Bytes)
open Consensus (Params)
open Assets (configuredChainDomain sampleParams)
open BlockJournal ChainLog InverseIndex NetDelta Reversible SpendLog List Guards OrderedMap
open FnSeatIndex (connectBlock connectSeat restoreSeat undoReadiness members unwind unwindBlock
  unwindAdded unwindRemoved)
open Transition (Run)
open FnSeatRecord BlockDelta Scratch

/-! ## The two maps -/

def FnSeatRecord.key (r : FnSeatRecord) : Option BlsPubkey := some r.blsPubkey

/-- The key map is the inverse of the seats, and every seat stands under its outpoint. -/
structure Seats.Sound (s : Seats) : Prop where
  inverse : Inverse key s.byOutpoint s.ownerOfKey
  keyed : ∀ o r, s.byOutpoint.find? o = some r → r.outpoint = o

namespace Seats

variable {s : Seats} {r : FnSeatRecord}

theorem sound_empty : Sound {} := ⟨inverse_empty, nofun⟩

theorem Sound.owner (h : s.Sound) {o : COutPoint} (hr : s.byOutpoint.find? o = some r) :
    s.ownerOfKey.find? r.blsPubkey = some r.outpoint := by
  rw [h.keyed o r hr]
  exact (h.inverse _ _).mpr ⟨r, hr, rfl⟩

theorem Sound.erase (h : s.Sound) {o : COutPoint} (hr : s.byOutpoint.find? o = some r) :
    Sound ⟨s.byOutpoint.erase o, s.ownerOfKey.erase r.blsPubkey⟩ where
  inverse := h.inverse.erase hr
  keyed o' r' hr' := by
    rw [find?_erase] at hr'
    split_ifs at hr'
    exact h.keyed o' r' hr'

/-- Seats that were taken out of the maps determine them: the key map follows. -/
theorem Sound.ext (h : s.Sound) {s' : Seats} (h' : s'.Sound)
    (heq : s.byOutpoint = s'.byOutpoint) : s = s' := by
  have hown : s.ownerOfKey = s'.ownerOfKey := by
    have hinv := h.inverse
    rw [heq] at hinv
    exact hinv.unique h'.inverse
  cases s
  simp_all

theorem Sound.remove (h : s.Sound) (wrongSeat wrongOwner : String)
    (hr : s.byOutpoint.find? r.outpoint = some r) :
    ∃ s', Seats.remove wrongSeat wrongOwner s r = .ok s' ∧ s'.Sound ∧
      s'.byOutpoint = s.byOutpoint.erase r.outpoint := by
  refine ⟨_, ?_, h.erase hr, rfl⟩
  unfold Seats.remove
  rw [if_neg (not_not.mpr hr), if_neg (not_not.mpr (h.owner hr))]

theorem Sound.put (h : s.Sound) (hfree : s.byOutpoint.find? r.outpoint = none)
    (hkey : s.ownerOfKey.find? r.blsPubkey = none) :
    (s.put r).Sound ∧ (s.put r).byOutpoint = s.byOutpoint.insert r.outpoint r := by
  have hmap := emplace_of_none r hfree
  have hown := emplace_of_none r.outpoint hkey
  unfold Seats.put
  rw [hmap, hown]
  refine ⟨⟨h.inverse.insert hfree fun p hp => ?_, fun o r' hr' => ?_⟩, rfl⟩
  · cases hp
    exact hkey
  · rw [find?_insert] at hr'
    split_ifs at hr' with ho
    · cases hr'
      exact ho.symm
    · exact h.keyed o r' hr'

/-- Within seats that have unique keys, a new one has a free key. -/
theorem Sound.key_free (h : s.Sound) {m : Seats} (hm : m.Sound)
    (hfree : s.byOutpoint.find? r.outpoint = none)
    (hsub : Sub (s.byOutpoint.insert r.outpoint r) m.byOutpoint) :
    s.ownerOfKey.find? r.blsPubkey = none := by
  refine h.inverse.find?_eq_none.mpr fun o r' hr' hkey => ?_
  have hne : o ≠ r.outpoint := by
    rintro rfl
    rw [hfree] at hr'
    cases hr'
  have h1 := hsub r.outpoint r (find?_insert_self _ _ _)
  have h2 := hsub o r' (by rw [find?_insert, if_neg hne]; exact hr')
  exact hne (hm.inverse.holder_unique h2 hkey h1 rfl)

end Seats

/-! ## Connecting and disconnecting a delta -/

section Deltas

variable {s m : Seats} {removed added : List FnSeatRecord}

/-- Any way of removing and adding seats that only refuses what is wrong leads from the one
state to the other. -/
theorem Seats.Sound.between (hs : s.Sound) (hm : m.Sound)
    (h : Between outpoint s.byOutpoint m.byOutpoint removed added)
    (wrongSeat wrongOwner : String) (put : Seats → FnSeatRecord → Except String Seats)
    (hput : ∀ x r, x.byOutpoint.find? r.outpoint = none → x.ownerOfKey.find? r.blsPubkey = none →
      ((x.put r).byOutpoint = x.byOutpoint.insert r.outpoint r) →
      (x.byOutpoint.insert r.outpoint r).size ≤ m.byOutpoint.size → put x r = .ok (x.put r)) :
    ∃ mid, removed.foldlM (Seats.remove wrongSeat wrongOwner) s = .ok mid ∧
      added.foldlM put mid = .ok m := by
  obtain ⟨s1, s2, hfold1, hfold2, hsound, hview⟩ :=
    h.run Seats.byOutpoint Seats.Sound (Seats.remove wrongSeat wrongOwner) put
      (fun x r _ hx hr => hx.remove wrongSeat wrongOwner hr)
      (fun x r _ hx hfree hsub => by
        have hkey := hx.key_free hm hfree hsub
        obtain ⟨hsound, hmap⟩ := hx.put hfree hkey
        exact ⟨x.put r, hput x r hfree hkey hmap hsub.size_le, hsound, hmap⟩)
      hs rfl
  rw [hsound.ext hm hview] at hfold2
  exact ⟨s1, hfold1, hfold2⟩

theorem connectSeat_ok {x : Seats} {r : FnSeatRecord}
    (hfree : x.byOutpoint.find? r.outpoint = none) (hkey : x.ownerOfKey.find? r.blsPubkey = none)
    (hsize : (x.put r).byOutpoint.size ≤ FLOWMESH_MAX_ACTIVE_FN_SEATS) :
    FnSeatIndex.connectSeat x r = .ok (x.put r) := by
  unfold FnSeatIndex.connectSeat
  rw [contains_eq_false.mpr hfree, contains_eq_false.mpr hkey]
  simp only [Bool.false_eq_true, if_false]
  rw [if_neg (by omega)]

theorem restoreSeat_ok {x : Seats} {r : FnSeatRecord}
    (hfree : x.byOutpoint.find? r.outpoint = none) (hkey : x.ownerOfKey.find? r.blsPubkey = none) :
    FnSeatIndex.restoreSeat x r = .ok (x.put r) := by
  unfold FnSeatIndex.restoreSeat
  rw [contains_eq_false.mpr hfree, contains_eq_false.mpr hkey]
  simp

end Deltas

/-! ## The bindings of a transaction name different outputs -/

section Bindings

variable {E : SeatEnv} {params : Params} {height : Int} {tx : CTransaction}

theorem beValue_take_lt (b : Bytes) (n : Nat) : beValue (b.take n) < 256 ^ n := by
  refine lt_of_lt_of_le (Codec.leValue_lt _) (Nat.pow_le_pow_right (by decide) ?_)
  rw [length_reverse]
  exact length_take_le n b

theorem collectEvidence_bound {seats : OrderedMap Nat Assets.ModernOutput} {records : List CMpaRecord}
    {evidence evidence' : OrderedMap Nat FlowMeshSeatBindingV1}
    (h : collectEvidence seats records evidence = .ok evidence')
    (hev : ∀ e ∈ evidence.entries, e.1 < 2 ^ 32) : ∀ e ∈ evidence'.entries, e.1 < 2 ^ 32 := by
  induction records generalizing evidence with
  | nil =>
    cases h
    exact hev
  | cons record rest ih =>
    unfold collectEvidence at h
    split_ifs at h with htype
    · exact ih h hev
    · obtain ⟨binding, hbinding, h⟩ := bind_eq_ok.mp h
      have h := of_seq h
      obtain ⟨hdup, h⟩ := seq_eq_ok.mp h
      have hnone := contains_eq_false.mp (by simpa using reject_eq_ok.mp hdup)
      refine ih h fun e he => ?_
      rw [emplace_of_none _ hnone] at he
      rcases mem_insert.mp he with rfl | he
      · have hbinding := of_seq hbinding
        have hbinding := of_seq hbinding
        cases hbinding
        exact beValue_take_lt record.payload 4
      · exact hev e he.1

theorem extract_nodup {bindings : List VerifiedFlowMeshSeatBinding}
    (h : extractVerifiedFlowMeshSeatBindings E params height tx = .ok bindings) :
    (bindings.map fun b => UInt32.ofNat b.outputIndex).Nodup := by
  obtain ⟨seats, _, h⟩ := bind_eq_ok.mp h
  split_ifs at h with hempty
  · cases h
    exact .nil
  have h := of_seq h
  obtain ⟨_, _, h⟩ := bind_eq_ok.mp h
  have h := of_seq h
  obtain ⟨evidence, hevidence, h⟩ := bind_eq_ok.mp h
  have h := of_seq h
  have hbound := collectEvidence_bound hevidence nofun
  have hindex : List.Forall₂ Eq evidence.keys (bindings.map (·.outputIndex)) := by
    refine forall₂_map_left_iff.mpr (forall₂_map_right_iff.mpr ?_)
    refine (mapM_eq_ok.mp h).imp fun e b hb => ?_
    unfold verifyEvidence at hb
    simp only at hb
    split_ifs at hb
    cases hb
    rfl
  rw [forall₂_eq_eq_eq] at hindex
  have hmap : (bindings.map fun b => UInt32.ofNat b.outputIndex) =
      evidence.keys.map UInt32.ofNat := by
    rw [hindex, map_map]
    rfl
  rw [hmap]
  refine List.Nodup.map_on (fun a ha b hb hab => ?_) evidence.keys_nodup
  obtain ⟨e, he, rfl⟩ := mem_map.mp ha
  obtain ⟨e', he', rfl⟩ := mem_map.mp hb
  have := congrArg UInt32.toNat hab
  rwa [UInt32.toNat_ofNat_of_lt' (hbound e he), UInt32.toNat_ofNat_of_lt' (hbound e' he')] at this

end Bindings

/-! ## Judging a block -/

section Verify

variable {E : SeatEnv} {params : Params} {domain : Uint256} {info : BlockInfo} {base : Seats}
variable {s s' : Scratch}

/-- What a transaction does to the seats. -/
def seatEntry (E : SeatEnv) (params : Params) (info : BlockInfo) (tx : CTransaction) :
    Entry COutPoint FnSeatRecord where
  spends := tx.prevouts
  creates :=
    match extractVerifiedFlowMeshSeatBindings E params info.height tx with
    | .ok bindings =>
      bindings.map (seatRecord E ((configuredChainDomain E.toEnv params).getD 0) info (E.txid tx))
    | .error _ => []

/-- The part of the scratch state that follows the log. -/
def Scratch.book (s : Scratch) : NetDelta.Book COutPoint FnSeatRecord :=
  ⟨s.byOutpoint, s.removedFromParent, s.createdInOrder⟩

structure Scratch.Kept (s : Scratch) : Prop where
  sound : s.Sound
  size : s.byOutpoint.size ≤ FLOWMESH_MAX_ACTIVE_FN_SEATS

theorem spend_refines (h : s.Kept) {prevout : COutPoint} (hok : spend base s prevout = .ok s') :
    s'.Kept ∧ s'.book = s.book.spend outpoint base.byOutpoint prevout := by
  unfold spend at hok
  cases hr : s.byOutpoint.find? prevout with
  | none =>
    rw [hr] at hok
    cases hok
    simp only [NetDelta.Book.spend, book, hr]
    exact ⟨h, trivial⟩
  | some r =>
    rw [hr] at hok
    simp only [h.sound.owner hr, ne_eq, not_true, if_false] at hok
    cases hok
    refine ⟨⟨h.sound.erase hr, (erase_sub _ _).size_le.trans h.size⟩, ?_⟩
    simp only [NetDelta.Book.spend, book, hr]

theorem create_refines (h : s.Kept) {r : FnSeatRecord} (hok : create s r = .ok s') :
    s'.Kept ∧ s'.book = s.book.create outpoint r := by
  unfold create at hok
  split_ifs at hok with hout hkey
  obtain ⟨hsound, hmap⟩ := h.sound.put
    (contains_eq_false.mp (Bool.eq_false_iff.mpr hout))
    (contains_eq_false.mp (Bool.eq_false_iff.mpr hkey))
  simp only at hok
  split_ifs at hok with hsize
  cases hok
  refine ⟨⟨hsound, not_lt.mp hsize⟩, ?_⟩
  simp only [NetDelta.Book.create, book, hmap]

theorem verifyTransaction_refines (hdomain : configuredChainDomain E.toEnv params = some domain)
    (h : s.Kept) {tx : CTransaction}
    (hok : verifyTransaction E params domain info base s tx = .ok s') : s'.Kept ∧
      s'.book = s.book.entry outpoint base.byOutpoint (seatEntry E params info tx) := by
  obtain ⟨s1, hspend, hok⟩ := bind_eq_ok.mp hok
  obtain ⟨bindings, hbindings, hok⟩ := bind_eq_ok.mp hok
  obtain ⟨h1, hbook1⟩ := foldlM_refines Scratch.Kept book
    (NetDelta.Book.spend outpoint base.byOutpoint)
    (fun _ _ _ hs => spend_refines hs) h hspend
  obtain ⟨h2, hbook2⟩ := foldlM_refines Scratch.Kept book
    (NetDelta.Book.create outpoint) (fun _ _ _ hs => create_refines hs) h1 hok
  refine ⟨h2, ?_⟩
  rw [hbook2, hbook1, NetDelta.Book.entry, seatEntry, hbindings, hdomain]
  rfl

/-- The seats of a transaction stand under different outpoints of its own. -/
theorem seatEntry_hash (info : BlockInfo) (tx : CTransaction) :
    ∀ r ∈ (seatEntry E params info tx).creates, r.outpoint.hash = E.txid tx := by
  intro r hr
  unfold seatEntry at hr
  split at hr
  · obtain ⟨b, _, rfl⟩ := mem_map.mp hr
    rfl
  · cases hr

theorem seatEntry_nodup (info : BlockInfo) (tx : CTransaction) :
    ((seatEntry E params info tx).creates.map outpoint).Nodup := by
  unfold seatEntry
  split
  · next bindings hbindings =>
    rw [map_map]
    refine List.Nodup.of_map COutPoint.n ?_
    rw [map_map]
    exact extract_nodup hbindings
  · exact .nil

end Verify

/-! ## Chains -/

section Chains

variable (E : SeatEnv) (params : Params)

/-- `VerifyBlock`, then `ConnectBlock` of the delta, for a block with new transaction ids. -/
def connect : FnSeatIndex → Block → Option FnSeatIndex :=
  verifyAndConnect E.txid (·.byOutpoint) (fun index b => verifyBlock E params index b.vtx b.info)
    connectBlock

def disconnect (index : FnSeatIndex) (info : BlockInfo) : Option FnSeatIndex :=
  (index.disconnectBlock info).toOption

/-- Calls on the index; a query fills the cache. -/
inductive Call where
  | connect (b : Block)
  | disconnect (info : BlockInfo)
  | snapshotAt (anchor : BlockInfo)

def call (index : FnSeatIndex) : Call → Option FnSeatIndex
  | .connect b => connect E params index b
  | .disconnect info => disconnect index info
  | .snapshotAt anchor => some (index.snapshotAt anchor).2

def moves : List Call → List (Reversible.Move Block BlockInfo) :=
  filterMap fun
    | .connect b => some (.forward b)
    | .disconnect info => some (.back info)
    | .snapshotAt _ => none

/-- The chain that is connected after the calls. -/
def connected (calls : List Call) : List Block := standing (moves calls)

end Chains

section ChainLemmas

variable {E : SeatEnv} {params : Params} {index index' : FnSeatIndex} {b : Block}

section

variable (E : SeatEnv) (params : Params) (chain : List Block) (index : FnSeatIndex)

/-- What the index keeps about the chain connected to it. -/
structure Tracks : Prop where
  sound : index.Sound
  size : index.byOutpoint.size ≤ FLOWMESH_MAX_ACTIVE_FN_SEATS
  holds : Holds outpoint index.byOutpoint (chainLog (seatEntry E params) chain)

/-- A delta that `VerifyBlock` produced leads to sound seats that hold the longer log. -/
structure Judged (b : Block) (delta : FnSeatBlockDelta) (next : Seats) : Prop extends
    Change (seatEntry E params) outpoint chain index.byOutpoint b next.byOutpoint
      delta where
  sound : next.Sound
  size : next.byOutpoint.size ≤ FLOWMESH_MAX_ACTIVE_FN_SEATS

end

variable {chain : List Block} {delta : FnSeatBlockDelta} {next : Seats}

theorem verifyBlock_judged (h : Tracks E params chain index)
    (hfresh : freshIds E.txid index.byOutpoint b = true)
    (hok : verifyBlock E params index b.vtx b.info = .ok delta) :
    ∃ next, Judged E params chain index b delta next := by
  obtain ⟨hconf, hok⟩ := seq_eq_ok.mp hok
  obtain ⟨hactive, hok⟩ := seq_eq_ok.mp hok
  obtain ⟨hhash, hok⟩ := seq_eq_ok.mp hok
  obtain ⟨domain, hdomain, hok⟩ := bind_eq_ok.mp hok
  obtain ⟨s, hfold, hok⟩ := bind_eq_ok.mp hok
  cases hok
  have hstart : Scratch.Kept { toSeats := index.toSeats } := ⟨h.sound, h.size⟩
  obtain ⟨hkept, hbook⟩ := foldlM_refines Scratch.Kept book
    (fun book tx => book.entry outpoint index.byOutpoint (seatEntry E params b.info tx))
    (fun _ _ _ hs => verifyTransaction_refines (demand_eq_ok.mp hdomain) hs) hstart hfold
  obtain ⟨hprogress, -, hholds⟩ :=
    book_block seatEntry_hash seatEntry_nodup hfresh h.holds hbook
  have hheight : 0 ≤ b.info.height := by
    have hsome := reject_eq_ok.mp hconf
    have hlow := reject_eq_ok.mp hactive
    cases ha : params.assetActivationHeight with
    | none => simp [Consensus.flowMeshSeatBindingScheduleConfigured, ha] at hsome
    | some a =>
      have hle : (a : Int) ≤ b.info.height := by simpa [ha] using hlow
      omega
  exact ⟨s.toSeats, ⟨rfl, hheight, reject_eq_ok.mp hhash, hholds, hprogress.between⟩, hkept.sound,
    hkept.size⟩

/-- The index that connecting a delta leads to. -/
def extended (index : FnSeatIndex) (delta : FnSeatBlockDelta) (next : Seats) : FnSeatIndex :=
  { index with
    toSeats := next
    readinessTransitions :=
      if index.ready ≠ next.ready then (delta.height, next.ready) :: index.readinessTransitions
      else index.readinessTransitions
    history := delta :: index.history }

theorem Judged.connectBlock_iff (h : Tracks E params chain index)
    (hj : Judged E params chain index b delta next) : index.connectBlock delta = .ok index' ↔
      contiguous (index.history.map toBlockInfo) b ∧
        index' = extended index delta next := by
  obtain ⟨mid, hremoved, hadded⟩ := h.sound.between hj.sound hj.between
    "FlowMesh FN-seat delta removes the wrong outpoint"
    "FlowMesh FN-seat delta removes the wrong key owner" connectSeat
    (fun x r hfree hkey hmap hsize => connectSeat_ok hfree hkey
      (by rw [hmap]; exact hsize.trans hj.size))
  refine seq_eq_ok.trans ((and_iff_right (reject_eq_ok.mpr hj.identity)).trans ?_)
  refine seq_eq_ok.trans (and_congr ?_ ?_)
  · rw [reject_eq_ok, hj.info]
    exact contiguous_iff
  · rw [hremoved]
    change (delta.added.foldlM connectSeat mid).bind _ = _ ↔ _
    rw [hadded]
    exact ⟨fun h => (Except.ok.inj h).symm, fun h => congrArg Except.ok h.symm⟩

theorem Judged.disconnectBlock (h : Tracks E params chain index)
    (hj : Judged E params chain index b delta next) :
    (extended index delta next).disconnectBlock b.info =
      .ok { index with snapshots := index.snapshots.erase b.info.blockHash } := by
  obtain ⟨mid, hadded, hremoved⟩ := hj.sound.between h.sound hj.between.symm.reverse
    "FlowMesh FN-seat undo cannot remove its addition"
    "FlowMesh FN-seat undo has the wrong added-key owner" restoreSeat
    (fun x r hfree hkey _ _ => restoreSeat_ok hfree hkey)
  unfold FnSeatIndex.disconnectBlock
  refine seq_eq_ok.mpr ⟨reject_eq_ok.mpr hj.tip, ?_⟩
  refine bind_eq_ok.mpr ⟨mid, hadded, bind_eq_ok.mpr ⟨_, hremoved, ?_⟩⟩
  refine bind_eq_ok.mpr ⟨index.readinessTransitions, ?_, rfl⟩
  unfold undoReadiness
  by_cases hready : index.ready = next.ready
  · simp [extended, hready]
  · have hready' : ¬ next.ready = index.ready := fun heq => hready heq.symm
    simp [extended, hready, hready', hj.info]

/-! ## The index over a chain -/

theorem Tracks.connect (h : Tracks E params chain index)
    (hstep : SeatIndex.connect E params index b = some index') :
    ∃ delta next, Judged E params chain index b delta next ∧
      contiguous (index.history.map toBlockInfo) b ∧
      index' = extended index delta next := by
  obtain ⟨hfresh, delta, hok, hconn⟩ := verifyAndConnect_eq_some.mp hstep
  obtain ⟨next, judged⟩ := verifyBlock_judged h hfresh hok
  exact ⟨delta, next, judged, (judged.connectBlock_iff h).mp hconn⟩

theorem run_tracks (h : Run (connect E params) {} chain index) : Tracks E params chain index := by
  induction h with
  | start => exact ⟨Seats.sound_empty, Nat.zero_le _, holds_empty⟩
  | next _ hstep ih =>
    obtain ⟨_, _, judged, _, rfl⟩ := ih.connect hstep
    exact { judged with }

theorem journal : Journal (connect E params) {} FnSeatIndex.history toBlockInfo where
  start := rfl
  next hrun hstep := by
    obtain ⟨delta, _, judged, hnext, rfl⟩ := (run_tracks hrun).connect hstep
    exact ⟨delta, rfl, judged.info, hnext⟩

theorem run_snapshots (h : Run (connect E params) {} chain index) : index.snapshots = ∅ := by
  induction h with
  | start => rfl
  | next hrun hstep ih =>
    obtain ⟨_, _, _, _, rfl⟩ := (run_tracks hrun).connect hstep
    exact ih

theorem disconnect_undoes : Undoes (connect E params) disconnect {} where
  start _ := rfl
  restores := by
    intro chain index index' restored b info hrun hstep hundo
    have htracks := run_tracks hrun
    obtain ⟨delta, next, judged, _, rfl⟩ := htracks.connect hstep
    have hundo := toOption_eq_some.mp hundo
    obtain rfl : b.info = info := judged.info.symm.trans
      (eq_of_tip (reject_eq_ok.mp (seq_eq_ok.mp hundo).1))
    rw [judged.disconnectBlock htracks] at hundo
    cases hundo
    have hnone := run_snapshots hrun
    cases index
    cases hnone
    rfl

/-! ## The cache -/

/-- The index without its cache. -/
def core (index : FnSeatIndex) : FnSeatIndex := { index with snapshots := ∅ }

theorem connect_core (index : FnSeatIndex) (b : Block) :
    connect E params (core index) b = (connect E params index b).map core := by
  have hblock : ∀ delta, (core index).connectBlock delta = core <$> index.connectBlock delta := by
    intro delta
    unfold FnSeatIndex.connectBlock
    simp only [map_bind]
    rfl
  unfold connect verifyAndConnect
  change (if freshIds E.txid index.byOutpoint b = true then
    ((verifyBlock E params index b.vtx b.info).bind (core index).connectBlock).toOption else none) = _
  dsimp only
  split_ifs
  · cases verifyBlock E params index b.vtx b.info with
    | error e => rfl
    | ok delta =>
      change ((core index).connectBlock delta).toOption = (index.connectBlock delta).toOption.map core
      rw [hblock]
      cases index.connectBlock delta <;> rfl
  · rfl

theorem disconnect_core (index : FnSeatIndex) (info : BlockInfo) :
    disconnect (core index) info = (disconnect index info).map core := by
  have hblock : (core index).disconnectBlock info = core <$> index.disconnectBlock info := by
    unfold FnSeatIndex.disconnectBlock
    have hhistory : (core index).history = index.history := rfl
    rw [hhistory]
    cases index.history with
    | nil => rfl
    | cons delta rest =>
      simp only [map_bind]
      rfl
  unfold disconnect
  rw [hblock]
  cases index.disconnectBlock info <;> rfl

theorem snapshotAt_core (index : FnSeatIndex) (anchor : BlockInfo) :
    core (index.snapshotAt anchor).2 = core index := by
  unfold FnSeatIndex.snapshotAt
  split
  · rfl
  · split <;> rfl

theorem run_core {calls : List Call} (h : Run (call E params) {} calls index) :
    Run (act (connect E params) disconnect) {} (moves calls) (core index) := by
  induction h with
  | start => exact .start
  | @next calls index index' c _ hcall ih =>
    cases c with
    | connect b =>
      exact run_forward ih ((connect_core index b).trans (congrArg (Option.map core) hcall))
    | disconnect info =>
      exact run_back ih ((disconnect_core index info).trans (congrArg (Option.map core) hcall))
    | snapshotAt anchor =>
      cases hcall
      rw [snapshotAt_core]
      exact ih

/-- The index is that of the chain, up to its cache. -/
abbrev Built (E : SeatEnv) (params : Params) (chain : List Block) (index : FnSeatIndex) : Prop :=
  Run (connect E params) {} chain (core index)

theorem run_built {calls : List Call} (h : Run (call E params) {} calls index) :
    Built E params (connected calls) index :=
  disconnect_undoes.run_standing (run_core h)

theorem Built.tracks (h : Built E params chain index) : Tracks E params chain index :=
  { run_tracks h with }

/-- The latest block of a chain was connected to the index of the blocks below. -/
theorem Built.top (h : Built E params (b :: chain) index) : ∃ below delta next,
    Built E params chain below ∧ Judged E params chain below b delta next ∧
      contiguous (below.history.map toBlockInfo) b ∧
      index = extended below delta next := by
  cases h with
  | @next _ below _ _ hrun hstep =>
    obtain ⟨delta, next, judged, hnext, heq⟩ := (run_tracks hrun).connect hstep
    refine ⟨{ below with snapshots := index.snapshots }, delta, next, ?_, { judged with }, hnext, ?_⟩
    · have hnone := run_snapshots hrun
      cases below
      cases hnone
      exact hrun
    · exact congrArg (fun i : FnSeatIndex => { i with snapshots := index.snapshots }) heq

/-! ## Old memberships -/

variable {m : OrderedMap COutPoint FnSeatRecord} {anchor : BlockInfo}

theorem unwindRemoved_ok {r : FnSeatRecord} (hfree : m.find? r.outpoint = none) :
    unwindRemoved m r = .ok (m.insert r.outpoint r) := by
  unfold unwindRemoved
  rw [contains_eq_false.mpr hfree, emplace_of_none r hfree]
  rfl

theorem Judged.unwindBlock (judged : Judged E params chain index b delta next) :
    FnSeatIndex.unwindBlock delta next.byOutpoint = .ok index.byOutpoint := by
  obtain ⟨mid, last, hadded, hremoved, -, hlast⟩ := judged.between.symm.reverse.run id
    (fun _ => True) unwindAdded unwindRemoved
    (fun m r _ _ hr => ⟨m.erase r.outpoint, if_neg (not_not.mpr hr), trivial, rfl⟩)
    (fun m r _ _ hfree _ => ⟨m.insert r.outpoint r, unwindRemoved_ok hfree, trivial, rfl⟩)
    trivial rfl
  exact bind_eq_ok.mpr ⟨mid, hadded, hremoved.trans (congrArg Except.ok hlast)⟩

theorem Judged.unwind_below (judged : Judged E params chain index b delta next)
    (hlt : anchor.height < b.info.height) :
    unwind anchor (delta :: index.history) next.byOutpoint =
      unwind anchor index.history index.byOutpoint :=
  rewind_below (judged.info ▸ hlt) judged.unwindBlock

/-- The seats of every retained block are found again. -/
theorem Built.unwind {newer below : List Block} (h : Built E params (newer ++ b :: below) index) :
    ∃ m, FnSeatIndex.unwind b.info index.history index.byOutpoint = .ok m ∧
      Holds outpoint m (chainLog (seatEntry E params) (b :: below)) := by
  obtain ⟨mid, hmid, hnew⟩ := Run.split h
  refine ⟨mid.byOutpoint, ?_, (run_tracks hmid).holds⟩
  refine journal.rewind hmid hnew (fun index => index.byOutpoint) fun hrun hstep heq => ?_
  obtain ⟨_, _, judged, _, rfl⟩ := (run_tracks hrun).connect hstep
  cases heq
  exact judged.unwindBlock

/-- Every cached snapshot is what unwinding finds. -/
def CacheOk (index : FnSeatIndex) : Prop :=
  ∀ hash snap, index.snapshots.find? hash = some snap → ∃ m,
    unwind ⟨snap.anchorHeight, hash⟩ index.history index.byOutpoint = .ok m ∧
      snap = ⟨snap.anchorHeight, hash, members m⟩

theorem CacheOk.connect (h : CacheOk index) (judged : Judged E params chain index b delta next)
    (hnext : contiguous (index.history.map toBlockInfo) b) :
    CacheOk (extended index delta next) := by
  intro hash snap hsnap
  obtain ⟨m, hm, hmem⟩ := h hash snap hsnap
  obtain ⟨last, hlast, hle, -⟩ := rewind_le hm
  have hheight := hnext last.toBlockInfo (by rw [head?_map, hlast]; rfl)
  refine ⟨m, (judged.unwind_below ?_).trans hm, hmem⟩
  show snap.anchorHeight < b.info.height
  change snap.anchorHeight ≤ last.height at hle
  omega

theorem CacheOk.disconnect (judged : Judged E params chain index b delta next)
    (h : CacheOk (extended index delta next)) :
    CacheOk { index with snapshots := index.snapshots.erase b.info.blockHash } := by
  intro hash snap hsnap
  change (index.snapshots.erase b.info.blockHash).find? hash = some snap at hsnap
  rw [find?_erase] at hsnap
  split_ifs at hsnap with hne
  obtain ⟨m, hm, hmem⟩ := h hash snap hsnap
  obtain ⟨last, hlast, hle, heq⟩ := rewind_le hm
  cases hlast
  rw [judged.info] at hle heq
  have hlt : snap.anchorHeight < b.info.height := lt_of_le_of_ne hle fun he => hne (heq he)
  exact ⟨m, (judged.unwind_below hlt).symm.trans hm, hmem⟩

/-- A query answers from the cache or by unwinding, with one result, and keeps the cache right. -/
theorem CacheOk.snapshotAt (h : CacheOk index) (anchor : BlockInfo) :
    CacheOk (index.snapshotAt anchor).2 ∧
      ∀ m, unwind anchor index.history index.byOutpoint = .ok m →
        (index.snapshotAt anchor).1 = some ⟨anchor.height, anchor.blockHash, members m⟩ := by
  unfold FnSeatIndex.snapshotAt
  cases hcached : (index.snapshots.find? anchor.blockHash).filter
      (·.anchorHeight == anchor.height) with
  | some snap =>
    refine ⟨h, fun m hm => ?_⟩
    obtain ⟨hsnap, hheight⟩ := Option.filter_eq_some_iff.mp hcached
    have hheight : snap.anchorHeight = anchor.height := by simpa using hheight
    obtain ⟨m', hm', hmem⟩ := h _ snap hsnap
    rw [hheight] at hm' hmem
    rw [hm] at hm'
    cases hm'
    exact congrArg some hmem
  | none =>
    cases hm : unwind anchor index.history index.byOutpoint with
    | error _ => exact ⟨h, nofun⟩
    | ok m =>
      refine ⟨fun hash snap hsnap => ?_, fun m' hm' => by cases hm'; rfl⟩
      change (index.snapshots.insert anchor.blockHash _).find? hash = some snap at hsnap
      rw [find?_insert] at hsnap
      split_ifs at hsnap with hhash
      · cases hsnap
        subst hhash
        exact ⟨m, hm, rfl⟩
      · exact h hash snap hsnap

/-! ## Runs -/

theorem run_cacheOk {calls : List Call} (h : Run (call E params) {} calls index) :
    CacheOk index := by
  induction h with
  | start => nofun
  | @next calls index index' c hrun hcall ih =>
    have hbuilt := run_built hrun
    cases c with
    | connect b =>
      obtain ⟨delta, next, judged, hnext, rfl⟩ := hbuilt.tracks.connect hcall
      exact ih.connect judged hnext
    | disconnect info =>
      have hcore : disconnect (core index) info = some (core index') :=
        (disconnect_core index info).trans (congrArg (Option.map core) hcall)
      obtain ⟨b, hchain, -⟩ := disconnect_undoes.run_undo hbuilt hcore
      rw [hchain] at hbuilt
      obtain ⟨below, delta, next, hbelow, judged, -, rfl⟩ := hbuilt.top
      have hundo := toOption_eq_some.mp hcall
      obtain rfl : b.info = info := judged.info.symm.trans
        (eq_of_tip (reject_eq_ok.mp (seq_eq_ok.mp hundo).1))
      rw [judged.disconnectBlock hbelow.tracks] at hundo
      cases hundo
      exact ih.disconnect judged
    | snapshotAt anchor =>
      cases hcall
      exact (ih.snapshotAt anchor).1

/-- What the index is for a connected chain. -/
structure Exact (E : SeatEnv) (params : Params) (chain : List Block) (index : FnSeatIndex) :
    Prop where
  /-- The seats are the unspent seat-binding outputs of the chain. -/
  seats : ∀ o r, index.byOutpoint.find? o = some r ↔
    r.outpoint = o ∧ Unspent outpoint (chainLog (seatEntry E params) chain) r
  /-- The key map is their inverse, so that no key is held twice. -/
  keys : ∀ k o, index.ownerOfKey.find? k = some o ↔
    ∃ r, index.byOutpoint.find? o = some r ∧ r.blsPubkey = k
  keys_unique : ∀ o o' r r', index.byOutpoint.find? o = some r →
    index.byOutpoint.find? o' = some r' → r.blsPubkey = r'.blsPubkey → o = o'
  /-- What `VerifyBlock` produced is connected if and only if the block stands right above the
  tip, and disconnecting it at once gives the index back. -/
  connects : ∀ b delta, freshIds E.txid index.byOutpoint b = true →
    verifyBlock E params index b.vtx b.info = .ok delta →
    ((∃ index', index.connectBlock delta = .ok index') ↔
      contiguous (index.history.map toBlockInfo) b) ∧
    ∀ index', index.connectBlock delta = .ok index' →
      index'.disconnectBlock b.info =
        .ok { index with snapshots := index.snapshots.erase b.info.blockHash } ∧
      ((∀ d ∈ index.history, d.blockHash ≠ b.info.blockHash) →
        index'.disconnectBlock b.info = .ok index)
  /-- The tip can be disconnected whenever it is; all but the cache is then what every other run
  to the chain below leads to. -/
  disconnects : ∀ b below, chain = b :: below → ∃ index',
    index.disconnectBlock b.info = .ok index' ∧
    ∀ calls₀ index₀, Run (call E params) {} calls₀ index₀ → connected calls₀ = below →
      { index' with snapshots := index₀.snapshots } = index₀
  /-- A query for a retained block gives the seats right after that block. -/
  snapshots : ∀ newer b below, chain = newer ++ b :: below → ∃ m,
    (index.snapshotAt b.info).1 = some ⟨b.info.height, b.info.blockHash, members m⟩ ∧
    (∀ o r, m.find? o = some r ↔
      r.outpoint = o ∧ Unspent outpoint (chainLog (seatEntry E params) (b :: below)) r) ∧
    ∀ calls₀ index₀, Run (call E params) {} calls₀ index₀ → connected calls₀ = b :: below →
      index₀.byOutpoint = m

theorem CacheOk.erase_of_new (h : CacheOk index) {hash : Uint256}
    (hnew : ∀ d ∈ index.history, d.blockHash ≠ hash) :
    { index with snapshots := index.snapshots.erase hash } = index := by
  have hnone : index.snapshots.find? hash = none := by
    refine Option.eq_none_iff_forall_ne_some.mpr fun snap hsnap => ?_
    obtain ⟨m, hm, _⟩ := h hash snap hsnap
    obtain ⟨d, hd, heq⟩ := rewind_retained hm
    exact hnew d hd heq
  rw [erase_of_find?_none hnone]

theorem seat_index_exact {calls : List Call} (hrun : Run (call E params) {} calls index) :
    Exact E params (connected calls) index := by
  have hbuilt := run_built hrun
  have hcache := run_cacheOk hrun
  have htracks := hbuilt.tracks
  refine ⟨htracks.holds, fun k o => ?_, fun o o' r r' hr hr' hkey => ?_,
    fun b delta hfresh hok => ?_, fun b below hchain => ?_, fun newer b below hchain => ?_⟩
  · refine (htracks.sound.inverse k o).trans (exists_congr fun r => and_congr_right fun _ => ?_)
    exact ⟨Option.some.inj, congrArg some⟩
  · exact htracks.sound.inverse.holder_unique hr rfl hr' (congrArg some hkey.symm)
  · obtain ⟨next, judged⟩ := verifyBlock_judged htracks hfresh hok
    simp only [judged.connectBlock_iff htracks, exists_and_left, exists_eq, and_true, true_and]
    rintro index' ⟨-, rfl⟩
    have hback := judged.disconnectBlock htracks
    exact ⟨hback, fun hnew => by rw [hback, hcache.erase_of_new hnew]⟩
  · rw [hchain] at hbuilt
    obtain ⟨index', delta, next, hbelow, judged, -, rfl⟩ := hbuilt.top
    refine ⟨_, judged.disconnectBlock hbelow.tracks, fun calls₀ index₀ hrun₀ hconn₀ => ?_⟩
    have hbuilt₀ := run_built hrun₀
    rw [hconn₀] at hbuilt₀
    exact congrArg (fun i : FnSeatIndex => { i with snapshots := index₀.snapshots })
      (hbelow.unique hbuilt₀)
  · rw [hchain] at hbuilt
    obtain ⟨m, hm, hholds⟩ := hbuilt.unwind
    refine ⟨m, (hcache.snapshotAt b.info).2 m hm, hholds, fun calls₀ index₀ hrun₀ hconn₀ => ?_⟩
    have hholds₀ := (run_built hrun₀).tracks.holds
    rw [hconn₀] at hholds₀
    exact hholds₀.unique hholds

end ChainLemmas

/-! ## A seat that moves with its key, and the snapshot before the move -/

def sampleEnv : SeatEnv where
  toEnv := Assets.sampleEnv
  seat := ⟨fun _ => 5, fun _ => 0, fun _ => 0, fun _ => true, fun _ _ _ => true⟩
  verifyPoP _ _ := true
  txid tx := (tx.prevouts.map (·.hash)).sum + 1

/-- A transaction with one seat output and its evidence. -/
def seatTx (spent : Uint256) (key : BlsPubkey) : CTransaction where
  vin := [{ prevout := ⟨spent, 0⟩ }]
  vout := [⟨0, Script.minimalPush (ASSET_OUTPUT_MAGIC ++ bigEndian 32 3 ++ bigEndian 8 1 ++
    bigEndian 2 PolicyType.FN.code ++ bigEndian 2 2 ++ bigEndian 48 key) ++ [OP_DROP, OP_1]⟩]
  mpa := [⟨CREATION_ACTION_FLOWMESH_SEAT_BINDING, 1, bigEndian 4 0 ++ bigEndian 96 0⟩]

def bindBlock : Block := ⟨[seatTx 100 7], ⟨2, 20⟩⟩

/-- The seat of transaction 101 moves to transaction 102, with the same key. -/
def moveBlock : Block := ⟨[seatTx 101 7], ⟨3, 30⟩⟩

def boundIndex : FnSeatIndex := (connect sampleEnv sampleParams {} bindBlock).getD {}

def movedIndex : FnSeatIndex := (connect sampleEnv sampleParams boundIndex moveBlock).getD {}

theorem seat_moved : movedIndex.ownerOfKey.find? 7 = some ⟨102, 0⟩ ∧
    movedIndex.disconnectBlock ⟨3, 30⟩ = .ok boundIndex ∧
    (movedIndex.snapshotAt ⟨2, 20⟩).1 =
      some ⟨2, 20, FnSeatIndex.members boundIndex.byOutpoint⟩ := by
  have hbound : call sampleEnv sampleParams {} (.connect bindBlock) = some boundIndex := by
    decide +kernel
  have hmoved : call sampleEnv sampleParams boundIndex (.connect moveBlock) = some movedIndex := by
    decide +kernel
  have hrun₁ : Run (call sampleEnv sampleParams) {} [.connect bindBlock] boundIndex :=
    Run.next .start hbound
  have hrun₂ := Run.next hrun₁ hmoved
  obtain ⟨m, hsnap, -, hafter⟩ := (seat_index_exact hrun₂).snapshots [moveBlock] bindBlock [] rfl
  have hm : boundIndex.byOutpoint = m := hafter _ boundIndex hrun₁ rfl
  exact ⟨by decide +kernel, by decide +kernel, hm ▸ hsnap⟩

end B3Coin.FlowMesh.SeatIndex
