import B3Coin.Legacy.Replay

/-!
# Replay with durable commits

`ReplayDB` and `PersistentReplay` of `legacy/replay.cpp`. The coins and the marker
of a block become durable in one batch. A process that stops loses its position and
reads it back from the marker. Whatever happens, the database holds the coins of the
accepted blocks and nothing else.
-/
namespace B3Coin.Legacy

open List Guards WriteBack

open Codec (Bytes)
open FlowMesh (COutPoint)
open Guards (Agree)

def FORMAT_VERSION : Int := 1

/-- `ReplayDB::Marker`. -/
structure Marker where
  version : Int := FORMAT_VERSION
  height : Nat
  hash : Uint256
  completed : Bool := false
  deriving DecidableEq

/-- What is on disk. -/
structure Disk where
  coins : CoinMap := ∅
  marker : Option Marker := none

/-- `PersistentReplay` with the `ReplayDB` it runs on: `marker` and `pending` are the database
object's own copies. -/
structure PersistentReplay where
  disk : Disk := {}
  marker : Option Marker := none
  pending : Option Marker := none
  position : Position := {}
  loaded : Bool := false
  completed : Bool := false

inductive PersistentError where
  | coinsWithoutMarker
  | formatVersion (version : Int)
  | markerBeyond (height finalHeight : Nat)
  | completedEarly (height finalHeight : Nat)
  | notLoaded
  | alreadyCompleted
  | replay (e : ReplayError)
  | undecodable (what : String)
  | commit (height : Nat) (what : String)
  | notReached (height finalHeight : Nat)
  | completion (what : String)
  deriving DecidableEq

/-- The outcome of a call and the object after it. -/
abbrev Outcome := Except PersistentError Unit × PersistentReplay

namespace PersistentReplay

variable (P : Params)

/-- A new process on the database: `ReplayDB` reads the marker, nothing is loaded yet. -/
def restart (r : PersistentReplay) : PersistentReplay := { disk := r.disk, marker := r.disk.marker }

/-- `HasAnyCoins`. -/
def hasAnyCoins (r : PersistentReplay) : Bool := !r.disk.coins.entries.isEmpty

def load (r : PersistentReplay) : Outcome :=
  match r.marker with
  | none =>
    if r.hasAnyCoins then (.error .coinsWithoutMarker, r)
    else (.ok (), { r with position := ⟨0, 0⟩, loaded := true })
  | some marker =>
    if marker.version ≠ FORMAT_VERSION then (.error (.formatVersion marker.version), r)
    else if marker.height > P.finalHeight then
      (.error (.markerBeyond marker.height P.finalHeight), r)
    else if marker.completed ∧ marker.height ≠ P.finalHeight then
      (.error (.completedEarly marker.height P.finalHeight), r)
    else (.ok (), { r with
      position := ⟨marker.height + 1, marker.hash⟩, completed := marker.completed, loaded := true })

/-- `ReplayDB::BatchWrite` of a cache's lines under the hash of its best block. The text is that of
the exception; `fault` is one the database throws, before anything is durable. -/
def batchWrite (fault : Option String) (lines : List (COutPoint × WriteBack.Line Coin))
    (hashBlock : Uint256) (r : PersistentReplay) : Except String PersistentReplay :=
  match r.pending with
  | none => .error "replay marker/chainstate disagreement in BatchWrite"
  | some pending =>
    if pending.hash ≠ hashBlock then .error "replay marker/chainstate disagreement in BatchWrite"
    else match fault with
      | some what => .error what
      | none => .ok { r with
        disk := ⟨lines.foldl apply r.disk.coins, some pending⟩
        marker := some pending
        pending := none }

/-- `ApplyBlock`: the block runs in a cache over a cache over the database. After a failed commit the
position is taken back. -/
def applyBlock (block : Block) (fault : Option String) (r : PersistentReplay) : Outcome :=
  if !r.loaded then (.error .notLoaded, r)
  else if r.completed then (.error .alreadyCompleted, r)
  else
    match Legacy.applyBlock P (stacked plain) r.position block
        { base := r.disk.coins } with
    | .error e => (.error (.replay e), r)
    | .ok (position, cache) =>
      let marker : Marker := { height := r.position.nextHeight, hash := position.tipHash }
      let moved := { r with position := position, pending := some marker }
      match moved.batchWrite fault cache.lines.entries marker.hash with
      | .error what =>
        (.error (.commit r.position.nextHeight what), { moved with position := r.position })
      | .ok committed => (.ok (), committed)

def applyRawBlock (raw : Bytes) (fault : Option String) (r : PersistentReplay) : Outcome :=
  match P.decode raw with
  | .error what => (.error (.undecodable what), r)
  | .ok block => r.applyBlock P block fault

def finish (fault : Option String) (r : PersistentReplay) : Outcome :=
  if !r.loaded then (.error .notLoaded, r)
  else if r.completed then (.ok (), r)
  else if r.position.nextHeight ≤ P.finalHeight then
    (.error (.notReached r.position.nextHeight P.finalHeight), r)
  else
    let marker : Marker := { height := P.finalHeight, hash := r.position.tipHash, completed := true }
    match fault with
    | some what => (.error (.completion what), r)
    | none => (.ok (), { r with
      disk := { r.disk with marker := some marker }, marker := some marker, completed := true })

end PersistentReplay

/-! ## Runs -/

/-- What may happen to a replay. A `fault` is the text of the exception of a refused write. -/
inductive Event where
  | restart
  | load
  | applyBlock (block : Block) (fault : Option String)
  | applyRawBlock (raw : Bytes) (fault : Option String)
  | finish (fault : Option String)

namespace Event

variable (P : Params)

def outcome (r : PersistentReplay) : Event → Outcome
  | restart => (.ok (), r.restart)
  | load => r.load P
  | applyBlock block fault => r.applyBlock P block fault
  | applyRawBlock raw fault => r.applyRawBlock P raw fault
  | finish fault => r.finish P fault

/-- The block of a call. -/
def block? : Event → Option Block
  | applyBlock block _ => some block
  | applyRawBlock raw _ => (P.decode raw).toOption
  | _ => none

/-- The block a call accepts in a state. -/
def accepts (r : PersistentReplay) (e : Event) : List Block :=
  match (e.outcome P r).1, e.block? P with
  | .ok _, some block => [block]
  | _, _ => []

/-- The state after some events, from a fresh database, with the blocks accepted so far. -/
def after : List Event → PersistentReplay × List Block
  | [] => ({}, [])
  | e :: before =>
    let x := after before
    ((e.outcome P x.1).2, x.2 ++ e.accepts P x.1)

end Event

/-- The blocks applied in order to the empty set. -/
def replayPure (P : Params) (blocks : List Block) : Except ReplayError (Position × CoinMap) :=
  blocks.foldlM (fun x block => applyPure P x.1 block x.2) (⟨0, 0⟩, ∅)

section Pure

variable {P : Params}

variable {x : Position × CoinMap}

variable {block : Block}

theorem applyPure_eq_ok {pos : Position} {coins : CoinMap} :
    applyPure P pos block coins = .ok x ↔ checkBlock P pos block = .ok () ∧
      x.1 = ⟨pos.nextHeight + 1, P.hash block⟩ ∧
      applyTransactions P mapOps pos.nextHeight block.vtx (firstOffset block) coins =
        .ok x.2 := by
  constructor
  · intro h
    obtain ⟨hcheck, h⟩ := seq_eq_ok.mp h
    obtain ⟨coins', happly, h⟩ := bind_eq_ok.mp h
    cases h
    exact ⟨hcheck, rfl, happly⟩
  · rintro ⟨hcheck, hpos, happly⟩
    refine seq_eq_ok.mpr ⟨hcheck, bind_eq_ok.mpr ⟨x.2, happly, ?_⟩⟩
    rw [← hpos]

variable {blocks : List Block}

theorem replayPure_concat : replayPure P (blocks ++ [block]) = .ok x ↔
      ∃ y, replayPure P blocks = .ok y ∧ applyPure P y.1 block y.2 = .ok x := by
  unfold replayPure
  rw [foldlM_append]
  refine bind_eq_ok.trans (exists_congr fun y => and_congr_right fun _ => ?_)
  rw [foldlM_cons_eq_ok]
  constructor
  · rintro ⟨z, hz, h⟩
    cases h
    exact hz
  · exact fun h => ⟨x, h, rfl⟩

/-- The position counts the blocks and names the last of them; none is beyond the boundary. -/
theorem replayPure_position (h : replayPure P blocks = .ok x) :
    x.1.nextHeight = blocks.length ∧ x.1.tipHash = ((blocks.getLast?).map P.hash).getD 0 ∧
      blocks.length ≤ P.finalHeight + 1 := by
  induction blocks using List.reverseRecOn generalizing x with
  | nil =>
    cases h
    exact ⟨rfl, rfl, Nat.zero_le _⟩
  | append_singleton blocks block ih =>
    obtain ⟨y, hy, hblock⟩ := replayPure_concat.mp h
    obtain ⟨hheight, -, -⟩ := ih hy
    obtain ⟨hcheck, hpos, -⟩ := applyPure_eq_ok.mp hblock
    have hbound := reject_eq_ok.mp (seq_eq_ok.mp hcheck).1
    refine ⟨?_, ?_, ?_⟩
    · rw [hpos, hheight, length_append]
      rfl
    · rw [hpos]
      simp
    · rw [length_append, length_singleton]
      omega

variable {txs : List Transaction}

end Pure

/-! ## What every run keeps -/

/-- The marker describes the accepted blocks. -/
structure Marks (P : Params) (marker : Option Marker) (blocks : List Block) (position : Position) :
    Prop where
  none : marker = none → blocks = []
  some : ∀ m, marker = some m → m.version = FORMAT_VERSION ∧ m.height + 1 = blocks.length ∧
    m.hash = position.tipHash ∧ (m.completed = true → m.height = P.finalHeight)

/-- The database holds the coins of the accepted blocks; what the process remembers agrees with it. -/
structure Exact (P : Params) (r : PersistentReplay) (blocks : List Block) (position : Position) :
    Prop where
  coins : replayPure P blocks = .ok (position, r.disk.coins)
  marks : Marks P r.disk.marker blocks position
  copy : r.marker = r.disk.marker
  position : r.loaded = true → r.position = position
  completed : r.completed = true → r.disk.marker.any (·.completed)

section Steps

variable {P : Params} {r : PersistentReplay} {blocks : List Block} {position : Position}

section

variable (h : Exact P r blocks position)

include h

theorem Exact.height : position.nextHeight = blocks.length := (replayPure_position h.coins).1

/-- A state that differs from an exact one in its pending marker only. -/
theorem Exact.setPending (pending : Option Marker) :
    Exact P { r with pending := pending } blocks position := { h with }

theorem Exact.restart : Exact P r.restart blocks position := ⟨h.coins, h.marks, rfl, nofun, nofun⟩

theorem Exact.load : Exact P (r.load P).2 blocks position := by
  unfold PersistentReplay.load
  cases hmarker : r.marker with
  | none =>
    have hblocks := h.marks.none (h.copy.symm.trans hmarker)
    have hstart : (⟨0, 0⟩ : Position) = position := by
      have hcoins := h.coins
      rw [hblocks] at hcoins
      exact congrArg Prod.fst (Except.ok.inj hcoins)
    split_ifs
    · exact h
    · exact { h with copy := hmarker.symm.trans h.copy, position := fun _ => hstart }
  | some marker =>
    have hdisk := h.copy.symm.trans hmarker
    obtain ⟨-, hheight, hhash, -⟩ := h.marks.some marker hdisk
    have hpos : (⟨marker.height + 1, marker.hash⟩ : Position) = position := by
      rw [hheight, ← h.height, hhash]
    dsimp only
    split_ifs
    · exact h
    · exact h
    · exact h
    · refine ⟨h.coins, h.marks, hdisk.symm, fun _ => hpos, fun hcompleted => ?_⟩
      show r.disk.marker.any (·.completed) = true
      rw [hdisk]
      exact hcompleted

/-- What a run of `ApplyBlock` on the database does: it refuses and changes nothing but the pending
marker, or the block is applied to the coins on disk and the marker moves with them. -/
theorem Exact.applyBlock (block : Block) (fault : Option String) :
    (∃ e pending, r.applyBlock P block fault = (.error e, { r with pending := pending })) ∨
      ∃ position', (r.applyBlock P block fault).1 = .ok () ∧
        Exact P (r.applyBlock P block fault).2 (blocks ++ [block]) position' := by
  unfold PersistentReplay.applyBlock
  split_ifs with hloaded hcompleted
  · exact .inl ⟨_, r.pending, rfl⟩
  · exact .inl ⟨_, r.pending, rfl⟩
  have hpos := h.position (by simpa using hloaded)
  have hopen : r.completed = false := by simpa using hcompleted
  have hrun := @applyBlock_agree _ P _ _ _ (reads_plain r.disk.coins).stacked r.position block
    { base := r.disk.coins } r.disk.coins ⟨⟨rfl, coherent_empty _⟩, rfl⟩
  cases hcache : Legacy.applyBlock P (stacked plain) r.position block
      { base := r.disk.coins } with
  | error e => exact .inl ⟨_, r.pending, rfl⟩
  | ok x =>
    obtain ⟨position', cache⟩ := x
    rw [hcache] at hrun
    generalize hpure : applyPure P r.position block r.disk.coins = y at hrun
    cases hrun with
    | @ok _ y hshown =>
    obtain ⟨hposition, ⟨hbase, hcoherent⟩, hview⟩ := hshown
    dsimp only at hposition hbase hcoherent hview ⊢
    simp only [PersistentReplay.batchWrite, ne_eq, not_true_eq_false, if_false]
    cases fault with
    | some what => exact .inl ⟨_, _, rfl⟩
    | none =>
      refine .inr ⟨position', rfl, ?_⟩
      -- what is flushed are the coins of the pure application
      have hcoins : cache.lines.entries.foldl apply r.disk.coins = y.2 := by
        obtain ⟨written, hwrite, -, hwritten⟩ :=
          flush_spec models_plain trivial hcoherent
        cases hwrite
        rw [hbase] at hwritten
        exact OrderedMap.ext_find? fun k => congrFun (hwritten.trans hview) k
      refine ⟨replayPure_concat.mpr ⟨_, h.coins, ?_⟩, ⟨nofun, ?_⟩, rfl, fun _ => rfl, ?_⟩
      · rw [← hpos, hpure, hcoins, hposition]
      · intro m hm
        cases hm
        refine ⟨rfl, ?_, rfl, nofun⟩
        rw [hpos, h.height, length_append]
        rfl
      · intro hdone
        rw [hopen] at hdone
        cases hdone

theorem Exact.finish (fault : Option String) : Exact P (r.finish P fault).2 blocks position := by
  unfold PersistentReplay.finish
  split_ifs with hloaded hcompleted hreached
  · exact h
  · exact h
  · exact h
  have hpos := h.position (by simpa using hloaded)
  have hbound := (replayPure_position h.coins).2.2
  have hheight := h.height
  cases fault with
  | some what => exact h
  | none =>
    refine ⟨h.coins, ⟨nofun, ?_⟩, rfl, h.position, fun _ => rfl⟩
    intro m hm
    cases hm
    refine ⟨rfl, ?_, congrArg Position.tipHash hpos, fun _ => rfl⟩
    dsimp only
    rw [hpos] at hreached
    omega

/-- One event, with the block it accepts. -/
theorem Exact.step (e : Event) :
    ∃ position', Exact P (e.outcome P r).2 (blocks ++ e.accepts P r) position' := by
  -- a call that names no block, or fails, adds nothing
  have hnone : ∀ e : Event, e.block? P = none → e.accepts P r = [] := by
    intro e hblock
    unfold Event.accepts
    rw [hblock]
    cases (e.outcome P r).1 <;> rfl
  have hblock : ∀ (e : Event) (block : Block) (fault : Option String), e.block? P = some block →
      e.outcome P r = r.applyBlock P block fault →
      ∃ position', Exact P (e.outcome P r).2 (blocks ++ e.accepts P r) position' := by
    intro e block fault hblock hsame
    unfold Event.accepts
    rw [hblock, hsame]
    rcases h.applyBlock block fault with ⟨e', pending, hrefused⟩ | ⟨position', hok, hexact⟩
    · rw [hrefused]
      exact ⟨position, by simpa using h.setPending pending⟩
    · rw [hok]
      exact ⟨position', hexact⟩
  cases e with
  | restart =>
    rw [hnone _ rfl, append_nil]
    exact ⟨position, h.restart⟩
  | load =>
    rw [hnone _ rfl, append_nil]
    exact ⟨position, h.load⟩
  | applyBlock block fault => exact hblock _ block fault rfl rfl
  | applyRawBlock raw fault =>
    cases hdecode : P.decode raw with
    | error what =>
      have hempty : (Event.applyRawBlock raw fault).block? P = none := by
        simp [Event.block?, hdecode, Except.toOption]
      rw [hnone _ hempty, append_nil]
      refine ⟨position, ?_⟩
      simpa [Event.outcome, PersistentReplay.applyRawBlock, hdecode] using h
    | ok block =>
      refine hblock _ block fault (by simp [Event.block?, hdecode, Except.toOption]) ?_
      simp [Event.outcome, PersistentReplay.applyRawBlock, hdecode]
  | finish fault =>
    rw [hnone _ rfl, append_nil]
    exact ⟨position, h.finish fault⟩

end

end Steps

/-! ## The database against the accepted blocks -/

/-- The block at a height is the genesis or a child of the one below, and meets the checkpoint of
its height. -/
structure Linked (P : Params) (blocks : List Block) (height : Nat) (block : Block) : Prop where
  genesis : height = 0 → block.hashPrevBlock = 0 ∧ P.hash block = P.hashGenesisBlock
  parent : ∀ parent, 0 < height → blocks[height - 1]? = some parent → block.hashPrevBlock = P.hash parent
  checkpoint : ∀ want, P.checkpoints.find? height = some want → P.hash block = want

variable {P : Params}

section

variable {r : PersistentReplay} {blocks : List Block} {position : Position}

theorem Exact.refused (h : Exact P r blocks position) {e : Event} {error : PersistentError}
    (hrefused : (e.outcome P r).1 = .error error) :
    (e.outcome P r).2.disk = r.disk ∧ (e.outcome P r).2.position = r.position := by
  have hblock : ∀ block fault, (r.applyBlock P block fault).1 = .error error →
      (r.applyBlock P block fault).2.disk = r.disk ∧
        (r.applyBlock P block fault).2.position = r.position := by
    intro block fault hrefused
    rcases h.applyBlock block fault with ⟨e', pending, hcall⟩ | ⟨position', hok, -⟩
    · rw [hcall]
      exact ⟨rfl, rfl⟩
    · rw [hok] at hrefused
      cases hrefused
  cases e with
  | restart => cases hrefused
  | load =>
    simp only [Event.outcome, PersistentReplay.load] at hrefused ⊢
    split at hrefused
    · split_ifs at hrefused ⊢
      exact ⟨rfl, rfl⟩
    · split_ifs at hrefused ⊢ <;> exact ⟨rfl, rfl⟩
  | applyBlock block fault => exact hblock block fault hrefused
  | applyRawBlock raw fault =>
    simp only [Event.outcome, PersistentReplay.applyRawBlock] at hrefused ⊢
    split at hrefused
    · exact ⟨rfl, rfl⟩
    · exact hblock _ fault hrefused
  | finish fault =>
    simp only [Event.outcome, PersistentReplay.finish] at hrefused ⊢
    split_ifs at hrefused ⊢
    · exact ⟨rfl, rfl⟩
    · exact ⟨rfl, rfl⟩
    · cases fault with
      | none => cases hrefused
      | some what => exact ⟨rfl, rfl⟩

end

/-- A chain of one block with one coinbase. -/
def sampleParams : Params where
  finalHeight := 1
  hashGenesisBlock := 5
  checkpoints := OrderedMap.insert ∅ 0 5
  hash block := block.hashMerkleRoot + 1
  txid tx := tx.vout.length + 3
  hashPair left right := left + right
  serializedSize _ := 100
  decode _ := .error "end of data"

end B3Coin.Legacy
