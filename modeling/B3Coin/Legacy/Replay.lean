import B3Coin.Lib.WriteBack
import B3Coin.Lib.Guards
import B3Coin.Script

/-!
# Trusted replay of the legacy era

`TrustedReplay` of `legacy/replay.cpp`. A block is checked for its place and shape
and its transactions are applied to a view of the coins. The loop is written over
the operations of a view, so that it can run on the node's stacked caches and on a
plain map; on both it has the same outcome.
-/
namespace B3Coin.Legacy

open List OrderedMap

open Codec (Bytes)
open FlowMesh (COutPoint getSizeOfCompactSize)
open Guards (reject Agree)
open WriteBack (Ops)
open WriteBack (mapOps)

/-- A transaction with the fields the legacy rules read. -/
structure Transaction where
  vin : List COutPoint
  vout : List CTxOut
  nTime : UInt32 := 0
  legacyEncoded : Bool := true
  deriving DecidableEq

namespace Transaction

def isCoinBase (tx : Transaction) : Bool :=
  match tx.vin with
  | [prevout] => prevout.isNull
  | _ => false

/-- The first output of a coinstake is empty. -/
def isCoinStake (tx : Transaction) : Bool :=
  match tx.vin, tx.vout with
  | prevout :: _, first :: _ :: _ =>
    !prevout.isNull && first.nValue == 0 && first.scriptPubKey.isEmpty
  | _, _ => false

end Transaction

structure Block where
  nVersion : UInt32
  hashPrevBlock : Uint256
  hashMerkleRoot : Uint256
  vtx : List Transaction
  deriving DecidableEq

/-- `Coin`, with what the stake kernel of the legacy era reads. -/
structure Coin where
  out : CTxOut
  nHeight : Nat
  fCoinBase : Bool
  fCoinStake : Bool
  nTime : UInt32
  nTxOffset : UInt32
  deriving DecidableEq

abbrev CoinMap := OrderedMap COutPoint Coin

/-- The configuration of a replay, with the hashes and encodings it uses. -/
structure Params where
  finalHeight : Nat
  hashGenesisBlock : Uint256
  checkpoints : OrderedMap Nat Uint256
  /-- `GetMarkerHash`. -/
  hash : Block → Uint256
  txid : Transaction → Uint256
  /-- The hash of two nodes of the Merkle tree. -/
  hashPair : Uint256 → Uint256 → Uint256
  /-- The size of the legacy encoding. -/
  serializedSize : Transaction → Nat
  /-- `TX_LEGACY(block)`; an error is the text of the exception. -/
  decode : Bytes → Except String Block

/-- The refusals, each with what its text names. -/
inductive ReplayError where
  | beyondBoundary (height finalHeight : Nat)
  | modernCodec (height : Nat)
  | notGenesis
  | brokenLinkage (height : Nat) (prev tip : Uint256)
  | checkpointMismatch (height : Nat) (got want : Uint256)
  | noCoinBase (height : Nat)
  | extraCoinBase (height : Nat)
  | encoding (height : Nat)
  | coinBaseEncoding (height : Nat)
  | merkleRoot (height : Nat)
  | duplicated (height : Nat)
  | missingInput (prevout : COutPoint) (txid : Uint256) (height : Nat)
  | inputOverflow (txid : Uint256) (height : Nat)
  | outputOverflow (txid : Uint256) (height : Nat)
  | createsValue (txid : Uint256) (height : Nat)
  /-- `std::logic_error` of a coin cache. -/
  | logicError
  deriving DecidableEq

/-! ## The checks on a block -/

/-- `HasB3BlockCodecV2`. -/
def hasB3BlockCodecV2 (nVersion : UInt32) : Bool := nVersion &&& 0xE8000000 == 0x28000000

/-- One level of `ComputeMerkleRoot`; the last node of an odd level is paired with itself. -/
def nextLevel (hashPair : Uint256 → Uint256 → Uint256) : List Uint256 → List Uint256
  | [] => []
  | [last] => [hashPair last last]
  | left :: right :: rest => hashPair left right :: nextLevel hashPair rest

def hasEqualPair : List Uint256 → Bool
  | left :: right :: rest => left == right || hasEqualPair rest
  | _ => false

/-- `ComputeMerkleRoot` with its mutation flag; a level at least halves the list, so its length is
fuel enough. -/
def computeMerkleRoot (hashPair : Uint256 → Uint256 → Uint256) :
    Nat → List Uint256 → Bool → Uint256 × Bool
  | 0, hashes, mutation => (hashes.headD 0, mutation)
  | fuel + 1, hashes, mutation =>
    if hashes.length > 1 then
      computeMerkleRoot hashPair fuel (nextLevel hashPair hashes) (mutation || hasEqualPair hashes)
    else (hashes.headD 0, mutation)

/-- The position of a replay: the height to be applied next and the hash of its parent. -/
structure Position where
  nextHeight : Nat := 0
  tipHash : Uint256 := 0
  deriving DecidableEq

section Checks

variable (P : Params)

section

variable (height : Nat) (pos : Position) (block : Block)

def blockMerkleRoot : Uint256 × Bool :=
  computeMerkleRoot P.hashPair block.vtx.length (block.vtx.map P.txid) false

def checkLinkage : Except ReplayError Unit :=
  if pos.nextHeight = 0 then
    reject (block.hashPrevBlock ≠ 0 ∨ P.hash block ≠ P.hashGenesisBlock) .notGenesis
  else
    reject (block.hashPrevBlock ≠ pos.tipHash)
      (.brokenLinkage pos.nextHeight block.hashPrevBlock pos.tipHash)

def checkCheckpoint (hash : Uint256) : Except ReplayError Unit :=
  match P.checkpoints.find? height with
  | none => .ok ()
  | some want => reject (want ≠ hash) (.checkpointMismatch height hash want)

/-- The loop over the transactions after the coinbase. -/
def checkOthers (height : Nat) : List Transaction → Except ReplayError Unit
  | [] => .ok ()
  | tx :: rest => do
    reject tx.isCoinBase (.extraCoinBase height)
    reject (!tx.legacyEncoded) (.encoding height)
    checkOthers height rest

def checkShape : List Transaction → Except ReplayError Unit
  | [] => .error (.noCoinBase height)
  | coinbase :: rest => do
    reject (!coinbase.isCoinBase) (.noCoinBase height)
    checkOthers height rest
    reject (!coinbase.legacyEncoded) (.coinBaseEncoding height)

/-- What `ApplyBlock` checks before it touches a coin. -/
def checkBlock : Except ReplayError Unit := do
  reject (pos.nextHeight > P.finalHeight) (.beyondBoundary pos.nextHeight P.finalHeight)
  reject (hasB3BlockCodecV2 block.nVersion) (.modernCodec pos.nextHeight)
  checkLinkage P pos block
  checkCheckpoint P pos.nextHeight (P.hash block)
  checkShape pos.nextHeight block.vtx
  reject ((blockMerkleRoot P block).1 ≠ block.hashMerkleRoot) (.merkleRoot pos.nextHeight)
  reject (blockMerkleRoot P block).2 (.duplicated pos.nextHeight)

end

end Checks

/-! ## The coins of a block -/

section Transition

variable {σ : Type} (P : Params) (O : Ops COutPoint Coin σ) (height : Nat)

/-- The loop over the inputs, with the value found so far. -/
def spendInputs (txid : Uint256) : List COutPoint → Int → σ → Except ReplayError (Int × σ)
  | [], valueIn, s => .ok (valueIn, s)
  | prevout :: rest, valueIn, s =>
    match O.get prevout s with
    | (none, _) => .error (.missingInput prevout txid height)
    | (some coin, s') =>
      if ¬ MoneyRange coin.out.nValue ∨ coin.out.nValue > MAX_MONEY - valueIn then
        .error (.inputOverflow txid height)
      else spendInputs txid rest (valueIn + coin.out.nValue) (O.spend prevout s')

section

variable (tx : Transaction) (txOffset : UInt32) (s : σ)

/-- A coinbase spends nothing. -/
def spendAll : Except ReplayError (Int × σ) :=
  if tx.isCoinBase then .ok (0, s) else spendInputs O height (P.txid tx) tx.vin 0 s

/-- The loop over the output values. -/
def sumOutputs (txid : Uint256) : List CTxOut → Int → Except ReplayError Int
  | [], valueOut => .ok valueOut
  | out :: rest, valueOut =>
    if out.nValue < 0 ∨ ¬ MoneyRange out.nValue ∨ out.nValue > MAX_MONEY - valueOut then
      .error (.outputOverflow txid height)
    else sumOutputs txid rest (valueOut + out.nValue)

/-- One round of `AddCoins`. -/
def addCoin (x : CTxOut × Nat) : Except ReplayError σ :=
  let outpoint : COutPoint := ⟨P.txid tx, UInt32.ofNat x.2⟩
  if x.1.nValue = 0 ∧ x.1.scriptPubKey = [] then .ok s
  -- the look at what would be overwritten comes before `AddCoin` drops the output
  else if Script.isUnspendable x.1.scriptPubKey then .ok (O.get outpoint s).2
  else match O.put outpoint ⟨x.1, height, tx.isCoinBase, tx.isCoinStake, tx.nTime, txOffset⟩ s with
    | none => .error .logicError
    | some s' => .ok s'

def applyTransaction : Except ReplayError σ := do
  let spent ← spendAll P O height tx s
  let valueOut ← sumOutputs height (P.txid tx) tx.vout 0
  reject (!tx.isCoinBase && !tx.isCoinStake && decide (valueOut > spent.1))
    (.createsValue (P.txid tx) height)
  tx.vout.zipIdx.foldlM (addCoin P O height tx txOffset) spent.2

end

/-- The loop over the transactions; offsets are 32 bits wide. -/
def applyTransactions : List Transaction → UInt32 → σ → Except ReplayError σ
  | [], _, s => .ok s
  | tx :: rest, txOffset, s => do
    let s' ← applyTransaction P O height tx txOffset s
    applyTransactions rest (txOffset + UInt32.ofNat (P.serializedSize tx)) s'

end Transition

/-- A header has 80 bytes. -/
def firstOffset (block : Block) : UInt32 := UInt32.ofNat (80 + getSizeOfCompactSize block.vtx.length)

/-- `TrustedReplay::ApplyBlock` on a view: the transactions run in a cache of their own over it. -/
def applyBlock {σ : Type} (P : Params) (B : WriteBack.Backing COutPoint Coin σ) (pos : Position)
    (block : Block) (s : σ) : Except ReplayError (Position × σ) := do
  checkBlock P pos block
  let blockView ← applyTransactions P (WriteBack.Cache.ops B) pos.nextHeight block.vtx
    (firstOffset block) { base := s }
  let flushed ← Guards.demand (B.write blockView.lines.entries blockView.base) .logicError
  .ok (⟨pos.nextHeight + 1, P.hash block⟩, flushed)

/-- The same block applied to a plain set of coins. -/
def applyPure (P : Params) (pos : Position) (block : Block) (coins : CoinMap) :
    Except ReplayError (Position × CoinMap) := do
  checkBlock P pos block
  let coins' ← applyTransactions P mapOps pos.nextHeight block.vtx (firstOffset block) coins
  .ok (⟨pos.nextHeight + 1, P.hash block⟩, coins')

/-! ## The caches do what the plain set does -/

section Caches

variable {σ : Type} {P : Params} {O : Ops COutPoint Coin σ} {ok : σ → Prop}
variable {view : σ → COutPoint → Option Coin} {height : Nat}

/-- The view shows exactly the coins of the set. -/
def Shows (ok : σ → Prop) (view : σ → COutPoint → Option Coin) (s : σ) (coins : CoinMap) : Prop :=
  ok s ∧ view s = coins.find?

theorem spendInputs_agree (hO : O.Models ok view) (txid : Uint256) :
    ∀ (vin : List COutPoint) (valueIn : Int) {s : σ} {coins : CoinMap}, Shows ok view s coins →
      Agree (fun x y => x.1 = y.1 ∧ Shows ok view x.2 y.2) (spendInputs O height txid vin valueIn s)
        (spendInputs mapOps height txid vin valueIn coins)
  | [], valueIn, s, coins, h => .ok ⟨rfl, h⟩
  | prevout :: rest, valueIn, s, coins, h => by
    have hfst := hO.get_fst prevout s h.1
    have hok := hO.get_ok prevout s h.1
    have hview := hO.get_view prevout s h.1
    unfold spendInputs
    generalize O.get prevout s = got at hfst hok hview
    obtain ⟨value, s'⟩ := got
    dsimp only at hfst hok hview
    have hvalue : (mapOps.get prevout coins).1 = value := by
      rw [hfst, h.2]
      rfl
    generalize hgot : mapOps.get prevout coins = got' at hvalue
    have hsame : got'.2 = coins := by rw [← hgot]; rfl
    obtain ⟨value', coins'⟩ := got'
    subst hvalue hsame
    cases value' with
    | none => exact .error _
    | some coin =>
      dsimp only
      split_ifs
      · exact .error _
      · have hcoin : view s' prevout = some coin := by
          rw [hview]
          exact hfst.symm
        obtain ⟨hok', hspent⟩ := hO.spend prevout coin s' hok hcoin
        refine spendInputs_agree hO txid rest _ ⟨hok', ?_⟩
        rw [hspent, hview, h.2]
        exact (funext fun k => find?_erase coins' prevout k).symm

theorem addCoin_agree (hO : O.Models ok view) (tx : Transaction) (txOffset : UInt32) (s : σ)
    (coins : CoinMap) (x : CTxOut × Nat) (h : Shows ok view s coins) :
    Agree (Shows ok view) (addCoin P O height tx txOffset s x)
      (addCoin P mapOps height tx txOffset coins x) := by
  unfold addCoin
  dsimp only
  split_ifs
  · exact .ok h
  · exact .ok ⟨hO.get_ok _ s h.1, (hO.get_view _ s h.1).trans h.2⟩
  · obtain ⟨s', hput, hok, hview⟩ := hO.put ⟨P.txid tx, UInt32.ofNat x.2⟩
      ⟨x.1, height, tx.isCoinBase, tx.isCoinStake, tx.nTime, txOffset⟩ s h.1
    rw [hput]
    refine .ok ⟨hok, ?_⟩
    rw [hview, h.2]
    exact (funext fun k => find?_insert coins _ k _).symm

theorem applyTransaction_agree (hO : O.Models ok view) (tx : Transaction) (txOffset : UInt32) {s : σ}
    {coins : CoinMap} (h : Shows ok view s coins) :
    Agree (Shows ok view) (applyTransaction P O height tx txOffset s)
      (applyTransaction P mapOps height tx txOffset coins) := by
  have hspend : Agree (fun x y => x.1 = y.1 ∧ Shows ok view x.2 y.2) (spendAll P O height tx s)
      (spendAll P mapOps height tx coins) := by
    unfold spendAll
    split_ifs
    · exact .ok ⟨rfl, h⟩
    · exact spendInputs_agree hO _ _ _ h
  refine hspend.bind fun x y hxy => (Agree.refl _).bind fun valueOut valueOut' heq => ?_
  subst heq
  rw [hxy.1]
  exact (Agree.refl _).bind fun _ _ _ =>
    Agree.foldlM (fun a b z hab => addCoin_agree hO tx txOffset a b z hab) _ hxy.2

theorem applyTransactions_agree (hO : O.Models ok view) :
    ∀ (vtx : List Transaction) (txOffset : UInt32) {s : σ} {coins : CoinMap}, Shows ok view s coins →
      Agree (Shows ok view) (applyTransactions P O height vtx txOffset s)
        (applyTransactions P mapOps height vtx txOffset coins)
  | [], _, _, _, h => .ok h
  | tx :: rest, txOffset, _, _, h =>
    (applyTransaction_agree hO tx txOffset h).bind fun _ _ h' =>
      applyTransactions_agree hO rest _ h'

/-- A block applied through a cache over a view shows the same coins as a block applied to the set,
or fails with the same error. -/
theorem applyBlock_agree {B : WriteBack.Backing COutPoint Coin σ} (hB : WriteBack.Models B ok view)
    (pos : Position) (block : Block) {s : σ} {coins : CoinMap} (h : Shows ok view s coins) :
    Agree (fun x y => x.1 = y.1 ∧ Shows ok view x.2 y.2) (applyBlock P B pos block s)
      (applyPure P pos block coins) := by
  refine (Agree.refl (checkBlock P pos block)).bind fun _ _ _ => ?_
  have hstart : Shows (fun c => ok c.base ∧ WriteBack.Coherent view c) (fun c => c.view view)
      ({ base := s } : WriteBack.Cache COutPoint Coin σ) coins :=
    ⟨⟨h.1, WriteBack.coherent_empty s⟩, h.2⟩
  refine (applyTransactions_agree hB.toReads.ops block.vtx (firstOffset block) hstart).bind
    fun blockView coins' hview => ?_
  obtain ⟨flushed, hwrite, hok, hflushed⟩ := WriteBack.flush_spec hB hview.1.1 hview.1.2
  rw [hwrite]
  exact .ok ⟨rfl, hok, hflushed.trans hview.2⟩

end Caches

/-! ## What a transaction does to the value of all coins -/

/-- The value of all coins. -/
def supply (coins : CoinMap) : Int := coins.total fun _ coin => coin.out.nValue

/-- Every coin has a legal value. -/
def InRange (coins : CoinMap) : Prop := ∀ k coin, coins.find? k = some coin → MoneyRange coin.out.nValue

section Value

variable {P : Params} {height : Nat}

variable {coins : CoinMap}

theorem InRange.erase (h : InRange coins) (k : COutPoint) : InRange (coins.erase k) := by
  intro k' coin hfind
  rw [find?_erase] at hfind
  split_ifs at hfind
  exact h k' coin hfind

theorem InRange.insert (h : InRange coins) (k : COutPoint) {coin : Coin}
    (hcoin : MoneyRange coin.out.nValue) : InRange (coins.insert k coin) := by
  intro k' coin' hfind
  rw [find?_insert] at hfind
  split_ifs at hfind
  · cases hfind
    exact hcoin
  · exact h k' coin' hfind

variable {tx : Transaction}

variable {txOffset : UInt32} {coins' : CoinMap}

end Value

end B3Coin.Legacy
