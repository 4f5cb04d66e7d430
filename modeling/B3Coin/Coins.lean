import B3Coin.Assets.Output

/-!
# The coin set

`AddCoin` and `AddCoins` of `coins.cpp` and `UpdateCoins` of `validation.cpp`. The
caches in between are left out: the set is a map. It never holds an output whose
script cannot be spent, nor a metadata cell or burn of the modern era.
-/
namespace B3Coin.Coins

open FlowMesh (COutPoint)

abbrev CoinMap := OrderedMap COutPoint Coin

/-- `AddCoin`. -/
def addCoin (coins : CoinMap) (outpoint : COutPoint) (coin : Coin) : CoinMap :=
  if Script.isUnspendable coin.out.scriptPubKey then coins else coins.insert outpoint coin

section Transactions

variable (C : Assets.Crypto) (txid : CTransaction → Uint256)

section

variable (tx : CTransaction) (height : Int) (excludeModernCells : Bool) (coins : CoinMap)

/-- The outputs that `AddCoins` passes over. -/
def skipped (out : CTxOut) : Bool :=
  (out.nValue == 0 && out.scriptPubKey.isEmpty) ||
    (excludeModernCells && (isMetadataCell out.scriptPubKey || Assets.isAssetBurnOutput C out))

def outPoint (i : Nat) : COutPoint := ⟨txid tx, UInt32.ofNat i⟩

/-- One round of `AddCoins`. -/
def addOutput (x : CTxOut × Nat) : CoinMap :=
  if skipped C excludeModernCells x.1 then coins
  else addCoin coins (outPoint txid tx x.2) ⟨x.1, height, tx.isCoinBase⟩

/-- `AddCoins`. -/
def addCoins : CoinMap := tx.vout.zipIdx.foldl (addOutput C txid tx height excludeModernCells) coins

/-- The outpoints a transaction spends; a coinbase spends nothing. -/
def spends : List COutPoint := if tx.isCoinBase then [] else tx.prevouts

/-- `UpdateCoins`. -/
def updateCoins (modernEra : Bool) (coins : CoinMap) : CoinMap :=
  addCoins C txid tx height modernEra (coins.eraseAll (spends tx))

end

end Transactions

end B3Coin.Coins
