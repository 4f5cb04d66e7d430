import B3Coin.FlowMesh.Wire
import B3Coin.Lib.NatCode

/-!
# Transactions

`primitives/transaction.h`. The id of a transaction hashes everything but the witnesses
and the records of the payload area. Scripts are bytes.
-/
namespace B3Coin

open Codec (Bytes)
open FlowMesh (COutPoint)

structure CTxIn where
  prevout : COutPoint
  scriptSig : Bytes := []
  nSequence : UInt32 := 0xffffffff
  scriptWitness : List Bytes := []
  deriving DecidableEq

structure CTxOut where
  nValue : Int
  scriptPubKey : Bytes
  deriving DecidableEq

/-- An output in the coin set. -/
structure Coin where
  out : CTxOut
  nHeight : Int
  fCoinBase : Bool := false
  deriving DecidableEq

structure CMpaRecord where
  payloadType : Nat
  payloadVersion : Nat
  payload : Bytes
  deriving DecidableEq

structure CTransaction where
  version : UInt32 := 2
  /-- Zero in a modern transaction. -/
  nTime : UInt32 := 0
  vin : List CTxIn
  vout : List CTxOut
  mpa : List CMpaRecord := []
  nLockTime : UInt32 := 0
  legacyEncoding : Bool := false
  deriving DecidableEq

namespace CTransaction

/-- The outpoints the inputs spend. -/
def prevouts (tx : CTransaction) : List COutPoint := tx.vin.map (·.prevout)

def isCoinBase (tx : CTransaction) : Bool :=
  match tx.vin with
  | [input] => input.prevout.isNull
  | _ => false

end CTransaction

/-! ## An id without collisions

Results that assume of the transaction id that it binds what it hashes can be used at
this one, which numbers the transactions.
-/

open NatCode

def bytesNumbering : NatCode Bytes := list u8

def outPointNumbering : NatCode COutPoint :=
  (nat.prod u32).comap (fun o => (o.hash, o.n)) (by rintro ⟨⟩ ⟨⟩ h; simpa using h)

def txInNumbering : NatCode CTxIn :=
  (outPointNumbering.prod (bytesNumbering.prod (u32.prod (list bytesNumbering)))).comap
    (fun i => (i.prevout, i.scriptSig, i.nSequence, i.scriptWitness))
    (by rintro ⟨⟩ ⟨⟩ h; simpa using h)

def txOutNumbering : NatCode CTxOut :=
  (int.prod bytesNumbering).comap (fun out => (out.nValue, out.scriptPubKey))
    (by rintro ⟨⟩ ⟨⟩ h; simpa using h)

def mpaNumbering : NatCode CMpaRecord :=
  (nat.prod (nat.prod bytesNumbering)).comap
    (fun r => (r.payloadType, r.payloadVersion, r.payload)) (by rintro ⟨⟩ ⟨⟩ h; simpa using h)

namespace CTransaction

def numbering : NatCode CTransaction :=
  (u32.prod (u32.prod ((list txInNumbering).prod ((list txOutNumbering).prod
    ((list mpaNumbering).prod (u32.prod (nat.comap Bool.toNat (by unfold Function.Injective; decide)))))))).comap
    (fun tx => (tx.version, tx.nTime, tx.vin, tx.vout, tx.mpa, tx.nLockTime, tx.legacyEncoding))
    (by rintro ⟨⟩ ⟨⟩ h; simpa using h)

/-- The transaction as `ComputeHash` sees it. -/
def stripped (tx : CTransaction) : CTransaction :=
  { tx with vin := tx.vin.map fun input => { input with scriptWitness := [] }, mpa := [] }

def number (tx : CTransaction) : Nat := numbering.num tx.stripped

theorem vout_eq_of_number_eq (tx tx' : CTransaction) (h : tx.number = tx'.number) :
    tx.vout = tx'.vout := by
  have hstripped : tx.stripped = tx'.stripped := numbering.inj h
  exact (congrArg vout hstripped : tx.stripped.vout = tx'.stripped.vout)

end CTransaction

end B3Coin
