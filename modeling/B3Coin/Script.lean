import B3Coin.Transaction

/-!
# Scripts and the carriers of the modern policies

`GetScriptOp` reads one instruction. A policy output starts with a push whose
data begins with a four-byte magic; the push has to be the minimal one, so that
a policy datum has one script.
-/
namespace B3Coin

open Codec (Bytes natLE)
open UInt8

def OP_FALSE : UInt8 := 0x00
def OP_PUSHDATA1 : UInt8 := 0x4c
def OP_PUSHDATA2 : UInt8 := 0x4d
def OP_PUSHDATA4 : UInt8 := 0x4e
def OP_1 : UInt8 := 0x51
def OP_16 : UInt8 := 0x60
def OP_RETURN : UInt8 := 0x6a
def OP_DROP : UInt8 := 0x75
def OP_EQUAL : UInt8 := 0x87
def OP_HASH160 : UInt8 := 0xa9

def MAX_SCRIPT_SIZE : Nat := 10000

/-- The value of big-endian bytes (`ReadBE16`, `ReadBE32`, a `uint256`). -/
def beValue (b : Bytes) : Nat := Codec.leValue b.reverse

theorem beValue_cons (byte : UInt8) (rest : Bytes) :
    beValue (byte :: rest) = byte.toNat * 256 ^ rest.length + beValue rest := by
  have happend : ∀ xs : Bytes, Codec.leValue (xs ++ [byte]) =
      byte.toNat * 256 ^ xs.length + Codec.leValue xs := by
    intro xs
    induction xs with
    | nil => simp [Codec.leValue]
    | cons x xs ih =>
      rw [List.cons_append, Codec.leValue, ih, Codec.leValue, List.length_cons, Nat.pow_succ]
      ring
  rw [beValue, List.reverse_cons, happend, List.length_reverse, beValue]

namespace Script

/-- The length of the immediate operand, and the bytes after the length field. -/
def operandSize (op : UInt8) (rest : Bytes) : Option (Nat × Bytes) :=
  if op < OP_PUSHDATA1 then some (op.toNat, rest)
  else if op = OP_PUSHDATA1 then (natLE 1).get rest
  else if op = OP_PUSHDATA2 then (natLE 2).get rest
  else (natLE 4).get rest

/-- `GetScriptOp`: the opcode, its data and what follows. -/
def getOp : Bytes → Option (UInt8 × Bytes × Bytes)
  | [] => none
  | op :: rest =>
    if op ≤ OP_PUSHDATA4 then do
      let x ← operandSize op rest
      if x.2.length < x.1 then none else some (op, x.2.take x.1, x.2.drop x.1)
    else some (op, [], rest)

/-- `CScript() << data`. -/
def minimalPush (data : Bytes) : Bytes :=
  (if data.length < OP_PUSHDATA1.toNat then [ofNat data.length]
    else if data.length ≤ 0xff then [OP_PUSHDATA1, ofNat data.length]
    else if data.length ≤ 0xffff then OP_PUSHDATA2 :: (natLE 2).put data.length
    else OP_PUSHDATA4 :: (natLE 4).put data.length) ++ data

/-- `IsUnspendable`. -/
def isUnspendable (script : Bytes) : Bool :=
  script.head? == some OP_RETURN || MAX_SCRIPT_SIZE < script.length

def isPayToScriptHash (script : Bytes) : Bool :=
  script.length == 23 && script.getD 0 0 == OP_HASH160 && script.getD 1 0 == 0x14 &&
    script.getD 22 0 == OP_EQUAL

def isWitnessProgram (script : Bytes) : Bool :=
  4 ≤ script.length && script.length ≤ 42 &&
    (script.getD 0 0 == OP_FALSE || (OP_1 ≤ script.getD 0 0 && script.getD 0 0 ≤ OP_16)) &&
    (script.getD 1 0).toNat + 2 == script.length

/-- Reading back a push of less than 76 bytes. -/
theorem getOp_minimalPush {data : Bytes} (h : data.length < OP_PUSHDATA1.toNat) (rest : Bytes) :
    getOp (minimalPush data ++ rest) = some (ofNat data.length, data, rest) := by
  have hvalue : (ofNat data.length).toNat = data.length :=
    toNat_ofNat_of_lt' (lt_trans h (by decide))
  have hsmall : ofNat data.length < OP_PUSHDATA1 := by
    rw [lt_iff_toNat_lt, hvalue]
    exact h
  have hpush : ofNat data.length ≤ OP_PUSHDATA4 := by
    rw [le_iff_toNat_le, hvalue]
    exact le_of_lt (lt_trans h (by decide))
  simp [minimalPush, h, getOp, operandSize, hpush, hsmall, hvalue]

end Script

open Script

def ASSET_OUTPUT_MAGIC : Bytes := [0x42, 0x33, 0x41, 0x31]
def STAKE_MAGIC : Bytes := [0x42, 0x33, 0x53, 0x31]
def METADATA_CELL_MAGIC : Bytes := [0x42, 0x33, 0x4d, 0x43]

/-- `std::equal(magic.begin(), magic.end(), data.begin())`, after the size of `data` was checked. -/
def startsWith (magic data : Bytes) : Bool := data.take magic.length == magic

/-- `ClaimsB3PolicyCarrier`. -/
def claimsB3PolicyCarrier (script : Bytes) : Bool :=
  match getOp script with
  | none => false
  | some (op, data, _) =>
    op ≤ OP_PUSHDATA4 && 4 ≤ data.length &&
      [ASSET_OUTPUT_MAGIC, STAKE_MAGIC, METADATA_CELL_MAGIC].any (startsWith · data)

/-! ## Metadata cells -/

def MAX_POLICY_PARAMS_SIZE : Nat := 80
def METADATA_CELL_HEADER_SIZE : Nat := 4 + 2 + 2 + 32

def POLICY_VERSION_V1 : Nat := 1

/-- `PolicyType`, by its number on the wire. -/
inductive PolicyType where
  | LEGACY_LOCK | OWNER | BURN | DEX_VAULT | STAKE | FN
  | FINALITY_CERT | FINALITY_KEY | MODERN_PAYLOAD_ROOT | BRIDGE_RECORD
  deriving DecidableEq

def PolicyType.code : PolicyType → Nat
  | .LEGACY_LOCK => 0
  | .OWNER => 1
  | .BURN => 2
  | .DEX_VAULT => 3
  | .STAKE => 4
  | .FN => 5
  | .FINALITY_CERT => 6
  | .FINALITY_KEY => 7
  | .MODERN_PAYLOAD_ROOT => 8
  | .BRIDGE_RECORD => 9

structure MetadataCell where
  policyType : Nat
  policyVersion : Nat
  commitment : Uint256
  params : Bytes
  deriving DecidableEq

def isMetadataCellPolicyType (policyType : Nat) : Bool :=
  [PolicyType.FINALITY_CERT, .FINALITY_KEY, .MODERN_PAYLOAD_ROOT, .BRIDGE_RECORD].any
    (·.code == policyType)

/-- Exactly `OP_DROP OP_FALSE` and nothing after. -/
def endsInDropFalse (rest : Bytes) : Bool := rest == [OP_DROP, OP_FALSE]

/-- `ParseMetadataCell`. -/
def parseMetadataCell (script : Bytes) : Option MetadataCell :=
  match getOp script with
  | none => none
  | some (op, payload, rest) =>
    if op > OP_PUSHDATA4 then none
    else if payload.length < METADATA_CELL_HEADER_SIZE ∨
        payload.length > METADATA_CELL_HEADER_SIZE + MAX_POLICY_PARAMS_SIZE then none
    else if !startsWith METADATA_CELL_MAGIC payload then none
    else if minimalPush payload ++ rest ≠ script then none
    else if !endsInDropFalse rest then none
    else
      let policyType := beValue ((payload.drop 4).take 2)
      if !isMetadataCellPolicyType policyType then none
      else some
        { policyType
          policyVersion := beValue ((payload.drop 6).take 2)
          commitment := beValue ((payload.drop 8).take 32)
          params := payload.drop METADATA_CELL_HEADER_SIZE }

/-- `IsMetadataCell`. -/
def isMetadataCell (script : Bytes) : Bool := (parseMetadataCell script).isSome

end B3Coin
