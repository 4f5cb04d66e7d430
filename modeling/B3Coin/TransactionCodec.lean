import B3Coin.Transaction

/-!
# The wire form of a modern transaction

`primitives/transaction.h` under `TX_MODERN`. An empty list of inputs announces a byte
of flags, which a transaction without inputs and outputs reads as its empty list of
outputs. The formats of inputs and outputs are parameters.
-/
namespace B3Coin.TxModern

open Codec FlowMesh List Option Prod

def MAX_PAYLOAD_RECORD_SIZE : Nat := 32768
def MAX_PAYLOAD_SECTION_SIZE : Nat := 65536
def MAX_PAYLOAD_RECORDS_PER_TX : Nat := 64

/-! ## The payload section -/

def mpaRecord : Codec CMpaRecord :=
  ((natLE 2).pair ((natLE 2).pair (boundedVector MAX_PAYLOAD_RECORD_SIZE u8))).map
    (fun x => ⟨x.1, x.2.1, x.2.2⟩) (fun r => (r.payloadType, r.payloadVersion, r.payload))
    fun _ _ => rfl

def recordSize (r : CMpaRecord) : Nat := 4 + getSizeOfCompactSize r.payload.length + r.payload.length

/-- The loop of `UnserializeMpaSection`, which adds up the size of the section. -/
def unserializeRecords : Nat → Nat → Bytes → Option (List CMpaRecord × Bytes)
  | 0, _, b => some ([], b)
  | n + 1, size, b =>
    (mpaRecord.get b).bind fun x =>
      if size + recordSize x.1 > MAX_PAYLOAD_SECTION_SIZE then none
      else (unserializeRecords n (size + recordSize x.1) x.2).map fun y => (x.1 :: y.1, y.2)

def unserializeMpaSection (b : Bytes) : Option (List CMpaRecord × Bytes) :=
  ((compactSize MAX_SIZE).get b).bind fun x =>
    if x.1 = 0 then none
    else if x.1 > MAX_PAYLOAD_RECORDS_PER_TX then none
    else unserializeRecords x.1 (getSizeOfCompactSize x.1) x.2

def serializeMpaSection (mpa : List CMpaRecord) : Bytes :=
  putCompactSize mpa.length ++ mpa.flatMap mpaRecord.put

def getMpaSectionSerializedSize (mpa : List CMpaRecord) : Nat :=
  if mpa = [] then 0 else getSizeOfCompactSize mpa.length + (mpa.map recordSize).sum

/-! ## Transactions -/

variable {I O : Type} {inputs : Codec I} {outputs : Codec O} {b rest : Bytes}

/-- An input and its witness. -/
abbrev TxIn (I : Type) := I × List Bytes

structure Tx (I O : Type) where
  version : UInt32
  nTime : UInt32
  vin : List (TxIn I)
  vout : List O
  mpa : List CMpaRecord
  nLockTime : UInt32
  legacyEncoding : Bool

/-- Modern transactions have no time and are not legacy encoded. -/
def Tx.Modern (tx : Tx I O) : Prop := tx.nTime = 0 ∧ tx.legacyEncoding = false

/-- A `std::vector`. -/
def vector {α : Type} (c : Codec α) : Codec (List α) := counted (compactSize MAX_SIZE) c

def stack : Codec (List Bytes) := vector (vector u8)

section

variable (witnesses : List (List Bytes)) (mpa : List CMpaRecord)

def hasWitness : Bool := witnesses.any (· ≠ [])

/-- The flags `SerializeTransaction` computes. -/
def flagsOf : UInt8 := (if hasWitness witnesses then 1 else 0) ||| (if mpa ≠ [] then 2 else 0)

/-- What follows the outputs. -/
def tailBytes (nLockTime : UInt32) : Bytes :=
  (if flagsOf witnesses mpa &&& 1 ≠ 0 then witnesses.flatMap stack.put else []) ++
    (if flagsOf witnesses mpa &&& 2 ≠ 0 then serializeMpaSection mpa else []) ++ u32.put nLockTime

end

section Wire

variable (inputs : Codec I) (outputs : Codec O)

def serialize (tx : Tx I O) : Bytes :=
  let witnesses := tx.vin.map snd
  let flags := flagsOf witnesses tx.mpa
  u32.put tx.version ++ (if flags ≠ 0 then (vector inputs).put [] ++ u8.put flags else []) ++
    (vector inputs).put (tx.vin.map fst) ++ (vector outputs).put tx.vout ++
    tailBytes witnesses tx.mpa tx.nLockTime

/-- Flags, inputs and outputs. -/
def readBase (b : Bytes) : Option ((UInt8 × List I × List O) × Bytes) :=
  ((vector inputs).get b).bind fun x =>
    if x.1 = [] then
      (u8.get x.2).bind fun f =>
        if f.1 ≠ 0 then
          ((vector inputs).get f.2).bind fun y =>
            ((vector outputs).get y.2).map fun z => ((f.1, y.1, z.1), z.2)
        else some ((0, [], []), f.2)
    else ((vector outputs).get x.2).map fun z => ((0, x.1, z.1), z.2)

/-- An optional part, which a bit of the flags announces; the bit is cleared. -/
def announced {α : Type} (bit : UInt8) (get : Bytes → Option (α × Bytes)) (absent : α)
    (flags : UInt8) (b : Bytes) : Option ((UInt8 × α) × Bytes) :=
  if flags &&& bit ≠ 0 then (get b).map fun x => ((flags ^^^ bit, x.1), x.2)
  else some ((flags, absent), b)

/-- The witnesses of `count` inputs, of which one has to be there. -/
def witnessPart (count : Nat) : Codec (List (List Bytes)) :=
  (stack.exactly count).guard (hasWitness · = true)

def unserialize (b : Bytes) : Option (Tx I O × Bytes) :=
  (u32.get b).bind fun version =>
    (readBase inputs outputs version.2).bind fun base =>
      (announced 1 (witnessPart base.1.2.1.length).get (replicate base.1.2.1.length [])
          base.1.1 base.2).bind fun witnesses =>
        (announced 2 unserializeMpaSection [] witnesses.1.1 witnesses.2).bind fun mpa =>
          if mpa.1.1 ≠ 0 then none
          else (u32.get mpa.2).map fun lock =>
            (⟨version.1, 0, base.1.2.1.zip witnesses.1.2, base.1.2.2, mpa.1.2, lock.1, false⟩, lock.2)

end Wire

/-! ## The section -/

/-- The section as a format: the loop refuses exactly the sections that are too long. -/
def mpaSection : Codec (List CMpaRecord) :=
  (counted ((compactSize MAX_SIZE).guard fun n => n ≠ 0 ∧ n ≤ MAX_PAYLOAD_RECORDS_PER_TX)
    mpaRecord).guard
    fun mpa => getSizeOfCompactSize mpa.length + (mpa.map recordSize).sum ≤ MAX_PAYLOAD_SECTION_SIZE

theorem unserializeRecords_eq {n size : Nat} (h : size ≤ MAX_PAYLOAD_SECTION_SIZE) (b : Bytes) :
    unserializeRecords n size b = (mpaRecord.getItems n b).filter fun x =>
      decide (size + (x.1.map recordSize).sum ≤ MAX_PAYLOAD_SECTION_SIZE) := by
  induction n generalizing size b with
  | zero => simp [unserializeRecords, getItems, Option.filter, h]
  | succ n ih =>
    rw [unserializeRecords, getItems]
    cases mpaRecord.get b with
    | none => rfl
    | some x =>
      simp only [bind_some]
      split_ifs with hlong
      · symm
        cases mpaRecord.getItems n x.2 with
        | none => rfl
        | some y =>
          simp only [map_some, filter_some, map_cons, sum_cons]
          rw [if_neg]
          simp only [decide_eq_true_eq]
          omega
      · rw [ih (not_lt.mp hlong)]
        cases mpaRecord.getItems n x.2 with
        | none => rfl
        | some y =>
          simp only [map_some, filter_some, map_cons, sum_cons, Nat.add_assoc]
          split_ifs <;> rfl

theorem unserializeMpaSection_eq (b : Bytes) : unserializeMpaSection b = mpaSection.get b := by
  rw [unserializeMpaSection]
  cases hsize : (compactSize MAX_SIZE).get b with
  | none => simp [mpaSection, counted, Codec.guard, hsize]
  | some x =>
    have hsmall : x.1 ≤ MAX_PAYLOAD_RECORDS_PER_TX →
        getSizeOfCompactSize x.1 ≤ MAX_PAYLOAD_SECTION_SIZE := by
      intro h
      rw [getSizeOfCompactSize, if_pos (h.trans_lt (by decide))]
      decide
    simp only [mpaSection, counted, Codec.guard, hsize, bind_some, filter_some]
    by_cases hok : x.1 ≠ 0 ∧ x.1 ≤ MAX_PAYLOAD_RECORDS_PER_TX
    · rw [if_neg hok.1, if_neg (not_lt.mpr hok.2), unserializeRecords_eq (hsmall hok.2)]
      simp only [hok, ne_eq, not_false_eq_true, and_self, decide_true, if_true, bind_some]
      cases hitems : mpaRecord.getItems x.1 x.2 with
      | none => rfl
      | some y => simp [filter_some, (mpaRecord.put_getItems _ _ hitems).1]
    · simp only [hok, decide_false, Bool.false_eq_true, if_false, bind_none, filter_none]
      split_ifs with hzero hmany
      · rfl
      · rfl
      · exact absurd ⟨hzero, not_lt.mp hmany⟩ hok

theorem length_putCompactSize (n : Nat) : (putCompactSize n).length = getSizeOfCompactSize n := by
  unfold putCompactSize getSizeOfCompactSize
  split_ifs <;> first | omega | simp

theorem length_serializeMpaSection (mpa : List CMpaRecord) :
    (serializeMpaSection mpa).length = getSizeOfCompactSize mpa.length + (mpa.map recordSize).sum := by
  have hrecord : ∀ r : CMpaRecord, (mpaRecord.put r).length = recordSize r := by
    intro r
    have hbytes : (r.payload.flatMap u8.put).length = r.payload.length := by
      simp
    have hcount : (boundedVector MAX_PAYLOAD_RECORD_SIZE u8).put r.payload =
        putCompactSize r.payload.length ++ r.payload.flatMap u8.put := rfl
    simp only [mpaRecord, map_put, pair_put, length_append, natLE_put_length, hcount,
      length_putCompactSize, hbytes, recordSize]
    omega
  simp [serializeMpaSection, length_putCompactSize, hrecord]

/-! ## The round trip -/

/-- The parts of a transaction fit their formats. -/
structure Fits (inputs : Codec I) (outputs : Codec O) (tx : Tx I O) : Prop where
  inputs : (vector inputs).valid (tx.vin.map fst)
  outputs : (vector outputs).valid tx.vout
  witnesses : ∀ w ∈ tx.vin.map snd, stack.valid w
  mpa : tx.mpa ≠ [] → mpaSection.valid tx.mpa

variable {flags : UInt8}

/-- What an announced part reads, if the absent value is not one of its format. -/
theorem announced_iff {α : Type} [DecidableEq α] {c : Codec α} {absent a : α} {bit flags' : UInt8}
    (hc : ∀ a, c.valid a → a ≠ absent) :
    announced bit c.get absent flags b = some ((flags', a), rest) ↔
      (a ≠ absent → c.valid a) ∧ (flags &&& bit ≠ 0 ↔ a ≠ absent) ∧
        flags' = flags ^^^ (if a ≠ absent then bit else 0) ∧
        b = (if a ≠ absent then c.put a else []) ++ rest := by
  rw [announced]
  by_cases hflag : flags &&& bit ≠ 0
  · rw [if_pos hflag]
    constructor
    · intro h
      obtain ⟨x, hx, h⟩ := map_eq_some_iff.mp h
      cases h
      obtain ⟨hvalid, hb⟩ := c.put_get _ _ _ hx
      have hne := hc _ hvalid
      rw [if_pos hne, if_pos hne]
      exact ⟨fun _ => hvalid, iff_of_true hflag hne, rfl, hb⟩
    · rintro ⟨hvalid, hbit, rfl, rfl⟩
      have hne := hbit.mp hflag
      rw [if_pos hne, if_pos hne, c.get_put a (hvalid hne)]
      rfl
  · rw [if_neg hflag]
    constructor
    · intro h
      cases h
      simp [hflag]
    · rintro ⟨-, hbit, rfl, rfl⟩
      have hnil : a = absent := not_not.mp fun hne => hflag (hbit.mpr hne)
      simp [hnil]

theorem vector_nil {α : Type} (c : Codec α) : (vector c).valid [] :=
  ⟨⟨Nat.two_pow_pos 64, Nat.zero_le _⟩, nofun⟩

theorem readBase_iff {vin : List I} {vout : List O} :
    readBase inputs outputs b = some ((flags, vin, vout), rest) ↔
      (vector inputs).valid vin ∧ (vector outputs).valid vout ∧
        (flags = 0 → vin = [] → vout = []) ∧
        b = (if flags ≠ 0 then (vector inputs).put [] ++ u8.put flags else []) ++
          ((vector inputs).put vin ++ ((vector outputs).put vout ++ rest)) := by
  rw [readBase]
  constructor
  · intro h
    obtain ⟨x, hx, h⟩ := bind_eq_some_iff.mp h
    obtain ⟨hvin, hb⟩ := (vector inputs).put_get _ _ _ hx
    split_ifs at h with hnil
    · obtain ⟨f, hf, h⟩ := bind_eq_some_iff.mp h
      obtain ⟨-, hbyte⟩ := u8.put_get _ _ _ hf
      rw [hb, hnil, hbyte]
      split_ifs at h with hflag
      · obtain ⟨y, hy, h⟩ := bind_eq_some_iff.mp h
        obtain ⟨z, hz, h⟩ := map_eq_some_iff.mp h
        cases h
        obtain ⟨hvin', hb'⟩ := (vector inputs).put_get _ _ _ hy
        obtain ⟨hvout, hrest⟩ := (vector outputs).put_get _ _ _ hz
        refine ⟨hvin', hvout, fun h0 => absurd h0 hflag, ?_⟩
        rw [if_pos hflag, hb', hrest, append_assoc]
      · -- the byte of no flags is the empty list of outputs
        cases h
        refine ⟨vector_nil _, vector_nil _, fun _ _ => rfl, ?_⟩
        rw [if_neg (not_not.mpr rfl), not_not.mp hflag]
        rfl
    · obtain ⟨z, hz, h⟩ := map_eq_some_iff.mp h
      cases h
      obtain ⟨hvout, hrest⟩ := (vector outputs).put_get _ _ _ hz
      refine ⟨hvin, hvout, fun _ h0 => absurd h0 hnil, ?_⟩
      rw [if_neg (not_not.mpr rfl), hb, hrest]
      rfl
  · rintro ⟨hvin, hvout, hnone, rfl⟩
    by_cases hflag : flags ≠ 0
    · rw [if_pos hflag, append_assoc, (vector inputs).get_put _ (vector_nil _), bind_some,
        if_pos rfl, u8.get_put _ (u8_valid _), bind_some, if_pos hflag,
        (vector inputs).get_put _ hvin, bind_some, (vector outputs).get_put _ hvout]
      rfl
    · rw [if_neg hflag, nil_append, (vector inputs).get_put _ hvin, bind_some]
      obtain rfl := not_not.mp hflag
      split_ifs with hnil
      · obtain rfl : vin = [] := hnil
        obtain rfl := hnone rfl rfl
        rfl
      · rw [(vector outputs).get_put _ hvout]
        rfl

/-- Clearing both bits leaves nothing exactly for the flags that are written. -/
theorem flags_cleared {p q : Prop} [Decidable p] [Decidable q] :
    ((flags &&& 1 ≠ 0 ↔ p) ∧ ((flags ^^^ if p then 1 else 0) &&& 2 ≠ 0 ↔ q) ∧
      (flags ^^^ if p then 1 else 0) ^^^ (if q then 2 else 0) = 0) ↔
    flags = (if p then 1 else 0) ||| (if q then 2 else 0) := by
  constructor
  · rintro ⟨-, -, hzero⟩
    rw [UInt8.xor_eq_zero_iff] at hzero
    have hflags : flags = (if q then 2 else 0) ^^^ (if p then 1 else 0) := by
      rw [← hzero, UInt8.xor_assoc, UInt8.xor_self, UInt8.xor_zero]
    rw [hflags]
    split_ifs <;> decide
  · rintro rfl
    by_cases hp : p <;> by_cases hq : q <;> simp only [hp, hq, if_true, if_false] <;> decide

theorem flag_bits (p q : Prop) [Decidable p] [Decidable q] :
    (((if p then 1 else 0) ||| (if q then 2 else 0) : UInt8) &&& 1 ≠ 0 ↔ p) ∧
      (((if p then 1 else 0) ||| (if q then 2 else 0) : UInt8) &&& 2 ≠ 0 ↔ q) := by
  by_cases hp : p <;> by_cases hq : q <;> simp only [hp, hq, if_true, if_false] <;> decide

variable {witnesses : List (List Bytes)}

theorem hasWitness_iff {count : Nat} (h : witnesses.length = count) :
    hasWitness witnesses = true ↔ witnesses ≠ replicate count [] := by
  simp [hasWitness, eq_replicate_iff, h]

theorem flagsOf_eq {count : Nat} (h : witnesses.length = count)
    (mpa : List CMpaRecord) : flagsOf witnesses mpa =
      (if witnesses ≠ replicate count [] then 1 else 0) ||| (if mpa ≠ [] then 2 else 0) := by
  rw [flagsOf, if_congr (hasWitness_iff h) rfl rfl]

/-- The bytes of a transaction, part by part as they are read. -/
theorem serialize_append (inputs : Codec I) (outputs : Codec O) (tx : Tx I O) (rest : Bytes) :
    serialize inputs outputs tx ++ rest = u32.put tx.version ++
      ((if flagsOf (tx.vin.map snd) tx.mpa ≠ 0 then
          (vector inputs).put [] ++ u8.put (flagsOf (tx.vin.map snd) tx.mpa) else []) ++
        ((vector inputs).put (tx.vin.map fst) ++ ((vector outputs).put tx.vout ++
          ((if tx.vin.map snd ≠ replicate tx.vin.length [] then
              (witnessPart tx.vin.length).put (tx.vin.map snd) else []) ++
            ((if tx.mpa ≠ [] then mpaSection.put tx.mpa else []) ++
              (u32.put tx.nLockTime ++ rest)))))) := by
  have hlen : (tx.vin.map snd).length = tx.vin.length := length_map snd
  obtain ⟨hw, hm⟩ := flag_bits (tx.vin.map snd ≠ replicate tx.vin.length [])
    (tx.mpa ≠ [])
  rw [← flagsOf_eq hlen] at hw hm
  simp only [serialize, tailBytes, if_congr hw rfl rfl, if_congr hm rfl rfl, append_assoc]
  rfl

theorem unserialize_iff {tx : Tx I O} :
    unserialize inputs outputs b = some (tx, rest) ↔ Fits inputs outputs tx ∧ tx.Modern ∧
      (tx.vin = [] → tx.mpa = [] → tx.vout = []) ∧ b = serialize inputs outputs tx ++ rest := by
  have hpresent {count : Nat} : ∀ w, (witnessPart count).valid w → w ≠ replicate count [] :=
    fun w hw => (hasWitness_iff hw.1.1).mp hw.2
  have hsection : ∀ mpa, mpaSection.valid mpa → mpa ≠ [] := by
    rintro mpa ⟨⟨hsize, -⟩, -⟩ rfl
    exact hsize.2.1 rfl
  have hmpa : unserializeMpaSection = mpaSection.get := funext unserializeMpaSection_eq
  rw [unserialize, hmpa]
  constructor
  · intro h
    obtain ⟨⟨version, b1⟩, hversion, h⟩ := bind_eq_some_iff.mp h
    obtain ⟨⟨⟨flags, vin, vout⟩, b2⟩, hbase, h⟩ := bind_eq_some_iff.mp h
    obtain ⟨⟨⟨flags1, witnesses⟩, b3⟩, hwitnesses, h⟩ := bind_eq_some_iff.mp h
    obtain ⟨⟨⟨flags2, mpa⟩, b4⟩, hrecords, h⟩ := bind_eq_some_iff.mp h
    dsimp only at h hwitnesses hrecords hbase
    split_ifs at h with hclear
    obtain ⟨⟨lock, b5⟩, hlock, heq⟩ := map_eq_some_iff.mp h
    clear h
    obtain ⟨rfl, rfl⟩ := mk.inj heq
    obtain ⟨-, rfl⟩ := u32.put_get _ _ _ hversion
    obtain ⟨hvin, hvout, hnone, rfl⟩ := readBase_iff.mp hbase
    obtain ⟨hparts, hbit, rfl, rfl⟩ := (announced_iff hpresent).mp hwitnesses
    obtain ⟨hvalid, hbit', rfl, rfl⟩ := (announced_iff hsection).mp hrecords
    obtain ⟨-, rfl⟩ := u32.put_get _ _ _ hlock
    have hstacks : witnesses.length = vin.length ∧ ∀ w ∈ witnesses, stack.valid w := by
      by_cases hw : witnesses = replicate vin.length []
      · rw [hw, length_replicate]
        exact ⟨rfl, fun w hmem => eq_of_mem_replicate hmem ▸ vector_nil _⟩
      · exact (hparts hw).1
    have hflags := flags_cleared.mp ⟨hbit, hbit', not_not.mp hclear⟩
    rw [← flagsOf_eq hstacks.1] at hflags
    have hfst : (vin.zip witnesses).map fst = vin := map_fst_zip hstacks.1.ge
    have hsnd : (vin.zip witnesses).map snd = witnesses := map_snd_zip hstacks.1.le
    have hlen : (vin.zip witnesses).length = vin.length := by
      rw [length_zip, hstacks.1, min_self]
    refine ⟨⟨by rwa [hfst], hvout, by rw [hsnd]; exact hstacks.2, hvalid⟩, ⟨rfl, rfl⟩,
      fun hnil hno => ?_, ?_⟩
    · have hvin : vin = [] := by rw [← hfst, show vin.zip witnesses = [] from hnil, map_nil]
      have hw : witnesses = [] := length_eq_zero_iff.mp (by rw [hstacks.1, hvin]; rfl)
      exact hnone (by rw [hflags, hw, show mpa = [] from hno]; rfl) hvin
    · rw [serialize_append]
      simp [hfst, hsnd, hlen, ← hflags]
  · rintro ⟨hfits, hmodern, hnone, rfl⟩
    have hlen : (tx.vin.map snd).length = tx.vin.length := length_map snd
    obtain ⟨hw, hm, hclear⟩ := flags_cleared.mpr (flagsOf_eq hlen tx.mpa)
    have hempty : flagsOf (tx.vin.map snd) tx.mpa = 0 → tx.vin.map fst = [] →
        tx.vout = [] := by
      intro hflags hnil
      refine hnone (map_eq_nil_iff.mp hnil) ?_
      by_contra hne
      have hbit := (flag_bits (tx.vin.map snd ≠ replicate tx.vin.length []) _).2.mpr hne
      rw [← flagsOf_eq hlen, hflags] at hbit
      exact hbit rfl
    have hzip : (tx.vin.map fst).zip (tx.vin.map snd) = tx.vin := by
      rw [zip_map']
      exact map_id' tx.vin
    rw [serialize_append, u32.get_put _ (u32_valid _), bind_some,
      readBase_iff.mpr ⟨hfits.inputs, hfits.outputs, hempty, rfl⟩, bind_some]
    simp only [length_map]
    rw [(announced_iff hpresent).mpr ⟨fun hne => ⟨⟨hlen, hfits.witnesses⟩,
      (hasWitness_iff hlen).mpr hne⟩, hw, rfl, rfl⟩, bind_some,
      (announced_iff hsection).mpr ⟨hfits.mpa, hm, rfl, rfl⟩, bind_some,
      if_neg (not_not.mpr hclear), u32.get_put _ (u32_valid _), map_some, hzip,
      ← hmodern.1, ← hmodern.2]

/-- **One wire form.** A transaction with an input or a record is read back from its bytes if it
is a modern one, what is read was the bytes of its transaction, and the size of the payload
section is that of its bytes. -/
theorem modern_transaction_canonical (inputs : Codec I) (outputs : Codec O) :
    (∀ tx rest, Fits inputs outputs tx → tx.vin ≠ [] ∨ tx.mpa ≠ [] →
      (unserialize inputs outputs (serialize inputs outputs tx ++ rest) = some (tx, rest) ↔
        tx.Modern)) ∧
    (∀ b tx rest, unserialize inputs outputs b = some (tx, rest) →
      Fits inputs outputs tx ∧ b = serialize inputs outputs tx ++ rest) ∧
    ∀ mpa, getMpaSectionSerializedSize mpa =
      (if mpa ≠ [] then serializeMpaSection mpa else []).length := by
  refine ⟨fun tx rest hfits hsome => ?_, fun b tx rest h => ?_, fun mpa => ?_⟩
  · have hnone : tx.vin = [] → tx.mpa = [] → tx.vout = [] := by
      intro hvin hmpa
      exact absurd hsome (not_or.mpr ⟨not_not.mpr hvin, not_not.mpr hmpa⟩)
    rw [unserialize_iff]
    exact ⟨fun h => h.2.1, fun h => ⟨hfits, h, hnone, rfl⟩⟩
  · obtain ⟨hfits, -, -, hb⟩ := unserialize_iff.mp h
    exact ⟨hfits, hb⟩
  · rw [getMpaSectionSerializedSize, apply_ite length, ite_not, length_serializeMpaSection]
    rfl

/-- An input with a witness, an output and a record. -/
def sampleTx : Tx UInt32 UInt32 := ⟨2, 0, [(7, [[1]])], [5], [⟨1, 1, [3]⟩], 0, false⟩

theorem sample_transaction_canonical :
    unserialize u32 u32 (serialize u32 u32 sampleTx ++ [9]) = some (sampleTx, [9]) := by
  have hone : (compactSize MAX_SIZE).valid 1 := ⟨by decide, by decide⟩
  have hwitness : stack.valid [[1]] :=
    ⟨hone, forall_mem_singleton.mpr ⟨hone, fun _ _ => u8_valid _⟩⟩
  have hrecord : mpaRecord.valid ⟨1, 1, [3]⟩ := ⟨⟨natLE_valid.mpr (by decide),
    natLE_valid.mpr (by decide), ⟨hone, by decide⟩, fun _ _ => u8_valid _⟩, rfl⟩
  exact ((modern_transaction_canonical u32 u32).1 sampleTx [9] ⟨⟨hone, fun _ _ => u32_valid _⟩,
    ⟨hone, fun _ _ => u32_valid _⟩, forall_mem_singleton.mpr hwitness, fun _ =>
      ⟨⟨⟨hone, by decide⟩, forall_mem_singleton.mpr hrecord⟩, by decide⟩⟩
    (.inl (by decide))).mpr ⟨rfl, rfl⟩

end B3Coin.TxModern
