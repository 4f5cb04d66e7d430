import B3Coin.Assets.Output
import B3Coin.Lib.Format
import B3Coin.TransactionCodec

/-!
# The transition envelope

`EncodeTransitionEnvelope` and `DecodeTransitionEnvelope` of `modern/proof.h`, with the action
section of `modern/creation_action.h`. The cursor is the bytes that are left; fields that fail
with one text are read at once.
-/
namespace B3Coin.TransitionEnvelope

open Assets (ModernOutput)
open TxModern (length_putCompactSize)
open Codec FlowMesh Format Guards List Option

def MAX_TRANSITION_PROOF_SIZE : Nat := 4000
def MAX_TRANSITION_ENVELOPE_SIZE : Nat := 1000000
def MAX_CREATION_ACTION_PAYLOAD : Nat := 4000
def MAX_CREATION_ACTIONS_PER_TRANSITION : Nat := 64
def MAX_CREATION_ACTION_SECTION_SIZE : Nat := 20000
def TRANSITION_VERSION_V2 : UInt16 := 2

structure ModernInput where
  prevout : COutPoint
  sequence : UInt32 := 0xffffffff
  proofIndex : UInt32 := 0

structure TransitionProof where
  proofType : UInt16 := 0
  proofVersion : UInt16 := 0
  payload : Bytes := []

structure CreationAction where
  actionType : UInt16 := 0
  actionVersion : UInt16 := 0
  payload : Bytes := []

structure ModernTransitionV2 where
  inputs : List ModernInput
  outputs : List ModernOutput
  proofs : List TransitionProof
  creationActions : List CreationAction

/-- FN claim, legacy FN issuance, asset issuance and modern FN PoD, each in version 1. -/
def isKnownCreationAction (x : UInt16 × UInt16) : Bool := [(1, 1), (2, 1), (3, 1), (6, 1)].contains x

/-- `CreationActionSerializedSize`. -/
def frameSize (a : CreationAction) : Nat :=
  2 + 2 + getSizeOfCompactSize a.payload.length + a.payload.length

/-! ## Items -/

def modernInput : Format String ModernInput :=
  field ((outPointCodec.pair (u32.pair u32)).map (fun x => ⟨x.1, x.2.1, x.2.2⟩)
    (fun i => (i.prevout, i.sequence, i.proofIndex)) fun _ _ => rfl) "truncated input"

def modernOutput : Format String ModernOutput :=
  (field (uint256.pair (int64.pair ((natLE 2).pair ((natLE 2).pair uint256)))) "truncated output").sized
    MAX_POLICY_PARAMS_SIZE (by decide) "truncated or non-canonical params length"
    "policy params exceed the bound" "truncated policy params"
    (fun x p => ⟨x.1, x.2.1, x.2.2.1, x.2.2.2.1, x.2.2.2.2, p⟩)
    (fun o => ((o.asset, o.amount, o.policyType, o.policyVersion, o.policyCommitment),
      o.policyParams)) (fun _ _ => rfl) fun _ => rfl

def transitionProof : Format String TransitionProof :=
  (field (u16.pair u16) "truncated proof header").sized MAX_TRANSITION_PROOF_SIZE (by decide)
    "truncated or non-canonical proof payload length" "proof payload exceeds the bound"
    "truncated proof payload" (fun x p => ⟨x.1, x.2, p⟩)
    (fun p => ((p.proofType, p.proofVersion), p.payload)) (fun _ _ => rfl) fun _ => rfl

def creationAction : Format String CreationAction :=
  ((field (u16.pair u16) "truncated creation-action header").check (isKnownCreationAction · = true)
    "unknown creation-action type or version").sized MAX_CREATION_ACTION_PAYLOAD (by decide)
    "truncated or non-canonical action payload length"
    "creation-action payload exceeds the proof-area bound" "truncated creation-action payload"
    (fun x p => ⟨x.1, x.2, p⟩) (fun a => ((a.actionType, a.actionVersion), a.payload))
    (fun _ _ => rfl) fun _ => rfl

theorem size_pos (n : Nat) : 1 ≤ (putCompactSize n).length := by
  rw [length_putCompactSize, getSizeOfCompactSize]
  split_ifs <;> decide

theorem modernInput_length (i : ModernInput) : 44 ≤ (modernInput.put i).length := by
  simp [modernInput, field, outPointCodec]

theorem modernOutput_length (o : ModernOutput) : 77 ≤ (modernOutput.put o).length := by
  have := size_pos o.policyParams.length
  simp [modernOutput, field, sized, int64]
  omega

theorem transitionProof_length (p : TransitionProof) : 5 ≤ (transitionProof.put p).length := by
  have := size_pos p.payload.length
  simp [transitionProof, field, sized]
  omega

theorem creationAction_length (a : CreationAction) : 5 ≤ (creationAction.put a).length := by
  have := size_pos a.payload.length
  simp [creationAction, field, check, sized]
  omega

/-! ## The action section -/

def encodeActions : Nat → List CreationAction → Option Bytes
  | _, [] => some []
  | total, a :: l =>
    if isKnownCreationAction (a.actionType, a.actionVersion) = false then none
    else if a.payload.length > MAX_CREATION_ACTION_PAYLOAD then none
    else if total > MAX_CREATION_ACTION_SECTION_SIZE - frameSize a then none
    else (encodeActions (total + frameSize a) l).map (creationAction.put a ++ ·)

def encodeCreationActionSection (l : List CreationAction) : Option Bytes :=
  if l.length > MAX_CREATION_ACTIONS_PER_TRANSITION then none
  else (encodeActions (getSizeOfCompactSize l.length) l).map (putCompactSize l.length ++ ·)

def decodeCreationActionSection (b : Bytes) : Except String (List CreationAction × Bytes) := do
  let count ← demand (getCompactSize b) "truncated or non-canonical action count"
  reject (count.1 > MAX_CREATION_ACTIONS_PER_TRANSITION)
    "creation-action count exceeds the transition bound"
  reject (count.1 > count.2.length / 5) "creation-action count exceeds the available bytes"
  creationAction.readItems frameSize MAX_CREATION_ACTION_SECTION_SIZE
    "creation-action section exceeds the aggregate bound" count.1 (getSizeOfCompactSize count.1) count.2

variable {l : List CreationAction} {b : Bytes}

theorem frameSize_le (a : CreationAction) (h : creationAction.valid a) :
    frameSize a ≤ MAX_CREATION_ACTION_SECTION_SIZE := by
  have hp : a.payload.length ≤ 4000 := h.2
  rw [frameSize, getSizeOfCompactSize, MAX_CREATION_ACTION_SECTION_SIZE]
  split_ifs <;> omega

theorem encodeActions_eq_some {total : Nat} (h : total ≤ MAX_CREATION_ACTION_SECTION_SIZE) :
    encodeActions total l = some b ↔ (∀ a ∈ l, creationAction.valid a) ∧
      total + (l.map frameSize).sum ≤ MAX_CREATION_ACTION_SECTION_SIZE ∧
      b = l.flatMap creationAction.put := by
  induction l generalizing total b with
  | nil => simp [encodeActions, h, eq_comm]
  | cons a l ih =>
    simp only [encodeActions, ite_none_left_eq_some, map_eq_some_iff, forall_mem_cons, map_cons,
      sum_cons, ← Nat.add_assoc, Bool.not_eq_false, flatMap_cons]
    constructor
    · rintro ⟨hknown, hpayload, hle, _, hl, rfl⟩
      have ha : creationAction.valid a := ⟨⟨⟨u16_valid _, u16_valid _⟩, hknown⟩, not_lt.mp hpayload⟩
      have hframe := frameSize_le a ha
      obtain ⟨hall, hsum, rfl⟩ := (ih (by omega)).mp hl
      exact ⟨⟨ha, hall⟩, hsum, rfl⟩
    · rintro ⟨⟨ha, hall⟩, hsum, rfl⟩
      have hframe := frameSize_le a ha
      exact ⟨ha.1.2, not_lt.mpr ha.2, by omega, _, (ih (by omega)).mpr ⟨hall, hsum, rfl⟩, rfl⟩

theorem count_le {n : Nat} (h : n ≤ MAX_CREATION_ACTIONS_PER_TRANSITION) :
    getSizeOfCompactSize n ≤ MAX_CREATION_ACTION_SECTION_SIZE := by
  rw [getSizeOfCompactSize, if_pos (h.trans_lt (by decide))]
  decide

def actionSection : Format String (List CreationAction) where
  valid l := l.length ≤ MAX_CREATION_ACTIONS_PER_TRANSITION ∧ (∀ a ∈ l, creationAction.valid a) ∧
    getSizeOfCompactSize l.length + (l.map frameSize).sum ≤ MAX_CREATION_ACTION_SECTION_SIZE
  put l := putCompactSize l.length ++ l.flatMap creationAction.put
  read := decodeCreationActionSection
  read_eq_ok := by
    intro b l rest
    simp only [decodeCreationActionSection, Bind.bind, bind_eq_ok, demand_eq_ok, reject_eq_ok,
      exists_const, Prod.exists, not_lt, gt_iff_lt, append_assoc]
    constructor
    · rintro ⟨_, _, hn, hcount, -, hl⟩
      obtain ⟨-, rfl⟩ := putCompactSize_get hn
      obtain ⟨rfl, hall, hsum, rfl⟩ := (readItems_eq_ok frameSize_le (count_le hcount)).mp hl
      exact ⟨⟨hcount, hall, hsum⟩, rfl⟩
    · rintro ⟨⟨hcount, hall, hsum⟩, rfl⟩
      exact ⟨_, _, getCompactSize_put (hcount.trans_lt (by decide)) _, hcount,
        length_le_div creationAction_length (by decide) l rest,
        (readItems_eq_ok frameSize_le (count_le hcount)).mpr ⟨rfl, hall, hsum, rfl⟩⟩

theorem encodeCreationActionSection_eq_some : encodeCreationActionSection l = some b ↔
    actionSection.valid l ∧ b = actionSection.put l := by
  simp only [encodeCreationActionSection, ite_none_left_eq_some, map_eq_some_iff, not_lt, gt_iff_lt]
  constructor
  · rintro ⟨hcount, _, hl, rfl⟩
    obtain ⟨hall, hsum, rfl⟩ := (encodeActions_eq_some (count_le hcount)).mp hl
    exact ⟨⟨hcount, hall, hsum⟩, rfl⟩
  · rintro ⟨⟨hcount, hall, hsum⟩, rfl⟩
    exact ⟨hcount, _, (encodeActions_eq_some (count_le hcount)).mpr ⟨hall, hsum, rfl⟩, rfl⟩

/-! ## The envelope -/

def inputs : Format String (List ModernInput) :=
  list modernInput_length (by decide) "truncated or non-canonical input count"
    "input count exceeds the available bytes"

def outputs : Format String (List ModernOutput) :=
  list modernOutput_length (by decide) "truncated or non-canonical output count"
    "output count exceeds the available bytes"

def proofs : Format String (List TransitionProof) :=
  list transitionProof_length (by decide) "truncated or non-canonical proof count"
    "proof count exceeds the available bytes"

def encodeTransitionEnvelope (t : ModernTransitionV2) : Option Bytes :=
  if t.outputs.any (·.policyParams.length > MAX_POLICY_PARAMS_SIZE) then none
  else if t.proofs.any (·.payload.length > MAX_TRANSITION_PROOF_SIZE) then none
  else (encodeCreationActionSection t.creationActions).bind fun actions =>
    let out := u16.put TRANSITION_VERSION_V2 ++ (inputs.put t.inputs ++ (outputs.put t.outputs ++
      (proofs.put t.proofs ++ actions)))
    if out.length > MAX_TRANSITION_ENVELOPE_SIZE then none else some out

def decodeTransitionEnvelope (data : Bytes) : Except String ModernTransitionV2 := do
  reject (data.length > MAX_TRANSITION_ENVELOPE_SIZE) "transition envelope exceeds the size bound"
  let version ← demand (u16.get data) "truncated transition version"
  reject (version.1 ≠ TRANSITION_VERSION_V2) "unsupported transition version"
  let i ← inputs.read version.2
  let o ← outputs.read i.2
  let p ← proofs.read o.2
  let a ← decodeCreationActionSection p.2
  reject (a.2 ≠ []) "trailing bytes after the transition envelope"
  .ok ⟨i.1, o.1, p.1, a.1⟩

/-- Every number, the lengths of the vectors included, fits the type of its field. -/
structure ModernTransitionV2.Typed (t : ModernTransitionV2) : Prop where
  lengths : t.inputs.length < 2 ^ 64 ∧ t.outputs.length < 2 ^ 64 ∧ t.proofs.length < 2 ^ 64
  inputs : ∀ i ∈ t.inputs, uint256.valid i.prevout.hash
  outputs : ∀ o ∈ t.outputs, uint256.valid o.asset ∧ int64.valid o.amount ∧
    (natLE 2).valid o.policyType ∧ (natLE 2).valid o.policyVersion ∧ uint256.valid o.policyCommitment

/-- Decoding accepts exactly the encodings, each as the transition it is the encoding of. -/
theorem transitionEnvelope_canonical (t : ModernTransitionV2) (b : Bytes) :
    decodeTransitionEnvelope b = .ok t ↔ t.Typed ∧ encodeTransitionEnvelope t = some b := by
  have hactions : ∀ {b l rest}, decodeCreationActionSection b = .ok (l, rest) ↔
    actionSection.valid l ∧ b = actionSection.put l ++ rest := actionSection.read_eq_ok
  simp only [decodeTransitionEnvelope, Bind.bind, bind_eq_ok, reject_eq_ok, demand_eq_ok,
    exists_const, Prod.exists, read_eq_ok, hactions, ne_eq, not_not, not_lt, gt_iff_lt,
    encodeTransitionEnvelope, ite_none_left_eq_some, bind_eq_some_iff, List.any_eq_true,
    encodeCreationActionSection_eq_some, decide_eq_true_eq, not_exists, not_and]
  constructor
  · rintro ⟨hsize, _, _, hv, rfl, i, _, ⟨hi, rfl⟩, o, _, ⟨ho, rfl⟩, p, _, ⟨hp, rfl⟩, a, _, ⟨ha, rfl⟩,
      rfl, ht⟩
    cases ht
    obtain ⟨_, rfl⟩ := u16.put_get _ _ _ hv
    rw [append_nil] at hsize ⊢
    exact ⟨⟨⟨hi.1, ho.1, hp.1⟩, fun x h => (hi.2 x h).1.1.1.1, fun x h => (ho.2 x h).1⟩,
      fun x h => (ho.2 x h).2, fun x h => (hp.2 x h).2, _, ⟨ha, rfl⟩, hsize, rfl⟩
  · rintro ⟨⟨⟨hni, hno, hnp⟩, hi, ho⟩, hparams, hp, _, ⟨ha, rfl⟩, hsize, hb⟩
    cases hb
    refine ⟨hsize, _, _, u16.get_put _ (u16_valid _) _, rfl, _, _, ⟨⟨hni, fun x h => ?_⟩, rfl⟩,
      _, _, ⟨⟨hno, fun x h => ⟨ho x h, hparams x h⟩⟩, rfl⟩,
      _, _, ⟨⟨hnp, fun x h => ⟨⟨u16_valid _, u16_valid _⟩, hp x h⟩⟩, rfl⟩,
      _, _, ⟨ha, (append_nil _).symm⟩, rfl, rfl⟩
    exact ⟨⟨⟨⟨hi x h, u32_valid _⟩, rfl⟩, u32_valid _, u32_valid _⟩, rfl⟩

end B3Coin.TransitionEnvelope
