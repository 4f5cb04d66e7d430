import B3Coin.FlowMesh.Batch

/-!
# A slot as a run of moves

Executing a slot is a run of calls on the state and of sequence advances. `History`
adds what the calls did: consumed sequences, credited deposits, created receipts and
settled ones. Whatever one move keeps, every run of slots keeps.
-/
namespace B3Coin.FlowMesh

open Ledger Transition FlowMeshState SlotContext

/-- A call on the state, or an advance of a signer's sequence. -/
inductive Move where
  | call (c : Call)
  | advance (signer : AccountId) (sequence : UInt64)

/-- A market with what has happened in it, oldest first. A settlement stands with the number of
receipts created before it. -/
structure History where
  state : FlowMeshState
  consumed : List (AccountId × UInt64) := []
  credited : List COutPoint := []
  created : List WithdrawalReceipt := []
  settled : List (WithdrawalSettlementFact × Nat) := []

namespace History

/-- What an accepted call adds to the history. -/
def record (pr : Primitives) (h : History) (s' : FlowMeshState) : Call → History
  | .creditDeposit outpoint .. => { h with state := s', credited := h.credited ++ [outpoint] }
  | .requestWithdrawal account asset amount destination _ =>
    { h with
      state := s'
      created := h.created ++
        [h.state.ledger.nextReceipt pr.receiptHash account asset amount destination] }
  | .consumeWithdrawalSettlement f =>
    { h with state := s', settled := h.settled ++ [(f, h.created.length)] }
  | .submitCurve .. | .cancelCurve .. | .clearSlot .. => { h with state := s' }

def move (pr : Primitives) (h : History) : Move → Option History
  | .call c => (h.state.perform pr c).map fun s' => h.record pr s' c
  | .advance signer sequence =>
    if sequence = h.state.nextSequence signer then
      some { h with
        state := h.state.advanceSequence signer (sequence + 1)
        consumed := h.consumed ++ [(signer, sequence)] }
    else none

end History

open Option

/-- The arguments of `ExecuteSlot`. -/
structure SlotCall where
  context : SlotContext
  actions : List Action
  settlements : List WithdrawalSettlementFact

/-- The sequences a slot consumes. -/
def SlotCall.consumed (C : BatchCrypto) (s : FlowMeshState) (c : SlotCall) :
    List (AccountId × UInt64) :=
  if c.settlements ≠ [] then []
  else (c.context.executeActions C s (canonicalizeActions C.toDigests c.actions)).consumed

/-- A successful `ExecuteSlot`, with its result added to the history. -/
def History.execute (C : BatchCrypto) (h : History) (c : SlotCall) : Option History :=
  (executeSlot C c.context h.state c.actions c.settlements).map fun y =>
    { state := y.2
      consumed := h.consumed ++ c.consumed C h.state
      credited := h.credited ++ y.1.creditedDeposits.map (·.outpoint)
      created := h.created ++ y.1.withdrawalRequests
      settled := h.settled ++ y.1.settledWithdrawals.map (·, h.created.length) }

theorem History.execute_of_some {C : BatchCrypto} {h : History} {c : SlotCall} {r : BatchResult}
    {s' : FlowMeshState}
    (hr : executeSlot C c.context h.state c.actions c.settlements = some (r, s')) :
    ∃ h', h.execute C c = some h' ∧ h'.state = s' ∧ h'.created = h.created ++ r.withdrawalRequests :=
  ⟨_, map_eq_some_iff.mpr ⟨(r, s'), hr, rfl⟩, rfl, rfl⟩

/-! ## From slots to moves -/

/-- A request is made against the capacity of the slot. -/
def Move.Within (x : SlotContext) : Move → Prop
  | .call (.requestWithdrawal _ asset _ _ capacity) => x.capacity asset = some capacity
  | _ => True

/-- A run of moves within a slot. -/
def Moves (pr : Primitives) (x : SlotContext) (h h' : History) : Prop :=
  ∃ moves, Run (History.move pr) h moves h' ∧ ∀ m ∈ moves, m.Within x

section Moves

variable {C : BatchCrypto} {pr : Primitives} {x : SlotContext} {h h' h'' : History}

theorem Moves.refl (pr : Primitives) (x : SlotContext) (h : History) : Moves pr x h h :=
  ⟨[], .start, by simp⟩

theorem Moves.trans (h₁ : Moves pr x h h') (h₂ : Moves pr x h' h'') : Moves pr x h h'' := by
  obtain ⟨as, hrun, hw⟩ := h₁
  obtain ⟨bs, hrun', hw'⟩ := h₂
  refine ⟨bs ++ as, hrun.trans hrun', fun m hm => ?_⟩
  rcases List.mem_append.mp hm with hm | hm
  · exact hw' m hm
  · exact hw m hm

theorem Moves.single {m : Move} (hm : h.move pr m = some h') (hw : m.Within x) : Moves pr x h h' :=
  ⟨[m], Run.start.next hm, by simpa using hw⟩

variable {s' : FlowMeshState}

theorem Moves.call {c : Call} (hp : h.state.perform pr c = some s')
    (hw : (Move.call c).Within x) : Moves pr x h (h.record pr s' c) :=
  .single (m := .call c) (by rw [History.move, hp]; rfl) hw

/-- A loop whose turns are runs of moves is a run of moves. -/
theorem Moves.foldl {α β : Type} {f : β → α → β} {φ : β → History}
    (hstep : ∀ b a, Moves pr x (φ b) (φ (f b a))) (l : List α) (b : β) :
    Moves pr x (φ b) (φ (l.foldl f b)) := by
  induction l generalizing b with
  | nil => exact .refl pr x _
  | cons a l ih => exact (hstep b a).trans (ih (f b a))

/-- The history of a slot under execution that started after `h₀`. -/
def Slot.history (h₀ : History) (slot : Slot) : History where
  state := slot.state
  consumed := h₀.consumed ++ slot.consumed
  credited := h₀.credited ++ slot.creditedDeposits.map (·.outpoint)
  created := h₀.created ++ slot.requests.map (·.request)
  settled := h₀.settled

theorem creditOne_moves (D : Digests) (h₀ : History) (slot : Slot) (a : Action) :
    Moves pr x (slot.history h₀) ((x.creditOne D slot a).history h₀) := by
  unfold creditOne
  split
  · rename_i info s' happly
    obtain ⟨v, hv, hcredit⟩ := bind_eq_some_iff.mp happly
    rw [ite_none_left_eq_some] at hcredit
    obtain ⟨i, hi, hmap⟩ := bind_eq_some_iff.mp hcredit.2
    obtain ⟨t, ht, hpair⟩ := map_eq_some_iff.mp hmap
    obtain ⟨rfl, rfl⟩ := Prod.mk.inj hpair
    have hmove : Moves pr x (slot.history h₀) _ :=
      .call (c := .creditDeposit a.outpoint i.account i.asset i.amount) ht trivial
    simpa [Slot.history, History.record] using hmove
  · exact .refl pr x _

/-- A state that comes from one call within the slot, which may have issued a receipt. -/
def OneCall (pr : Primitives) (x : SlotContext) (s s' : FlowMeshState)
    (request : Option WithdrawalReceipt) : Prop :=
  ∃ c, s.perform pr c = some s' ∧ (Move.call c).Within x ∧ ∀ h : History, h.state = s →
    h.record pr s' c = { h with state := s', created := h.created ++ request.toList }

theorem OneCall.moves {s' : FlowMeshState} {request : Option WithdrawalReceipt}
    (hc : OneCall pr x h.state s' request) :
    Moves pr x h { h with state := s', created := h.created ++ request.toList } := by
  obtain ⟨c, hp, hw, hrecord⟩ := hc
  rw [← hrecord h rfl]
  exact .call hp hw

variable {s s' : FlowMeshState}

variable {request : Option WithdrawalReceipt}

/-- A call that issues no receipt. -/
theorem oneCall_of_map (c : Call)
    (hw : (Move.call c).Within x) (hrecord : ∀ h t, History.record pr h t c = { h with state := t })
    (hmap : (s.perform pr c).map (·, (none : Option WithdrawalReceipt)) = some (s', request)) :
    OneCall pr x s s' request := by
  obtain ⟨t, ht, hpair⟩ := map_eq_some_iff.mp hmap
  obtain ⟨rfl, rfl⟩ := Prod.mk.inj hpair
  exact ⟨c, ht, hw, fun h _ => by rw [hrecord]; simp⟩

section

variable {account : AccountId} {asset : AssetId} {amount : Int} {destination : Uint256} {r : WithdrawalReceipt}

theorem requestWithdrawal_receipt
    (hr : x.requestWithdrawal pr s account asset amount destination = some (r, s')) :
    r = s.ledger.nextReceipt pr.receiptHash account asset amount destination := by
  obtain ⟨c, _, hreq⟩ := bind_eq_some_iff.mp hr
  obtain ⟨y, hy, hpair⟩ := map_eq_some_iff.mp hreq
  obtain ⟨rfl, _⟩ := Prod.mk.inj hpair
  exact (requestWithdrawal_some hy).2.2.2.2.1

theorem oneCall_of_request
    (hr : x.requestWithdrawal pr s account asset amount destination = some (r, s')) :
    OneCall pr x s s' (some r) := by
  obtain ⟨c, hc, hreq⟩ := bind_eq_some_iff.mp hr
  refine ⟨.requestWithdrawal account asset amount destination c, ?_, hc, ?_⟩
  · rw [perform, hreq]
    rfl
  · rintro h rfl
    rw [requestWithdrawal_receipt hr]
    rfl

end

theorem applyAction_oneCall
    {a : Action} (ha : x.applyAction pr s a = some (s', request)) : OneCall pr x s s' request := by
  unfold applyAction at ha
  split at ha
  · exact oneCall_of_map (.submitCurve a.signer .BID a.curve) trivial (fun _ _ => rfl) ha
  · exact oneCall_of_map (.submitCurve a.signer .ASK a.curve) trivial (fun _ _ => rfl) ha
  · exact oneCall_of_map (.cancelCurve a.signer .BID) trivial (fun _ _ => rfl) ha
  · exact oneCall_of_map (.cancelCurve a.signer .ASK) trivial (fun _ _ => rfl) ha
  all_goals first
    | cases ha
    | obtain ⟨y, hy, hpair⟩ := map_eq_some_iff.mp ha
      obtain ⟨rfl, rfl⟩ := Prod.mk.inj hpair
      exact oneCall_of_request hy

theorem perform_nextSeq {c : Call} (hp : s.perform pr c = some s') : s'.nextSeq = s.nextSeq := by
  cases performed hp <;> rfl

theorem executeOne_moves (h₀ : History) (slot : Slot) (a : Action) :
    Moves C.toPrimitives x (slot.history h₀) ((x.executeOne C slot a).history h₀) := by
  have advance : ∀ h : History, h.state.nextSeq = slot.state.nextSeq →
      a.sequence = slot.state.nextSequence a.signer →
      Moves C.toPrimitives x h { h with
        state := h.state.advanceSequence a.signer (a.sequence + 1)
        consumed := h.consumed ++ [(a.signer, a.sequence)] } := by
    intro h hseq ha
    refine .single (m := .advance a.signer a.sequence) ?_ trivial
    rw [History.move, if_pos (by rw [ha, nextSequence, ← hseq]; rfl)]
  unfold executeOne
  by_cases hseq : a.sequence = slot.state.nextSequence a.signer
  · rw [← hseq]
    cases happly : x.applyAction C.toPrimitives slot.state a with
    | none => simpa [Slot.history] using advance (slot.history h₀) rfl hseq
    | some y =>
      obtain ⟨s', request⟩ := y
      have hcall : OneCall C.toPrimitives x (slot.history h₀).state s' request :=
        applyAction_oneCall happly
      have hkeep : s'.nextSeq = slot.state.nextSeq := by
        obtain ⟨c, hp, _⟩ := hcall
        exact perform_nextSeq hp
      have := hcall.moves.trans (advance { slot.history h₀ with
        state := s', created := (slot.history h₀).created ++ request.toList } hkeep hseq)
      cases request <;> simpa [Slot.history] using this
  · simp only [ne_eq, hseq, not_false_eq_true, ↓reduceIte]
    exact .refl _ x _

theorem payTreasury_moves {treasuryFee : Int} {paid : Option AccountWithdrawalRequest}
    (hpay : x.payTreasury pr h.state treasuryFee = some (paid, s')) : Moves pr x h { h with
      state := s', created := h.created ++ paid.toList.map (·.request) } := by
  have same : some ((none : Option AccountWithdrawalRequest), h.state) = some (paid, s') →
      Moves pr x h { h with
        state := s', created := h.created ++ paid.toList.map (·.request) } := by
    intro heq
    obtain ⟨rfl, rfl⟩ := Prod.mk.inj (some.inj heq)
    simpa using Moves.refl pr x h
  unfold payTreasury at hpay
  split at hpay
  · split_ifs at hpay
    exact same hpay
  · split_ifs at hpay
    · obtain ⟨y, hy, hpair⟩ := map_eq_some_iff.mp hpay
      obtain ⟨rfl, rfl⟩ := Prod.mk.inj hpair
      exact (oneCall_of_request hy).moves
    · exact same hpay

theorem settleAll_moves {previous : Option Uint256} {facts : List WithdrawalSettlementFact}
    (hs : settleAll previous facts h.state = some s') : Moves pr x h { h with
      state := s', settled := h.settled ++ facts.map (·, h.created.length) } := by
  induction facts generalizing previous h with
  | nil =>
    obtain rfl := some.inj hs
    simpa using Moves.refl pr x h
  | cons f rest ih =>
    rw [settleAll, ite_none_left_eq_some] at hs
    obtain ⟨t, ht, hrest⟩ := bind_eq_some_iff.mp hs.2
    have hfirst : Moves pr x h (h.record pr t (.consumeWithdrawalSettlement f)) :=
      .call (c := .consumeWithdrawalSettlement f) ht trivial
    have := hfirst.trans (ih (h := h.record pr t (.consumeWithdrawalSettlement f)) hrest)
    simpa [History.record] using this

theorem executeActions_moves (C : BatchCrypto) (x : SlotContext) (h₀ : History)
    (canonical : List Action) :
    Moves C.toPrimitives x h₀ ((x.executeActions C h₀.state canonical).history h₀) := by
  let sorted := sortActions canonical
  let start : Slot :=
    { state := h₀.state
      rejected := (sorted.malformed.map fun a => (a.id C.toDigests, ActionReject.MALFORMED)) ++
        sorted.equivocations.map fun a => (a.id C.toDigests, .EQUIVOCATION) }
  let credited := (sorted.deposits.entries.map (·.2)).foldl (x.creditOne C.toDigests) start
  have hstart : start.history h₀ = h₀ := by simp [start, Slot.history]
  have hcredit : Moves C.toPrimitives x (start.history h₀) (credited.history h₀) :=
    Moves.foldl (creditOne_moves C.toDigests h₀) _ start
  rw [hstart] at hcredit
  exact hcredit.trans (Moves.foldl (executeOne_moves h₀) sorted.survivors credited)

theorem executeSlot_cases {actions : List Action}
    {settlements : List WithdrawalSettlementFact} {r : BatchResult}
    (hr : executeSlot C x s actions settlements = some (r, s')) :
    (settlements ≠ [] ∧ settleAll none settlements s = some s' ∧ r.withdrawalRequests = [] ∧
      r.creditedDeposits = [] ∧ r.settledWithdrawals = settlements) ∨
    (settlements = [] ∧ ∃ done cleared paid,
      done = x.executeActions C s (canonicalizeActions C.toDigests actions) ∧
      done.state.clearSlot C.toPrimitives x.fee = some (r.clearing, cleared) ∧
      x.payTreasury C.toPrimitives cleared r.clearing.fees.treasuryFee = some (paid, s') ∧
      r.accountWithdrawalRequests = done.requests ++ paid.toList ∧
      r.withdrawalRequests = done.requests.map (·.request) ++ paid.toList.map (·.request) ∧
      r.creditedDeposits = done.creditedDeposits ∧ r.settledWithdrawals = []) := by
  unfold executeSlot at hr
  by_cases hsettle : settlements = []
  · simp only [hsettle, ne_eq, not_true_eq_false, ↓reduceIte] at hr
    obtain ⟨⟨clearing, cleared⟩, hclear, hr⟩ := bind_eq_some_iff.mp hr
    obtain ⟨⟨paid, t⟩, hpaid, hpair⟩ := map_eq_some_iff.mp hr
    obtain ⟨rfl, rfl⟩ := Prod.mk.inj hpair
    exact .inr ⟨hsettle, _, cleared, paid, rfl, hclear, hpaid, rfl, List.map_append, rfl, rfl⟩
  · simp only [ne_eq, hsettle, not_false_eq_true, ↓reduceIte, ite_none_left_eq_some] at hr
    obtain ⟨t, ht, hpair⟩ := map_eq_some_iff.mp hr.2
    obtain ⟨rfl, rfl⟩ := Prod.mk.inj hpair
    exact .inl ⟨hsettle, ht, rfl, rfl, rfl⟩

theorem execute_moves {c : SlotCall} (hc : h.execute C c = some h') :
    Moves C.toPrimitives c.context h h' := by
  obtain ⟨⟨r, s'⟩, hr, rfl⟩ := map_eq_some_iff.mp hc
  rcases executeSlot_cases hr with ⟨hne, hsettle, hreq, hcred, hset⟩ |
    ⟨hnil, done, cleared, paid, hdone, hclear, hpaid, _, hreq, hcred, hset⟩
  · simpa [SlotCall.consumed, hne, hreq, hcred, hset] using settleAll_moves hsettle
  · have hactions := executeActions_moves C c.context h (canonicalizeActions C.toDigests c.actions)
    rw [← hdone] at hactions
    have hperform : done.state.perform C.toPrimitives (.clearSlot c.context.fee) =
        some cleared := by
      rw [perform, hclear]
      rfl
    have hclearing : Moves C.toPrimitives c.context (done.history h)
        { done.history h with state := cleared } :=
      .call (c := .clearSlot c.context.fee) hperform trivial
    have htreasury : Moves C.toPrimitives c.context { done.history h with state := cleared } _ :=
      payTreasury_moves hpaid
    have := (hactions.trans hclearing).trans htreasury
    simpa [Slot.history, SlotCall.consumed, hnil, hreq, hcred, hset, ← hdone] using this

end Moves

end B3Coin.FlowMesh
