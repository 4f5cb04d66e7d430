import B3Coin.FlowMesh.State
import Mathlib.Data.Nat.Pairing
import Mathlib.Logic.Equiv.Nat

/-!
# Solvency of a market over whole runs

One step: what a call does to custody, balances and pending requests. From it, by
induction over the accepted calls, the market is in order in every reachable state
and a slot always clears; and custody equals the liabilities exactly in a run that
does not wrap the receipt counter.
-/
namespace B3Coin.FlowMesh

open Ledger Transition Option OrderedMap Call

variable {pr : Primitives} {s s' : FlowMeshState}

/-- What holds in every reachable state. -/
structure StateOk (s : FlowMeshState) : Prop where
  market : MarketOk s.book s.ledger
  custody : ∀ a, s.ledger.custodyOf a ≤ MAX_MONEY
  pending : ∀ id r, s.ledger.requests.find? id = some r → 0 < r.amount
  covered : ∀ a, s.ledger.liabilities a ≤ s.ledger.custodyOf a

/-- What custody holds beyond the liabilities. -/
def FlowMeshState.surplus (s : FlowMeshState) (a : AssetId) : Int :=
  s.ledger.custodyOf a - s.ledger.liabilities a

/-- The liability a call drops: the amount of a request whose receipt id is pending already. -/
def Call.dropped (pr : Primitives) (s : FlowMeshState) : Call → AssetId → Int
  | .requestWithdrawal account asset amount destination _ => fun a =>
    if s.ledger.requests.find?
        (s.ledger.nextReceipt pr.receiptHash account asset amount destination).receiptId = none
    then 0 else totalDelta asset amount a
  | _ => fun _ => 0

/-- One step of a market that is in order. -/
structure Stepped (s s' : FlowMeshState) (dropped : AssetId → Int) : Prop where
  market : MarketOk s'.book s'.ledger
  custody : ∀ a, s'.ledger.custodyOf a ≤ MAX_MONEY
  pending : ∀ id r, s'.ledger.requests.find? id = some r → 0 < r.amount
  surplus : ∀ a, s'.surplus a = s.surplus a + dropped a
  dropped_nonneg : ∀ a, 0 ≤ dropped a
  base : s'.book.base = s.book.base
  quote : s'.book.quote = s.book.quote

theorem Stepped.ok {dropped : AssetId → Int} (h : StateOk s) (hs : Stepped s s' dropped) :
    StateOk s' where
  market := hs.market
  custody := hs.custody
  pending := hs.pending
  covered a := by
    have := hs.surplus a
    have := hs.dropped_nonneg a
    have := h.covered a
    unfold FlowMeshState.surplus at *
    omega

theorem StateOk.pending_nonneg (h : StateOk s) (a : AssetId) :
    0 ≤ s.ledger.pendingWithdrawals a := by
  refine List.sum_nonneg fun x hx => ?_
  obtain ⟨e, he, rfl⟩ := List.mem_map.mp hx
  have := h.pending e.1 e.2 (find?_eq_some.mpr he)
  simp only
  split_ifs
  · exact this.le
  · exact le_refl 0

theorem StateOk.held_nonneg (h : StateOk s) (a : AssetId) : 0 ≤ s.ledger.held a :=
  List.sum_nonneg fun x hx => by
    obtain ⟨e, he, rfl⟩ := List.mem_map.mp hx
    exact h.market.nonneg.share a e he

/-- A market is in order for its balances alone. -/
theorem MarketOk.of_balances {b : Book} {l l' : Ledger} (h : MarketOk b l)
    (he : l'.balances = l.balances) : MarketOk b l' := by
  have hbal : ∀ x a, l'.balance x a = l.balance x a := fun x a => by
    unfold Ledger.balance entry?
    rw [he]
  have hheld : ∀ a, l'.held a = l.held a := fun a => by rw [held, held, he]
  refine ⟨h.covered, fun x a => ?_, fun x a => ?_, fun a => hheld a ▸ h.cap a⟩
  · rw [Ledger.reserved, hbal]
    exact h.reconciled x a
  · rw [Ledger.available, Ledger.reserved, hbal]
    exact h.nonneg x a

/-- A credit or a debit of available funds. -/
theorem MarketOk.of_changed {b : Book} {l l' : Ledger} {x : AccountId} {a : AssetId} {d : Int}
    (h : MarketOk b l) (hc : Changed l l' (delta x a d) 0 (totalDelta a d))
    (hav : 0 ≤ l.available x a + d) (hcap : l.held a + d ≤ MAX_MONEY) : MarketOk b l' := by
  refine ⟨h.covered, fun y t => ?_, fun y t => ?_, fun t => ?_⟩
  · rw [hc.reserved, h.reconciled]
    simp
  · have := h.nonneg y t
    rw [hc.available, hc.reserved]
    refine ⟨?_, by simpa using this.2⟩
    unfold delta
    split_ifs with hyt
    · obtain ⟨rfl, rfl⟩ := hyt
      exact hav
    · omega
  · have := h.cap t
    rw [hc.held]
    unfold totalDelta
    split_ifs with ht
    · exact ht ▸ hcap
    · omega

/-! ## The calls -/

section Calls

variable (h : StateOk s)
include h

section

variable {x : AccountId} {a : AssetId} {d : Int} {l' : Ledger}

theorem creditDeposit_step (deposits : Finset COutPoint) (hl' : s.ledger.deposit x a d = some l') :
    Stepped s { s with ledger := l', consumedDeposits := deposits } 0 := by
  obtain ⟨hd, hroom, ⟨m, hm, hl⟩, hcustody⟩ := deposit_some hl'
  have hcovered := h.covered a
  have hpending := h.pending_nonneg a
  have hrequests : l'.requests = s.ledger.requests := by rw [hl, hm.rest]
  have hmarket : MarketOk s.book m := by
    refine h.market.of_changed hm ?_ ?_
    · have := (h.market.nonneg x a).1
      omega
    · unfold liabilities at hcovered
      omega
  refine ⟨hmarket.of_balances (by rw [hl]), fun t => ?_, ?_, fun t => ?_, fun _ => le_refl 0, rfl,
    rfl⟩
  · have := h.custody t
    rw [hcustody]
    unfold totalDelta
    split_ifs with ht
    · exact ht ▸ hroom
    · omega
  · simpa [hrequests] using h.pending
  · have hheld : l'.held t = s.ledger.held t + totalDelta a d t := by
      rw [← hm.held t, hl]
      rfl
    simp only [FlowMeshState.surplus, liabilities, pendingWithdrawals, hcustody, hheld, hrequests,
      Pi.zero_apply]
    ring

/-- A call that only moves value between book and balances. -/
theorem settled_step {b' : Book} {l₀ : Ledger} (hs : Settled s.book b' s.ledger l₀)
    (hbal : l'.balances = l₀.balances) (hcus : l'.custody = l₀.custody)
    (hreq : l'.requests = l₀.requests) : Stepped s { s with book := b', ledger := l' } 0 := by
  have hcustody : ∀ t, l'.custodyOf t = s.ledger.custodyOf t := fun t => by
    rw [custodyOf, hcus, hs.rest]
    rfl
  have hheld : ∀ t, l'.held t = s.ledger.held t := fun t => by
    rw [held, hbal]
    exact hs.held t
  have hrequests : l'.requests = s.ledger.requests := by rw [hreq, hs.rest]
  refine ⟨hs.market.of_balances hbal, fun t => hcustody t ▸ h.custody t, ?_, fun t => ?_,
    fun _ => le_refl 0, hs.base, hs.quote⟩
  · simpa [hrequests] using h.pending
  · simp [FlowMeshState.surplus, liabilities, pendingWithdrawals, hcustody, hheld, hrequests]

theorem requestWithdrawal_step {dest : Uint256} {capacity : Int} {y : WithdrawalReceipt × Ledger}
    (hy : s.ledger.requestWithdrawal pr.receiptHash x a d dest capacity = some y) :
    Stepped s { s with ledger := y.2 }
      (dropped pr s (.requestWithdrawal x a d dest capacity)) := by
  obtain ⟨hd, hav, _, _, hr, m, hm, hl⟩ := requestWithdrawal_some hy
  have hasset : y.1.asset = a := by rw [hr]; rfl
  have hamount : y.1.amount = d := by rw [hr]; rfl
  have hcustody : ∀ t, y.2.custodyOf t = s.ledger.custodyOf t := fun t => by
    rw [hl, hm.rest]
    rfl
  have hmarket : MarketOk s.book m := by
    refine h.market.of_changed hm (by omega) ?_
    have := h.market.cap a
    omega
  refine ⟨hmarket.of_balances (by rw [hl]), fun t => hcustody t ▸ h.custody t, fun id q hq => ?_,
    fun t => ?_, fun t => ?_, rfl, rfl⟩
  · rw [hl] at hq
    simp only [emplace] at hq
    split_ifs at hq
    · exact h.pending id q hq
    · rw [find?_insert] at hq
      split_ifs at hq
      · obtain rfl := Option.some.inj hq
        omega
      · exact h.pending id q hq
  · have hheld : y.2.held t = s.ledger.held t + totalDelta a (-d) t := by
      rw [← hm.held t, hl]
      rfl
    have hpend : y.2.pendingWithdrawals t = s.ledger.pendingWithdrawals t +
        if s.ledger.requests.find? y.1.receiptId = none then totalDelta a d t else 0 := by
      have := pendingWithdrawals_emplace s.ledger y.1.receiptId y.1 t
      rw [hasset, hamount] at this
      rw [hl]
      exact this
    simp only [FlowMeshState.surplus, liabilities, hcustody, hheld, hpend, dropped, ← hr,
      totalDelta]
    split_ifs <;> omega
  · simp only [dropped, totalDelta]
    split_ifs <;> omega

theorem consumeWithdrawalSettlement_step {fact : WithdrawalSettlementFact}
    (hl' : s.ledger.consumeRequest fact = some l') : Stepped s { s with ledger := l' } 0 := by
  obtain ⟨r, hr, hle, hbal, hreq, _, _, _, hcustody⟩ := consumeRequest_some hl'
  have hpos := h.pending _ r hr
  refine ⟨h.market.of_balances hbal, fun t => ?_, fun id q hq => ?_, fun t => ?_,
    fun _ => le_refl 0, rfl, rfl⟩
  · have := h.custody t
    rw [hcustody]
    unfold totalDelta
    split_ifs <;> omega
  · simp only [hreq, find?_erase] at hq
    split_ifs at hq
    exact h.pending id q hq
  · have hpend : l'.pendingWithdrawals t =
        s.ledger.pendingWithdrawals t - totalDelta r.asset r.amount t := by
      rw [← pendingWithdrawals_erase hr t, pendingWithdrawals, hreq]
    simp only [FlowMeshState.surplus, liabilities, hcustody, hpend, held, hbal, Pi.zero_apply]
    ring

end

/-- What any accepted call does. -/
theorem perform_step {c : Call} (hp : s.perform pr c = some s') : Stepped s s' (c.dropped pr s) := by
  cases FlowMeshState.performed hp with
  | credit _ hl => exact creditDeposit_step h _ hl
  | submit hy => exact settled_step h (submitCurve_settled h.market hy).1 rfl rfl rfl
  | cancel hy => exact settled_step h (cancelCurve_settled h.market hy).1 rfl rfl rfl
  | clear hy =>
    obtain ⟨l0, hs, hl⟩ := clearSlot_settled h.market hy
    exact settled_step h hs (by rw [hl]; rfl) (by rw [hl]; rfl) (by rw [hl]; rfl)
  | request hy => exact requestWithdrawal_step h hy
  | consume hl => exact consumeWithdrawalSettlement_step h hl

end Calls

/-! ## Runs -/

theorem new_ok (cfg : MarketConfig) : StateOk (.new cfg) := by
  have hbal : ∀ x a, (FlowMeshState.new cfg).ledger.balance x a = {} := fun _ _ => rfl
  refine ⟨⟨?_, fun x a => ?_, fun x a => ?_, fun a => ?_⟩, fun a => ?_, ?_, fun a => ?_⟩
  · intro side x c hc
    cases side <;> cases hc
  · simp only [Book.reservedFor]
    split_ifs <;> rfl
  · exact ⟨le_refl 0, le_refl 0⟩
  · exact (by decide : (0 : Int) ≤ MAX_MONEY)
  · exact (by decide : (0 : Int) ≤ MAX_MONEY)
  · intro id r hr
    cases hr
  · exact le_refl (0 : Int)

/-! A small market: a bid of three lots at two meets an ask of three lots at one. -/

namespace Sample

def primitives : Primitives where
  receiptHash p := Nat.pair p.slot.toNat (Nat.pair p.seq.toNat (Nat.pair p.account
    (Nat.pair p.asset (Nat.pair (Equiv.intEquivNat p.amount) (Nat.pair p.destination p.vault)))))
  seatRewardAccount _ _ _ := 1
  treasuryFeeAccount _ _ := 2
  decodesPublicKey _ := true

theorem receiptHash_injective : Function.Injective primitives.receiptHash := by
  intro p q h
  obtain ⟨slot', seq', account', asset', amount', destination', vault'⟩ := q
  simp only [primitives, Nat.pair_eq_pair, UInt64.toNat_inj, EmbeddingLike.apply_eq_iff_eq] at h
  obtain ⟨rfl, rfl, rfl, rfl, rfl, rfl, rfl⟩ := h
  rfl

def config : MarketConfig where
  vault := 9
  base := 7
  quote := NativeAsset
  distinct := by decide
  maxK_pos := by decide
  maxK_le := by decide
  configId := 11

def fee : FlowMeshFeeContext where
  marketId := 13
  epoch := 1
  treasuryOwnerCommitment := 14
  seats := [⟨1, 1⟩, ⟨2, 2⟩, ⟨3, 3⟩, ⟨4, 4⟩]

/-- Deposits, both curves and a withdrawal, the latest call first. -/
def calls : List Call :=
  [.requestWithdrawal 5 NativeAsset 40 21 MAX_MONEY,
   .submitCurve 6 .ASK [⟨1, 3⟩],
   .submitCurve 5 .BID [⟨2, 3⟩, ⟨3, 0⟩],
   .creditDeposit ⟨2, 0⟩ 6 7 3,
   .creditDeposit ⟨1, 0⟩ 5 NativeAsset 100]

theorem reached : ∃ s, Run (FlowMeshState.perform primitives) (.new config) calls s :=
  ⟨_, .next (.next (.next (.next (.next .start rfl) rfl) rfl) rfl) rfl⟩

end Sample

section Runs

variable {cfg : MarketConfig} {calls : List Call}

/-- In every reachable state the market is in order and custody covers the liabilities. -/
theorem run_ok (hrun : Run (FlowMeshState.perform pr) (.new cfg) calls s) :
    StateOk s ∧ s.book.quote = cfg.quote := by
  refine hrun.invariant (P := fun _ s => StateOk s ∧ s.book.quote = cfg.quote) ⟨new_ok cfg, rfl⟩ ?_
  rintro _ s c t ⟨hok, hq⟩ hp
  have hstep := perform_step hok hp
  exact ⟨hstep.ok hok, hstep.quote.trans hq⟩

/-- An account that never submits a curve never stands in the book. -/
theorem run_find?_none {y : AccountId} (hrun : Run (FlowMeshState.perform pr) (.new cfg) calls s)
    (hy : ∀ c ∈ calls, c.trader ≠ some y) (side : Side) : (s.book.side side).find? y = none := by
  induction hrun with
  | start => cases side <;> rfl
  | @next as s t c hprev hp ih =>
    have hok := (run_ok hprev).1
    have hnone := ih fun c hc => hy c (by simp [hc])
    cases FlowMeshState.performed hp with
    | submit hz =>
      have hne : y ≠ _ := fun heq => hy _ List.mem_cons_self (by rw [heq]; rfl)
      obtain ⟨_, _, _, _, hc⟩ := submitCurve_settled hok.market hz
      simp only [hc]
      exact s.book.find?_withSide_insert _ side (fun _ => hne) hnone
    | cancel hz =>
      obtain ⟨_, hc⟩ := cancelCurve_settled hok.market hz
      simp only [hc]
      exact s.book.find?_withSide_erase _ side hnone
    | clear hz => exact clearSlot_find?_none hz hnone
    | credit | request | consume => exact hnone

/-- The fee account is a constant outside the range of the account digests. -/
structure Primitives.FeeSeparated (pr : Primitives) : Prop where
  treasury : ∀ market owner, pr.treasuryFeeAccount market owner ≠ FeeAccount
  seat : ∀ market epoch seat, pr.seatRewardAccount market epoch seat ≠ FeeAccount

theorem fits_empty {b : Book} {l : Ledger} (h : MarketOk b l) : Fits b {} where
  interpolants := h.fits_book.1
  totals := h.fits_book.2
  rations _ e _ := by simp
  quotes := by simp
  notional := by decide
  fees := by simp
  treasury := by decide

/-- A slot of a reachable market clears: each bid fill is within its reservation, the
settlement moves succeed, both sides add up to the volume and no intermediate overflows. -/
theorem clearSlot_never_fails (hrun : Run (FlowMeshState.perform pr) (.new cfg) calls s)
    (hnative : cfg.quote = NativeAsset) (htraders : ∀ c ∈ calls, c.trader ≠ some FeeAccount)
    (hsep : pr.FeeSeparated) (fee : Option FlowMeshFeeContext)
    (hfee : ∀ c ∈ fee, c.isCanonical pr = true) : ∃ r s', s.clearSlot pr fee = some (r, s') ∧
      (∀ e ∈ r.bidFill, 0 < e.2 → ∃ c, s.book.bids.find? e.1 = some c ∧
        quote e.2 r.price = some (e.2 * r.price) ∧ e.2 * r.price ≤ c.reserved) ∧
      (∃ settled, s.book.matchFills r.price r.bidFill r.askFill s.ledger = some settled) ∧
      (r.bidFill.map (·.2)).sum = r.volume ∧ (r.askFill.map (·.2)).sum = r.volume ∧
      Fits s.book r := by
  obtain ⟨hok, hquote⟩ := run_ok hrun
  have hready : ∀ c ∈ fee, FeeReady pr s.book c := by
    intro c hc
    refine ⟨hquote.trans hnative, hfee c hc, hsep.treasury _ _, fun seat _ => hsep.seat _ _ _, ?_⟩
    rintro x curve hx rfl
    have hnone : s.book.asks.find? FeeAccount = none := run_find?_none hrun htraders .ASK
    rw [hnone] at hx
    cases hx
  obtain ⟨r, b', l', hclear, hreport⟩ := clearSlot_ok hok.market hready
  refine ⟨r, { s with book := b', ledger := l' }, by rw [FlowMeshState.clearSlot, hclear]; rfl, ?_⟩
  rcases hreport with rfl | hr
  · refine ⟨by simp, ⟨s.ledger, ?_⟩, rfl, rfl, fits_empty hok.market⟩
    rw [Book.matchFills]
  · obtain ⟨settled, hmatch, _⟩ :=
      matchFills_ok hr.price r.bidFill r.askFill s.ledger (hok.market.backed hr)
    refine ⟨fun e he hpos => ?_, ⟨settled, hmatch⟩, hr.bidSum, hr.askSum, hok.market.fits hr⟩
    obtain ⟨c, hc, hle, _, hq⟩ := hok.market.fill_le hr.price hr.bids he hpos
    exact ⟨c, hc, hq, hle⟩

theorem sample_clearSlot : ∃ s r s',
    Run (FlowMeshState.perform Sample.primitives) (.new Sample.config) Sample.calls s ∧
      s.clearSlot Sample.primitives (some Sample.fee) = some (r, s') := by
  obtain ⟨s, hrun⟩ := Sample.reached
  obtain ⟨r, s', hclear, _⟩ := clearSlot_never_fails hrun rfl (by decide)
    ⟨fun _ _ => (by decide : (2 : Nat) ≠ FeeAccount),
      fun _ _ _ => (by decide : (1 : Nat) ≠ FeeAccount)⟩ (some Sample.fee) (by decide)
  exact ⟨s, r, s', hrun, hclear⟩

/-! ## Receipt ids -/

/-- After `n` requests the counter is at `n`, and every pending id was derived from a smaller
counter value. -/
structure Numbered (pr : Primitives) (n : Nat) (l : Ledger) : Prop where
  seq : l.nextReceiptSeq = UInt64.ofNat n
  ids : ∀ id r, l.requests.find? id = some r →
    ∃ p : ReceiptPreimage, id = pr.receiptHash p ∧ ∃ k < n, p.seq = UInt64.ofNat k

theorem Numbered.of_eq {n : Nat} {l l' : Ledger} (h : Numbered pr n l)
    (hseq : l'.nextReceiptSeq = l.nextReceiptSeq)
    (hreq : ∀ id r, l'.requests.find? id = some r → l.requests.find? id = some r) :
    Numbered pr n l' :=
  ⟨hseq.trans h.seq, fun id r hr => h.ids id r (hreq id r hr)⟩

/-- Until the counter wraps, a new receipt id is not pending. -/
theorem Numbered.fresh {n : Nat} {l : Ledger} (h : Numbered pr n l)
    (hinj : Function.Injective pr.receiptHash) (hn : n < 2 ^ 64) (x : AccountId) (a : AssetId)
    (d : Int) (dest : Uint256) :
    l.requests.find? (l.nextReceipt pr.receiptHash x a d dest).receiptId = none := by
  by_contra hsome
  obtain ⟨r, hr⟩ := ne_none_iff_exists'.mp hsome
  obtain ⟨p, hp, k, hk, hseq⟩ := h.ids _ r hr
  have heq : l.nextReceiptSeq = p.seq := congrArg ReceiptPreimage.seq (hinj hp)
  rw [h.seq, hseq] at heq
  have := congrArg UInt64.toNat heq
  rw [UInt64.toNat_ofNat_of_lt' hn, UInt64.toNat_ofNat_of_lt' (hk.trans hn)] at this
  omega

theorem perform_numbered {n : Nat} {t : FlowMeshState} {c : Call} (hok : StateOk s)
    (h : Numbered pr n s.ledger) (hp : s.perform pr c = some t) :
    Numbered pr (if c.isRequest then n + 1 else n) t.ledger := by
  have settled : ∀ {b' : Book} {l0 : Ledger}, Settled s.book b' s.ledger l0 →
      Numbered pr n l0 := fun hs =>
    h.of_eq (by rw [hs.rest]) fun id r hr => by rw [hs.rest] at hr; exact hr
  cases FlowMeshState.performed hp with
  | @credit _ _ _ _ l' _ hl' =>
    obtain ⟨_, _, ⟨m, hm, hl⟩, _⟩ := deposit_some hl'
    have hsame : l' = { s.ledger with balances := l'.balances, custody := l'.custody } := by
      rw [hl, hm.rest]
    exact h.of_eq (by rw [hsame]) fun id r hr => by rw [hsame] at hr; exact hr
  | submit hz => exact settled (submitCurve_settled hok.market hz).1
  | cancel hz => exact settled (cancelCurve_settled hok.market hz).1
  | clear hz =>
    obtain ⟨l0, hs, hl⟩ := clearSlot_settled hok.market hz
    simp only [hl]
    exact (settled hs).of_eq rfl fun id r hr => hr
  | request hz =>
    obtain ⟨_, _, _, _, hr, m, hm, hl⟩ := requestWithdrawal_some hz
    refine ⟨?_, fun id q hq => ?_⟩
    · simp only [hl, h.seq, isRequest, if_true]
      rw [UInt64.ofNat_add]
      rfl
    · have hold : ∀ q, s.ledger.requests.find? id = some q →
          ∃ p : ReceiptPreimage, id = pr.receiptHash p ∧ ∃ k < n + 1, p.seq = UInt64.ofNat k := by
        intro q hq
        obtain ⟨p, hp, k, hk, hseq⟩ := h.ids id q hq
        exact ⟨p, hp, k, by omega, hseq⟩
      simp only [hl, emplace] at hq
      split_ifs at hq
      · exact hold q hq
      · rw [find?_insert] at hq
        split_ifs at hq with hid
        · exact ⟨_, by rw [hid, hr]; rfl, n, Nat.lt_succ_self n, h.seq⟩
        · exact hold q hq
  | consume hl' =>
    obtain ⟨r, hr, _, _, hreq, _, hseq, _⟩ := consumeRequest_some hl'
    refine h.of_eq hseq fun id q hq => ?_
    rw [hreq, find?_erase] at hq
    split_ifs at hq
    exact hq

/-- Custody equals the liabilities in a run that does not wrap the receipt counter. -/
theorem run_solvent (hinj : Function.Injective pr.receiptHash)
    (hrun : Run (FlowMeshState.perform pr) (.new cfg) calls s)
    (hcount : calls.countP isRequest ≤ 2 ^ 64) :
    Numbered pr (calls.countP isRequest) s.ledger ∧ ∀ a, s.surplus a = 0 := by
  induction hrun with
  | start =>
    exact ⟨⟨rfl, fun id r hr => by cases hr⟩, fun a => rfl⟩
  | @next as s t c hprev hp ih =>
    rw [List.countP_cons] at hcount ⊢
    have hok := (run_ok hprev).1
    obtain ⟨hnum, hzero⟩ := ih (by omega)
    refine ⟨?_, fun a => ?_⟩
    · have := perform_numbered hok hnum hp
      cases hc : c.isRequest <;> simpa [hc] using this
    · rw [(perform_step hok hp).surplus, hzero, zero_add]
      cases c with
      | requestWithdrawal x b d dest capacity =>
        simp only [dropped]
        rw [if_pos (hnum.fresh hinj (by simp only [isRequest, if_true] at hcount; omega) x b d
          dest)]
      | _ => rfl

/-- Solvency and exact reservations, in a run with at most `2 ^ 64` withdrawal requests. -/
theorem run_solvent_and_reserved (hinj : Function.Injective pr.receiptHash)
    (hrun : Run (FlowMeshState.perform pr) (.new cfg) calls s)
    (hcount : calls.countP isRequest ≤ 2 ^ 64) :
    (∀ a, s.ledger.custodyOf a = s.ledger.held a + s.ledger.pendingWithdrawals a) ∧
      (∀ a, MoneyRange (s.ledger.custodyOf a) ∧ MoneyRange (s.ledger.held a) ∧
        MoneyRange (s.ledger.pendingWithdrawals a)) ∧
      ∀ x a, MoneyRange (s.ledger.available x a) ∧ MoneyRange (s.ledger.reserved x a) ∧
        s.ledger.reserved x a = s.book.reservedFor x a := by
  have hok := (run_ok hrun).1
  have hsolvent : ∀ a, s.ledger.custodyOf a = s.ledger.held a + s.ledger.pendingWithdrawals a := by
    intro a
    have := (run_solvent hinj hrun hcount).2 a
    unfold FlowMeshState.surplus liabilities at this
    omega
  have hheld := hok.held_nonneg
  have hpend := hok.pending_nonneg
  refine ⟨hsolvent, fun a => ?_, fun x a => ?_⟩
  · have := hsolvent a
    have := hok.custody a
    have := hheld a
    have := hpend a
    exact ⟨⟨by omega, by omega⟩, ⟨by omega, by omega⟩, ⟨by omega, by omega⟩⟩
  · have hnn := hok.market.nonneg x a
    have hle := hok.market.nonneg.le_held x a
    have hcap := hok.market.cap a
    refine ⟨⟨hnn.1, by omega⟩, ⟨hnn.2, by omega⟩, ?_⟩
    rw [hok.market.reconciled]
    exact sub_zero _

theorem sample_solvent : ∃ s,
    Run (FlowMeshState.perform Sample.primitives) (.new Sample.config) Sample.calls s ∧
      ∀ a, s.ledger.custodyOf a = s.ledger.held a + s.ledger.pendingWithdrawals a := by
  obtain ⟨s, hrun⟩ := Sample.reached
  exact ⟨s, hrun, (run_solvent_and_reserved Sample.receiptHash_injective hrun (by decide)).1⟩

end Runs

/-! ## A wrapped counter -/

namespace Wrap

/-- Deposit one unit and request it back at once. -/
theorem cycle (pr : Primitives) (hok : StateOk s) (a : AssetId) (outpoint : COutPoint)
    (hroom : s.ledger.custodyOf a < MAX_MONEY) (hnew : outpoint ∉ s.consumedDeposits) :
    ∃ t u, s.perform pr (.creditDeposit outpoint 1 a 1) = some t ∧
      t.perform pr (.requestWithdrawal 1 a 1 0 MAX_MONEY) = some u ∧
      u.consumedDeposits = insert outpoint s.consumedDeposits ∧
      u.ledger.nextReceiptSeq = s.ledger.nextReceiptSeq + 1 ∧
      u.ledger.slot = s.ledger.slot ∧ u.ledger.vault = s.ledger.vault ∧
      (∀ b, u.ledger.custodyOf b = s.ledger.custodyOf b + totalDelta a 1 b) ∧
      u.ledger.requests = s.ledger.requests.emplace
        (s.ledger.nextReceipt pr.receiptHash 1 a 1 0).receiptId
        (s.ledger.nextReceipt pr.receiptHash 1 a 1 0) ∧
      StateOk t ∧ t.ledger.requests = s.ledger.requests ∧
      t.ledger.nextReceipt pr.receiptHash 1 a 1 0 = s.ledger.nextReceipt pr.receiptHash 1 a 1 0 := by
  have hcov := hok.covered a
  have hpend := hok.pending_nonneg a
  have hav := hok.market.nonneg.le_held 1 a
  have hnn := hok.market.nonneg 1 a
  unfold liabilities at hcov
  obtain ⟨l1, hl1⟩ : ∃ l1, s.ledger.deposit 1 a 1 = some l1 := by
    rw [deposit, if_neg (by omega), if_neg (by omega)]
    exact ⟨_, rfl⟩
  obtain ⟨_, _, ⟨m, hm, hl⟩, hcus⟩ := deposit_some hl1
  have ht : s.perform pr (.creditDeposit outpoint 1 a 1) = some { s with
      ledger := l1
      consumedDeposits := insert outpoint s.consumedDeposits } := by
    simp only [FlowMeshState.perform, FlowMeshState.creditDeposit]
    rw [if_neg hnew, hl1]
    rfl
  have hsame : l1 = { s.ledger with balances := l1.balances, custody := l1.custody } := by
    rw [hl, hm.rest]
  have hav1 : 1 ≤ l1.available 1 a := by
    have := hm.available 1 a
    have heq : l1.available 1 a = m.available 1 a := by rw [hl]; rfl
    rw [heq, this, delta, if_pos ⟨rfl, rfl⟩]
    omega
  have hpend1 : l1.pendingWithdrawals a = s.ledger.pendingWithdrawals a := by rw [hsame]; rfl
  obtain ⟨x, hx⟩ := requestWithdrawal_of_le pr.receiptHash 0 one_pos hav1 (by omega)
    (show _ ≤ MAX_MONEY by omega) (le_refl _)
  have hreceipt : l1.nextReceipt pr.receiptHash 1 a 1 0 =
      s.ledger.nextReceipt pr.receiptHash 1 a 1 0 := by rw [hsame]; rfl
  obtain ⟨_, _, _, _, hr, m2, hm2, hl2⟩ := requestWithdrawal_some hx
  have hu : FlowMeshState.perform pr { s with
      ledger := l1
      consumedDeposits := insert outpoint s.consumedDeposits }
      (.requestWithdrawal 1 a 1 0 MAX_MONEY) = some { s with
        ledger := x.2
        consumedDeposits := insert outpoint s.consumedDeposits } := by
    simp [FlowMeshState.perform, FlowMeshState.requestWithdrawal, hx]
  have hcus2 : ∀ t, x.2.custodyOf t = l1.custodyOf t := fun t => by rw [hl2, hm2.rest]; rfl
  refine ⟨_, _, ht, hu, rfl, ?_, ?_, ?_, fun t => (hcus2 t).trans (hcus t), ?_,
    (perform_step hok ht).ok hok, by rw [hsame], hreceipt⟩
  · simp only [hl2]
    rw [hsame]
  · rw [hl2, hm2.rest, hsame]
  · rw [hl2, hm2.rest, hsame]
  · rw [← hreceipt, ← hr, hl2]
    rw [hsame]

variable (pr : Primitives) (cfg : MarketConfig)

/-- The first receipt: slot and counter both zero. -/
def firstReceipt : Uint256 := pr.receiptHash ⟨0, 0, 1, 0, 1, 0, cfg.vault⟩

/-- The state after `n` cycles, each in an asset of its own: the first request is pending. -/
structure Pumped (n : Nat) (s : FlowMeshState) : Prop where
  run : ∃ calls, Run (FlowMeshState.perform pr) (.new cfg) calls s
  seq : s.ledger.nextReceiptSeq = UInt64.ofNat n
  slot : s.ledger.slot = 0
  vault : s.ledger.vault = cfg.vault
  untouched : ∀ a, n ≤ a → s.ledger.custodyOf a = 0
  first : s.ledger.custodyOf 0 ≤ 1
  pending : 0 < n → s.ledger.requests.find? (firstReceipt pr cfg) ≠ none
  outpoints : ∀ o ∈ s.consumedDeposits, o.hash < n

theorem find?_emplace_ne_none {m : OrderedMap Uint256 WithdrawalReceipt} {k k' : Uint256}
    {v : WithdrawalReceipt} (h : m.find? k' ≠ none ∨ k' = k) : (m.emplace k v).find? k' ≠ none := by
  unfold emplace contains
  split_ifs with hc
  · rcases h with h | rfl
    · exact h
    · exact isSome_iff_ne_none.mp hc
  · rw [find?_insert]
    split_ifs with hk
    · simp
    · exact h.resolve_right hk

theorem pumped (n : Nat) : ∃ s, Pumped pr cfg n s := by
  induction n with
  | zero =>
    exact ⟨.new cfg, ⟨[], .start⟩, rfl, rfl, rfl, fun _ _ => rfl, (by decide : (0 : Int) ≤ 1),
      fun h => absurd h (lt_irrefl 0), fun o ho => by simp [FlowMeshState.new] at ho⟩
  | succ n ih =>
    obtain ⟨s, hs⟩ := ih
    obtain ⟨calls, hrun⟩ := hs.run
    obtain ⟨t, u, ht, hu, hcons, hseq, hslot, hvault, hcus, hreq, _, _, _⟩ :=
      cycle pr (run_ok hrun).1 n ⟨n, 0⟩ (by rw [hs.untouched n (le_refl n)]; decide)
        fun ho => absurd (hs.outpoints _ ho) (lt_irrefl n)
    refine ⟨u, ⟨_, (hrun.next ht).next hu⟩, ?_, hslot.trans hs.slot, hvault.trans hs.vault,
      fun a ha => ?_, ?_, fun _ => ?_, fun o ho => ?_⟩
    · rw [hseq, hs.seq, UInt64.ofNat_add]
      rfl
    · rw [hcus, hs.untouched a (by omega), totalDelta, if_neg (Nat.ne_of_gt ha)]
      rfl
    · have := hs.first
      rw [hcus, totalDelta]
      by_cases hn : 0 = n
      · rw [if_pos hn, hs.untouched 0 (by omega)]
        decide
      · rw [if_neg hn]
        omega
    · rw [hreq]
      refine find?_emplace_ne_none ?_
      rcases Nat.eq_zero_or_pos n with rfl | hpos
      · refine .inr ?_
        simp only [firstReceipt, nextReceipt, hs.seq, hs.slot, hs.vault]
        rfl
      · exact .inl (hs.pending hpos)
    · rw [hcons, Finset.mem_insert] at ho
      rcases ho with rfl | ho
      · exact Nat.lt_succ_self n
      · exact (hs.outpoints o ho).trans (Nat.lt_succ_self n)

/-- After `2 ^ 64` requests the first receipt id comes back and a liability is lost. -/
theorem surplus_pos : ∃ calls s, Run (FlowMeshState.perform pr) (.new cfg) calls s ∧
    0 < s.surplus 0 := by
  obtain ⟨s, hs⟩ := pumped pr cfg (2 ^ 64)
  obtain ⟨calls, hrun⟩ := hs.run
  have hok := (run_ok hrun).1
  obtain ⟨t, u, ht, hu, _, _, _, _, _, _, htok, hreq, hreceipt⟩ := cycle pr hok 0 ⟨2 ^ 64, 0⟩
    (by have := hs.first; have := MAX_MONEY_eq; omega)
    fun ho => absurd (hs.outpoints _ ho) (lt_irrefl _)
  refine ⟨_, u, (hrun.next ht).next hu, ?_⟩
  have hseq : s.ledger.nextReceiptSeq = 0 := by rw [hs.seq]; rfl
  have hid : (t.ledger.nextReceipt pr.receiptHash 1 0 1 0).receiptId = firstReceipt pr cfg := by
    rw [hreceipt]
    simp [firstReceipt, nextReceipt, hseq, hs.slot, hs.vault]
  have hstep := (perform_step htok hu).surplus 0
  have hpend := hs.pending (by decide)
  rw [← hid, ← hreq] at hpend
  simp only [dropped, hpend, if_false, totalDelta, if_true] at hstep
  have hcov := htok.covered 0
  unfold FlowMeshState.surplus at *
  omega

/-- No receipt hash and no market makes every run solvent. -/
theorem insolvent_after_wrap : ¬ ∃ pr cfg, ∀ calls s,
    Run (FlowMeshState.perform pr) (.new cfg) calls s →
      ∀ a, s.ledger.custodyOf a = s.ledger.held a + s.ledger.pendingWithdrawals a := by
  rintro ⟨pr, cfg, hall⟩
  obtain ⟨calls, s, hrun, hpos⟩ := surplus_pos pr cfg
  have := hall calls s hrun 0
  unfold FlowMeshState.surplus liabilities at hpos
  omega

end Wrap

end B3Coin.FlowMesh
