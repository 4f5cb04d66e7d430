import B3Coin.FlowMesh.Ledger
import Mathlib.Tactic.Linarith
import Mathlib.Tactic.Tauto

/-!
# What the ledger operations do to balances

An operation changes available and reserved balances at a few accounts and with
them the total of an asset. `Changed` says by how much, changes compose by
addition, and a change that keeps every total is `Moved`. Each operation has one
lemma for what a success did and, where the bounds rule a refusal out, one that
says so.
-/
namespace B3Coin.FlowMesh

open Option OrderedMap

/-- A change at one account and asset. -/
def delta (account : AccountId) (asset : AssetId) (amount : Int) : AccountId → AssetId → Int :=
  fun a s => if a = account ∧ s = asset then amount else 0

def totalDelta (asset : AssetId) (amount : Int) : AssetId → Int :=
  fun s => if s = asset then amount else 0

section

variable (a : AccountId) (s : AssetId) (x y : Int)

theorem delta_zero : delta a s 0 = 0 := by
  funext a' s'
  simp [delta]

theorem delta_sub : delta a s (x - y) = delta a s x - delta a s y := by
  funext a' s'
  simp only [delta, Pi.sub_apply]
  split_ifs <;> simp

theorem delta_neg : delta a s (-x) = -delta a s x := by
  funext a' s'
  simp only [delta, Pi.neg_apply]
  split_ifs <;> simp

theorem totalDelta_zero : totalDelta s 0 = 0 := by
  funext s'
  simp [totalDelta]

theorem totalDelta_add : totalDelta s x + totalDelta s y = totalDelta s (x + y) := by
  funext s'
  simp only [totalDelta, Pi.add_apply]
  split_ifs <;> simp

end

namespace Ledger

variable {l l' l'' : Ledger}

/-! ## Reading after writing -/

theorem balance_put (l : Ledger) (a a' : AccountId) (s s' : AssetId) (b : Balance) :
    (l.put a s b).balance a' s' = if a' = a ∧ s' = s then b else l.balance a' s' := by
  unfold balance entry? put
  rw [find?_insert]
  simp only [EmbeddingLike.apply_eq_iff_eq, Prod.mk.injEq]
  split_ifs <;> rfl

variable {a : AccountId}

theorem entry?_eq_some {s : AssetId} {b : Balance} (h : l.entry? a s = some b) :
    l.balance a s = b := by
  rw [balance, h, getD_some]

section

variable (l : Ledger) (a : AccountId) (s s' : AssetId)

theorem balance_prune (a' : AccountId) (s s' : AssetId) :
    (l.prune a s).balance a' s' = l.balance a' s' := by
  unfold prune
  split_ifs with h
  · unfold balance entry?
    rw [find?_erase]
    simp only [EmbeddingLike.apply_eq_iff_eq, Prod.mk.injEq]
    split_ifs with hk
    · obtain ⟨rfl, rfl⟩ := hk
      rw [show l.balances.find? (toLex (a', s')) = some {} from h]
      rfl
    · rfl
  · rfl

theorem share_toLex (a : AccountId) (b : Balance) :
    share s' (toLex (a, s)) b = if s = s' then b.available + b.reserved else 0 := rfl

theorem at?_share : l.balances.at? (share s') (toLex (a, s)) =
      if s = s' then l.available a s + l.reserved a s else 0 := by
  unfold at? available reserved balance entry?
  cases l.balances.find? (toLex (a, s)) with
  | none => simp
  | some b => simp [share_toLex]

theorem held_put (b : Balance) : (l.put a s b).held s' = l.held s' +
      if s = s' then b.available + b.reserved - (l.available a s + l.reserved a s) else 0 := by
  unfold held put
  rw [total_insert, at?_share]
  rw [share_toLex]
  split_ifs <;> ring

theorem held_prune : (l.prune a s).held s' = l.held s' := by
  unfold prune
  split_ifs with h
  · unfold held
    rw [total_erase, at?_share]
    have hb := entry?_eq_some h
    simp [available, reserved, hb]
  · rfl

end

/-! ## Non-negative balances bound each other -/

def Nonneg (l : Ledger) : Prop := ∀ a s, 0 ≤ l.available a s ∧ 0 ≤ l.reserved a s

theorem Nonneg.share (h : l.Nonneg) (s : AssetId) :
    ∀ e ∈ l.balances.entries, 0 ≤ share s e.1 e.2 := by
  rintro ⟨k, b⟩ he
  have hentry : l.balance (ofLex k).1 (ofLex k).2 = b :=
    entry?_eq_some (find?_eq_some.mpr he)
  have hb := h (ofLex k).1 (ofLex k).2
  simp only [available, reserved, hentry] at hb
  unfold Ledger.share
  split_ifs
  · exact add_nonneg hb.1 hb.2
  · exact le_refl 0

/-- The balances of distinct accounts add up to at most the total. -/
theorem Nonneg.sum_le_held (h : l.Nonneg) (as : List AccountId) (hnd : as.Nodup) (s : AssetId) :
    (as.map fun a => l.available a s + l.reserved a s).sum ≤ l.held s := by
  have hkeys : (as.map fun a => (toLex (a, s) : BalanceKey)).Nodup :=
    hnd.map fun a b hab => (Prod.mk.inj (toLex.injective hab)).1
  have := sum_at?_le_total _ hkeys l.balances (h.share s)
  simpa [Function.comp_def, at?_share, held] using this

theorem Nonneg.le_held (h : l.Nonneg) (a : AccountId) (s : AssetId) :
    l.available a s + l.reserved a s ≤ l.held s := by
  simpa using h.sum_le_held [a] (by simp) s

theorem Nonneg.pair_le_held (h : l.Nonneg) {b : AccountId} (hab : a ≠ b) (s : AssetId) :
    l.available a s + l.reserved a s + (l.available b s + l.reserved b s) ≤ l.held s := by
  simpa using h.sum_le_held [a, b] (by simpa using hab) s

/-! ## Changes -/

/-- `l'` is `l` with its balances changed by `dA` and `dR`, and its totals by `dH`. -/
structure Changed (l l' : Ledger) (dA dR : AccountId → AssetId → Int) (dH : AssetId → Int) :
    Prop where
  rest : l' = { l with balances := l'.balances }
  available : ∀ a s, l'.available a s = l.available a s + dA a s
  reserved : ∀ a s, l'.reserved a s = l.reserved a s + dR a s
  held : ∀ s, l'.held s = l.held s + dH s

/-- A change that keeps every total: value only moves inside the ledger. -/
abbrev Moved (l l' : Ledger) (dA dR : AccountId → AssetId → Int) : Prop := Changed l l' dA dR 0

variable {dA dR dA' dR' : AccountId → AssetId → Int} {dH dH' : AssetId → Int}

theorem Moved.refl (l : Ledger) : Moved l l 0 0 :=
  ⟨rfl, fun _ _ => (add_zero _).symm, fun _ _ => (add_zero _).symm, fun _ => (add_zero _).symm⟩

theorem Changed.trans (h : Changed l l' dA dR dH) (h' : Changed l' l'' dA' dR' dH') :
    Changed l l'' (dA + dA') (dR + dR') (dH + dH') where
  rest := by rw [h'.rest, h.rest]
  available a s := by rw [h'.available, h.available, add_assoc]; rfl
  reserved a s := by rw [h'.reserved, h.reserved, add_assoc]; rfl
  held s := by rw [h'.held, h.held, add_assoc]; rfl

theorem Changed.congr (h : Changed l l' dA dR dH) (hA : dA = dA') (hR : dR = dR')
    (hH : dH = dH') : Changed l l' dA' dR' dH' := hA ▸ hR ▸ hH ▸ h

theorem changed_put {s : AssetId} {x y : Int} {b : Balance}
    (hA : b.available = l.available a s + x) (hR : b.reserved = l.reserved a s + y) :
    Changed l (l.put a s b) (delta a s x) (delta a s y) (totalDelta s (x + y)) where
  rest := rfl
  available a' s' := by
    unfold Ledger.available delta
    rw [balance_put]
    split_ifs with h
    · obtain ⟨rfl, rfl⟩ := h
      exact hA
    · exact (add_zero _).symm
  reserved a' s' := by
    unfold Ledger.reserved delta
    rw [balance_put]
    split_ifs with h
    · obtain ⟨rfl, rfl⟩ := h
      exact hR
    · exact (add_zero _).symm
  held s' := by
    rw [held_put]
    unfold totalDelta
    by_cases h : s = s'
    · rw [if_pos h, if_pos h.symm, hA, hR]
      ring
    · rw [if_neg h, if_neg (Ne.symm h)]

section

variable (l : Ledger) (a : AccountId) (s : AssetId)

theorem changed_credit (x : Int) : Changed l (l.credit a s x) (delta a s x) 0 (totalDelta s x) := by
  refine Changed.congr (changed_put (x := x) (y := 0) ?_ ?_) rfl (delta_zero a s) (by rw [add_zero])
  · rfl
  · exact (add_zero _).symm

theorem changed_prune : Moved l (l.prune a s) 0 0 where
  rest := by unfold prune; split_ifs <;> rfl
  available a' s' := by simp [Ledger.available, balance_prune]
  reserved a' s' := by simp [Ledger.reserved, balance_prune]
  held s' := by simp [held_prune]

end

/-! ## The operations -/

variable {a src dst : AccountId} {s : AssetId} {x : Int}

theorem entry?_of_pos (h : 0 < l.available a s ∨ 0 < l.reserved a s) :
    l.entry? a s = some (l.balance a s) := by
  cases he : l.entry? a s with
  | none => simp [Ledger.available, Ledger.reserved, balance, he] at h
  | some b => rw [entry?_eq_some he]

/-- What follows the look-up of an account in an operation that succeeded. -/
theorem of_entry {β : Type} {p : Prop} [Decidable p] {k : Balance → Option β} {y : β}
    (h : (if p then none else match l.entry? a s with | none => none | some b => k b) = some y) :
    ¬ p ∧ k (l.balance a s) = some y := by
  rw [ite_none_left_eq_some] at h
  obtain ⟨hp, h⟩ := h
  cases he : l.entry? a s with
  | none => simp [he] at h
  | some b =>
    rw [he] at h
    exact ⟨hp, entry?_eq_some he ▸ h⟩

theorem reserve_some (h : l.reserve a s x = some l') :
    0 < x ∧ x ≤ l.available a s ∧ Moved l l' (delta a s (-x)) (delta a s x) := by
  obtain ⟨hx, h⟩ := of_entry h
  simp only [ite_none_left_eq_some, some.injEq, not_lt] at h
  obtain ⟨hle, rfl⟩ := h
  refine ⟨not_le.mp hx, hle, (changed_put (x := -x) (y := x) (sub_eq_add_neg _ _) rfl).congr rfl rfl ?_⟩
  rw [neg_add_cancel, totalDelta_zero]

theorem release_some (h : l.release a s x = some l') :
    0 < x ∧ x ≤ l.reserved a s ∧ Moved l l' (delta a s x) (delta a s (-x)) := by
  obtain ⟨hx, h⟩ := of_entry h
  simp only [ite_none_left_eq_some, some.injEq, not_lt] at h
  obtain ⟨hle, rfl⟩ := h
  refine ⟨not_le.mp hx, hle, (changed_put (x := x) (y := -x) rfl (sub_eq_add_neg _ _)).congr rfl rfl ?_⟩
  rw [add_neg_cancel, totalDelta_zero]

theorem release_of_le (hx : 0 < x) (hle : x ≤ l.reserved a s) : ∃ l', l.release a s x = some l' := by
  rw [release, if_neg (not_le.mpr hx), entry?_of_pos (.inr (hx.trans_le hle))]
  exact ⟨_, if_neg (not_lt.mpr hle)⟩

/-- What is taken from one account is credited to the other, and the emptied entry goes. -/
theorem moved_of_debit {m : Ledger} (h : Changed l m dA dR (totalDelta s (-x))) :
    Moved l ((m.credit dst s x).prune src s) (dA + delta dst s x) dR := by
  refine ((h.trans (changed_credit _ dst s x)).trans (changed_prune _ src s)).congr ?_ ?_ ?_
  · rw [add_zero]
  · rw [add_zero, add_zero]
  · rw [totalDelta_add, neg_add_cancel, totalDelta_zero, add_zero]

theorem changed_debit (l : Ledger) (a : AccountId) (s : AssetId) (x : Int) :
    Changed l (l.put a s { l.balance a s with available := (l.balance a s).available - x })
      (delta a s (-x)) 0 (totalDelta s (-x)) := by
  refine (changed_put (x := -x) (y := 0) ?_ ?_).congr rfl (delta_zero a s) (by rw [add_zero])
  · exact sub_eq_add_neg _ _
  · exact (add_zero _).symm

theorem moveReservedToAvailable_some (h : l.moveReservedToAvailable src dst s x = some l') :
    0 < x ∧ x ≤ l.reserved src s ∧ Moved l l' (delta dst s x) (delta src s (-x)) := by
  obtain ⟨hx, h⟩ := of_entry h
  simp only [ite_none_left_eq_some, some.injEq, not_lt] at h
  obtain ⟨hle, _, rfl⟩ := h
  refine ⟨not_le.mp hx, hle, (moved_of_debit ((changed_put (x := 0) (y := -x) ?_ ?_).congr
    (delta_zero src s) rfl (by rw [zero_add]))).congr (zero_add _) rfl rfl⟩
  · exact (add_zero _).symm
  · exact sub_eq_add_neg _ _

theorem moveAvailableToAvailable_some (h : l.moveAvailableToAvailable src dst s x = some l') :
    0 < x ∧ src ≠ dst ∧ x ≤ l.available src s ∧
      Moved l l' (delta src s (-x) + delta dst s x) 0 := by
  obtain ⟨hx, h⟩ := of_entry h
  simp only [ite_none_left_eq_some, some.injEq, not_lt] at h
  obtain ⟨hle, _, rfl⟩ := h
  rw [not_or, not_le] at hx
  exact ⟨hx.1, hx.2, hle, moved_of_debit (changed_debit l src s x)⟩

section Room

variable (src dst : AccountId) (hnn : l.Nonneg) (hcap : l.held s ≤ MAX_MONEY)

include hnn hcap

theorem room (hne : src ≠ dst) (hle : x ≤ l.available src s + l.reserved src s) :
    ¬ x > MAX_MONEY - l.available dst s := by
  have := hnn.pair_le_held hne s
  have := hnn dst s
  omega

/-- Within the monetary bound a move of reserved funds cannot overflow its destination. -/
theorem moveReservedToAvailable_of_le (hx : 0 < x) (hle : x ≤ l.reserved src s) :
    ∃ l', l.moveReservedToAvailable src dst s x = some l' := by
  have hroom : ¬ (src ≠ dst ∧ x > MAX_MONEY - l.available dst s) := fun h =>
    room src dst hnn hcap h.1 (hle.trans (le_add_of_nonneg_left (hnn src s).1)) h.2
  rw [moveReservedToAvailable, if_neg (not_le.mpr hx), entry?_of_pos (.inr (hx.trans_le hle))]
  exact ⟨_, (if_neg (not_lt.mpr hle)).trans (if_neg hroom)⟩

theorem moveAvailableToAvailable_of_le (hx : 0 < x) (hne : src ≠ dst)
    (hle : x ≤ l.available src s) : ∃ l', l.moveAvailableToAvailable src dst s x = some l' := by
  have hroom := room src dst hnn hcap hne (hle.trans (le_add_of_nonneg_right (hnn src s).2))
  rw [moveAvailableToAvailable, if_neg (not_or.mpr ⟨not_le.mpr hx, hne⟩),
    entry?_of_pos (.inl (hx.trans_le hle))]
  exact ⟨_, (if_neg (not_lt.mpr hle)).trans (if_neg hroom)⟩

end Room

/-! ## Custody and withdrawals -/

/-- A deposit credits the account and the custody total alike. -/
theorem deposit_some (h : l.deposit a s x = some l') : 0 < x ∧ l.custodyOf s + x ≤ MAX_MONEY ∧
      (∃ m, Changed l m (delta a s x) 0 (totalDelta s x) ∧ l' = { m with custody := l'.custody }) ∧
      ∀ s', l'.custodyOf s' = l.custodyOf s' + totalDelta s x s' := by
  unfold deposit at h
  simp only [ite_none_left_eq_some, some.injEq] at h
  obtain ⟨hx, hroom, rfl⟩ := h
  refine ⟨by omega, by omega, ⟨l.credit a s x, changed_credit l a s x, rfl⟩, fun s' => ?_⟩
  unfold custodyOf totalDelta
  simp only [find?_insert]
  by_cases hs : s' = s
  · simp [hs]
  · simp [hs]

variable {r : WithdrawalReceipt}

theorem requestWithdrawal_some {hash : ReceiptPreimage → Uint256} {dest : Uint256} {capacity : Int}
    (h : l.requestWithdrawal hash a s x dest capacity = some (r, l')) :
    0 < x ∧ x ≤ l.available a s ∧ l.pendingWithdrawals s + x ≤ capacity ∧ capacity ≤ MAX_MONEY ∧
      r = l.nextReceipt hash a s x dest ∧
      ∃ m, Changed l m (delta a s (-x)) 0 (totalDelta s (-x)) ∧
        l' = { m with
          nextReceiptSeq := l.nextReceiptSeq + 1
          requests := l.requests.emplace r.receiptId r } := by
  obtain ⟨hx, h⟩ := of_entry h
  simp only [ite_none_left_eq_some, some.injEq, Prod.mk.injEq, not_lt] at h
  obtain ⟨hle, hcap, rfl, rfl⟩ := h
  refine ⟨by omega, hle, by omega, by omega, rfl, _, ?_, rfl⟩
  refine ((changed_debit l a s x).trans (changed_prune _ a s)).congr ?_ ?_ ?_
  · rw [add_zero]
  · rw [add_zero]
  · rw [add_zero]

theorem requestWithdrawal_of_le (hash : ReceiptPreimage → Uint256) (dest : Uint256)
    {capacity : Int} (hx : 0 < x) (hav : x ≤ l.available a s) (hp : 0 ≤ l.pendingWithdrawals s)
    (hfits : l.pendingWithdrawals s + x ≤ capacity) (hcap : capacity ≤ MAX_MONEY) :
    ∃ y, l.requestWithdrawal hash a s x dest capacity = some y := by
  rw [requestWithdrawal, if_neg (by omega), entry?_of_pos (.inl (hx.trans_le hav))]
  exact ⟨_, (if_neg (not_lt.mpr hav)).trans (if_neg (by omega))⟩

variable {fact : WithdrawalSettlementFact}

/-- A settlement retires a pending request and its custody together. -/
theorem consumeRequest_some (h : l.consumeRequest fact = some l') :
    ∃ r, l.requests.find? fact.receipt.receiptId = some r ∧ r.amount ≤ l.custodyOf r.asset ∧
      l'.balances = l.balances ∧ l'.requests = l.requests.erase fact.receipt.receiptId ∧
      l'.slot = l.slot ∧ l'.nextReceiptSeq = l.nextReceiptSeq ∧ l'.vault = l.vault ∧
      ∀ s, l'.custodyOf s = l.custodyOf s - totalDelta r.asset r.amount s := by
  unfold consumeRequest at h
  rw [ite_none_left_eq_some] at h
  obtain ⟨_, h⟩ := h
  cases hr : l.requests.find? fact.receipt.receiptId with
  | none => simp [hr] at h
  | some r =>
    simp only [hr, ite_none_left_eq_some, not_or, not_not] at h
    obtain ⟨⟨hid, _⟩, h⟩ := h
    rw [hid, consumeRequestId, hr] at h
    cases hc : l.custody.find? r.asset with
    | none => simp [hc] at h
    | some c =>
      have hcustody : l.custodyOf r.asset = c := by rw [custodyOf, hc]; rfl
      simp only [hc, ite_none_left_eq_some, some.injEq] at h
      obtain ⟨hle, rfl⟩ := h
      refine ⟨r, rfl, by omega, rfl, rfl, rfl, rfl, rfl, fun s => ?_⟩
      unfold totalDelta custodyOf
      by_cases hz : c - r.amount = 0
      · simp only [hz, ↓reduceIte, find?_erase]
        by_cases hs : s = r.asset
        · simp only [hs, ↓reduceIte, getD_none, hc, getD_some]
          omega
        · simp [hs]
      · simp only [hz, ↓reduceIte, find?_insert]
        by_cases hs : s = r.asset
        · simp [hs, hc]
        · simp [hs]

theorem consumeRequest_matches (h : l.consumeRequest fact = some l')
    (hr : l.requests.find? fact.receipt.receiptId = some r) :
    r.receiptId = fact.receipt.receiptId ∧ r.asset = fact.receipt.asset ∧
      r.amount = fact.receipt.amount := by
  unfold consumeRequest at h
  simp only [hr, ite_none_left_eq_some, not_or, not_not] at h
  exact ⟨h.2.1.1, h.2.1.2.1, h.2.1.2.2.1⟩

/-- A request under a new id adds to what is pending; one under a pending id adds nothing. -/
theorem pendingWithdrawals_emplace (l : Ledger) (id : Uint256) (r : WithdrawalReceipt)
    (s : AssetId) : ({ l with requests := l.requests.emplace id r } : Ledger).pendingWithdrawals s =
      l.pendingWithdrawals s +
        if l.requests.find? id = none then totalDelta r.asset r.amount s else 0 := by
  unfold pendingWithdrawals emplace contains
  cases hf : l.requests.find? id with
  | none =>
    simp [total_insert, at?, hf, totalDelta, eq_comm]
  | some v => simp

theorem pendingWithdrawals_erase {id : Uint256} (hf : l.requests.find? id = some r) (s : AssetId) :
    (l.requests.erase id).total (fun _ r => if r.asset = s then r.amount else 0) =
      l.pendingWithdrawals s - totalDelta r.asset r.amount s := by
  rw [total_erase]
  simp [at?, hf, totalDelta, pendingWithdrawals, eq_comm]

end Ledger

end B3Coin.FlowMesh
