import B3Coin.FlowMesh.Batch
import Mathlib.Data.Finset.Sort

/-!
# Snapshots and the state root

The serialization of `flowmesh/ledger.h`, `flowmesh/clearing.h` and
`flowmesh/state.h`, and the state root that is hashed from its own layout: counts
are 64-bit words, and pending requests are hashed without their map keys. The hash
is a parameter with 256-bit values, over the bytes it is fed.
-/
namespace B3Coin.FlowMesh

open Codec Ledger List Sample

def LEDGER_SNAPSHOT_MAX_ENTRIES : Nat := 2 ^ 22
def BOOK_SNAPSHOT_MAX_CURVES : Nat := 2 ^ 22
def STATE_SNAPSHOT_MAX_SIGNERS : Nat := 2 ^ 22
def STATE_SNAPSHOT_MAX_DEPOSITS : Nat := 2 ^ 22

/-- A list behind a 64-bit count. -/
def counted64 {α : Type} (c : Codec α) : Codec (List α) := counted (natLE 8) c

section

variable {α : Type} {limit : Nat} {c : Codec α} {l : List α}

theorem counted64_valid (hlimit : limit < 2 ^ 64) (h : (boundedVector limit c).valid l) :
    (counted64 c).valid l :=
  ⟨natLE_valid.mpr (h.1.2.trans_lt hlimit), h.2⟩

theorem boundedVector_valid (hlimit : limit ≤ MAX_SIZE) (hlen : l.length ≤ limit)
    (hl : ∀ a ∈ l, c.valid a) : (boundedVector limit c).valid l := by
  have hmax : MAX_SIZE < 2 ^ 64 := by decide
  exact ⟨⟨⟨(hlen.trans hlimit).trans_lt hmax, hlen.trans hlimit⟩, hlen⟩, hl⟩

end

/-! ## The ledger -/

def balanceCodec : Codec Balance :=
  (int64.pair int64).map (fun x => ⟨x.1, x.2⟩) (fun b => (b.available, b.reserved)) fun _ _ => rfl

def balanceKeyCodec : Codec BalanceKey := (uint256.pair uint256).map toLex ofLex fun _ _ => rfl

def receiptCodec : Codec WithdrawalReceipt :=
  (uint256.pair (uint256.pair (int64.pair (uint256.pair (u64.pair uint256))))).map
    (fun (receiptId, asset, amount, destination, finalizedSlot, vaultCommitment) =>
      ⟨receiptId, asset, amount, destination, finalizedSlot, vaultCommitment⟩)
    (fun r => (r.receiptId, r.asset, r.amount, r.destination, r.finalizedSlot, r.vaultCommitment))
    fun _ _ => rfl

/-- `ReadBoundedMap`. -/
def boundedMap {κ ν : Type} [LinearOrder κ] (key : Codec κ) (value : Codec ν) :
    Codec (OrderedMap κ ν) :=
  orderedMap (boundedVector LEDGER_SNAPSHOT_MAX_ENTRIES (key.pair value))

/-- `Ledger::Serialize`. A request is filed under any key: it is not compared with the id. -/
def ledgerCodec : Codec Ledger :=
  (uint256.pair (u64.pair (u64.pair ((boundedMap balanceKeyCodec balanceCodec).pair
    ((boundedMap uint256 int64).pair (boundedMap uint256 receiptCodec)))))).map
    (fun (vault, slot, seq, balances, custody, requests) =>
      ⟨vault, slot, seq, balances, custody, requests⟩)
    (fun l => (l.vault, l.slot, l.nextReceiptSeq, l.balances, l.custody, l.requests))
    fun _ _ => rfl

/-! ## The book -/

def Side.toByte : Side → UInt8
  | .BID => 0
  | .ASK => 1

def sideCodec : Codec Side :=
  (u8.guard (· ≤ 1)).map (fun b => if b = 0 then .BID else .ASK) Side.toByte fun b hb => by
    by_cases h : b = 0
    · simp [h, Side.toByte]
    · have h1 : b.toNat ≤ 1 := UInt8.le_iff_toNat_le.mp hb.2
      have h0 : b.toNat ≠ 0 := fun h' => h (UInt8.toNat_inj.mp h')
      rw [if_neg h]
      exact UInt8.toNat_inj.mp (show 1 = b.toNat by omega)

/-- An entry of the source's map over sides and accounts. -/
abbrev BookEntry := Side × AccountId × Curve

/-- The order of `std::pair<Side, AccountId>`. -/
def bookLt (a b : BookEntry) : Prop := a.1.toByte < b.1.toByte ∨ (a.1 = b.1 ∧ a.2.1 < b.2.1)

instance : DecidableRel bookLt := fun _ _ => inferInstanceAs (Decidable (_ ∨ _))

def curveCodec (maxK : Nat) : Codec Curve :=
  ((boundedVector (min maxK HARD_MAX_CURVE_POINTS) breakpointCodec).pair (int64.pair int64)).map
    (fun x => ⟨x.1, x.2.1, x.2.2⟩) (fun c => (c.points, c.filled, c.reserved)) fun _ _ => rfl

/-- A decoded curve passes the check of a submission, with amounts in range. -/
def BookEntry.ok (maxK : Nat) (e : BookEntry) : Bool :=
  curveIsValid maxK e.1 e.2.2.points && decide (MoneyRange e.2.2.filled) &&
    decide (MoneyRange e.2.2.reserved)

/-- The entries of one side. -/
def sideEntries (side : Side) (l : List BookEntry) : OrderedMap AccountId Curve :=
  if h : ((l.filter (·.1 = side)).map (·.2)).Pairwise fun a b => a.1 < b.1 then ⟨_, h⟩ else ∅

/-- The book as one list: all bids, then all asks, each by account. -/
def Book.curves (b : Book) : List BookEntry :=
  b.bids.entries.map (Side.BID, ·) ++ b.asks.entries.map (Side.ASK, ·)

variable {l : List BookEntry}

theorem sideEntries_entries (side : Side) (h : l.Pairwise bookLt) :
    (sideEntries side l).entries = (l.filter (·.1 = side)).map (·.2) := by
  have hsorted : ((l.filter (·.1 = side)).map (·.2)).Pairwise fun a b => a.1 < b.1 := by
    rw [pairwise_map, pairwise_filter]
    refine h.imp fun {a b} hab ha hb => ?_
    rcases hab with hside | ⟨_, hlt⟩
    · simp only [decide_eq_true_eq] at ha hb
      rw [ha, hb] at hside
      exact absurd hside (UInt8.lt_irrefl _)
    · exact hlt
  rw [sideEntries, dif_pos hsorted]

/-- A list in key order is all its bids, then all its asks. -/
theorem bids_append_asks (h : l.Pairwise bookLt) :
    l.filter (·.1 = .BID) ++ l.filter (·.1 = .ASK) = l := by
  induction l with
  | nil => rfl
  | cons e l ih =>
    obtain ⟨hhead, htail⟩ := pairwise_cons.mp h
    obtain ⟨side, x⟩ := e
    cases side with
    | BID => simpa using ih htail
    | ASK =>
      have hasks : ∀ b ∈ l, b.1 = .ASK := by
        intro b hb
        rcases hhead b hb with hlt | ⟨heq, _⟩
        · cases hside : b.1 with
          | ASK => rfl
          | BID =>
            rw [hside] at hlt
            exact absurd hlt (by decide : ¬ Side.ASK.toByte < Side.BID.toByte)
        · exact heq.symm
      have hbids : l.filter (·.1 = .BID) = [] := by
        rw [filter_eq_nil_iff]
        intro b hb
        simp [hasks b hb]
      rw [hbids, nil_append] at ih
      simp [hbids, ih htail]

/-- The decoded book has the fixed market of the object it is read into. -/
def Book.ofCurves (cfg : MarketConfig) (l : List BookEntry) : Book where
  base := cfg.base
  quote := cfg.quote
  maxK := cfg.maxK
  distinct := cfg.distinct
  maxK_pos := cfg.maxK_pos
  maxK_le := cfg.maxK_le
  bids := sideEntries .BID l
  asks := sideEntries .ASK l

theorem Book.curves_ofCurves (cfg : MarketConfig) (h : l.Pairwise bookLt) :
    (Book.ofCurves cfg l).curves = l := by
  have hside : ∀ side, ((l.filter (·.1 = side)).map (·.2)).map (side, ·) = l.filter (·.1 = side) := by
    intro side
    rw [map_map]
    refine (map_congr_left fun e he => ?_).trans (map_id _)
    have : e.1 = side := by simpa using (mem_filter.mp he).2
    simp [← this]
  rw [curves, ofCurves, sideEntries_entries .BID h, sideEntries_entries .ASK h, hside, hside,
    bids_append_asks h]

/-- `ClearingEngine::Serialize`; another market's book is refused. -/
def bookCodec (cfg : MarketConfig) : Codec Book :=
  (((uint256.pair (uint256.pair (natLE 8))).guard (· = (cfg.base, cfg.quote, cfg.maxK))).pair
    ((boundedVector BOOK_SNAPSHOT_MAX_CURVES ((sideCodec.pair (uint256.pair
      (curveCodec cfg.maxK))).guard (BookEntry.ok cfg.maxK · = true))).guard
        (·.Pairwise bookLt))).map
    (fun x => Book.ofCurves cfg x.2) (fun b => ((b.base, b.quote, b.maxK), b.curves))
    fun x hx => by
      rw [Book.curves_ofCurves cfg hx.2.2]
      exact Prod.ext hx.1.2.symm rfl

/-! ## Accounting of a decoded book -/

/-- The loop of `BidMaxPrefixSpend` from the last point back: what is left, and what was spent. -/
def prefixSpend : List Breakpoint → Int → Int → Int × Int
  | b :: a :: rest, remaining, spend =>
    if remaining > 0 then
      let take := min remaining (a.qty - b.qty)
      prefixSpend (a :: rest) (remaining - take) (spend + take * (b.price - 1))
    else (remaining, spend)
  | _, remaining, spend => (remaining, spend)

def bidMaxPrefixSpend (points : List Breakpoint) (filled : Int) : Option Int :=
  if filled < 0 then none
  else
    let x := prefixSpend points.reverse filled 0
    if x.1 > 0 then none else if x.2 > MAX_MONEY then some MAX_MONEY else some x.2

/-- The checks of `CheckDecodedAccounting` on one curve. -/
def BookEntry.accountingOk (e : BookEntry) : Bool :=
  let c := e.2.2
  match c.points with
  | [] => false
  | a :: rest =>
    let maxQty := match e.1 with
      | .BID => a.qty
      | .ASK => (lastPoint a rest).qty
    0 ≤ c.filled && c.filled ≤ maxQty && !Book.Curve.exhausted c &&
      match e.1 with
      | .BID =>
        match worstCaseReservation .BID c.points, bidMaxPrefixSpend c.points c.filled with
        | some worst, some spend =>
          0 ≤ c.reserved && c.reserved ≤ worst && worst - spend ≤ c.reserved
        | _, _ => false
      | .ASK => c.reserved == maxQty - c.filled

/-- The reservations the curves call for. -/
def Book.expectedReserved (b : Book) : OrderedMap BalanceKey Int :=
  b.curves.foldl (fun m e =>
    let key := toLex (e.2.1, b.reserveAsset e.1)
    m.insert key ((m.find? key).getD 0 + e.2.2.reserved)) ∅

/-- `CheckDecodedAccounting`. -/
def checkDecodedAccounting (b : Book) (l : Ledger) : Bool :=
  b.curves.all BookEntry.accountingOk &&
    l.balances.entries.all (fun e =>
      e.2.reserved == 0 || b.expectedReserved.find? e.1 == some e.2.reserved) &&
    b.expectedReserved.entries.all fun e => l.reserved (ofLex e.1).1 (ofLex e.1).2 == e.2

/-! ## The state -/

/-- `std::set<COutPoint>`, in order. -/
def outPointSet (c : Codec (List COutPoint)) : Codec (Finset COutPoint) :=
  (c.guard (·.Pairwise (· < ·))).map List.toFinset (fun s => s.sort (· ≤ ·)) fun _ hl =>
    (toFinset_sort (· ≤ ·) hl.2.nodup).mpr (hl.2.imp le_of_lt)

/-- `FlowMeshState::Serialize`, read into a state of the same configuration. -/
def stateCodec (cfg : MarketConfig) : Codec FlowMeshState :=
  ((((ledgerCodec.guard (·.vault = cfg.vault)).pair (bookCodec cfg)).guard
    fun x => checkDecodedAccounting x.2 x.1 = true).pair
    ((orderedMap (boundedVector STATE_SNAPSHOT_MAX_SIGNERS (uint256.pair u64))).pair
      (outPointSet (boundedVector STATE_SNAPSHOT_MAX_DEPOSITS outPointCodec)))).map
    (fun x => ⟨x.2.1, x.2.2, x.1.1, x.1.2, cfg.configId⟩)
    (fun s => ((s.ledger, s.book), s.nextSeq, s.consumedDeposits)) fun _ _ => rfl

/-- `FlowMeshState::Unserialize`; what follows in the stream is left there. -/
def unserialize (cfg : MarketConfig) (b : Bytes) : Option FlowMeshState :=
  ((stateCodec cfg).get b).map (·.1)

/-! ## The root -/

/-- `HashWriter::GetHash`, over the bytes written. -/
structure Hash256 where
  digest : Bytes → Uint256
  digest_lt : ∀ m, digest m < 2 ^ 256

/-- A preimage behind its tag, a `std::string`. -/
def tagged (tag : String) (b : Bytes) : Bytes :=
  putCompactSize tag.length ++ tag.toList.map (fun c => UInt8.ofNat c.toNat) ++ b

/-- The layout `Ledger::StateRoot` hashes: of a request, the value only. -/
def ledgerPreimage : Codec (Uint256 × UInt64 × UInt64 × OrderedMap BalanceKey Balance ×
    OrderedMap AssetId Int × List WithdrawalReceipt) :=
  uint256.pair (u64.pair (u64.pair ((orderedMap (counted64 (balanceKeyCodec.pair
    balanceCodec))).pair ((orderedMap (counted64 (uint256.pair int64))).pair
      (counted64 receiptCodec)))))

section

variable (H : Hash256) (l : Ledger) (s : FlowMeshState)

def Ledger.rootBytes : Bytes :=
  tagged "b3/flowmesh/state/v2" (ledgerPreimage.put
    (l.vault, l.slot, l.nextReceiptSeq, l.balances, l.custody, l.requests.entries.map (·.2)))

def Ledger.stateRoot : Uint256 := H.digest l.rootBytes

def curvePreimage : Codec BookEntry :=
  (sideCodec.pair (uint256.pair (int64.pair (int64.pair (counted64 breakpointCodec))))).map
    (fun (side, account, filled, reserved, points) => (side, account, ⟨points, filled, reserved⟩))
    (fun e => (e.1, e.2.1, e.2.2.filled, e.2.2.reserved, e.2.2.points)) fun _ _ => rfl

/-- The layout `ClearingEngine::StateRoot` hashes. -/
def bookPreimage : Codec (Uint256 × Uint256 × Nat × UInt64 × List BookEntry × Uint256) :=
  uint256.pair (uint256.pair ((natLE 8).pair (u64.pair ((counted64 curvePreimage).pair uint256))))

def FlowMeshState.bookRootBytes : Bytes :=
  tagged "b3/flowmesh/clearing/v2" (bookPreimage.put (s.book.base, s.book.quote, s.book.maxK,
    s.ledger.slot, s.book.curves, s.ledger.stateRoot H))

/-- `BookRoot`. -/
def FlowMeshState.bookRoot : Uint256 := H.digest (s.bookRootBytes H)

/-- The layout `FlowMeshState::Root` hashes. -/
def rootPreimage : Codec (Uint256 × OrderedMap AccountId UInt64 × Finset COutPoint) :=
  uint256.pair ((orderedMap (counted64 (uint256.pair u64))).pair
    (outPointSet (counted64 outPointCodec)))

def FlowMeshState.rootBytes : Bytes :=
  tagged "b3/flowmesh/state-root/v1"
    (rootPreimage.put (s.bookRoot H, s.nextSeq, s.consumedDeposits))

/-- `FlowMeshState::Root`. -/
def FlowMeshState.root : Uint256 := H.digest (s.rootBytes H)

end

/-! ## What the root determines -/

section Root

variable {H : Hash256} {cfg : MarketConfig} {s s' : FlowMeshState}

theorem unserialize_some {b : Bytes} (h : unserialize cfg b = some s) : (stateCodec cfg).valid s := by
  obtain ⟨x, hx, rfl⟩ := Option.map_eq_some_iff.mp h
  exact ((stateCodec cfg).put_get b x.1 x.2 hx).1

theorem unserialize_put (h : (stateCodec cfg).valid s) :
    unserialize cfg ((stateCodec cfg).put s) = some s := by
  have := (stateCodec cfg).get_put s h []
  rw [append_nil] at this
  rw [unserialize, this]
  rfl

theorem tagged_injective {tag : String} {a b : Bytes} (h : tagged tag a = tagged tag b) : a = b :=
  append_cancel_left h

theorem ledgerFields_valid {l : Ledger} (h : ledgerCodec.valid l) :
    ledgerPreimage.valid (l.vault, l.slot, l.nextReceiptSeq, l.balances, l.custody,
      l.requests.entries.map (·.2)) := by
  obtain ⟨⟨hvault, hslot, hseq, hbal, hcus, hreq⟩, _⟩ := h
  have hlimit : LEDGER_SNAPSHOT_MAX_ENTRIES < 2 ^ 64 := by decide
  refine ⟨hvault, hslot, hseq, counted64_valid hlimit hbal, counted64_valid hlimit hcus, ?_⟩
  obtain ⟨hsize, hitems⟩ := counted64_valid hlimit hreq
  refine ⟨by simpa using hsize, fun r hr => ?_⟩
  obtain ⟨e, he, rfl⟩ := mem_map.mp hr
  exact (hitems e he).2

theorem curves_valid {b : Book} (h : (bookCodec cfg).valid b) :
    (counted64 curvePreimage).valid b.curves := by
  obtain ⟨hsize, hitems⟩ :=
    counted64_valid (by decide : BOOK_SNAPSHOT_MAX_CURVES < 2 ^ 64) h.1.2.1
  refine ⟨hsize, fun e he => ?_⟩
  obtain ⟨⟨hside, haccount, ⟨hpoints, hfilled, hreserved⟩, _⟩, _⟩ := hitems e he
  have hlimit : min cfg.maxK HARD_MAX_CURVE_POINTS < 2 ^ 64 :=
    (min_le_right _ _).trans_lt (by decide)
  exact ⟨⟨hside, haccount, hfilled, hreserved, counted64_valid hlimit hpoints⟩, rfl⟩

theorem book_eq_ofCurves {b : Book} (h : (bookCodec cfg).valid b) : b = Book.ofCurves cfg b.curves :=
  h.2.symm

/-- What a decoded state satisfies. -/
structure Decoded (cfg : MarketConfig) (s : FlowMeshState) : Prop where
  ledger : ledgerCodec.valid s.ledger
  vault : s.ledger.vault = cfg.vault
  book : (bookCodec cfg).valid s.book
  accounting : checkDecodedAccounting s.book s.ledger = true
  signers : (orderedMap (boundedVector STATE_SNAPSHOT_MAX_SIGNERS (uint256.pair u64))).valid s.nextSeq
  deposits : (outPointSet (boundedVector STATE_SNAPSHOT_MAX_DEPOSITS outPointCodec)).valid
    s.consumedDeposits
  config : s.configId = cfg.configId

theorem stateCodec_valid : (stateCodec cfg).valid s ↔ Decoded cfg s := by
  constructor
  · rintro ⟨⟨⟨⟨⟨hledger, hvault⟩, hbook⟩, haccounting⟩, hsigners, hdeposits⟩, hconfig⟩
    exact ⟨hledger, hvault, hbook, haccounting, hsigners, hdeposits,
      (congrArg FlowMeshState.configId hconfig).symm⟩
  · intro h
    refine ⟨⟨⟨⟨⟨h.ledger, h.vault⟩, h.book⟩, h.accounting⟩, h.signers, h.deposits⟩, ?_⟩
    show FlowMeshState.mk s.nextSeq s.consumedDeposits s.ledger s.book cfg.configId = s
    rw [← h.config]

theorem Decoded.rootFields (h : Decoded cfg s) (H : Hash256) :
    rootPreimage.valid (s.bookRoot H, s.nextSeq, s.consumedDeposits) := by
  obtain ⟨⟨hdeposits, hordered⟩, hsort⟩ := h.deposits
  exact ⟨uint256_valid.mpr (H.digest_lt _),
    counted64_valid (by decide : STATE_SNAPSHOT_MAX_SIGNERS < 2 ^ 64) h.signers,
    ⟨counted64_valid (by decide : STATE_SNAPSHOT_MAX_DEPOSITS < 2 ^ 64) hdeposits, hordered⟩, hsort⟩

theorem Decoded.bookFields (h : Decoded cfg s) (H : Hash256) :
    bookPreimage.valid (s.book.base, s.book.quote, s.book.maxK, s.ledger.slot, s.book.curves,
      s.ledger.stateRoot H) := by
  obtain ⟨hbase, hquote, hmax⟩ := h.book.1.1.1
  exact ⟨hbase, hquote, hmax, u64_valid _, curves_valid h.book, uint256_valid.mpr (H.digest_lt _)⟩

/-- None of the three messages of one state collides with that of the other. -/
structure RootCollisionFree (H : Hash256) (s s' : FlowMeshState) : Prop where
  ledger : H.digest s.ledger.rootBytes = H.digest s'.ledger.rootBytes →
    s.ledger.rootBytes = s'.ledger.rootBytes
  book : H.digest (s.bookRootBytes H) = H.digest (s'.bookRootBytes H) →
    s.bookRootBytes H = s'.bookRootBytes H
  state : H.digest (s.rootBytes H) = H.digest (s'.rootBytes H) → s.rootBytes H = s'.rootBytes H

/-- The root determines a decoded state up to the keys of its requests. -/
theorem eq_of_root (hs : Decoded cfg s) (hs' : Decoded cfg s') (hfree : RootCollisionFree H s s')
    (hroot : s.root H = s'.root H) :
    s' = { s with ledger := { s.ledger with requests := s'.ledger.requests } } ∧
      s'.ledger.requests.entries.map (·.2) = s.ledger.requests.entries.map (·.2) := by
  have hstate := rootPreimage.put_injective (hs.rootFields H) (hs'.rootFields H)
    (tagged_injective (hfree.state hroot))
  simp only [Prod.mk.injEq] at hstate
  obtain ⟨hbookRoot, hnext, hdeposits⟩ := hstate
  have hbook := bookPreimage.put_injective (hs.bookFields H) (hs'.bookFields H)
    (tagged_injective (hfree.book hbookRoot))
  simp only [Prod.mk.injEq] at hbook
  obtain ⟨_, _, _, _, hcurves, hledgerRoot⟩ := hbook
  have hledger := ledgerPreimage.put_injective (ledgerFields_valid hs.ledger)
    (ledgerFields_valid hs'.ledger) (tagged_injective (hfree.ledger hledgerRoot))
  simp only [Prod.mk.injEq] at hledger
  obtain ⟨hvault, hslot, hseq, hbalances, hcustody, hrequests⟩ := hledger
  have hbookEq : s'.book = s.book := by
    rw [book_eq_ofCurves hs.book, book_eq_ofCurves hs'.book, hcurves]
  have hconfig : s'.configId = s.configId := hs'.config.trans hs.config.symm
  refine ⟨?_, hrequests.symm⟩
  simp only [hnext, hdeposits, hvault, hslot, hseq, hbalances, hcustody, ← hbookEq, ← hconfig]

/-- Every request is filed under its own id. -/
def FlowMeshState.Keyed (s : FlowMeshState) : Prop :=
  ∀ e ∈ s.ledger.requests.entries, e.1 = e.2.receiptId

theorem requests_eq_of_keyed (hs : s.Keyed) (hs' : s'.Keyed)
    (hvalues : s'.ledger.requests.entries.map (·.2) = s.ledger.requests.entries.map (·.2)) :
    s'.ledger.requests = s.ledger.requests := by
  have hentries : ∀ {t : FlowMeshState}, t.Keyed → t.ledger.requests.entries =
      (t.ledger.requests.entries.map (·.2)).map fun r => (r.receiptId, r) := by
    intro t ht
    rw [map_map]
    conv_lhs => rw [← map_id t.ledger.requests.entries]
    exact map_congr_left fun e he => Prod.ext (ht e he) rfl
  exact OrderedMap.ext (by rw [hentries hs', hvalues, ← hentries hs])

/-! A snapshot with its requests filed under consecutive keys. -/

/-- The requests under the keys `k`, `k + 1` and so on. -/
def rekey (k : Nat) (m : OrderedMap Uint256 WithdrawalReceipt) :
    OrderedMap Uint256 WithdrawalReceipt where
  entries := (m.entries.zipIdx k).map fun x => (x.2, x.1.2)
  sorted := by
    have hkeys : (m.entries.zipIdx k).Pairwise fun a b => a.2 < b.2 := by
      rw [← pairwise_map (f := Prod.snd), zipIdx_map_snd]
      exact pairwise_lt_range'
    exact pairwise_map.mpr hkeys

theorem rekey_values (k : Nat) (m : OrderedMap Uint256 WithdrawalReceipt) :
    (rekey k m).entries.map (·.2) = m.entries.map (·.2) := by
  rw [rekey, map_map]
  conv_rhs => rw [← zipIdx_map_fst k m.entries, map_map]
  rfl

variable {m : OrderedMap Uint256 WithdrawalReceipt}

/-- At most one of two first keys is the one in use. -/
theorem exists_rekey_ne (hm : m ≠ ∅) : ∃ k ≤ 1, rekey k m ≠ m := by
  by_contra hall
  push Not at hall
  have h01 : (rekey 0 m).entries = (rekey 1 m).entries := by rw [hall 0 (by decide), hall 1 le_rfl]
  cases hentries : m.entries with
  | nil => exact hm (OrderedMap.ext hentries)
  | cons e rest => simp [rekey, hentries] at h01

/-- The same state with the requests `m`. -/
def FlowMeshState.withRequests (s : FlowMeshState) (m : OrderedMap Uint256 WithdrawalReceipt) :
    FlowMeshState :=
  { s with ledger := { s.ledger with requests := m } }

theorem Decoded.rekeyed {k : Nat} (hk : k ≤ 1) (hs : Decoded cfg s) :
    Decoded cfg (s.withRequests (rekey k s.ledger.requests)) := by
  obtain ⟨⟨hvault, hslot, hseq, hbal, hcus, hreq⟩, _⟩ := hs.ledger
  refine ⟨⟨⟨hvault, hslot, hseq, hbal, hcus, ?_⟩, rfl⟩, hs.vault, hs.book, hs.accounting, hs.signers,
    hs.deposits, hs.config⟩
  have hsize : (rekey k s.ledger.requests).entries.length = s.ledger.requests.entries.length := by
    simp [rekey]
  refine ⟨hsize.symm ▸ hreq.1, fun e he => ?_⟩
  obtain ⟨x, hx, rfl⟩ := mem_map.mp he
  obtain ⟨hmem, hlo, hhi⟩ : x.1 ∈ s.ledger.requests.entries ∧ k ≤ x.2 ∧
      x.2 < k + s.ledger.requests.entries.length := by
    obtain ⟨hlo, hhi, hget⟩ := mem_zipIdx hx
    exact ⟨hget ▸ getElem_mem _, hlo, by omega⟩
  have hlimit : s.ledger.requests.entries.length ≤ 2 ^ 22 := hreq.1.2
  have hsmall : x.2 < 2 ^ 23 := by omega
  exact ⟨uint256_valid.mpr (hsmall.trans (by decide)), (hreq.2 x.1 hmem).2⟩

/-- The keys of the requests do not reach the root. -/
theorem withRequests_root (hm : m.entries.map (·.2) = s.ledger.requests.entries.map (·.2)) :
    RootCollisionFree H s (s.withRequests m) ∧ s.root H = (s.withRequests m).root H := by
  have hledger : (s.withRequests m).ledger.rootBytes = s.ledger.rootBytes := by
    simp only [FlowMeshState.withRequests, Ledger.rootBytes, hm]
  have hbook : (s.withRequests m).bookRootBytes H = s.bookRootBytes H := by
    rw [FlowMeshState.bookRootBytes, Ledger.stateRoot, hledger]
    rfl
  have hstate : (s.withRequests m).rootBytes H = s.rootBytes H := by
    rw [FlowMeshState.rootBytes, FlowMeshState.bookRoot, hbook]
    rfl
  exact ⟨⟨fun _ => hledger.symm, fun _ => hbook.symm, fun _ => hstate.symm⟩, by
    rw [FlowMeshState.root, FlowMeshState.root, hstate]⟩

/-- A decoded state is determined by its root exactly if it has no pending request; and states
that file their requests under their own ids always are. -/
theorem root_commits_iff {b : Bytes} (hb : unserialize cfg b = some s) :
    ((∀ b' s', unserialize cfg b' = some s' → RootCollisionFree H s s' →
        s.root H = s'.root H → s = s') ↔ s.ledger.requests = ∅) ∧
      (s.Keyed → ∀ b' s', unserialize cfg b' = some s' → s'.Keyed → RootCollisionFree H s s' →
        s.root H = s'.root H → s = s') := by
  have hs := stateCodec_valid.mp (unserialize_some hb)
  have close : ∀ {s'}, Decoded cfg s' → RootCollisionFree H s s' → s.root H = s'.root H →
      (s'.ledger.requests.entries.map (·.2) = s.ledger.requests.entries.map (·.2) →
        s'.ledger.requests = s.ledger.requests) → s = s' := by
    intro s' hs' hfree hroot hkeys
    obtain ⟨heq, hvalues⟩ := eq_of_root hs hs' hfree hroot
    rw [heq, hkeys hvalues]
  refine ⟨⟨fun hall => ?_, fun hempty b' s' hb' hfree hroot => ?_⟩,
    fun hkeyed b' s' hb' hkeyed' hfree hroot => ?_⟩
  · by_contra hne
    obtain ⟨k, hk, hdiff⟩ := exists_rekey_ne hne
    obtain ⟨hfree, hroot⟩ := withRequests_root (H := H) (rekey_values k s.ledger.requests)
    have heq := hall _ _ (unserialize_put (stateCodec_valid.mpr (hs.rekeyed hk))) hfree hroot
    exact hdiff (congrArg (·.ledger.requests) heq).symm
  · refine close (stateCodec_valid.mp (unserialize_some hb')) hfree hroot fun hvalues => ?_
    rw [hempty] at hvalues ⊢
    exact OrderedMap.ext (map_eq_nil_iff.mp hvalues)
  · exact close (stateCodec_valid.mp (unserialize_some hb')) hfree hroot
      (requests_eq_of_keyed hkeyed hkeyed')

end Root

/-! ## Two snapshots with one root -/

namespace Sample

theorem uint256_small {x : Nat} (h : x < 16) : uint256.valid x :=
  uint256_valid.mpr (h.trans (by decide))

theorem boundedVector_nil {α : Type} {limit : Nat} {c : Codec α} (hlimit : limit ≤ MAX_SIZE) :
    (boundedVector limit c).valid [] :=
  boundedVector_valid hlimit (Nat.zero_le _) (by simp)

theorem new_decoded : Decoded config (.new config) := by
  have hsort : (FlowMeshState.new config).consumedDeposits.sort (· ≤ ·) = [] := Finset.sort_empty _
  have hbook : (bookCodec config).valid (FlowMeshState.new config).book :=
    ⟨⟨⟨⟨uint256_small (by decide), uint256_small (by decide), natLE_valid.mpr (by decide)⟩, rfl⟩,
      boundedVector_nil (by decide), .nil⟩, rfl⟩
  have hledger : ledgerCodec.valid (FlowMeshState.new config).ledger :=
    ⟨⟨uint256_small (by decide), u64_valid _, u64_valid _, boundedVector_nil (by decide),
      boundedVector_nil (by decide), boundedVector_nil (by decide)⟩, rfl⟩
  refine ⟨hledger, rfl, hbook, by decide, boundedVector_nil (by decide), ⟨⟨?_, ?_⟩, ?_⟩, rfl⟩
  · simp only [hsort]
    exact boundedVector_nil (by decide)
  · simp only [hsort]
    exact .nil
  · simp only [hsort]
    rfl

def pending : WithdrawalReceipt := ⟨5, NativeAsset, 1, 14, 0, 9⟩

def settlement : WithdrawalSettlementFact where
  receipt := ⟨5, 1, 0, 0, 2, NativeAsset, 1, 14, 9, 0⟩
  checkpointId := 1
  transactionId := 1
  connectedHeight := 0
  connectedBlock := 1

/-- One request, filed under `key`, and the custody for it. -/
def snapshot (key : Uint256) : FlowMeshState :=
  { FlowMeshState.new config with
    ledger :=
      { vault := 9
        custody := (∅ : OrderedMap _ _).insert NativeAsset 1
        requests := (∅ : OrderedMap _ _).insert key pending } }

theorem pending_valid : receiptCodec.valid pending :=
  ⟨⟨uint256_small (by decide), uint256_small (by decide), int64_valid.mpr (by decide),
    uint256_small (by decide), u64_valid _, uint256_small (by decide)⟩, rfl⟩

theorem snapshot_decoded {key : Uint256} (hkey : key < 16) : Decoded config (snapshot key) := by
  have hcustody : (boundedVector LEDGER_SNAPSHOT_MAX_ENTRIES (uint256.pair int64)).valid
      [(NativeAsset, 1)] := by
    refine boundedVector_valid (by decide) (by decide) fun e he => ?_
    obtain rfl := mem_singleton.mp he
    exact ⟨uint256_small (by decide), int64_valid.mpr (by decide)⟩
  have hrequests : (boundedVector LEDGER_SNAPSHOT_MAX_ENTRIES (uint256.pair receiptCodec)).valid
      [(key, pending)] := by
    refine boundedVector_valid (by decide) (Nat.one_le_two_pow) fun e he => ?_
    obtain rfl := mem_singleton.mp he
    exact ⟨uint256_small hkey, pending_valid⟩
  have hnew := new_decoded
  exact ⟨⟨⟨hnew.ledger.1.1, u64_valid _, u64_valid _, boundedVector_nil (by decide), hcustody,
    hrequests⟩, rfl⟩, rfl, hnew.book, hnew.accounting, hnew.signers, hnew.deposits, rfl⟩

end Sample

/-- A request filed under its own id or under another key: one root, but only the first state
can settle it. -/
theorem root_shared_by_two_snapshots : ∃ b b' s s' f,
    unserialize config b = some s ∧ unserialize config b' = some s' ∧
      (∀ H, RootCollisionFree H s s' ∧ s.root H = s'.root H) ∧ s ≠ s' ∧
      (s.consumeWithdrawalSettlement f).isSome = true ∧ s'.consumeWithdrawalSettlement f = none := by
  have hvalues : ((∅ : OrderedMap _ _).insert 6 pending).entries.map (·.2) =
      (snapshot 5).ledger.requests.entries.map (·.2) := rfl
  refine ⟨_, _, snapshot 5, snapshot 6, settlement,
    unserialize_put (stateCodec_valid.mpr (snapshot_decoded (by decide))),
    unserialize_put (stateCodec_valid.mpr (snapshot_decoded (by decide))),
    fun H => withRequests_root (H := H) (s := snapshot 5) hvalues,
    fun h => ?_, by decide, by decide⟩
  have hkeys := congrArg (fun s => s.ledger.requests.keys) h
  exact absurd hkeys (by decide)

end B3Coin.FlowMesh
