import B3Coin.Bridge.WithdrawalTree
import B3Coin.Contracts.Lineage
import B3Coin.WordTree

/-!
# The Ethereum vault

`B3StakerBridge.sol`: the checks of `deposit` and `release`, cut at the call to the token
in each, and the leaf and branch of a withdrawal. What the token and anyone it calls may
do in between is in `Contracts/VaultRun`. Arithmetic is checked, as in the verifier.
-/
namespace B3Coin.StakerBridge

open List Merkle FinalityVerifier

open Codec (Bytes)
open Bridge (BridgeWithdrawalV1 withdrawalNodeHash encodeBridgeWithdrawalV1 leafRow bridgeWithdrawalLeafV1)
open WordTree (climbPath nodePreimage)

/-- The calldata of `release`, with the ranges of its types. -/
structure Withdrawal where
  withdrawalId : Nat
  recipient : Nat
  amount : Nat
  b3Height : Nat
  id_lt : withdrawalId < 256 ^ 8
  recipient_lt : recipient < 256 ^ 20
  amount_lt : amount < 256 ^ 32
  height_lt : b3Height < 256 ^ 8

/-- A `bytes32[32]`. -/
structure ProofPath where
  siblings : List Uint256
  length_eq : siblings.length = 32
  sibling_lt : ∀ x ∈ siblings, x < 256 ^ 32

structure Immutables where
  verifier : FinalityVerifier.Immutables
  verifierCodeHash : Uint256
  originChainId : Nat
  b3AssetId : Uint256
  originToken : Nat
  maxDepositRaw : Nat
  chain_lt : originChainId < 256 ^ 8
  asset_lt : b3AssetId < 256 ^ 32
  token_lt : originToken < 256 ^ 20

/-- The activation height is read from the verifier at deployment. -/
def Immutables.bridgeActivationHeight (c : Immutables) : Nat :=
  c.verifier.config.bridgeActivationHeight

structure Storage where
  nextDepositId : Nat
  locked : Nat
  released : Nat → Bool
  entered : Bool

inductive Revert where
  | ZeroAmount | DepositCapExceeded | DepositClosed | BadB3Recipient | ZeroRecipient
  | TransferFailed | Reentrancy | WithdrawalIdOutOfRange | BridgeNotReady
  | WithdrawalBeforeActivation | WithdrawalNotFinalized | AlreadyReleased | BadWithdrawalProof
  | InsufficientReserve | Panic
  deriving DecidableEq

section Contract

variable (keccak256 : Bytes → Uint256) (c : Immutables)

/-! ## Leaves and branches -/

section

variable (w : Withdrawal)

def leafPreimage : Bytes :=
  bigEndian 8 w.withdrawalId ++ bigEndian 8 c.originChainId ++ bigEndian 32 c.b3AssetId ++
    bigEndian 20 c.originToken ++ bigEndian 20 w.recipient ++ bigEndian 32 w.amount ++
    bigEndian 8 w.b3Height

def withdrawalLeaf : Uint256 := keccak256 (leafPreimage c w)

/-- The root the path leads to from the leaf of the withdrawal. -/
def pathRoot (path : ProofPath) : Uint256 :=
  climbPath keccak256 w.withdrawalId 0 (withdrawalLeaf keccak256 c w) path.siblings

/-! ## Calls -/

def depositGuards (verifier : FinalityVerifier.World) (amount b3Recipient : Nat) (s : Storage) :
    List (Bool × Revert) :=
  [(s.entered, .Reentrancy),
    (!depositViable c.verifier verifier.storage verifier.now, .DepositClosed),
    (amount = 0, .ZeroAmount),
    -- eleven zero bytes, version one, and a key hash that is not null
    (b3Recipient / 2 ^ 160 ≠ 1 ∨ b3Recipient % 2 ^ 160 = 0, .BadB3Recipient)]

/-- `deposit` after the token has returned: the balance has gone from `beforeBalance` to
`balance`. -/
def finishDeposit (beforeBalance balance : Nat) (s : Storage) : Except Revert Storage :=
  let received := balance - beforeBalance
  Guards.run
    [(balance < beforeBalance, .Panic),
      (received = 0, .ZeroAmount),
      (received > c.maxDepositRaw, .DepositCapExceeded),
      (s.locked + received ≥ 2 ^ 256, .Panic),
      (s.nextDepositId + 1 ≥ 2 ^ 64, .Panic)]
    (.ok { s with
      locked := s.locked + received
      nextDepositId := s.nextDepositId + 1
      entered := false })

def releaseGuards (verifier : FinalityVerifier.Storage) (w : Withdrawal) (path : ProofPath)
    (s : Storage) : List (Bool × Revert) :=
  [(s.entered, .Reentrancy),
    (!releaseReady c.verifier verifier, .BridgeNotReady),
    (w.withdrawalId ≥ 2 ^ 32, .WithdrawalIdOutOfRange),
    (w.b3Height < c.bridgeActivationHeight, .WithdrawalBeforeActivation),
    (w.recipient = 0, .ZeroRecipient),
    (w.amount = 0, .ZeroAmount),
    (s.released w.withdrawalId, .AlreadyReleased),
    (verifier.latestBridgeFinalizedHeight < w.b3Height, .WithdrawalNotFinalized),
    (pathRoot keccak256 c w path ≠ verifier.latestBridgeWithdrawalRoot, .BadWithdrawalProof),
    (w.amount > s.locked, .InsufficientReserve)]

/-- `release` up to the call to the token. -/
def beginRelease (s : Storage) : Storage :=
  { s with
    released := fun id => id == w.withdrawalId || s.released id
    locked := s.locked - w.amount
    entered := true }

/-! ## Branches of the withdrawal tree -/

/-- The withdrawal as the node of the other chain records it. -/
def Withdrawal.toB3 : BridgeWithdrawalV1 :=
  ⟨w.withdrawalId, c.originChainId, c.b3AssetId, c.originToken, w.recipient, w.amount, w.b3Height⟩

end

/-- The ranges of the types of a withdrawal on that node. -/
structure InRange (w : BridgeWithdrawalV1) : Prop where
  chain : w.originChainId < 256 ^ 8
  asset : w.assetId < 256 ^ 32
  token : w.originToken < 256 ^ 20
  recipient : w.recipient < 256 ^ 20
  height : w.b3Height < 256 ^ 8

/-- The siblings of a leaf of the tree. -/
def siblingPath (leaves : List Uint256) (id : Nat) : List Uint256 :=
  siblings (withdrawalNodeHash keccak256) (leafRow leaves) 0
    Bridge.WITHDRAWAL_TREE_DEPTH id

/-- The strings hashed for the leaves, for the check of a path, and for the true branch at the
same position. -/
def hashedStrings (ws : List BridgeWithdrawalV1) (leaves : List Uint256) (w : Withdrawal)
    (path : ProofPath) : Set Bytes :=
  {b | (∃ w' ∈ ws, encodeBridgeWithdrawalV1 w' = some b) ∨ b = leafPreimage c w ∨
    ∃ p, b = nodePreimage p ∧
      (p ∈ climbed (withdrawalNodeHash keccak256) w.withdrawalId
          (withdrawalLeaf keccak256 c w) path.siblings ∨
        p ∈ climbed (withdrawalNodeHash keccak256) w.withdrawalId
          (leafRow leaves w.withdrawalId) (siblingPath keccak256 leaves w.withdrawalId))}

end Contract

section Branch

variable {keccak256 : Bytes → Uint256} {c : Immutables}

variable {w : Withdrawal}

theorem encode_toB3 {b : Bytes}
    (h : encodeBridgeWithdrawalV1 (w.toB3 c) = some b) : b = leafPreimage c w := by
  unfold encodeBridgeWithdrawalV1 at h
  split_ifs at h
  cases h
  rfl

theorem encode_inj {w' : BridgeWithdrawalV1} (hrange : InRange w')
    (h : encodeBridgeWithdrawalV1 w' = some (leafPreimage c w)) : w' = w.toB3 c := by
  unfold encodeBridgeWithdrawalV1 at h
  split_ifs at h with hrefused
  have hid : w'.withdrawalId < 256 ^ 8 := by
    have : w'.withdrawalId < 2 ^ 32 := not_le.mp (not_or.mp hrefused).1
    omega
  have hmoney : w'.amount ≤ MAX_MONEY := by simp only [not_or] at hrefused; omega
  obtain ⟨h, hheight⟩ := append_inj' (Option.some.inj h) (by simp)
  obtain ⟨h, hamount⟩ := append_inj' h (by simp)
  obtain ⟨h, hrecipient⟩ := append_inj' h (by simp)
  obtain ⟨h, htoken⟩ := append_inj' h (by simp)
  obtain ⟨h, hasset⟩ := append_inj' h (by simp)
  obtain ⟨hid', hchain⟩ := append_inj' h (by simp)
  have hamount := bigEndian_inj (by rw [MAX_MONEY_eq] at hmoney; omega) w.amount_lt hamount
  have hamount : w'.amount = w.amount := by omega
  cases w'
  simp only [Withdrawal.toB3, BridgeWithdrawalV1.mk.injEq]
  exact ⟨bigEndian_inj hid w.id_lt hid', bigEndian_inj hrange.chain c.chain_lt hchain,
    bigEndian_inj hrange.asset c.asset_lt hasset, bigEndian_inj hrange.token c.token_lt htoken,
    bigEndian_inj hrange.recipient w.recipient_lt hrecipient, hamount,
    bigEndian_inj hrange.height w.height_lt hheight⟩

variable {ws : List BridgeWithdrawalV1} {leaves : List Uint256}

theorem pathRoot_eq_iff (hdigest : ∀ b, keccak256 b < 256 ^ 32)
    (hleaves : ∀ leaf ∈ leaves, leaf < 256 ^ 32) {path : ProofPath} (hid : w.withdrawalId < 2 ^ 32)
    (hS : Set.InjOn keccak256 (hashedStrings keccak256 c ws leaves w path)) :
    pathRoot keccak256 c w path = Bridge.withdrawalRoot keccak256 leaves ↔
      withdrawalLeaf keccak256 c w = leafRow leaves w.withdrawalId ∧
        path.siblings = siblingPath keccak256 leaves w.withdrawalId := by
  rw [pathRoot, WordTree.climbPath_eq, Nat.pow_zero, Nat.div_one]
  exact WordTree.climb_eq_root_iff hdigest hleaves hid (hdigest _) path.sibling_lt path.length_eq
    hS (fun p hp => .inr (.inr ⟨p, rfl, .inl hp⟩)) (fun p hp => .inr (.inr ⟨p, rfl, .inr hp⟩))

/-- A leaf of the row is the leaf of the withdrawal at that place. -/
theorem leafRow_eq_iff
    (hleaves : ws.map (bridgeWithdrawalLeafV1 keccak256) = leaves.map some)
    (hrange : ∀ w ∈ ws, InRange w) {path : ProofPath} (hnull : withdrawalLeaf keccak256 c w ≠ 0)
    (hS : Set.InjOn keccak256 (hashedStrings keccak256 c ws leaves w path)) :
    withdrawalLeaf keccak256 c w = leafRow leaves w.withdrawalId ↔
      ws[w.withdrawalId]? = some (w.toB3 c) := by
  have hat : (ws[w.withdrawalId]?).map (bridgeWithdrawalLeafV1 keccak256) =
      (leaves[w.withdrawalId]?).map some := by
    rw [← getElem?_map, ← getElem?_map, hleaves]
  rw [leafRow, getD_eq_getElem?_getD]
  cases hws : ws[w.withdrawalId]? with
  | none =>
    rw [hws] at hat
    have hnone : leaves[w.withdrawalId]? = none := by simpa using hat.symm
    simp [hnone, hnull]
  | some w' =>
    rw [hws] at hat
    obtain ⟨leaf, hleaf, hw'⟩ := Option.map_eq_some_iff.mp hat.symm
    obtain ⟨b, hb, rfl⟩ := Option.map_eq_some_iff.mp hw'.symm
    have hmem := mem_of_getElem? hws
    simp only [hleaf, Option.getD_some, Option.some.injEq]
    constructor
    · intro heq
      have hstring := hS (.inr (.inl rfl)) (.inl ⟨w', hmem, hb⟩) heq
      exact encode_inj (hrange w' hmem) (hstring ▸ hb)
    · rintro rfl
      rw [encode_toB3 hb]
      rfl

theorem leaves_lt (hdigest : ∀ b, keccak256 b < 256 ^ 32)
    (hleaves : ws.map (bridgeWithdrawalLeafV1 keccak256) = leaves.map some) :
    ∀ leaf ∈ leaves, leaf < 256 ^ 32 := by
  intro leaf hleaf
  have hmem : some leaf ∈ ws.map (bridgeWithdrawalLeafV1 keccak256) := by
    rw [hleaves]
    exact mem_map_of_mem hleaf
  obtain ⟨w', -, hw'⟩ := mem_map.mp hmem
  obtain ⟨b, -, rfl⟩ := Option.map_eq_some_iff.mp hw'
  exact hdigest b

/-- The withdrawal tree agrees across languages. -/
theorem withdrawal_tree_agrees (hdigest : ∀ b, keccak256 b < 256 ^ 32)
    {ws : List BridgeWithdrawalV1} {leaves : List Uint256} (hlen : ws.length < 2 ^ 32)
    (hrange : ∀ w ∈ ws, InRange w)
    (hleaves : ws.map (Bridge.bridgeWithdrawalLeafV1 keccak256) = leaves.map some)
    (hnonzero : ∀ leaf ∈ leaves, leaf ≠ 0) :
    ∃ state, leaves.foldlM (Bridge.appendWithdrawalLeaf keccak256) (.empty keccak256) = some state ∧
      state.root = Bridge.withdrawalRoot keccak256 leaves ∧
      ∀ (c : Immutables) (w : Withdrawal) (path : ProofPath), w.withdrawalId < 2 ^ 32 →
        withdrawalLeaf keccak256 c w ≠ 0 →
        Set.InjOn keccak256 (hashedStrings keccak256 c ws leaves w path) →
        (pathRoot keccak256 c w path = state.root ↔
          ws[w.withdrawalId]? = some (w.toB3 c) ∧
            path.siblings = siblingPath keccak256 leaves w.withdrawalId) := by
  have hlength : leaves.length = ws.length := by
    have := congrArg List.length hleaves
    simpa using this.symm
  have hlt := leaves_lt hdigest hleaves
  obtain ⟨state, hstate, hrep⟩ := Bridge.appendAll_represents
    (show leaves.length ≤ Bridge.MAX_WITHDRAWAL_LEAVES by rw [hlength]; exact hlen.le) hnonzero
  refine ⟨state, hstate, hrep.root, fun c w path hid hnull hS => ?_⟩
  rw [hrep.root, pathRoot_eq_iff hdigest hlt hid hS, leafRow_eq_iff hleaves hrange hnull hS]

/-! ### Two withdrawals -/

/-- Leaves are told apart by the last byte of the recipient. -/
abbrev sampleKeccak : Bytes → Uint256 := WordTree.sampleKeccak 128 87

def sampleVault : Immutables where
  verifier := exampleContract
  verifierCodeHash := 1
  originChainId := 1
  b3AssetId := 1
  originToken := 1
  maxDepositRaw := 1000
  chain_lt := by decide
  asset_lt := by decide
  token_lt := by decide

def sampleWithdrawal : Withdrawal := ⟨0, 5, 7, 12, by decide, by decide, by decide, by decide⟩

def laterWithdrawal : Withdrawal := ⟨1, 10, 8, 12, by decide, by decide, by decide, by decide⟩

def sampleWithdrawals : List BridgeWithdrawalV1 :=
  [sampleWithdrawal.toB3 sampleVault, laterWithdrawal.toB3 sampleVault]

def laterPath : ProofPath where
  siblings := 200 :: List.range' 1 31
  length_eq := by decide
  sibling_lt := by decide

theorem laterPath_eq : siblingPath sampleKeccak [200, 300] 1 = laterPath.siblings := by
  have hwidth : 128 ≠ 64 := by decide
  show siblings (WordTree.node sampleKeccak) (WordTree.row [200, 300]) 0 32 1 = _
  simp (disch := decide) only [siblings, sibling, Nat.reduceMod, Nat.reduceDiv, Nat.reduceAdd,
    Nat.reduceSub, if_true, if_false, zero_ne_one, WordTree.sampleZeros hwidth]
  rfl

def sampleStrings : List Bytes :=
  [leafPreimage sampleVault sampleWithdrawal, leafPreimage sampleVault laterWithdrawal] ++
    (climbed (WordTree.node sampleKeccak) 1 300 laterPath.siblings).map nodePreimage

theorem sampleStrings_injOn : Set.InjOn sampleKeccak (hashedStrings sampleKeccak sampleVault
    sampleWithdrawals [200, 300] laterWithdrawal laterPath) := by
  have hnodup : (sampleStrings.map sampleKeccak).Nodup := by decide +kernel
  have hleaf : withdrawalLeaf sampleKeccak sampleVault laterWithdrawal = 300 := by decide +kernel
  have hsub : ∀ b ∈ hashedStrings sampleKeccak sampleVault sampleWithdrawals [200, 300]
      laterWithdrawal laterPath, b ∈ sampleStrings := by
    rintro b (⟨w, hw, hb⟩ | rfl | ⟨p, rfl, hp⟩)
    · simp only [sampleWithdrawals, mem_cons, not_mem_nil, or_false] at hw
      rcases hw with rfl | rfl <;> rw [encode_toB3 hb] <;> simp [sampleStrings]
    · simp [sampleStrings]
    · rw [hleaf, show siblingPath sampleKeccak [200, 300] laterWithdrawal.withdrawalId =
        laterPath.siblings from laterPath_eq] at hp
      exact mem_append_right _ (mem_map_of_mem (or_self_iff.mp hp))
  exact fun a ha b hb hab => inj_on_of_nodup_map hnodup (hsub a ha) (hsub b hb) hab

/-- The second of two withdrawals is accepted with its path. -/
theorem sample_tree_agrees : pathRoot sampleKeccak sampleVault laterWithdrawal laterPath =
      Bridge.withdrawalRoot sampleKeccak [200, 300] := by
  obtain ⟨state, -, hroot, hiff⟩ := @withdrawal_tree_agrees sampleKeccak
    WordTree.sampleKeccak_lt sampleWithdrawals [200, 300] (by decide)
    (by rintro w (_ | ⟨_, _ | ⟨_, ⟨⟩⟩⟩) <;>
      exact ⟨by decide, by decide, by decide, by decide, by decide⟩)
    (by decide +kernel) (by decide)
  rw [← hroot]
  exact (hiff sampleVault laterWithdrawal laterPath (by decide) (by decide +kernel)
    sampleStrings_injOn).mpr ⟨rfl, laterPath_eq.symm⟩

end Branch

end B3Coin.StakerBridge
