import B3Coin.Finality.Tracker

/-!
# Laws of the epoch state

What holds of the state of every chain, whatever its blocks carry: epochs start at
growing distances, every set is stamped with the epoch it serves, a set comes into
force only after the set before it has signed its hash, finality only moves up, and
a broken lineage is never mended.
-/
namespace B3Coin.Finality

open BlockChain List

variable {β : Type} {n : Node β}

/-- The certificate's effect on the projected state. -/
def certified (p : State) (fb : FinalizedBlock) (height : Nat) : State :=
  { p with
    finalized := some ⟨fb.height, fb.blockHash, fb.epoch, height⟩
    handoverCertified := fb.epoch == p.epoch || p.handoverCertified }

/-- What is left of `applyModern` once the state is projected. -/
def certify (n : Node β) (rootAt : Nat → Option Uint256) (p : State) (b : BlockChain.Block β)
    (below : List (BlockChain.Block β)) : Option State :=
  match n.matchCertificate b.body p.setSize with
  | none => none
  | some none => some p
  | some (some (fb, cert)) =>
    if judgeFinalityCertificate n rootAt p (b :: below) fb cert then
      some (certified p fb below.length)
    else none

theorem applyModern_eq (rootAt : Nat → Option Uint256) (below : List (BlockChain.Block β))
    (b : BlockChain.Block β) (s : State) :
    applyModern n rootAt below b s = certify n rootAt (projected n s below) b below := rfl

/-! ## The cases of a block -/

/-- A block carries no certificate, or one that was judged valid. -/
inductive CertifyStep (n : Node β) (rootAt : Nat → Option Uint256) (p : State)
    (b : BlockChain.Block β) (below : List (BlockChain.Block β)) : State → Prop where
  | plain : n.matchCertificate b.body p.setSize = some none → CertifyStep n rootAt p b below p
  | certificate (fb : FinalizedBlock) (cert : FinalityCertificate) :
      n.matchCertificate b.body p.setSize = some (some (fb, cert)) →
      judgeFinalityCertificate n rootAt p (b :: below) fb cert = true →
      CertifyStep n rootAt p b below (certified p fb below.length)

variable {below : List (BlockChain.Block β)} {b : BlockChain.Block β}

variable {p t : State} {rootAt : Nat → Option Uint256}

theorem certify_step (h : certify n rootAt p b below = some t) :
    CertifyStep n rootAt p b below t := by
  unfold certify at h
  split at h
  · cases h
  · next hmatch =>
    cases h
    exact .plain hmatch
  · next fb cert hmatch =>
    split_ifs at h with hjudge
    cases h
    exact .certificate fb cert hmatch hjudge

/-- What `Projected` does at a height of the modern era. -/
inductive ProjectStep (n : Node β) (s : State) (below : List (BlockChain.Block β)) : State → Prop where
  | bootstrap : below.length = n.modernStart → ProjectStep n s below (bootstrapState n below)
  | inactive : n.modernStart < below.length → ProjectStep n s below s
  | stay : n.modernStart < below.length → s.epochStarts ≠ [] →
      ProjectStep n s below (breakLineage n s below.length)
  | rotate : n.modernStart < below.length → s.epochStarts ≠ [] → s.handoverCertified = true →
      s.epochStarts.getLastD 0 + n.pos.finalityEpochBlocks ≤ below.length →
      ProjectStep n s below (breakLineage n (rotateEpoch n s below) below.length)

theorem projected_step (s : State)
    (h : n.modernStart ≤ below.length) : ProjectStep n s below (projected n s below) := by
  simp only [projected, Nat.not_lt.mpr h, if_false]
  split_ifs with hstart hinactive hrotate
  · exact .bootstrap hstart
  · exact .inactive (by omega)
  · rw [not_or] at hinactive
    exact .rotate (by omega) hinactive.2 hrotate.1 hrotate.2
  · rw [not_or] at hinactive
    exact .stay (by omega) hinactive.2

variable {s : State}

theorem applyBlock_step (h : applyBlock n rootAt below b s = some t)
    (hmodern : n.modernStart ≤ below.length) :
    CertifyStep n rootAt (projected n s below) b below t := by
  unfold applyBlock at h
  rw [if_pos hmodern, applyModern_eq] at h
  exact certify_step h

/-! ## Stamps and starts -/

/-- The sets that exist are stamped with the epochs they serve. -/
structure Stamped (s : State) : Prop where
  previous : ∀ x, s.previous = some x → x.epoch + 1 = s.epoch
  current : ∀ x, s.current = some x → x.epoch = s.epoch
  next : ∀ x, s.next = some x → x.epoch = s.epoch + 1
  known : s.current.isSome = true → s.next.isSome = true

/-- Epochs start later and later, each at least an epoch's length after the one before. -/
def Spaced (n : Node β) (s : State) : Prop :=
  s.epochStarts.Pairwise fun a b => a < b ∧ a + n.pos.finalityEpochBlocks ≤ b

/-- The snapshots carry the epoch they were taken for. -/
def Node.Stamps (n : Node β) : Prop :=
  ∀ below epoch x, n.snapshotAt below epoch = some x → x.epoch = epoch

theorem breakLineage_eq (s : State) (height : Nat) :
    breakLineage n s height = s ∨ breakLineage n s height = { s with lineageBroken := true } := by
  unfold breakLineage
  split_ifs
  · exact .inr rfl
  · exact .inl rfl

variable {s : State}

theorem Stamped.breakLineage (h : Stamped s) (height : Nat) :
    Stamped (breakLineage n s height) := by
  rcases breakLineage_eq (n := n) s height with heq | heq <;> rw [heq]
  · exact h
  · exact { h with }

theorem Stamped.certified (h : Stamped s) (fb : FinalizedBlock) (height : Nat) :
    Stamped (certified s fb height) :=
  { h with }

theorem stamped_bootstrap (hn : n.Stamps) (below : List (BlockChain.Block β)) :
    Stamped (bootstrapState n below) := by
  unfold bootstrapState
  split
  · next snap hsnap =>
    split_ifs
    · refine ⟨nofun, ?_, ?_, fun _ => rfl⟩
      · rintro x ⟨⟩
        exact hn _ _ _ hsnap
      · rintro x ⟨⟩
        rfl
    · exact ⟨nofun, nofun, nofun, nofun⟩
  · exact ⟨nofun, nofun, nofun, nofun⟩

theorem successorSet_stamp (hn : n.Stamps)
    {x : ValidatorSetSnapshot} (h : successorSet n s below = some x) : x.epoch = s.epoch + 1 := by
  have hcarried : ∀ y, s.current.map (·.withEpoch (s.epoch + 1)) = some y → y.epoch = s.epoch + 1 := by
    intro y hy
    obtain ⟨z, -, rfl⟩ := Option.map_eq_some_iff.mp hy
    rfl
  unfold successorSet at h
  split at h
  · next snap hsnap =>
    split_ifs at h
    · cases h
      exact hn _ _ _ hsnap
    · exact hcarried x h
  · exact hcarried x h

theorem successorSet_isSome (below : List (BlockChain.Block β))
    (h : s.current.isSome = true) : (successorSet n s below).isSome = true := by
  unfold successorSet
  split
  · split_ifs <;> simp [h]
  · simp [h]

theorem Stamped.rotate (hn : n.Stamps) (h : Stamped s)
    (below : List (BlockChain.Block β)) : Stamped (rotateEpoch n s below) := by
  refine ⟨fun x hx => ?_, fun x hx => h.next x hx, fun x hx => successorSet_stamp hn hx, fun hsome => ?_⟩
  · exact congrArg (· + 1) (h.current x hx)
  · exact successorSet_isSome below hsome

theorem Stamped.projected (hn : n.Stamps) (h : Stamped s) (hmodern : n.modernStart ≤ below.length) :
    Stamped (projected n s below) := by
  have hstep := projected_step s hmodern
  generalize Finality.projected n s below = p at hstep ⊢
  cases hstep with
  | bootstrap => exact stamped_bootstrap hn below
  | inactive => exact h
  | stay => exact h.breakLineage _
  | rotate => exact (h.rotate hn below).breakLineage _

variable {c : List (BlockChain.Block β)}

theorem TrackerAt.stamped (hn : n.Stamps) (h : TrackerAt n c s) : Stamped s := by
  induction h with
  | empty => exact ⟨nofun, nofun, nofun, nofun⟩
  | @block below s t r b _ happly ih =>
    by_cases hmodern : n.modernStart ≤ below.length
    · have hp := ih.projected hn hmodern
      cases applyBlock_step happly hmodern with
      | plain => exact hp
      | certificate fb => exact hp.certified fb _
    · unfold applyBlock at happly
      rw [if_neg hmodern] at happly
      cases happly
      exact ih

theorem Spaced.of_starts (h : Spaced n s) (heq : t.epochStarts = s.epochStarts) : Spaced n t := by
  unfold Spaced
  rw [heq]
  exact h

theorem Spaced.le_last (h : Spaced n s) {x : Nat} (hx : x ∈ s.epochStarts) :
    x ≤ s.epochStarts.getLastD 0 := by
  unfold Spaced at h
  rcases eq_nil_or_concat s.epochStarts with hnil | ⟨front, last, hconcat⟩
  · rw [hnil] at hx
    cases hx
  · rw [hconcat, concat_eq_append] at h hx ⊢
    rw [getLastD_eq_getLast?, getLast?_concat, Option.getD_some]
    rcases mem_append.mp hx with hfront | hlast
    · exact Nat.le_of_lt ((pairwise_append.mp h).2.2 x hfront last mem_cons_self).1
    · exact Nat.le_of_eq (mem_singleton.mp hlast)

theorem Spaced.rotate (h : Spaced n s) (hstarted : ∀ x ∈ s.epochStarts, x < below.length)
    (hlong : s.epochStarts.getLastD 0 + n.pos.finalityEpochBlocks ≤ below.length) :
    Spaced n (rotateEpoch n s below) := by
  show (s.epochStarts ++ [below.length]).Pairwise _
  refine pairwise_append.mpr ⟨h, pairwise_singleton _ _, fun x hx y hy => ?_⟩
  rw [mem_singleton.mp hy]
  have hle := h.le_last hx
  exact ⟨hstarted x hx, by omega⟩

theorem TrackerAt.spaced (h : TrackerAt n c s) : Spaced n s := by
  induction h with
  | empty => exact List.Pairwise.nil
  | @block below s t r b hbelow happly ih =>
    by_cases hmodern : n.modernStart ≤ below.length
    · have hp : Spaced n (Finality.projected n s below) := by
        have hstep := projected_step s hmodern
        generalize Finality.projected n s below = p at hstep ⊢
        cases hstep with
        | bootstrap =>
          unfold Spaced
          rw [(bootstrapState_epoch below).2]
          exact pairwise_singleton _ _
        | inactive => exact ih
        | stay => exact ih.of_starts (breakLineage_epochs s below.length).2.2.1
        | rotate hlow _ _ hlong =>
          have hstarted : ∀ x ∈ s.epochStarts, x < below.length := by
            intro x hx
            have := (hbelow.epochTable hlow).started x hx
            omega
          exact (ih.rotate hstarted hlong).of_starts (breakLineage_epochs _ below.length).2.2.1
      cases applyBlock_step happly hmodern with
      | plain => exact hp
      | certificate fb => exact hp.of_starts rfl
    · unfold applyBlock at happly
      rw [if_neg hmodern] at happly
      cases happly
      exact ih

/-! ## Handovers -/

/-- A block of the chain carries a certificate of the epoch that names the successor's hash and that
a quorum of the signing set has signed. -/
structure Handover (n : Node β) (c : List (BlockChain.Block β)) (epoch : Nat)
    (signing successor : ValidatorSetSnapshot) : Prop where
  certificate : ∃ b below setSize fb cert, b :: below <:+ c ∧
    n.matchCertificate b.body setSize = some (some (fb, cert)) ∧ fb.epoch = epoch ∧
    fb.validatorSetHash = n.setHash successor ∧
    verifyFinalityCertificate n.fastAggregateVerify (n.finalityDigest n.chainDomain fb) fb cert
      signing (n.setHash successor) = .OK

variable {c' : List (BlockChain.Block β)}

theorem Handover.suffix {epoch : Nat}
    {signing successor : ValidatorSetSnapshot} (h : Handover n c epoch signing successor)
    (hs : c <:+ c') : Handover n c' epoch signing successor := by
  obtain ⟨b, below, setSize, fb, cert, hsuffix, hrest⟩ := h.certificate
  exact ⟨b, below, setSize, fb, cert, hsuffix.trans hs, hrest⟩

/-- Once certified, the handover is that of the current set to the next one; and the current set
itself came in by a handover from the previous one, below the start of its epoch. -/
structure Authorized (n : Node β) (c : List (BlockChain.Block β)) (s : State) : Prop where
  handover : s.handoverCertified = true → ∃ signing successor, s.current = some signing ∧
    s.next = some successor ∧ Handover n c s.epoch signing successor
  rotated : 1 ≤ s.epoch → ∃ signing successor, s.previous = some signing ∧
    s.current = some successor ∧
    ∃ c', c' <:+ c ∧ c'.length ≤ s.epochStarts.getLastD 0 ∧
      Handover n c' (s.epoch - 1) signing successor

theorem Authorized.suffix (h : Authorized n c s) (hs : c <:+ c') : Authorized n c' s where
  handover hcertified := by
    obtain ⟨x, y, hx, hy, hh⟩ := h.handover hcertified
    exact ⟨x, y, hx, hy, hh.suffix hs⟩
  rotated hepoch := by
    obtain ⟨x, y, hx, hy, d, hd, hh⟩ := h.rotated hepoch
    exact ⟨x, y, hx, hy, d, hd.trans hs, hh⟩

theorem Authorized.breakLineage (h : Authorized n c s)
    (height : Nat) : Authorized n c (breakLineage n s height) := by
  rcases breakLineage_eq (n := n) s height with heq | heq <;> rw [heq]
  · exact h
  · exact ⟨h.handover, h.rotated⟩

theorem authorized_bootstrap (below : List (BlockChain.Block β)) :
    Authorized n below (bootstrapState n below) := by
  have hflag : (bootstrapState n below).handoverCertified = false := by
    unfold bootstrapState
    split
    · split_ifs <;> rfl
    · rfl
  refine ⟨fun h => ?_, fun h => ?_⟩
  · rw [hflag] at h
    cases h
  · rw [(bootstrapState_epoch below).1] at h
    exact absurd h (by decide)

theorem Authorized.rotate (h : Authorized n below s) (hcertified : s.handoverCertified = true) :
    Authorized n below (rotateEpoch n s below) := by
  refine ⟨nofun, fun _ => ?_⟩
  obtain ⟨x, y, hx, hy, hh⟩ := h.handover hcertified
  refine ⟨x, y, hx, hy, below, suffix_refl _, ?_, hh⟩
  show below.length ≤ (s.epochStarts ++ [below.length]).getLastD 0
  rw [getLastD_eq_getLast?, getLast?_concat]
  exact Nat.le_refl _

variable {r : Nat → Option Uint256} {fb : FinalizedBlock} {cert : FinalityCertificate}

variable {chain : List (BlockChain.Block β)}

/-- A valid certificate was signed by the set of its epoch over the hash of the set after it. -/
theorem judge_signed
    (h : judgeFinalityCertificate n r p chain fb cert = true) (hepoch : fb.epoch = p.epoch) :
    ∃ signing, p.current = some signing ∧
      verifyFinalityCertificate n.fastAggregateVerify (n.finalityDigest n.chainDomain fb) fb cert
        signing ((p.next.map n.setHash).getD 0) = .OK := by
  unfold judgeFinalityCertificate at h
  simp only [hepoch, ne_eq, not_true_eq_false, if_false, Bool.and_eq_true, decide_eq_true_eq] at h
  cases hcurrent : p.current with
  | none => simp [hcurrent] at h
  | some signing => exact ⟨signing, rfl, by simpa [hcurrent] using h.2⟩

theorem verify_successor {verify : List BlsPubkey → Uint256 → List UInt8 → Bool} {digest : Uint256}
    {set : ValidatorSetSnapshot} {hash : Uint256}
    (h : verifyFinalityCertificate verify digest fb cert set hash = .OK) :
    fb.validatorSetHash = hash := by
  unfold verifyFinalityCertificate at h
  split_ifs at h with _ _ hne
  exact Classical.not_not.mp hne

theorem Authorized.certified
    (h : Authorized n below p) (hstamped : Stamped p)
    (hmatch : n.matchCertificate b.body p.setSize = some (some (fb, cert)))
    (hjudge : judgeFinalityCertificate n r p (b :: below) fb cert = true) :
    Authorized n (b :: below) (certified p fb below.length) := by
  have hold := h.suffix (suffix_cons b below)
  refine ⟨fun hflag => ?_, hold.rotated⟩
  by_cases hepoch : fb.epoch = p.epoch
  · obtain ⟨signing, hcurrent, hverify⟩ := judge_signed hjudge hepoch
    obtain ⟨successor, hnext⟩ := Option.isSome_iff_exists.mp (hstamped.known (by simp [hcurrent]))
    rw [hnext, Option.map_some, Option.getD_some] at hverify
    exact ⟨signing, successor, hcurrent, hnext, b, below, p.setSize, fb, cert, suffix_refl _,
      hmatch, hepoch, verify_successor hverify, hverify⟩
  · exact hold.handover (by simpa [Finality.certified, hepoch] using hflag)

theorem TrackerAt.authorized (hn : n.Stamps) (h : TrackerAt n c s) : Authorized n c s := by
  induction h with
  | empty => exact ⟨nofun, nofun⟩
  | @block below s t r b hbelow happly ih =>
    by_cases hmodern : n.modernStart ≤ below.length
    · have hp : Authorized n below (Finality.projected n s below) := by
        have hstep := projected_step s hmodern
        generalize Finality.projected n s below = p at hstep ⊢
        cases hstep with
        | bootstrap => exact authorized_bootstrap below
        | inactive => exact ih
        | stay => exact ih.breakLineage _
        | rotate _ _ hcertified _ => exact (ih.rotate hcertified).breakLineage _
      cases applyBlock_step happly hmodern with
      | plain => exact hp.suffix (suffix_cons b below)
      | certificate fb cert hmatch hjudge =>
        exact hp.certified ((hbelow.stamped hn).projected hn hmodern) hmatch hjudge
    · unfold applyBlock at happly
      rw [if_neg hmodern] at happly
      cases happly
      exact ih.suffix (suffix_cons b below)

/-! ## What only moves one way -/

/-- The finalized checkpoint is the same or higher, and a broken lineage is still broken. -/
structure Advance (s t : State) : Prop where
  finalized : ∀ f, s.finalized = some f →
    ∃ f', t.finalized = some f' ∧ (f' = f ∨ f.height < f'.height)
  broken : s.lineageBroken = true → t.lineageBroken = true

theorem Advance.refl (s : State) : Advance s s := ⟨fun f hf => ⟨f, hf, .inl rfl⟩, id⟩

theorem Advance.trans {u : State} (h : Advance s t) (h' : Advance t u) : Advance s u := by
  refine ⟨fun f hf => ?_, fun hb => h'.broken (h.broken hb)⟩
  obtain ⟨f', hf', hle⟩ := h.finalized f hf
  obtain ⟨f'', hf'', hle'⟩ := h'.finalized f' hf'
  refine ⟨f'', hf'', ?_⟩
  rcases hle with rfl | hlt
  · exact hle'
  · rcases hle' with rfl | hlt'
    · exact .inr hlt
    · exact .inr (Nat.lt_trans hlt hlt')

theorem advance_breakLineage (s : State) (height : Nat) : Advance s (breakLineage n s height) := by
  rcases breakLineage_eq (n := n) s height with heq | heq <;> rw [heq]
  · exact .refl s
  · exact ⟨(Advance.refl s).finalized, fun _ => rfl⟩

/-- A certificate is placed above the finalized checkpoint. -/
theorem placement_above (h : checkCertificatePlacement n r s chain fb = .OK)
    {f : FinalizedCheckpoint} (hf : s.finalized = some f) : f.height < fb.height := by
  have hpass : ∀ g ∈ placementGuards n r s chain fb, g.1 = false :=
    (Guards.first_getD_eq (by simp [placementGuards])).mp h
  have hregress := hpass (s.finalized.any (fun f => fb.height ≤ f.height), .FINALITY_REGRESSION)
    (by simp [placementGuards])
  simpa [hf] using hregress

theorem advance_certified
    (h : judgeFinalityCertificate n r p chain fb cert = true) (height : Nat) :
    Advance p (certified p fb height) :=
  ⟨fun _ hf => ⟨_, rfl, .inr (placement_above (judge_placement h) hf)⟩, id⟩

theorem advance_block {s t : State} (hbelow : TrackerAt n below s)
    (happly : applyBlock n r below b s = some t) : Advance s t := by
  by_cases hmodern : n.modernStart ≤ below.length
  · have hp : Advance s (projected n s below) := by
      have hstep := projected_step s hmodern
      generalize projected n s below = p at hstep ⊢
      cases hstep with
      | bootstrap hstart =>
        -- nothing was tracked below the first modern height
        rw [hbelow.legacy (Nat.le_of_eq hstart)]
        exact ⟨nofun, nofun⟩
      | inactive => exact .refl s
      | stay => exact advance_breakLineage s _
      | rotate =>
        have hrotated : Advance s (rotateEpoch n s below) := ⟨(Advance.refl s).finalized, id⟩
        exact hrotated.trans (advance_breakLineage _ _)
    cases applyBlock_step happly hmodern with
    | plain => exact hp
    | certificate fb cert _ hjudge => exact hp.trans (advance_certified hjudge _)
  · unfold applyBlock at happly
    rw [if_neg hmodern] at happly
    cases happly
    exact .refl s

theorem TrackerAt.advance {c c' : List (BlockChain.Block β)} {s s' : State} (h' : TrackerAt n c' s')
    (h : TrackerAt n c s) (hs : c <:+ c') : Advance s s' := by
  induction h' with
  | empty =>
    rw [suffix_nil.mp hs] at h
    cases h
    exact .refl _
  | @block below t t' r b hbelow happly ih =>
    rcases suffix_cons_iff.mp hs with heq | hs
    · rw [heq] at h
      rw [h.unique (.block r b hbelow happly)]
      exact .refl _
    · exact (ih hs).trans (advance_block hbelow happly)

end B3Coin.Finality
