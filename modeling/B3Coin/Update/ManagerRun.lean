import B3Coin.Update.Manager

/-!
# Updates cannot be rolled back or forged

What a check can do is said once, in `CheckOutcome`. `Safe` is the invariant of the
world: the manager's memory is the state on disk, every offer lies at or below the
floor, and an offer at the floor is the pending one.
-/
namespace B3Coin.Update

open Guards List Option
open Transition (Run exec run_of_exec)

variable {C : UpdateCrypto} {signs : XOnlyPubKey → Text → Prop}

/-! ## What a check can do -/

namespace UpdateManager

/-- The manager after a check without an offer. -/
def cleared (m : UpdateManager) (state : UpdateState) (error : String) : UpdateManager :=
  { m with state, error, manifest := none, offered := none, downloaded := none }

/-- The manager after a check with an offer. -/
def offering (m : UpdateManager) (manifest : Manifest) (a : Artifact) (s : SequenceState) :
    UpdateManager :=
  { m with
    state := .UPDATE_AVAILABLE, error := "", manifest := some manifest, offered := some a
    downloaded := none, sequencesState := s }

end UpdateManager

/-- The pending offer of a manifest. -/
def Manifest.pending (m : Manifest) : PendingOffer := ⟨m.sequence, m.payloadHash⟩

/-- A manifest that verifies under the keys, and one of its artifacts. -/
structure Found (C : UpdateCrypto) (keys : ReleaseKeys) (manifest : Manifest) (a : Artifact) :
    Prop where
  verifies : ∃ file, parseAndVerifyManifest C file keys = .ok manifest
  listed : a ∈ manifest.artifacts

inductive CheckOutcome (C : UpdateCrypto) (m : UpdateManager) (store : Except String Unit) :
    UpdateManager.Checked → Prop
  | refused : CheckOutcome C m store ⟨m, none, false⟩
  | nothing (state : UpdateState) (error : String) :
      CheckOutcome C m store ⟨m.cleared state error, none, false⟩
  | lost (e error : String) (next : SequenceState) (hstore : store = .error e) :
      CheckOutcome C m store ⟨m.cleared .FAILED error, some next, false⟩
  | again (manifest : Manifest) (a : Artifact) (hready : m.persistenceReady = true)
      (hfound : Found C m.config.keys manifest a)
      (hpending : m.sequencesState.pending = some manifest.pending) :
      CheckOutcome C m store ⟨m.offering manifest a m.sequencesState, none, true⟩
  | fresh (manifest : Manifest) (a : Artifact) (hready : m.persistenceReady = true)
      (hfound : Found C m.config.keys manifest a) (hnewer : m.sequencesState.floor < manifest.sequence)
      (hstore : store = .ok ()) :
      CheckOutcome C m store ⟨m.offering manifest a ⟨manifest.sequence, some manifest.pending⟩,
        some ⟨manifest.sequence, some manifest.pending⟩, true⟩

section

variable {m : UpdateManager} {manifest : Manifest}

theorem findOffer_ok {answer : Answer} {now : Int} {a : Artifact}
    (h : m.findOffer C answer now = .ok (manifest, a)) : Found C m.config.keys manifest a ∧
      (m.makeHostPolicy (m.exactPending manifest) now).lastAcceptedSequence < manifest.sequence := by
  unfold UpdateManager.findOffer at h
  split at h
  · cases h
  split at h
  · cases h
  next hverify =>
    split at h
    · cases h
    next hselect =>
      cases h
      exact ⟨⟨⟨_, hverify⟩, (selectArtifact_ok hselect).1⟩, (selectArtifact_ok hselect).2⟩

theorem exactPending_iff :
    m.exactPending manifest = true ↔ m.sequencesState.pending = some manifest.pending := by
  unfold UpdateManager.exactPending Manifest.pending
  cases m.sequencesState.pending with
  | none => simp
  | some p =>
    obtain ⟨sequence, hash⟩ := p
    simp only [any_some, Bool.and_eq_true, beq_iff_eq, some.injEq,
      PendingOffer.mk.injEq]
    constructor <;> exact fun h => ⟨h.1.symm, h.2.symm⟩

end

theorem checkNow_outcome (m : UpdateManager) (answer : Answer) (now : Int)
    (store : Except String Unit) : CheckOutcome C m store (m.checkNow C answer now store) := by
  unfold UpdateManager.checkNow
  split
  · exact .refused
  next hrefuse =>
    have hready : m.persistenceReady = true := by
      rw [← Bool.not_eq_false]
      exact fun h => hrefuse (.inr (.inl h))
    simp only
    split
    · exact .nothing _ _
    next manifest a hfind =>
      obtain ⟨hfound, hnewer⟩ := findOffer_ok hfind
      split
      next hexact => exact .again manifest a hready hfound (exactPending_iff.mp hexact)
      next hexact =>
        split
        · exact .lost _ _ _ rfl
        · rw [Bool.not_eq_true] at hexact
          rw [hexact] at hnewer
          exact .fresh manifest a hready hfound hnewer rfl

/-! ## The invariant -/

section

variable (C : UpdateCrypto) (signs : XOnlyPubKey → Text → Prop) (durable : SequenceState)

/-- The bytes have the size and the digest of an artifact of a signed manifest. -/
def Genuine (keys : ReleaseKeys) (bytes : Text) : Prop :=
  ∃ payload manifest, Verified C signs keys payload manifest ∧
    ∃ a ∈ manifest.artifacts, bytes.length = a.size ∧ C.sha256 bytes = a.sha256

/-- What holds of the running manager. -/
structure ManagerSafe (files : Files) (m : UpdateManager) : Prop where
  memory : m.persistenceReady = true →
    m.sequencesState = durable ∧ ∀ p ∈ durable.pending, p.sequence = durable.floor
  offered : ∀ a ∈ m.offered, ∃ payload manifest,
    Verified C signs m.config.keys payload manifest ∧ a ∈ manifest.artifacts
  fresh : m.state = .UPDATE_AVAILABLE → m.downloaded = none
  downloaded : ∀ path ∈ m.downloaded, ∃ bytes, files path = some bytes ∧
    Genuine C signs m.config.keys bytes

/-- What holds of the offers that were ever published. -/
structure OffersSafe (offers : List Offer) : Prop where
  below : ∀ o ∈ offers, o.manifest.sequence ≤ durable.floor
  pending : ∀ o ∈ offers, o.manifest.sequence = durable.floor →
    durable.pending = some o.manifest.pending
  stored : ∀ o ∈ offers, o.stored = ⟨o.manifest.sequence, some o.manifest.pending⟩
  verified : ∀ o ∈ offers, ∃ payload, Verified C signs o.keys payload o.manifest
  unique : ∀ o ∈ offers, ∀ o' ∈ offers, o.manifest.sequence = o'.manifest.sequence →
    o.manifest.payloadHash = o'.manifest.payloadHash

structure Safe (w : World) : Prop where
  manager : ∀ m ∈ w.manager, ManagerSafe C signs w.durable w.files m
  offers : OffersSafe C signs w.durable w.offers
  launches : ∀ l ∈ w.launches, ∃ bytes, l.file = some bytes ∧ Genuine C signs l.keys bytes

end

section Steps

variable {durable : SequenceState} {files : Files} {m : UpdateManager} {offers : List Offer}

theorem Found.verified {keys : ReleaseKeys} {manifest : Manifest} {a : Artifact}
    (hC : Unforgeable C signs) (h : Found C keys manifest a) :
    ∃ payload, Verified C signs keys payload manifest := by
  obtain ⟨file, hverify⟩ := h.verifies
  obtain ⟨payload, -, -, hverified⟩ := parseAndVerifyManifest_ok hC hverify
  exact ⟨payload, hverified⟩

theorem ManagerSafe.create (config : UpdateConfig) (load : Except String SequenceState)
    (hload : ∀ s, load = .ok s → s = durable) :
    ManagerSafe C signs durable files (.create C config load) := by
  unfold UpdateManager.create
  split
  · exact ⟨nofun, nofun, nofun, nofun⟩
  split
  · exact ⟨nofun, nofun, nofun, nofun⟩
  next s =>
    split
    · exact ⟨nofun, nofun, nofun, nofun⟩
    next hpending =>
      obtain rfl := hload s rfl
      refine ⟨fun _ => ⟨rfl, fun p hp => ?_⟩, nofun, nofun, nofun⟩
      rw [mem_def.mp hp, any_some, Bool.or_eq_true, bne_iff_ne, not_or, not_not]
        at hpending
      exact hpending.2

theorem ManagerSafe.cleared (h : ManagerSafe C signs durable files m) (state : UpdateState)
    (error : String) : ManagerSafe C signs durable files (m.cleared state error) :=
  ⟨h.memory, nofun, fun _ => rfl, nofun⟩

theorem ManagerSafe.offering (hC : Unforgeable C signs) {manifest : Manifest} {a : Artifact}
    {s : SequenceState} (hfound : Found C m.config.keys manifest a)
    (hs : ∀ p ∈ s.pending, p.sequence = s.floor) :
    ManagerSafe C signs s files (m.offering manifest a s) := by
  obtain ⟨payload, hverified⟩ := hfound.verified hC
  refine ⟨fun _ => ⟨rfl, hs⟩, fun b hb => ?_, fun _ => rfl, nofun⟩
  cases hb
  exact ⟨payload, manifest, hverified, hfound.listed⟩

theorem OffersSafe.nil (durable : SequenceState) : OffersSafe C signs durable [] where
  below _ ho := absurd ho not_mem_nil
  pending _ ho := absurd ho not_mem_nil
  stored _ ho := absurd ho not_mem_nil
  verified _ ho := absurd ho not_mem_nil
  unique _ ho := absurd ho not_mem_nil

/-- An offer that is published with what stands on disk. -/
theorem OffersSafe.publish (h : OffersSafe C signs durable offers) {o : Offer}
    (hdurable : durable = ⟨o.manifest.sequence, some o.manifest.pending⟩)
    (hstored : o.stored = durable) (hverified : ∃ payload, Verified C signs o.keys payload o.manifest) :
    OffersSafe C signs durable (o :: offers) := by
  have hold : ∀ o' ∈ offers, o'.manifest.sequence = o.manifest.sequence →
      o'.manifest.payloadHash = o.manifest.payloadHash := by
    intro o' ho' heq
    have hpending := h.pending o' ho' (by rw [hdurable, heq])
    rw [hdurable] at hpending
    exact (PendingOffer.mk.inj (some.inj hpending)).2.symm
  constructor
  case below =>
    refine forall_mem_cons.mpr ⟨?_, h.below⟩
    rw [hdurable]
  case pending =>
    refine forall_mem_cons.mpr ⟨fun _ => ?_, h.pending⟩
    rw [hdurable]
  case stored => exact forall_mem_cons.mpr ⟨hstored.trans hdurable, h.stored⟩
  case verified => exact forall_mem_cons.mpr ⟨hverified, h.verified⟩
  case unique =>
    refine forall_mem_cons.mpr
      ⟨forall_mem_cons.mpr ⟨fun _ => rfl, fun o' ho' heq => (hold o' ho' heq.symm).symm⟩,
        fun o' ho' => forall_mem_cons.mpr ⟨hold o' ho', h.unique o' ho'⟩⟩

theorem OffersSafe.raise (h : OffersSafe C signs durable offers) {next : SequenceState}
    (hlt : durable.floor < next.floor) : OffersSafe C signs next offers where
  below o ho := (h.below o ho).trans hlt.le
  pending o ho heq := absurd (h.below o ho) (by omega)
  stored := h.stored
  verified := h.verified
  unique := h.unique

section

variable (h : ManagerSafe C signs durable files m)

include h

theorem ManagerSafe.startDownload (answer : Answer) (disk : Disk) :
    ManagerSafe C signs durable (m.startDownload C answer disk files).2
      (m.startDownload C answer disk files).1 := by
  unfold UpdateManager.startDownload
  split
  next a hstate hoffered =>
    have hnone := h.fresh hstate
    split
    · exact ⟨h.memory, h.offered, nofun, fun path hpath => nomatch hnone.symm.trans hpath⟩
    next path files' hfetch =>
      obtain ⟨bytes, hfile, hsize, hdigest⟩ := fetchArtifact_ok hfetch
      obtain ⟨payload, manifest, hverified, hlisted⟩ := h.offered a hoffered
      refine ⟨h.memory, h.offered, nofun, fun p hp => ?_⟩
      cases hp
      exact ⟨bytes, hfile, payload, manifest, hverified, a, hlisted, hsize, hdigest⟩
  · exact h

theorem ManagerSafe.requestInstall (supported : Bool) :
    ManagerSafe C signs durable files (m.requestInstall supported) := by
  unfold UpdateManager.requestInstall
  split
  · exact h
  split
  · exact { h with }
  · exact { h with fresh := nofun }

/-- What is launched is the downloaded path. -/
theorem ManagerSafe.onShutdownComplete (launch : Except String Unit) :
    ManagerSafe C signs durable files (m.onShutdownComplete launch).1 ∧
      ∀ path ∈ (m.onShutdownComplete launch).2, path ∈ m.downloaded := by
  unfold UpdateManager.onShutdownComplete
  split
  next path hstate hdownloaded =>
    have hpath : ∀ p ∈ some path, p ∈ m.downloaded := fun p hp => hdownloaded.trans hp
    split
    · exact ⟨{ h with fresh := nofun }, hpath⟩
    · exact ⟨{ h with fresh := nofun }, hpath⟩
  · exact ⟨h, nofun⟩

theorem ManagerSafe.others {files' : Files}
    (hsame : ∀ path ∈ m.downloaded, files' path = files path) :
    ManagerSafe C signs durable files' m where
  memory := h.memory
  offered := h.offered
  fresh := h.fresh
  downloaded path hpath := by
    obtain ⟨bytes, hfile, hgenuine⟩ := h.downloaded path hpath
    exact ⟨bytes, (hsame path hpath).trans hfile, hgenuine⟩

end

end Steps

/-! ## Every run -/

section Runs

variable {w w' : World}

/-- A check keeps the invariant and never lowers the floor. -/
theorem Safe.check (hC : Unforgeable C signs) (h : Safe C signs w) {m : UpdateManager}
    (hm : w.manager = some m) {store : Except String Unit} {c : UpdateManager.Checked}
    (hc : CheckOutcome C m store c) :
    Safe C signs (w.check c store) ∧ w.durable.floor ≤ (w.check c store).durable.floor := by
  have hsafe := h.manager m hm
  have hsame : ∀ m', ManagerSafe C signs w.durable w.files m' →
      Safe C signs { w with manager := some m' } := by
    refine fun m' hm' => ⟨fun m'' h'' => ?_, h.offers, h.launches⟩
    cases h''
    exact hm'
  cases hc with
  | refused => exact ⟨hsame m hsafe, le_rfl⟩
  | nothing state error => exact ⟨hsame _ (hsafe.cleared state error), le_rfl⟩
  | lost e error next hstore =>
    subst hstore
    exact ⟨hsame _ (hsafe.cleared _ error), le_rfl⟩
  | again manifest a hready hfound hpending =>
    obtain ⟨hmemory, hfloor⟩ := hsafe.memory hready
    rw [hmemory] at hpending
    have hdurable : w.durable = ⟨manifest.sequence, some manifest.pending⟩ :=
      SequenceState.ext (hfloor _ hpending).symm hpending
    refine ⟨⟨fun m' hm' => ?_, ?_, h.launches⟩, le_rfl⟩
    · cases hm'
      rw [hmemory]
      exact .offering hC hfound hfloor
    · exact h.offers.publish hdurable rfl (hfound.verified hC)
  | fresh manifest a hready hfound hnewer hstore =>
    subst hstore
    obtain ⟨hmemory, -⟩ := hsafe.memory hready
    rw [hmemory] at hnewer
    refine ⟨⟨fun m' hm' => ?_, ?_, h.launches⟩, hnewer.le⟩
    · cases hm'
      refine .offering hC hfound fun p hp => ?_
      cases hp
      rfl
    · exact (h.offers.raise hnewer).publish rfl rfl (hfound.verified hC)

/-- The process dies when `Store` is done: the floor is higher and nothing was offered. -/
theorem Safe.crashInStore (h : Safe C signs w) {m : UpdateManager} (hm : w.manager = some m)
    {c : UpdateManager.Checked} (hc : CheckOutcome C m (.ok ()) c) :
    OffersSafe C signs (c.handed.getD w.durable) w.offers ∧
      w.durable.floor ≤ (c.handed.getD w.durable).floor := by
  cases hc with
  | refused => exact ⟨h.offers, le_rfl⟩
  | nothing => exact ⟨h.offers, le_rfl⟩
  | lost e error next hstore => cases hstore
  | again => exact ⟨h.offers, le_rfl⟩
  | fresh manifest a hready hfound hnewer =>
    rw [((h.manager m hm).memory hready).1] at hnewer
    exact ⟨h.offers.raise hnewer, hnewer.le⟩

theorem Safe.step (hC : Unforgeable C signs) (h : Safe C signs w) {e : Event}
    (hstep : w.step C e = some w') : Safe C signs w' ∧ w.durable.floor ≤ w'.durable.floor := by
  cases e with
  | restart config loadError =>
    cases hstep
    refine ⟨⟨fun m hm => ?_, h.offers, h.launches⟩, le_rfl⟩
    cases hm
    refine .create config _ fun s hs => ?_
    cases loadError with
    | none => exact (Except.ok.inj hs).symm
    | some e => cases hs
  | crash =>
    cases hstep
    exact ⟨⟨fun m hm => absurd hm (not_mem_none m), h.offers, h.launches⟩, le_rfl⟩
  | checkNow answer now store =>
    obtain ⟨m, hm, rfl⟩ := map_eq_some_iff.mp hstep
    exact h.check hC hm (checkNow_outcome m answer now store)
  | crashInStore answer now =>
    obtain ⟨m, hm, rfl⟩ := map_eq_some_iff.mp hstep
    obtain ⟨hoffers, hfloor⟩ := h.crashInStore hm (checkNow_outcome m answer now _)
    exact ⟨⟨fun m hm => absurd hm (not_mem_none m), hoffers, h.launches⟩, hfloor⟩
  | startDownload answer disk =>
    obtain ⟨m, hm, rfl⟩ := map_eq_some_iff.mp hstep
    refine ⟨⟨fun m' hm' => ?_, h.offers, h.launches⟩, le_rfl⟩
    cases hm'
    exact (h.manager m hm).startDownload answer disk
  | requestInstall supported =>
    obtain ⟨m, hm, rfl⟩ := map_eq_some_iff.mp hstep
    refine ⟨⟨fun m' hm' => ?_, h.offers, h.launches⟩, le_rfl⟩
    cases hm'
    exact (h.manager m hm).requestInstall supported
  | onShutdownComplete launch =>
    obtain ⟨m, hm, rfl⟩ := map_eq_some_iff.mp hstep
    obtain ⟨hmanager, hpath⟩ := (h.manager m hm).onShutdownComplete launch
    refine ⟨⟨fun m' hm' => ?_, h.offers, fun l hl => ?_⟩, le_rfl⟩
    · cases hm'
      exact hmanager
    · rcases mem_append.mp hl with hl | hl
      · obtain ⟨path, hlaunched, rfl⟩ := map_eq_some_iff.mp (mem_toList.mp hl)
        exact (h.manager m hm).downloaded path (hpath path hlaunched)
      · exact h.launches l hl
  | others files =>
    obtain ⟨hsame, hw⟩ := ite_none_right_eq_some.mp hstep
    cases hw
    refine ⟨⟨fun m hm => (h.manager m hm).others fun path hpath => hsame path ?_, h.offers,
      h.launches⟩, le_rfl⟩
    exact mem_bind_iff.mpr ⟨m, hm, hpath⟩

theorem Safe.run (hC : Unforgeable C signs) (h : Safe C signs w) {events : List Event}
    (hrun : Run (World.step C) w events w') :
    Safe C signs w' ∧ w.durable.floor ≤ w'.durable.floor := by
  refine Run.invariant (P := fun _ v => Safe C signs v ∧ w.durable.floor ≤ v.durable.floor)
    ⟨h, le_rfl⟩ (fun _ s e t hs hstep => ?_) hrun
  obtain ⟨hsafe, hfloor⟩ := hs.1.step hC hstep
  exact ⟨hsafe, hs.2.trans hfloor⟩

/-- Nothing was offered or launched yet and no process runs; the disk is as it may be. -/
def World.start (durable : SequenceState) (files : Files) : World := { durable, files }

theorem safe_start (durable : SequenceState) (files : Files) :
    Safe C signs (.start durable files) where
  manager m hm := absurd hm (not_mem_none m)
  offers := OffersSafe.nil durable
  launches _ hl := absurd hl not_mem_nil

theorem Verified.payload_inj (hC : Unforgeable C signs) {keys keys' : ReleaseKeys}
    {payload payload' : Text} {m m' : Manifest} (h : Verified C signs keys payload m)
    (h' : Verified C signs keys' payload' m') (hhash : m.payloadHash = m'.payloadHash) :
    payload = payload' := by
  obtain ⟨m0, -, rfl⟩ := h.parsed
  obtain ⟨m1, -, rfl⟩ := h'.parsed
  exact hC.hash hhash

/-- What the update manager promises of a world and of every world it leads to. -/
structure Promise (C : UpdateCrypto) (signs : XOnlyPubKey → Text → Prop) (w : World) : Prop where
  floor : ∀ events w', Run (World.step C) w events w' → w.durable.floor ≤ w'.durable.floor
  /-- Every offer is what a signed payload says, and two at one sequence have one payload. -/
  one_payload : ∀ o ∈ w.offers, ∃ payload, Verified C signs o.keys payload o.manifest ∧
    ∀ o' ∈ w.offers, o'.manifest.sequence = o.manifest.sequence →
      ∀ payload', Verified C signs o'.keys payload' o'.manifest → payload' = payload
  stored_first : ∀ o ∈ w.offers, o.stored.floor = o.manifest.sequence ∧
    o.stored.pending = some ⟨o.manifest.sequence, o.manifest.payloadHash⟩
  launched : ∀ l ∈ w.launches, ∃ bytes, l.file = some bytes ∧
    ∃ payload manifest, Verified C signs l.keys payload manifest ∧
      ∃ a ∈ manifest.artifacts, bytes.length = a.size ∧ C.sha256 bytes = a.sha256

theorem Safe.promise (hC : Unforgeable C signs) (h : Safe C signs w) : Promise C signs w where
  floor _ _ hrun := (h.run hC hrun).2
  one_payload o ho := by
    obtain ⟨payload, hverified⟩ := h.offers.verified o ho
    refine ⟨payload, hverified, fun o' ho' hseq payload' hverified' => ?_⟩
    exact hverified'.payload_inj hC hverified (h.offers.unique o' ho' o ho hseq)
  stored_first o ho := by
    rw [h.offers.stored o ho]
    exact ⟨rfl, rfl⟩
  launched := h.launches

/-- Updates cannot be rolled back or forged, in any run from any state of the disk. -/
theorem updates_safe (hC : Unforgeable C signs) {durable : SequenceState} {files : Files}
    {events : List Event} (hrun : Run (World.step C) (.start durable files) events w) :
    Promise C signs w :=
  ((safe_start durable files).run hC hrun).1.promise hC

/-! A release that is offered, offered again after a crash, downloaded and installed. -/

def releasePayload : Text :=
  let hex (tail : String) : Text := List.replicate 61 '0' ++ tail.toList
  [MANIFEST_MAGIC, "channel=stable".toList, "sequence=7".toList, "published=100".toList,
    "expires=9000".toList, "notes_sha256=".toList ++ hex "001", "artifact.os=linux".toList,
    "artifact.arch=x86_64".toList, "artifact.format=targz".toList, "artifact.version=2.0.1".toList,
    "artifact.size=3".toList, "artifact.sha256=".toList ++ hex "126",
    "artifact.url=https://b3.example/b3".toList].flatMap (· ++ ['\n'])

def releaseKeys : ReleaseKeys := ⟨[[1, 0, 0, 0], [2, 0, 0, 0]], 2⟩

/-- The file of the release, signed by both keys. -/
def releaseFile : Text :=
  releasePayload ++ SIGNATURE_SEPARATOR ++ ['\n'] ++ releaseKeys.keys.flatMap fun key =>
    "sig=".toList ++ releaseKeyId key ++ ":".toList ++ List.replicate 128 '0' ++ ['\n']

/-- A numbering of the texts. -/
def textNumber : Text → Nat
  | [] => 0
  | c :: rest => c.toNat + 1 + 0x110001 * textNumber rest

theorem char_toNat_lt (c : Char) : c.toNat < 0x110000 := by
  have h := c.valid
  exact h.elim (fun h => h.trans (by decide)) fun h => h.2

theorem textNumber_injective : Function.Injective textNumber := by
  intro s
  induction s with
  | nil =>
    intro t h
    cases t with
    | nil => rfl
    | cons c t =>
      unfold textNumber at h
      omega
  | cons c s ih =>
    intro t h
    cases t with
    | nil =>
      unfold textNumber at h
      omega
    | cons c' t =>
      have hc := char_toNat_lt c
      have hc' := char_toNat_lt c'
      unfold textNumber at h
      obtain rfl : c = c' := Char.toNat_inj.mp (by omega)
      have hst : s = t := ih (by omega)
      rw [hst]

/-- Only the payload of the release was ever signed. -/
def releaseCrypto : UpdateCrypto where
  payloadHash := textNumber
  sha256 s := (s.map Char.toNat).sum
  isFullyValid _ := true
  verifySchnorr _ hash _ := decide (hash = textNumber releasePayload)

theorem releaseCrypto_unforgeable :
    Unforgeable releaseCrypto fun _ payload => payload = releasePayload where
  hash := textNumber_injective
  signature _ _ _ h := ⟨releasePayload, rfl, (of_decide_eq_true h).symm⟩

def releaseConfig : UpdateConfig where
  manifestUrl := "https://b3.example/manifest".toList
  keys := releaseKeys
  os := "linux".toList
  arch := "x86_64".toList
  format := "targz".toList
  installed := ⟨2, 0, 0⟩
  allowedHosts := ["b3.example".toList]
  downloadDir := "updates".toList

/-- The latest event first; the first store fails, and the process is lost after the second. -/
def releaseEvents : List Event :=
  let manifest : Answer := ⟨[.chunk (releaseFile.take 40), .chunk (releaseFile.drop 40)], true, ""⟩
  [.onShutdownComplete (.ok ()), .requestInstall true,
    .startDownload ⟨[.chunk ['a', 'b'], .chunk ['c']], true, ""⟩ { rnd := (1, 2) },
    .checkNow manifest 300 (.ok ()), .restart releaseConfig none, .crash,
    .checkNow manifest 200 (.ok ()), .checkNow manifest 150 (.error ""),
    .restart releaseConfig none]

theorem release_installed : ∃ w,
    Run (World.step releaseCrypto) (.start {} fun _ => none) releaseEvents w ∧
      w.launches.map (·.file) = [some ['a', 'b', 'c']] ∧
      w.offers.map (·.manifest.sequence) = [7, 7] ∧
      Promise releaseCrypto (fun _ payload => payload = releasePayload) w := by
  have heval : (exec (World.step releaseCrypto) (.start {} fun _ => none) releaseEvents).map
      (fun w => (w.launches.map (·.file), w.offers.map (·.manifest.sequence))) =
        some ([some ['a', 'b', 'c']], [7, 7]) := by
    decide +kernel
  obtain ⟨w, hexec, hw⟩ := map_eq_some_iff.mp heval
  obtain ⟨hlaunches, hoffers⟩ := Prod.mk.inj hw
  have hrun := run_of_exec hexec
  exact ⟨w, hrun, hlaunches, hoffers, updates_safe releaseCrypto_unforgeable hrun⟩

end Runs

end B3Coin.Update
