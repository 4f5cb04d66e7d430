import B3Coin.Lib.Transition
import B3Coin.Update.Downloader

/-!
# The update manager

`update/manager.cpp`. The state machine behind the update dialog, with the rollback
state it keeps on disk. The world around it restarts the process at any moment, loses
stores, answers requests as it likes and changes files.
-/
namespace B3Coin.Update

open Guards

inductive UpdateState where
  | UNCONFIGURED | IDLE | CHECKING | UPDATE_AVAILABLE | DOWNLOADING | READY_TO_INSTALL
  | AWAITING_SHUTDOWN | INSTALLING | FAILED
  deriving DecidableEq

structure PendingOffer where
  sequence : Nat
  payloadHash : Uint256
  deriving DecidableEq

@[ext]
structure SequenceState where
  floor : Nat := 0
  pending : Option PendingOffer := none
  deriving DecidableEq

structure UpdateConfig where
  manifestUrl : Text
  keys : ReleaseKeys
  os : Text
  arch : Text
  format : Text
  channel : Text := "stable".toList
  installed : Version
  allowedHosts : List Text
  maxArtifactBytes : Nat := 512 * 1024 * 1024
  downloadDir : Text
  deriving DecidableEq

structure UpdateManager where
  config : UpdateConfig
  state : UpdateState := .UNCONFIGURED
  error : String := ""
  manifest : Option Manifest := none
  /-- The artifact `m_offered` points to. -/
  offered : Option Artifact := none
  downloaded : Option Text := none
  sequencesState : SequenceState := {}
  persistenceReady : Bool := false
  deriving DecidableEq

/-- The reason a store gives, or the one the manager puts in its place. -/
def orElseError (e e' : String) : String := if e = "" then e' else e

def UpdateConfig.configured (C : UpdateCrypto) (c : UpdateConfig) : Bool :=
  c.manifestUrl != [] && c.keys.configured C && c.allowedHosts != [] && c.downloadDir != []

namespace UpdateManager

section

variable (C : UpdateCrypto) (m : UpdateManager) (answer : Answer) (now : Int)

/-- The constructor, with what `Load` gives. -/
def create (config : UpdateConfig) (load : Except String SequenceState) : UpdateManager :=
  if config.configured C = false then { config }
  else match load with
    | .error e => { config, state := .FAILED, error := orElseError e "update-sequence-load" }
    | .ok s =>
      if s.pending.any fun p => p.sequence == 0 || p.sequence != s.floor then
        { config, sequencesState := s, state := .FAILED, error := "update-sequence-state" }
      else { config, sequencesState := s, persistenceReady := true, state := .IDLE }

/-- Whether this is the one manifest at the floor that may be offered again. -/
def exactPending (manifest : Manifest) : Bool :=
  m.sequencesState.pending.any fun p =>
    manifest.sequence == p.sequence && manifest.payloadHash == p.payloadHash

/-- `MakeHostPolicy`. -/
def makeHostPolicy (exactPending : Bool) (now : Int) : HostPolicy where
  os := m.config.os
  arch := m.config.arch
  format := m.config.format
  channel := m.config.channel
  installed := m.config.installed
  lastAcceptedSequence :=
    if exactPending then (m.sequencesState.floor + (U64 - 1)) % U64 else m.sequencesState.floor
  now := now
  allowedHosts := m.config.allowedHosts
  maxArtifactBytes := m.config.maxArtifactBytes

/-- The first part of `CheckNow`: the manifest and its artifact, or the error with the state it
leads to. -/
def findOffer : Except (String × UpdateState) (Manifest × Artifact) :=
  match fetchManifestBytes m.config.manifestUrl m.config.allowedHosts answer with
  | .error e => .error (e, .FAILED)
  | .ok bytes =>
    match parseAndVerifyManifest C bytes m.config.keys with
    | .error e => .error (e, .FAILED)
    | .ok manifest =>
      match selectArtifact manifest (m.makeHostPolicy (m.exactPending manifest) now) with
      -- that there is nothing newer is no failure
      | .error e => .error (e, if e = "update-reject-not-newer" ∨ e = "update-reject-rollback" then
          .IDLE else .FAILED)
      | .ok a => .ok (manifest, a)

/-- What a check leaves: the manager, the state it gave to `Store`, and whether it made an
offer. -/
structure Checked where
  manager : UpdateManager
  handed : Option SequenceState
  published : Bool

/-- `CheckNow`, with the answer of `Store`. -/
def checkNow (store : Except String Unit) : Checked :=
  if m.state = .UNCONFIGURED ∨ m.persistenceReady = false ∨ m.state = .DOWNLOADING ∨
      m.state = .AWAITING_SHUTDOWN ∨ m.state = .INSTALLING then ⟨m, none, false⟩
  else
    let m := { m with
      state := .CHECKING, error := "", manifest := none, offered := none, downloaded := none }
    match m.findOffer C answer now with
    | .error (e, state) => ⟨{ m with error := e, state }, none, false⟩
    | .ok (manifest, a) =>
      let offer (s : SequenceState) : UpdateManager := { m with
        manifest := some manifest, offered := some a, sequencesState := s
        state := .UPDATE_AVAILABLE }
      if m.exactPending manifest then ⟨offer m.sequencesState, none, true⟩
      else
        let next : SequenceState :=
          ⟨manifest.sequence, some ⟨manifest.sequence, manifest.payloadHash⟩⟩
        match store with
        | .error e =>
          ⟨{ m with error := orElseError e "update-sequence-store", state := .FAILED }, some next,
            false⟩
        | .ok () => ⟨offer next, some next, true⟩

/-- `StartDownload`. -/
def startDownload (disk : Disk) (files : Files) : UpdateManager × Files :=
  match m.state, m.offered with
  | .UPDATE_AVAILABLE, some a =>
    match fetchArtifact C a m.config.downloadDir m.config.allowedHosts answer disk files with
    | (.error e, files) => ({ m with error := e, state := .FAILED }, files)
    | (.ok path, files) =>
      ({ m with error := "", downloaded := some path, state := .READY_TO_INSTALL }, files)
  | _, _ => (m, files)

/-- `RequestInstall`. -/
def requestInstall (supported : Bool) : UpdateManager :=
  if m.state ≠ .READY_TO_INSTALL ∨ m.downloaded = none then m
  else if supported = false then { m with error := "update-install-unsupported-platform" }
  else { m with state := .AWAITING_SHUTDOWN }

/-- `OnShutdownComplete`, with the answer of `Launch`; also the path that was launched. -/
def onShutdownComplete (launch : Except String Unit) : UpdateManager × Option Text :=
  match m.state, m.downloaded with
  | .AWAITING_SHUTDOWN, some path =>
    match launch with
    | .error e => ({ m with error := e, state := .FAILED }, some path)
    | .ok () => ({ m with state := .INSTALLING }, some path)
  | _, _ => (m, none)

end

end UpdateManager

/-! ## The world around it -/

/-- An offer as it was published, with what stood on disk at that moment. -/
structure Offer where
  manifest : Manifest
  keys : ReleaseKeys
  stored : SequenceState

/-- A launch of the installer, with the file behind the path at that moment. -/
structure Launched where
  keys : ReleaseKeys
  file : Option Text

/-- The disk, the running manager if there is one, and what was ever published and launched. -/
structure World where
  durable : SequenceState
  files : Files
  manager : Option UpdateManager := none
  offers : List Offer := []
  launches : List Launched := []

inductive Event where
  /-- The process starts with a configuration; `Load` may fail. -/
  | restart (config : UpdateConfig) (loadError : Option String)
  | crash
  | checkNow (answer : Answer) (now : Int) (store : Except String Unit)
  /-- The process dies in `CheckNow` when `Store` has done its work. -/
  | crashInStore (answer : Answer) (now : Int)
  | startDownload (answer : Answer) (disk : Disk)
  | requestInstall (supported : Bool)
  | onShutdownComplete (launch : Except String Unit)
  /-- Someone changes files, though not the downloaded one. -/
  | others (files : Files)

section Steps

variable (C : UpdateCrypto)

/-- A store is atomic: it is done as a whole, or fails without effect. -/
def World.check (w : World) (c : UpdateManager.Checked) (store : Except String Unit) : World :=
  let durable := match c.handed, store with
    | some next, .ok () => next
    | _, _ => w.durable
  { w with
    durable
    manager := some c.manager
    offers := match c.published, c.manager.manifest with
      | true, some manifest => ⟨manifest, c.manager.config.keys, durable⟩ :: w.offers
      | _, _ => w.offers }

def World.step (w : World) : Event → Option World
  | .restart config loadError =>
    let load := match loadError with
      | some e => .error e
      | none => .ok w.durable
    some { w with manager := some (.create C config load) }
  | .crash => some { w with manager := none }
  | .checkNow answer now store => w.manager.map fun m => w.check (m.checkNow C answer now store) store
  | .crashInStore answer now => w.manager.map fun m =>
    { w with
      durable := (m.checkNow C answer now (.ok ())).handed.getD w.durable
      manager := none }
  | .startDownload answer disk => w.manager.map fun m =>
    let (m, files) := m.startDownload C answer disk w.files
    { w with manager := some m, files }
  | .requestInstall supported =>
    w.manager.map fun m => { w with manager := some (m.requestInstall supported) }
  | .onShutdownComplete launch => w.manager.map fun m =>
    let (m', path) := m.onShutdownComplete launch
    { w with
      manager := some m'
      launches := (path.map fun p => ⟨m.config.keys, w.files p⟩).toList ++ w.launches }
  | .others files =>
    if ∀ path ∈ w.manager.bind (·.downloaded), files path = w.files path then some { w with files }
    else none

end Steps

end B3Coin.Update
