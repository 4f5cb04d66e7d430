import B3Coin.Update.Manifest

/-!
# Fetching manifests and artifacts

`update/downloader.cpp`. The transport reports redirects and chunks and stops when it
is told to; the server's answer is any sequence of them. An artifact is streamed into
a new file and gets its name only when its size and digest are right.
-/
namespace B3Coin.Update

open Guards

def MAX_REDIRECTS : Nat := 3

/-- What a transport reports before it ends. -/
inductive TransportEvent where
  | chunk (bytes : Text)
  | redirect (url : Text)
  deriving DecidableEq

/-- The answer of a server: what arrives, and how `Fetch` would end. -/
structure Answer where
  events : List TransportEvent
  ok : Bool
  error : String
  deriving DecidableEq

/-- `HostApproved`. -/
def hostApproved (url : Text) (allowedHosts : List Text) : Bool :=
  httpsHost url != [] && allowedHosts.contains (httpsHost url)

section Fetch

variable {σ : Type} (sink : σ → Text → σ × Bool) (onRedirect : σ → Text → σ × Bool)

/-- `UpdateTransport::Fetch`: an event that is refused ends the transfer with a failure. -/
def fetch (ok : Bool) : List TransportEvent → σ → σ × Bool
  | [], s => (s, ok)
  | event :: rest, s =>
    let (s, go) := match event with
      | .chunk bytes => sink s bytes
      | .redirect url => onRedirect s url
    if go then fetch ok rest s else (s, false)

end Fetch

/-- The error of a transfer that failed without a reason of the policy. -/
def transportError (error : String) : String := if error = "" then "update-fetch-failed" else error

/-! ## The manifest -/

structure ManifestTransfer where
  out : Text := []
  redirects : Nat := 0
  overflow : Bool := false

/-- `FetchManifestBytes`. -/
def fetchManifestBytes (url : Text) (allowedHosts : List Text) (answer : Answer) :
    Except String Text :=
  if hostApproved url allowedHosts = false then .error "update-fetch-host"
  else
    let (s, ok) := fetch
      (fun (s : ManifestTransfer) chunk =>
        if chunk.length > MAX_MANIFEST_BYTES - s.out.length then ({ s with overflow := true }, false)
        else ({ s with out := s.out ++ chunk }, true))
      (fun s redirect =>
        let s := { s with redirects := s.redirects + 1 }
        (s, s.redirects ≤ MAX_REDIRECTS && hostApproved redirect allowedHosts))
      answer.ok answer.events {}
    if s.overflow then .error "update-fetch-oversize"
    else if ok = false then .error (transportError answer.error)
    else .ok s.out

/-! ## An artifact -/

/-- The download directory: the contents of its files by path. -/
abbrev Files := Text → Option Text

def Files.set (files : Files) (path : Text) (content : Option Text) : Files :=
  fun p => if p = path then content else files p

theorem Files.set_self (files : Files) (path : Text) (content : Option Text) :
    files.set path content path = content := if_pos rfl

/-- How the file system behaves during one download. -/
structure Disk where
  /-- The random part of the temporary name. -/
  rnd : Nat × Nat
  opens : Bool := true
  /-- Whether the chunk after so many received bytes is written in full. -/
  writes : Nat → Bool := fun _ => true
  commits : Bool := true
  closes : Bool := true
  removes : Bool := true
  renames : Bool := true

structure ArtifactTransfer where
  /-- What the hasher has seen and the file holds. -/
  received : Text := []
  redirects : Nat := 0
  overflow : Bool := false
  writeFailed : Bool := false

/-- `ArtifactExtension`. -/
def artifactExtension (format : Text) : Text :=
  if format = "targz".toList then "tar.gz".toList else format

section

variable (C : UpdateCrypto) (artifact : Artifact) (dir : Text) (allowedHosts : List Text)
  (answer : Answer) (disk : Disk)

def inDir (name : Text) : Text := dir ++ "/".toList ++ name

/-- `GetHex`, which prints the last byte first. -/
def getHex (v : Uint256) : Text := hexStr (bigEndian 32 v).reverse

def tempPath : Text :=
  inDir dir ("hive-update-".toList ++ (toString disk.rnd.1).toList ++ (toString disk.rnd.2).toList ++
    ".part".toList)

def finalPath (got : Uint256) (format : Text) : Text :=
  inDir dir ("hive-update-".toList ++ getHex got ++ ".".toList ++ artifactExtension format)

/-- The transfer of an artifact. -/
def transferArtifact : ArtifactTransfer × Bool :=
  fetch
    (fun (s : ArtifactTransfer) chunk =>
      if s.received.length > artifact.size ∨ chunk.length > artifact.size - s.received.length then
        ({ s with overflow := true }, false)
      else if disk.writes s.received.length = false then ({ s with writeFailed := true }, false)
      else ({ s with received := s.received ++ chunk }, true))
    (fun s redirect =>
      let s := { s with redirects := s.redirects + 1 }
      (s, s.redirects ≤ MAX_REDIRECTS && hostApproved redirect allowedHosts))
    answer.ok answer.events {}

/-- The checks between the transfer and the final name; each failure removes the new file. -/
def checkTransfer (s : ArtifactTransfer) (ok : Bool) : Except String Unit := do
  reject s.overflow "update-fetch-oversize"
  reject s.writeFailed "update-fetch-write"
  reject (ok = false) (transportError answer.error)
  reject (s.received.length ≠ artifact.size) "update-fetch-truncated"
  reject (disk.commits = false) "update-fetch-write"
  reject (C.sha256 s.received ≠ artifact.sha256) "update-fetch-digest"
  reject (disk.closes = false) "update-fetch-write"

/-- What stood under the final name is removed, and the new file takes it. -/
def publish (tmp path content : Text) (files : Files) : Except String Text × Files :=
  if disk.removes = false then (.error "update-fetch-rename", files.set tmp none)
  else if disk.renames = false then
    (.error "update-fetch-rename", (files.set path none).set tmp none)
  else (.ok path, (files.set tmp none).set path (some content))

/-- `FetchArtifact`: the path of the verified file, and the files afterwards. -/
def fetchArtifact (files : Files) : Except String Text × Files :=
  if hostApproved artifact.url allowedHosts = false then (.error "update-fetch-host", files)
  else
    let tmp := tempPath dir disk
    if (files tmp).isSome ∨ disk.opens = false then (.error "update-fetch-tempfile", files)
    else
      let (s, ok) := transferArtifact artifact allowedHosts answer disk
      match checkTransfer C artifact answer disk s ok with
      | .error e => (.error e, files.set tmp none)
      | .ok () => publish disk tmp (finalPath dir (C.sha256 s.received) artifact.format) s.received files

end

section

variable {files : Files} {path : Text} {files' : Files} {C : UpdateCrypto} {artifact : Artifact} {answer : Answer} {disk : Disk}

theorem checkTransfer_ok {s : ArtifactTransfer} {ok : Bool}
    (h : checkTransfer C artifact answer disk s ok = .ok ()) :
    s.received.length = artifact.size ∧ C.sha256 s.received = artifact.sha256 := by
  have h := of_seq h
  have h := of_seq h
  have h := of_seq h
  obtain ⟨hsize, h⟩ := seq_eq_ok.mp h
  have h := of_seq h
  obtain ⟨hdigest, -⟩ := seq_eq_ok.mp h
  exact ⟨not_not.mp (reject_eq_ok.mp hsize), not_not.mp (reject_eq_ok.mp hdigest)⟩

theorem publish_ok {tmp path' content : Text}
    (h : publish disk tmp path content files = (.ok path', files')) :
    files' path' = some content := by
  unfold publish at h
  split_ifs at h
  · cases h
  · cases h
  · cases h
    exact Files.set_self _ _ _

/-- The file behind a fetched path has the size and the digest of the artifact. -/
theorem fetchArtifact_ok {dir : Text} {allowedHosts : List Text}
    (h : fetchArtifact C artifact dir allowedHosts answer disk files = (.ok path, files')) :
    ∃ bytes, files' path = some bytes ∧ bytes.length = artifact.size ∧
      C.sha256 bytes = artifact.sha256 := by
  unfold fetchArtifact at h
  simp only at h
  split at h
  · cases h
  split at h
  · cases h
  split at h
  · cases h
  next hcheck => exact ⟨_, publish_ok h, checkTransfer_ok hcheck⟩

end

end B3Coin.Update
