import B3Coin.Basic
import B3Coin.Lib.Codec
import B3Coin.Lib.Guards
import Mathlib.Data.Finset.Card

/-!
# Update manifests

`update/manifest.cpp`. A manifest file is a payload of lines in a fixed order and a
section of signatures over the hash of the payload bytes. A text is the list of its
characters, one for each byte of the file.
-/
namespace B3Coin.Update

open Guards List

abbrev Text := List Char
abbrev XOnlyPubKey := List UInt8

/-- The hashes and the signature scheme. -/
structure UpdateCrypto where
  /-- The tagged hash of the payload bytes, which is what the keys sign. -/
  payloadHash : Text → Uint256
  sha256 : Text → Uint256
  isFullyValid : XOnlyPubKey → Bool
  verifySchnorr : XOnlyPubKey → Uint256 → List UInt8 → Bool

def MAX_MANIFEST_BYTES : Nat := 64 * 1024
def MAX_ARTIFACTS : Nat := 32
def MAX_PUBLISH_SKEW : Int := 2 * 60 * 60
def MANIFEST_MAGIC : Text := "B3-HIVE-MANIFEST-V1".toList
def SIGNATURE_SEPARATOR : Text := "-----SIGNATURES-----".toList
def INT64_MAX : Nat := 2 ^ 63 - 1

/-! ## Numbers and words -/

/-- The loop of `StrictU64`. -/
def digits : Nat → Text → Option Nat
  | v, [] => some v
  | v, c :: rest =>
    if c < '0' ∨ c > '9' then none
    else
      let d := c.toNat - '0'.toNat
      if v > (UINT64_MAX - d) / 10 then none else digits (v * 10 + d) rest

/-- `StrictU64`. -/
def strictU64 (s : Text) : Option Nat :=
  if s = [] ∨ s.length > 20 then none
  else if s.length > 1 ∧ s.head? = some '0' then none
  else digits 0 s

/-- `HexDigit`. -/
def hexDigit (c : Char) : Option Nat :=
  if '0' ≤ c ∧ c ≤ '9' then some (c.toNat - '0'.toNat)
  else if 'a' ≤ c ∧ c ≤ 'f' then some (c.toNat - 'a'.toNat + 10)
  else if 'A' ≤ c ∧ c ≤ 'F' then some (c.toNat - 'A'.toNat + 10)
  else none

def isSpace (c : Char) : Bool := [' ', '\x0c', '\n', '\r', '\t', '\x0b'].contains c

/-- `TryParseHex`: pairs of digits, with spaces between them skipped. -/
def tryParseHex : Text → Option (List UInt8)
  | [] => some []
  | [c] => if isSpace c then some [] else none
  | c₁ :: c₂ :: rest =>
    if isSpace c₁ then tryParseHex (c₂ :: rest)
    else match hexDigit c₁, hexDigit c₂ with
      | some h, some l => (tryParseHex rest).map (UInt8.ofNat (16 * h + l) :: ·)
      | _, _ => none

def lowerHex (c : Char) : Bool := ('0' ≤ c && c ≤ '9') || ('a' ≤ c && c ≤ 'f')

/-- `Strict32Hex`. -/
def strict32Hex (s : Text) : Option Uint256 :=
  if s.length ≠ 64 then none
  else if s.all lowerHex = false then none
  else match tryParseHex s with
    | none => none
    | some b => if b.length ≠ 32 then none else some (Codec.leValue b.reverse)

/-- `SplitKV`. -/
def splitKV (line : Text) : Option (Text × Text) :=
  match line.dropWhile (· != '=') with
  | [] => none
  | _ :: value =>
    let key := line.takeWhile (· != '=')
    if key = [] then none else some (key, value)

structure Version where
  major : Nat := 0
  minor : Nat := 0
  patch : Nat := 0
  deriving DecidableEq

/-- The order of versions compares field by field. -/
def Version.lt (a b : Version) : Bool :=
  a.major < b.major || (a.major == b.major &&
    (a.minor < b.minor || (a.minor == b.minor && a.patch < b.patch)))

def versionField (s : Text) : Option Nat := (strictU64 s).filter (· ≤ 0xffffffff)

/-- `ParseVersion`: two fields that end at a dot, and the rest. -/
def parseVersion (s : Text) : Option Version := do
  let _ ← (s.dropWhile (· != '.')).head?
  let major ← versionField (s.takeWhile (· != '.'))
  let s := (s.dropWhile (· != '.')).tail
  let _ ← (s.dropWhile (· != '.')).head?
  let minor ← versionField (s.takeWhile (· != '.'))
  let patch ← versionField (s.dropWhile (· != '.')).tail
  some ⟨major, minor, patch⟩

/-- `HttpsHost`: empty when the URL is not strictly https or malformed. -/
def httpsHost (url : Text) : Text :=
  let scheme := "https://".toList
  if url.take scheme.length ≠ scheme then []
  else
    let authority := (url.drop scheme.length).takeWhile fun c =>
      !(['/', '?', '#'].contains c)
    if authority = [] ∨ authority.contains '@' then []
    else match authority.dropWhile (· != ':') with
      | [] => authority.map Char.toLower
      | _ :: port =>
        if port ≠ "443".toList then []
        else (authority.takeWhile (· != ':')).map Char.toLower

/-! ## The payload -/

structure Artifact where
  os : Text
  arch : Text
  format : Text
  version : Version
  size : Nat
  sha256 : Uint256
  url : Text
  deriving DecidableEq

structure Manifest where
  channel : Text
  sequence : Nat
  published : Int
  expires : Int
  notesSha256 : Uint256
  artifacts : List Artifact
  payloadHash : Uint256 := 0
  deriving DecidableEq

def VALID_OS : List Text := ["macos".toList, "windows".toList, "linux".toList]
def VALID_ARCH : List Text := ["arm64".toList, "x86".toList, "x86_64".toList]
def VALID_FORMAT : List Text :=
  ["dmg".toList, "pkg".toList, "exe".toList, "appimage".toList, "targz".toList, "zip".toList]

/-- The complete lines of a text; a last line without its end is refused. -/
def splitLines : Text → Text → Option (List Text)
  | line, [] => if line = [] then some [] else none
  | line, c :: rest =>
    if c = '\n' then (splitLines [] rest).map (line.reverse :: ·) else splitLines (c :: line) rest

/-- `expect_field`: the value of the next line, which has to have this key. -/
def expectField (want : String) (e : String) : List Text → Except String (Text × List Text)
  | [] => .error e
  | line :: rest =>
    match splitKV line with
    | none => .error e
    | some (key, value) => if key ≠ want.toList then .error e else .ok (value, rest)

/-- The body of the loop over the artifact blocks. -/
def parseArtifact (lines : List Text) : Except String (Artifact × List Text) := do
  let e := "update-manifest-artifact"
  let (os, lines) ← expectField "artifact.os" e lines
  reject (os ∉ VALID_OS) e
  let (arch, lines) ← expectField "artifact.arch" e lines
  reject (arch ∉ VALID_ARCH) e
  let (format, lines) ← expectField "artifact.format" e lines
  reject (format ∉ VALID_FORMAT) e
  let (v, lines) ← expectField "artifact.version" e lines
  let version ← demand (parseVersion v) "update-manifest-version"
  let (v, lines) ← expectField "artifact.size" e lines
  let size ← demand ((strictU64 v).filter (0 < ·)) "update-manifest-number"
  let (v, lines) ← expectField "artifact.sha256" e lines
  let sha256 ← demand (strict32Hex v) "update-manifest-hex"
  let (url, lines) ← expectField "artifact.url" e lines
  reject (url.length > 1024) e
  reject (httpsHost url = []) "update-manifest-url"
  .ok (⟨os, arch, format, version, size, sha256, url⟩, lines)

/-- The loop over the artifact blocks of seven lines each; a shorter rest is refused by the
body. -/
def parseArtifacts (done : List Artifact) : List Text → Except String (List Artifact)
  | [] => .ok done
  | l₁ :: l₂ :: l₃ :: l₄ :: l₅ :: l₆ :: l₇ :: rest => do
    let (a, _) ← parseArtifact [l₁, l₂, l₃, l₄, l₅, l₆, l₇]
    reject (done.length + 1 > MAX_ARTIFACTS) "update-manifest-artifact-count"
    parseArtifacts (done ++ [a]) rest
  | lines => do
    let (a, _) ← parseArtifact lines
    .ok (done ++ [a])

def Artifact.target (a : Artifact) : Text := a.os ++ "/".toList ++ a.arch ++ "/".toList ++ a.format

/-- The payload lines, in strict order. -/
def parsePayload (payload : Text) : Except String Manifest := do
  let e := "update-manifest-field-order"
  let number := "update-manifest-number"
  let lines ← demand (splitLines [] payload) "update-manifest-truncated"
  reject (lines.head? ≠ some MANIFEST_MAGIC) "update-manifest-magic"
  let (channel, lines) ← expectField "channel" e lines.tail
  reject (channel = [] ∨ channel.length > 32) e
  let (v, lines) ← expectField "sequence" e lines
  let sequence ← demand (strictU64 v) number
  let (v, lines) ← expectField "published" e lines
  let published ← demand ((strictU64 v).filter (· ≤ INT64_MAX)) number
  let (v, lines) ← expectField "expires" e lines
  let expires ← demand ((strictU64 v).filter (· ≤ INT64_MAX)) number
  let (v, lines) ← expectField "notes_sha256" e lines
  let notesSha256 ← demand (strict32Hex v) "update-manifest-hex"
  let artifacts ← parseArtifacts [] lines
  reject (artifacts = []) "update-manifest-artifact"
  reject (¬ (artifacts.map Artifact.target).Nodup) "update-manifest-duplicate-target"
  .ok { channel, sequence, published, expires, notesSha256, artifacts }

/-! ## The signatures -/

structure ReleaseKeys where
  keys : List XOnlyPubKey
  threshold : Nat
  deriving DecidableEq

def hexChar (n : Nat) : Char := "0123456789abcdef".toList.getD n '0'

/-- `HexStr`. -/
def hexStr (b : List UInt8) : Text :=
  b.flatMap fun x => [hexChar (x.toNat / 16), hexChar (x.toNat % 16)]

/-- `ReleaseKeyId`. -/
def releaseKeyId (key : XOnlyPubKey) : Text := hexStr (key.take 4)

section Verify

variable (C : UpdateCrypto)

/-- `Configured`: enough keys, all valid and no two alike. -/
def ReleaseKeys.configured (k : ReleaseKeys) : Bool :=
  k.threshold != 0 && decide (k.threshold ≤ k.keys.length) && k.keys.all C.isFullyValid &&
    decide k.keys.Nodup

/-- The loop over the pinned keys for one signature line: an index is counted when the key
verifies, and a key of that id that does not is an error. -/
def countKeys (hash : Uint256) (keyid : Text) (sig : List UInt8) :
    List (XOnlyPubKey × Nat) → Finset Nat → Except String (Finset Nat)
  | [], signed => .ok signed
  | (key, i) :: rest, signed =>
    if releaseKeyId key ≠ keyid then countKeys hash keyid sig rest signed
    else if C.verifySchnorr key hash sig then countKeys hash keyid sig rest (insert i signed)
    else .error "update-manifest-sig-invalid"

/-- One line of the signature section. -/
def signatureLine (keys : ReleaseKeys) (hash : Uint256) (signed : Finset Nat) (x : Text × Nat) :
    Except String (Finset Nat) := do
  let e := "update-manifest-sig-format"
  let (key, value) ← demand (splitKV x.1) e
  reject (key ≠ "sig".toList) e
  reject (x.2 + 1 > 64) e
  reject ((value.takeWhile (· != ':')).length ≠ 8 ∨ value.length ≠ 8 + 1 + 128) e
  let sig ← demand (tryParseHex (value.drop 9)) e
  reject (sig.length ≠ 64) e
  countKeys C hash (value.take 8) sig keys.keys.zipIdx signed

/-- The part before the first occurrence of the separator, and the part after it. -/
def splitAtText (sep : Text) : Text → Option (Text × Text)
  | [] => if sep = [] then some ([], []) else none
  | c :: rest =>
    if (c :: rest).take sep.length = sep then some ([], (c :: rest).drop sep.length)
    else (splitAtText sep rest).map fun x => (c :: x.1, x.2)

/-- The payload and the signature section of a file. -/
def splitFile (file : Text) : Except String (Text × Text) := do
  reject (file.length > MAX_MANIFEST_BYTES) "update-manifest-oversize"
  reject ('\r' ∈ file) "update-manifest-crlf"
  reject (file.getLast? ≠ some '\n') "update-manifest-truncated"
  let (payload, signatures) ← demand (splitAtText (SIGNATURE_SEPARATOR ++ ['\n']) file)
    "update-manifest-no-signatures"
  reject (payload ≠ [] ∧ payload.getLast? ≠ some '\n') "update-manifest-no-signatures"
  .ok (payload, signatures)

/-- `ParseAndVerifyManifest`. -/
def parseAndVerifyManifest (file : Text) (keys : ReleaseKeys) : Except String Manifest := do
  reject (keys.configured C = false) "update-keys-unconfigured"
  let (payload, signatures) ← splitFile file
  let m ← parsePayload payload
  let m := { m with payloadHash := C.payloadHash payload }
  let lines ← signatureLines signatures
  let signed ← lines.zipIdx.foldlM (signatureLine C keys m.payloadHash) ∅
  reject (signed.card < keys.threshold) "update-manifest-sig-threshold"
  .ok m
where
  /-- A signature line without its end is an error of its own. -/
  signatureLines (signatures : Text) : Except String (List Text) :=
    demand (splitLines [] signatures) "update-manifest-truncated"

end Verify

/-! ## The artifact to offer -/

structure HostPolicy where
  os : Text
  arch : Text
  format : Text
  channel : Text
  installed : Version
  lastAcceptedSequence : Nat
  now : Int
  allowedHosts : List Text
  maxArtifactBytes : Nat
  deriving DecidableEq

/-- `SelectArtifact`. -/
def selectArtifact (m : Manifest) (host : HostPolicy) : Except String Artifact := do
  reject (m.channel ≠ host.channel) "update-reject-channel"
  reject (host.now ≥ m.expires) "update-reject-expired"
  reject (m.published > host.now + MAX_PUBLISH_SKEW) "update-reject-future"
  reject (m.expires ≤ m.published) "update-reject-expired"
  reject (m.sequence ≤ host.lastAcceptedSequence) "update-reject-rollback"
  let found ← demand
    (m.artifacts.find? fun a => a.os == host.os && a.arch == host.arch && a.format == host.format)
    "update-reject-platform"
  reject (host.installed.lt found.version = false) "update-reject-not-newer"
  reject (found.size > host.maxArtifactBytes) "update-reject-artifact-size"
  reject (httpsHost found.url = []) "update-reject-url"
  reject (httpsHost found.url ∉ host.allowedHosts) "update-reject-host"
  .ok found

theorem selectArtifact_ok {m : Manifest} {host : HostPolicy} {a : Artifact}
    (h : selectArtifact m host = .ok a) :
    a ∈ m.artifacts ∧ host.lastAcceptedSequence < m.sequence := by
  have h := of_seq h
  have h := of_seq h
  have h := of_seq h
  have h := of_seq h
  obtain ⟨hsequence, h⟩ := seq_eq_ok.mp h
  obtain ⟨found, hfound, h⟩ := bind_eq_ok.mp h
  have h := of_seq h
  have h := of_seq h
  have h := of_seq h
  have h := of_seq h
  cases h
  exact ⟨mem_of_find?_eq_some (demand_eq_ok.mp hfound), not_le.mp (reject_eq_ok.mp hsequence)⟩

/-! ## What the signatures vouch for -/

section Signed

variable {C : UpdateCrypto}

section

variable (C : UpdateCrypto) (signs : XOnlyPubKey → Text → Prop) (keys : ReleaseKeys)

/-- `signs k payload`: the holder of `k` signed these payload bytes. Signatures cannot be forged
and the payload hash is free of collisions. -/
structure Unforgeable : Prop where
  hash : Function.Injective C.payloadHash
  signature : ∀ key hash sig, C.verifySchnorr key hash sig = true →
    ∃ payload, signs key payload ∧ C.payloadHash payload = hash

/-- At least the threshold number of different pinned keys signed the payload. -/
def ThresholdSigned (payload : Text) : Prop :=
  ∃ signers : Finset XOnlyPubKey, keys.threshold ≤ signers.card ∧
    ∀ key ∈ signers, key ∈ keys.keys ∧ signs key payload

/-- Every counted index belongs to a key that verified the hash. -/
def Counted (hash : Uint256) (signed : Finset Nat) : Prop :=
  ∀ i ∈ signed, ∃ key, keys.keys[i]? = some key ∧ ∃ sig, C.verifySchnorr key hash sig = true

end

variable {keys : ReleaseKeys}

variable {hash : Uint256} {signed : Finset Nat}

theorem countKeys_counted {keyid : Text} {sig : List UInt8}
    {pairs : List (XOnlyPubKey × Nat)} {signed' : Finset Nat}
    (hpairs : ∀ x ∈ pairs, keys.keys[x.2]? = some x.1) (h : Counted C keys hash signed)
    (hok : countKeys C hash keyid sig pairs signed = .ok signed') : Counted C keys hash signed' := by
  induction pairs generalizing signed with
  | nil =>
    cases hok
    exact h
  | cons x pairs ih =>
    obtain ⟨key, i⟩ := x
    have hrest := fun x hx => hpairs x (mem_cons_of_mem _ hx)
    unfold countKeys at hok
    split_ifs at hok with hid hverify
    · exact ih hrest h hok
    · refine ih hrest (fun j hj => ?_) hok
      rcases Finset.mem_insert.mp hj with rfl | hj
      · exact ⟨key, hpairs _ mem_cons_self, sig, hverify⟩
      · exact h j hj

theorem signatureLine_counted {signed' : Finset Nat}
    {x : Text × Nat} (h : Counted C keys hash signed)
    (hok : signatureLine C keys hash signed x = .ok signed') : Counted C keys hash signed' := by
  obtain ⟨kv, -, hok⟩ := bind_eq_ok.mp hok
  have hok := of_seq hok
  have hok := of_seq hok
  have hok := of_seq hok
  obtain ⟨sig, -, hok⟩ := bind_eq_ok.mp hok
  have hok := of_seq hok
  exact countKeys_counted (fun x hx => mk_mem_zipIdx_iff_getElem?.mp hx) h hok

theorem signatureLines_counted {lines : List (Text × Nat)}
    (hok : lines.foldlM (signatureLine C keys hash) ∅ = .ok signed) : Counted C keys hash signed :=
  (foldlM_refines (Counted C keys hash) (fun _ => ()) (fun _ _ => ())
    (fun _ _ _ h hline => ⟨signatureLine_counted h hline, rfl⟩)
    (fun i hi => absurd hi (Finset.notMem_empty i)) hok).1

variable {signs : XOnlyPubKey → Text → Prop}

/-- Different counted indices are different keys, since no key is pinned twice. -/
theorem Counted.thresholdSigned {payload : Text} (hC : Unforgeable C signs) (hnd : keys.keys.Nodup)
    (h : Counted C keys (C.payloadHash payload) signed) (hcard : keys.threshold ≤ signed.card) :
    ThresholdSigned signs keys payload := by
  have hkey : ∀ i ∈ signed, keys.keys[i]? = some (keys.keys.getD i []) := by
    intro i hi
    obtain ⟨key, hget, -⟩ := h i hi
    rw [getD_eq_getElem?_getD, hget, Option.getD_some]
  refine ⟨signed.image fun i => keys.keys.getD i [], ?_, fun key hmem => ?_⟩
  · rw [Finset.card_image_of_injOn]
    · exact hcard
    · intro i hi j hj heq
      have hlt := (List.getElem?_eq_some_iff.mp (hkey i hi)).1
      refine (getElem?_inj hlt hnd).mp ?_
      rw [hkey i hi, hkey j hj]
      exact congrArg some heq
  · obtain ⟨i, hi, rfl⟩ := Finset.mem_image.mp hmem
    obtain ⟨key, hget, sig, hverify⟩ := h i hi
    obtain rfl : key = keys.keys.getD i [] := Option.some.inj (hget.symm.trans (hkey i hi))
    obtain ⟨payload', hsigns, hhash⟩ := hC.signature _ _ _ hverify
    refine ⟨mem_of_getElem? hget, ?_⟩
    rw [← hC.hash hhash]
    exact hsigns

/-- The manifest is what the payload says, and the payload is signed. -/
structure Verified (C : UpdateCrypto) (signs : XOnlyPubKey → Text → Prop) (keys : ReleaseKeys)
    (payload : Text) (m : Manifest) : Prop where
  parsed : ∃ m₀, parsePayload payload = .ok m₀ ∧
    m = { m₀ with payloadHash := C.payloadHash payload }
  signed : ThresholdSigned signs keys payload

theorem parseAndVerifyManifest_ok {file : Text} {m : Manifest} (hC : Unforgeable C signs)
    (hok : parseAndVerifyManifest C file keys = .ok m) :
    ∃ payload signatures, splitFile file = .ok (payload, signatures) ∧
      Verified C signs keys payload m := by
  obtain ⟨hkeys, hok⟩ := seq_eq_ok.mp hok
  obtain ⟨⟨payload, signatures⟩, hsplit, hok⟩ := bind_eq_ok.mp hok
  obtain ⟨m0, hparse, hok⟩ := bind_eq_ok.mp hok
  obtain ⟨lines, -, hok⟩ := bind_eq_ok.mp hok
  obtain ⟨signed, hsigned, hok⟩ := bind_eq_ok.mp hok
  obtain ⟨hthreshold, hok⟩ := seq_eq_ok.mp hok
  cases hok
  have hnd : keys.keys.Nodup := by
    have hconfigured := reject_eq_ok.mp hkeys
    unfold ReleaseKeys.configured at hconfigured
    rw [Bool.not_eq_false, Bool.and_eq_true, decide_eq_true_eq] at hconfigured
    exact hconfigured.2
  exact ⟨payload, signatures, hsplit, ⟨m0, hparse, rfl⟩,
    (signatureLines_counted hsigned).thresholdSigned hC hnd
      (not_lt.mp (reject_eq_ok.mp hthreshold))⟩

end Signed

end B3Coin.Update
