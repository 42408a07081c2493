/-
Objects and workspace heads

Blobs and manifests are named by a prefix and the digest of their bytes. A
workspace's head names its current manifest; it starts at revision 0, naming
none.

Key definitions: `ObjectId`, `ObjectId.textOf`, `WorkspaceHead`.
-/
import RustSync.Access.Codec
import RustSync.Protocol.Auth

namespace RustSync

/-- The text of `ProtocolError::InvalidIdentifier`. -/
def InvalidIdentifier.text (e : InvalidIdentifier) : String :=
  let kind := e.kind
  let value := e.value
  let reason := e.reason
  s!"invalid {kind} identifier `{value}`: {reason}"

/-- The parameters of `define_object_id!`. -/
structure ObjectIdKind where
  kind : String
  requiredPrefix : String
deriving DecidableEq, Repr

def sha256HexLength : ℕ := 64

/-- `value` starts with `start`, and what follows it. -/
def afterStart (start value : String) : Option (List Char) :=
  if start.toList.isPrefixOf value.toList then some (value.toList.drop start.length) else none

theorem afterStart_some {start value : String} {rest : List Char} :
    afterStart start value = some rest ↔ value.toList = start.toList ++ rest := by
  unfold afterStart
  rw [← String.length_toList]
  by_cases hstart : start.toList.isPrefixOf value.toList = true
  · rw [if_pos hstart]
    obtain ⟨tail, htail⟩ := List.isPrefixOf_iff_prefix.mp hstart
    rw [← htail, List.drop_left, Option.some.injEq, List.append_cancel_left_eq]
  · rw [if_neg hstart]
    simp only [reduceCtorEq, false_iff]
    intro heq
    apply hstart
    rw [heq, List.isPrefixOf_iff_prefix]
    exact List.prefix_append _ _

/-- `ObjectId::parse`, as a check. -/
def validateObjectId (k : ObjectIdKind) (value : String) : Except InvalidIdentifier Unit :=
  let start := k.requiredPrefix
  match afterStart start value with
  | none =>
    .error ⟨k.kind, value, s!"expected `{start}` followed by 64 lowercase hexadecimal characters"⟩
  | some hash =>
    if value.utf8ByteSize ≠ start.utf8ByteSize + sha256HexLength then
      .error ⟨k.kind, value, s!"expected `{start}` followed by 64 lowercase hexadecimal characters"⟩
    else if hash.all fun ch => ch.isDigit || 'a' ≤ ch && ch ≤ 'f' then .ok ()
    else .error ⟨k.kind, value, "object hash must be lowercase hexadecimal"⟩

/-- An object identifier: a string the check accepted. -/
structure ObjectId (k : ObjectIdKind) where
  asStr : String
  valid : validateObjectId k asStr = .ok ()
deriving DecidableEq

namespace ObjectId

variable {k : ObjectIdKind}

def parse (k : ObjectIdKind) (value : String) : Except InvalidIdentifier (ObjectId k) :=
  match h : validateObjectId k value with
  | .ok () => .ok ⟨value, h⟩
  | .error e => .error e

@[simp] theorem parse_asStr (i : ObjectId k) : parse k i.asStr = .ok i := by
  unfold parse
  split
  · rfl
  · rename_i e h
    rw [i.valid] at h
    cases h

theorem asStr_of_parse {value : String} {i : ObjectId k} (h : parse k value = .ok i) : i.asStr = value := by
  unfold parse at h
  split at h
  · cases h
    rfl
  · cases h

/-- The prefix of the kind, and a digest in digits and letters. -/
theorem toList_asStr (i : ObjectId k) : ∃ hash, i.asStr.toList = k.requiredPrefix.toList ++ hash ∧
    ∀ ch ∈ hash, (ch.isDigit || 'a' ≤ ch && ch ≤ 'f') = true := by
  have hvalid := i.valid
  unfold validateObjectId at hvalid
  cases hafter : afterStart k.requiredPrefix i.asStr with
  | none =>
    simp only [hafter] at hvalid
    cases hvalid
  | some hash =>
    simp only [hafter] at hvalid
    refine ⟨hash, afterStart_some.mp hafter, ?_⟩
    split at hvalid
    · cases hvalid
    · split at hvalid
      · rename_i hhex
        exact List.all_eq_true.mp hhex
      · cases hvalid

/-- The text of `from_content`. -/
def textOf (k : ObjectIdKind) (c : Crypto) (bytes : Bytes) : String :=
  k.requiredPrefix ++ sha256Hex c bytes

end ObjectId

def blobIdKind : ObjectIdKind := ⟨"blob", "blob_"⟩
def manifestIdKind : ObjectIdKind := ⟨"manifest", "manifest_"⟩

abbrev BlobId := ObjectId blobIdKind
abbrev ManifestId := ObjectId manifestIdKind

structure WorkspaceHead where
  workspaceId : WorkspaceId
  manifestId : Option ManifestId
  revision : UInt64
  updatedBy : Option DeviceId
  updatedAt : Option UnixTimestamp
deriving DecidableEq

def WorkspaceHead.empty (workspaceId : WorkspaceId) : WorkspaceHead := ⟨workspaceId, none, 0, none, none⟩

/-! ### As JSON -/

namespace Codec

open Serde

def serManifestId (id : ManifestId) : Ser := .str id.asStr

def decodeManifestId (d : Doc) : Except DecodeError ManifestId := do
  let s ← asStr d
  (ObjectId.parse manifestIdKind s).mapError fun e => .invalidValue e.text

def serTimestamp (t : UnixTimestamp) : Ser := .u64 t.asSecs

def decodeTimestamp (d : Doc) : Except DecodeError UnixTimestamp := do
  return ⟨← asU64 d⟩

def serWorkspaceHead (h : WorkspaceHead) : Ser :=
  .record [("workspace_id", serId h.workspaceId),
    ("manifest_id", serOption serManifestId h.manifestId), ("revision", .u64 h.revision),
    ("updated_by", serOption serId h.updatedBy), ("updated_at", serOption serTimestamp h.updatedAt)]

def decodeWorkspaceHead (d : Doc) : Except DecodeError WorkspaceHead := do
  let fields ← asTable d
  let workspaceId ← field fields "workspace_id" (decodeId workspaceIdKind)
  let manifestId ← optField fields "manifest_id" decodeManifestId
  let revision ← field fields "revision" asU64
  let updatedBy ← optField fields "updated_by" (decodeId deviceIdKind)
  let updatedAt ← optField fields "updated_at" decodeTimestamp
  return { workspaceId, manifestId, revision, updatedBy, updatedAt }

theorem manifestId_roundTrips {f : Format} (id : ManifestId) :
    RoundTrips f serManifestId decodeManifestId id := by
  refine ⟨nofun, nofun, .str id.asStr, by rw [serManifestId, encode], ?_⟩
  simp [decodeManifestId, asStr, bind, Except.bind, Except.mapError]

theorem timestamp_roundTrips {f : Format} {t : UnixTimestamp} (h : t.asSecs.toNat < f.integerLimit) :
    RoundTrips f serTimestamp decodeTimestamp t := by
  obtain ⟨_, _, d, hwrite, hread⟩ := u64_roundTrips h
  refine ⟨nofun, nofun, d, hwrite, ?_⟩
  rw [decodeTimestamp, hread]
  rfl

/-- A head goes through JSON. -/
theorem workspaceHead_roundTrips (h : WorkspaceHead) :
    RoundTrips json serWorkspaceHead decodeWorkspaceHead h := by
  have hint (n : UInt64) : n.toNat < json.integerLimit := n.toNat_lt
  have hmanifest : ∀ id ∈ h.manifestId, RoundTrips json serManifestId decodeManifestId id :=
    fun id _ => manifestId_roundTrips id
  have hby : ∀ id ∈ h.updatedBy, RoundTrips json serId (decodeId deviceIdKind) id :=
    fun id _ => id_roundTrips id
  have hat : ∀ t ∈ h.updatedAt, RoundTrips json serTimestamp decodeTimestamp t :=
    fun t _ => timestamp_roundTrips (hint t.asSecs)
  refine record_roundTrips rfl ?_ nofun fun out hout => ?_
  · simp only [List.forall_mem_cons]
    exact ⟨(id_roundTrips _).writes, optWrites hmanifest, (u64_roundTrips (hint _)).writes,
      optWrites hby, optWrites hat, by simp⟩
  · have hn : ["workspace_id", "manifest_id", "revision", "updated_by", "updated_at"].Nodup := by decide
    simp only [decodeWorkspaceHead, asTable, Except.bind_ok]
    exact ⟨out, rfl, h.workspaceId, field_roundTrips hout hn (id_roundTrips _) (by simp),
      h.manifestId, optField_roundTrips hout hn hmanifest (by simp),
      h.revision, field_roundTrips hout hn (u64_roundTrips (hint _)) (by simp),
      h.updatedBy, optField_roundTrips hout hn hby (by simp),
      h.updatedAt, optField_roundTrips hout hn hat (by simp), rfl⟩

end Codec

end RustSync
