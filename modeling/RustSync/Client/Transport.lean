/-
What a client sends

A request is built for an endpoint: its relative path is read against the base
URL, the input with the path that comes out is signed, and the signature goes
with it in the headers. The server rebuilds the signed input from what it
receives, whatever the endpoint. But reading a path removes its dot segments,
and an identifier may be `.` or `..`: then the path is another one. A `POST` to
a key envelope is the one request the sync middleware stops for its method.

Key definitions: `sendSigned`, `Delivered`. Key theorem: `delivered_iff`.
-/
import RustSync.Lib.UrlPath
import RustSync.Server.Access
import RustSync.Server.Router

namespace RustSync.Client

/-! ### URLs -/

structure Url where
  origin : String
  path : List (List Char)
  query : Option (List Char)

def Url.root (origin : String) : Url := ⟨origin, [[]], none⟩

/-- `Url::join` of a relative path made of the characters of identifiers and
`/`, which stand for themselves. -/
def Url.join (base : Url) (path : List Char) : Url where
  origin := base.origin
  path := readSegments base.path.dropLast (components path)
  query := none

/-- `Url::path`. -/
def Url.pathText (self : Url) : List Char := urlPath self.path

def pathAndQuery (url : Url) : List Char :=
  match url.query with
  | some query => url.pathText ++ '?' :: query
  | none => url.pathText

/-! ### Requests -/

inductive Method where
  | get
  | post
  | put
deriving DecidableEq

def Method.asStr : Method → String
  | .get => "GET"
  | .post => "POST"
  | .put => "PUT"

/-- The errors of the client crate before a request is sent. -/
inductive TransportError where
  | signing (reason : String)
  | invalidConfig (reason : String)

abbrev ClientResult (α : Type) := Except TransportError α

structure RequestSigner where
  deviceId : DeviceId
  sign : Bytes → ClientResult Bytes

/-- What is given to the HTTP client. -/
structure Request where
  method : Method
  url : Url
  headers : HeaderMap
  body : Bytes

/-- The input a client signs for a URL. -/
def inputFor (c : Crypto) (url : Url) (method : Method) (body : Bytes) (signer : RequestSigner)
    (timestamp : UnixTimestamp) (nonce : RequestNonce) : HttpRequestSignatureInput :=
  signatureInput c method.asStr (String.ofList (pathAndQuery url)) body signer.deviceId timestamp nonce

/-- The time and the nonce are those of the moment, where one could be made. -/
def sendSigned (c : Crypto) (baseUrl : Url) (method : Method) (path : List Char) (body : Bytes)
    (signer : RequestSigner) (contentType : Option String) (timestamp : UnixTimestamp)
    (generateNonce : ClientResult RequestNonce) : ClientResult Request := do
  let url := baseUrl.join path
  let nonce ← generateNonce
  let input := inputFor c url method body signer timestamp nonce
  let signature ← signer.sign input.canonicalPayload
  let authHeaderValues := (input.withSignature signature).authHeaders.toHeaderValues
  let headers :=
    [(deviceIdHeader, utf8 authHeaderValues.deviceId), (timestampHeader, utf8 authHeaderValues.timestamp),
      (nonceHeader, utf8 authHeaderValues.nonce), (signatureHeader, utf8 authHeaderValues.signature)]
  let contentHeader := contentType.toList.map fun value => ("content-type", utf8 value)
  return { method, url, headers := headers ++ contentHeader, body }

/-- The request as the server's router hands it on. -/
def Request.received (self : Request) : HttpRequest where
  method := self.method.asStr
  pathAndQuery := String.ofList (pathAndQuery self.url)
  headers := parseAuthHeaders self.headers
  body := self.body

/-! ### Endpoints -/

inductive Endpoint where
  | sync (endpoint : WorkspaceSyncEndpoint)
  | access (endpoint : WorkspaceAccessEndpoint)

namespace Endpoint

def relativePath : Endpoint → List Char
  | .sync endpoint => endpoint.relativePath
  | .access endpoint => endpoint.relativePath

def absolutePath : Endpoint → List Char
  | .sync endpoint => endpoint.absolutePath
  | .access endpoint => endpoint.absolutePath

/-- The components of the relative path. -/
def segments : Endpoint → List (List Char)
  | .sync ⟨workspaceId, resource⟩ => "workspaces".toList :: workspaceId.asStr.toList ::
    match resource with
    | .blob blobId => ["blobs".toList, blobId.asStr.toList]
    | .manifest manifestId => ["manifests".toList, manifestId.asStr.toList]
    | .head => ["head".toList]
  | .access ⟨workspaceId, resource⟩ => "workspaces".toList :: workspaceId.asStr.toList ::
    match resource with
    | .joinRequests => ["devices".toList, "join-requests".toList]
    | .joinRequestApproval joinRequestId =>
      ["devices".toList, "join-requests".toList, joinRequestId.asStr.toList, "approval".toList]
    | .accessEvents => ["access".toList, "events".toList]
    | .accessState => ["access".toList, "state".toList]
    | .keyEnvelope keyId recipientDeviceId =>
      ["keys".toList, keyId.asStr.toList, "envelopes".toList, recipientDeviceId.asStr.toList]

/-- The server takes a path as that of the endpoint: for a sync endpoint it
reads the endpoint, and authenticates for its workspace where it knows the
method; for another the sync middleware lets the request pass. -/
def ClassifiedAt (method : Method) (path : List Char) : Endpoint → Prop
  | .sync endpoint => ∀ syncMethod,
      classifyWorkspaceSyncRoute syncMethod path =
        .ok (some ⟨endpoint, permissionFor syncMethod endpoint.resource⟩) ∧
      (WorkspaceSyncMethod.tryFrom method.asStr = .ok syncMethod → classifyAuthTarget method.asStr path =
        .ok (some ⟨endpoint.workspaceId, permissionFor syncMethod endpoint.resource⟩))
  | .access _ => classifyAuthTarget method.asStr path = .ok none

end Endpoint

/-- An identifier that is read as a dot segment. -/
def Dots {k : IdKind} (i : TextId k) : Prop := i.asStr = "." ∨ i.asStr = ".."

/-- What it takes for a request to be delivered. -/
def Endpoint.Plain (method : Method) : Endpoint → Prop
  | .sync endpoint => ¬ Dots endpoint.workspaceId
  | .access endpoint => ¬ Dots endpoint.workspaceId ∧
    ∀ keyId recipientDeviceId, endpoint.resource = .keyEnvelope keyId recipientDeviceId →
      ¬ Dots keyId ∧ method ≠ .post

/-! ### Segments -/

section Segments

variable {k : IdKind} {ok : ObjectIdKind} {endpoint : Endpoint}

/-- The characters of object ids, given those of the prefix. -/
theorem not_mem_objectId (i : ObjectId ok) {ch : Char} (hrequired : ch ∉ ok.requiredPrefix.toList)
    (hhex : (ch.isDigit || 'a' ≤ ch && ch ≤ 'f') = false) : ch ∉ i.asStr.toList := by
  obtain ⟨hash, htext, hchars⟩ := i.toList_asStr
  rw [htext, List.mem_append]
  rintro (hmem | hmem)
  · exact hrequired hmem
  · rw [hchars ch hmem] at hhex
    cases hhex

theorem dotSegment_id (i : TextId k) : DotSegment i.asStr.toList ↔ Dots i := by
  rw [dotSegment_iff (i.not_mem (by decide))]
  unfold Dots
  rw [← String.toList_inj, ← String.toList_inj]
  rfl

/-- An identifier with a prefix is longer than two dots. -/
theorem not_dots_of_prefix (i : TextId k) {start : String} (hstart : k.requiredPrefix = some start)
    (hlen : 3 ≤ start.toList.length) : ¬ Dots i := by
  have hrequired := (validateTextId_ok.mp i.valid).2.2.1
  unfold hasRequiredPrefix at hrequired
  rw [hstart] at hrequired
  simp only [Bool.and_eq_true] at hrequired
  have hle := (List.isPrefixOf_iff_prefix.mp hrequired.1).length_le
  rintro (hdot | hdot)
  · rw [hdot] at hle
    exact absurd (hlen.trans hle) (by decide)
  · rw [hdot] at hle
    exact absurd (hlen.trans hle) (by decide)

theorem not_dotSegment_objectId (i : ObjectId ok) (hrequired : '%' ∉ ok.requiredPrefix.toList)
    (hlen : 3 ≤ ok.requiredPrefix.toList.length) : ¬ DotSegment i.asStr.toList := by
  rw [dotSegment_iff (not_mem_objectId i hrequired (by decide))]
  obtain ⟨hash, htext, _⟩ := i.toList_asStr
  have hle : 3 ≤ i.asStr.toList.length := by
    rw [htext, List.length_append]
    omega
  rintro (hdot | hdot)
  · rw [hdot] at hle
    exact absurd hle (by decide)
  · rw [hdot] at hle
    exact absurd hle (by decide)

theorem slash_not_mem_segment : ∀ segment ∈ endpoint.segments, '/' ∉ segment := by
  have hid {k : IdKind} (i : TextId k) : '/' ∉ i.asStr.toList := i.not_mem (by decide)
  have hblob (i : BlobId) : '/' ∉ i.asStr.toList := not_mem_objectId i (by decide) (by decide)
  have hmanifest (i : ManifestId) : '/' ∉ i.asStr.toList := not_mem_objectId i (by decide) (by decide)
  obtain ⟨workspaceId, resource⟩ | ⟨workspaceId, resource⟩ := endpoint
  · cases resource <;> simp +decide [Endpoint.segments, hid, hblob, hmanifest]
  · cases resource <;> simp +decide [Endpoint.segments, hid]

theorem urlPath_segments (endpoint : Endpoint) : urlPath endpoint.segments = endpoint.absolutePath := by
  obtain ⟨workspaceId, resource⟩ | ⟨workspaceId, resource⟩ := endpoint
  · cases resource <;> simp [urlPath, Endpoint.segments, Endpoint.absolutePath, WorkspaceSyncEndpoint.absolutePath,
      WorkspaceSyncEndpoint.relativePath]
  · cases resource <;> simp [urlPath, Endpoint.segments, Endpoint.absolutePath, WorkspaceAccessEndpoint.absolutePath,
      WorkspaceAccessEndpoint.relativePath]

theorem absolutePath_eq (endpoint : Endpoint) : endpoint.absolutePath = '/' :: endpoint.relativePath := by
  cases endpoint <;> rfl

theorem components_relativePath (endpoint : Endpoint) : components endpoint.relativePath = endpoint.segments := by
  have hcomponents := components_urlPath (@slash_not_mem_segment endpoint)
  rw [urlPath_segments, absolutePath_eq, components, if_pos rfl, List.cons.injEq] at hcomponents
  exact hcomponents.2

/-- The dot segments of a path are its identifiers of dots. -/
theorem plain_segments_iff : (∀ segment ∈ endpoint.segments, ¬ DotSegment segment) ↔
    match endpoint with
    | .sync endpoint => ¬ Dots endpoint.workspaceId
    | .access endpoint => ¬ Dots endpoint.workspaceId ∧
      ∀ keyId recipientDeviceId, endpoint.resource = .keyEnvelope keyId recipientDeviceId → ¬ Dots keyId := by
  have hblob (i : BlobId) : ¬ DotSegment i.asStr.toList := not_dotSegment_objectId i (by decide) (by decide)
  have hmanifest (i : ManifestId) : ¬ DotSegment i.asStr.toList := not_dotSegment_objectId i (by decide) (by decide)
  have hdevice (i : DeviceId) : ¬ Dots i := not_dots_of_prefix i rfl (by decide)
  have hjoin (i : JoinRequestId) : ¬ Dots i := not_dots_of_prefix i rfl (by decide)
  obtain ⟨workspaceId, resource⟩ | ⟨workspaceId, resource⟩ := endpoint
  · cases resource <;> simp +decide [Endpoint.segments, dotSegment_id, hblob, hmanifest]
  · cases resource <;> simp +decide [Endpoint.segments, dotSegment_id, hdevice, hjoin]

/-- **What is joined to the root of an origin is the path of the endpoint**
just if no segment is lost. -/
theorem join_root_iff {origin : String} : ((Url.root origin).join endpoint.relativePath).pathText =
    endpoint.absolutePath ↔ ∀ segment ∈ endpoint.segments, ¬ DotSegment segment := by
  rw [absolutePath_eq, ← components_relativePath]
  exact readPath_eq_iff

end Segments

/-! ### Classification -/

section Classification

variable {w : WorkspaceId} {tail path : List Char} {name : String} {method : Method} {endpoint : Endpoint}

/-- The path of a workspace's route. -/
def routePath (w : WorkspaceId) (tail : List Char) : List Char :=
  workspacesStart ++ (w.asStr.toList ++ '/' :: tail)

theorem splitWorkspaceRoute_routePath : splitWorkspaceRoute (routePath w tail) =
    .ok (some (w.asStr.toList, tail)) :=
  splitWorkspaceRoute_some.mpr ⟨w.not_mem (by decide), rfl⟩

theorem start_prefix_routePath : workspacesStart <+: routePath w tail := List.prefix_append _ _

theorem classify_routePath {resource : WorkspaceSyncResource} (htail : endpointOf w tail = .ok ⟨w, resource⟩) :
    (Endpoint.sync ⟨w, resource⟩).ClassifiedAt method (routePath w tail) := by
  have hroute (syncMethod : WorkspaceSyncMethod) : classifyWorkspaceSyncRoute syncMethod (routePath w tail) =
      .ok (some ⟨⟨w, resource⟩, permissionFor syncMethod resource⟩) := by
    have hid : parseWorkspaceId w.asStr.toList = .ok w := parseWorkspaceId_ok.mpr rfl
    unfold classifyWorkspaceSyncRoute
    rw [splitWorkspaceRoute_routePath]
    refine Except.bind_ok.mpr ⟨_, rfl, ?_⟩
    exact Except.bind_ok.mpr ⟨w, hid, Except.bind_ok.mpr ⟨_, htail, rfl⟩⟩
  intro syncMethod
  refine ⟨hroute syncMethod, fun hmethod => ?_⟩
  have hnamed : classifyWorkspaceSyncRouteWithMethod method.asStr (routePath w tail) =
      .ok (some ⟨⟨w, resource⟩, permissionFor syncMethod resource⟩) := by
    unfold classifyWorkspaceSyncRouteWithMethod
    rw [if_neg (not_not_intro start_prefix_routePath), hmethod]
    exact hroute syncMethod
  unfold classifyAuthTarget
  rw [authTarget_of_route_withMethod hnamed]
  rfl

theorem endpointOf_blob (blobId : BlobId) :
    endpointOf w ("blobs".toList ++ '/' :: blobId.asStr.toList) = .ok ⟨w, .blob blobId⟩ := by
  have hslash : '/' ∉ blobId.asStr.toList := not_mem_objectId blobId (by decide) (by decide)
  unfold endpointOf
  rw [splitOnce_append (by decide)]
  simp only [hslash, not_false_eq_true, and_self, if_true, String.ofList_toList,
    ObjectId.parse_asStr]
  rfl

theorem endpointOf_manifest (manifestId : ManifestId) :
    endpointOf w ("manifests".toList ++ '/' :: manifestId.asStr.toList) = .ok ⟨w, .manifest manifestId⟩ := by
  have hslash : '/' ∉ manifestId.asStr.toList := not_mem_objectId manifestId (by decide) (by decide)
  have hkind : "manifests".toList ≠ "blobs".toList := by decide
  unfold endpointOf
  rw [splitOnce_append (by decide)]
  simp only [hkind, false_and, if_false, hslash, not_false_eq_true, and_self, if_true, String.ofList_toList,
    ObjectId.parse_asStr]
  rfl

/-- The routes of devices and of access are none of sync. -/
theorem classifyAuthTarget_other (htail : "devices/".toList <+: tail ∨ "access/".toList <+: tail) :
    classifyAuthTarget name (routePath w tail) = .ok none := by
  have hother : isNonSyncWorkspaceRoute (routePath w tail) = .ok true := by
    unfold isNonSyncWorkspaceRoute
    rw [splitWorkspaceRoute_routePath]
    exact congrArg Except.ok (decide_eq_true htail)
  unfold classifyAuthTarget classifyWorkspaceSyncAuthTargetWithMethod
  rw [if_neg (not_not_intro start_prefix_routePath), hother]
  rfl

/-- Those of keys are none for the methods of sync. -/
theorem classifyAuthTarget_keys {rest : List Char} :
    classifyAuthTarget method.asStr (routePath w ("keys/".toList ++ rest)) = .ok none ↔ method ≠ .post := by
  have hother : isNonSyncWorkspaceRoute (routePath w ("keys/".toList ++ rest)) = .ok false := by
    unfold isNonSyncWorkspaceRoute
    rw [splitWorkspaceRoute_routePath]
    refine congrArg Except.ok (decide_eq_false ?_)
    simp
  have hsync (syncMethod : WorkspaceSyncMethod) :
      classifyWorkspaceSyncAuthTarget syncMethod (routePath w ("keys/".toList ++ rest)) = .ok none := by
    unfold classifyWorkspaceSyncAuthTarget
    rw [splitWorkspaceRoute_routePath]
    refine Except.bind_ok.mpr ⟨_, rfl, ?_⟩
    exact if_pos (Or.inr (Or.inr (List.prefix_append _ _)))
  have hknown {syncMethod : WorkspaceSyncMethod} (hmethod : WorkspaceSyncMethod.tryFrom method.asStr = .ok syncMethod) :
      classifyAuthTarget method.asStr (routePath w ("keys/".toList ++ rest)) = .ok none := by
    unfold classifyAuthTarget classifyWorkspaceSyncAuthTargetWithMethod
    rw [if_neg (not_not_intro start_prefix_routePath), hother]
    refine Except.bind_ok.mpr ⟨none, ?_, rfl⟩
    rw [Except.mapError_ok]
    refine Except.bind_ok.mpr ⟨false, rfl, ?_⟩
    rw [if_neg (by decide)]
    exact Except.bind_ok.mpr ⟨syncMethod, hmethod, hsync syncMethod⟩
  cases method with
  | get => exact iff_of_true (@hknown .get rfl) (by decide)
  | put => exact iff_of_true (@hknown .put rfl) (by decide)
  | post =>
    refine iff_of_false ?_ (by decide)
    unfold classifyAuthTarget classifyWorkspaceSyncAuthTargetWithMethod
    rw [if_neg (not_not_intro start_prefix_routePath), hother]
    intro h
    obtain ⟨_, hclassified, _⟩ := Except.bind_ok.mp h
    rw [Except.mapError_ok] at hclassified
    obtain ⟨_, heq, hclassified⟩ := Except.bind_ok.mp hclassified
    cases heq
    rw [if_neg (by decide)] at hclassified
    obtain ⟨_, hmethod, _⟩ := Except.bind_ok.mp hclassified
    cases hmethod

/-- What follows the workspace in a path. -/
def syncTail : WorkspaceSyncResource → List Char
  | .blob blobId => "blobs".toList ++ '/' :: blobId.asStr.toList
  | .manifest manifestId => "manifests".toList ++ '/' :: manifestId.asStr.toList
  | .head => "head".toList

def accessTail : WorkspaceAccessResource → List Char
  | .joinRequests => "devices/".toList ++ "join-requests".toList
  | .joinRequestApproval joinRequestId =>
    "devices/".toList ++ ("join-requests/".toList ++ joinRequestId.asStr.toList ++ "/approval".toList)
  | .accessEvents => "access/".toList ++ "events".toList
  | .accessState => "access/".toList ++ "state".toList
  | .keyEnvelope keyId recipientDeviceId =>
    "keys/".toList ++ (keyId.asStr.toList ++ "/envelopes/".toList ++ recipientDeviceId.asStr.toList)

theorem sync_absolutePath (resource : WorkspaceSyncResource) :
    WorkspaceSyncEndpoint.absolutePath ⟨w, resource⟩ = routePath w (syncTail resource) := by
  cases resource <;> unfold WorkspaceSyncEndpoint.absolutePath WorkspaceSyncEndpoint.relativePath routePath
    workspacesStart syncTail
  all_goals simp

theorem access_absolutePath (resource : WorkspaceAccessResource) :
    WorkspaceAccessEndpoint.absolutePath ⟨w, resource⟩ = routePath w (accessTail resource) := by
  cases resource <;> unfold WorkspaceAccessEndpoint.absolutePath WorkspaceAccessEndpoint.relativePath routePath
    workspacesStart accessTail
  all_goals simp

theorem endpointOf_syncTail (resource : WorkspaceSyncResource) :
    endpointOf w (syncTail resource) = .ok ⟨w, resource⟩ := by
  cases resource with
  | blob blobId => exact endpointOf_blob blobId
  | manifest manifestId => exact endpointOf_manifest manifestId
  | head => rfl

/-- The path of an endpoint is classified as it is, but for a method that the
middleware does not know at a key envelope. -/
theorem classifiedAt_absolutePath : endpoint.ClassifiedAt method endpoint.absolutePath ↔
    ∀ w keyId recipientDeviceId, endpoint = .access ⟨w, .keyEnvelope keyId recipientDeviceId⟩ → method ≠ .post := by
  obtain ⟨w, resource⟩ | ⟨w, resource⟩ := endpoint
  · have hclassified : (Endpoint.sync ⟨w, resource⟩).ClassifiedAt method (routePath w (syncTail resource)) :=
      classify_routePath (endpointOf_syncTail resource)
    rw [← sync_absolutePath] at hclassified
    exact iff_of_true hclassified (by rintro _ _ _ ⟨⟩)
  · have hother (htail : "devices/".toList <+: accessTail resource ∨ "access/".toList <+: accessTail resource) :
        (Endpoint.access ⟨w, resource⟩).ClassifiedAt method (routePath w (accessTail resource)) :=
      classifyAuthTarget_other htail
    have hpath : (Endpoint.access ⟨w, resource⟩).absolutePath = routePath w (accessTail resource) :=
      access_absolutePath resource
    rw [hpath]
    cases resource with
    | joinRequests => exact iff_of_true (hother (.inl (List.prefix_append _ _))) (by rintro _ _ _ ⟨⟩)
    | joinRequestApproval joinRequestId =>
      exact iff_of_true (hother (.inl (List.prefix_append _ _))) (by rintro _ _ _ ⟨⟩)
    | accessEvents => exact iff_of_true (hother (.inr (List.prefix_append _ _))) (by rintro _ _ _ ⟨⟩)
    | accessState => exact iff_of_true (hother (.inr (List.prefix_append _ _))) (by rintro _ _ _ ⟨⟩)
    | keyEnvelope keyId recipientDeviceId =>
      have hkeys := @classifyAuthTarget_keys w method
        (keyId.asStr.toList ++ "/envelopes/".toList ++ recipientDeviceId.asStr.toList)
      refine Iff.trans hkeys ⟨fun h _ _ _ _ => h, fun h => h w keyId recipientDeviceId rfl⟩

end Classification

/-! ### Delivery -/

/-- A request reaches the endpoint it was built for, correctly signed: its path
is that of the endpoint and is classified as it, and the server rebuilds from
what it receives the input that was signed, with a signature that verifies by
every record of the device under which what the signer signs verifies. -/
structure Delivered (E : ServerEnv) (signer : RequestSigner) (endpoint : Endpoint)
    (input : HttpRequestSignatureInput) (request : Request) : Prop where
  path : request.url.pathText = endpoint.absolutePath
  classified : endpoint.ClassifiedAt request.method request.url.pathText
  rebuilt : ∃ signed, signedHttpRequestFromHeaders E request.received = .ok signed ∧
    parseAuthHeaders request.headers = .ok signed.authHeaders ∧
    signed.input.canonicalPayload = input.canonicalPayload ∧
    signer.sign input.canonicalPayload = .ok signed.signature ∧
    ∀ device : DeviceRecord, device.deviceId = signer.deviceId →
      (∀ message signature, signer.sign message = .ok signature →
        device.verifySignature E.crypto message signature = .ok ()) →
      signed.verifyWithDevice E.crypto device = .ok ()

section Delivery

variable {E : ServerEnv} {c : Crypto} {signer : RequestSigner} {endpoint : Endpoint} {method : Method}
  {input : HttpRequestSignatureInput} {origin : String} {path : List Char} {body signature : Bytes}
  {contentType : Option String} {timestamp : UnixTimestamp} {nonce : RequestNonce} {request : Request}

theorem plain_iff : endpoint.Plain method ↔ (∀ segment ∈ endpoint.segments, ¬ DotSegment segment) ∧
    ∀ w keyId recipientDeviceId, endpoint = .access ⟨w, .keyEnvelope keyId recipientDeviceId⟩ → method ≠ .post := by
  rw [plain_segments_iff]
  cases endpoint with
  | sync endpoint => simp [Endpoint.Plain]
  | access endpoint =>
    constructor
    · rintro ⟨hworkspace, hkey⟩
      refine ⟨⟨hworkspace, fun keyId recipientDeviceId h => (hkey keyId recipientDeviceId h).1⟩, ?_⟩
      rintro w keyId recipientDeviceId ⟨⟩
      exact (hkey keyId recipientDeviceId rfl).2
    · rintro ⟨⟨hworkspace, hkey⟩, hmethod⟩
      refine ⟨hworkspace, fun keyId recipientDeviceId h => ⟨hkey keyId recipientDeviceId h, ?_⟩⟩
      obtain ⟨w, resource⟩ := endpoint
      cases h
      exact hmethod w keyId recipientDeviceId rfl

/-- What is sent for a signature. -/
def requestFor (c : Crypto) (url : Url) (method : Method) (body : Bytes) (signer : RequestSigner)
    (contentType : Option String) (timestamp : UnixTimestamp) (nonce : RequestNonce) (signature : Bytes) : Request :=
  let values := ((inputFor c url method body signer timestamp nonce).withSignature signature).authHeaders.toHeaderValues
  { method := method
    url := url
    headers := [(deviceIdHeader, utf8 values.deviceId), (timestampHeader, utf8 values.timestamp),
      (nonceHeader, utf8 values.nonce), (signatureHeader, utf8 values.signature)] ++
      contentType.toList.map fun value => ("content-type", utf8 value)
    body := body }

theorem sendSigned_ok {baseUrl : Url} :
    sendSigned c baseUrl method path body signer contentType timestamp (.ok nonce) = .ok request ↔
      ∃ signature, signer.sign (inputFor c (baseUrl.join path) method body signer timestamp nonce).canonicalPayload =
          .ok signature ∧
        request = requestFor c (baseUrl.join path) method body signer contentType timestamp nonce signature := by
  unfold sendSigned
  constructor
  · intro h
    obtain ⟨_, heq, h⟩ := Except.bind_ok.mp h
    cases heq
    obtain ⟨signature, hsignature, h⟩ := Except.bind_ok.mp h
    cases h
    exact ⟨signature, hsignature, rfl⟩
  · rintro ⟨signature, hsignature, rfl⟩
    exact Except.bind_ok.mpr ⟨nonce, rfl, Except.bind_ok.mpr ⟨signature, hsignature, rfl⟩⟩

/-- The headers of a request are read as they were written. -/
theorem parseAuthHeaders_requestFor {url : Url} :
    parseAuthHeaders (requestFor c url method body signer contentType timestamp nonce signature).headers =
      .ok ((inputFor c url method body signer timestamp nonce).withSignature signature).authHeaders := by
  have hdevice : headerValueToStr (utf8 signer.deviceId.asStr) = .ok signer.deviceId.asStr :=
    headerValueToStr_printable (printable_idChars (validateTextId_ok.mp signer.deviceId.valid).2.2.2)
  have htimestamp : headerValueToStr (utf8 (toString timestamp.asSecs)) = .ok (toString timestamp.asSecs) :=
    headerValueToStr_printable (printable_decimal timestamp.asSecs)
  have hnonce : headerValueToStr (utf8 nonce.asStr) = .ok nonce.asStr :=
    headerValueToStr_printable (printable_idChars nonce.all_isIdChar)
  have hsignature : headerValueToStr (utf8 (String.ofList (base64Encode signature))) =
      .ok (String.ofList (base64Encode signature)) := by
    apply headerValueToStr_printable
    rw [String.toList_ofList]
    exact printable_base64 signature
  unfold parseAuthHeaders
  refine Except.bind_ok.mpr ⟨signer.deviceId.asStr, ?_, ?_⟩
  · exact Except.bind_ok.mpr ⟨_, rfl, hdevice⟩
  refine Except.bind_ok.mpr ⟨toString timestamp.asSecs, ?_, ?_⟩
  · exact Except.bind_ok.mpr ⟨_, rfl, htimestamp⟩
  refine Except.bind_ok.mpr ⟨nonce.asStr, ?_, ?_⟩
  · exact Except.bind_ok.mpr ⟨_, rfl, hnonce⟩
  refine Except.bind_ok.mpr ⟨String.ofList (base64Encode signature), ?_, ?_⟩
  · exact Except.bind_ok.mpr ⟨_, rfl, hsignature⟩
  rw [Except.mapError_ok]
  exact fromHeaderValues_toHeaderValues
    ((inputFor c url method body signer timestamp nonce).withSignature signature).authHeaders

/-- **What is signed is rebuilt**, wherever the request arrives. -/
theorem rebuilt_requestFor {url : Url} :
    signedHttpRequestFromHeaders E
        (requestFor E.crypto url method body signer contentType timestamp nonce signature).received =
      .ok ((inputFor E.crypto url method body signer timestamp nonce).withSignature signature) := by
  unfold signedHttpRequestFromHeaders
  exact Except.bind_ok.mpr ⟨_, parseAuthHeaders_requestFor, rfl⟩

theorem verifies_of_signed {device : DeviceRecord} {url : Url} (hdevice : device.deviceId = signer.deviceId)
    (hideal : ∀ message signature, signer.sign message = .ok signature →
      device.verifySignature c message signature = .ok ())
    (hsign : signer.sign (inputFor c url method body signer timestamp nonce).canonicalPayload = .ok signature) :
    ((inputFor c url method body signer timestamp nonce).withSignature signature).verifyWithDevice c
      device = .ok () := by
  have hverify := hideal _ _ hsign
  simp only [SignedHttpRequest.verifyWithDevice, Except.bind_unit_ok, require_ok, Except.mapError_ok]
  exact ⟨hdevice.symm, hverify⟩

/-- **Which requests are delivered.** Headers survive for every request; a
signed request for an endpoint is sent, and reaches it just if the ids of the
workspace and of the key are not of dots and no key envelope is posted. -/
theorem delivered_iff (E : ServerEnv) (origin : String) (endpoint : Endpoint) (method : Method) (body : Bytes)
    (signer : RequestSigner) (contentType : Option String) (timestamp : UnixTimestamp) (nonce : RequestNonce) :
    (∀ headers : AuthHeaders, AuthHeaders.fromHeaderValues headers.toHeaderValues = .ok headers) ∧
      let url := (Url.root origin).join endpoint.relativePath
      let input := inputFor E.crypto url method body signer timestamp nonce
      ∀ signature, signer.sign input.canonicalPayload = .ok signature →
        ∃ request, sendSigned E.crypto (Url.root origin) method endpoint.relativePath body signer contentType timestamp
            (.ok nonce) = .ok request ∧
          (Delivered E signer endpoint input request ↔ endpoint.Plain method) := by
  refine ⟨fromHeaderValues_toHeaderValues, ?_⟩
  intro url input signature hsign
  refine ⟨requestFor E.crypto url method body signer contentType timestamp nonce signature,
    sendSigned_ok.mpr ⟨signature, hsign, rfl⟩, ?_⟩
  rw [plain_iff, ← @join_root_iff _ origin]
  constructor
  · intro h
    have hclassified := h.classified
    rw [h.path] at hclassified
    exact ⟨h.path, classifiedAt_absolutePath.mp hclassified⟩
  · rintro ⟨hpath, hmethod⟩
    have hclassified : endpoint.ClassifiedAt method url.pathText := by
      rw [hpath]
      exact classifiedAt_absolutePath.mpr hmethod
    exact ⟨hpath, hclassified, _, rebuilt_requestFor, parseAuthHeaders_requestFor, rfl, hsign,
      fun device hdevice hideal => verifies_of_signed hdevice hideal hsign⟩

end Delivery

/-! ### Samples -/

section Samples

def sampleServerEnv : ServerEnv where
  crypto := sampleCrypto
  parseKeyEnvelope _ := .error "expected value"
  parseDeviceJoinRequest _ := .error "expected value"
  parseApproveJoinRequest _ := .error "expected value"
  parseApplyAccessEvent _ := .error "expected value"

def sampleSigner : RequestSigner := ⟨⟨"device_laptop", by decide⟩, fun _ => .ok sampleSignature⟩

def sampleNonce : RequestNonce := ⟨"nonce_0123456789abcdef0123456789abcdef", by decide⟩

def headOf (w : WorkspaceId) : Endpoint := .sync ⟨w, .head⟩

theorem head_delivered :
    ∃ request, sendSigned sampleCrypto (Url.root "https://sync.test") .get (headOf notesWorkspace).relativePath []
        sampleSigner none ⟨1700000000⟩ (.ok sampleNonce) = .ok request ∧
      Delivered sampleServerEnv sampleSigner (headOf notesWorkspace)
        (inputFor sampleCrypto ((Url.root "https://sync.test").join (headOf notesWorkspace).relativePath) .get []
          sampleSigner ⟨1700000000⟩ sampleNonce) request := by
  have hplain : (headOf notesWorkspace).Plain .get := by
    rintro (hdot | hdots)
    · exact absurd hdot (by decide)
    · exact absurd hdots (by decide)
  obtain ⟨request, hsent, hiff⟩ := (delivered_iff sampleServerEnv "https://sync.test" (headOf notesWorkspace) .get []
    sampleSigner none ⟨1700000000⟩ sampleNonce).2 sampleSignature rfl
  exact ⟨request, hsent, hiff.mpr hplain⟩

/-- The head of the workspace `..` is asked for at `/head`. -/
theorem dots_not_delivered : ¬ ∀ (E : ServerEnv) (origin : String) (endpoint : Endpoint)
    (method : Method) (body : Bytes)
    (signer : RequestSigner) (contentType : Option String) (timestamp : UnixTimestamp) (nonce : RequestNonce)
    (request : Request),
    sendSigned E.crypto (Url.root origin) method endpoint.relativePath body signer contentType timestamp
        (.ok nonce) = .ok request →
      Delivered E signer endpoint (inputFor E.crypto ((Url.root origin).join endpoint.relativePath) method body signer
        timestamp nonce) request := by
  intro h
  have hdelivered := h sampleServerEnv "https://sync.test" (headOf ⟨"..", by decide⟩) .get [] sampleSigner none
    ⟨1700000000⟩ sampleNonce _ (sendSigned_ok.mpr ⟨sampleSignature, rfl, rfl⟩)
  have hpath : "/head".toList = "/workspaces/../head".toList := hdelivered.path
  exact absurd hpath (by decide)

end Samples

end RustSync.Client
