/-
Routes

The endpoints of the protocol and the paths they are at, and two readings of a
path: as the endpoint of a sync request, and as what a sync request must be
authenticated for. The second reads less of the path: it takes what the first
takes, for the same workspace and permission (`authTarget_of_route`).

Key definitions: `WorkspaceSyncEndpoint`, `WorkspaceAccessEndpoint`,
`classifyWorkspaceSyncRoute`, `classifyWorkspaceSyncAuthTarget`.
-/
import RustSync.Lib.Path
import RustSync.Protocol.Head

namespace RustSync

/-! ### Endpoints -/

inductive WorkspaceSyncMethod where
  | get
  | put
deriving DecidableEq

inductive WorkspaceSyncResource where
  | blob (blobId : BlobId)
  | manifest (manifestId : ManifestId)
  | head
deriving DecidableEq

structure WorkspaceSyncEndpoint where
  workspaceId : WorkspaceId
  resource : WorkspaceSyncResource
deriving DecidableEq

inductive WorkspaceAccessResource where
  | joinRequests
  | joinRequestApproval (joinRequestId : JoinRequestId)
  | accessEvents
  | accessState
  | keyEnvelope (keyId : KeyId) (recipientDeviceId : DeviceId)
deriving DecidableEq

structure WorkspaceAccessEndpoint where
  workspaceId : WorkspaceId
  resource : WorkspaceAccessResource
deriving DecidableEq

def WorkspaceSyncMethod.asStr : WorkspaceSyncMethod → String
  | .get => "GET"
  | .put => "PUT"

def WorkspaceSyncEndpoint.relativePath (self : WorkspaceSyncEndpoint) : List Char :=
  let workspaceId := self.workspaceId.asStr.toList
  match self.resource with
  | .blob blobId => "workspaces/".toList ++ workspaceId ++ "/blobs/".toList ++ blobId.asStr.toList
  | .manifest manifestId => "workspaces/".toList ++ workspaceId ++ "/manifests/".toList ++ manifestId.asStr.toList
  | .head => "workspaces/".toList ++ workspaceId ++ "/head".toList

def WorkspaceSyncEndpoint.absolutePath (self : WorkspaceSyncEndpoint) : List Char := '/' :: self.relativePath

def WorkspaceAccessEndpoint.relativePath (self : WorkspaceAccessEndpoint) : List Char :=
  let workspaceId := self.workspaceId.asStr.toList
  match self.resource with
  | .joinRequests => "workspaces/".toList ++ workspaceId ++ "/devices/join-requests".toList
  | .joinRequestApproval joinRequestId =>
    "workspaces/".toList ++ workspaceId ++ "/devices/join-requests/".toList ++ joinRequestId.asStr.toList ++
      "/approval".toList
  | .accessEvents => "workspaces/".toList ++ workspaceId ++ "/access/events".toList
  | .accessState => "workspaces/".toList ++ workspaceId ++ "/access/state".toList
  | .keyEnvelope keyId recipientDeviceId =>
    "workspaces/".toList ++ workspaceId ++ "/keys/".toList ++ keyId.asStr.toList ++ "/envelopes/".toList ++
      recipientDeviceId.asStr.toList

def WorkspaceAccessEndpoint.absolutePath (self : WorkspaceAccessEndpoint) : List Char := '/' :: self.relativePath

/-! ### Classification -/

structure ClassifiedWorkspaceSyncEndpoint where
  endpoint : WorkspaceSyncEndpoint
  requiredPermission : WorkspacePermission
deriving DecidableEq

structure WorkspaceSyncAuthTarget where
  workspaceId : WorkspaceId
  requiredPermission : WorkspacePermission
deriving DecidableEq

/-- `WorkspaceSyncRouteClassificationError`. -/
inductive RouteError where
  | unsupportedMethod (method : String)
  | missingWorkspaceRouteTail
  | invalidWorkspaceId (error : InvalidIdentifier)
  | invalidBlobId (error : InvalidIdentifier)
  | invalidManifestId (error : InvalidIdentifier)
  | invalidWorkspaceRouteTail (tail : List Char)
deriving DecidableEq

/-- `TryFrom<&str>`. -/
def WorkspaceSyncMethod.tryFrom (value : String) : Except RouteError WorkspaceSyncMethod :=
  if value = "GET" then .ok .get
  else if value = "PUT" then .ok .put
  else .error (.unsupportedMethod value)

/-- `str::strip_prefix`. -/
def afterPrefix (start path : List Char) : Option (List Char) :=
  if start <+: path then some (path.drop start.length) else none

def workspacesStart : List Char := "/workspaces/".toList

def splitWorkspaceRoute (path : List Char) : Except RouteError (Option (List Char × List Char)) :=
  match afterPrefix workspacesStart path with
  | none => .ok none
  | some rest =>
    match splitOnce rest with
    | some (workspaceId, routeTail) => .ok (some (workspaceId, routeTail))
    | none => .error .missingWorkspaceRouteTail

def isNonSyncWorkspaceRoute (path : List Char) : Except RouteError Bool := do
  match ← splitWorkspaceRoute path with
  | none => return false
  | some (_, routeTail) => return "devices/".toList <+: routeTail ∨ "access/".toList <+: routeTail

def permissionFor : WorkspaceSyncMethod → WorkspaceSyncResource → WorkspacePermission
  | .get, _ => .readObjects
  | .put, .head => .updateHead
  | .put, .blob _ => .writeObjects
  | .put, .manifest _ => .writeObjects

inductive WorkspaceSyncResourceKind where
  | blob
  | manifest
  | head

def protectedResource (routeTail : List Char) : Option WorkspaceSyncResourceKind :=
  if routeTail = "head".toList then some .head
  else if "blobs/".toList <+: routeTail then some .blob
  else if "manifests/".toList <+: routeTail then some .manifest
  else none

def authPermissionForRouteTail (method : WorkspaceSyncMethod) (routeTail : List Char) :
    Except RouteError WorkspacePermission := do
  let resource ← okOr (protectedResource routeTail) (.invalidWorkspaceRouteTail routeTail)
  match method, resource with
  | .get, _ => return .readObjects
  | .put, .head => return .updateHead
  | .put, .blob => return .writeObjects
  | .put, .manifest => return .writeObjects

def parseWorkspaceId (workspaceId : List Char) : Except RouteError WorkspaceId :=
  (TextId.parse workspaceIdKind (String.ofList workspaceId)).mapError .invalidWorkspaceId

/-- The endpoint a route's tail names. -/
def endpointOf (workspaceId : WorkspaceId) (routeTail : List Char) : Except RouteError WorkspaceSyncEndpoint :=
  match splitOnce routeTail with
  | none =>
    if routeTail = "head".toList then .ok ⟨workspaceId, .head⟩ else .error (.invalidWorkspaceRouteTail routeTail)
  | some (kind, id) =>
    if kind = "blobs".toList ∧ '/' ∉ id then do
      let blobId ← (ObjectId.parse blobIdKind (String.ofList id)).mapError .invalidBlobId
      return ⟨workspaceId, .blob blobId⟩
    else if kind = "manifests".toList ∧ '/' ∉ id then do
      let manifestId ← (ObjectId.parse manifestIdKind (String.ofList id)).mapError .invalidManifestId
      return ⟨workspaceId, .manifest manifestId⟩
    else .error (.invalidWorkspaceRouteTail routeTail)

def classifyWorkspaceSyncRoute (method : WorkspaceSyncMethod) (path : List Char) :
    Except RouteError (Option ClassifiedWorkspaceSyncEndpoint) := do
  match ← splitWorkspaceRoute path with
  | none => return none
  | some (workspaceId, routeTail) =>
    let workspaceId ← parseWorkspaceId workspaceId
    let endpoint ← endpointOf workspaceId routeTail
    return some ⟨endpoint, permissionFor method endpoint.resource⟩

def classifyWorkspaceSyncRouteWithMethod (method : String) (path : List Char) :
    Except RouteError (Option ClassifiedWorkspaceSyncEndpoint) := do
  if ¬ workspacesStart <+: path then return none
  else
    let method ← WorkspaceSyncMethod.tryFrom method
    classifyWorkspaceSyncRoute method path

def classifyWorkspaceSyncAuthTarget (method : WorkspaceSyncMethod) (path : List Char) :
    Except RouteError (Option WorkspaceSyncAuthTarget) := do
  match ← splitWorkspaceRoute path with
  | none => return none
  | some (workspaceId, routeTail) =>
    if "devices/".toList <+: routeTail ∨ "access/".toList <+: routeTail ∨ "keys/".toList <+: routeTail then
      return none
    else
      let workspaceId ← parseWorkspaceId workspaceId
      let requiredPermission ← authPermissionForRouteTail method routeTail
      return some ⟨workspaceId, requiredPermission⟩

def classifyWorkspaceSyncAuthTargetWithMethod (method : String) (path : List Char) :
    Except RouteError (Option WorkspaceSyncAuthTarget) := do
  if ¬ workspacesStart <+: path then return none
  else if ← isNonSyncWorkspaceRoute path then return none
  else
    let method ← WorkspaceSyncMethod.tryFrom method
    classifyWorkspaceSyncAuthTarget method path

/-! ### The two readings -/

section Readings

variable {method : WorkspaceSyncMethod} {path workspaceId routeTail : List Char} {w : WorkspaceId}
  {endpoint : WorkspaceSyncEndpoint} {classified : ClassifiedWorkspaceSyncEndpoint}

theorem afterPrefix_some {start rest : List Char} : afterPrefix start path = some rest ↔ path = start ++ rest := by
  unfold afterPrefix
  by_cases hstart : start <+: path
  · rw [if_pos hstart]
    obtain ⟨rest', rfl⟩ := hstart
    rw [List.drop_left, Option.some.injEq, List.append_cancel_left_eq, eq_comm]
  · rw [if_neg hstart]
    simp only [reduceCtorEq, false_iff]
    rintro rfl
    exact hstart (List.prefix_append _ _)

theorem splitWorkspaceRoute_some : splitWorkspaceRoute path = .ok (some (workspaceId, routeTail)) ↔
    '/' ∉ workspaceId ∧ path = workspacesStart ++ (workspaceId ++ '/' :: routeTail) := by
  unfold splitWorkspaceRoute
  constructor
  · intro h
    split at h
    · cases h
    · rename_i rest hrest
      split at h
      · rename_i hsplit
        cases h
        obtain ⟨hslash, rfl⟩ := splitOnce_some hsplit
        exact ⟨hslash, afterPrefix_some.mp hrest⟩
      · cases h
  · rintro ⟨hslash, hpath⟩
    rw [afterPrefix_some.mpr hpath]
    simp only [splitOnce_append hslash]

/-- What an identifier's text parses to. -/
theorem parseWorkspaceId_ok : parseWorkspaceId workspaceId = .ok w ↔ workspaceId = w.asStr.toList := by
  unfold parseWorkspaceId
  rw [Except.mapError_ok]
  constructor
  · intro h
    rw [TextId.asStr_of_parse h, String.toList_ofList]
  · rintro rfl
    rw [String.ofList_toList, TextId.parse_asStr]

/-- The tails of endpoints. -/
theorem endpointOf_ok (h : endpointOf w routeTail = .ok endpoint) :
    endpoint.workspaceId = w ∧
      ((routeTail = "head".toList ∧ endpoint.resource = .head) ∨
        (∃ blobId, routeTail = "blobs".toList ++ '/' :: blobId.asStr.toList ∧ endpoint.resource = .blob blobId) ∨
        ∃ manifestId, routeTail = "manifests".toList ++ '/' :: manifestId.asStr.toList ∧
          endpoint.resource = .manifest manifestId) := by
  unfold endpointOf at h
  split at h
  · split at h
    · rename_i hhead
      cases h
      exact ⟨rfl, .inl ⟨hhead, rfl⟩⟩
    · cases h
  · rename_i kind id hsplit
    obtain ⟨_, rfl⟩ := splitOnce_some hsplit
    split at h
    · rename_i hkind
      obtain ⟨blobId, hblob, h⟩ := Except.bind_ok.mp h
      cases h
      rw [Except.mapError_ok] at hblob
      have hid : id = blobId.asStr.toList := by rw [ObjectId.asStr_of_parse hblob, String.toList_ofList]
      exact ⟨rfl, .inr (.inl ⟨blobId, by rw [hkind.1, hid], rfl⟩)⟩
    · split at h
      · rename_i hkind
        obtain ⟨manifestId, hmanifest, h⟩ := Except.bind_ok.mp h
        cases h
        rw [Except.mapError_ok] at hmanifest
        have hid : id = manifestId.asStr.toList := by rw [ObjectId.asStr_of_parse hmanifest, String.toList_ofList]
        exact ⟨rfl, .inr (.inr ⟨manifestId, by rw [hkind.1, hid], rfl⟩)⟩
      · cases h

/-- The tail of an endpoint is protected, for what the endpoint is. -/
theorem authPermission_of_endpoint (h : endpointOf w routeTail = .ok endpoint) :
    authPermissionForRouteTail method routeTail = .ok (permissionFor method endpoint.resource) ∧
      ¬ ("devices/".toList <+: routeTail ∨ "access/".toList <+: routeTail ∨ "keys/".toList <+: routeTail) := by
  rcases (endpointOf_ok h).2 with ⟨rfl, hresource⟩ | ⟨blobId, rfl, hresource⟩ | ⟨manifestId, rfl, hresource⟩
  · rw [hresource]
    exact ⟨by cases method <;> rfl, by decide⟩
  · rw [hresource]
    have hprotected : protectedResource ("blobs".toList ++ '/' :: blobId.asStr.toList) = some .blob := by
      simp [protectedResource]
    unfold authPermissionForRouteTail
    rw [hprotected]
    exact ⟨by cases method <;> rfl, by simp⟩
  · rw [hresource]
    have hprotected : protectedResource ("manifests".toList ++ '/' :: manifestId.asStr.toList) = some .manifest := by
      simp [protectedResource]
    unfold authPermissionForRouteTail
    rw [hprotected]
    exact ⟨by cases method <;> rfl, by simp⟩

/-- A path that names an endpoint is of no other kind. -/
theorem isNonSync_of_route (h : classifyWorkspaceSyncRoute method path = .ok (some classified)) :
    isNonSyncWorkspaceRoute path = .ok false := by
  unfold classifyWorkspaceSyncRoute at h
  obtain ⟨split, hsplit, h⟩ := Except.bind_ok.mp h
  cases split with
  | none => cases h
  | some parts =>
    obtain ⟨workspaceId, routeTail⟩ := parts
    obtain ⟨w, _, h⟩ := Except.bind_ok.mp h
    obtain ⟨endpoint, hendpoint, _⟩ := Except.bind_ok.mp h
    obtain ⟨_, hother⟩ := @authPermission_of_endpoint method _ _ _ hendpoint
    unfold isNonSyncWorkspaceRoute
    rw [hsplit]
    simp only [bind, Except.bind, pure, Except.pure, Except.ok.injEq, decide_eq_false_iff_not]
    tauto

/-- **A path that names an endpoint names what to authenticate for.** -/
theorem authTarget_of_route (h : classifyWorkspaceSyncRoute method path = .ok (some classified)) :
    classifyWorkspaceSyncAuthTarget method path =
      .ok (some ⟨classified.endpoint.workspaceId, classified.requiredPermission⟩) := by
  unfold classifyWorkspaceSyncRoute at h
  obtain ⟨split, hsplit, h⟩ := Except.bind_ok.mp h
  cases split with
  | none => cases h
  | some parts =>
    obtain ⟨workspaceId, routeTail⟩ := parts
    obtain ⟨w, hw, h⟩ := Except.bind_ok.mp h
    obtain ⟨endpoint, hendpoint, h⟩ := Except.bind_ok.mp h
    cases h
    obtain ⟨hpermission, hother⟩ := @authPermission_of_endpoint method _ _ _ hendpoint
    unfold classifyWorkspaceSyncAuthTarget
    rw [hsplit]
    simp only [bind, Except.bind]
    rw [if_neg hother, hw, hpermission, (endpointOf_ok hendpoint).1]
    rfl

/-- The same, with the method as it is sent. -/
theorem authTarget_of_route_withMethod {name : String}
    (h : classifyWorkspaceSyncRouteWithMethod name path = .ok (some classified)) :
    classifyWorkspaceSyncAuthTargetWithMethod name path =
      .ok (some ⟨classified.endpoint.workspaceId, classified.requiredPermission⟩) := by
  unfold classifyWorkspaceSyncRouteWithMethod at h
  unfold classifyWorkspaceSyncAuthTargetWithMethod
  by_cases hstart : workspacesStart <+: path
  · rw [if_neg (not_not_intro hstart)] at h ⊢
    obtain ⟨method, hmethod, h⟩ := Except.bind_ok.mp h
    have hsync : isNonSyncWorkspaceRoute path = .ok false := isNonSync_of_route h
    rw [hsync]
    refine Except.bind_ok.mpr ⟨false, rfl, ?_⟩
    rw [if_neg (by simp), hmethod]
    exact authTarget_of_route h
  · rw [if_pos hstart] at h
    cases h

end Readings

end RustSync
