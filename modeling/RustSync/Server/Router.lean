/-
Which requests are authenticated

The router reads a path by the segments of its templates, and decodes the
parameters for the handler; the middleware reads the raw path. Where a sync
template matches, the middleware does not let the request pass without
authentication, and a workspace it authenticates for is the one the handler
gets, since an identifier has no escapes to decode.

The decoding of percent escapes is third-party: a parameter, of which it is
relied on that it leaves a segment without a `%` alone.

Key definitions: `matchRoute`, `classifyAuthTarget`, `receivedWorkspace`. Key
theorem: `sync_routes_authenticated`.
-/
import RustSync.Protocol.Headers
import RustSync.Protocol.Routes
import RustSync.Server.Error

namespace RustSync

/-! ### Templates -/

def workspaceBlobRoute : List Char := "/workspaces/{workspace_id}/blobs/{blob_id}".toList
def workspaceManifestRoute : List Char := "/workspaces/{workspace_id}/manifests/{manifest_id}".toList
def workspaceHeadRoute : List Char := "/workspaces/{workspace_id}/head".toList

inductive TemplateSegment where
  | literal (text : List Char)
  | param
deriving DecidableEq

def templateSegment (segment : List Char) : TemplateSegment :=
  if segment.head? = some '\x7b' then .param else .literal segment

/-- The raw parameters of the segments of a path, if it matches. -/
def matchSegments : List TemplateSegment → List (List Char) → Option (List (List Char))
  | [], [] => some []
  | .literal text :: template, segment :: segments =>
    if text = segment then matchSegments template segments else none
  | .param :: template, segment :: segments =>
    if segment = [] then none else (matchSegments template segments).map (segment :: ·)
  | _, _ => none

def matchRoute (template path : List Char) : Option (List (List Char)) :=
  matchSegments ((components template).map templateSegment) (components path)

/-- What the extractor of a handler gives it as the workspace. -/
def receivedWorkspace (decode : List Char → Option (List Char)) (params : List (List Char)) : Option WorkspaceId := do
  let raw ← params.head?
  let workspaceId ← decode raw
  (TextId.parse workspaceIdKind (String.ofList workspaceId)).toOption

/-! ### The middleware -/

structure AuthTarget where
  workspaceId : WorkspaceId
  permission : WorkspacePermission
deriving DecidableEq

def classificationError : RouteError → ServerError
  | .invalidWorkspaceId _ => .invalidWorkspaceId
  | .invalidBlobId _ | .invalidManifestId _ | .missingWorkspaceRouteTail | .invalidWorkspaceRouteTail _
  | .unsupportedMethod _ => .authenticationRequired

def classifyAuthTarget (method : String) (path : List Char) : ServerResult (Option AuthTarget) := do
  match ← (classifyWorkspaceSyncAuthTargetWithMethod method path).mapError classificationError with
  | none => return none
  | some classified => return some ⟨classified.workspaceId, classified.requiredPermission⟩

/-! ### Headers -/

abbrev HeaderMap := List (String × Bytes)

/-- What `HeaderValue::to_str` lets through. -/
def isVisibleAscii (b : UInt8) : Bool := 32 ≤ b && b < 127 || b == 9

def headerValueToStr (value : Bytes) : ServerResult String :=
  if value.all isVisibleAscii then .ok (String.ofList (value.map fun b => Char.ofNat b.toNat))
  else .error .invalidAuthHeader

def requiredHeader (headers : HeaderMap) (name : String) : ServerResult String := do
  let value ← okOr (headers.lookup name) .authenticationRequired
  headerValueToStr value

def parseAuthHeaders (headers : HeaderMap) : ServerResult AuthHeaders := do
  let deviceId ← requiredHeader headers deviceIdHeader
  let timestamp ← requiredHeader headers timestampHeader
  let nonce ← requiredHeader headers nonceHeader
  let signature ← requiredHeader headers signatureHeader
  (AuthHeaders.fromHeaderValues ⟨deviceId, timestamp, nonce, signature⟩).mapError .authProtocol

theorem headerValueToStr_printable {value : String} (h : Printable value.toList) :
    headerValueToStr (utf8 value) = .ok value := by
  have hbytes : utf8 value = value.toList.map fun ch => UInt8.ofNat ch.toNat := by
    rw [← utf8_printable h, String.ofList_toList]
  have hbyte {ch : Char} (hch : ch ∈ value.toList) : (UInt8.ofNat ch.toNat).toNat = ch.toNat := by
    have hlt := (h ch hch).2
    exact UInt8.toNat_ofNat_of_lt' (hlt.trans (by decide))
  have hall : (utf8 value).all isVisibleAscii = true := by
    rw [hbytes, List.all_map, List.all_eq_true]
    intro ch hch
    have hprintable := h ch hch
    simp only [Function.comp_apply, isVisibleAscii, Bool.or_eq_true, Bool.and_eq_true, decide_eq_true_eq,
      UInt8.le_iff_toNat_le, UInt8.lt_iff_toNat_lt, hbyte hch]
    exact .inl hprintable
  have hchars : (utf8 value).map (fun b => Char.ofNat b.toNat) = value.toList := by
    rw [hbytes, List.map_map]
    calc value.toList.map _ = value.toList.map id := List.map_congr_left fun ch hch => by
          rw [Function.comp_apply, hbyte hch, Char.ofNat_toNat, id]
      _ = value.toList := List.map_id _
  unfold headerValueToStr
  rw [if_pos hall, hchars, String.ofList_toList]

/-! ### What the templates match -/

section Router

variable {template path segment tail : List Char} {segments params : List (List Char)}
  {rest : List TemplateSegment} {method : String} {w : WorkspaceId}

theorem matchSegments_nil : matchSegments [] segments = some params ↔ segments = [] ∧ params = [] := by
  cases segments with
  | nil => simp [matchSegments, eq_comm]
  | cons segment segments => simp [matchSegments]

theorem matchSegments_literal : matchSegments (.literal segment :: rest) segments = some params ↔
    ∃ others, segments = segment :: others ∧ matchSegments rest others = some params := by
  cases segments with
  | nil => simp [matchSegments]
  | cons first segments =>
    rw [matchSegments]
    by_cases hsegment : segment = first
    · simp [hsegment]
    · simp [hsegment, Ne.symm hsegment]

theorem matchSegments_param : matchSegments (.param :: rest) segments = some params ↔
    ∃ raw others params', segments = raw :: others ∧ raw ≠ [] ∧ params = raw :: params' ∧
      matchSegments rest others = some params' := by
  cases segments with
  | nil => simp [matchSegments]
  | cons first segments =>
    rw [matchSegments]
    by_cases hempty : first = []
    · simp [hempty]
    · rw [if_neg hempty, Option.map_eq_some_iff]
      constructor
      · rintro ⟨params', hrest, rfl⟩
        exact ⟨first, segments, params', rfl, hempty, rfl, hrest⟩
      · rintro ⟨_, _, params', heq, _, rfl, hrest⟩
        cases heq
        exact ⟨params', hrest, rfl⟩

/-- A template of one parameter. -/
theorem matchSegments_one {start kind : List Char}
    (h : matchSegments [.literal [], .literal start, .param, .literal kind] segments = some params) :
    ∃ raw, segments = [[], start, raw, kind] ∧ params = [raw] := by
  simp only [matchSegments_literal, matchSegments_param, matchSegments_nil] at h
  obtain ⟨_, rfl, _, rfl, raw, _, _, rfl, _, rfl, _, rfl, rfl, rfl⟩ := h
  exact ⟨raw, rfl, rfl⟩

/-- A template of two. -/
theorem matchSegments_two {start kind : List Char}
    (h : matchSegments [.literal [], .literal start, .param, .literal kind, .param] segments = some params) :
    ∃ raw id, segments = [[], start, raw, kind, id] ∧ params = [raw, id] := by
  simp only [matchSegments_literal, matchSegments_param, matchSegments_nil] at h
  obtain ⟨_, rfl, _, rfl, raw, _, _, rfl, _, rfl, _, rfl, id, _, _, rfl, _, rfl, rfl, rfl⟩ := h
  exact ⟨raw, id, rfl, rfl⟩

/-- The tails of sync routes. -/
def SyncTail (tail : List Char) : Prop :=
  tail = "head".toList ∨ "blobs/".toList <+: tail ∨ "manifests/".toList <+: tail

/-- The path of a template's segments. -/
theorem path_of_components {start raw : List Char} {others : List (List Char)}
    (h : components path = [] :: start :: raw :: others) (hne : others ≠ []) :
    '/' ∉ raw ∧ path = '/' :: (start ++ '/' :: (raw ++ '/' :: ['/'].intercalate others)) := by
  refine ⟨slash_not_mem_component (p := path) (by rw [h]; simp), ?_⟩
  obtain ⟨next, others, rfl⟩ := List.exists_cons_of_ne_nil hne
  rw [← intercalate_components path, h, List.intercalate_cons_cons, List.intercalate_cons_cons,
    List.intercalate_cons_cons]
  simp

/-- A sync template matches the raw id of a workspace and a tail. -/
theorem matchRoute_sync (htemplate : template ∈ [workspaceHeadRoute, workspaceBlobRoute, workspaceManifestRoute])
    (h : matchRoute template path = some params) : ∃ raw tail, params.head? = some raw ∧ '/' ∉ raw ∧
      path = workspacesStart ++ (raw ++ '/' :: tail) ∧ SyncTail tail := by
  have hhead : (components workspaceHeadRoute).map templateSegment =
      [.literal [], .literal "workspaces".toList, .param, .literal "head".toList] := by decide
  have hblob : (components workspaceBlobRoute).map templateSegment =
      [.literal [], .literal "workspaces".toList, .param, .literal "blobs".toList, .param] := by decide
  have hmanifest : (components workspaceManifestRoute).map templateSegment =
      [.literal [], .literal "workspaces".toList, .param, .literal "manifests".toList, .param] := by decide
  unfold matchRoute at h
  rcases List.mem_cons.mp htemplate with rfl | htemplate
  · rw [hhead] at h
    obtain ⟨raw, hcomponents, rfl⟩ := matchSegments_one h
    obtain ⟨hslash, hpath⟩ := path_of_components hcomponents (by simp)
    exact ⟨raw, _, rfl, hslash, hpath, .inl rfl⟩
  · rcases List.mem_cons.mp htemplate with rfl | htemplate
    · rw [hblob] at h
      obtain ⟨raw, id, hcomponents, rfl⟩ := matchSegments_two h
      obtain ⟨hslash, hpath⟩ := path_of_components hcomponents (by simp)
      rw [List.intercalate_cons_cons, List.intercalate_singleton] at hpath
      exact ⟨raw, _, rfl, hslash, hpath, .inr (.inl ⟨id, rfl⟩)⟩
    · obtain rfl := List.mem_singleton.mp htemplate
      rw [hmanifest] at h
      obtain ⟨raw, id, hcomponents, rfl⟩ := matchSegments_two h
      obtain ⟨hslash, hpath⟩ := path_of_components hcomponents (by simp)
      rw [List.intercalate_cons_cons, List.intercalate_singleton] at hpath
      exact ⟨raw, _, rfl, hslash, hpath, .inr (.inr ⟨id, rfl⟩)⟩

theorem SyncTail.protected (h : SyncTail tail) :
    ¬ ("devices/".toList <+: tail ∨ "access/".toList <+: tail ∨ "keys/".toList <+: tail) := by
  rcases h with rfl | ⟨id, rfl⟩ | ⟨id, rfl⟩
  · decide
  · simp
  · simp

/-- On such a path the middleware stops the request or authenticates it for
the workspace of the raw id. -/
theorem classifyAuthTarget_sync {raw : List Char} {found : Option AuthTarget} (hslash : '/' ∉ raw)
    (hpath : path = workspacesStart ++ (raw ++ '/' :: tail)) (htail : SyncTail tail)
    (h : classifyAuthTarget method path = .ok found) :
    ∃ target, found = some target ∧ raw = target.workspaceId.asStr.toList := by
  have hstart : workspacesStart <+: path := by
    rw [hpath]
    exact List.prefix_append _ _
  have hsplit : splitWorkspaceRoute path = .ok (some (raw, tail)) := splitWorkspaceRoute_some.mpr ⟨hslash, hpath⟩
  have hprotected := htail.protected
  have hsync : isNonSyncWorkspaceRoute path = .ok false := by
    unfold isNonSyncWorkspaceRoute
    rw [hsplit]
    simp only [bind, Except.bind, pure, Except.pure, Except.ok.injEq, decide_eq_false_iff_not]
    tauto
  unfold classifyAuthTarget at h
  obtain ⟨classified, hclassified, h⟩ := Except.bind_ok.mp h
  rw [Except.mapError_ok, classifyWorkspaceSyncAuthTargetWithMethod, if_neg (not_not_intro hstart),
    hsync] at hclassified
  obtain ⟨_, heq, hclassified⟩ := Except.bind_ok.mp hclassified
  cases heq
  rw [if_neg (by simp)] at hclassified
  obtain ⟨syncMethod, _, hclassified⟩ := Except.bind_ok.mp hclassified
  unfold classifyWorkspaceSyncAuthTarget at hclassified
  rw [hsplit] at hclassified
  obtain ⟨_, heq, hclassified⟩ := Except.bind_ok.mp hclassified
  cases heq
  simp only [if_neg hprotected] at hclassified
  obtain ⟨w, hw, hclassified⟩ := Except.bind_ok.mp hclassified
  obtain ⟨permission, _, hclassified⟩ := Except.bind_ok.mp hclassified
  cases hclassified
  cases h
  exact ⟨⟨w, permission⟩, rfl, parseWorkspaceId_ok.mp hw⟩

/-- An identifier is received as it is written. -/
theorem receivedWorkspace_id {decode : List Char → Option (List Char)}
    (hdecode : ∀ segment, '%' ∉ segment → decode segment = some segment)
    (hparams : params.head? = some w.asStr.toList) : receivedWorkspace decode params = some w := by
  have hescape : '%' ∉ w.asStr.toList := w.not_mem (by decide)
  unfold receivedWorkspace
  rw [hparams]
  simp only [Option.bind_eq_bind, Option.bind_some, hdecode _ hescape]
  rw [String.ofList_toList, TextId.parse_asStr]
  rfl

/-- **Sync routes are authenticated.** Where a sync template matches, the
middleware never lets the request pass, and the workspace it names is the one
the handler gets; and what names an endpoint names the workspace and the
permission to authenticate for. -/
theorem sync_routes_authenticated {decode : List Char → Option (List Char)}
    (hdecode : ∀ segment, '%' ∉ segment → decode segment = some segment) :
    (∀ (method : String) (path : List Char), ∀ template ∈ [workspaceHeadRoute, workspaceBlobRoute,
        workspaceManifestRoute], ∀ params, matchRoute template path = some params →
      classifyAuthTarget method path ≠ .ok none ∧
      ∀ target, classifyAuthTarget method path = .ok (some target) →
        receivedWorkspace decode params = some target.workspaceId) ∧
    (∀ method path classified, classifyWorkspaceSyncRoute method path = .ok (some classified) →
      classifyWorkspaceSyncAuthTarget method path =
        .ok (some ⟨classified.endpoint.workspaceId, classified.requiredPermission⟩)) ∧
    ∀ method path classified, classifyWorkspaceSyncRouteWithMethod method path = .ok (some classified) →
      classifyWorkspaceSyncAuthTargetWithMethod method path =
        .ok (some ⟨classified.endpoint.workspaceId, classified.requiredPermission⟩) := by
  refine ⟨fun method path template htemplate params hmatch => ?_, fun method path classified => authTarget_of_route,
    fun method path classified => authTarget_of_route_withMethod⟩
  obtain ⟨raw, tail, hparams, hslash, hpath, htail⟩ := matchRoute_sync htemplate hmatch
  constructor
  · intro hnone
    obtain ⟨target, hsome, _⟩ := classifyAuthTarget_sync hslash hpath htail hnone
    cases hsome
  · intro target htarget
    obtain ⟨found, hfound, hraw⟩ := classifyAuthTarget_sync hslash hpath htail htarget
    cases hfound
    rw [hraw] at hparams
    exact receivedWorkspace_id hdecode hparams

end Router

/-! ### Percent escapes -/

section Escapes

def hexValue (ch : Char) : Option ℕ :=
  if ch.isDigit then some (ch.toNat - '0'.toNat)
  else if 'a' ≤ ch ∧ ch ≤ 'f' then some (ch.toNat - 'a'.toNat + 10)
  else if 'A' ≤ ch ∧ ch ≤ 'F' then some (ch.toNat - 'A'.toNat + 10)
  else none

/-- The bytes of a text with its escapes decoded; a `%` without two digits
stands for itself. -/
def unescapedBytes : List Char → Bytes
  | '%' :: high :: low :: rest =>
    match hexValue high, hexValue low with
    | some h, some l => UInt8.ofNat (16 * h + l) :: unescapedBytes rest
    | _, _ => UInt8.ofNat '%'.toNat :: unescapedBytes (high :: low :: rest)
  | ch :: rest => String.utf8EncodeChar ch ++ unescapedBytes rest
  | [] => []

def percentDecode (segment : List Char) : Option (List Char) :=
  (String.fromUTF8? ⟨(unescapedBytes segment).toArray⟩).map String.toList

theorem unescapedBytes_plain : ∀ {segment : List Char}, '%' ∉ segment →
    unescapedBytes segment = utf8 (String.ofList segment)
  | [], _ => rfl
  | ch :: rest, h => by
    rw [List.mem_cons, not_or] at h
    have hutf8 : utf8 (String.ofList (ch :: rest)) = String.utf8EncodeChar ch ++ utf8 (String.ofList rest) := by
      simp [utf8, String.toList_ofList]
    rw [unescapedBytes, unescapedBytes_plain h.2, hutf8]
    exact fun _ _ _ heq _ => h.1 heq.symm

theorem percentDecode_plain (segment : List Char) (h : '%' ∉ segment) : percentDecode segment = some segment := by
  unfold percentDecode
  rw [unescapedBytes_plain h, fromUTF8?_utf8]
  exact congrArg some String.toList_ofList

def notesWorkspace : WorkspaceId := ⟨"notes", by decide⟩

-- the router would decode the escape, the middleware refuses it
example : classifyAuthTarget "GET" "/workspaces/n%6ftes/head".toList = .error .invalidWorkspaceId := by
  decide +kernel

theorem head_authenticated :
    classifyAuthTarget "GET" "/workspaces/notes/head".toList = .ok (some ⟨notesWorkspace, .readObjects⟩) ∧
      receivedWorkspace percentDecode ["notes".toList] = some notesWorkspace := by
  have htarget : classifyAuthTarget "GET" "/workspaces/notes/head".toList =
      .ok (some ⟨notesWorkspace, .readObjects⟩) := by decide +kernel
  have hmatch : matchRoute workspaceHeadRoute "/workspaces/notes/head".toList = some ["notes".toList] := by decide
  obtain ⟨hsync, _⟩ := sync_routes_authenticated percentDecode_plain
  exact ⟨htarget, (hsync "GET" _ workspaceHeadRoute (by simp) _ hmatch).2 _ htarget⟩

end Escapes

end RustSync
