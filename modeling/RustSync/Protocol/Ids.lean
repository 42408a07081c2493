/-
Identifiers

Every text identifier of the protocol (workspace, device, key, join request,
access event) comes out of one macro: a string that `validate_text_id`
accepts for the kind's prefix and length. Here a kind is a value (`IdKind`)
and an identifier carries the proof that it was accepted (`TextId`), so a
malformed one cannot be built and parsing what an identifier prints gives it
back (`TextId.parse_asStr`).

Key definitions: `validateTextId`, `TextId`, `TextId.parse`, `RequestNonce`.
-/
import RustSync.Lib.BTreeMap

namespace RustSync

abbrev Bytes := List UInt8

/-- The UTF-8 bytes of a string. -/
def utf8 (s : String) : Bytes := s.toList.flatMap String.utf8EncodeChar

theorem toByteArray_utf8 (s : String) : (⟨(utf8 s).toArray⟩ : ByteArray) = s.toByteArray := by
  rw [← String.utf8Encode_toList, List.utf8Encode, utf8, ← List.data_toByteArray]

theorem length_utf8 (s : String) : (utf8 s).length = s.utf8ByteSize := by
  have hbytes : s.toByteArray = (utf8 s).toByteArray := by
    rw [utf8, ← List.utf8Encode, String.utf8Encode_toList]
  rw [← String.size_toByteArray, hbytes, List.size_toByteArray]

theorem fromUTF8?_utf8 (s : String) : String.fromUTF8? ⟨(utf8 s).toArray⟩ = some s := by
  unfold String.fromUTF8?
  rw [toByteArray_utf8, dif_pos s.isValidUTF8]
  rfl

theorem utf8_of_fromUTF8? {bytes : Bytes} {s : String} (h : String.fromUTF8? ⟨bytes.toArray⟩ = some s) :
    utf8 s = bytes := by
  unfold String.fromUTF8? at h
  split at h
  · rename_i hvalid
    cases h
    have harray : (⟨(utf8 (String.fromUTF8 ⟨bytes.toArray⟩ hvalid)).toArray⟩ : ByteArray) = ⟨bytes.toArray⟩ := by
      rw [toByteArray_utf8]
      rfl
    have hlist := congrArg (fun a : ByteArray => a.data.toList) harray
    simpa using hlist
  · cases h

/-- What `ProtocolError::InvalidIdentifier` carries. -/
structure InvalidIdentifier where
  kind : String
  value : String
  reason : String
deriving DecidableEq, Repr

/-- The parameters of `define_text_id!`. -/
structure IdKind where
  kind : String
  requiredPrefix : Option String
  maxLen : ℕ
deriving DecidableEq, Repr

/-- An ASCII letter or digit, `_`, `-` or `.`. -/
def isIdChar (c : Char) : Bool := c.isAlphanum || c == '_' || c == '-' || c == '.'

/-- The prefix test of `validate_text_id`: `value` starts with the required
prefix and has a suffix after it. -/
def hasRequiredPrefix (requiredPrefix : Option String) (value : String) : Bool :=
  match requiredPrefix with
  | none => true
  | some p => p.toList.isPrefixOf value.toList && value.utf8ByteSize != p.utf8ByteSize

def validateTextId (k : IdKind) (value : String) : Except InvalidIdentifier Unit :=
  if value = "" then .error ⟨k.kind, value, "identifier is empty"⟩
  else if k.maxLen < value.utf8ByteSize then
    .error ⟨k.kind, value, s!"identifier exceeds {k.maxLen} bytes"⟩
  else if hasRequiredPrefix k.requiredPrefix value = false then
    let start := k.requiredPrefix.getD ""
    .error ⟨k.kind, value, s!"identifier must start with `{start}` and contain a suffix"⟩
  else if value.toList.all isIdChar = false then
    .error ⟨k.kind, value, "only ascii letters, digits, `_`, `-`, and `.` are allowed"⟩
  else .ok ()

/-- What the check accepts. -/
theorem validateTextId_ok {k : IdKind} {value : String} : validateTextId k value = .ok () ↔
    value ≠ "" ∧ value.utf8ByteSize ≤ k.maxLen ∧ hasRequiredPrefix k.requiredPrefix value = true ∧
      value.toList.all isIdChar = true := by
  unfold validateTextId
  by_cases hempty : value = ""
  · simp [hempty]
  · by_cases hlong : k.maxLen < value.utf8ByteSize
    · simp [hempty, hlong, Nat.not_le.mpr hlong]
    · rw [if_neg hempty, if_neg hlong]
      by_cases hrequired : hasRequiredPrefix k.requiredPrefix value = false
      · simp [hrequired]
      · rw [if_neg hrequired]
        rw [Bool.not_eq_false] at hrequired
        by_cases hchars : value.toList.all isIdChar = false
        · simp [hchars]
        · rw [if_neg hchars]
          rw [Bool.not_eq_false] at hchars
          simp only [hempty, hrequired, hchars, ne_eq, not_false_eq_true, true_and, and_true, true_iff]
          omega

/-- An identifier: a string its kind's check accepted. -/
structure TextId (k : IdKind) where
  asStr : String
  valid : validateTextId k asStr = .ok ()
deriving DecidableEq

namespace TextId

variable {k : IdKind}

def parse (k : IdKind) (value : String) : Except InvalidIdentifier (TextId k) :=
  match h : validateTextId k value with
  | .ok () => .ok ⟨value, h⟩
  | .error e => .error e

/-- An identifier survives printing and parsing. -/
@[simp] theorem parse_asStr (i : TextId k) : parse k i.asStr = .ok i := by
  unfold parse
  split
  · rfl
  · rename_i e h
    rw [i.valid] at h
    cases h

theorem asStr_of_parse {value : String} {i : TextId k} (h : parse k value = .ok i) : i.asStr = value := by
  unfold parse at h
  split at h
  · cases h
    rfl
  · cases h

theorem asStr_injective {i j : TextId k} (h : i.asStr = j.asStr) : i = j := by
  cases i
  cases j
  simpa using h

theorem ne_empty (i : TextId k) : i.asStr ≠ "" := (validateTextId_ok.mp i.valid).1

theorem length_le (i : TextId k) : (utf8 i.asStr).length ≤ k.maxLen := by
  rw [length_utf8]
  exact (validateTextId_ok.mp i.valid).2.1

theorem isIdChar_of_mem (i : TextId k) {c : Char} (hc : c ∈ i.asStr.toList) : isIdChar c = true :=
  List.all_eq_true.mp (validateTextId_ok.mp i.valid).2.2.2 c hc

/-- Other characters do not occur in it. -/
theorem not_mem (i : TextId k) {c : Char} (hc : isIdChar c = false) : c ∉ i.asStr.toList := by
  intro hmem
  rw [i.isIdChar_of_mem hmem] at hc
  cases hc

/-- Identifiers are ordered as their text is. -/
instance : Ord (TextId k) := ⟨compareOn TextId.asStr⟩

instance : Std.TransOrd (TextId k) := inferInstanceAs (Std.TransCmp (compareOn TextId.asStr))

instance : Std.LawfulEqOrd (TextId k) where
  eq_of_compare {a b} h := by
    have hs : a.asStr = b.asStr := Std.LawfulEqOrd.eq_of_compare h
    cases a; cases b
    simpa using hs

instance : ToString (TextId k) := ⟨TextId.asStr⟩

end TextId

def workspaceIdKind : IdKind := ⟨"workspace", none, 128⟩
def deviceIdKind : IdKind := ⟨"device", some "device_", 96⟩
def keyIdKind : IdKind := ⟨"key", none, 64⟩
def joinRequestIdKind : IdKind := ⟨"join request", some "join_", 96⟩
def accessEventIdKind : IdKind := ⟨"access event", some "event_", 96⟩

abbrev WorkspaceId := TextId workspaceIdKind
abbrev DeviceId := TextId deviceIdKind
abbrev KeyId := TextId keyIdKind
abbrev JoinRequestId := TextId joinRequestIdKind
abbrev AccessEventId := TextId accessEventIdKind

/-- `UnixTimestamp`, whole seconds since the epoch. -/
structure UnixTimestamp where
  asSecs : UInt64
deriving DecidableEq, Repr

/-- The seconds as a number. -/
def UnixTimestamp.secs (t : UnixTimestamp) : ℕ := t.asSecs.toNat

def maxRequestNonceLen : ℕ := 128

/-- The check of `RequestNonce::parse`, with the text of its `InvalidAuthHeader`. -/
def validateRequestNonce (value : String) : Except String Unit :=
  if value = "" then .error "request nonce must not be empty"
  else if maxRequestNonceLen < value.utf8ByteSize then
    .error s!"request nonce must not excee {maxRequestNonceLen} bytes"
  else if value.toList.all isIdChar = false then
    .error "request nonce may contain only ascii letters, digits, `_`, `-`, and `.`"
  else .ok ()

/-- A nonce `RequestNonce::parse` accepted. -/
structure RequestNonce where
  asStr : String
  valid : validateRequestNonce asStr = .ok ()
deriving DecidableEq

/-- What a nonce is made of. -/
theorem RequestNonce.all_isIdChar (nonce : RequestNonce) : nonce.asStr.toList.all isIdChar = true := by
  have hvalid := nonce.valid
  unfold validateRequestNonce at hvalid
  split at hvalid
  · cases hvalid
  · split at hvalid
    · cases hvalid
    · split at hvalid
      · cases hvalid
      · rename_i hchars
        rwa [Bool.not_eq_false] at hchars

end RustSync
