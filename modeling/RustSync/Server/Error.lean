/-
Server errors

The errors of the server crate that the modelled handlers and stores return.
What a third-party store or decoder says of its own failure is a text.
-/
import RustSync.Protocol.Error

namespace RustSync

inductive ServerError where
  | invalidRequest (reason : String)
  | invalidWorkspaceId
  | manifestNotFound
  | blobNotFound
  | objectHashMismatch
  | keyEnvelopeNotFound
  | keyEnvelopeConflict
  | keyEnvelopeRecipientMismatch
  | joinRequestConflict
  | headRevisionOverflow
  | integerOutOfRange (what : String)
  | corruptDatabase (reason : String)
  | storageCorruption (reason : String)
  | invalidStoredHead (reason : String)
  | invalidStoredAccessStateJson (reason : String)
  | invalidAccessState (error : ProtocolError)
  | accessStateWorkspaceMismatch (expected actual : WorkspaceId)
  | authenticationRequired
  | invalidAuthHeader
  | authTimestampOutsideWindow
  | replayDetected
  | requestBodyTooLarge
  | authProtocol (error : ProtocolError)
  | storage (error : String)
  | database (error : String)
deriving DecidableEq

abbrev ServerResult (α : Type) := Except ServerError α

end RustSync
