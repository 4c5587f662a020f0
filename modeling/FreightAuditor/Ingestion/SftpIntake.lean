import Mathlib.Data.List.Sort
import FreightAuditor.Library.JsText
import FreightAuditor.Library.KeyedTable
import FreightAuditor.Library.Runs
import FreightAuditor.Library.Sessions

/- The intake of files from an SFTP directory.

   A poll claims each remote revision by an intake row, reads it and stores it as a source
   document; a failure is caught, and the row is quarantined. All of it is one transaction,
   and the row of a failed statement is written after the failure. -/
namespace SftpIntake

open JsText Sessions

structure SftpRemoteEntry where
  path : String
  size : ℕ
  modifiedAt : String
  etag : Option String
  deriving DecidableEq

/-- What goes wrong with an entry: the transport throws, or the object store, or a statement of
`storeSourceDocument` (its last one or the one before), or the update of the row. -/
inductive Fault where
  | read
  | put
  | storeSourceDocument (last : Bool)
  | updateStored
  deriving DecidableEq

/-- An entry of the listing, with what the transport reads for it. -/
structure RemoteFile where
  entry : SftpRemoteEntry
  bytes : List UInt8
  fault : Option Fault

structure SftpConnectionConfig where
  id : String
  clientId : String

structure SftpPollResult where
  discovered : ℕ
  stored : ℕ
  duplicates : ℕ
  quarantined : ℕ
  deriving DecidableEq

inductive IntakeStatus where
  | discovered | stored | quarantined
  deriving DecidableEq

structure DocumentKey where
  accountId : String
  sha256 : String
  deriving DecidableEq

structure SourceDocument where
  key : DocumentKey
  contentType : Option String
  byteSize : ℕ
  storageUri : String

structure IntakeKey where
  connectionId : String
  remotePath : String
  remoteFingerprint : String
  deriving DecidableEq

structure IntakeRow where
  key : IntakeKey
  accountId : String
  sourceDocumentId : Option DocumentKey
  status : IntakeStatus
  failureCode : Option String
  attemptCount : ℕ

/-- Rows are known by their unique keys. `storings` records the revisions in the order in which they
were stored. -/
structure IntakeDb where
  intake : KeyedTable IntakeRow IntakeRow.key
  documents : KeyedTable SourceDocument SourceDocument.key
  storings : List IntakeKey

def IntakeDb.initial (documents : KeyedTable SourceDocument SourceDocument.key) : IntakeDb :=
  ⟨.empty, documents, []⟩

inductive IntakeError where
  | readFailed
  | SFTP_SIZE_MISMATCH
  | storeFailed
  | CROSS_TENANT_CONTENT_COLLISION
  | rowNotFound
  | sql
  deriving DecidableEq

def IntakeError.failureCode : IntakeError → String
  | .SFTP_SIZE_MISMATCH => "SIZE_MISMATCH"
  | .CROSS_TENANT_CONTENT_COLLISION => "CONTENT_OWNERSHIP_CONFLICT"
  | _ => "READ_OR_STORE_FAILED"

/-- What the object store answers for bytes it has taken. -/
structure StoredObject where
  sha256 : String
  uri : String

structure SourceDocumentRef where
  id : DocumentKey
  created : Bool
  ownedByCaller : Bool

abbrev Intake (A : Type) := Program IntakeDb IntakeError A

/-! ## Statements -/

/-- `INSERT ... ON CONFLICT (...) DO UPDATE ... WHERE status = 'quarantined' RETURNING id`. -/
def claimRow (row : IntakeRow) (db : IntakeDb) : Option (Bool × IntakeDb) :=
  match db.intake.find? row.key with
  | none => (db.intake.insert row).map fun intake => (true, { db with intake })
  | some existing =>
    if existing.status = .quarantined then
      let retry (r : IntakeRow) : IntakeRow := if r.key = row.key then
        { r with status := .discovered, failureCode := none, attemptCount := r.attemptCount + 1 } else r
      some (true, { db with intake := db.intake.update retry fun r => by unfold retry; split <;> rfl })
    else some (false, db)

/-- `UPDATE sftp_intake SET ... WHERE id = ... AND account_id = ...`. -/
def IntakeDb.updateRow (key : IntakeKey) (clientId : String) (f : IntakeRow → IntakeRow)
    (hf : ∀ r, (f r).key = r.key) (db : IntakeDb) : IntakeDb :=
  { db with
    intake := db.intake.update (fun r => if r.key = key ∧ r.accountId = clientId then f r else r) fun r => by
      split
      · exact hf r
      · rfl }

def IntakeRow.store (documentId : DocumentKey) (r : IntakeRow) : IntakeRow :=
  { r with status := .stored, sourceDocumentId := some documentId }

def IntakeRow.quarantine (failureCode : String) (r : IntakeRow) : IntakeRow :=
  { r with status := .quarantined, failureCode := some failureCode }

/-- A new document under this key, or none where there is one. -/
def insertDocument (document : SourceDocument) (db : IntakeDb) : Option DocumentKey × IntakeDb :=
  match db.documents.insert document with
  | some documents => (some document.key, { db with documents })
  | none => (none, db)

section

variable (sha256 : String → String) (unicode : Unicode) (put : List UInt8 → StoredObject)

def remoteFingerprint (entry : SftpRemoteEntry) : String :=
  sha256 (entry.path ++ "\x00" ++ toString entry.size ++ "\x00" ++ entry.modifiedAt ++ "\x00" ++ entry.etag.getD "")

def endsWith (text suffix : String) : Bool := suffix.toList.isSuffixOf text.toList

def contentTypeFor (path : String) : String :=
  if endsWith (unicode.toLowerCase path) ".edi" || endsWith (unicode.toLowerCase path) ".x12" then
    "application/edi-x12"
  else "application/octet-stream"

/-- The SELECT runs where the INSERT found the document there. -/
def storeSourceDocument (clientId : String) (bytes : List UInt8) (contentType : Option String) (fault : Option Fault) :
    Intake SourceDocumentRef := do
  if fault = some .put then throw .storeFailed
  let stored := put bytes
  let document : SourceDocument := ⟨⟨clientId, stored.sha256⟩, contentType, bytes.length, stored.uri⟩
  let inserted ← statement .sql fun db =>
    let answer := insertDocument document db
    if fault = some (.storeSourceDocument false) ∨ fault = some (.storeSourceDocument true) ∧ answer.1.isSome then none
    else some answer
  match inserted with
  | some id => return ⟨id, true, true⟩
  | none =>
    let existing ← statement .sql fun db =>
      if fault = some (.storeSourceDocument true) then none else some (db.documents.find? document.key, db)
    match existing with
    | none => throw .rowNotFound
    | some row => return ⟨row.key, false, true⟩

def intakeKey (connectionId : String) (entry : SftpRemoteEntry) : IntakeKey :=
  ⟨connectionId, entry.path, remoteFingerprint sha256 entry⟩

/-- The `try` block. -/
def storeEntry (connection : SftpConnectionConfig) (file : RemoteFile) : Intake Unit := do
  if file.fault = some .read then throw .readFailed
  if file.bytes.length ≠ file.entry.size then throw .SFTP_SIZE_MISMATCH
  let document ← storeSourceDocument put connection.clientId file.bytes (some (contentTypeFor unicode file.entry.path))
    file.fault
  if !document.ownedByCaller then throw .CROSS_TENANT_CONTENT_COLLISION
  statement .sql fun db =>
    if file.fault = some .updateStored then none
    else
      let key := intakeKey sha256 connection.id file.entry
      some ((), { db.updateRow key connection.clientId (.store document.id) fun _ => rfl with
        storings := db.storings ++ [key] })

def pollEntry (connection : SftpConnectionConfig) (result : SftpPollResult) (file : RemoteFile) :
    Intake SftpPollResult := do
  let key := intakeKey sha256 connection.id file.entry
  let claimed ← statement .sql (claimRow ⟨key, connection.clientId, none, .discovered, none, 1⟩)
  if !claimed then return { result with duplicates := result.duplicates + 1 }
  else
    tryCatch
      (do
        storeEntry sha256 unicode put connection file
        return { result with stored := result.stored + 1 })
      fun error => do
        statement .sql fun db =>
          some ((), db.updateRow key connection.clientId (.quarantine error.failureCode) fun _ => rfl)
        return { result with quarantined := result.quarantined + 1 }

def byPath (a b : RemoteFile) : Prop := unicode.localeCompare a.entry.path b.entry.path ≠ .gt

instance : DecidableRel (byPath unicode) := fun a b =>
  inferInstanceAs (Decidable (unicode.localeCompare a.entry.path b.entry.path ≠ .gt))

/-- From the listing on. -/
def pollSftpIntake (connection : SftpConnectionConfig) (entries : List RemoteFile) : Intake SftpPollResult :=
  (entries.insertionSort (byPath unicode)).foldlM (pollEntry sha256 unicode put connection)
    ⟨entries.length, 0, 0, 0⟩

/-- A poll of a connection. -/
structure Poll where
  connectionId : String
  entries : List RemoteFile

/-- The poll in its transaction, as the account that the connection belongs to. -/
def Poll.run (accountOf : String → String) (poll : Poll) (db : IntakeDb) : Except IntakeError SftpPollResult × IntakeDb :=
  transact (pollSftpIntake sha256 unicode put ⟨poll.connectionId, accountOf poll.connectionId⟩ poll.entries) db

def pollStep (accountOf : String → String) (db : IntakeDb) (poll : Poll) : Option IntakeDb :=
  some (poll.run sha256 unicode put accountOf db).2

end

end SftpIntake
