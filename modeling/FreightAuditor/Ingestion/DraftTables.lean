import FreightAuditor.AuditLedger.ReplayAuditRun
import FreightAuditor.Library.KeyedTable
import FreightAuditor.Library.LockedRows

/- Invoice drafts, with the audit runs and events that confirming or rejecting one writes.

   The pipeline of a confirmation is the one of `AuditLedger`: it runs on the rows that the
   tenant sees when the statement runs. -/
namespace InvoiceDrafts

open AuditLedger (AuditDb AuditError ConfirmDraftInput DraftRow DraftStatus ManifestRow SourceDocumentRow finalInvoice
  jsonb resolveAndEvaluate persistAuditRun contractVersionIds truthy)
open DecimalJs Evaluator Ingestion Json JsText ReadCommitted

structure InvoiceDraft where
  id : String
  accountId : String
  status : DraftStatus
  sourceDocumentId : String
  extractedPayload : ParsedInvoice
  correctedPayload : Option ParsedInvoice
  resolvedCarrierId : Option String
  confirmedAuditRunId : Option String

def InvoiceDraft.row (d : InvoiceDraft) : DraftRow := ⟨d.id, d.status, d.sourceDocumentId, d.extractedPayload⟩

/-- A run with its invoice and its manifest, and the draft it was made from. -/
structure AuditRun where
  id : String
  accountId : String
  draftId : String
  carrierId : Option String
  invoice : ParsedInvoice
  manifest : Option ManifestRow

structure ExtractionField where
  accountId : String
  sourceDocumentId : String
  fieldPath : String
  aiValue : Option Value
  humanValue : Option Value

/-- An event of the system on a draft. -/
structure DraftEvidence where
  clientId : String
  entityId : String
  event : String
  detail : Option Value

structure AuditEvent extends DraftEvidence where
  id : String

/-- `pinned` holds the rows that no confirmation or rejection changes. -/
structure DraftDb where
  pinned : AuditDb
  drafts : KeyedTable InvoiceDraft InvoiceDraft.id
  auditRuns : List AuditRun
  extractionFields : List ExtractionField
  auditEvents : List AuditEvent

def DraftDb.initial (pinned : AuditDb) (drafts : KeyedTable InvoiceDraft InvoiceDraft.id) : DraftDb :=
  ⟨pinned, drafts, [], [], []⟩

/-- What the tenant sees of the rows that the pipeline reads. -/
def DraftDb.auditDb (db : DraftDb) (clientId : String) : AuditDb :=
  { db.pinned with
    invoices := db.pinned.invoices ++
      db.auditRuns.map fun run => ⟨run.accountId, run.invoice.transactionSet.text, run.invoice.invoiceNumber⟩
    drafts := (db.drafts.rows.filter fun d => d.accountId == clientId).map InvoiceDraft.row }

inductive DraftWrite where
  | insertExtractionFields (rows : List ExtractionField)
  | insertAuditRun (row : AuditRun)
  | confirmDraft (draftId : String) (correctedPayload : Option ParsedInvoice) (auditRunId : String)
  | rejectDraft (draftId : String)
  | insertAuditEvent (row : AuditEvent)

/-- The draft, changed where it is the one the update meets. -/
def InvoiceDraft.update (draftId : String) (f : InvoiceDraft → InvoiceDraft) (d : InvoiceDraft) : InvoiceDraft :=
  if d.id = draftId then f d else d

def InvoiceDraft.confirm (correctedPayload : Option ParsedInvoice) (auditRunId : String) (d : InvoiceDraft) :
    InvoiceDraft :=
  { d with status := .confirmed, correctedPayload, confirmedAuditRunId := some auditRunId }

def InvoiceDraft.reject (d : InvoiceDraft) : InvoiceDraft := { d with status := .rejected }

theorem InvoiceDraft.update_id {draftId : String} {f : InvoiceDraft → InvoiceDraft} (hf : ∀ d, (f d).id = d.id)
    (d : InvoiceDraft) : (d.update draftId f).id = d.id := by
  unfold InvoiceDraft.update
  split
  · exact hf d
  · rfl

def apply (db : DraftDb) : DraftWrite → DraftDb
  | .insertExtractionFields rows => { db with extractionFields := db.extractionFields ++ rows }
  | .insertAuditRun row => { db with auditRuns := db.auditRuns ++ [row] }
  | .confirmDraft draftId correctedPayload auditRunId =>
    { db with
      drafts := db.drafts.update (.update draftId (.confirm correctedPayload auditRunId))
        (InvoiceDraft.update_id fun _ => rfl) }
  | .rejectDraft draftId =>
    { db with
      drafts := db.drafts.update (.update draftId .reject) (InvoiceDraft.update_id fun _ => rfl) }
  | .insertAuditEvent row => { db with auditEvents := db.auditEvents ++ [row] }

/-- The row of a draft, or a unique key. -/
inductive LockKey where
  | draft (id : String)
  | auditRun (id : String)
  | auditEvent (id : String)
  deriving DecidableEq

inductive DraftError where
  | audit (e : AuditError)
  | auditEventConflict
  | uniqueViolation

abbrev Statement (R : Type) := Prog DraftDb DraftWrite LockKey DraftError R

/-! ## Statements -/

/-- The draft that the tenant sees, joined with its document. -/
def loadDraft (db : DraftDb) (clientId draftId : String) : Except DraftError (InvoiceDraft × SourceDocumentRow) := do
  let some draft := (db.drafts.find? draftId).filter fun d => d.accountId == clientId
    | throw (.audit .draftNotFound)
  let some document := db.pinned.sourceDocument? draft.sourceDocumentId | throw (.audit .draftNotFound)
  return (draft, document)

/-- A statement that reads, and fails where what it reads does not do. -/
def select {R : Type} (f : DraftDb → Except DraftError R) : Statement R := do
  let answer ← .query f
  .ofExcept answer

/-- A place in an invoice: a charge by its index, or a header field. -/
inductive FieldPath where
  | charge (index : ℕ)
  | header (key : String)
  deriving DecidableEq

def FieldPath.text : FieldPath → String
  | .charge index => "charges[" ++ toString index ++ "]"
  | .header key => key

def payloadCharges (payload : Value) : List Value :=
  match payload.get? "charges" with
  | some (.arr charges) => charges
  | _ => []

/-- `undefined` where the payload has nothing at the place. -/
def FieldPath.valueIn (payload : Value) : FieldPath → Option Value
  | .charge index => (payloadCharges payload)[index]?
  | .header key => payload.get? key

/-- Nothing where the two texts of `JSON.stringify` are one. -/
def writeDiff (fieldPath : String) (before after : Option Value) : List (String × Option Value × Option Value) :=
  if before.map Json.render = after.map Json.render then [] else [(fieldPath, before, after)]

def HEADER_FIELD_PATHS : List String := ["invoiceNumber", "headerCurrency", "footing"]

/-- The places that are compared. -/
def comparedPaths (original corrected : Value) : List FieldPath :=
  (List.range (max (payloadCharges original).length (payloadCharges corrected).length)).map .charge ++
    HEADER_FIELD_PATHS.map .header

def correctionDiff (original corrected : Value) : List (String × Option Value × Option Value) :=
  (comparedPaths original corrected).flatMap fun path =>
    writeDiff path.text (path.valueIn original) (path.valueIn corrected)

/-- The extraction comes back from a `jsonb` column; the correction has the order of its schema. -/
def correctionRows (clientId sourceDocumentId : String) (original corrected : ParsedInvoice) : List ExtractionField :=
  (correctionDiff (jsonb original.toJson) corrected.toJson).map fun (fieldPath, aiValue, humanValue) =>
    ⟨clientId, sourceDocumentId, fieldPath, aiValue, humanValue⟩

def recordCorrectionDiff (clientId sourceDocumentId : String) (original corrected : ParsedInvoice) : Statement PUnit :=
  .exec (fun _ => []) fun _ =>
    .ok (⟨⟩, [.insertExtractionFields (correctionRows clientId sourceDocumentId original corrected)])

/-- `IS NOT DISTINCT FROM` on every column, `detail` as `jsonb`. -/
def sameEvidence (a b : DraftEvidence) : Bool :=
  a.clientId == b.clientId && a.entityId == b.entityId && a.event == b.event &&
    a.detail.map canonicalText == b.detail.map canonicalText

/-- Insert the event, or find it there with the same evidence. -/
def writeAuditEvent (id : String) (value : DraftEvidence) : Statement PUnit :=
  .exec (fun _ => [.auditEvent id]) fun db =>
    match db.auditEvents.find? (·.id == id) with
    | none => .ok (⟨⟩, [.insertAuditEvent { value with id := id }])
    | some row => if sameEvidence row.toDraftEvidence value then .ok (⟨⟩, []) else .error .auditEventConflict

section

variable (sha256 : String → String)

def deterministicAuditEventId (parts : List String) : String := sha256 ("\x00".intercalate parts)

/-- The event `invoice_draft.confirmed`. -/
def confirmedEvidence (draft : InvoiceDraft) (input : ConfirmDraftInput) (auditRunId : String) : DraftEvidence where
  clientId := input.clientId
  entityId := draft.id
  event := "invoice_draft.confirmed"
  detail := some (.obj [("auditRunId", .str auditRunId),
    ("carrierId", ((input.carrierId <|> draft.resolvedCarrierId).map Value.str).getD .null),
    ("corrected", .bool input.correctedPayload.isSome)])

/-- The event `invoice_draft.rejected`. -/
def rejectedEvidence (draft : InvoiceDraft) : DraftEvidence :=
  ⟨draft.accountId, draft.id, "invoice_draft.rejected", none⟩

def confirmable (draft : InvoiceDraft) (input : ConfirmDraftInput) : Except DraftError Unit := do
  if draft.status = .confirmed then throw (.audit .draftAlreadyConfirmed)
  if draft.status = .rejected then throw (.audit .draftAlreadyFinalized)
  if draft.status = .needs_carrier_review ∧ truthy input.carrierId = none then throw (.audit .carrierRequired)

def rejectable (draft : InvoiceDraft) : Except DraftError Unit := do
  if draft.status = .confirmed ∨ draft.status = .rejected then throw (.audit .draftAlreadyFinalized)

variable (D : Type) [Decimal D] (unicode : Unicode) (uuidIn : String → Option String)

/-- The run of a draft, as `persistAuditRun` stores it under a new id. -/
def insertAuditRun (auditRunId : String) (draft : InvoiceDraft) (document : SourceDocumentRow)
    (input : ConfirmDraftInput) (invoice : ParsedInvoice) (result : AuditResult) (resolvedInputs : ContractFacts) :
    Statement PUnit :=
  .exec (fun _ => [.auditRun auditRunId]) fun db => do
    if db.auditRuns.any (·.id == auditRunId) then throw .uniqueViolation
    let stored ← (persistAuditRun unicode sha256 uuidIn (db.auditDb input.clientId)
      { clientId := input.clientId, invoice, result, rubricSnapshotId := none
        sourceDocuments := [⟨document.id, document.sha256⟩]
        contractVersionIds := contractVersionIds input.contractVersionId, resolvedInputs } auditRunId).mapError .audit
    return (⟨⟩, [.insertAuditRun
      { id := auditRunId, accountId := input.clientId, draftId := draft.id
        carrierId := input.carrierId <|> draft.resolvedCarrierId, invoice
        manifest := stored.manifest? auditRunId }])

/-- `UPDATE invoice_draft SET ... WHERE id = ...`, which waits for the row. -/
def updateDraft (draftId : String) (write : DraftWrite) : Statement PUnit :=
  .exec (fun _ => [.draft draftId]) fun _ => .ok (⟨⟩, [write])

def confirmInvoiceDraft (auditRunId : String) (input : ConfirmDraftInput) : Statement PUnit := do
  let (draft, document) ← select fun db => loadDraft db input.clientId input.draftId
  .ofExcept (confirmable draft input)
  let invoice := finalInvoice draft.row input.correctedPayload
  input.correctedPayload.toList.forM
    (recordCorrectionDiff input.clientId draft.sourceDocumentId draft.extractedPayload)
  let (result, resolvedInputs) ← select fun db =>
    (resolveAndEvaluate D unicode sha256 uuidIn (db.auditDb input.clientId) input.clientId invoice
      input.contractVersionId).mapError .audit
  insertAuditRun sha256 unicode uuidIn auditRunId draft document input invoice result resolvedInputs
  updateDraft draft.id (.confirmDraft draft.id input.correctedPayload auditRunId)
  writeAuditEvent (deterministicAuditEventId sha256 [input.clientId, draft.id, "invoice_draft.confirmed"])
    (confirmedEvidence draft input auditRunId)

def rejectInvoiceDraft (clientId draftId : String) : Statement PUnit := do
  let (draft, _) ← select fun db => loadDraft db clientId draftId
  .ofExcept (rejectable draft)
  updateDraft draftId (.rejectDraft draftId)
  writeAuditEvent (deterministicAuditEventId sha256 [draft.accountId, draft.id, "invoice_draft.rejected"])
    (rejectedEvidence draft)

/-- What an analyst decides on a draft, for the one account of the request. -/
inductive DraftCall where
  | confirm (input : ConfirmDraftInput)
  | reject (clientId draftId : String)

def DraftCall.clientId : DraftCall → String
  | .confirm input => input.clientId
  | .reject clientId _ => clientId

def DraftCall.draftId : DraftCall → String
  | .confirm input => input.draftId
  | .reject _ draftId => draftId

/-- `newId` is the id the database gives the run of a transaction. -/
def draftsSystem (newId : ℕ → String) : System DraftDb DraftWrite LockKey DraftError PUnit DraftCall where
  apply := apply
  body := fun call tx _ =>
    match call with
    | .confirm input => confirmInvoiceDraft sha256 D unicode uuidIn (newId tx) input
    | .reject clientId draftId => rejectInvoiceDraft sha256 clientId draftId

end

end InvoiceDrafts
