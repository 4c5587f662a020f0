import FreightAuditor.AuditLedger.ReplayManifest
import FreightAuditor.AuditLedger.RunJson
import FreightAuditor.Evaluator.GateSoundness
import FreightAuditor.Ingestion.DuplicateInvoice

/- Replay of a committed audit run.

   A run picks its rubric by whether the caller names a contract version; the manifest records the
   versions that are found. A replay picks its rubric by what is recorded, and evaluates the invoice
   and the resolved inputs as they were stored. So it reproduces the run exactly if the contract
   version that was named was found (`reproduces_iff`). -/
namespace AuditLedger

open DecimalJs Evaluator Ingestion Json JsText RubricResolver

/-! ## The rows -/

structure SourceDocumentRow where
  id : String
  accountId : String
  sha256 : String

structure ContractVersionRow where
  id : String
  sourceDocumentId : Option String

structure ContractRateRow where
  contractVersionId : String
  category : String
  rate : String
  currency : String
  clauseId : Option String

/-- A version with the slug of its rule. -/
structure RuleVersionRow where
  id : String
  slug : String
  recordedAt : ℕ
  astHash : String

structure RubricSnapshotRow where
  id : String
  contentHash : String
  resolverVersion : String

structure ShipmentRow where
  accountId : String
  reference : String

structure ManifestRow where
  auditRunId : String
  contentHash : String
  manifest : Value

inductive DraftStatus where
  | extracted | needs_carrier_review | confirmed | rejected
  deriving DecidableEq

structure DraftRow where
  id : String
  status : DraftStatus
  sourceDocumentId : String
  extractedPayload : ParsedInvoice

/-- The rows a tenant sees, with their primary keys. -/
structure AuditDb where
  invoices : List InvoiceRow
  shipments : List ShipmentRow
  contractRates : List ContractRateRow
  contractVersions : List ContractVersionRow
  sourceDocuments : List SourceDocumentRow
  criterionKeys : List String
  ruleVersions : List RuleVersionRow
  rubricSnapshots : List RubricSnapshotRow
  drafts : List DraftRow
  manifests : List ManifestRow
  contractVersionKey : (contractVersions.map ContractVersionRow.id).Nodup
  sourceDocumentKey : (sourceDocuments.map SourceDocumentRow.id).Nodup
  ruleVersionKey : (ruleVersions.map RuleVersionRow.id).Nodup
  manifestKey : (manifests.map ManifestRow.auditRunId).Nodup

inductive AuditError where
  | invalidUuid (text : String)
  | findingReference (criterionKey : String)
  | manifestInvalid
  | uniqueViolation
  | draftNotFound
  | draftAlreadyConfirmed
  | draftAlreadyFinalized
  | carrierRequired
  | decimal (e : DecimalError)

namespace AuditDb

variable (db : AuditDb)

def sourceDocument? (id : String) : Option SourceDocumentRow := db.sourceDocuments.find? fun row => row.id == id
def ruleVersion? (id : String) : Option RuleVersionRow := db.ruleVersions.find? fun row => row.id == id
def contractVersion? (id : String) : Option ContractVersionRow := db.contractVersions.find? fun row => row.id == id
def rubricSnapshot? (id : String) : Option RubricSnapshotRow := db.rubricSnapshots.find? fun row => row.id == id
def draft? (id : String) : Option DraftRow := db.drafts.find? fun row => row.id == id
def manifest? (auditRunId : String) : Option ManifestRow := db.manifests.find? fun row => row.auditRunId == auditRunId

/-- The hash of the document a contract version was taken from. -/
def contractHash (row : ContractVersionRow) : Option String :=
  (row.sourceDocumentId.bind db.sourceDocument?).map SourceDocumentRow.sha256

def insertSourceDocument (row : SourceDocumentRow) : Except AuditError AuditDb :=
  if h : row.id ∈ db.sourceDocuments.map SourceDocumentRow.id then throw .uniqueViolation
  else return { db with
    sourceDocuments := db.sourceDocuments ++ [row]
    sourceDocumentKey := by
      rw [List.map_append, List.map_singleton, List.nodup_append_comm]
      exact List.nodup_cons.mpr ⟨h, db.sourceDocumentKey⟩ }

def insertManifest (row : ManifestRow) : Except AuditError AuditDb :=
  if h : row.auditRunId ∈ db.manifests.map ManifestRow.auditRunId then throw .uniqueViolation
  else return { db with
    manifests := db.manifests ++ [row]
    manifestKey := by
      rw [List.map_append, List.map_singleton, List.nodup_append_comm]
      exact List.nodup_cons.mpr ⟨h, db.manifestKey⟩ }

end AuditDb

/-! ## Running an audit -/

/-- `JSON` truth of a text that may be missing. -/
def truthy (text : Option String) : Option String := text.filter (· != "")

section

variable (D : Type) [Decimal D] (unicode : Unicode) (sha256 : String → String)
  /- The value of a `uuid` parameter; `none` where the database rejects its text. -/
  (uuidIn : String → Option String)

def uuidParam (text : String) : Except AuditError String :=
  match uuidIn text with
  | some id => return id
  | none => throw (.invalidUuid text)

/-- The answer of `detectDuplicateInvoice` on these invoices. -/
def duplicateInvoice (db : AuditDb) (clientId : String) (invoice : ParsedInvoice) : Option Bool :=
  (normalized invoice.invoiceNumber).map fun number =>
    db.invoices.any (numberMatches unicode clientId invoice.transactionSet.text number)

def resolveShipmentReferenceMatch (db : AuditDb) (clientId : String) (references : Option (List String)) :
    Option Bool :=
  let normalized := ((references.getD []).map fun value => unicode.toLowerCase (trim value)).filter (· != "")
  if normalized.isEmpty then none
  else some (db.shipments.any fun row => row.accountId == clientId &&
    normalized.contains (unicode.lower (btrim row.reference)))

def lookupContractRate (db : AuditDb) (contractVersionId category : String) :
    Except AuditError (Option ContractRate) := do
  let id ← uuidParam uuidIn contractVersionId
  return (db.contractRates.find? fun row => row.contractVersionId == id && row.category == category).map
    fun row => ⟨row.rate, row.currency, row.clauseId⟩

/-- The CONTRACT rubric where a contract version is named. -/
def rubricOf (contractVersionId : Option String) : ComposedRubric :=
  if (truthy contractVersionId).isSome then CONTRACT_RUBRIC else STANDARD_RUBRIC

def resolveAndEvaluate (db : AuditDb) (clientId : String) (invoice : ParsedInvoice)
    (contractVersionId : Option String) : Except AuditError (AuditResult × ContractFacts) := do
  let linehaulRate ← (truthy contractVersionId).mapM fun id => lookupContractRate uuidIn db id "LINEHAUL"
  let resolvedInputs : ContractFacts :=
    { linehaulRate
      duplicateInvoice := duplicateInvoice unicode db clientId invoice
      shipmentReferenceMatch := resolveShipmentReferenceMatch unicode db clientId invoice.shipmentReferences
      externalResolutions := [] }
  match evaluateInvoice D unicode sha256 invoice (rubricOf contractVersionId) (some resolvedInputs) with
  | .ok result => return (result, resolvedInputs)
  | .error e => throw (.decimal e)

structure PersistInput where
  clientId : String
  invoice : ParsedInvoice
  result : AuditResult
  rubricSnapshotId : Option String
  sourceDocuments : List SourceDocumentPin
  contractVersionIds : List String
  resolvedInputs : ContractFacts

/-- The latest rule version of the criterion's rule. -/
def resolveCriterionIds (db : AuditDb) (criterionKey : String) : Option String :=
  if criterionKey ∈ db.criterionKeys then
    let ruleSlug := String.ofList ((unicode.toLowerCase criterionKey).toList.map fun c => if c = '.' then '-' else c)
    (((db.ruleVersions.filter fun row => row.slug == ruleSlug).insertionSort
      fun a b => b.recordedAt ≤ a.recordedAt).head?).map RuleVersionRow.id
  else none

def resolveRuleVersion (db : AuditDb) (criterionKey : String) : Except AuditError String :=
  match resolveCriterionIds unicode db criterionKey with
  | some id => return id
  | none => throw (.findingReference criterionKey)

def rulePins (db : AuditDb) (ids : List String) : List Pin :=
  ((db.ruleVersions.filter fun row => ids.contains row.id).insertionSort fun a b => a.id ≤ b.id).map
    fun row => ⟨row.id, some row.astHash⟩

/-- An empty hash is left out. -/
def contractPins (db : AuditDb) (ids : List String) : List Pin :=
  ((db.contractVersions.filter fun row => ids.contains row.id).insertionSort fun a b => a.id ≤ b.id).map
    fun row => ⟨row.id, truthy (db.contractHash row)⟩

def manifestOf (db : AuditDb) (input : PersistInput) (auditRunId : String) (ruleVersionIds contractIds : List String) :
    AuditReplayManifest where
  auditRunId := auditRunId
  clientId := input.clientId
  engineSpecVersion := input.result.pins.engineSpecVersion
  parser := ⟨input.invoice.transactionSet.text, input.invoice.parserVersion⟩
  sourceDocuments := input.sourceDocuments
  rubric :=
    let rubricPin := input.rubricSnapshotId.bind db.rubricSnapshot?
    ⟨input.rubricSnapshotId, rubricPin.map RubricSnapshotRow.contentHash,
      rubricPin.map RubricSnapshotRow.resolverVersion⟩
  ruleVersions := rulePins db ruleVersionIds
  contractVersions := contractPins db contractIds
  externalValues := []
  crosswalkRows := []
  ai := []
  resolvedInputs := input.resolvedInputs.toJson
  invoice := input.invoice.toJson
  result := input.result.toJson

/-- `auditRunId` is the id the database gives the new run. -/
def persistAuditRun (db : AuditDb) (input : PersistInput) (auditRunId : String) : Except AuditError AuditDb := do
  let db := { db with
    invoices := db.invoices ++
      [⟨input.clientId, input.invoice.transactionSet.text, input.invoice.invoiceNumber⟩] }
  let criterionKeys := (input.result.gateFailures.map GateFailure.criterionKey ++
    input.result.findings.map ChargeFinding.criterionKey).dedup
  let ruleVersionIds ← criterionKeys.mapM (resolveRuleVersion unicode db)
  let contractIds ← input.contractVersionIds.mapM (uuidParam uuidIn)
  let manifest := manifestOf db input auditRunId ruleVersionIds contractIds
  match replayManifestHash sha256 manifest with
  | none => throw .manifestInvalid
  | some manifestHash => db.insertManifest ⟨auditRunId, manifestHash, jsonb manifest.toJson⟩

/-- The caller's contract version, as `persistAuditRun` takes it. -/
def contractVersionIds (contractVersionId : Option String) : List String := (truthy contractVersionId).toList

/-- From the parsed invoice on; `documentSha256` is what the object store answers for the raw bytes. -/
structure IngestInvoiceInput where
  clientId : String
  documentSha256 : String
  invoice : ParsedInvoice
  contractVersionId : Option String

/-- The document with these bytes, inserted under `newId` unless the tenant has it. -/
def storeSourceDocument (db : AuditDb) (clientId documentSha256 newId : String) :
    Except AuditError (SourceDocumentPin × AuditDb) :=
  match db.sourceDocuments.find? fun row => row.accountId == clientId && row.sha256 == documentSha256 with
  | some row => return (⟨row.id, documentSha256⟩, db)
  | none => do
    let db ← db.insertSourceDocument ⟨newId, clientId, documentSha256⟩
    return (⟨newId, documentSha256⟩, db)

def ingestInvoice (db : AuditDb) (input : IngestInvoiceInput) (newDocumentId auditRunId : String) :
    Except AuditError AuditDb := do
  let (sourceDocument, db) ← storeSourceDocument db input.clientId input.documentSha256 newDocumentId
  let (result, resolvedInputs) ←
    resolveAndEvaluate D unicode sha256 uuidIn db input.clientId input.invoice input.contractVersionId
  persistAuditRun unicode sha256 uuidIn db
    { clientId := input.clientId, invoice := input.invoice, result, rubricSnapshotId := none
      sourceDocuments := [sourceDocument], contractVersionIds := contractVersionIds input.contractVersionId
      resolvedInputs } auditRunId

structure ConfirmDraftInput where
  clientId : String
  draftId : String
  correctedPayload : Option ParsedInvoice
  carrierId : Option String
  contractVersionId : Option String

def finalInvoice (draft : DraftRow) (correctedPayload : Option ParsedInvoice) : ParsedInvoice :=
  match correctedPayload with
  | some corrected => { corrected with
      transactionSet := draft.extractedPayload.transactionSet, parserVersion := draft.extractedPayload.parserVersion }
  | none => draft.extractedPayload

def confirmInvoiceDraft (db : AuditDb) (input : ConfirmDraftInput) (auditRunId : String) :
    Except AuditError AuditDb := do
  let some draft := db.draft? input.draftId | throw .draftNotFound
  -- the draft is joined with its document
  let some document := db.sourceDocument? draft.sourceDocumentId | throw .draftNotFound
  if draft.status = .confirmed then throw .draftAlreadyConfirmed
  if draft.status = .rejected then throw .draftAlreadyFinalized
  if draft.status = .needs_carrier_review ∧ truthy input.carrierId = none then throw .carrierRequired
  let invoice := finalInvoice draft input.correctedPayload
  let (result, resolvedInputs) ←
    resolveAndEvaluate D unicode sha256 uuidIn db input.clientId invoice input.contractVersionId
  let db ← persistAuditRun unicode sha256 uuidIn db
    { clientId := input.clientId, invoice, result, rubricSnapshotId := none
      sourceDocuments := [⟨document.id, document.sha256⟩]
      contractVersionIds := contractVersionIds input.contractVersionId, resolvedInputs } auditRunId
  return { db with
    drafts := db.drafts.map fun row => if row.id = draft.id then { row with status := .confirmed } else row }

/-- The two ways to an audit run. -/
inductive AuditCall where
  | ingest (input : IngestInvoiceInput) (newDocumentId : String)
  | confirm (input : ConfirmDraftInput)

def AuditCall.contractVersionId : AuditCall → Option String
  | .ingest input _ => input.contractVersionId
  | .confirm input => input.contractVersionId

def AuditCall.run (call : AuditCall) (db : AuditDb) (auditRunId : String) : Except AuditError AuditDb :=
  match call with
  | .ingest input newDocumentId => ingestInvoice D unicode sha256 uuidIn db input newDocumentId auditRunId
  | .confirm input => confirmInvoiceDraft D unicode sha256 uuidIn db input auditRunId

/-! ## Replaying it -/

inductive ReplayError where
  | ReplayNotFoundError
  | ReplayIntegrityError (message : String)
  | ReplayUnavailableError (message : String)
  /-- The evaluator throws. -/
  | decimal (e : DecimalError)
  /-- The stored values do not have the shape that a run stores. -/
  | unreadable
  deriving DecidableEq

def verifyPins (db : AuditDb) (m : AuditReplayManifest) : Except ReplayError Unit :=
  if !m.sourceDocuments.all fun p => (db.sourceDocument? p.id).any (·.sha256 == p.sha256) then
    throw (.ReplayIntegrityError "source document pin mismatch")
  else if !m.ruleVersions.all fun p => (db.ruleVersion? p.id).any fun row =>
      (truthy p.contentHash).all (row.astHash == ·) then
    throw (.ReplayIntegrityError "rule version pin mismatch")
  else if !m.contractVersions.all fun p => (truthy p.contentHash).all fun hash =>
      (db.contractVersion? p.id).any fun row => db.contractHash row == some hash then
    throw (.ReplayIntegrityError "contract version pin mismatch")
  else return ()

/-- The CONTRACT rubric where a contract version is recorded. -/
def replayRubric (m : AuditReplayManifest) : ComposedRubric :=
  if m.contractVersions.isEmpty then STANDARD_RUBRIC else CONTRACT_RUBRIC

def replayEvaluate (m : AuditReplayManifest) : Except ReplayError AuditResult :=
  match ParsedInvoice.ofJson m.invoice, ContractFacts.ofJson m.resolvedInputs with
  | some invoice, some resolvedInputs =>
    match evaluateInvoice D unicode sha256 invoice (replayRubric m) (some resolvedInputs) with
    | .ok result => return result
    | .error e => throw (.decimal e)
  | _, _ => throw .unreadable

def replayAuditRun (db : AuditDb) (auditRunId : String) : Except ReplayError AuditResult := do
  let some row := db.manifest? auditRunId | throw .ReplayNotFoundError
  let some m := AuditReplayManifestSchema row.manifest
    | throw (.ReplayIntegrityError "stored replay manifest is invalid")
  if m.auditRunId ≠ auditRunId ∨ replayManifestHash sha256 m ≠ some row.contentHash then
    throw (.ReplayIntegrityError "replay manifest hash mismatch")
  verifyPins db m
  if m.engineSpecVersion ≠ ENGINE_SPEC_VERSION then
    throw (.ReplayUnavailableError "pinned engine version is not installed")
  if m.rubric.snapshotId ≠ none then
    throw (.ReplayUnavailableError "custom rubric snapshot replay is not installed")
  let result ← replayEvaluate D unicode sha256 m
  if canonicalText result.toJson ≠ canonicalText m.result then
    throw (.ReplayIntegrityError "replay result is not byte-identical to the pinned result")
  return result

end

/-! ## What a run commits -/

/-- The manifest that is stored for a run. -/
def AuditDb.stored (db : AuditDb) (auditRunId : String) : Option AuditReplayManifest :=
  (db.manifest? auditRunId).bind fun row => AuditReplayManifestSchema row.manifest

/-- A committed run: what it evaluated, and the manifest it left. -/
structure CommittedRun (D : Type) [Decimal D] (unicode : Unicode) (sha256 : String → String)
    (uuidIn : String → Option String) (db : AuditDb) (auditRunId : String) (contractVersionId : Option String)
    (input : PersistInput) (ruleVersionIds contractIds : List String) : Prop where
  evaluated : evaluateInvoice D unicode sha256 input.invoice (rubricOf contractVersionId)
    (some input.resolvedInputs) = .ok input.result
  noExternal : input.resolvedInputs.externalResolutions = []
  noSnapshot : input.rubricSnapshotId = none
  documents : ∀ p ∈ input.sourceDocuments, ∃ row, db.sourceDocument? p.id = some row ∧ row.sha256 = p.sha256
  contracts : (contractVersionIds contractVersionId).mapM (uuidParam uuidIn) = .ok contractIds
  wellFormed : (manifestOf db input auditRunId ruleVersionIds contractIds).wellFormed = true
  manifest : db.manifest? auditRunId = some ⟨auditRunId,
    sha256 (String.ofList (canonicalText (manifestOf db input auditRunId ruleVersionIds contractIds).toJson)),
    jsonb (manifestOf db input auditRunId ruleVersionIds contractIds).toJson⟩

/-- The pinned tables are the same. -/
structure SamePinned (db db' : AuditDb) : Prop where
  contractVersions : db'.contractVersions = db.contractVersions
  sourceDocuments : db'.sourceDocuments = db.sourceDocuments
  ruleVersions : db'.ruleVersions = db.ruleVersions
  rubricSnapshots : db'.rubricSnapshots = db.rubricSnapshots

theorem SamePinned.manifestOf {db db' : AuditDb} (h : SamePinned db db') (input : PersistInput) (auditRunId : String)
    (ruleVersionIds contractIds : List String) :
    manifestOf db' input auditRunId ruleVersionIds contractIds =
      AuditLedger.manifestOf db input auditRunId ruleVersionIds contractIds := by
  have hdocument (id : String) : db'.sourceDocument? id = db.sourceDocument? id := by
    rw [AuditDb.sourceDocument?, h.sourceDocuments, AuditDb.sourceDocument?]
  have hsnapshot (id : String) : db'.rubricSnapshot? id = db.rubricSnapshot? id := by
    rw [AuditDb.rubricSnapshot?, h.rubricSnapshots, AuditDb.rubricSnapshot?]
  simp only [AuditLedger.manifestOf, rulePins, contractPins, AuditDb.contractHash, funext hdocument, funext hsnapshot,
    h.contractVersions, h.ruleVersions]

theorem find?_of_key {α : Type} {l : List α} (id : α → String) (hkey : (l.map id).Nodup) {a : α} (ha : a ∈ l) :
    l.find? (fun b => id b == id a) = some a := by
  induction l with
  | nil => cases ha
  | cons b l ih =>
    obtain ⟨hnot, hrest⟩ := List.nodup_cons.mp hkey
    rcases List.mem_cons.mp ha with rfl | ha
    · exact List.find?_cons_of_pos (p := fun b => id b == id a) (beq_self_eq_true _)
    · have hne : (id b == id a) ≠ true := fun h => hnot (beq_iff_eq.mp h ▸ List.mem_map_of_mem ha)
      exact (List.find?_cons_of_neg (p := fun b => id b == id a) hne).trans (ih hrest ha)

section

variable {D : Type} [Decimal D] {unicode : Unicode} {sha256 : String → String} {uuidIn : String → Option String}

theorem insertManifest_ok {db db' : AuditDb} {row : ManifestRow} (h : db.insertManifest row = .ok db') :
    SamePinned db db' ∧ db'.manifest? row.auditRunId = some row := by
  unfold AuditDb.insertManifest at h
  split at h
  · cases h
  · obtain rfl := ExceptOk.pure_eq_ok.mp h
    refine ⟨⟨rfl, rfl, rfl, rfl⟩, ?_⟩
    exact find?_of_key ManifestRow.auditRunId (AuditDb.manifestKey _)
      (List.mem_append_right _ (List.mem_singleton_self row))

theorem insertSourceDocument_ok {db db' : AuditDb} {row : SourceDocumentRow}
    (h : db.insertSourceDocument row = .ok db') :
    db'.contractVersions = db.contractVersions ∧ db'.sourceDocument? row.id = some row := by
  unfold AuditDb.insertSourceDocument at h
  split at h
  · cases h
  · obtain rfl := ExceptOk.pure_eq_ok.mp h
    refine ⟨rfl, ?_⟩
    exact find?_of_key SourceDocumentRow.id (AuditDb.sourceDocumentKey _)
      (List.mem_append_right _ (List.mem_singleton_self row))

theorem persistAuditRun_ok {db db' : AuditDb} {input : PersistInput} {auditRunId : String}
    (h : persistAuditRun unicode sha256 uuidIn db input auditRunId = .ok db') :
    ∃ ruleVersionIds contractIds, SamePinned db db' ∧
      input.contractVersionIds.mapM (uuidParam uuidIn) = .ok contractIds ∧
      (manifestOf db' input auditRunId ruleVersionIds contractIds).wellFormed = true ∧
      db'.manifest? auditRunId = some ⟨auditRunId,
        sha256 (String.ofList (canonicalText (manifestOf db' input auditRunId ruleVersionIds contractIds).toJson)),
        jsonb (manifestOf db' input auditRunId ruleVersionIds contractIds).toJson⟩ := by
  simp only [persistAuditRun, ExceptOk.bind_eq_ok] at h
  obtain ⟨ruleVersionIds, -, contractIds, hcontract, h⟩ := h
  split at h
  · cases h
  · rename_i hash hhash
    obtain ⟨hsame, hmanifest⟩ := insertManifest_ok h
    have hpinned : SamePinned db db' :=
      ⟨hsame.contractVersions, hsame.sourceDocuments, hsame.ruleVersions, hsame.rubricSnapshots⟩
    rw [← hsame.manifestOf] at hhash hmanifest
    rw [replayManifestHash_eq, checked] at hhash
    split at hhash
    · rename_i hwell
      cases hhash
      exact ⟨ruleVersionIds, contractIds, hpinned, hcontract, hwell, hmanifest⟩
    · cases hhash

theorem resolveAndEvaluate_ok {db : AuditDb} {clientId : String} {invoice : ParsedInvoice}
    {contractVersionId : Option String} {result : AuditResult} {resolvedInputs : ContractFacts}
    (h : resolveAndEvaluate D unicode sha256 uuidIn db clientId invoice contractVersionId =
      .ok (result, resolvedInputs)) :
    evaluateInvoice D unicode sha256 invoice (rubricOf contractVersionId) (some resolvedInputs) = .ok result ∧
      resolvedInputs.externalResolutions = [] := by
  simp only [resolveAndEvaluate, ExceptOk.bind_eq_ok] at h
  obtain ⟨rate, -, h⟩ := h
  split at h
  · rename_i hresult
    obtain ⟨rfl, rfl⟩ := Prod.mk.inj (ExceptOk.pure_eq_ok.mp h)
    exact ⟨hresult, rfl⟩
  · cases h

theorem sourceDocument?_id {db : AuditDb} {id : String} {row : SourceDocumentRow} (h : db.sourceDocument? id = some row) :
    row.id = id := by
  have hmatch := List.find?_some h
  exact beq_iff_eq.mp hmatch

theorem storeSourceDocument_ok {db db' : AuditDb} {clientId documentSha256 newId : String} {p : SourceDocumentPin}
    (h : storeSourceDocument db clientId documentSha256 newId = .ok (p, db')) :
    db'.contractVersions = db.contractVersions ∧ ∃ row, db'.sourceDocument? p.id = some row ∧ row.sha256 = p.sha256 := by
  unfold storeSourceDocument at h
  split at h
  · rename_i row hfind
    obtain ⟨rfl, rfl⟩ := Prod.mk.inj (ExceptOk.pure_eq_ok.mp h)
    have hmatch := List.find?_some hfind
    rw [Bool.and_eq_true, beq_iff_eq, beq_iff_eq] at hmatch
    exact ⟨rfl, row, find?_of_key SourceDocumentRow.id db.sourceDocumentKey (List.mem_of_find?_eq_some hfind),
      hmatch.2⟩
  · simp only [ExceptOk.bind_eq_ok, ExceptOk.pure_eq_ok, Prod.mk.injEq] at h
    obtain ⟨mid, hinsert, rfl, rfl⟩ := h
    obtain ⟨hcontracts, hrow⟩ := insertSourceDocument_ok hinsert
    exact ⟨hcontracts, _, hrow, rfl⟩

/-- What a call that commits has evaluated and stored. -/
theorem AuditCall.run_ok {call : AuditCall} {db db' : AuditDb} {auditRunId : String}
    (h : call.run D unicode sha256 uuidIn db auditRunId = .ok db') :
    db'.contractVersions = db.contractVersions ∧ ∃ input ruleVersionIds contractIds,
      CommittedRun D unicode sha256 uuidIn db' auditRunId call.contractVersionId input ruleVersionIds contractIds := by
  cases call with
  | ingest input newDocumentId =>
    simp only [run, ingestInvoice, ExceptOk.bind_eq_ok] at h
    obtain ⟨⟨p, mid⟩, hstore, ⟨result, resolvedInputs⟩, heval, h⟩ := h
    obtain ⟨hcontracts, row, hrow, hsha⟩ := storeSourceDocument_ok hstore
    obtain ⟨hresult, hexternal⟩ := resolveAndEvaluate_ok heval
    obtain ⟨ruleVersionIds, contractIds, hsame, hids, hwell, hmanifest⟩ := persistAuditRun_ok h
    refine ⟨hsame.contractVersions.trans hcontracts, _, ruleVersionIds, contractIds, hresult, hexternal, rfl,
      fun q hq => ?_, hids, hwell, hmanifest⟩
    obtain rfl := List.mem_singleton.mp hq
    exact ⟨row, by rw [AuditDb.sourceDocument?, hsame.sourceDocuments, ← AuditDb.sourceDocument?, hrow], hsha⟩
  | confirm input =>
    simp only [run, confirmInvoiceDraft] at h
    split at h
    · rename_i draft hdraft
      split at h
      · rename_i document hdocument
        simp only [ExceptOk.throw_bind, ExceptOk.ite_throw_eq_ok, ExceptOk.bind_eq_ok, ExceptOk.pure_eq_ok] at h
        obtain ⟨-, -, -, ⟨result, resolvedInputs⟩, heval, mid, hpersist, rfl⟩ := h
        obtain ⟨hresult, hexternal⟩ := resolveAndEvaluate_ok heval
        obtain ⟨ruleVersionIds, contractIds, hsame, hids, hwell, hmanifest⟩ := persistAuditRun_ok hpersist
        refine ⟨hsame.contractVersions, _, ruleVersionIds, contractIds, hresult, hexternal, rfl, fun p hp => ?_, hids,
          hwell, hmanifest⟩
        obtain rfl := List.mem_singleton.mp hp
        have hid := sourceDocument?_id hdocument
        refine ⟨document, ?_, rfl⟩
        show mid.sourceDocument? document.id = some document
        rw [AuditDb.sourceDocument?, hsame.sourceDocuments, hid]
        exact hdocument
      · cases h
    · cases h

/-! ## What the replay verifies -/

/-- The stored manifest and the rows it pins are as they were. -/
structure PinsUnchanged (db db' : AuditDb) (auditRunId : String) : Prop where
  manifest : db'.manifest? auditRunId = db.manifest? auditRunId
  sourceDocuments : ∀ m ∈ db.stored auditRunId, ∀ p ∈ m.sourceDocuments,
    db'.sourceDocument? p.id = db.sourceDocument? p.id
  ruleVersions : ∀ m ∈ db.stored auditRunId, ∀ p ∈ m.ruleVersions, db'.ruleVersion? p.id = db.ruleVersion? p.id
  contractVersions : ∀ m ∈ db.stored auditRunId, ∀ p ∈ m.contractVersions,
    (db'.contractVersion? p.id).map db'.contractHash = (db.contractVersion? p.id).map db.contractHash

variable {db db' : AuditDb} {auditRunId : String} {contractVersionId : Option String} {input : PersistInput}
  {ruleVersionIds contractIds : List String}

theorem CommittedRun.stored
    (h : CommittedRun D unicode sha256 uuidIn db auditRunId contractVersionId input ruleVersionIds contractIds) :
    db.stored auditRunId = some ((manifestOf db input auditRunId ruleVersionIds contractIds).mapJson jsonb) := by
  rw [AuditDb.stored, h.manifest, Option.bind_some, AuditReplayManifestSchema_toJson fieldwise_jsonb, h.wellFormed]
  rfl

theorem rulePins_verified {p : Pin} (hp : p ∈ rulePins db ruleVersionIds) :
    ∃ row, db.ruleVersion? p.id = some row ∧ p.contentHash = some row.astHash := by
  obtain ⟨row, hrow, rfl⟩ := List.mem_map.mp hp
  rw [List.mem_insertionSort] at hrow
  exact ⟨row, find?_of_key RuleVersionRow.id db.ruleVersionKey (List.mem_filter.mp hrow).1, rfl⟩

theorem contractPins_verified {p : Pin} (hp : p ∈ contractPins db contractIds) :
    ∃ row, db.contractVersion? p.id = some row ∧ p.contentHash = truthy (db.contractHash row) := by
  obtain ⟨row, hrow, rfl⟩ := List.mem_map.mp hp
  rw [List.mem_insertionSort] at hrow
  exact ⟨row, find?_of_key ContractVersionRow.id db.contractVersionKey (List.mem_filter.mp hrow).1, rfl⟩

theorem mem_truthy {text : Option String} {t : String} (h : t ∈ truthy text) : text = some t :=
  (Option.filter_eq_some_iff.mp h).1

/-- As long as the pinned rows are unchanged, the pins are verified. -/
theorem CommittedRun.verifyPins
    (h : CommittedRun D unicode sha256 uuidIn db auditRunId contractVersionId input ruleVersionIds contractIds)
    (hpins : PinsUnchanged db db' auditRunId) :
    AuditLedger.verifyPins db' ((manifestOf db input auditRunId ruleVersionIds contractIds).mapJson jsonb) =
      .ok () := by
  have hdocuments : ∀ p ∈ input.sourceDocuments, (db'.sourceDocument? p.id).any (·.sha256 == p.sha256) = true := by
    intro p hp
    obtain ⟨row, hrow, hsha⟩ := h.documents p hp
    rw [hpins.sourceDocuments _ h.stored p hp, hrow, Option.any_some, hsha, beq_self_eq_true]
  have hrules : ∀ p ∈ rulePins db ruleVersionIds, ((db'.ruleVersion? p.id).any fun row =>
      (truthy p.contentHash).all (row.astHash == ·)) = true := by
    intro p hp
    obtain ⟨row, hrow, hhash⟩ := rulePins_verified hp
    rw [hpins.ruleVersions _ h.stored p hp, hrow, Option.any_some, Option.all_eq_true]
    intro hash hmem
    rw [mem_truthy hmem] at hhash
    exact beq_iff_eq.mpr (Option.some.inj hhash).symm
  have hcontracts : ∀ p ∈ contractPins db contractIds, ((truthy p.contentHash).all fun hash =>
      (db'.contractVersion? p.id).any fun row => db'.contractHash row == some hash) = true := by
    intro p hp
    obtain ⟨row, hrow, hhash⟩ := contractPins_verified hp
    have hsame := hpins.contractVersions _ h.stored p hp
    rw [hrow, Option.map_some] at hsame
    obtain ⟨row', hrow', hhash'⟩ := Option.map_eq_some_iff.mp hsame
    rw [Option.all_eq_true]
    intro hash hmem
    rw [mem_truthy hmem] at hhash
    rw [hrow', Option.any_some, hhash', mem_truthy hhash.symm, beq_self_eq_true]
  rw [AuditLedger.verifyPins, if_neg, if_neg, if_neg]
  · rfl
  · rw [Bool.not_eq_true', Bool.not_eq_false, List.all_eq_true]
    exact hcontracts
  · rw [Bool.not_eq_true', Bool.not_eq_false, List.all_eq_true]
    exact hrules
  · rw [Bool.not_eq_true', Bool.not_eq_false, List.all_eq_true]
    exact hdocuments

/-! ## What the replay does -/

theorem mem_contract_criteria {c : StandardCriterion} :
    c ∈ CONTRACT_RUBRIC.criteria ↔ c ∈ STANDARD_RUBRIC.criteria ∨ c = RATE_VARIANCE_CRITERION := by
  rw [CONTRACT_RUBRIC, List.mem_append, List.mem_singleton]

/-- What the CONTRACT rubric can be evaluated on, the STANDARD rubric can. -/
theorem evaluateInvoice_standard {invoice : ParsedInvoice} {contract : Option ContractFacts} {result : AuditResult}
    (h : evaluateInvoice D unicode sha256 invoice CONTRACT_RUBRIC contract = .ok result) :
    ∃ result', evaluateInvoice D unicode sha256 invoice STANDARD_RUBRIC contract = .ok result' := by
  obtain ⟨facts, hfacts, hgates, hscoring⟩ := evaluateInvoice_returns.mp ⟨result, h⟩
  refine evaluateInvoice_returns.mpr ⟨facts, hfacts, fun c hc => hgates c (mem_contract_criteria.mpr (.inl hc)),
    fun hpass c hc => hscoring (fun d hd hk => ?_) c (mem_contract_criteria.mpr (.inl hc))⟩
  rcases mem_contract_criteria.mp hd with hd | rfl
  · exact hpass d hd hk
  · cases hk

/-- A replay evaluates the invoice and the inputs of the run. -/
theorem CommittedRun.replayEvaluate
    (h : CommittedRun D unicode sha256 uuidIn db auditRunId contractVersionId input ruleVersionIds contractIds)
    {result : AuditResult} (hresult : evaluateInvoice D unicode sha256 input.invoice
      (replayRubric (manifestOf db input auditRunId ruleVersionIds contractIds)) (some input.resolvedInputs) =
        .ok result) :
    AuditLedger.replayEvaluate D unicode sha256
      ((manifestOf db input auditRunId ruleVersionIds contractIds).mapJson jsonb) = .ok result := by
  have hinvoice : ParsedInvoice.ofJson (jsonb input.invoice.toJson) = some input.invoice :=
    input.invoice.ofJson_toJson fieldwise_jsonb
  have hinputs : ContractFacts.ofJson (jsonb input.resolvedInputs.toJson) = some input.resolvedInputs :=
    ContractFacts.ofJson_toJson fieldwise_jsonb h.noExternal
  have hrubric : replayRubric ((manifestOf db input auditRunId ruleVersionIds contractIds).mapJson jsonb) =
    replayRubric (manifestOf db input auditRunId ruleVersionIds contractIds) := rfl
  rw [AuditLedger.replayEvaluate, hrubric]
  simp only [AuditReplayManifest.mapJson, manifestOf, hinvoice, hinputs]
  rw [manifestOf] at hresult
  rw [hresult]
  rfl

/-- The outcome of a replay is that of the stored invoice under the rubric the replay picks. -/
theorem CommittedRun.replay
    (h : CommittedRun D unicode sha256 uuidIn db auditRunId contractVersionId input ruleVersionIds contractIds)
    (hpins : PinsUnchanged db db' auditRunId) {result : AuditResult}
    (hresult : evaluateInvoice D unicode sha256 input.invoice
      (replayRubric (manifestOf db input auditRunId ruleVersionIds contractIds)) (some input.resolvedInputs) =
        .ok result) :
    replayAuditRun D unicode sha256 db' auditRunId =
      if canonicalText result.toJson = canonicalText input.result.toJson then .ok result
      else .error (.ReplayIntegrityError "replay result is not byte-identical to the pinned result") := by
  obtain ⟨m, hm⟩ : ∃ m, manifestOf db input auditRunId ruleVersionIds contractIds = m := ⟨_, rfl⟩
  have hrow := h.manifest
  have hwell := h.wellFormed
  have hverified := h.verifyPins hpins
  have heval := h.replayEvaluate hresult
  rw [hm] at hrow hwell hverified heval
  have hread : AuditReplayManifestSchema (jsonb m.toJson) = some (m.mapJson jsonb) := by
    rw [AuditReplayManifestSchema_toJson fieldwise_jsonb, hwell]
    rfl
  have hhash : replayManifestHash sha256 (m.mapJson jsonb) =
      some (sha256 (String.ofList (canonicalText m.toJson))) := by
    rw [replayManifestHash_jsonb, replayManifestHash_eq, hwell]
    rfl
  have hengine : (m.mapJson jsonb).engineSpecVersion = ENGINE_SPEC_VERSION := by
    rw [← hm]
    show input.result.pins.engineSpecVersion = ENGINE_SPEC_VERSION
    rw [evaluateInvoice_pins h.evaluated]
  have hstored : canonicalText (m.mapJson jsonb).result = canonicalText input.result.toJson := by
    rw [← hm]
    exact canonicalText_jsonb input.result.toJson
  have hsnapshot : (m.mapJson jsonb).rubric.snapshotId = none := by
    rw [← hm]
    exact h.noSnapshot
  have hid : ¬ ((m.mapJson jsonb).auditRunId ≠ auditRunId ∨
      replayManifestHash sha256 (m.mapJson jsonb) ≠ some (sha256 (String.ofList (canonicalText m.toJson)))) :=
    not_or.mpr ⟨not_not.mpr (by rw [← hm]; rfl), not_not.mpr hhash⟩
  simp only [replayAuditRun, hpins.manifest, hrow, hread, if_neg hid, hverified, hengine, hsnapshot,
    heval, hstored, ExceptOk.ok_bind, ne_eq, not_true, if_false]
  by_cases heq : canonicalText result.toJson = canonicalText input.result.toJson
  · rw [if_neg (not_not.mpr heq), if_pos heq]
    rfl
  · rw [if_pos heq, if_neg heq]
    rfl

/-! ## When a replay reproduces its run -/

/-- A contract version that is named is found. -/
def ContractFound (uuidIn : String → Option String) (db : AuditDb) (contractVersionId : Option String) : Prop :=
  ∀ text ∈ truthy contractVersionId, ∃ id, uuidIn text = some id ∧ id ∈ db.contractVersions.map ContractVersionRow.id

theorem contractPins_isEmpty : (contractPins db contractIds).isEmpty = false ↔
    ∃ id ∈ contractIds, id ∈ db.contractVersions.map ContractVersionRow.id := by
  rw [← Bool.not_eq_true, List.isEmpty_iff, contractPins, List.map_eq_nil_iff,
    ← List.length_eq_zero_iff, List.length_insertionSort, List.length_eq_zero_iff, List.filter_eq_nil_iff]
  simp only [List.contains_iff_mem, not_forall, not_not, List.mem_map, exists_prop]
  constructor
  · rintro ⟨row, hrow, hid⟩
    exact ⟨row.id, hid, row, hrow, rfl⟩
  · rintro ⟨id, hid, row, hrow, rfl⟩
    exact ⟨row, hrow, hid⟩

/-- The replay picks the rubric of the run exactly if the contract version was found. -/
theorem CommittedRun.rubric_iff
    (h : CommittedRun D unicode sha256 uuidIn db auditRunId contractVersionId input ruleVersionIds contractIds) :
    replayRubric (manifestOf db input auditRunId ruleVersionIds contractIds) = rubricOf contractVersionId ↔
      ContractFound uuidIn db contractVersionId := by
  have hne : STANDARD_RUBRIC ≠ CONTRACT_RUBRIC := fun heq => by
    have hversion := congrArg ComposedRubric.resolverVersion heq
    exact absurd hversion (by decide)
  have hids := h.contracts
  rw [replayRubric, rubricOf, show (manifestOf db input auditRunId ruleVersionIds contractIds).contractVersions =
    contractPins db contractIds from rfl]
  rw [contractVersionIds] at hids
  unfold ContractFound
  cases htruthy : truthy contractVersionId with
  | none =>
    rw [htruthy] at hids
    obtain rfl : [] = contractIds := Except.ok.inj hids
    have hempty : (contractPins db []).isEmpty = true := by
      rw [← Bool.not_eq_false, contractPins_isEmpty]
      exact fun ⟨_, hmem, _⟩ => absurd hmem List.not_mem_nil
    rw [if_pos hempty]
    exact iff_of_true rfl fun text hmem => by cases hmem
  | some text =>
    rw [htruthy, Option.toList_some, List.mapM_cons, List.mapM_nil] at hids
    obtain ⟨id, hid, ids, rfl, rfl⟩ := by
      simpa only [ExceptOk.bind_eq_ok, ExceptOk.pure_eq_ok] using hids
    have huuid : uuidIn text = some id := by
      unfold uuidParam at hid
      split at hid
      · rename_i id' huuid
        rw [huuid, ExceptOk.pure_eq_ok.mp hid]
      · cases hid
    have hfound : (contractPins db [id]).isEmpty = false ↔ id ∈ db.contractVersions.map ContractVersionRow.id := by
      rw [contractPins_isEmpty]
      simp only [List.mem_singleton, exists_eq_left]
    have hcond : (∀ t ∈ some text, ∃ id, uuidIn t = some id ∧ id ∈ db.contractVersions.map ContractVersionRow.id) ↔
        id ∈ db.contractVersions.map ContractVersionRow.id := by
      simp only [Option.mem_some_iff, forall_eq', huuid, Option.some.injEq, exists_eq_left']
    rw [hcond, ← hfound, Option.isSome_some, if_pos rfl]
    cases (contractPins db [id]).isEmpty with
    | true => exact iff_of_false hne Bool.noConfusion
    | false => exact iff_of_true rfl rfl

/-- A replay of the stored run under the rubric the run used, with the stored result. -/
structure Reproduces (D : Type) [Decimal D] (unicode : Unicode) (sha256 : String → String) (db : AuditDb)
    (auditRunId : String) (used : ComposedRubric) : Prop where
  noIntegrityError : ∀ message,
    replayAuditRun D unicode sha256 db auditRunId ≠ .error (.ReplayIntegrityError message)
  rubric : ∀ m ∈ db.stored auditRunId, replayRubric m = used
  result : ∀ m ∈ db.stored auditRunId, ∃ result, replayEvaluate D unicode sha256 m = .ok result ∧
    canonicalText result.toJson = canonicalText m.result

theorem CommittedRun.stored_of_unchanged
    (h : CommittedRun D unicode sha256 uuidIn db auditRunId contractVersionId input ruleVersionIds contractIds)
    (hpins : PinsUnchanged db db' auditRunId) {m : AuditReplayManifest} (hm : m ∈ db'.stored auditRunId) :
    m = (manifestOf db input auditRunId ruleVersionIds contractIds).mapJson jsonb := by
  rw [AuditDb.stored, hpins.manifest, ← AuditDb.stored, h.stored] at hm
  exact (Option.some.inj hm).symm

/-- A replay under another rubric than the run's is refused, if the rubrics' hashes differ. -/
theorem CommittedRun.refused (hrubrics : rubricContentHash sha256 STANDARD_RUBRIC ≠ rubricContentHash sha256 CONTRACT_RUBRIC)
    (h : CommittedRun D unicode sha256 uuidIn db auditRunId contractVersionId input ruleVersionIds contractIds)
    (hpins : PinsUnchanged db db' auditRunId) (hnot : ¬ ContractFound uuidIn db contractVersionId) :
    replayAuditRun D unicode sha256 db' auditRunId =
      .error (.ReplayIntegrityError "replay result is not byte-identical to the pinned result") := by
  have hne := mt h.rubric_iff.mp hnot
  have hnamed : rubricOf contractVersionId = CONTRACT_RUBRIC := by
    rw [rubricOf, if_pos]
    cases htruthy : truthy contractVersionId with
    | some => rfl
    | none => exact absurd (fun text hmem => by rw [htruthy] at hmem; cases hmem) hnot
  have hstandard : replayRubric (manifestOf db input auditRunId ruleVersionIds contractIds) = STANDARD_RUBRIC := by
    rw [hnamed, replayRubric] at hne
    rw [replayRubric]
    split at hne
    · rename_i hempty
      rw [if_pos hempty]
    · exact absurd rfl hne
  have hran := h.evaluated
  rw [hnamed] at hran
  obtain ⟨result, hresult⟩ := evaluateInvoice_standard hran
  rw [h.replay hpins (hstandard ▸ hresult), if_neg]
  refine AuditResult.canonicalText_ne ?_
  rw [evaluateInvoice_pins hresult, evaluateInvoice_pins hran]
  exact hrubrics

end

/-- As long as the pinned rows are unchanged, the replay of a committed run reproduces it exactly if the
contract version that was named, if one was, is among the contract versions. -/
theorem reproduces_iff (D : Type) [Decimal D] (unicode : Unicode) (sha256 : String → String)
    (uuidIn : String → Option String) {call : AuditCall} {before db db' : AuditDb} {auditRunId : String}
    (hrun : call.run D unicode sha256 uuidIn before auditRunId = .ok db) (hpins : PinsUnchanged db db' auditRunId) :
    Reproduces D unicode sha256 db' auditRunId (rubricOf call.contractVersionId) ↔
      ContractFound uuidIn before call.contractVersionId := by
  obtain ⟨hsame, input, ruleVersionIds, contractIds, hcommitted⟩ := AuditCall.run_ok hrun
  have hiff := hcommitted.rubric_iff
  rw [ContractFound, hsame, ← ContractFound] at hiff
  have hstored := hcommitted.stored
  rw [AuditDb.stored, ← hpins.manifest, ← AuditDb.stored] at hstored
  constructor
  · intro h
    have hrubric := h.rubric _ (Option.mem_def.mpr hstored)
    exact hiff.mp hrubric
  · intro h
    have hrubric := hiff.mpr h
    have heval := hcommitted.evaluated
    rw [← hrubric] at heval
    have hreplay := hcommitted.replay hpins heval
    rw [if_pos rfl] at hreplay
    refine ⟨fun message herror => ?_, fun m hm => ?_, fun m hm => ?_⟩
    · rw [hreplay] at herror
      cases herror
    · rw [hcommitted.stored_of_unchanged hpins hm]
      exact hrubric
    · obtain rfl := hcommitted.stored_of_unchanged hpins hm
      exact ⟨_, hcommitted.replayEvaluate heval, (canonicalText_jsonb _).symm⟩

/-! ## A contract version that is not there -/

/-- A uuid with these last two digits. -/
def uuidOf (digits : String) : String := "00000000-0000-4000-8000-0000000000" ++ digits

/-- Sixty-four digits. -/
def hashText : String := String.ofList (List.replicate 64 'a')

/-- The rule of the footing gate, and contract versions without a document. -/
def footingDb (contractVersionIds : List String) (h : contractVersionIds.Nodup) : AuditDb where
  invoices := []
  shipments := []
  contractRates := []
  contractVersions := contractVersionIds.map fun id => ⟨id, none⟩
  sourceDocuments := []
  criterionKeys := ["STD.FOOTING"]
  ruleVersions := [⟨uuidOf "01", "std-footing", 0, hashText⟩]
  rubricSnapshots := []
  drafts := []
  manifests := []
  contractVersionKey := by
    rw [List.map_map]
    exact (List.map_id contractVersionIds).symm ▸ h
  sourceDocumentKey := by decide
  ruleVersionKey := by decide
  manifestKey := by decide

/-- An invoice that does not foot, ingested under a contract version. -/
def unfootedCall : AuditCall :=
  .ingest ⟨uuidOf "02", hashText, draftOf "100.00" "90.00", some (uuidOf "05")⟩ (uuidOf "03")

theorem PinsUnchanged.refl (db : AuditDb) (auditRunId : String) : PinsUnchanged db db auditRunId :=
  ⟨rfl, fun _ _ _ _ => rfl, fun _ _ _ _ => rfl, fun _ _ _ _ => rfl⟩

/-- Under a contract version that is there, the replay reproduces the run. -/
theorem knownContract_reproduced :
    ∃ db, unfootedCall.run Ref .ascii id some (footingDb [uuidOf "05"] (by decide)) (uuidOf "04") = .ok db ∧
      Reproduces Ref .ascii id db (uuidOf "04") CONTRACT_RUBRIC := by
  obtain ⟨db, hrun⟩ := exists_ok
    (x := unfootedCall.run Ref .ascii id some (footingDb [uuidOf "05"] (by decide)) (uuidOf "04")) (by decide +kernel)
  exact ⟨db, hrun, (reproduces_iff Ref .ascii id some hrun (.refl db _)).mpr
    fun text htext => ⟨text, rfl, by rw [← Option.some.inj htext]; decide⟩⟩

/-- Under one that is not there, the run commits and its replay is refused. -/
theorem missingContract_refused :
    ∃ db, unfootedCall.run Ref .ascii id some (footingDb [] (by decide)) (uuidOf "04") = .ok db ∧
      ¬ Reproduces Ref .ascii id db (uuidOf "04") CONTRACT_RUBRIC ∧
      replayAuditRun Ref .ascii id db (uuidOf "04") =
        .error (.ReplayIntegrityError "replay result is not byte-identical to the pinned result") := by
  obtain ⟨db, hrun⟩ := exists_ok
    (x := unfootedCall.run Ref .ascii id some (footingDb [] (by decide)) (uuidOf "04")) (by decide +kernel)
  obtain ⟨hsame, input, ruleVersionIds, contractIds, hcommitted⟩ := AuditCall.run_ok hrun
  have hnot : ¬ ContractFound some db unfootedCall.contractVersionId := by
    intro hfound
    obtain ⟨id, -, hmem⟩ := hfound (uuidOf "05") rfl
    rw [hsame] at hmem
    cases hmem
  have hrefused := hcommitted.refused (rubricContentHash_ne Function.injective_id (by decide)) (.refl db _) hnot
  exact ⟨db, hrun, fun h => h.noIntegrityError _ hrefused, hrefused⟩

end AuditLedger
