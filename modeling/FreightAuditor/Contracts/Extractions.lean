import FreightAuditor.Contracts.Backtests

/- Extracted fields, their corrections, and the verified contract.

   `persistExtractionFieldCorrection` inserts a row beside the model's, under the hash of what
   was submitted: what was submitted before is found again. `finalizeContractVersion` takes,
   for every field of an extraction, the correction recorded last. -/
namespace Contracts.Extractions

open AppendOnly DecimalJs ReadCommitted
open Claims (AuditEvent AuditEventEvidence deterministicAuditEventId sameEvidence)

/-! ## Rows -/

inductive AnswerSource where
  | read_from_doc | analyst_knowledge | carrier_confirmed
  deriving DecidableEq

def AnswerSource.text : AnswerSource → String
  | .read_from_doc => "read_from_doc" | .analyst_knowledge => "analyst_knowledge"
  | .carrier_confirmed => "carrier_confirmed"

/-- What the model said of a field, apart from its value. -/
structure FieldEvidence where
  confidence : Json.Value
  pageRef : Option String
  bbox : Json.Value
  modelVersion : Option String
  promptVersion : Option String
  extractionStatus : Option String
  citations : Json.Value
  extractionSchemaVersion : Option String

structure ExtractionField extends FieldEvidence where
  id : ℕ
  accountId : ℕ
  sourceDocumentId : ℕ
  fieldPath : String
  aiValue : Json.Value
  humanValue : Option Json.Value
  extractionResponseHash : Option String
  correctionHash : Option String
  correctionSource : Option AnswerSource
  correctedBy : Option ℕ
  recordedAt : ℕ

structure ContractVersion where
  id : ℕ
  accountId : ℕ
  sourceDocumentId : Option ℕ

structure ClarifyingQuestion where
  accountId : ℕ
  sourceDocumentId : ℕ
  extractionResponseHash : Option String
  answer : Option String

structure ResolvedField where
  fieldPath : String
  originalFieldId : ℕ
  evidenceFieldId : ℕ
  aiValue : Json.Value
  humanValue : Json.Value
  effectiveValue : Json.Value
  correctionHash : Option String
  evidence : FieldEvidence

structure VerifiedContractVersion where
  id : ℕ
  accountId : ℕ
  contractVersionId : ℕ
  sourceDocumentId : ℕ
  extractionResponseHash : String
  verificationHash : String
  resolvedFields : List ResolvedField
  verifiedBy : ℕ

inductive Row where
  | contractVersion (row : ContractVersion)
  | field (row : ExtractionField)
  | question (row : ClarifyingQuestion)
  | verified (row : VerifiedContractVersion)
  | auditEvent (row : AuditEvent)

inductive Key where
  | contractVersionId (id : ℕ)
  | fieldId (id : ℕ)
  /-- `extraction_field_contract_response_path_uidx`. -/
  | original (accountId sourceDocumentId : ℕ) (responseHash fieldPath : String)
  /-- `extraction_field_correction_uidx`. -/
  | correction (accountId sourceDocumentId : ℕ) (responseHash : Option String) (fieldPath correctionHash : String)
  | verifiedId (id : ℕ)
  | verified (accountId contractVersionId : ℕ) (responseHash : String)
  | verification (accountId : ℕ) (verificationHash : String)
  | auditEventId (id : ℕ)
  deriving DecidableEq

def ExtractionField.keys (f : ExtractionField) : List Key :=
  .fieldId f.id :: match f.correctionHash, f.extractionResponseHash with
    | some hash, response => [.correction f.accountId f.sourceDocumentId response f.fieldPath hash]
    | none, some response => [.original f.accountId f.sourceDocumentId response f.fieldPath]
    | none, none => []

def Row.keys : Row → List Key
  | .contractVersion v => [.contractVersionId v.id]
  | .field f => f.keys
  | .question _ => []
  | .verified v => [.verifiedId v.id, .verified v.accountId v.contractVersionId v.extractionResponseHash,
      .verification v.accountId v.verificationHash]
  | .auditEvent e => [.auditEventId e.id]

abbrev Db := List Row

section

variable (db : Db)

def contractVersions : List ContractVersion := db.filterMap fun
  | .contractVersion v => some v
  | _ => none

def extractionFields : List ExtractionField := db.filterMap fun
  | .field f => some f
  | _ => none

def clarifyingQuestions : List ClarifyingQuestion := db.filterMap fun
  | .question q => some q
  | _ => none

def verifiedContractVersions : List VerifiedContractVersion := db.filterMap fun
  | .verified v => some v
  | _ => none

def auditEvents : List AuditEvent := db.filterMap fun
  | .auditEvent e => some e
  | _ => none

end

@[simp] theorem mem_extractionFields {db : Db} {f : ExtractionField} : f ∈ extractionFields db ↔ Row.field f ∈ db :=
  mem_table fun row a => by cases row <;> simp

/-! ## Statements -/

inductive ExtractionError where
  | fieldNotFound
  | correctionConflict
  | finalization (code : String)
  | auditEventConflict
  /-- A statement the database refuses. -/
  | database (constraint : String)
  deriving DecidableEq

abbrev Statement (R : Type) := Prog Db Row Key ExtractionError R

def insertRow (target : List Key) (row : Row) : Statement Bool :=
  insertUnless Row.keys target (.database "unique index") row

def writeAuditEvent (startedAt id : ℕ) (value : AuditEventEvidence) : Statement Bool :=
  insertOr Row.keys [.auditEventId id] (.database "unique index")
    (.auditEvent { value with id := id, recordedAt := startedAt })
    (fun db =>
      if (auditEvents db).any fun e => e.id == id && sameEvidence e.toAuditEventEvidence value then .ok false
      else .error .auditEventConflict) true

/-- `IS NOT DISTINCT FROM`, as `jsonb`. -/
def sameJson (a b : Json.Value) : Bool := Json.canonicalText a == Json.canonicalText b

def optionalText (text : Option String) : Json.Value := (text.map Json.Value.str).getD .null

/-! ## Corrections -/

structure CorrectionInput where
  clientId : ℕ
  fieldId : ℕ
  actorUserId : ℕ
  humanValue : Json.Value
  answerSource : AnswerSource

structure CorrectionResult where
  id : ℕ
  correctionHash : String
  created : Bool

/-- A field as it was extracted. -/
def ExtractionField.IsOriginal (f : ExtractionField) : Prop :=
  f.extractionResponseHash.isSome = true ∧ f.correctionHash = none

instance (f : ExtractionField) : Decidable f.IsOriginal := inferInstanceAs (Decidable (_ ∧ _))

def findOriginal (db : Db) (clientId fieldId : ℕ) : Option ExtractionField :=
  (extractionFields db).find? fun f => f.id = fieldId ∧ f.accountId = clientId ∧ f.IsOriginal

section

variable (sha256 : String → ℕ)

def correctionHash (fieldId : ℕ) (humanValue : Json.Value) (answerSource : AnswerSource) : String :=
  hash sha256 (.obj [("fieldId", idText fieldId), ("humanValue", humanValue), ("answerSource", .str answerSource.text)])

def correctionRow (id startedAt : ℕ) (original : ExtractionField) (input : CorrectionInput) : ExtractionField :=
  { original with
    id := id
    humanValue := some input.humanValue
    correctionHash := some (correctionHash sha256 original.id input.humanValue input.answerSource)
    correctionSource := some input.answerSource
    correctedBy := some input.actorUserId
    recordedAt := startedAt }

/-- The correction that a retry has to find. -/
def sameCorrection (f row : ExtractionField) : Bool :=
  f.accountId == row.accountId && f.sourceDocumentId == row.sourceDocumentId &&
    f.extractionResponseHash == row.extractionResponseHash && f.fieldPath == row.fieldPath &&
    f.correctionHash == row.correctionHash && sameJson f.aiValue row.aiValue &&
    f.humanValue.map Json.canonicalText == row.humanValue.map Json.canonicalText &&
    f.correctionSource == row.correctionSource && f.correctedBy == row.correctedBy

def persistExtractionFieldCorrection (tx startedAt : ℕ) (input : CorrectionInput) : Statement CorrectionResult := do
  let found ← .query fun db => findOriginal db input.clientId input.fieldId
  match found with
  | none => .fail .fieldNotFound
  | some original =>
    let row := correctionRow sha256 (newId tx 0) startedAt original input
    let hash := correctionHash sha256 original.id input.humanValue input.answerSource
    let created ← insertRow [.correction original.accountId original.sourceDocumentId original.extractionResponseHash
      original.fieldPath hash] (.field row)
    let existing ← .query fun db =>
      if created then some row.id else ((extractionFields db).find? (sameCorrection · row)).map ExtractionField.id
    match existing with
    | none => .fail .correctionConflict
    | some id =>
      let _ ← writeAuditEvent startedAt
        (deterministicAuditEventId sha256 [toString input.clientId, toString original.id, hash,
          "extraction_field.corrected"])
        { clientId := some input.clientId
          entity := "extraction_field"
          entityId := some id
          event := "corrected"
          actorKind := .analyst
          actorUserId := some input.actorUserId
          ruleVersionId := none
          rubricSnapshotId := none
          detail := some (.obj [("originalFieldId", idText original.id),
            ("sourceDocumentId", idText original.sourceDocumentId), ("fieldPath", .str original.fieldPath),
            ("correctionHash", .str hash), ("answerSource", .str input.answerSource.text)]) }
      return ⟨id, hash, created⟩

/-! ## Finalization -/

structure FinalizeInput where
  clientId : ℕ
  contractVersionId : ℕ
  actorUserId : ℕ
  extractionResponseHash : String

structure FinalizeResult where
  id : ℕ
  verificationHash : String
  fieldCount : ℕ
  created : Bool

end

/-- The order of the database's texts, a preorder. -/
structure Collation where
  cmp : String → String → Ordering
  trans : Std.TransCmp cmp

/-- `ORDER BY field_path, recorded_at, id`. -/
def fieldOrder (collation : Collation) : ExtractionField → ExtractionField → Ordering :=
  compareLex (fun a b => collation.cmp a.fieldPath b.fieldPath)
    (compareLex (compareOn ExtractionField.recordedAt) (compareOn ExtractionField.id))

section

variable (sha256 : String → ℕ) (collation : Collation)

/-- The rows of an extraction, corrections among them. -/
def extractionRows (db : Db) (clientId sourceDocumentId : ℕ) (responseHash : String) : List ExtractionField :=
  ((extractionFields db).filter fun f => f.accountId = clientId ∧ f.sourceDocumentId = sourceDocumentId ∧
    f.extractionResponseHash = some responseHash).insertionSort fun a b => (fieldOrder collation a b).isLE = true

/-- `??`: the first value that is there and not `null`. -/
def coalesce (value : Option Json.Value) (otherwise : Json.Value) : Json.Value :=
  match value with
  | none | some .null => otherwise
  | some v => v

def resolveField (fields : List ExtractionField) (original : ExtractionField) : ResolvedField :=
  let correction := (fields.filter fun f => f.fieldPath = original.fieldPath ∧ f.correctionHash.isSome).getLast?
  { fieldPath := original.fieldPath
    originalFieldId := original.id
    evidenceFieldId := (correction.map ExtractionField.id).getD original.id
    aiValue := original.aiValue
    humanValue := coalesce (correction.bind ExtractionField.humanValue) .null
    effectiveValue := coalesce (correction.bind ExtractionField.humanValue) original.aiValue
    correctionHash := correction.bind ExtractionField.correctionHash
    evidence := original.toFieldEvidence }

def ResolvedField.toJson (r : ResolvedField) : Json.Value :=
  .obj [("fieldPath", .str r.fieldPath), ("originalFieldId", idText r.originalFieldId),
    ("evidenceFieldId", idText r.evidenceFieldId), ("aiValue", r.aiValue), ("humanValue", r.humanValue),
    ("effectiveValue", r.effectiveValue), ("correctionHash", optionalText r.correctionHash),
    ("confidence", r.evidence.confidence), ("pageRef", optionalText r.evidence.pageRef), ("bbox", r.evidence.bbox),
    ("citations", r.evidence.citations), ("modelVersion", optionalText r.evidence.modelVersion),
    ("promptVersion", optionalText r.evidence.promptVersion),
    ("extractionStatus", optionalText r.evidence.extractionStatus)]

/-- The audit event of the extraction, which names its response hash. -/
def extractionPersisted (db : Db) (clientId sourceDocumentId : ℕ) (responseHash : String) : Bool :=
  (auditEvents db).any fun e => e.clientId == some clientId && e.entity == "contract_extraction" &&
    e.entityId == some sourceDocumentId && e.event == "persisted" &&
    (e.detail.bind (·.get? "responseHash")).bind Json.Value.text? == some responseHash

def unansweredClarification (db : Db) (clientId sourceDocumentId : ℕ) (responseHash : String) : Bool :=
  (clarifyingQuestions db).any fun q => q.accountId == clientId && q.sourceDocumentId == sourceDocumentId &&
    q.extractionResponseHash == some responseHash && q.answer.isNone

def resolvedJson (resolved : List ResolvedField) : Json.Value := .arr (resolved.map ResolvedField.toJson)

/-- The verified version that a retry has to find. -/
def sameVerification (v row : VerifiedContractVersion) : Bool :=
  v.accountId == row.accountId && v.contractVersionId == row.contractVersionId &&
    v.extractionResponseHash == row.extractionResponseHash && v.verificationHash == row.verificationHash &&
    sameJson (resolvedJson v.resolvedFields) (resolvedJson row.resolvedFields) && v.verifiedBy == row.verifiedBy

/-- Insert the verified version, or find the equal one, and say so. -/
def recordVerification (startedAt : ℕ) (row : VerifiedContractVersion) : Statement FinalizeResult := do
  let created ← insertRow [.verified row.accountId row.contractVersionId row.extractionResponseHash] (.verified row)
  let existing ← .query fun db =>
    if created then some row.id
    else ((verifiedContractVersions db).find? (sameVerification · row)).map VerifiedContractVersion.id
  match existing with
  | none => .fail (.finalization "FINALIZATION_CONFLICT")
  | some id =>
    let _ ← writeAuditEvent startedAt
      (deterministicAuditEventId sha256 [toString row.accountId, toString row.contractVersionId, row.verificationHash,
        "contract_version.verified"])
      { clientId := some row.accountId
        entity := "contract_version"
        entityId := some row.contractVersionId
        event := "verified"
        actorKind := .analyst
        actorUserId := some row.verifiedBy
        ruleVersionId := none
        rubricSnapshotId := none
        detail := some (.obj [("verifiedContractVersionId", idText id), ("sourceDocumentId", idText row.sourceDocumentId),
          ("extractionResponseHash", .str row.extractionResponseHash), ("verificationHash", .str row.verificationHash),
          ("fieldCount", .ofNumber (.ofNat row.resolvedFields.length))]) }
    return ⟨id, row.verificationHash, row.resolvedFields.length, created⟩

/-- The document of a contract version. -/
def sourceOf (db : Db) (clientId contractVersionId : ℕ) : Option ℕ :=
  ((contractVersions db).find? fun v => v.id = contractVersionId ∧ v.accountId = clientId).bind
    ContractVersion.sourceDocumentId

def verifiedRow (id : ℕ) (input : FinalizeInput) (sourceDocumentId : ℕ) (resolved : List ResolvedField) :
    VerifiedContractVersion where
  id := id
  accountId := input.clientId
  contractVersionId := input.contractVersionId
  sourceDocumentId := sourceDocumentId
  extractionResponseHash := input.extractionResponseHash
  verificationHash := hash sha256 (.obj [("contractVersionId", idText input.contractVersionId),
    ("sourceDocumentId", idText sourceDocumentId), ("extractionResponseHash", .str input.extractionResponseHash),
    ("resolvedFields", resolvedJson resolved)])
  resolvedFields := resolved
  verifiedBy := input.actorUserId

/-- The fields of an extraction, each with its latest correction. -/
def resolveFields (fields : List ExtractionField) : List ResolvedField :=
  (fields.filter fun f => f.correctionHash.isNone).map (resolveField fields)

def finalizeContractVersion (tx startedAt : ℕ) (input : FinalizeInput) : Statement FinalizeResult := do
  let source ← .query fun db => sourceOf db input.clientId input.contractVersionId
  match source with
  | none => .fail (.finalization "CONTRACT_VERSION_NOT_FOUND")
  | some sourceDocumentId =>
    let persisted ← .query fun db => extractionPersisted db input.clientId sourceDocumentId input.extractionResponseHash
    if !persisted then .fail (.finalization "EXTRACTION_NOT_FOUND")
    else
      let fields ← .query fun db =>
        extractionRows collation db input.clientId sourceDocumentId input.extractionResponseHash
      if (resolveFields fields).isEmpty then .fail (.finalization "EXTRACTION_NOT_FOUND")
      else
        let unanswered ← .query fun db =>
          unansweredClarification db input.clientId sourceDocumentId input.extractionResponseHash
        if unanswered then .fail (.finalization "UNANSWERED_CLARIFICATIONS")
        else recordVerification sha256 startedAt (verifiedRow sha256 (newId tx 0) input sourceDocumentId
          (resolveFields fields))

/-! ## Calls -/

inductive ExtractionCall where
  | persistExtractionFieldCorrection (input : CorrectionInput)
  | finalizeContractVersion (input : FinalizeInput)

inductive ExtractionResult where
  | corrected (result : CorrectionResult)
  | finalized (result : FinalizeResult)

def ExtractionCall.body (tx startedAt : ℕ) : ExtractionCall → Statement ExtractionResult
  | .persistExtractionFieldCorrection input => do
    return .corrected (← Extractions.persistExtractionFieldCorrection sha256 tx startedAt input)
  | .finalizeContractVersion input => do
    return .finalized (← Extractions.finalizeContractVersion sha256 collation tx startedAt input)

def extractionsSystem : System Db Row Key ExtractionError ExtractionResult ExtractionCall :=
  ⟨append, fun call tx startedAt => call.body sha256 collation tx startedAt⟩

end

end Contracts.Extractions
