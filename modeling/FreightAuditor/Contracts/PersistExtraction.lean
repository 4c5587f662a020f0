import FreightAuditor.AuditLedger.NamedEvents
import FreightAuditor.Contracts.ClarificationAnswers
import FreightAuditor.Contracts.ExtractionSchema
import FreightAuditor.Library.InsertMissing

/- Storing what the model says a contract says.

   A first call stores one row for each extracted value and an audit event with the response's
   hash; a later one with the same extraction finds them. The confidence is stored with four decimals
   and no text takes a NUL, so the first call is refused or loses something otherwise; and
   the event has who called, so a later call by another actor is refused (`persistedOnce_iff`). -/
namespace ContractExtractions

open Clarifications (AnswerSource)
open DecimalText ExceptOk Json

/-! ## Tables -/

/-- `ai_value`. -/
structure AiValue where
  status : String
  rawText : Option String
  normalizedValue : Option String
  clarificationQuestion : Option String
  deriving DecidableEq

def ExtractedContractValue.aiValue : ExtractedContractValue → AiValue
  | .found rawText normalizedValue _ _ => ⟨"FOUND", some rawText, normalizedValue, none⟩
  | .abstained status rawText _ _ clarificationQuestion => ⟨status.text, rawText, none, some clarificationQuestion⟩

/-- The pages that are cited, in order. -/
def pageRef (citations : List ExtractionCitation) : Option String :=
  let pages := ((citations.map ExtractionCitation.pageNumber).eraseDups.insertionSort (· ≤ ·)).map toString
  if pages = [] then none else some (",".intercalate pages)

/-- A human's value beside the model's. -/
structure Correction where
  hash : String
  /-- As `jsonb`, which keeps no order of fields. -/
  humanValue : List Char
  source : AnswerSource
  correctedBy : ℕ
  deriving DecidableEq

/-- The columns of `extraction_field`, but for its id. -/
structure FieldColumns where
  sourceDocumentId : ℕ
  fieldPath : String
  aiValue : AiValue
  confidence : PgNumeric.Numeric 6 4
  pageRef : Option String
  bbox : List (ℕ × Option (List NumberText))
  modelVersion : String
  promptVersion : String
  extractionResponseHash : String
  extractionSchemaVersion : String
  extractionStatus : String
  citations : List ExtractionCitation
  correction : Option Correction
  deriving DecidableEq

/-- The two unique indexes: one of the model's rows, one of the corrections. -/
def FieldColumns.key (columns : FieldColumns) : ℕ × String × String × Option String :=
  (columns.sourceDocumentId, columns.extractionResponseHash, columns.fieldPath, columns.correction.map Correction.hash)

structure ExtractionField extends FieldColumns where
  id : ℕ
  deriving DecidableEq

def FieldColumns.withId (id : ℕ) (columns : FieldColumns) : ExtractionField := ⟨columns, id⟩

def ExtractionField.key (field : ExtractionField) : ℕ × String × String × Option String := field.toFieldColumns.key

theorem withId_key (id : ℕ) (columns : FieldColumns) : (columns.withId id).key = columns.key := rfl

abbrev FieldTable := KeyedTable ExtractionField ExtractionField.key

structure SourceDocument where
  id : ℕ
  sha256 : String
  deriving DecidableEq

/-- The actor's kind goes with the actor: an analyst, or the model where there is none. -/
inductive PersistenceDetail where
  | persisted (actorUserId : Option ℕ) (responseHash schemaVersion modelId promptVersion : String) (fieldCount : ℕ)
  | corrected (actorUserId rowId originalFieldId sourceDocumentId : ℕ) (fieldPath correctionHash : String)
      (answerSource : AnswerSource)
  deriving DecidableEq

def PersistenceDetail.event : PersistenceDetail → String
  | .persisted .. => "contract_extraction.persisted"
  | .corrected .. => "extraction_field.corrected"

structure PersistExtractionInput where
  sourceDocumentId : ℕ
  actorUserId : Option ℕ
  idempotencyKey : String
  extraction : ContractExtraction
  deriving DecidableEq

structure ExtractionDb where
  sources : KeyedTable SourceDocument SourceDocument.id
  fields : FieldTable
  auditEvents : NamedEvent.Log PersistenceDetail
  /-- The calls that have returned; no column has them. -/
  persisted : List PersistExtractionInput

inductive ExtractionError where
  | schema
  | SOURCE_NOT_FOUND | SOURCE_HASH_MISMATCH | IDEMPOTENCY_KEY_MISMATCH | PARTIAL_CONFLICT
  | EXTRACTION_FIELD_NOT_FOUND | EXTRACTION_FIELD_CORRECTION_CONFLICT
  | AUDIT_EVENT_CONFLICT
  /-- A text that no column takes, or a number out of range. -/
  | database
  deriving DecidableEq

/-! ## Persisting -/

section

variable (localeCompare : String → String → Ordering) (canonical sha256 : String → String) (clientId : String)

def nulFree (s : String) : Bool := !s.toList.contains '\x00'

def ExtractedContractValue.texts (value : ExtractedContractValue) : List String :=
  value.aiValue.rawText.toList ++ value.aiValue.normalizedValue.toList ++ value.aiValue.clarificationQuestion.toList ++
    value.citations.map ExtractionCitation.excerpt

/-- The row of one value, where the columns take it. -/
def PersistenceRow.columns (sourceDocumentId : ℕ) (model : ModelPin) (responseHash : String) (row : PersistenceRow) :
    Except ExtractionError FieldColumns := do
  if ¬ ((row.fieldPath :: model.modelId :: model.promptVersion :: row.value.texts).all nulFree) then throw .database
  match PgNumeric.ofText 6 4 (String.ofList row.value.confidence.chars) with
  | none => throw .database
  | some confidence =>
    return ⟨sourceDocumentId, row.fieldPath, row.value.aiValue, confidence, pageRef row.value.citations,
      row.value.citations.map fun citation => (citation.pageNumber, citation.boundingBox), model.modelId,
      model.promptVersion, responseHash, CONTRACT_EXTRACTION_SCHEMA_VERSION, row.value.aiValue.status, row.value.citations,
      none⟩

/-- The model's rows of a response. -/
def FieldTable.ofResponse (fields : FieldTable) (sourceDocumentId : ℕ) (responseHash : String) : List ExtractionField :=
  fields.rows.filter fun field =>
    field.sourceDocumentId = sourceDocumentId ∧ field.extractionResponseHash = responseHash ∧ field.correction = none

/-- The rows that are there are counted as they were before the insert. -/
def insertFields (fields : FieldTable) (sourceDocumentId : ℕ) (responseHash : String) (model : ModelPin)
    (rows : List PersistenceRow) : Except ExtractionError FieldTable := do
  if rows = [] then return fields
  let payload ← rows.mapM (PersistenceRow.columns sourceDocumentId model responseHash)
  let inserted := fields.insertMissing FieldColumns.withId payload
  let storedCount := inserted.1 + (fields.ofResponse sourceDocumentId responseHash).length
  if storedCount ≠ rows.length ∨ (inserted.1 ≠ 0 ∧ inserted.1 ≠ rows.length) then throw .PARTIAL_CONFLICT
  return inserted.2

structure PersistResult where
  responseHash : String
  fieldCount : ℕ
  created : Bool
  deriving DecidableEq

/-- What the event's id is made of, next to its name. -/
def PersistExtractionInput.entity (input : PersistExtractionInput) (responseHash : String) : String :=
  toString input.sourceDocumentId ++ "\x00" ++ responseHash

def PersistExtractionInput.detail (input : PersistExtractionInput) (responseHash : String) (fieldCount : ℕ) : PersistenceDetail :=
  .persisted input.actorUserId responseHash CONTRACT_EXTRACTION_SCHEMA_VERSION input.extraction.model.modelId
    input.extraction.model.promptVersion fieldCount

def persistContractExtraction (db : ExtractionDb) (input : PersistExtractionInput) :
    Except ExtractionError (PersistResult × ExtractionDb) := do
  if ¬ ContractExtractionSchema canonical input.extraction then throw .schema
  let expectedKey := contractExtractionIdempotencyKey sha256 input.extraction
  if input.idempotencyKey ≠ expectedKey then throw .IDEMPOTENCY_KEY_MISMATCH
  match db.sources.find? input.sourceDocumentId with
  | none => throw .SOURCE_NOT_FOUND
  | some source =>
    if source.sha256 ≠ input.extraction.sourceDocumentSha256 then throw .SOURCE_HASH_MISMATCH
    let rows := flattenExtraction localeCompare input.extraction
    let fields ← insertFields db.fields input.sourceDocumentId expectedKey input.extraction.model rows
    if ¬ (nulFree input.extraction.model.modelId ∧ nulFree input.extraction.model.promptVersion) then throw .database
    match db.auditEvents.record NamedEvent.same (NamedEvent.of sha256 PersistenceDetail.event clientId
        (input.entity expectedKey) (input.detail expectedKey rows.length)) with
    | none => throw .AUDIT_EVENT_CONFLICT
    | some (created, auditEvents) =>
      return (⟨expectedKey, rows.length, created⟩,
        { db with fields := fields, auditEvents := auditEvents, persisted := input :: db.persisted })

/-! ## Correcting -/

mutual

/-- No text in it has a NUL. -/
def valueNulFree : Value → Bool
  | .str s => nulFree s
  | .arr elems => elemsNulFree elems
  | .obj fields => fieldsNulFree fields
  | _ => true

def elemsNulFree : List Value → Bool
  | [] => true
  | v :: rest => valueNulFree v && elemsNulFree rest

def fieldsNulFree : List (String × Value) → Bool
  | [] => true
  | (k, v) :: rest => nulFree k && valueNulFree v && fieldsNulFree rest

end

structure CorrectionInput where
  fieldId : ℕ
  actorUserId : ℕ
  humanValue : Value
  answerSource : AnswerSource

def correctionHash (input : CorrectionInput) : String :=
  sha256 (String.ofList (canonicalText (.obj [("fieldId", .str (toString input.fieldId)), ("humanValue", input.humanValue),
    ("answerSource", .str input.answerSource.text)])))

/-- The correction, with the original's columns. -/
def CorrectionInput.row (input : CorrectionInput) (original : ExtractionField) (hash : String) : FieldColumns :=
  { original.toFieldColumns with
    correction := some ⟨hash, canonicalText input.humanValue, input.answerSource, input.actorUserId⟩ }

/-- The row that has the key is the correction if its columns say the same. -/
def sameCorrection (a b : ExtractionField) : Bool :=
  a.aiValue = b.aiValue ∧ a.correction.map Correction.humanValue = b.correction.map Correction.humanValue ∧
    a.correction.map Correction.source = b.correction.map Correction.source ∧
    a.correction.map Correction.correctedBy = b.correction.map Correction.correctedBy

def persistExtractionFieldCorrection (db : ExtractionDb) (input : CorrectionInput) : Except ExtractionError ExtractionDb := do
  match db.fields.rows.find? (fun field => field.id = input.fieldId ∧ field.correction = none) with
  | none => throw .EXTRACTION_FIELD_NOT_FOUND
  | some original =>
    let hash := correctionHash sha256 input
    if ¬ valueNulFree input.humanValue then throw .database
    let columns := input.row original hash
    match db.fields.record sameCorrection ⟨columns, db.fields.rows.length⟩ with
    | none => throw .EXTRACTION_FIELD_CORRECTION_CONFLICT
    | some (_, fields) =>
      let id := ((fields.find? columns.key).map ExtractionField.id).getD 0
      match db.auditEvents.write sha256 PersistenceDetail.event clientId (toString original.id ++ "\x00" ++ hash)
          (.corrected input.actorUserId id original.id original.sourceDocumentId original.fieldPath hash
            input.answerSource) with
      | none => throw .AUDIT_EVENT_CONFLICT
      | some auditEvents => return { db with fields := fields, auditEvents := auditEvents }

/-! ## Runs -/

inductive ExtractionCommand where
  | storeSource (source : SourceDocument)
  | persist (input : PersistExtractionInput)
  | correct (input : CorrectionInput)

/-- A call that throws is rolled back. -/
def extractionStep (db : ExtractionDb) : ExtractionCommand → Option ExtractionDb
  | .storeSource source => some { db with sources := (db.sources.insert source).getD db.sources }
  | .persist input =>
    match persistContractExtraction localeCompare canonical sha256 clientId db input with
    | .error _ => some db
    | .ok (_, after) => some after
  | .correct input =>
    match persistExtractionFieldCorrection sha256 clientId db input with
    | .error _ => some db
    | .ok after => some after

/-- A call that the checks let through. -/
def Accepted (db : ExtractionDb) (input : PersistExtractionInput) : Prop :=
  ContractExtractionSchema canonical input.extraction = true ∧
    input.idempotencyKey = contractExtractionIdempotencyKey sha256 input.extraction ∧
    ∃ source ∈ db.sources.find? input.sourceDocumentId, source.sha256 = input.extraction.sourceDocumentSha256

/-- A call with the same extraction has returned. -/
def Repeats (db : ExtractionDb) (input : PersistExtractionInput) : Prop :=
  ∃ call ∈ db.persisted, call.sourceDocumentId = input.sourceDocumentId ∧ call.extraction = input.extraction

/-- The row is the model's, of the value. -/
structure Holds (input : PersistExtractionInput) (row : PersistenceRow) (field : ExtractionField) : Prop where
  sourceDocumentId : field.sourceDocumentId = input.sourceDocumentId
  responseHash : field.extractionResponseHash = input.idempotencyKey
  fieldPath : field.fieldPath = row.fieldPath
  correction : field.correction = none
  aiValue : field.aiValue = row.value.aiValue
  citations : field.citations = row.value.citations
  confidence : (field.confidence.units : ℚ) / 10 ^ 4 = row.value.confidence.value

/-- A call that the checks let through returns the response's hash; the first one stores one row for
each value, which holds it, and a later one stores none. -/
def PersistedOnce (db : ExtractionDb) : ExtractionCommand → Prop
  | .persist input => Accepted canonical sha256 db input →
    ∃ result after, persistContractExtraction localeCompare canonical sha256 clientId db input = .ok (result, after) ∧
      result.responseHash = input.idempotencyKey ∧
      (Repeats db input → after.fields = db.fields) ∧
      (¬ Repeats db input → ∃ inserted, after.fields.rows = db.fields.rows ++ inserted ∧
        List.Forall₂ (Holds input) (flattenExtraction localeCompare input.extraction) inserted)
  | _ => True

/-- No text that is stored has a NUL. -/
def NulFree (extraction : ContractExtraction) : Prop :=
  nulFree extraction.model.modelId = true ∧ nulFree extraction.model.promptVersion = true ∧
    ∀ row ∈ collectRows extraction, ∀ text ∈ row.value.texts, nulFree text = true

/-- No confidence has more than four decimals. -/
def FourDecimals (extraction : ContractExtraction) : Prop :=
  ∀ row ∈ collectRows extraction, ∃ n : ℤ, row.value.confidence.value = n / 10 ^ 4

/-- A first call has texts and confidences that the columns take as they are; a later one is by the actor of
the first. -/
def TakenAsItIs (db : ExtractionDb) : ExtractionCommand → Prop
  | .persist input => Accepted canonical sha256 db input →
    (¬ Repeats db input → NulFree input.extraction ∧ FourDecimals input.extraction) ∧
      ∀ call ∈ db.persisted, call.sourceDocumentId = input.sourceDocumentId → call.extraction = input.extraction →
        call.actorUserId = input.actorUserId
  | _ => True

def ExtractionDb.empty : ExtractionDb := ⟨KeyedTable.empty, KeyedTable.empty, KeyedTable.empty, []⟩

end

/-! ## What the columns take -/

theorem nulFree_iff {s : String} : nulFree s = true ↔ '\x00' ∉ s.toList := by
  simp [nulFree]

theorem nul_not_mem_escape (c : Char) : '\x00' ∉ escape c := by
  have hhex : ∀ n < 16, hexDigit n ≠ '\x00' := by decide
  unfold escape
  iterate 7 (split; · simp)
  split
  · rename_i hcontrol
    have hlow := hhex (c.toNat / 16) (by omega)
    have hhigh := hhex (c.toNat % 16) (by omega)
    simp [hlow.symm, hhigh.symm]
  · rename_i hplain
    intro hmem
    rw [← List.mem_singleton.mp hmem] at hplain
    exact hplain (by decide)

theorem nul_not_mem_quote (s : String) : '\x00' ∉ quote s := by
  intro hmem
  rcases List.mem_cons.mp hmem with h | h
  · exact absurd h (by decide)
  · rcases List.mem_append.mp h with h | h
    · obtain ⟨c, -, hc⟩ := List.mem_flatMap.mp h
      exact nul_not_mem_escape c hc
    · exact absurd (List.mem_singleton.mp h) (by decide)

/-- A path has no NUL, whatever the reference or the key in it. -/
theorem path_nulFree {canonical : String → String} {extraction : ContractExtraction}
    (h : ContractExtractionSchema canonical extraction = true) {row : PersistenceRow} (hrow : row ∈ collectRows extraction) :
    nulFree row.fieldPath = true := by
  simp only [ContractExtractionSchema, Bool.and_eq_true, List.all_eq_true] at h
  obtain ⟨⟨⟨⟨⟨⟨⟨⟨-, hfields⟩, -⟩, -⟩, -⟩, -⟩, -⟩, -⟩, -⟩ := h
  rw [nulFree_iff]
  rcases List.mem_append.mp hrow with hrow | hrow
  · rcases List.mem_append.mp hrow with hrow | hrow
    · obtain ⟨field, hfield, rfl⟩ := List.mem_map.mp hrow
      have hfield := hfields field hfield
      simp only [ContractExtractionFieldSchema, Bool.and_eq_true] at hfield
      refine not_mem_fieldPath hfield.1.2 fun st => ?_
      cases st with
      | bracket empty => cases empty <;> decide
      | _ => decide
    · obtain ⟨clause, -, rfl⟩ := List.mem_map.mp hrow
      simp [clausePath, nul_not_mem_quote]
  · obtain ⟨table, -, hrow⟩ := List.mem_flatMap.mp hrow
    have hbase : '\x00' ∉ (tableBase table.tableKey).toList := by simp [tableBase, nul_not_mem_quote]
    rcases List.mem_cons.mp hrow with rfl | hrow
    · simp [hbase]
    · obtain ⟨cell, -, rfl⟩ := List.mem_map.mp hrow
      have hdigits (n : ℕ) : '\x00' ∉ (toString n).toList := by
        rw [Nat.toString_eq_repr, Nat.toList_repr]
        exact JsText.not_mem_toDigits (by decide) n
      simp only [String.toList_append, List.mem_append, not_or]
      refine ⟨hbase, ?_⟩
      simp only [cellSuffix, String.toList_append, List.mem_append, not_or]
      exact ⟨⟨⟨⟨by decide, hdigits _⟩, by decide⟩, hdigits _⟩, by decide⟩

theorem confidence_le {canonical : String → String} {extraction : ContractExtraction}
    (h : ContractExtractionSchema canonical extraction = true) {row : PersistenceRow} (hrow : row ∈ collectRows extraction) :
    0 ≤ row.value.confidence.value ∧ row.value.confidence.value ≤ 1 := by
  have hvalue : ∀ value, ExtractedContractValueSchema value = true → 0 ≤ value.confidence.value ∧ value.confidence.value ≤ 1 := by
    intro value hvalue
    cases value with
    | found =>
      simp only [ExtractedContractValueSchema, confidenceSchema, Bool.and_eq_true, decide_eq_true_eq] at hvalue
      exact hvalue.1.1.1.2
    | abstained =>
      simp only [ExtractedContractValueSchema, confidenceSchema, Bool.and_eq_true, decide_eq_true_eq] at hvalue
      exact hvalue.1.1.1.2
  simp only [ContractExtractionSchema, Bool.and_eq_true, List.all_eq_true] at h
  obtain ⟨⟨⟨⟨⟨⟨⟨⟨-, hfields⟩, -⟩, hclauses⟩, -⟩, htables⟩, -⟩, -⟩, -⟩ := h
  refine hvalue _ ?_
  rcases List.mem_append.mp hrow with hrow | hrow
  · rcases List.mem_append.mp hrow with hrow | hrow
    · obtain ⟨field, hfield, rfl⟩ := List.mem_map.mp hrow
      have hfield := hfields field hfield
      simp only [ContractExtractionFieldSchema, Bool.and_eq_true] at hfield
      exact hfield.2
    · obtain ⟨clause, hclause, rfl⟩ := List.mem_map.mp hrow
      have hclause := hclauses clause hclause
      simp only [ExtractedContractClauseSchema, Bool.and_eq_true] at hclause
      exact hclause.2
  · obtain ⟨table, htable, hrow⟩ := List.mem_flatMap.mp hrow
    have htable := htables table htable
    simp only [ExtractedRateTableSchema, Bool.and_eq_true, List.all_eq_true] at htable
    obtain ⟨⟨⟨⟨⟨⟨⟨⟨-, htitle⟩, -⟩, -⟩, -⟩, -⟩, -⟩, hcells⟩, -⟩ := htable
    rcases List.mem_cons.mp hrow with rfl | hrow
    · exact htitle
    · obtain ⟨cell, hcell, rfl⟩ := List.mem_map.mp hrow
      have hcell := hcells cell hcell
      simp only [ExtractedRateTableCellSchema, Bool.and_eq_true] at hcell
      exact hcell.2

/-- A confidence is in range, and is rounded to four decimals. -/
theorem ofText_confidence {c : NumberText} (hlow : 0 ≤ c.value) (hhigh : c.value ≤ 1) :
    ∃ n, PgNumeric.ofText 6 4 (String.ofList c.chars) = some n ∧ n.units = DecimalRounding.roundHalfUp (c.value * 10 ^ 4) := by
  obtain ⟨l, hl⟩ := Option.isSome_iff_exists.mp c.isLiteral
  have hvalue : c.value = l.value := by simp [NumberText.value, hl]
  have hnonneg : 0 ≤ DecimalRounding.roundHalfUp (l.value * 10 ^ 4) := by
    refine DecimalRounding.roundHalfUp_nonneg (mul_nonneg ?_ (by norm_num))
    exact hvalue ▸ hlow
  have hbound : DecimalRounding.roundHalfUp (l.value * 10 ^ 4) ≤ 10000 := by
    have hle : l.value * 10 ^ 4 ≤ ((10000 : ℤ) : ℚ) := by
      rw [← hvalue]
      norm_num
      linarith
    calc DecimalRounding.roundHalfUp (l.value * 10 ^ 4)
        ≤ DecimalRounding.roundHalfUp ((10000 : ℤ) : ℚ) := DecimalRounding.roundHalfUp_mono hle
      _ = 10000 := DecimalRounding.roundHalfUp_intCast 10000
  have hrange : |DecimalRounding.roundHalfUp (l.value * 10 ^ 4)| < 10 ^ 6 := by
    rw [abs_of_nonneg hnonneg]
    omega
  refine ⟨⟨_, hrange⟩, ?_, by rw [hvalue]⟩
  rw [PgNumeric.ofText, String.toList_ofList, hl]
  exact dif_pos hrange

/-- A confidence is stored as it is exactly if it has no more than four decimals. -/
theorem rounded_eq_iff {v : ℚ} :
    (DecimalRounding.roundHalfUp (v * 10 ^ 4) : ℚ) / 10 ^ 4 = v ↔ ∃ n : ℤ, v = n / 10 ^ 4 := by
  constructor
  · intro h
    exact ⟨_, h.symm⟩
  · rintro ⟨n, rfl⟩
    have hunits : (n / 10 ^ 4 * 10 ^ 4 : ℚ) = (n : ℚ) := by norm_num
    rw [hunits, DecimalRounding.roundHalfUp_intCast]

section

variable {localeCompare : String → String → Ordering} {canonical sha256 : String → String} {clientId : String}

/-- The row of a value that is stored, and when it holds the value. -/
theorem columns_returns {sourceDocumentId : ℕ} {model : ModelPin} {responseHash : String} {row : PersistenceRow}
    (hpath : nulFree row.fieldPath = true) (hlow : 0 ≤ row.value.confidence.value) (hhigh : row.value.confidence.value ≤ 1)
    (hid : nulFree model.modelId = true) (hversion : nulFree model.promptVersion = true)
    (htexts : ∀ text ∈ row.value.texts, nulFree text = true) :
    ∃ columns, row.columns sourceDocumentId model responseHash = .ok columns ∧
      columns.key = (sourceDocumentId, responseHash, row.fieldPath, none) ∧ columns.aiValue = row.value.aiValue ∧
      columns.citations = row.value.citations ∧
      ((columns.confidence.units : ℚ) / 10 ^ 4 = row.value.confidence.value ↔
        ∃ n : ℤ, row.value.confidence.value = n / 10 ^ 4) := by
  obtain ⟨n, hn, hunits⟩ := ofText_confidence hlow hhigh
  have hall : (row.fieldPath :: model.modelId :: model.promptVersion :: row.value.texts).all nulFree = true := by
    simp only [List.all_cons, hpath, hid, hversion, Bool.true_and]
    exact List.all_eq_true.mpr htexts
  refine ⟨⟨sourceDocumentId, row.fieldPath, row.value.aiValue, n, pageRef row.value.citations,
    row.value.citations.map fun citation => (citation.pageNumber, citation.boundingBox), model.modelId,
    model.promptVersion, responseHash, CONTRACT_EXTRACTION_SCHEMA_VERSION, row.value.aiValue.status, row.value.citations,
    none⟩, ?_, rfl, rfl, rfl, ?_⟩
  · rw [PersistenceRow.columns, if_neg (not_not.mpr hall), hn]
    rfl
  · rw [hunits]
    exact rounded_eq_iff

/-- What the columns take of a row has no NUL. -/
theorem nulFree_of_columns {sourceDocumentId : ℕ} {model : ModelPin} {responseHash : String} {row : PersistenceRow}
    {columns : FieldColumns} (h : row.columns sourceDocumentId model responseHash = .ok columns) :
    ∀ text ∈ row.value.texts, nulFree text = true := by
  simp only [PersistenceRow.columns, throw_bind, ite_throw_eq_ok, not_not] at h
  intro text htext
  exact List.all_eq_true.mp h.1 text
    (List.mem_cons_of_mem _ (List.mem_cons_of_mem _ (List.mem_cons_of_mem _ htext)))

theorem mem_flattenExtraction {extraction : ContractExtraction} {row : PersistenceRow} :
    row ∈ flattenExtraction localeCompare extraction ↔ row ∈ collectRows extraction :=
  (List.perm_insertionSort _ _).mem_iff

/-- What a call that returns has done. -/
theorem persist_eq_ok {db after : ExtractionDb} {input : PersistExtractionInput} {result : PersistResult} :
    persistContractExtraction localeCompare canonical sha256 clientId db input = .ok (result, after) ↔
      Accepted canonical sha256 db input ∧ ∃ fields created auditEvents,
        insertFields db.fields input.sourceDocumentId input.idempotencyKey input.extraction.model
          (flattenExtraction localeCompare input.extraction) = .ok fields ∧
        (nulFree input.extraction.model.modelId = true ∧ nulFree input.extraction.model.promptVersion = true) ∧
        db.auditEvents.record NamedEvent.same (NamedEvent.of sha256 PersistenceDetail.event clientId
          (input.entity input.idempotencyKey)
          (input.detail input.idempotencyKey (flattenExtraction localeCompare input.extraction).length)) =
            some (created, auditEvents) ∧
        result = ⟨input.idempotencyKey, (flattenExtraction localeCompare input.extraction).length, created⟩ ∧
        after = { db with fields := fields, auditEvents := auditEvents, persisted := input :: db.persisted } := by
  unfold persistContractExtraction Accepted
  simp only [throw_bind, ite_throw_eq_ok, not_not]
  constructor
  · rintro ⟨hschema, hkey, h⟩
    cases hsource : db.sources.find? input.sourceDocumentId with
    | none =>
      rw [hsource] at h
      exact absurd h throw_ne_ok
    | some source =>
      rw [hsource] at h
      simp only [ite_throw_eq_ok, not_not] at h
      obtain ⟨hsha, h⟩ := h
      obtain ⟨fields, hfields, h⟩ := bind_eq_ok.mp h
      simp only [ite_throw_eq_ok, not_not] at h
      obtain ⟨hpins, h⟩ := h
      rw [← hkey] at hfields h
      refine ⟨⟨hschema, hkey, source, rfl, hsha⟩, fields, ?_⟩
      cases hrecord : db.auditEvents.record NamedEvent.same (NamedEvent.of sha256 PersistenceDetail.event clientId
          (input.entity input.idempotencyKey)
          (input.detail input.idempotencyKey (flattenExtraction localeCompare input.extraction).length)) with
      | none =>
        rw [hrecord] at h
        exact absurd h throw_ne_ok
      | some recorded =>
        rw [hrecord] at h
        obtain ⟨rfl, rfl⟩ := Prod.mk.inj (pure_eq_ok.mp h)
        exact ⟨recorded.1, recorded.2, hfields, hpins, rfl, rfl, rfl⟩
  · rintro ⟨⟨hschema, hkey, source, hsource, hsha⟩, fields, created, auditEvents, hfields, hpins, hrecord, rfl, rfl⟩
    refine ⟨hschema, hkey, ?_⟩
    rw [Option.mem_def.mp hsource]
    simp only [ite_throw_eq_ok, not_not]
    refine ⟨hsha, bind_eq_ok.mpr ⟨fields, hkey ▸ hfields, ?_⟩⟩
    simp only [ite_throw_eq_ok, not_not]
    refine ⟨hpins, ?_⟩
    rw [← hkey, hrecord]
    rfl

/-! ## The rows of a response -/

section

variable {fields fields' : FieldTable} {doc : ℕ} {hash : String} {model : ModelPin} {rows : List PersistenceRow}

theorem columns_key {row : PersistenceRow} {columns : FieldColumns} (h : row.columns doc model hash = .ok columns) :
    columns.key = (doc, hash, row.fieldPath, none) := by
  simp only [PersistenceRow.columns, throw_bind, ite_throw_eq_ok, not_not] at h
  obtain ⟨-, h⟩ := h
  cases hn : PgNumeric.ofText 6 4 (String.ofList row.value.confidence.chars) with
  | none =>
    rw [hn] at h
    exact absurd h throw_ne_ok
  | some n =>
    rw [hn] at h
    obtain rfl := pure_eq_ok.mp h
    rfl

/-- The payload has the keys of the rows. -/
theorem payload_keys {payload : List FieldColumns}
    (h : List.Forall₂ (fun row columns => PersistenceRow.columns doc model hash row = .ok columns) rows payload) :
    payload.map FieldColumns.key = rows.map fun row => (doc, hash, row.fieldPath, none) := by
  induction h with
  | nil => rfl
  | cons hrow _ ih => rw [List.map_cons, List.map_cons, ih, columns_key hrow]

theorem forall₂_stored {payload : List FieldColumns} {inserted : List ExtractionField}
    (hrows : List.Forall₂ (fun row columns => PersistenceRow.columns doc model hash row = .ok columns) rows payload)
    (hmade : List.Forall₂ (fun columns field => ∃ id, field = FieldColumns.withId id columns) payload inserted) :
    List.Forall₂ (fun row field => row.columns doc model hash = .ok (ExtractionField.toFieldColumns field)) rows inserted := by
  induction hrows generalizing inserted with
  | nil =>
    cases hmade
    exact .nil
  | cons hrow _ ih =>
    cases hmade with
    | cons hfirst hrest =>
      obtain ⟨id, rfl⟩ := hfirst
      exact .cons hrow (ih hrest)

/-- A response with no row yet: each of its values gets one. -/
theorem insertFields_first (hfree : ∀ field ∈ fields.rows, ∀ path, field.key ≠ (doc, hash, path, none))
    (hnodup : (rows.map PersistenceRow.fieldPath).Nodup) (hreturns : ∀ row ∈ rows, Returns (row.columns doc model hash)) :
    ∃ after inserted, insertFields fields doc hash model rows = .ok after ∧ after.rows = fields.rows ++ inserted ∧
      List.Forall₂ (fun row field => row.columns doc model hash = .ok field.toFieldColumns) rows inserted := by
  obtain ⟨payload, hpayload⟩ := returns_mapM.mpr hreturns
  have hrows := mapM_forall₂ hpayload
  have hkeys := payload_keys hrows
  have hkeys_nodup : (payload.map FieldColumns.key).Nodup := by
    rw [hkeys, show (fun row : PersistenceRow => (doc, hash, row.fieldPath, (none : Option String))) =
      (fun path => (doc, hash, path, none)) ∘ PersistenceRow.fieldPath from rfl, ← List.map_map]
    exact hnodup.map fun a b h => (Prod.mk.inj (Prod.mk.inj (Prod.mk.inj h).2).2).1
  have hfresh : ∀ columns ∈ payload, ∀ field ∈ fields.rows, field.key ≠ columns.key := by
    intro columns hcolumns field hfield h
    have hmem := List.mem_map_of_mem (f := FieldColumns.key) hcolumns
    rw [hkeys] at hmem
    obtain ⟨row, -, hrow⟩ := List.mem_map.mp hmem
    exact hfree field hfield row.fieldPath (h.trans hrow.symm)
  obtain ⟨hcount, inserted, hstored, hmade⟩ := KeyedTable.insertMissing_fresh withId_key hfresh hkeys_nodup
  have hnone : fields.ofResponse doc hash = [] := by
    refine List.filter_eq_nil_iff.mpr fun field hfield h => ?_
    obtain ⟨hdoc, hhash, hcorrection⟩ := of_decide_eq_true h
    refine hfree field hfield field.fieldPath ?_
    rw [ExtractionField.key, FieldColumns.key, hdoc, hhash, hcorrection]
    rfl
  have hlength : payload.length = rows.length := hrows.length_eq.symm
  have hforall := forall₂_stored hrows hmade
  by_cases hempty : rows = []
  · subst hempty
    cases hforall
    exact ⟨fields, [], rfl, (List.append_nil _).symm, .nil⟩
  · refine ⟨_, inserted, ?_, hstored, hforall⟩
    rw [insertFields, if_neg hempty]
    simp only [hpayload, ok_bind, hcount, hnone, hlength, List.length_nil]
    simp

/-- A response whose rows are there: none is added. -/
theorem insertFields_again (htaken : ∀ row ∈ rows, ∃ field ∈ fields.rows, field.key = (doc, hash, row.fieldPath, none))
    (hlength : (fields.ofResponse doc hash).length = rows.length)
    (hreturns : ∀ row ∈ rows, Returns (row.columns doc model hash)) : insertFields fields doc hash model rows = .ok fields := by
  obtain ⟨payload, hpayload⟩ := returns_mapM.mpr hreturns
  have hkeys := payload_keys (mapM_forall₂ hpayload)
  have htaken' : ∀ columns ∈ payload, ∃ field ∈ fields.rows, field.key = columns.key := by
    intro columns hcolumns
    have hmem := List.mem_map_of_mem (f := FieldColumns.key) hcolumns
    rw [hkeys] at hmem
    obtain ⟨row, hrow, hkey⟩ := List.mem_map.mp hmem
    obtain ⟨field, hfield, hfieldKey⟩ := htaken row hrow
    exact ⟨field, hfield, hfieldKey.trans hkey⟩
  have hnothing := KeyedTable.insertMissing_taken withId_key htaken'
  by_cases hempty : rows = []
  · rw [insertFields, if_pos hempty]
    rfl
  · rw [insertFields, if_neg hempty]
    simp only [hpayload, ok_bind, hnothing, hlength]
    simp

end

/-! ## Whole runs -/

variable (localeCompare sha256 clientId) in
/-- The event of a call that has returned. -/
def PersistExtractionInput.recorded (call : PersistExtractionInput) : NamedEvent PersistenceDetail :=
  NamedEvent.of sha256 PersistenceDetail.event clientId
    (call.entity (contractExtractionIdempotencyKey sha256 call.extraction))
    (call.detail (contractExtractionIdempotencyKey sha256 call.extraction)
      (flattenExtraction localeCompare call.extraction).length)

variable (localeCompare sha256 clientId) in
/-- The events and the model's rows are those of the calls that have returned. -/
structure Recorded (db : ExtractionDb) : Prop where
  named : db.auditEvents.WellNamed sha256 PersistenceDetail.event clientId
  events : ∀ e ∈ db.auditEvents.rows, e.detail.event = "contract_extraction.persisted" →
    ∃ call ∈ db.persisted, e = call.recorded localeCompare sha256 clientId
  recorded : ∀ call ∈ db.persisted, call.recorded localeCompare sha256 clientId ∈ db.auditEvents.rows
  fields : ∀ doc hash path, (∃ field ∈ db.fields.rows, field.key = (doc, hash, path, none)) ↔
    ∃ call ∈ db.persisted, call.sourceDocumentId = doc ∧ contractExtractionIdempotencyKey sha256 call.extraction = hash ∧
      ∃ row ∈ collectRows call.extraction, row.fieldPath = path
  nulFree : ∀ call ∈ db.persisted, NulFree call.extraction

theorem recorded_empty : Recorded localeCompare sha256 clientId .empty where
  named := fun _ h => absurd h List.not_mem_nil
  events := fun _ h => absurd h List.not_mem_nil
  recorded := fun _ h => absurd h List.not_mem_nil
  fields := fun _ _ _ => iff_of_false (fun ⟨_, h, _⟩ => absurd h List.not_mem_nil) fun ⟨_, h, _⟩ => absurd h List.not_mem_nil
  nulFree := fun _ h => absurd h List.not_mem_nil

theorem event_nulFree (detail : PersistenceDetail) : '\x00' ∉ detail.event.toList := by
  cases detail with
  | persisted =>
    show '\x00' ∉ "contract_extraction.persisted".toList
    decide
  | corrected =>
    show '\x00' ∉ "extraction_field.corrected".toList
    decide

/-- The document and the hash are read back from what the event's id is made of. -/
theorem entity_inj {a b : PersistExtractionInput} {hash hash' : String} (h : a.entity hash = b.entity hash') :
    a.sourceDocumentId = b.sourceDocumentId ∧ hash = hash' := by
  have htext := congrArg String.toList h
  have hnul : "\x00".toList = ['\x00'] := by decide
  simp only [PersistExtractionInput.entity, String.toList_append, hnul, List.append_assoc, List.singleton_append] at htext
  have hfree (n : ℕ) : '\x00' ∉ (toString n).toList := by
    rw [Nat.toString_eq_repr, Nat.toList_repr]
    exact JsText.not_mem_toDigits (by decide) n
  obtain ⟨hdoc, hhash⟩ := JsText.append_delimiter_inj (hfree a.sourceDocumentId) (hfree b.sourceDocumentId) htext
  rw [Nat.toString_eq_repr, Nat.toString_eq_repr, Nat.toList_repr, Nat.toList_repr] at hdoc
  exact ⟨JsText.toDigits_injective hdoc, String.toList_inj.mp hhash⟩

section

variable {db after : ExtractionDb} {input : PersistExtractionInput} {fields' : FieldTable}

/-- The event of a call can be written if no other actor has had the response stored. -/
theorem record_isSome_iff (hsha : Function.Injective sha256) (hdb : Recorded localeCompare sha256 clientId db)
    (hkey : input.idempotencyKey = contractExtractionIdempotencyKey sha256 input.extraction) :
    (db.auditEvents.record NamedEvent.same (NamedEvent.of sha256 PersistenceDetail.event clientId
      (input.entity input.idempotencyKey)
      (input.detail input.idempotencyKey (flattenExtraction localeCompare input.extraction).length))).isSome ↔
    ∀ call ∈ db.persisted, call.sourceDocumentId = input.sourceDocumentId → call.extraction = input.extraction →
      call.actorUserId = input.actorUserId := by
  have hwrite : (db.auditEvents.write sha256 PersistenceDetail.event clientId (input.entity input.idempotencyKey)
      (input.detail input.idempotencyKey (flattenExtraction localeCompare input.extraction).length)).isSome ↔ _ :=
    NamedEvent.write_isSome hsha event_nulFree hdb.named
  rw [NamedEvent.Log.write, Option.isSome_map] at hwrite
  rw [hwrite]
  constructor
  · intro h call hcall hdoc hextraction
    have hdetail := h _ (hdb.recorded call hcall) rfl (by
      rw [hkey, ← hextraction]
      show toString call.sourceDocumentId ++ "\x00" ++ _ = toString input.sourceDocumentId ++ "\x00" ++ _
      rw [hdoc])
    exact (PersistenceDetail.persisted.inj hdetail).1
  · intro h e he hevent hentity
    obtain ⟨call, hcall, rfl⟩ := hdb.events e he hevent
    obtain ⟨hdoc, hhash⟩ := entity_inj hentity
    have hextraction := idempotencyKey_injective hsha (hhash.trans hkey)
    have hactor := h call hcall hdoc hextraction
    show call.detail _ _ = input.detail _ _
    rw [PersistExtractionInput.detail, PersistExtractionInput.detail, hactor, hextraction, hkey]

/-- Each row of an accepted extraction can be stored if its texts and the pins have no NUL. -/
theorem returns_columns (hschema : ContractExtractionSchema canonical input.extraction = true) (hnul : NulFree input.extraction)
    {row : PersistenceRow} (hrow : row ∈ flattenExtraction localeCompare input.extraction) :
    Returns (row.columns input.sourceDocumentId input.extraction.model input.idempotencyKey) := by
  have hrow := mem_flattenExtraction.mp hrow
  obtain ⟨hid, hversion, htexts⟩ := hnul
  obtain ⟨hlow, hhigh⟩ := confidence_le hschema hrow
  obtain ⟨columns, hcolumns, -⟩ := columns_returns (path_nulFree hschema hrow) hlow hhigh hid hversion (htexts row hrow)
  exact ⟨columns, hcolumns⟩

theorem returns_of_insertFields {fields : FieldTable} {doc : ℕ} {hash : String} {model : ModelPin} {rows : List PersistenceRow}
    (h : insertFields fields doc hash model rows = .ok fields') : ∀ row ∈ rows, Returns (row.columns doc model hash) := by
  by_cases hempty : rows = []
  · subst hempty
    exact fun _ hrow => absurd hrow List.not_mem_nil
  · rw [insertFields, if_neg hempty] at h
    obtain ⟨payload, hpayload, -⟩ := bind_eq_ok.mp h
    exact returns_mapM.mp ⟨payload, hpayload⟩

/-- A response that no call has stored has no row of the model. -/
theorem Recorded.free (hsha : Function.Injective sha256) (hdb : Recorded localeCompare sha256 clientId db)
    (hkey : input.idempotencyKey = contractExtractionIdempotencyKey sha256 input.extraction) (hfirst : ¬ Repeats db input) :
    ∀ field ∈ db.fields.rows, ∀ path, field.key ≠ (input.sourceDocumentId, input.idempotencyKey, path, none) := by
  intro field hfield path h
  obtain ⟨call, hcall, hdoc, hhash, -⟩ := (hdb.fields _ _ _).mp ⟨field, hfield, h⟩
  exact hfirst ⟨call, hcall, hdoc, idempotencyKey_injective hsha (hhash.trans hkey)⟩

theorem Recorded.first (hsha : Function.Injective sha256) (hdb : Recorded localeCompare sha256 clientId db)
    (haccepted : Accepted canonical sha256 db input) (hfirst : ¬ Repeats db input)
    (hreturns : ∀ row ∈ flattenExtraction localeCompare input.extraction,
      Returns (row.columns input.sourceDocumentId input.extraction.model input.idempotencyKey)) :
    ∃ fields inserted, insertFields db.fields input.sourceDocumentId input.idempotencyKey input.extraction.model
        (flattenExtraction localeCompare input.extraction) = .ok fields ∧ fields.rows = db.fields.rows ++ inserted ∧
      List.Forall₂ (fun row field => row.columns input.sourceDocumentId input.extraction.model input.idempotencyKey =
        .ok field.toFieldColumns) (flattenExtraction localeCompare input.extraction) inserted :=
  insertFields_first (hdb.free hsha haccepted.2.1 hfirst) (fieldPaths_nodup haccepted.1) hreturns

/-- The model's rows of a response that was stored are those of its values. -/
theorem Recorded.again (hsha : Function.Injective sha256) (hdb : Recorded localeCompare sha256 clientId db)
    (haccepted : Accepted canonical sha256 db input) (hrepeats : Repeats db input) :
    insertFields db.fields input.sourceDocumentId input.idempotencyKey input.extraction.model
      (flattenExtraction localeCompare input.extraction) = .ok db.fields := by
  obtain ⟨hschema, hkey, -⟩ := haccepted
  obtain ⟨call, hcall, hdoc, hextraction⟩ := hrepeats
  have hrow (path : String) : (∃ field ∈ db.fields.rows, field.key = (input.sourceDocumentId, input.idempotencyKey, path, none)) ↔
      ∃ row ∈ flattenExtraction localeCompare input.extraction, row.fieldPath = path := by
    rw [hdb.fields]
    constructor
    · rintro ⟨other, -, -, hhash, row, hrow, hpath⟩
      rw [idempotencyKey_injective hsha (hhash.trans hkey)] at hrow
      exact ⟨row, mem_flattenExtraction.mpr hrow, hpath⟩
    · rintro ⟨row, hrow, hpath⟩
      refine ⟨call, hcall, hdoc, by rw [hextraction, hkey], row, ?_, hpath⟩
      exact hextraction ▸ mem_flattenExtraction.mp hrow
  have hresponse {field : ExtractionField} : field ∈ db.fields.ofResponse input.sourceDocumentId input.idempotencyKey ↔
      field ∈ db.fields.rows ∧ field.key = (input.sourceDocumentId, input.idempotencyKey, field.fieldPath, none) := by
    rw [FieldTable.ofResponse, List.mem_filter, decide_eq_true_iff, ExtractionField.key, FieldColumns.key]
    simp
  refine insertFields_again (fun row hmem => (hrow row.fieldPath).mpr ⟨row, hmem, rfl⟩) ?_
    fun row hmem => returns_columns hschema (hextraction ▸ hdb.nulFree call hcall) hmem
  have hnodup : ((db.fields.ofResponse input.sourceDocumentId input.idempotencyKey).map fun field => field.fieldPath).Nodup := by
    refine KeyedTable.nodup_filter_map _ _ fun a ha b hb hpa hpb hpath => ?_
    rw [(hresponse.mp (List.mem_filter.mpr ⟨ha, hpa⟩)).2, (hresponse.mp (List.mem_filter.mpr ⟨hb, hpb⟩)).2, hpath]
  have hperm : ((db.fields.ofResponse input.sourceDocumentId input.idempotencyKey).map fun field => field.fieldPath).Perm
      ((flattenExtraction localeCompare input.extraction).map PersistenceRow.fieldPath) := by
    refine (List.perm_ext_iff_of_nodup hnodup (fieldPaths_nodup hschema)).mpr fun path => ?_
    rw [List.mem_map, List.mem_map, ← hrow path]
    constructor
    · rintro ⟨field, hfield, rfl⟩
      exact ⟨field, hresponse.mp hfield⟩
    · rintro ⟨field, hfield, hfieldKey⟩
      have hpath : field.fieldPath = path := (Prod.mk.inj (Prod.mk.inj (Prod.mk.inj hfieldKey).2).2).1
      exact ⟨field, hresponse.mpr ⟨hfield, hpath ▸ hfieldKey⟩, hpath⟩
  have hlength := hperm.length_eq
  rwa [List.length_map, List.length_map] at hlength

/-- The rows of a call that returns: none where the response was stored, else one for each value. -/
theorem Recorded.inserted (hsha : Function.Injective sha256) (hdb : Recorded localeCompare sha256 clientId db)
    (haccepted : Accepted canonical sha256 db input)
    (h : insertFields db.fields input.sourceDocumentId input.idempotencyKey input.extraction.model
      (flattenExtraction localeCompare input.extraction) = .ok fields') :
    (Repeats db input → fields' = db.fields) ∧
      (¬ Repeats db input → ∃ inserted, fields'.rows = db.fields.rows ++ inserted ∧
        List.Forall₂ (fun row field => row.columns input.sourceDocumentId input.extraction.model input.idempotencyKey =
          .ok field.toFieldColumns) (flattenExtraction localeCompare input.extraction) inserted) := by
  constructor
  · intro hrepeats
    exact Except.ok.inj (h.symm.trans (hdb.again hsha haccepted hrepeats))
  · intro hfirst
    obtain ⟨fields, inserted, hfields, hrows, hforall⟩ := hdb.first hsha haccepted hfirst (returns_of_insertFields h)
    rw [h] at hfields
    obtain rfl := Except.ok.inj hfields
    exact ⟨inserted, hrows, hforall⟩

/-- The model's rows after a call that returns. -/
theorem Recorded.fields_persist (hsha : Function.Injective sha256) (hdb : Recorded localeCompare sha256 clientId db)
    (haccepted : Accepted canonical sha256 db input)
    (h : insertFields db.fields input.sourceDocumentId input.idempotencyKey input.extraction.model
      (flattenExtraction localeCompare input.extraction) = .ok fields') (doc : ℕ) (hash path : String) :
    (∃ field ∈ fields'.rows, field.key = (doc, hash, path, none)) ↔
      ∃ call ∈ input :: db.persisted, call.sourceDocumentId = doc ∧
        contractExtractionIdempotencyKey sha256 call.extraction = hash ∧ ∃ row ∈ collectRows call.extraction, row.fieldPath = path := by
  obtain ⟨hagain, hfirst⟩ := hdb.inserted hsha haccepted h
  rw [List.exists_mem_cons_iff, ← hdb.fields doc hash path]
  by_cases hrepeats : Repeats db input
  · rw [hagain hrepeats]
    refine ⟨.inr, fun hor => ?_⟩
    rcases hor with ⟨hdoc, hhash, hrow⟩ | hold
    · obtain ⟨call, hcall, hcallDoc, hextraction⟩ := hrepeats
      exact (hdb.fields doc hash path).mpr ⟨call, hcall, hcallDoc.trans hdoc, hextraction.symm ▸ hhash, hextraction.symm ▸ hrow⟩
    · exact hold
  · obtain ⟨inserted, hrows, hforall⟩ := hfirst hrepeats
    obtain ⟨hleft, hright⟩ := exists_of_forall₂ hforall
    rw [hrows]
    constructor
    · rintro ⟨field, hfield, hkey⟩
      rcases List.mem_append.mp hfield with hold | hnew
      · exact .inr ⟨field, hold, hkey⟩
      · obtain ⟨row, hrow, hcolumns⟩ := hright field hnew
        have hfieldKey := (columns_key hcolumns).symm.trans hkey
        obtain ⟨hdoc, hrest⟩ := Prod.mk.inj hfieldKey
        obtain ⟨hhash, hrest⟩ := Prod.mk.inj hrest
        exact .inl ⟨hdoc, haccepted.2.1 ▸ hhash, row, mem_flattenExtraction.mp hrow, (Prod.mk.inj hrest).1⟩
    · intro hor
      rcases hor with ⟨rfl, rfl, row, hrow, rfl⟩ | ⟨field, hfield, hkey⟩
      · obtain ⟨field, hfield, hcolumns⟩ := hleft row (mem_flattenExtraction.mpr hrow)
        exact ⟨field, List.mem_append_right _ hfield, (columns_key hcolumns).trans (by rw [haccepted.2.1])⟩
      · exact ⟨field, List.mem_append_left _ hfield, hkey⟩

theorem Recorded.persist (hsha : Function.Injective sha256) (hdb : Recorded localeCompare sha256 clientId db) {result : PersistResult}
    (h : persistContractExtraction localeCompare canonical sha256 clientId db input = .ok (result, after)) :
    Recorded localeCompare sha256 clientId after := by
  obtain ⟨haccepted, fields, created, auditEvents, hfields, hpins, hrecord, -, rfl⟩ := persist_eq_ok.mp h
  have hrecorded : NamedEvent.of sha256 PersistenceDetail.event clientId (input.entity input.idempotencyKey)
      (input.detail input.idempotencyKey (flattenExtraction localeCompare input.extraction).length) =
      input.recorded localeCompare sha256 clientId := by
    rw [PersistExtractionInput.recorded, haccepted.2.1]
  have hwrite : db.auditEvents.write sha256 PersistenceDetail.event clientId (input.entity input.idempotencyKey)
      (input.detail input.idempotencyKey (flattenExtraction localeCompare input.extraction).length) = some auditEvents := by
    rw [NamedEvent.Log.write, hrecord]
    rfl
  have hmem {e : NamedEvent PersistenceDetail} := NamedEvent.mem_write hdb.named hwrite (e := e)
  refine ⟨hdb.named.write hwrite, fun e he hevent => ?_, fun call hcall => ?_,
    hdb.fields_persist hsha haccepted hfields, fun call hcall => ?_⟩
  · rcases hmem.mp he with hold | hnew
    · obtain ⟨call, hcall, rfl⟩ := hdb.events e hold hevent
      exact ⟨call, List.mem_cons_of_mem _ hcall, rfl⟩
    · exact ⟨input, List.mem_cons_self, hnew.trans hrecorded⟩
  · rcases List.mem_cons.mp hcall with rfl | hcall
    · exact hmem.mpr (.inr hrecorded.symm)
    · exact hmem.mpr (.inl (hdb.recorded call hcall))
  · rcases List.mem_cons.mp hcall with rfl | hcall
    · refine ⟨hpins.1, hpins.2, fun row hrow => ?_⟩
      obtain ⟨columns, hcolumns⟩ := returns_of_insertFields hfields row (mem_flattenExtraction.mpr hrow)
      exact nulFree_of_columns hcolumns
    · exact hdb.nulFree call hcall

/-- What a correction that returns has written. -/
theorem correct_eq_ok {correction : CorrectionInput} (h : persistExtractionFieldCorrection sha256 clientId db correction = .ok after) :
    ∃ (columns : FieldColumns) (created : Bool) (fields : FieldTable) (auditEvents : NamedEvent.Log PersistenceDetail)
      (entityId : String) (detail : PersistenceDetail), columns.correction ≠ none ∧ detail.event = "extraction_field.corrected" ∧
      db.fields.record sameCorrection (columns.withId db.fields.rows.length) = some (created, fields) ∧
      db.auditEvents.write sha256 PersistenceDetail.event clientId entityId detail = some auditEvents ∧
      after = { db with fields := fields, auditEvents := auditEvents } := by
  unfold persistExtractionFieldCorrection at h
  split at h
  · exact absurd h throw_ne_ok
  · simp only [throw_bind, ite_throw_eq_ok] at h
    obtain ⟨-, h⟩ := h
    split at h
    · exact absurd h throw_ne_ok
    · rename_i original _ _ created fields hrecord
      split at h
      · exact absurd h throw_ne_ok
      · rename_i auditEvents hwrite
        refine ⟨correction.row original _, created, fields, auditEvents, _, _, ?_, rfl, hrecord, hwrite, (pure_eq_ok.mp h).symm⟩
        exact Option.some_ne_none _

/-- A correction leaves the model's rows and the events of calls as they are. -/
theorem Recorded.correct (hdb : Recorded localeCompare sha256 clientId db) {correction : CorrectionInput}
    (h : persistExtractionFieldCorrection sha256 clientId db correction = .ok after) :
    Recorded localeCompare sha256 clientId after := by
  obtain ⟨columns, created, fields, auditEvents, entityId, detail, hcorrection, hdetail, hrecord, hwrite, rfl⟩ := correct_eq_ok h
  have hmem {e : NamedEvent PersistenceDetail} := NamedEvent.mem_write hdb.named hwrite (e := e)
  refine ⟨hdb.named.write hwrite, fun e he hevent => ?_, fun call hcall => hmem.mpr (.inl (hdb.recorded call hcall)),
    fun doc hash path => ?_, hdb.nulFree⟩
  · rcases hmem.mp he with hold | rfl
    · exact hdb.events e hold hevent
    · exact absurd (hdetail.symm.trans hevent) (by decide)
  · rw [← hdb.fields doc hash path]
    rcases KeyedTable.record_cases hrecord with ⟨-, -, hinsert⟩ | ⟨-, rfl, -⟩
    · show (∃ field ∈ fields.rows, _) ↔ _
      rw [(KeyedTable.insert_eq_some hinsert).2]
      constructor
      · rintro ⟨field, hfield, hkey⟩
        rcases List.mem_append.mp hfield with hold | hnew
        · exact ⟨field, hold, hkey⟩
        · -- the row has a correction's hash in its key
          rw [List.mem_singleton.mp hnew] at hkey
          have hnone := (Prod.mk.inj (Prod.mk.inj (Prod.mk.inj hkey).2).2).2
          exact absurd (Option.map_eq_none_iff.mp hnone) hcorrection
      · rintro ⟨field, hfield, hkey⟩
        exact ⟨field, List.mem_append_left _ hfield, hkey⟩
    · rfl

theorem persist_step {call : PersistExtractionInput}
    (h : extractionStep localeCompare canonical sha256 clientId db (.persist call) = some after) :
    after = db ∨ ∃ result, persistContractExtraction localeCompare canonical sha256 clientId db call = .ok (result, after) := by
  unfold extractionStep at h
  simp only at h
  generalize persistContractExtraction localeCompare canonical sha256 clientId db call = returned at h
  cases returned with
  | error e => exact .inl (Option.some.inj h).symm
  | ok returned => exact .inr ⟨returned.1, by rw [← Option.some.inj h]⟩

theorem correct_step {correction : CorrectionInput}
    (h : extractionStep localeCompare canonical sha256 clientId db (.correct correction) = some after) :
    after = db ∨ persistExtractionFieldCorrection sha256 clientId db correction = .ok after := by
  unfold extractionStep at h
  simp only at h
  generalize persistExtractionFieldCorrection sha256 clientId db correction = returned at h
  cases returned with
  | error e => exact .inl (Option.some.inj h).symm
  | ok returned => exact .inr (congrArg Except.ok (Option.some.inj h))

theorem recorded_step (hsha : Function.Injective sha256) {command : ExtractionCommand}
    (hdb : Recorded localeCompare sha256 clientId db)
    (h : extractionStep localeCompare canonical sha256 clientId db command = some after) :
    Recorded localeCompare sha256 clientId after := by
  cases command with
  | storeSource source =>
    obtain rfl := Option.some.inj h
    exact ⟨hdb.named, hdb.events, hdb.recorded, hdb.fields, hdb.nulFree⟩
  | persist call =>
    rcases persist_step h with rfl | ⟨result, hpersist⟩
    · exact hdb
    · exact hdb.persist hsha hpersist
  | correct correction =>
    rcases correct_step h with rfl | hcorrect
    · exact hdb
    · exact hdb.correct hcorrect

/-- A row of an accepted extraction is held as it is if its confidence has no more than four decimals. -/
theorem holds_of_columns (hschema : ContractExtractionSchema canonical input.extraction = true) (hnul : NulFree input.extraction)
    (hdecimals : FourDecimals input.extraction) {row : PersistenceRow} (hrow : row ∈ collectRows input.extraction)
    {field : ExtractionField} (h : row.columns input.sourceDocumentId input.extraction.model input.idempotencyKey =
      .ok field.toFieldColumns) : Holds input row field := by
  obtain ⟨hlow, hhigh⟩ := confidence_le hschema hrow
  obtain ⟨columns, hcolumns, hkey, haiValue, hcitations, hconfidence⟩ := columns_returns (path_nulFree hschema hrow) hlow hhigh
    hnul.1 hnul.2.1 (hnul.2.2 row hrow)
  obtain rfl := Except.ok.inj (hcolumns.symm.trans h)
  obtain ⟨hdoc, hrest⟩ := Prod.mk.inj hkey
  obtain ⟨hhash, hrest⟩ := Prod.mk.inj hrest
  obtain ⟨hpath, hcorrection⟩ := Prod.mk.inj hrest
  exact ⟨hdoc, hhash, hpath, Option.map_eq_none_iff.mp hcorrection, haiValue, hcitations, hconfidence.mpr (hdecimals row hrow)⟩

/-- A call with rows and an event that can be stored returns. -/
theorem Recorded.returns (hsha : Function.Injective sha256) (hdb : Recorded localeCompare sha256 clientId db)
    (haccepted : Accepted canonical sha256 db input) (hnul : NulFree input.extraction)
    (hactor : ∀ call ∈ db.persisted, call.sourceDocumentId = input.sourceDocumentId → call.extraction = input.extraction →
      call.actorUserId = input.actorUserId)
    (hfields : insertFields db.fields input.sourceDocumentId input.idempotencyKey input.extraction.model
      (flattenExtraction localeCompare input.extraction) = .ok fields') :
    ∃ result after, persistContractExtraction localeCompare canonical sha256 clientId db input = .ok (result, after) ∧
      result.responseHash = input.idempotencyKey ∧ after.fields = fields' := by
  obtain ⟨⟨created, auditEvents⟩, hrecord⟩ := Option.isSome_iff_exists.mp ((record_isSome_iff hsha hdb haccepted.2.1).mpr hactor)
  exact ⟨_, _, persist_eq_ok.mpr ⟨haccepted, fields', created, auditEvents, hfields, ⟨hnul.1, hnul.2.1⟩, hrecord, rfl, rfl⟩, rfl, rfl⟩

/-- At a state that a run reaches, a call is answered as it should exactly if it meets the condition. -/
theorem persistedOnce_iff_takenAsItIs (hsha : Function.Injective sha256) (hdb : Recorded localeCompare sha256 clientId db)
    (command : ExtractionCommand) : PersistedOnce localeCompare canonical sha256 clientId db command ↔
      TakenAsItIs canonical sha256 db command := by
  cases command with
  | storeSource source => exact Iff.rfl
  | correct input => exact Iff.rfl
  | persist input =>
    refine forall_congr' fun haccepted => ?_
    have hschema := haccepted.1
    have hkey := haccepted.2.1
    constructor
    · rintro ⟨result, after, hpersist, -, -, hfirst⟩
      obtain ⟨-, fields, created, auditEvents, hfields, hpins, hrecord, -, -⟩ := persist_eq_ok.mp hpersist
      refine ⟨fun hnew => ⟨⟨hpins.1, hpins.2, fun row hrow => ?_⟩, fun row hrow => ?_⟩,
        (record_isSome_iff hsha hdb hkey).mp (Option.isSome_iff_exists.mpr ⟨_, hrecord⟩)⟩
      · obtain ⟨columns, hcolumns⟩ := returns_of_insertFields hfields row (mem_flattenExtraction.mpr hrow)
        exact nulFree_of_columns hcolumns
      · obtain ⟨inserted, -, hholds⟩ := hfirst hnew
        obtain ⟨field, -, hfield⟩ := (exists_of_forall₂ hholds).1 row (mem_flattenExtraction.mpr hrow)
        exact ⟨field.confidence.units, hfield.confidence.symm⟩
    · rintro ⟨hnew, hactor⟩
      by_cases hrepeats : Repeats db input
      · have hagain := hrepeats
        obtain ⟨call, hcall, -, hextraction⟩ := hagain
        obtain ⟨result, after, hpersist, hhash, hafter⟩ := hdb.returns hsha haccepted (hextraction ▸ hdb.nulFree call hcall) hactor
          (hdb.again hsha haccepted hrepeats)
        exact ⟨result, after, hpersist, hhash, fun _ => hafter, fun hfirst => absurd hrepeats hfirst⟩
      · obtain ⟨hnul, hdecimals⟩ := hnew hrepeats
        obtain ⟨fields, inserted, hfields, hrows, hforall⟩ := hdb.first hsha haccepted hrepeats fun row hrow =>
          returns_columns hschema hnul hrow
        obtain ⟨result, after, hpersist, hhash, hafter⟩ := hdb.returns hsha haccepted hnul hactor hfields
        refine ⟨result, after, hpersist, hhash, fun hagain => absurd hagain hrepeats, fun _ => ⟨inserted, hafter ▸ hrows, ?_⟩⟩
        have hwithin := (List.forall₂_and_left _ _).mpr ⟨fun row hrow => mem_flattenExtraction.mp hrow, hforall⟩
        exact hwithin.imp fun row field h => holds_of_columns hschema hnul hdecimals h.1 h.2

end

/-- No two values of an accepted extraction have one path; no two extractions have one hash; and along every
run every call is answered as it should, each value stored once and as it is, exactly if every first call has
texts and confidences that the columns take as they are and every later one is by the actor of the first. -/
theorem extraction_persisted_iff (hsha : Function.Injective sha256) :
    (∀ extraction, ContractExtractionSchema canonical extraction = true →
      ((flattenExtraction localeCompare extraction).map PersistenceRow.fieldPath).Nodup) ∧
    Function.Injective (contractExtractionIdempotencyKey sha256) ∧
    ∀ commands, Runs.AllSteps (extractionStep localeCompare canonical sha256 clientId)
        (PersistedOnce localeCompare canonical sha256 clientId) .empty commands ↔
      Runs.AllSteps (extractionStep localeCompare canonical sha256 clientId) (TakenAsItIs canonical sha256) .empty commands := by
  refine ⟨fun extraction h => fieldPaths_nodup h, idempotencyKey_injective hsha, fun commands => ?_⟩
  exact Runs.allSteps_iff (Recorded localeCompare sha256 clientId) (fun _ _ _ hdb h => recorded_step hsha hdb h)
    (fun _ command _ hdb _ => persistedOnce_iff_takenAsItIs hsha hdb command) commands .empty recorded_empty

end

def sampleSource : SourceDocument := ⟨1, String.ofList (List.replicate 64 'a')⟩

def sampleExtraction : ContractExtraction where
  sourceDocumentSha256 := sampleSource.sha256
  model := ⟨"claude-opus-4-8", "contract-extract/1"⟩
  fields := [⟨"contract.validFrom", .DATE, .found "January 1, 2026" (some "2026-01-01") ⟨"0.9876".toList, by decide⟩
    [⟨3, "Effective January 1, 2026", none, some ⟨10, 25⟩⟩]⟩]
  clauses := []
  rateTables := []

def sampleCall (actorUserId : Option ℕ) : PersistExtractionInput :=
  ⟨1, actorUserId, contractExtractionIdempotencyKey id sampleExtraction, sampleExtraction⟩

instance (db : ExtractionDb) (input : PersistExtractionInput) : Decidable (Accepted id id db input) :=
  inferInstanceAs (Decidable (_ ∧ _ ∧ ∃ source ∈ db.sources.find? input.sourceDocumentId, _))

theorem sampleExtraction_taken : NulFree sampleExtraction ∧ FourDecimals sampleExtraction := by
  refine ⟨⟨by decide, by decide, by decide⟩, fun row hrow => ⟨9876, ?_⟩⟩
  obtain rfl := List.mem_singleton.mp hrow
  decide +kernel

/-- The call is repeated by another actor. -/
theorem sample_retried : ∃ s₁ ∈ extractionStep compare id id "7" .empty (.storeSource sampleSource),
    ∃ s₂ ∈ extractionStep compare id id "7" s₁ (.persist (sampleCall none)), Accepted id id s₂ (sampleCall (some 4)) ∧
      (persistContractExtraction compare id id "7" s₂ (sampleCall (some 4))).toOption.isNone := by
  decide +kernel

theorem persist_goes_on (localeCompare : String → String → Ordering) (canonical sha256 : String → String) (clientId : String)
    (db : ExtractionDb) (call : PersistExtractionInput) :
    ∃ after, extractionStep localeCompare canonical sha256 clientId db (.persist call) = some after := by
  unfold extractionStep
  simp only
  generalize persistContractExtraction localeCompare canonical sha256 clientId db call = returned
  cases returned with
  | error e => exact ⟨_, rfl⟩
  | ok returned => exact ⟨_, rfl⟩

theorem persisted_after {localeCompare : String → String → Ordering} {canonical sha256 : String → String} {clientId : String}
    {db after : ExtractionDb} {call : PersistExtractionInput}
    (h : extractionStep localeCompare canonical sha256 clientId db (.persist call) = some after) :
    ∀ c ∈ after.persisted, c ∈ db.persisted ∨ c = call := by
  rcases persist_step h with rfl | ⟨result, hpersist⟩
  · exact fun c hc => .inl hc
  · obtain ⟨-, fields, created, auditEvents, -, -, -, -, rfl⟩ := persist_eq_ok.mp hpersist
    exact fun c hc => (List.mem_cons.mp hc).symm

/-- Repeated by the same actor, the call finds its rows. -/
theorem sample_persisted : Runs.AllSteps (extractionStep compare id id "7") (PersistedOnce compare id id "7") .empty
    [.storeSource sampleSource, .persist (sampleCall none), .persist (sampleCall none)] := by
  refine ((extraction_persisted_iff Function.injective_id).2.2 _).mpr fun s₁ h₁ => ⟨trivial, fun s₂ h₂ =>
    ⟨fun _ => ⟨fun _ => sampleExtraction_taken, fun c hc => ?_⟩, fun s₃ _ =>
      ⟨fun _ => ⟨fun _ => sampleExtraction_taken, fun c hc => ?_⟩, trivial⟩⟩⟩
  · obtain rfl := Option.some.inj h₁
    exact absurd hc List.not_mem_nil
  · intro _ _
    rcases persisted_after h₂ c hc with hc | rfl
    · obtain rfl := Option.some.inj h₁
      exact absurd hc List.not_mem_nil
    · rfl

/-- Repeated by another actor, it is refused. -/
theorem sample_refused : ¬ Runs.AllSteps (extractionStep compare id id "7") (PersistedOnce compare id id "7") .empty
    [.storeSource sampleSource, .persist (sampleCall none), .persist (sampleCall (some 4))] := by
  intro h
  obtain ⟨s₁, h₁, s₂, h₂, haccepted, hnone⟩ := sample_retried
  obtain ⟨s₃, h₃⟩ := persist_goes_on compare id id "7" s₂ (sampleCall (some 4))
  obtain ⟨honce, -⟩ := ((h s₁ h₁).2 s₂ h₂).2 s₃ h₃
  obtain ⟨result, after, hpersist, -⟩ := honce haccepted
  rw [hpersist] at hnone
  cases hnone

end ContractExtractions
