import FreightAuditor.AuditLedger.NamedEvents
import FreightAuditor.Contracts.Amendments
import FreightAuditor.Library.LikePattern

/- The triggers of rule discovery, as the detectors leave them.

   A detector inserts a trigger for each row of an audit run that it finds wanting, or finds
   the one that is there, and says in one event which they are. An amendment runs them again
   for every run that a retired rule was cited in. The rows are those of one tenant. -/
namespace Discovery

open AppendOnly Claims Contracts ExceptOk Json ReadCommitted

/-! ## The rows of audit runs -/

structure AuditRun where
  id : String
  invoiceId : String

structure VarianceFinding where
  id : String
  auditRunId : String
  criterionId : String
  ruleVersionId : ℕ
  evaluatedExpr : Value
  classification : Option String
  status : VarianceStatus

structure GateFailure where
  id : String
  auditRunId : String
  criterionId : String
  ruleVersionId : ℕ
  evaluatedExpr : Value
  defect : String
  citation : Option String

structure ChargeFinding where
  auditRunId : String
  ruleVersionId : ℕ

structure ChargeFact where
  id : String
  invoiceId : String
  code : Option String
  x12Element : Option String
  category : Option String

structure CoverageMarker where
  id : String
  auditRunId : String
  chargeIndex : ℕ
  markerCode : String
  missingFields : List String

/-! ## Triggers -/

/-- The row a trigger is about; it has at most one. -/
inductive TriggerSource where
  | varianceFinding (id : String)
  | gateFailure (id : String)
  | chargeFact (id : String)
  | coverageMarker (id : String)
  deriving DecidableEq

inductive SourceDetail where
  | finding (classification : Option String) (status : VarianceStatus)
  | gate (defect : String) (citation : Option String)
  deriving DecidableEq

inductive TriggerContent where
  | unassessableResult (criterionId : String) (ruleVersionId : ℕ) (evaluatedExprHash : String) (detail : SourceDetail)
  | unknownChargeCode (sourceCode x12Element : Option String)
  | suspiciousPass (markerCode : String) (chargeIndex : ℕ) (missingFields : List String)
  deriving DecidableEq

structure Trigger where
  id : ℕ
  auditRunId : String
  source : TriggerSource
  content : TriggerContent
  deriving DecidableEq

/-- The rows of the three trigger tables. -/
abbrev TriggerTable := KeyedTable Trigger Trigger.source

/-- What the fallback of an insert compares with the row that is there, besides its source. -/
def fallback (content value : TriggerContent) : Bool :=
  match value with
  | .unassessableResult .. => content = value
  | _ => true

/-- The id of the trigger, `true` where it is new; `none` where another one is there. -/
def insertIdempotent (table : TriggerTable) (auditRunId : String) (source : TriggerSource) (content : TriggerContent) :
    Option (ℕ × Bool × TriggerTable) := do
  let (created, table) ← table.record (fun row value => fallback row.content value.content)
    ⟨table.rows.length, auditRunId, source, content⟩
  let row ← table.find? source
  return (row.id, created, table)

/-- The triggers of the sources, one after the other, with how many are new. -/
def insertTriggers (auditRunId : String) : List (TriggerSource × TriggerContent) → TriggerTable →
    Option (List ℕ × ℕ × TriggerTable)
  | [], table => some ([], 0, table)
  | (source, content) :: rest, table => do
    let (id, created, table) ← insertIdempotent table auditRunId source content
    let (ids, createdCount, table) ← insertTriggers auditRunId rest table
    return (id :: ids, (if created then 1 else 0) + createdCount, table)

/-! ## The database -/

inductive Detector where
  | unassessable
  | unknownChargeCode
  | suspiciousPass
  deriving DecidableEq

/-- The last part of the id of the detector's event. -/
def Detector.text : Detector → String
  | .unassessable => "unassessable-discovery" | .unknownChargeCode => "unknown-charge-code-discovery"
  | .suspiciousPass => "suspicious-pass-discovery"

inductive DiscoveryDetail where
  | detected (detector : Detector) (triggerIds : List ℕ)
  | findingStatusChanged (findingId : String) (fromStatus toStatus : VarianceStatus) (note actorUserId : Option String)
  deriving DecidableEq

def DiscoveryDetail.name : DiscoveryDetail → String
  | .detected detector _ => detector.text
  | .findingStatusChanged .. => "finding.status_changed"

/-- What audit runs leave and nothing changes. -/
structure AuditRecord where
  auditRuns : KeyedTable AuditRun AuditRun.id
  gateFailures : KeyedTable GateFailure GateFailure.id
  chargeFindings : List ChargeFinding
  chargeFacts : KeyedTable ChargeFact ChargeFact.id
  coverageMarkers : KeyedTable CoverageMarker CoverageMarker.id
  gated : ∀ g ∈ gateFailures.rows, (auditRuns.find? g.auditRunId).isSome
  charged : ∀ c ∈ chargeFindings, (auditRuns.find? c.auditRunId).isSome

structure DiscoveryDb extends AuditRecord where
  varianceFindings : KeyedTable VarianceFinding VarianceFinding.id
  triggers : TriggerTable
  auditEvents : NamedEvent.Log DiscoveryDetail
  contracts : Contracts.Db

inductive DiscoveryError where
  | auditRunNotFound
  | triggerConflict
  | auditEventConflict
  | contracts (e : ContractsError)

/-! ## Detectors -/

section

variable (sha256 : String → String)

/-- The hash of the evaluated expression, as `stableStringify` writes it. -/
def exprHash (evaluatedExpr : Value) : String := sha256 (String.ofList (canonicalText evaluatedExpr))

def VarianceFinding.content (f : VarianceFinding) : TriggerContent :=
  .unassessableResult f.criterionId f.ruleVersionId (exprHash sha256 f.evaluatedExpr) (.finding f.classification f.status)

def GateFailure.content (g : GateFailure) : TriggerContent :=
  .unassessableResult g.criterionId g.ruleVersionId (exprHash sha256 g.evaluatedExpr) (.gate g.defect g.citation)

def ChargeFact.content (c : ChargeFact) : TriggerContent := .unknownChargeCode c.code c.x12Element

def CoverageMarker.content (m : CoverageMarker) : TriggerContent :=
  .suspiciousPass m.markerCode m.chargeIndex m.missingFields

/-- The unassessable findings of a run. -/
def unassessableFindings (db : DiscoveryDb) (auditRunId : String) : List VarianceFinding :=
  db.varianceFindings.rows.filter fun f => f.auditRunId = auditRunId ∧ f.classification = some "unassessable"

def unassessableGates (db : DiscoveryDb) (auditRunId : String) : List GateFailure :=
  db.gateFailures.rows.filter fun g =>
    g.auditRunId = auditRunId ∧ LikePattern.like "% (unassessable)" g.defect = some true

/-- `ORDER BY source_kind, id`. -/
def unassessableSources (db : DiscoveryDb) (auditRunId : String) : List (TriggerSource × TriggerContent) :=
  ((unassessableGates db auditRunId).insertionSort fun a b => a.id ≤ b.id).map
    (fun g => (.gateFailure g.id, g.content sha256)) ++
  ((unassessableFindings db auditRunId).insertionSort fun a b => a.id ≤ b.id).map
    fun f => (.varianceFinding f.id, f.content sha256)

def unknownChargeCodeSources (db : DiscoveryDb) (invoiceId : String) : List (TriggerSource × TriggerContent) :=
  ((db.chargeFacts.rows.filter fun c => c.invoiceId = invoiceId ∧ c.category = none).insertionSort
    fun a b => a.id ≤ b.id).map fun c => (.chargeFact c.id, c.content)

/-- `ORDER BY charge_index, marker_code`. -/
def suspiciousPassSources (db : DiscoveryDb) (auditRunId : String) : List (TriggerSource × TriggerContent) :=
  ((db.coverageMarkers.rows.filter fun m => m.auditRunId = auditRunId).insertionSort fun a b =>
    a.chargeIndex < b.chargeIndex ∨ a.chargeIndex = b.chargeIndex ∧ a.markerCode ≤ b.markerCode).map
      fun m => (.coverageMarker m.id, m.content)

def Detector.sources (detector : Detector) (db : DiscoveryDb) (run : AuditRun) : List (TriggerSource × TriggerContent) :=
  match detector with
  | .unassessable => unassessableSources sha256 db run.id
  | .unknownChargeCode => unknownChargeCodeSources db run.invoiceId
  | .suspiciousPass => suspiciousPassSources db run.id

structure Detected where
  triggerIds : List ℕ
  createdCount : ℕ

/-- What the three detectors do with their sources. -/
def Detector.detect (detector : Detector) (clientId : ℕ) (db : DiscoveryDb) (auditRunId : String) :
    Except DiscoveryError (Detected × DiscoveryDb) := do
  let some run := db.auditRuns.find? auditRunId | throw .auditRunNotFound
  let some (triggerIds, createdCount, triggers) := insertTriggers auditRunId (detector.sources sha256 db run) db.triggers
    | throw .triggerConflict
  let some auditEvents := db.auditEvents.write sha256 DiscoveryDetail.name (toString clientId) auditRunId (.detected detector triggerIds)
    | throw .auditEventConflict
  return (⟨triggerIds, createdCount⟩, { db with triggers, auditEvents })

variable (clientId : ℕ)

def detectUnassessableTriggers := Detector.unassessable.detect sha256 clientId
def detectUnknownChargeCodeTriggers := Detector.unknownChargeCode.detect sha256 clientId
def detectSuspiciousPassTriggers := Detector.suspiciousPass.detect sha256 clientId

/-! ## Amendments -/

/-- The runs with a finding or a failure that cites one of the versions. -/
def affectedAuditRunIds (db : DiscoveryDb) (ruleVersionIds : List ℕ) : List String :=
  ((((db.chargeFindings.filter fun c => ruleVersionIds.contains c.ruleVersionId).map ChargeFinding.auditRunId ++
    (db.gateFailures.rows.filter fun g => ruleVersionIds.contains g.ruleVersionId).map GateFailure.auditRunId).dedup
      ).insertionSort (· ≤ ·))

/-- The three detectors on each of the runs, with how many triggers are new. -/
def detectAll : List String → DiscoveryDb → Except DiscoveryError (ℕ × DiscoveryDb)
  | [], db => return (0, db)
  | auditRunId :: rest, db => do
    let (unassessable, db) ← detectUnassessableTriggers sha256 clientId db auditRunId
    let (unknownChargeCode, db) ← detectUnknownChargeCodeTriggers sha256 clientId db auditRunId
    let (suspiciousPass, db) ← detectSuspiciousPassTriggers sha256 clientId db auditRunId
    let (triggersCreated, db) ← detectAll rest db
    return (unassessable.createdCount + unknownChargeCode.createdCount + suspiciousPass.createdCount + triggersCreated, db)

structure RerunDiscoveryForAmendmentResult where
  transitions : List AmendedRuleTransition
  affectedAuditRunIds : List String
  triggersCreated : ℕ

variable (collation : String → String → Ordering)

/-- The retirement on the committed rows, with the rows after it; `tx` numbers the ids that it draws. -/
def retire (contracts : Contracts.Db) (tx amendmentId : ℕ) : Except ContractsError (List AmendedRuleTransition × Contracts.Db) :=
  match alone append contracts (retireAmendedRules collation tx ⟨clientId, amendmentId⟩) .empty with
  | .ok (transitions, log) => return (transitions, contracts ++ log.writes)
  | .error e => throw e

def rerunDiscoveryForAmendment (db : DiscoveryDb) (tx amendmentId : ℕ) :
    Except DiscoveryError (RerunDiscoveryForAmendmentResult × DiscoveryDb) := do
  let (transitions, contracts) ← (retire clientId collation db.contracts tx amendmentId).mapError .contracts
  let db := { db with contracts }
  let oldRuleVersionIds := (transitions.map AmendedRuleTransition.oldRuleVersionId).dedup
  if oldRuleVersionIds = [] then return (⟨transitions, [], 0⟩, db)
  let affected := affectedAuditRunIds db oldRuleVersionIds
  let (triggersCreated, db) ← detectAll sha256 clientId affected db
  return (⟨transitions, affected, triggersCreated⟩, db)

/-! ## Findings -/

def VarianceFinding.withStatus (findingId : String) (toStatus : VarianceStatus) (f : VarianceFinding) : VarianceFinding :=
  if f.id = findingId then { f with status := toStatus } else f

theorem VarianceFinding.withStatus_id (findingId : String) (toStatus : VarianceStatus) (f : VarianceFinding) :
    (f.withStatus findingId toStatus).id = f.id := by
  unfold VarianceFinding.withStatus
  split
  · rfl
  · rfl

/-- `statusEventId` is the id the database gives the status event. -/
def updateFindingStatus (db : DiscoveryDb) (findingId : String) (toStatus : VarianceStatus) (note actorUserId : Option String)
    (statusEventId : String) : Except DiscoveryError DiscoveryDb :=
  match db.varianceFindings.find? findingId with
  | none => return db
  | some finding =>
    match db.auditEvents.write sha256 DiscoveryDetail.name (toString clientId) statusEventId
      (.findingStatusChanged finding.id finding.status toStatus note actorUserId) with
    | none => throw .auditEventConflict
    | some auditEvents => return { db with
        varianceFindings := db.varianceFindings.update (.withStatus findingId toStatus)
          (VarianceFinding.withStatus_id findingId toStatus)
        auditEvents }

end

end Discovery
