import FreightAuditor.Evaluator.EvaluateInvoice
import FreightAuditor.Library.KeyedTable
import FreightAuditor.RuleEngine.Lifecycle

/- Which rule version a finding cites.

   `seedCriteria` records a version for every definition of the rubrics whose hash the rule
   does not have yet; transitions record successors; and a run evaluates the rubric it is
   given, but cites the version of the rule that was recorded last, in whatever state it is.
   So findings cite the rule that judged them exactly if, whenever a run cites a criterion,
   the version recorded last is ACTIVE and has the definition that the run evaluated
   (`citesTheJudge_iff`). -/
namespace Citations

open DecimalJs Evaluator ExceptOk Ingestion JsText RubricResolver RuleEngine

/-! ## The tables -/

structure CriterionRow where
  id : ℕ
  criterionKey : String
  kind : CriterionKind

structure CriterionVersionRow where
  criterionId : ℕ
  description : String

structure RuleRow where
  id : ℕ
  slug : String
  ruleType : RuleType

inductive FindingTable where
  | gate_failure | charge_finding | variance_finding
  deriving DecidableEq

/-- A row of one of the three tables, with the key of its criterion. -/
structure FindingRow where
  table : FindingTable
  criterionKey : String
  criterionId : ℕ
  ruleVersionId : ℕ
  clauseId : Option ℕ
  evaluatedExpr : EvalNode

/-- What a run stores: the rows, and the rule versions of its manifest with their hashes. -/
structure PersistedRun where
  rows : List FindingRow
  ruleVersions : List (ℕ × String)

structure CitationDb where
  criteria : KeyedTable CriterionRow CriterionRow.criterionKey
  criterionVersions : List CriterionVersionRow
  rules : KeyedTable RuleRow RuleRow.slug
  store : RuleStore
  runs : List PersistedRun

def CitationDb.initial (start : ℤ) : CitationDb := ⟨.empty, [], .empty, .empty start, []⟩

section

variable (D : Type) [Decimal D] (unicode : Unicode) (sha256 : String → String)
  /- `CURRENT_DATE` in a transaction started at this time. -/
  (currentDate : ℤ → ℤ)

/-! ## Seeding -/

def astHash (ast : AstNode) : String := sha256 (String.ofList (Json.canonicalText ast.toJson))

def ruleSlug (criterionKey : String) : String :=
  String.ofList ((unicode.toLowerCase criterionKey).toList.map fun c => if c = '.' then '-' else c)

def RULE_TYPE_BY_CRITERION_KEY : List (String × RuleType) := [
  ("STD.FOOTING", .STRUCTURAL),
  ("STD.CURRENCY_STATED", .STRUCTURAL),
  ("STD.AMOUNT_STATED", .STRUCTURAL),
  ("STD.HAS_CHARGES", .STRUCTURAL),
  ("STD.210.INVOICE_NUMBER_REQUIRED", .STRUCTURAL),
  ("STD.210.SHIPMENT_ID_REQUIRED", .STRUCTURAL),
  ("STD.210.SCAC_REQUIRED", .STRUCTURAL),
  ("STD.310.INVOICE_NUMBER_REQUIRED", .STRUCTURAL),
  ("STD.310.REFERENCE_REQUIRED", .STRUCTURAL),
  ("STD.310.CONTAINER_REQUIRED", .STRUCTURAL),
  ("STD.310.VESSEL_VOYAGE_REQUIRED", .STRUCTURAL),
  ("STD.310.PORTS_REQUIRED", .STRUCTURAL),
  ("STD.310.CHARGE_IDENTITY_REQUIRED", .INTRA_LINE),
  ("STD.310.CURRENCY_CODE_VALID", .INTRA_LINE),
  ("STD.NO_QUARANTINED_CODES", .INTRA_LINE),
  ("STD.FUEL_PRESENT", .INTRA_LINE),
  ("STD.DUPLICATE_INVOICE", .CROSS_DOCUMENT),
  ("STD.SHIPMENT_REFERENCE_MATCH", .CROSS_DOCUMENT),
  ("STD.RATE_BASIS_ARITHMETIC", .INTRA_LINE),
  ("STD.310.CURRENCY_CONSISTENCY", .INTRA_LINE),
  ("STD.SUSPICIOUS_MISSING_DATA", .INTRA_LINE),
  ("CONTRACT.RATE_VARIANCE", .CONTRACT_CONFORMANCE)]

/-- `none` where it throws. -/
def ruleTypeFor (criterionKey : String) : Option RuleType := RULE_TYPE_BY_CRITERION_KEY.lookup criterionKey

/-- `byKey.set(c.criterionKey, c)`: in place where the key is there. -/
def setByKey (byKey : List StandardCriterion) (c : StandardCriterion) : List StandardCriterion :=
  if byKey.any (·.criterionKey = c.criterionKey) then
    byKey.map fun d => if d.criterionKey = c.criterionKey then c else d
  else byKey ++ [c]

/-- A new version of the criterion where the description has changed. -/
def insertCriterionVersion (criterionId : ℕ) (description : String) (db : CitationDb) : CitationDb :=
  if ((db.criterionVersions.filter (·.criterionId = criterionId)).getLast?.map CriterionVersionRow.description)
      = some description then db
  else { db with criterionVersions := db.criterionVersions ++ [⟨criterionId, description⟩] }

def seededContent (now : ℤ) (ruleId : ℕ) (c : StandardCriterion) : RuleContent where
  ruleId := ruleId
  hardness := .FIRM_RULE
  ast := c.ast.toJson
  astHash := astHash sha256 c.ast
  expectedInputs := .arr []
  emits := if c.criterionKey = "CONTRACT.RATE_VARIANCE" then .DOLLAR_VARIANCE else .PASS_FAIL
  provenance := []
  clauseId := none
  validFrom := currentDate now
  validTo := none

/-- The version of the rule, unless it has one with this hash. -/
def insertSeededVersion (now : ℤ) (ruleId : ℕ) (c : StandardCriterion) (db : CitationDb) : CitationDb :=
  if db.store.versions.any fun v => v.ruleId = ruleId ∧ v.astHash = astHash sha256 c.ast then db
  else
    { db with
      store := { insertVersion id now db.store (seededContent sha256 currentDate now ruleId c) .ACTIVE with clock := now } }

/-- One criterion, whose version is recorded some time after what was recorded last. The error is the database that a
throw leaves behind. -/
def seedCriterion (db : CitationDb) (timed : StandardCriterion × ℕ) : Except CitationDb CitationDb := do
  let c := timed.1
  -- `ON CONFLICT ... DO UPDATE ... RETURNING id` changes nothing in the row that is there
  let (criterion, criteria) := db.criteria.getOrInsert ⟨db.criteria.rows.length, c.criterionKey, c.kind⟩
  let db := insertCriterionVersion criterion.id c.description { db with criteria }
  match ruleTypeFor c.criterionKey with
  | none => throw db
  | some ruleType =>
    let (rule, rules) := db.rules.getOrInsert ⟨db.rules.rows.length, ruleSlug unicode c.criterionKey, ruleType⟩
    return insertSeededVersion sha256 currentDate (db.store.clock + 1 + timed.2) rule.id c { db with rules }

/-- Every statement is its own transaction. `waits` are the times between them. -/
def seedCriteria (standardRubric contractRubric : ComposedRubric) (waits : List ℕ) (db : CitationDb) : CitationDb :=
  let byKey := (standardRubric.criteria ++ contractRubric.criteria).foldl setByKey []
  match (byKey.zipIdx.map fun c => (c.1, waits.getD c.2 0)).foldlM (seedCriterion unicode sha256 currentDate) db with
  | .ok db => db
  | .error db => db

/-! ## Citing -/

structure ResolvedCriterionIds where
  criterionId : ℕ
  ruleVersionId : ℕ
  clauseId : Option ℕ

-- the computable order of the integers, where the complete one is in scope too
local instance (priority := 2000) instPreorderCited : Preorder ℤ := Int.instLinearOrder.toPreorder

/-- `ORDER BY rule_version.recorded_at DESC LIMIT 1`. -/
def latestVersion (db : CitationDb) (ruleSlug : String) : Option RuleVersion :=
  (db.rules.find? ruleSlug).bind fun rule =>
    (db.store.versions.filter (·.ruleId = rule.id)).argmax fun v => v.recordedAt

def resolveCriterionIds (db : CitationDb) (criterionKey : String) : Option ResolvedCriterionIds := do
  let criterion ← db.criteria.find? criterionKey
  let version ← latestVersion db (ruleSlug unicode criterionKey)
  return ⟨criterion.id, version.id, version.clauseId⟩

inductive CitationError where
  | decimal (error : DecimalError)
  | findingReference (criterionKey : String)
  deriving DecidableEq

/-- The rows for an item that was judged. -/
def findingRow (db : CitationDb) (criterionKey : String) (evaluatedExpr : EvalNode) (table : FindingTable) :
    Except CitationError FindingRow :=
  match resolveCriterionIds unicode db criterionKey with
  | none => throw (.findingReference criterionKey)
  | some resolved => return ⟨table, criterionKey, resolved.criterionId, resolved.ruleVersionId, resolved.clauseId, evaluatedExpr⟩

/-- `SELECT id, ast_hash FROM rule_version WHERE id = ANY(...) ORDER BY id`. -/
def rulePins (db : CitationDb) (ruleVersionIds : List ℕ) : List (ℕ × String) :=
  ((db.store.versions.filter fun v => v.id ∈ ruleVersionIds).insertionSort fun v w => v.id ≤ w.id).map
    fun v => (v.id, v.astHash)

/-- The references of every criterion are looked up once, before the rows are written; nothing changes them in between. -/
def persistAuditRun (db : CitationDb) (result : AuditResult) : Except CitationError CitationDb := do
  let gateFailures ← result.gateFailures.mapM fun g => findingRow unicode db g.criterionKey g.evaluatedExpr .gate_failure
  let chargeFindings ← result.findings.mapM fun f => findingRow unicode db f.criterionKey f.evaluatedExpr .charge_finding
  let varianceFindings ← (result.findings.filter fun f => f.result ≠ .CONFORMED).mapM fun f =>
    findingRow unicode db f.criterionKey f.evaluatedExpr .variance_finding
  let rows := gateFailures ++ chargeFindings ++ varianceFindings
  return { db with runs := db.runs ++ [⟨rows, rulePins db (rows.map FindingRow.ruleVersionId)⟩] }

/-! ## Histories -/

inductive CitationEvent where
  | seed (standardRubric contractRubric : ComposedRubric) (waits : List ℕ)
  | transition (wait : ℕ) (input : TransitionInput)
  | audit (rubric : ComposedRubric) (invoice : ParsedInvoice) (contract : Option ContractFacts)

def auditInvoice (db : CitationDb) (rubric : ComposedRubric) (invoice : ParsedInvoice) (contract : Option ContractFacts) :
    Except CitationError CitationDb := do
  let result ← (evaluateInvoice D unicode sha256 invoice rubric contract).mapError .decimal
  persistAuditRun unicode db result

/-- What throws is rolled back, but for a seeding. -/
def citationStep (db : CitationDb) : CitationEvent → Option CitationDb
  | .seed standardRubric contractRubric waits =>
    some (seedCriteria unicode sha256 currentDate standardRubric contractRubric waits db)
  | .transition wait input =>
    let now := db.store.clock + 1 + wait
    (transitionRuleLifecycle id now db.store input).toOption.map fun out => { db with store := { out.1 with clock := now } }
  | .audit rubric invoice contract => (auditInvoice D unicode sha256 db rubric invoice contract).toOption

end

end Citations
