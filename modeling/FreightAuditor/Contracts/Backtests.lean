import Mathlib.Data.List.Sort
import FreightAuditor.Contracts.Tables

/- Backtests of proposals.

   A corpus of cases is run against the proposals of a contract version: every case gives
   a verdict, and the backtest passes if each verdict is the expected one. A corpus that
   was run before is found again under its hash. -/
namespace Contracts

open AppendOnly DecimalJs JsText ReadCommitted
open Claims (AuditEventEvidence deterministicAuditEventId sameEvidence)
open RuleEngine (AstNode EvalNode EvalValue FactBundle FactValue LifecycleError RuleLifecycle Verdict evaluate verdict)

/-- What the operations on proposals and rules throw. -/
inductive ContractsError where
  | schema
  | proposalBacktest (code : String)
  | proposalAcceptance (code : String)
  | proposalRatification (code : String)
  | lifecycle (error : LifecycleError)
  | decimal (error : DecimalError)
  | auditEventConflict
  | amendmentNotFound (id : ℕ)
  | amendmentUnlinked
  | replacementUnresolved
  /-- A statement the database refuses. -/
  | database (constraint : String)
  deriving DecidableEq

abbrev Statement (R : Type) := Prog Db Row Key ContractsError R

/-- A plain insert, or one with a conflict target. -/
def insertRow (target : List Key) (row : Row) : Statement Bool :=
  insertUnless Row.keys target (.database "unique index") row

/-- `insertIdempotent`: the id inserted, or the one that `fallback` selects. -/
def insertIdempotent (target : List Key) (id : ℕ) (row : Row) (fallback : Db → Option ℕ) :
    Statement (Option (ℕ × Bool)) :=
  insertOr Row.keys target (.database "unique index") row (fun db => .ok ((fallback db).map (·, false)))
    (some (id, true))

/-- Insert the event, or find it there with the same evidence. -/
def writeAuditEvent (startedAt id : ℕ) (value : AuditEventEvidence) : Statement Bool :=
  insertOr Row.keys [.auditEventId id] (.database "unique index")
    (.auditEvent { value with id := id, recordedAt := startedAt })
    (fun db =>
      if (auditEvents db).any fun e => e.id == id && sameEvidence e.toAuditEventEvidence value then .ok false
      else .error .auditEventConflict) true

def idText (id : ℕ) : Json.Value := .str (toString id)

/-! ## As JSON -/

def verdictText : Verdict → String
  | .PASS => "PASS" | .FAIL => "FAIL" | .UNASSESSABLE => "UNASSESSABLE"

def factJson : FactValue → Json.Value
  | .number n => .ofNumber n
  | .string s => .str s
  | .boolean b => .bool b
  | .money amount currency => .obj [("amount", .str amount), ("currency", .str currency)]
  | .decimal text => .obj [("decimal", .str text)]

def valueJson : EvalValue → Json.Value
  | .number value => .obj [("kind", .str "number"), ("value", .str value)]
  | .money amount currency => .obj [("kind", .str "money"), ("amount", .str amount), ("currency", .str currency)]
  | .bool value => .obj [("kind", .str "bool"), ("value", .bool value)]
  | .string value => .obj [("kind", .str "string"), ("value", .str value)]
  | .unassessable reason => .obj [("kind", .str "unassessable"), ("reason", .str reason)]

mutual

def evalNodeJson : EvalNode → Json.Value
  | .leaf node value => .obj [("node", node.toJson), ("value", valueJson value)]
  | .branch node value children =>
    .obj [("node", node.toJson), ("value", valueJson value), ("children", .arr (evalNodesJson children))]

def evalNodesJson : List EvalNode → List Json.Value
  | [] => []
  | ev :: rest => evalNodeJson ev :: evalNodesJson rest

end

/-! ## The corpus -/

def PROPOSAL_BACKTEST_CORPUS_SCHEMA_VERSION : String := "contract-proposal-backtest/1"

def PROPOSABLE_FACT_KEYS : List String :=
  ["all_amounts_stated", "all_currencies_stated", "billed_linehaul", "charge_count",
    "consistent_310_charge_currencies", "contract_linehaul_rate", "duplicate_invoice", "has_fuel_category",
    "line_sum", "linehaul_currencies_match", "quarantined_count", "rate_basis_arithmetic_matches",
    "shipment_reference_match", "suspicious_missing_data_count"]

structure BacktestCase where
  caseKey : String
  facts : List (String × FactValue)
  expectedVerdict : Verdict

structure BacktestInput where
  clientId : ℕ
  verifiedContractVersionId : ℕ
  actorUserId : ℕ
  corpusSchemaVersion : String
  proposals : List (ℕ × List BacktestCase)

/-- Of bounded length, and not empty. -/
def boundedText (max : ℕ) (text : String) : Bool := 1 ≤ length text && length text ≤ max

/-- `factValue`, with the currency trimmed. -/
def parseFactValue : FactValue → Option FactValue
  | .number (.fin n) => some (.number (.fin n))
  | .number _ => none
  | .string s => if length s ≤ 4000 then some (.string s) else none
  | .boolean b => some (.boolean b)
  | .money amount currency =>
    if length amount ≤ 100 && boundedText 10 (trim currency) then some (.money amount (trim currency)) else none
  | .decimal text => if length text ≤ 100 then some (.decimal text) else none

def parseFact (fact : String × FactValue) : Option (String × FactValue) :=
  if fact.1 ∈ PROPOSABLE_FACT_KEYS then (parseFactValue fact.2).map (fact.1, ·) else none

def parseCase (c : BacktestCase) : Option BacktestCase := do
  let facts ← c.facts.mapM parseFact
  if boundedText 300 (trim c.caseKey) && (facts.map Prod.fst).Nodup then
    some ⟨trim c.caseKey, facts, c.expectedVerdict⟩
  else none

def parseProposalCases (p : ℕ × List BacktestCase) : Option (ℕ × List BacktestCase) := do
  let cases ← p.2.mapM parseCase
  if 1 ≤ cases.length && cases.length ≤ 10000 then some (p.1, cases) else none

/-- `inputSchema.parse`. -/
def parseBacktestInput (untrusted : BacktestInput) : Option BacktestInput := do
  let proposals ← untrusted.proposals.mapM parseProposalCases
  if untrusted.corpusSchemaVersion == PROPOSAL_BACKTEST_CORPUS_SCHEMA_VERSION && 1 ≤ proposals.length &&
      proposals.length ≤ 1000 then some { untrusted with proposals }
  else none

def factsJson (facts : List (String × FactValue)) : Json.Value := .obj (facts.map fun f => (f.1, factJson f.2))

structure CaseEvidence extends BacktestCase where
  actualVerdict : Verdict
  passed : Bool
  inputHash : String
  expectedHash : String
  actualHash : String
  evaluatedAst : Json.Value

/-- The bytes of a text as a number, modulo a prime. -/
def checksum (text : String) : ℕ :=
  text.toByteArray.data.toList.foldl (fun n byte => (256 * n + byte.toNat) % 2305843009213693951) 0

section

variable (sha256 : String → ℕ)

/-- The digest in hexadecimal. -/
def hash (value : Json.Value) : String :=
  String.ofList ((Nat.toDigits 16 (sha256 (String.ofList (Json.canonicalText value)))).leftpad 64 '0')

variable (D : Type) [Decimal D] (unicode : Unicode)

def caseEvidence (ast : AstNode) (c : BacktestCase) : Except ContractsError CaseEvidence := do
  let evaluatedAst ← (evaluate D (fun key => c.facts.lookup key) ast).mapError .decimal
  let actualVerdict := verdict evaluatedAst
  return ⟨c, actualVerdict, actualVerdict = c.expectedVerdict, hash sha256 (factsJson c.facts),
    hash sha256 (.str (verdictText c.expectedVerdict)), hash sha256 (evalNodeJson evaluatedAst),
    evalNodeJson evaluatedAst⟩

def evaluateProposalCorpus (ast : AstNode) (expectedInputs : List String) (cases : List BacktestCase) :
    Except ContractsError (List CaseEvidence) :=
  if ¬ (cases.map BacktestCase.caseKey).Nodup then .error (.proposalBacktest "DUPLICATE_CASE")
  else if cases.any fun c => c.facts.any fun f => f.1 ∉ expectedInputs then
    .error (.proposalBacktest "UNEXPECTED_FACT")
  else (cases.mergeSort fun a b => unicode.localeCompare a.caseKey b.caseKey != .gt).mapM (caseEvidence sha256 D ast)

/-! ## The statements -/

def corpusJson (corpusSchemaVersion : String) (proposal : ContractRuleProposal) (evidence : List CaseEvidence) :
    Json.Value :=
  .obj [("schemaVersion", .str corpusSchemaVersion), ("proposalHash", .str proposal.proposalHash),
    ("astHash", .str proposal.astHash), ("cases", .arr (evidence.map fun item =>
      .obj [("caseKey", .str item.caseKey), ("inputHash", .str item.inputHash),
        ("expectedHash", .str item.expectedHash)]))]

/-- The row a retry has to find. -/
def sameBacktest (a b : ContractRuleProposalBacktest) : Bool :=
  a.accountId == b.accountId && a.proposalId == b.proposalId && a.corpusHash == b.corpusHash &&
    a.proposalHash == b.proposalHash && a.astHash == b.astHash && a.passed == b.passed &&
    a.passCount == b.passCount && a.regressionCount == b.regressionCount && a.actorUserId == b.actorUserId

def caseRow (clientId backtestId : ℕ) (item : CaseEvidence) : ContractRuleProposalBacktestCase where
  accountId := clientId
  backtestId := backtestId
  caseKey := item.caseKey
  facts := factsJson item.facts
  expectedVerdict := item.expectedVerdict
  actualVerdict := item.actualVerdict
  passed := item.passed
  inputHash := item.inputHash
  expectedHash := item.expectedHash
  actualHash := item.actualHash
  evaluatedAst := item.evaluatedAst

/-- Every column, the JSON ones as `jsonb`. -/
def sameCase (a b : ContractRuleProposalBacktestCase) : Bool :=
  a.accountId == b.accountId && a.backtestId == b.backtestId && a.caseKey == b.caseKey &&
    Json.canonicalText a.facts == Json.canonicalText b.facts && a.expectedVerdict == b.expectedVerdict &&
    a.actualVerdict == b.actualVerdict && a.passed == b.passed && a.inputHash == b.inputHash &&
    a.expectedHash == b.expectedHash && a.actualHash == b.actualHash &&
    Json.canonicalText a.evaluatedAst == Json.canonicalText b.evaluatedAst

def recordCase (clientId backtestId : ℕ) (item : CaseEvidence) : Statement PUnit := do
  let row := caseRow clientId backtestId item
  let inserted ← insertRow [.backtestCase clientId backtestId item.caseKey] (.backtestCase row)
  if inserted then return ⟨⟩
  else
    let found ← .query fun db => (backtestCases db).any (sameCase · row)
    if found then return ⟨⟩ else .fail (.proposalBacktest "PARTIAL_CONFLICT")

/-- One proposal's part of the result. -/
structure BatchEvidence where
  proposalId : ℕ
  corpusHash : String
  backtestId : ℕ
  passed : Bool
  created : Bool

def BatchEvidence.toJson (e : BatchEvidence) : Json.Value :=
  .obj [("proposalId", idText e.proposalId), ("corpusHash", .str e.corpusHash), ("backtestId", idText e.backtestId),
    ("passed", .bool e.passed)]

def backtestRow (id : ℕ) (input : BacktestInput) (proposal : ContractRuleProposal) (evidence : List CaseEvidence) :
    ContractRuleProposalBacktest where
  id := id
  accountId := input.clientId
  proposalId := proposal.id
  corpusSchemaVersion := input.corpusSchemaVersion
  corpusHash := hash sha256 (corpusJson input.corpusSchemaVersion proposal evidence)
  proposalHash := proposal.proposalHash
  astHash := proposal.astHash
  passed := (evidence.filter (!·.passed)).length == 0
  passCount := evidence.length - (evidence.filter (!·.passed)).length
  regressionCount := (evidence.filter (!·.passed)).length
  actorUserId := input.actorUserId

/-- The backtest under this id, or the one that is there. -/
def recordBacktest (row : ContractRuleProposalBacktest) : Statement (ℕ × Bool) := do
  let inserted ← insertRow [.corpus row.accountId row.proposalId row.corpusHash] (.backtest row)
  if inserted then return (row.id, true)
  else
    let existing ← .query fun db => ((backtests db).find? (sameBacktest · row)).map ContractRuleProposalBacktest.id
    match existing with
    | none => .fail (.proposalBacktest "PARTIAL_CONFLICT")
    | some id => return (id, false)

/-- The `k`-th proposal of the batch. -/
def backtestProposal (tx : ℕ) (input : BacktestInput) (entry : ContractRuleProposal × ℕ) :
    Statement BatchEvidence := do
  let proposal := entry.1
  if hash sha256 proposal.ast.toJson ≠ proposal.astHash then .fail (.proposalBacktest "PROPOSAL_CHANGED")
  else
    let evidence ← .ofExcept (evaluateProposalCorpus sha256 D unicode proposal.ast proposal.expectedInputs
      ((input.proposals.lookup proposal.id).getD []))
    let row := backtestRow sha256 (newId tx entry.2) input proposal evidence
    let (backtestId, created) ← recordBacktest row
    evidence.forM (recordCase input.clientId backtestId)
    return ⟨proposal.id, row.corpusHash, backtestId, row.passed, created⟩

def backtestBatch (tx : ℕ) (input : BacktestInput) : List (ContractRuleProposal × ℕ) → Statement (List BatchEvidence)
  | [] => return []
  | entry :: rest => do
    let e ← backtestProposal sha256 D unicode tx input entry
    let es ← backtestBatch tx input rest
    return e :: es

def batchHash (batch : List BatchEvidence) : String :=
  hash sha256 (.arr (batch.map fun e => .obj [("proposalId", idText e.proposalId), ("corpusHash", .str e.corpusHash)]))

structure BacktestResult where
  backtestIds : List ℕ
  proposalCount : ℕ
  passed : Bool
  createdCount : ℕ

/-- The tenant's proposals of a contract version, in the order of their ids. -/
def proposalsOf (db : Db) (clientId verifiedContractVersionId : ℕ) : List ContractRuleProposal :=
  ((proposals db).filter fun p => p.accountId = clientId ∧
    p.verifiedContractVersionId = verifiedContractVersionId).mergeSort fun a b => a.id ≤ b.id

def backtestContractRuleProposals (tx startedAt : ℕ) (untrusted : BacktestInput) : Statement BacktestResult :=
  match parseBacktestInput untrusted with
  | none => .fail .schema
  | some input =>
    let suppliedIds := input.proposals.map Prod.fst
    if ¬ suppliedIds.Nodup then .fail (.proposalBacktest "DUPLICATE_PROPOSAL")
    else do
      let rows ← .query fun db => proposalsOf db input.clientId input.verifiedContractVersionId
      if rows.length ≠ suppliedIds.length ∨ rows.any (·.id ∉ suppliedIds) then
        .fail (.proposalBacktest "PROPOSAL_SET_MISMATCH")
      else
        let batch ← backtestBatch sha256 D unicode tx input rows.zipIdx
        let passed := batch.all BatchEvidence.passed
        let _ ← writeAuditEvent startedAt
          (deterministicAuditEventId sha256 [toString input.clientId, toString input.verifiedContractVersionId,
            batchHash sha256 batch, "contract_rule_proposals.backtested"])
          { clientId := some input.clientId
            entity := "contract_rule_proposals"
            entityId := some input.verifiedContractVersionId
            event := "backtested"
            actorKind := .analyst
            actorUserId := some input.actorUserId
            ruleVersionId := none
            rubricSnapshotId := none
            detail := some (.obj [("corpusSchemaVersion", .str input.corpusSchemaVersion),
              ("batchHash", .str (batchHash sha256 batch)), ("proposalCount", .ofNumber (.ofNat rows.length)),
              ("passed", .bool passed), ("backtests", .arr (batch.map BatchEvidence.toJson))]) }
        return ⟨batch.map BatchEvidence.backtestId, rows.length, passed, (batch.filter BatchEvidence.created).length⟩

end

end Contracts
