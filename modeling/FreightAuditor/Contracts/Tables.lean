import Mathlib.Data.Nat.Pairing
import FreightAuditor.Claims.Tables
import FreightAuditor.Library.AppendOnly
import FreightAuditor.RuleEngine.Interpreter
import FreightAuditor.RuleEngine.Lifecycle

/- The append-only tables between a contract and the rules derived from it.

   A row is tagged by its table, and the database is the sequence of all rows. Ids are
   numbers: `newId tx k` is the `k`-th id that transaction `tx` draws. `keys` lists the
   entries of a row in the primary keys and unique indexes that the operations rest on. -/
namespace Contracts

open AppendOnly ReadCommitted
open Claims (AuditEvent AuditEventEvidence sameEvidence)
open DecimalJs (DecimalError)
open RuleEngine (AstNode LifecycleError PromotionDirection RuleContent RuleHardness RuleLifecycle RuleType Verdict)

def newId (tx k : ℕ) : ℕ := Nat.pair tx k

/-! ## Rows -/

structure ContractClause where
  id : ℕ
  contractVersionId : ℕ
  clauseRef : String
  textExcerpt : Option String
  deriving DecidableEq

structure ContractAmendment where
  id : ℕ
  accountId : ℕ
  supersedesVersionId : Option ℕ
  newVersionId : Option ℕ
  deriving DecidableEq

structure ContractRuleProposal where
  id : ℕ
  accountId : ℕ
  verifiedContractVersionId : ℕ
  ruleType : RuleType
  ast : AstNode
  astHash : String
  expectedInputs : List String
  proposalHash : String

structure ContractRuleProposalClause where
  accountId : ℕ
  proposalId : ℕ
  contractClauseId : ℕ

structure Rule where
  id : ℕ
  slug : String
  ruleType : RuleType

structure RuleVersion extends RuleContent where
  id : ℕ
  lifecycleState : RuleLifecycle
  predecessorRuleVersionId : Option ℕ
  sourceContractRuleProposalId : Option ℕ
  sourceContractRuleProposalBacktestId : Option ℕ
  humanRatifiedBy : Option ℕ
  humanRatificationRationale : Option String

structure PromotionEvent where
  ruleVersionId : ℕ
  fromHardness : RuleHardness
  toHardness : RuleHardness
  fromLifecycle : RuleLifecycle
  toLifecycle : RuleLifecycle
  direction : PromotionDirection
  contractProposalBacktestId : Option ℕ
  rationale : String
  dualControlAnalystId : Option ℕ
  ruleBacktestId : Option ℕ

structure ContractRuleProposalBacktest where
  id : ℕ
  accountId : ℕ
  proposalId : ℕ
  corpusSchemaVersion : String
  corpusHash : String
  proposalHash : String
  astHash : String
  passed : Bool
  passCount : ℕ
  regressionCount : ℕ
  actorUserId : ℕ
  deriving DecidableEq

structure ContractRuleProposalBacktestCase where
  accountId : ℕ
  backtestId : ℕ
  caseKey : String
  facts : Json.Value
  expectedVerdict : Verdict
  actualVerdict : Verdict
  passed : Bool
  inputHash : String
  expectedHash : String
  actualHash : String
  evaluatedAst : Json.Value

structure ContractRuleProposalAcceptance where
  id : ℕ
  accountId : ℕ
  proposalId : ℕ
  backtestId : ℕ
  shadowRuleVersionId : ℕ
  acceptedBy : ℕ
  rationale : String
  deriving DecidableEq

structure ContractRuleProposalRatification where
  id : ℕ
  accountId : ℕ
  acceptanceId : ℕ
  proposalId : ℕ
  backtestId : ℕ
  shadowRuleVersionId : ℕ
  activeRuleVersionId : ℕ
  ratifiedBy : ℕ
  rationale : String
  deriving DecidableEq

inductive Row where
  | contractClause (row : ContractClause)
  | contractAmendment (row : ContractAmendment)
  | proposal (row : ContractRuleProposal)
  | proposalClause (row : ContractRuleProposalClause)
  | rule (row : Rule)
  | ruleVersion (row : RuleVersion)
  | promotionEvent (row : PromotionEvent)
  | backtest (row : ContractRuleProposalBacktest)
  | backtestCase (row : ContractRuleProposalBacktestCase)
  | acceptance (row : ContractRuleProposalAcceptance)
  | ratification (row : ContractRuleProposalRatification)
  | auditEvent (row : AuditEvent)

/-! ## Unique indexes -/

inductive Key where
  | contractClauseId (id : ℕ)
  | clauseRef (contractVersionId : ℕ) (clauseRef : String)
  | contractAmendmentId (id : ℕ)
  | proposalId (id : ℕ)
  | ruleId (id : ℕ)
  | slug (slug : String)
  | ruleVersionId (id : ℕ)
  /-- `rule_version_lifecycle_transition_idx`. -/
  | successor (predecessor : ℕ) (lifecycleState : RuleLifecycle)
  /-- `rule_version_contract_proposal_lifecycle_idx`. -/
  | derived (proposalId : ℕ) (lifecycleState : RuleLifecycle)
  | promotion (ruleVersionId : ℕ) (fromLifecycle toLifecycle : RuleLifecycle)
  | backtestId (id : ℕ)
  | corpus (accountId proposalId : ℕ) (corpusHash : String)
  | backtestCase (accountId backtestId : ℕ) (caseKey : String)
  | acceptanceId (id : ℕ)
  | accepted (accountId proposalId : ℕ)
  | acceptedShadow (accountId shadowRuleVersionId : ℕ)
  | ratificationId (id : ℕ)
  | ratified (accountId acceptanceId : ℕ)
  | ratifiedActive (accountId activeRuleVersionId : ℕ)
  | auditEventId (id : ℕ)
  deriving DecidableEq

def Row.keys : Row → List Key
  | .contractClause c => [.contractClauseId c.id, .clauseRef c.contractVersionId c.clauseRef]
  | .contractAmendment a => [.contractAmendmentId a.id]
  | .proposal p => [.proposalId p.id]
  | .proposalClause _ => []
  | .rule r => [.ruleId r.id, .slug r.slug]
  | .ruleVersion v =>
    [.ruleVersionId v.id] ++ (v.predecessorRuleVersionId.map (.successor · v.lifecycleState)).toList ++
      (v.sourceContractRuleProposalId.map (.derived · v.lifecycleState)).toList
  | .promotionEvent e => [.promotion e.ruleVersionId e.fromLifecycle e.toLifecycle]
  | .backtest b => [.backtestId b.id, .corpus b.accountId b.proposalId b.corpusHash]
  | .backtestCase c => [.backtestCase c.accountId c.backtestId c.caseKey]
  | .acceptance a => [.acceptanceId a.id, .accepted a.accountId a.proposalId,
      .acceptedShadow a.accountId a.shadowRuleVersionId]
  | .ratification r => [.ratificationId r.id, .ratified r.accountId r.acceptanceId,
      .ratifiedActive r.accountId r.activeRuleVersionId]
  | .auditEvent e => [.auditEventId e.id]

/-- Only a successor in the state has the key. -/
theorem successor_mem_keys {row : Row} {predecessor : ℕ} {state : RuleLifecycle}
    (h : .successor predecessor state ∈ row.keys) :
    ∃ v, row = .ruleVersion v ∧ v.predecessorRuleVersionId = some predecessor ∧ v.lifecycleState = state := by
  cases row with
  | ruleVersion v =>
    simp only [Row.keys, List.mem_append, List.mem_singleton, Option.mem_toList, Option.map_eq_some_iff, reduceCtorEq,
      and_false, exists_false, or_false, false_or, Key.successor.injEq] at h
    obtain ⟨p, hpred, rfl, hstate⟩ := h
    exact ⟨v, rfl, hpred, hstate⟩
  | _ => simp [Row.keys] at h

/-! ## Tables -/

abbrev Db := List Row

section

variable (db : Db)

def contractClauses : List ContractClause := db.filterMap fun
  | .contractClause c => some c
  | _ => none

def contractAmendments : List ContractAmendment := db.filterMap fun
  | .contractAmendment a => some a
  | _ => none

def proposals : List ContractRuleProposal := db.filterMap fun
  | .proposal p => some p
  | _ => none

def proposalClauses : List ContractRuleProposalClause := db.filterMap fun
  | .proposalClause c => some c
  | _ => none

def rules : List Rule := db.filterMap fun
  | .rule r => some r
  | _ => none

def ruleVersions : List RuleVersion := db.filterMap fun
  | .ruleVersion v => some v
  | _ => none

def backtests : List ContractRuleProposalBacktest := db.filterMap fun
  | .backtest b => some b
  | _ => none

def backtestCases : List ContractRuleProposalBacktestCase := db.filterMap fun
  | .backtestCase c => some c
  | _ => none

def acceptances : List ContractRuleProposalAcceptance := db.filterMap fun
  | .acceptance a => some a
  | _ => none

def ratifications : List ContractRuleProposalRatification := db.filterMap fun
  | .ratification r => some r
  | _ => none

def auditEvents : List AuditEvent := db.filterMap fun
  | .auditEvent e => some e
  | _ => none

end

section

variable {db : Db}

@[simp] theorem mem_contractClauses {c : ContractClause} : c ∈ contractClauses db ↔ Row.contractClause c ∈ db :=
  mem_table fun row a => by cases row <;> simp

@[simp] theorem mem_contractAmendments {a : ContractAmendment} : a ∈ contractAmendments db ↔ Row.contractAmendment a ∈ db :=
  mem_table fun row a => by cases row <;> simp

@[simp] theorem mem_proposals {p : ContractRuleProposal} : p ∈ proposals db ↔ Row.proposal p ∈ db :=
  mem_table fun row a => by cases row <;> simp

@[simp] theorem mem_proposalClauses {c : ContractRuleProposalClause} : c ∈ proposalClauses db ↔ Row.proposalClause c ∈ db :=
  mem_table fun row a => by cases row <;> simp

@[simp] theorem mem_rules {r : Rule} : r ∈ rules db ↔ Row.rule r ∈ db :=
  mem_table fun row a => by cases row <;> simp

@[simp] theorem mem_ruleVersions {v : RuleVersion} : v ∈ ruleVersions db ↔ Row.ruleVersion v ∈ db :=
  mem_table fun row a => by cases row <;> simp

@[simp] theorem mem_backtests {b : ContractRuleProposalBacktest} : b ∈ backtests db ↔ Row.backtest b ∈ db :=
  mem_table fun row a => by cases row <;> simp

@[simp] theorem mem_backtestCases {c : ContractRuleProposalBacktestCase} : c ∈ backtestCases db ↔ Row.backtestCase c ∈ db :=
  mem_table fun row a => by cases row <;> simp

@[simp] theorem mem_acceptances {a : ContractRuleProposalAcceptance} : a ∈ acceptances db ↔ Row.acceptance a ∈ db :=
  mem_table fun row a => by cases row <;> simp

@[simp] theorem mem_ratifications {r : ContractRuleProposalRatification} : r ∈ ratifications db ↔ Row.ratification r ∈ db :=
  mem_table fun row a => by cases row <;> simp

@[simp] theorem mem_auditEvents {e : AuditEvent} : e ∈ auditEvents db ↔ Row.auditEvent e ∈ db :=
  mem_table fun row a => by cases row <;> simp

end

end Contracts
