import FreightAuditor.Contracts.Backtests

/- From a proposal to a rule in force.

   `acceptContractRuleProposal` derives a SHADOW version from a proposal that passed a
   backtest, `ratifyContractRuleProposal` an ACTIVE one from that version, and
   `transitionRuleLifecycle` moves versions otherwise. Each inserts a successor and leaves
   the row it comes from as it is. -/
namespace Contracts

open AppendOnly DecimalJs JsText ReadCommitted
open Claims (AuditEventEvidence deterministicAuditEventId)
open RuleEngine (PromotionDirection RuleContent RuleHardness RuleLifecycle TransitionInput allowedTransitions)

/-! ## Transitions -/

def findVersion (db : Db) (id : ℕ) : Option RuleVersion := (ruleVersions db).find? fun v => v.id = id

def findSuccessor (db : Db) (predecessor : ℕ) (state : RuleLifecycle) : Option RuleVersion :=
  (ruleVersions db).find? fun v => v.predecessorRuleVersionId = some predecessor ∧ v.lifecycleState = state

/-- A version in a state, without evidence of its own. -/
def plainVersion (content : RuleContent) (id : ℕ) (state : RuleLifecycle) (predecessor : Option ℕ) : RuleVersion :=
  ⟨content, id, state, predecessor, none, none, none, none⟩

/-- Insert the event of a version that is there, unless its like was inserted before. -/
def insertPromotionEvent (event : RuleVersion → PromotionEvent) (ruleVersionId : ℕ) : Statement PUnit := do
  let found ← .query fun db => findVersion db ruleVersionId
  match found with
  | none => return ⟨⟩
  | some v =>
    let e := event v
    -- the check constraint `active_promotion_requires_backtest`
    if e.toLifecycle = .ACTIVE ∧ e.ruleBacktestId = none ∧ e.contractProposalBacktestId = none ∧
        e.dualControlAnalystId = none then .fail (.database "active_promotion_requires_backtest")
    else
      let _ ← insertRow [.promotion e.ruleVersionId e.fromLifecycle e.toLifecycle] (.promotionEvent e)
      return ⟨⟩

def promotionDirection (state : RuleLifecycle) : PromotionDirection :=
  if state = .DEPRECATED ∨ state = .QUARANTINED then .DEMOTE else .PROMOTE

/-- The row read first is the row the insert copies: rows do not change. -/
def transitionRuleLifecycle (nextVersionId : ℕ) (input : TransitionInput) : Statement (ℕ × Bool) := do
  let found ← .query fun db => findVersion db input.ruleVersionId
  match found with
  | none => .fail (.lifecycle (.ruleVersionNotFound input.ruleVersionId))
  | some current =>
    if input.toState ∉ allowedTransitions current.lifecycleState then
      .fail (.lifecycle (.invalidTransition current.lifecycleState input.toState))
    else
      let created ← insertRow [.successor input.ruleVersionId input.toState]
        (.ruleVersion (plainVersion current.toRuleContent nextVersionId input.toState (some input.ruleVersionId)))
      let next ← .query fun db =>
        if created then some nextVersionId
        else (findSuccessor db input.ruleVersionId input.toState).map RuleVersion.id
      match next with
      | none => .fail (.lifecycle .retryUnresolved)
      | some nextId =>
        insertPromotionEvent (fun v =>
          ⟨nextId, v.hardness, v.hardness, current.lifecycleState, input.toState, promotionDirection input.toState,
            none, input.rationale, input.dualControlAnalystId, input.ruleBacktestId⟩) nextId
        return (nextId, created)

/-! ## Acceptance -/

structure AcceptInput where
  clientId : ℕ
  proposalId : ℕ
  backtestId : ℕ
  actorUserId : ℕ
  rationale : String

/-- `z.string().trim().min(1).max(4_000)`. -/
@[irreducible] def parseRationale (rationale : String) : Option String :=
  if boundedText 4000 (trim rationale) then some (trim rationale) else none

def findProposal (db : Db) (clientId proposalId : ℕ) : Option ContractRuleProposal :=
  (proposals db).find? fun p => p.accountId = clientId ∧ p.id = proposalId

def findPassingBacktest (db : Db) (clientId backtestId : ℕ) (proposal : ContractRuleProposal) :
    Option ContractRuleProposalBacktest :=
  (backtests db).find? fun b => b.accountId = clientId ∧ b.id = backtestId ∧ b.proposalId = proposal.id ∧
    b.proposalHash = proposal.proposalHash ∧ b.astHash = proposal.astHash ∧ b.passed = true

section

variable (sha256 : String → ℕ) (collation : String → String → Ordering)

/-- The first clause that the proposal cites, by reference. -/
def citedClause (db : Db) (clientId proposalId : ℕ) : Option ℕ :=
  let cited := (proposalClauses db).filter fun c => c.accountId = clientId ∧ c.proposalId = proposalId
  let clauses := (contractClauses db).filter fun c => c.id ∈ cited.map ContractRuleProposalClause.contractClauseId
  ((clauses.mergeSort fun a b => ((collation a.clauseRef b.clauseRef).then (compare a.id b.id)) != .gt).head?).map
    ContractClause.id

def acceptedSlug (proposalId : ℕ) : String := "contract-proposal-" ++ toString proposalId

/-- `ON CONFLICT (slug) DO UPDATE SET slug = EXCLUDED.slug RETURNING id, rule_type`. -/
def upsertRule (row : Rule) : Statement Rule :=
  insertOr Row.keys [.slug row.slug] (.database "rule_pkey") (.rule row)
    (fun db => match (rules db).find? fun r => r.slug = row.slug with
      | some r => .ok r
      | none => .error (.database "rule_slug_key")) row

/-- The provenance of an accepted proposal. -/
def acceptanceProvenance (input : AcceptInput) (proposal : ContractRuleProposal) : List (String × Json.Value) :=
  [("clientId", idText input.clientId), ("proposalId", idText proposal.id),
    ("proposalHash", .str proposal.proposalHash), ("backtestId", idText input.backtestId),
    ("verifiedContractVersionId", idText proposal.verifiedContractVersionId),
    ("acceptedBy", idText input.actorUserId)]

/-- `CURRENT_DATE`, of a start in milliseconds. -/
def currentDate (startedAt : ℕ) : ℤ := startedAt / 86400000

def shadowVersion (id startedAt ruleId : ℕ) (input : AcceptInput) (proposal : ContractRuleProposal)
    (clauseId : Option ℕ) : RuleVersion where
  ruleId := ruleId
  hardness := .AI_DOCS
  ast := proposal.ast.toJson
  astHash := proposal.astHash
  expectedInputs := .arr (proposal.expectedInputs.map .str)
  emits := .PASS_FAIL
  provenance := acceptanceProvenance input proposal
  clauseId := clauseId
  validFrom := currentDate startedAt
  validTo := none
  id := id
  lifecycleState := .SHADOW
  predecessorRuleVersionId := none
  sourceContractRuleProposalId := some proposal.id
  sourceContractRuleProposalBacktestId := some input.backtestId
  humanRatifiedBy := none
  humanRatificationRationale := none

/-- The SHADOW version that an equal acceptance derived before. -/
def findShadow (db : Db) (row : RuleVersion) : Option ℕ :=
  ((ruleVersions db).find? fun v => v.sourceContractRuleProposalId = row.sourceContractRuleProposalId ∧
    v.ruleId = row.ruleId ∧ v.lifecycleState = .SHADOW ∧ v.astHash = row.astHash ∧
    v.sourceContractRuleProposalBacktestId = row.sourceContractRuleProposalBacktestId ∧
    Json.canonicalText (.obj v.provenance) = Json.canonicalText (.obj row.provenance)).map RuleVersion.id

structure AcceptResult where
  acceptanceId : ℕ
  shadowRuleVersionId : ℕ
  created : Bool

/-- Equal but for the id. -/
def sameAcceptance (a b : ContractRuleProposalAcceptance) : Bool := { a with id := b.id } == b

def acceptContractRuleProposal (tx startedAt : ℕ) (untrusted : AcceptInput) : Statement AcceptResult :=
  match parseRationale untrusted.rationale with
  | none => .fail .schema
  | some rationale => do
    let input := { untrusted with rationale }
    let found ← .query fun db => (findProposal db input.clientId input.proposalId).map
      fun p => (p, citedClause collation db input.clientId p.id)
    match found with
    | none => .fail (.proposalAcceptance "PROPOSAL_NOT_FOUND")
    | some (proposal, clauseId) =>
      let backtest ← .query fun db => findPassingBacktest db input.clientId input.backtestId proposal
      match backtest with
      | none => .fail (.proposalAcceptance "PASSING_BACKTEST_REQUIRED")
      | some _ =>
        let rule ← upsertRule ⟨newId tx 0, acceptedSlug proposal.id, proposal.ruleType⟩
        if rule.ruleType ≠ proposal.ruleType then .fail (.proposalAcceptance "RULE_CONFLICT")
        else
          let shadowRow := shadowVersion (newId tx 1) startedAt rule.id input proposal clauseId
          let shadow ← insertIdempotent [.derived proposal.id .SHADOW] shadowRow.id (.ruleVersion shadowRow)
            (findShadow · shadowRow)
          match shadow with
          | none => .fail (.proposalAcceptance "ACCEPTANCE_CONFLICT")
          | some (shadowId, _) =>
            let row : ContractRuleProposalAcceptance := ⟨newId tx 2, input.clientId, proposal.id, input.backtestId,
              shadowId, input.actorUserId, input.rationale⟩
            let acceptance ← insertIdempotent [.accepted input.clientId proposal.id] row.id (.acceptance row)
              fun db => ((acceptances db).find? (sameAcceptance · row)).map ContractRuleProposalAcceptance.id
            match acceptance with
            | none => .fail (.proposalAcceptance "ACCEPTANCE_CONFLICT")
            | some (acceptanceId, created) =>
              let _ ← writeAuditEvent startedAt
                (deterministicAuditEventId sha256 [toString input.clientId, toString proposal.id,
                  toString input.backtestId, "contract_rule_proposal.accepted"])
                { clientId := some input.clientId
                  entity := "contract_rule_proposal"
                  entityId := some proposal.id
                  event := "accepted_to_shadow"
                  actorKind := .analyst
                  actorUserId := some input.actorUserId
                  ruleVersionId := some shadowId
                  rubricSnapshotId := none
                  detail := some (.obj [("acceptanceId", idText acceptanceId),
                    ("proposalHash", .str proposal.proposalHash), ("astHash", .str proposal.astHash),
                    ("backtestId", idText input.backtestId), ("shadowRuleVersionId", idText shadowId),
                    ("rationale", .str input.rationale)]) }
              return ⟨acceptanceId, shadowId, created⟩

/-! ## Ratification -/

structure RatifyInput where
  clientId : ℕ
  acceptanceId : ℕ
  actorUserId : ℕ
  rationale : String

/-- The acceptance with its SHADOW version, where its backtest passed. -/
def findRatifiable (db : Db) (clientId acceptanceId : ℕ) : Option (ContractRuleProposalAcceptance × RuleVersion) := do
  let a ← (acceptances db).find? fun a => a.accountId = clientId ∧ a.id = acceptanceId
  let v ← (ruleVersions db).find? fun v => v.id = a.shadowRuleVersionId ∧ v.lifecycleState = .SHADOW ∧
    v.hardness = .AI_DOCS ∧ v.sourceContractRuleProposalId = some a.proposalId ∧
    v.sourceContractRuleProposalBacktestId = some a.backtestId
  let _ ← (backtests db).find? fun b => b.id = a.backtestId ∧ b.accountId = a.accountId ∧
    b.proposalId = a.proposalId ∧ b.passed = true
  return (a, v)

def activeVersion (id : ℕ) (input : RatifyInput) (a : ContractRuleProposalAcceptance) (shadow : RuleVersion) :
    RuleVersion where
  toRuleContent := { shadow.toRuleContent with hardness := .FIRM_RULE }
  id := id
  lifecycleState := .ACTIVE
  predecessorRuleVersionId := some shadow.id
  sourceContractRuleProposalId := some a.proposalId
  sourceContractRuleProposalBacktestId := some a.backtestId
  humanRatifiedBy := some input.actorUserId
  humanRatificationRationale := some input.rationale

/-- The ACTIVE version that an equal ratification derived before. -/
def findActive (db : Db) (row : RuleVersion) : Option ℕ :=
  ((ruleVersions db).find? fun v => v.predecessorRuleVersionId = row.predecessorRuleVersionId ∧
    v.lifecycleState = .ACTIVE ∧ v.hardness = .FIRM_RULE ∧
    v.sourceContractRuleProposalId = row.sourceContractRuleProposalId ∧
    v.sourceContractRuleProposalBacktestId = row.sourceContractRuleProposalBacktestId ∧
    v.humanRatifiedBy = row.humanRatifiedBy ∧
    v.humanRatificationRationale = row.humanRatificationRationale).map RuleVersion.id

structure RatifyResult where
  ratificationId : ℕ
  activeRuleVersionId : ℕ
  created : Bool
  deriving DecidableEq

/-- The ratification that a retry has to find. -/
def findRatification (db : Db) (row : ContractRuleProposalRatification) : Option ℕ :=
  ((ratifications db).find? fun r => r.accountId = row.accountId ∧ r.acceptanceId = row.acceptanceId ∧
    r.activeRuleVersionId = row.activeRuleVersionId ∧ r.ratifiedBy = row.ratifiedBy ∧
    r.rationale = row.rationale).map ContractRuleProposalRatification.id

/-- What the audit event of a ratification says. -/
def ratifiedEvidence (r : ContractRuleProposalRatification) : AuditEventEvidence where
  clientId := some r.accountId
  entity := "contract_rule_proposal"
  entityId := some r.proposalId
  event := "ratified_active_firm"
  actorKind := .analyst
  actorUserId := some r.ratifiedBy
  ruleVersionId := some r.activeRuleVersionId
  rubricSnapshotId := none
  detail := some (.obj [("ratificationId", idText r.id), ("acceptanceId", idText r.acceptanceId),
    ("backtestId", idText r.backtestId), ("shadowRuleVersionId", idText r.shadowRuleVersionId),
    ("activeRuleVersionId", idText r.activeRuleVersionId), ("rationale", .str r.rationale)])

def ratifiedEventId (r : ContractRuleProposalRatification) : ℕ :=
  deterministicAuditEventId sha256 [toString r.accountId, toString r.proposalId, toString r.backtestId,
    "contract_rule_proposal.ratified"]

/-- Insert the ACTIVE version, or find the one that an equal ratification inserted. -/
def deriveActive (row : RuleVersion) (shadowId : ℕ) : Statement (Option ℕ) := do
  let createdVersion ← insertRow [.successor shadowId .ACTIVE] (.ruleVersion row)
  .query fun db => if createdVersion then some row.id else findActive db row

/-- The promotion event, the ratification and the audit event of an ACTIVE version. -/
def recordRatification (startedAt : ℕ) (row : ContractRuleProposalRatification) : Statement RatifyResult := do
  let _ ← insertRow [.promotion row.activeRuleVersionId .SHADOW .ACTIVE] (.promotionEvent
    ⟨row.activeRuleVersionId, .AI_DOCS, .FIRM_RULE, .SHADOW, .ACTIVE, .PROMOTE, some row.backtestId, row.rationale,
      none, none⟩)
  let inserted ← insertRow [.ratified row.accountId row.acceptanceId] (.ratification row)
  let ratification ← .query fun db => if inserted then some row.id else findRatification db row
  match ratification with
  | none => .fail (.proposalRatification "RATIFICATION_CONFLICT")
  | some ratificationId =>
    let _ ← writeAuditEvent startedAt (ratifiedEventId sha256 row) (ratifiedEvidence { row with id := ratificationId })
    return ⟨ratificationId, row.activeRuleVersionId, inserted⟩

def ratifyContractRuleProposal (tx startedAt : ℕ) (untrusted : RatifyInput) : Statement RatifyResult :=
  match parseRationale untrusted.rationale with
  | none => .fail .schema
  | some rationale => do
    let input := { untrusted with rationale }
    let found ← .query fun db => findRatifiable db input.clientId input.acceptanceId
    match found with
    | none => .fail (.proposalRatification "ACCEPTANCE_NOT_FOUND")
    | some (a, shadow) =>
      let active ← deriveActive (activeVersion (newId tx 0) input a shadow) shadow.id
      match active with
      | none => .fail (.proposalRatification "RATIFICATION_CONFLICT")
      | some activeId =>
        recordRatification sha256 startedAt ⟨newId tx 1, input.clientId, a.id, a.proposalId, a.backtestId, shadow.id,
          activeId, input.actorUserId, input.rationale⟩

/-! ## Calls -/

inductive ProposalCall where
  | backtestContractRuleProposals (input : BacktestInput)
  | acceptContractRuleProposal (input : AcceptInput)
  | ratifyContractRuleProposal (input : RatifyInput)
  | transitionRuleLifecycle (input : TransitionInput)

inductive ProposalResult where
  | backtested (result : BacktestResult)
  | accepted (result : AcceptResult)
  | ratified (result : RatifyResult)
  | moved (ruleVersionId : ℕ) (created : Bool)

def ProposalCall.body (D : Type) [Decimal D] (unicode : Unicode) (tx startedAt : ℕ) :
    ProposalCall → Statement ProposalResult
  | .backtestContractRuleProposals input => do
    return .backtested (← Contracts.backtestContractRuleProposals sha256 D unicode tx startedAt input)
  | .acceptContractRuleProposal input => do
    return .accepted (← Contracts.acceptContractRuleProposal sha256 collation tx startedAt input)
  | .ratifyContractRuleProposal input => do
    return .ratified (← Contracts.ratifyContractRuleProposal sha256 tx startedAt input)
  | .transitionRuleLifecycle input => do
    let (ruleVersionId, created) ← Contracts.transitionRuleLifecycle (newId tx 0) input
    return .moved ruleVersionId created

def proposalsSystem (D : Type) [Decimal D] (unicode : Unicode) :
    System Db Row Key ContractsError ProposalResult ProposalCall :=
  ⟨append, fun call tx startedAt => call.body sha256 collation D unicode tx startedAt⟩

end

end Contracts
