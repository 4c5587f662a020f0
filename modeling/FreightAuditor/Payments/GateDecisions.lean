import FreightAuditor.Library.IsoDate
import FreightAuditor.Payments.Tables

/- The calls that write payment gate decisions.

   Each runs in a transaction of its own: a call that throws writes nothing. Ids are
   numbers, drawn by the database in the order `newId` of the transaction; a primary key
   refuses one that is taken. -/
namespace Payments

open Claims (Amount AuditEvent AuditEventEvidence ActorKind VarianceStatus amountColumn currencyFormat sameEvidence
  deterministicAuditEventId)
open DecimalJs Evaluator ExceptOk Ingestion JsText

/-- A transaction: when it started and the ids it draws. -/
structure Transaction where
  startedAt : ℤ
  newId : ℕ → ℕ

section

variable (D : Type) [Decimal D] (unicode : Unicode) (sha256 : String → ℕ) (toISOString : ℤ → String)

/-! ## Statements -/

/-- `SELECT invoice_id FROM audit_run WHERE account_id = $1 AND id = $2`. -/
def selectRun (db : PaymentDb) (clientId auditRunId : ℕ) : Option AuditRunRow :=
  (db.auditRuns.find? auditRunId).filter fun run => run.accountId == clientId

/-- `... AND outcome = $3`. -/
def selectRunWith (db : PaymentDb) (clientId auditRunId : ℕ) (outcome : Outcome) : Option AuditRunRow :=
  (selectRun db clientId auditRunId).filter fun run => run.outcome = outcome

def selectDecision (db : PaymentDb) (clientId auditRunId : ℕ) (action : PaymentGateAction) :
    Option PaymentGateDecision :=
  db.decisions.find? (clientId, auditRunId, action)

/-- An insert that a unique key may refuse. -/
def orViolates {α : Type} (constraint : String) (inserted : Option α) : Except PaymentError α :=
  match inserted with
  | some a => return a
  | none => throw (.database constraint)

def insertDecision (db : PaymentDb) (row : PaymentGateDecision) : Except PaymentError PaymentDb := do
  if row.currency.any (!currencyFormat ·) then throw (.database "payment_gate_decision_currency_format_chk")
  if db.decisions.rows.any (·.id == row.id) then throw (.database "payment_gate_decision_pkey")
  let decisions ← orViolates "payment_gate_decision_run_action_uk" (db.decisions.insert row)
  return { db with decisions }

def numericColumn (text : String) : Except PaymentError Amount :=
  (amountColumn text).mapError fun _ => .database "numeric field overflow"

/-- Insert the event, or find it there with the same evidence. -/
def writeAuditEvent (tx : Transaction) (db : PaymentDb) (id : ℕ) (value : AuditEventEvidence) :
    Except PaymentError (Bool × PaymentDb) :=
  match db.auditEvents.find? id with
  | none => do
    let auditEvents ← orViolates "audit_event_pkey"
      (db.auditEvents.insert { value with id := id, recordedAt := tx.startedAt.toNat })
    return (true, { db with auditEvents })
  | some row => if sameEvidence row.toAuditEventEvidence value then return (false, db) else throw .auditEventConflict

/-- The event of a decision: which run it is about comes first in its detail. -/
def decisionEvent (clientId entityId auditRunId : ℕ) (event : String) (actorKind : ActorKind)
    (actorUserId : Option ℕ) (detail : List (String × Json.Value)) : AuditEventEvidence where
  clientId := some clientId
  entity := "payment_gate_decision"
  entityId := some entityId
  event := event
  actorKind := actorKind
  actorUserId := actorUserId
  ruleVersionId := none
  rubricSnapshotId := none
  detail := some (.obj (("auditRunId", .str (toString auditRunId)) :: detail))

def idTexts (ids : List ℕ) : Json.Value := .arr (ids.map fun id => .str (toString id))

/-! ## The generators -/

structure DecisionResult where
  decisionId : ℕ
  created : Bool

/-- `none` where the client has opted out of the hold. -/
def generateHoldDecision (tx : Transaction) (db : PaymentDb) (clientId auditRunId : ℕ) (holdThenApprove : Bool)
    (newId : ℕ) : Except PaymentError (Option DecisionResult × PaymentDb) := do
  if !holdThenApprove then return (none, db)
  let some run := selectRunWith db clientId auditRunId .SCORED | throw .holdRunNotScored
  match selectDecision db clientId auditRunId .hold with
  | some row => return (some ⟨row.id, false⟩, db)
  | none => do
    let db ← insertDecision db ⟨newId, clientId, run.invoiceId, auditRunId, .hold, none, none, .system,
      some "Held by default pending analyst payment authorization (hold-then-approve).", tx.startedAt⟩
    let (_, db) ← writeAuditEvent tx db
      (deterministicAuditEventId sha256 [toString clientId, toString auditRunId, "hold-decision"])
      (decisionEvent clientId newId auditRunId "hold_generated" .system none [])
    return (some ⟨newId, true⟩, db)

structure DoNotPayResult where
  decisionId : ℕ
  rationale : String
  gateFailureIds : List ℕ

/-- `ON CONFLICT DO NOTHING`: the decision that is there already stays. -/
def generateDoNotPayDecision (tx : Transaction) (db : PaymentDb) (clientId auditRunId newId : ℕ) :
    Except PaymentError (DoNotPayResult × PaymentDb) := do
  let some run := selectRunWith db clientId auditRunId .REJECTED_REWORK
    | throw (.generateDoNotPay .AUDIT_RUN_NOT_GATE_FAILED)
  let gateFailures := db.gateFailures.filter fun g => g.accountId == clientId && g.auditRunId == auditRunId
  let decision ← composeDoNotPayDecision unicode gateFailures
  let (decisionId, db) ← match selectDecision db clientId auditRunId .do_not_pay with
    | some row => pure (row.id, db)
    | none => do
      let db ← insertDecision db ⟨newId, clientId, run.invoiceId, auditRunId, .do_not_pay, none, none, .system,
        some decision.rationale, tx.startedAt⟩
      pure (newId, db)
  let (_, db) ← writeAuditEvent tx db
    (deterministicAuditEventId sha256 [toString clientId, toString auditRunId, "do-not-pay-decision"])
    (decisionEvent clientId decisionId auditRunId "do_not_pay_generated" .system none
      [("gateFailureIds", idTexts decision.gateFailureIds), ("rationale", .str decision.rationale)])
  return (⟨decisionId, decision.rationale, decision.gateFailureIds⟩, db)

structure ShortPayResult where
  decisionId : Option ℕ
  amountToPay : Option String
  currency : Option String
  findingIds : List ℕ
  created : Bool

/-- The findings that a short pay withholds. -/
def isAcceptedOvercharge (clientId auditRunId : ℕ) (f : VarianceFindingRow) : Bool :=
  f.accountId == clientId && f.auditRunId == auditRunId && f.direction == some .OVERCHARGE && f.status == .accepted

def generateShortPayDecision (tx : Transaction) (db : PaymentDb) (clientId auditRunId : ℕ) (shortPayEnabled : Bool) :
    Except PaymentError (ShortPayResult × PaymentDb) := do
  if !shortPayEnabled then return (⟨none, none, none, [], false⟩, db)
  let some run := selectRunWith db clientId auditRunId .SCORED | throw .shortPayRunNotScored
  match selectDecision db clientId auditRunId .short_pay with
  | some row => return (⟨some row.id, row.amount.map fun a => a.text, row.currency, [], false⟩, db)
  | none => do
    let chargeFacts := db.chargeFacts.filter fun c => c.accountId == clientId && c.invoiceId == run.invoiceId
    let findings := db.varianceFindings.rows.filter (isAcceptedOvercharge clientId auditRunId)
    let decision ← composeShortPayDecision unicode D (chargeFacts.map fun c => ⟨c.amount.text, some c.currency⟩)
      (findings.map fun f => ⟨f.id, f.currency, f.varianceAmount.map fun a => a.text⟩)
    let amount ← numericColumn decision.amountToPay
    let decisionId := tx.newId 0
    let db ← insertDecision db ⟨decisionId, clientId, run.invoiceId, auditRunId, .short_pay, some amount,
      some decision.currency, .system, some ("Short-paid: withheld " ++ decision.withheldAmount ++ " " ++
        decision.currency ++ " for accepted overcharge findings."), tx.startedAt⟩
    let (_, db) ← writeAuditEvent tx db
      (deterministicAuditEventId sha256 [toString clientId, toString auditRunId, "short-pay-decision"])
      (decisionEvent clientId decisionId auditRunId "short_pay_generated" .system none
        [("amountToPay", .str decision.amountToPay), ("withheldAmount", .str decision.withheldAmount),
          ("findingIds", idTexts decision.findingIds)])
    return (⟨some decisionId, some decision.amountToPay, some decision.currency, decision.findingIds, true⟩, db)

/-! ## The analyst's authorization -/

/-- What an analyst may decide: never `do_not_pay`. -/
inductive PaymentAuthorizationAction where
  | approve | hold
  deriving DecidableEq

def PaymentAuthorizationAction.toGate : PaymentAuthorizationAction → PaymentGateAction
  | .approve => .approve
  | .hold => .hold

structure AuthorizePaymentInput where
  clientId : ℕ
  auditRunId : ℕ
  action : PaymentAuthorizationAction
  rationale : Option String
  actorUserId : ℕ

/-- `z.string().trim().min(1).max(2_000).optional()`. -/
def parseRationale (rationale : Option String) : Except PaymentError (Option String) :=
  match rationale with
  | none => return none
  | some text =>
    let trimmed := trim text
    if length trimmed < 1 ∨ 2000 < length trimmed then throw .schema else return some trimmed

def authorizePayment (tx : Transaction) (db : PaymentDb) (input : AuthorizePaymentInput) :
    Except PaymentError (DecisionResult × PaymentDb) := do
  let rationale ← parseRationale input.rationale
  let some run := selectRun db input.clientId input.auditRunId | throw .auditRunNotFound
  match selectDecision db input.clientId input.auditRunId input.action.toGate with
  | some row => return (⟨row.id, false⟩, db)
  | none => do
    let decisionId := tx.newId 0
    let db ← insertDecision db ⟨decisionId, input.clientId, run.invoiceId, input.auditRunId, input.action.toGate,
      none, none, .analyst, rationale, tx.startedAt⟩
    let (_, db) ← writeAuditEvent tx db
      (deterministicAuditEventId sha256 [toString input.clientId, toString decisionId, "payment-authorization"])
      (decisionEvent input.clientId decisionId input.auditRunId "payment_authorized" .analyst (some input.actorUserId)
        [("action", .str input.action.toGate.text), ("rationale", (rationale.map Json.Value.str).getD .null)])
    return (⟨decisionId, true⟩, db)

/-! ## The escalation -/

def DEFAULT_GRACE_PERIOD_DAYS : ℤ := 7

def millisecondsPerDay : ℤ := 86400000

/-- An integer's own text. -/
def numberOfDays (days : ℤ) : DecimalText.NumberText :=
  ⟨DecimalText.fixedText 0 days, by rw [DecimalText.literal?_fixedText]; rfl⟩

/-- `setUTCDate`; `none` where the time is out of a `Date`'s range, and compares as neither earlier nor later. -/
def graceDeadline (recordedAt gracePeriodDays : ℤ) : Option ℤ :=
  let deadline := recordedAt + gracePeriodDays * millisecondsPerDay
  if deadline.natAbs ≤ IsoDate.maxTime then some deadline else none

/-- Times in milliseconds. A run has one hold at most. -/
def generatePaymentEscalation (tx : Transaction) (db : PaymentDb) (clientId auditRunId : ℕ) (now gracePeriodDays : ℤ) :
    Except PaymentError (Bool × PaymentDb) := do
  let some hold := selectDecision db clientId auditRunId .hold | throw (.escalation .NO_HOLD_DECISION)
  if (selectDecision db clientId auditRunId .approve).isSome then throw (.escalation .ALREADY_APPROVED)
  if (graceDeadline hold.recordedAt gracePeriodDays).any (now < ·) then throw (.escalation .GRACE_PERIOD_NOT_ELAPSED)
  writeAuditEvent tx db
    (deterministicAuditEventId sha256 [toString clientId, toString auditRunId, "payment_gate.escalated"])
    (decisionEvent clientId auditRunId auditRunId "payment_gate.escalated" .system none
      [("holdRecordedAt", .str (toISOString hold.recordedAt)), ("gracePeriodDays", .num (numberOfDays gracePeriodDays))])

/-! ## A run is persisted -/

structure PersistInput where
  clientId : ℕ
  invoice : ParsedInvoice
  result : AuditResult

def insertChargeFact (clientId invoiceId : ℕ) (db : PaymentDb) (c : NormalizedCharge) :
    Except PaymentError PaymentDb := do
  let some text := c.amount | throw (.chargeWithoutAmount c.code)
  let amount ← numericColumn text
  if !currencyFormat c.currency then throw (.database "charge_fact_currency_format_chk")
  return { db with chargeFacts := db.chargeFacts ++ [⟨clientId, invoiceId, amount, c.currency⟩] }

def ChargeFinding.varianceDirection (f : ChargeFinding) : Option Direction :=
  if f.direction = .INTEGRITY_ONLY then none else some f.direction

/-- A finding that is not conformed, under the id it draws. -/
def insertVarianceFinding (clientId auditRunId : ℕ) (db : PaymentDb) (drawn : ℕ × ChargeFinding) :
    Except PaymentError PaymentDb := do
  let (id, f) := drawn
  let varianceAmount ← f.varianceAmount.mapM numericColumn
  if f.currency.any (!currencyFormat ·) then throw (.database "variance_finding_currency_format_chk")
  let varianceFindings ← orViolates "variance_finding_pkey" (db.varianceFindings.insert
    ⟨id, clientId, auditRunId, ChargeFinding.varianceDirection f, varianceAmount, f.currency, .open⟩)
  return { db with varianceFindings }

def gateFailureRow (clientId auditRunId : ℕ) (drawn : ℕ × GateFailure) : GateFailureRow :=
  ⟨drawn.1, clientId, auditRunId, drawn.2.defect, drawn.2.citation⟩

/-- The hold of a scored run, by the client's policy, or the refusal of a rejected one. -/
def generateDecision (tx : Transaction) (db : PaymentDb) (clientId auditRunId : ℕ) (outcome : Outcome) (newId : ℕ) :
    Except PaymentError PaymentDb :=
  match outcome with
  | .SCORED => do
    let policy := db.policies.find? clientId
    let (_, db) ← generateHoldDecision sha256 tx db clientId auditRunId
      ((policy.map PaymentPolicyConfig.holdThenApprove).getD DEFAULT_HOLD_THEN_APPROVE) newId
    return db
  | .REJECTED_REWORK => do
    let (_, db) ← generateDoNotPayDecision unicode sha256 tx db clientId auditRunId newId
    return db

/-- The billed side of a rejected invoice is not written. -/
def insertChargeFacts (db : PaymentDb) (input : PersistInput) (invoiceId : ℕ) : Except PaymentError PaymentDb :=
  match input.result.outcome with
  | .SCORED => input.invoice.charges.foldlM (insertChargeFact input.clientId invoiceId) db
  | .REJECTED_REWORK => return db

def insertAuditRun (db : PaymentDb) (row : AuditRunRow) : Except PaymentError PaymentDb := do
  let auditRuns ← orViolates "audit_run_pkey" (db.auditRuns.insert row)
  return { db with auditRuns }

/-- Every criterion that is cited has a rule version. -/
def checkReferences (db : PaymentDb) (result : AuditResult) : Except PaymentError Unit :=
  let cited := result.gateFailures.map GateFailure.criterionKey ++ result.findings.map ChargeFinding.criterionKey
  match cited.find? fun key => key ∉ db.criterionKeys with
  | some key => throw (.findingReference key)
  | none => return ()

/-- Each row with the id it draws. -/
def Transaction.draw {α : Type} (tx : Transaction) (rows : List α) : List (ℕ × α) :=
  rows.zipIdx.map fun p => (tx.newId p.2, p.1)

def insertGateFailures (tx : Transaction) (db : PaymentDb) (clientId auditRunId : ℕ) (failures : List GateFailure) :
    PaymentDb :=
  { db with gateFailures := db.gateFailures ++ (tx.draw failures).map (gateFailureRow clientId auditRunId) }

def PersistInput.auditRun (input : PersistInput) (tx : Transaction) : AuditRunRow where
  id := tx.newId 0
  accountId := input.clientId
  invoiceId := tx.newId 0
  outcome := input.result.outcome

/-- The part that the payment gate reads. -/
def persistAuditRun (tx : Transaction) (db : PaymentDb) (input : PersistInput) : Except PaymentError PaymentDb := do
  let run := input.auditRun tx
  let db ← insertChargeFacts db input run.invoiceId
  let db ← insertAuditRun db run
  checkReferences db input.result
  let db := insertGateFailures tx db input.clientId run.id input.result.gateFailures
  let db ← generateDecision unicode sha256 tx db input.clientId run.id input.result.outcome (tx.newId 0)
  let variances := input.result.findings.filter fun f => f.result != .CONFORMED
  (tx.draw variances).foldlM (insertVarianceFinding input.clientId run.id) db

/-! ## Runs of calls -/

inductive PaymentCall where
  | persistAuditRun (input : PersistInput)
  | generateShortPayDecision (clientId auditRunId : ℕ) (shortPayEnabled : Bool)
  | generatePaymentEscalation (clientId auditRunId : ℕ) (now gracePeriodDays : ℤ)
  | authorizePayment (input : AuthorizePaymentInput)
  /-- A client sets its policy. -/
  | upsertPaymentPolicy (config : PaymentPolicyConfig)
  /-- An analyst moves a finding. -/
  | updateFindingStatus (findingId : ℕ) (status : VarianceStatus)

/-- The row of the client as it is now configured; who configured it first stays. -/
def PaymentPolicyConfig.configured (config row : PaymentPolicyConfig) : PaymentPolicyConfig :=
  if row.clientId = config.clientId then { config with configuredBy := row.configuredBy } else row

theorem PaymentPolicyConfig.configured_clientId (config row : PaymentPolicyConfig) :
    (config.configured row).clientId = row.clientId := by
  unfold configured
  split
  · rename_i h
    exact h.symm
  · rfl

/-- `approvalExpiryHours: z.number().int().positive().max(24 * 30)`. -/
def parsePaymentPolicyConfig (config : PaymentPolicyConfig) : Except PaymentError PaymentPolicyConfig :=
  if config.approvalExpiryHours < 1 ∨ 24 * 30 < config.approvalExpiryHours then throw .schema else return config

/-- `ON CONFLICT DO UPDATE`. -/
def upsertPaymentPolicy (db : PaymentDb) (untrusted : PaymentPolicyConfig) : Except PaymentError PaymentDb := do
  let config ← parsePaymentPolicyConfig untrusted
  match db.policies.insert config with
  | some policies => return { db with policies }
  | none => return { db with policies := db.policies.update config.configured config.configured_clientId }

def VarianceFindingRow.moved (findingId : ℕ) (status : VarianceStatus) (row : VarianceFindingRow) : VarianceFindingRow :=
  if row.id = findingId then { row with status } else row

theorem VarianceFindingRow.moved_id (findingId : ℕ) (status : VarianceStatus) (row : VarianceFindingRow) :
    (row.moved findingId status).id = row.id := by
  unfold moved
  split <;> rfl

def updateFindingStatus (db : PaymentDb) (findingId : ℕ) (status : VarianceStatus) : PaymentDb :=
  let varianceFindings := db.varianceFindings.update (.moved findingId status)
    (VarianceFindingRow.moved_id findingId status)
  { db with varianceFindings }

def PaymentCall.run (call : PaymentCall) (tx : Transaction) (db : PaymentDb) : Except PaymentError PaymentDb :=
  match call with
  | .persistAuditRun input => Payments.persistAuditRun unicode sha256 tx db input
  | .generateShortPayDecision clientId auditRunId enabled => do
    let (_, db) ← Payments.generateShortPayDecision D unicode sha256 tx db clientId auditRunId enabled
    return db
  | .generatePaymentEscalation clientId auditRunId now gracePeriodDays => do
    let (_, db) ← Payments.generatePaymentEscalation sha256 toISOString tx db clientId auditRunId now gracePeriodDays
    return db
  | .authorizePayment input => do
    let (_, db) ← Payments.authorizePayment sha256 tx db input
    return db
  | .upsertPaymentPolicy config => Payments.upsertPaymentPolicy db config
  | .updateFindingStatus findingId status => return Payments.updateFindingStatus db findingId status

/-- A call that throws leaves the tables as they are. -/
def step (db : PaymentDb) (e : Transaction × PaymentCall) : Option PaymentDb :=
  match e.2.run D unicode sha256 toISOString e.1 db with
  | .ok db' => some db'
  | .error _ => some db

end

end Payments
