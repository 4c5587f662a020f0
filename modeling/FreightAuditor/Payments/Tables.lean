import FreightAuditor.Claims.Tables
import FreightAuditor.Evaluator.EvaluateInvoice
import FreightAuditor.Library.KeyedTable

/- What the payment gate decides with: the tables of audit runs, charges, findings and
   decisions, and the two pure compositions.

   A do-not-pay decision cites the gate failures; a short pay is the invoice total less the
   accepted overcharges. The unique key of a decision is its run and its action. -/
namespace Payments

open Claims (Amount AuditEvent AuditEventEvidence ActorKind VarianceStatus amountColumn currencyFormat sameEvidence)
open DecimalJs Evaluator ExceptOk JsText

inductive PaymentGateAction where
  | approve | hold | short_pay | do_not_pay
  deriving DecidableEq

def PaymentGateAction.text : PaymentGateAction → String
  | .approve => "approve" | .hold => "hold" | .short_pay => "short_pay" | .do_not_pay => "do_not_pay"

inductive GenerateDoNotPayCode where
  | AUDIT_RUN_NOT_GATE_FAILED | DECISION_CONFLICT
  deriving DecidableEq

inductive ShortPayCode where
  | EMPTY_SET | MIXED_CURRENCY | MISSING_AMOUNT | WITHHELD_EXCEEDS_TOTAL
  deriving DecidableEq

inductive EscalationCode where
  | NO_HOLD_DECISION | ALREADY_APPROVED | GRACE_PERIOD_NOT_ELAPSED
  deriving DecidableEq

/-- What the payment operations throw. -/
inductive PaymentError where
  | schema
  | auditRunNotFound
  | holdRunNotScored
  | generateDoNotPay (code : GenerateDoNotPayCode)
  | noGateFailures
  | shortPayRunNotScored
  | shortPay (code : ShortPayCode)
  | escalation (code : EscalationCode)
  | decimal (error : DecimalError)
  | chargeWithoutAmount (code : Option String)
  | findingReference (criterionKey : String)
  | auditEventConflict
  /-- A statement the database refuses. -/
  | database (constraint : String)
  deriving DecidableEq

/-! ## The rows -/

structure AuditRunRow where
  id : ℕ
  accountId : ℕ
  invoiceId : ℕ
  outcome : Outcome

structure ChargeFactRow where
  accountId : ℕ
  invoiceId : ℕ
  amount : Amount
  currency : String

structure GateFailureRow where
  id : ℕ
  accountId : ℕ
  auditRunId : ℕ
  defect : String
  citation : Option String

structure VarianceFindingRow where
  id : ℕ
  accountId : ℕ
  auditRunId : ℕ
  /-- Absent for an integrity finding. -/
  direction : Option Direction
  varianceAmount : Option Amount
  currency : Option String
  status : VarianceStatus

structure PaymentGateDecision where
  id : ℕ
  accountId : ℕ
  invoiceId : ℕ
  auditRunId : ℕ
  action : PaymentGateAction
  amount : Option Amount
  currency : Option String
  actorKind : ActorKind
  rationale : Option String
  recordedAt : ℤ

/-- The unique key `payment_gate_decision_run_action_uk`. -/
def PaymentGateDecision.runAction (d : PaymentGateDecision) : ℕ × ℕ × PaymentGateAction :=
  (d.accountId, d.auditRunId, d.action)

structure PaymentPolicyConfig where
  clientId : ℕ
  holdThenApprove : Bool
  shortPayEnabled : Bool
  approvalExpiryHours : ℕ
  configuredBy : ℕ

def DEFAULT_HOLD_THEN_APPROVE : Bool := true

structure PaymentDb where
  auditRuns : KeyedTable AuditRunRow AuditRunRow.id
  chargeFacts : List ChargeFactRow
  gateFailures : List GateFailureRow
  varianceFindings : KeyedTable VarianceFindingRow VarianceFindingRow.id
  decisions : KeyedTable PaymentGateDecision PaymentGateDecision.runAction
  policies : KeyedTable PaymentPolicyConfig PaymentPolicyConfig.clientId
  auditEvents : KeyedTable AuditEvent AuditEvent.id
  /-- The criteria that have a rule version to cite. -/
  criterionKeys : List String

/-- Nothing yet but the criteria. -/
def PaymentDb.initial (criterionKeys : List String) : PaymentDb :=
  ⟨.empty, [], [], .empty, .empty, .empty, .empty, criterionKeys⟩

/-! ## The compositions -/

section

variable (unicode : Unicode)

structure DoNotPayDecision where
  rationale : String
  gateFailureIds : List ℕ

def idLe {α : Type} (id : α → ℕ) (a b : α) : Prop :=
  unicode.localeCompare (toString (id a)) (toString (id b)) ≠ .gt

instance {α : Type} (id : α → ℕ) : DecidableRel (idLe unicode id) :=
  fun a b => inferInstanceAs (Decidable (unicode.localeCompare (toString (id a)) (toString (id b)) ≠ .gt))

/-- An empty citation is left out. -/
def GateFailureRow.reason (r : GateFailureRow) : String :=
  match r.citation with
  | some citation => if citation = "" then r.defect else r.defect ++ " (" ++ citation ++ ")"
  | none => r.defect

def composeDoNotPayDecision (rows : List GateFailureRow) : Except PaymentError DoNotPayDecision :=
  if rows.isEmpty then throw .noGateFailures
  else
    let sorted := rows.insertionSort (idLe unicode GateFailureRow.id)
    return ⟨"; ".intercalate (sorted.map GateFailureRow.reason), sorted.map GateFailureRow.id⟩

variable (D : Type) [Decimal D]

/-- A charge as the database driver gives it. -/
structure ChargeFact where
  amount : String
  currency : Option String

structure AcceptedOverchargeFinding where
  id : ℕ
  currency : Option String
  varianceAmount : Option String

structure ShortPayDecision where
  amountToPay : String
  withheldAmount : String
  currency : String
  findingIds : List ℕ

/-- One step of a total. -/
def plusAmount (sum : D) (amount : String) : Except PaymentError D := do
  let d ← (newDecimal D amount).mapError .decimal
  return Decimal.plus sum d

def totalAmount (amounts : List String) : Except PaymentError D :=
  amounts.foldlM (plusAmount D) (Decimal.ofNumber (.ofNat 0))

def composeShortPayDecision (chargeFacts : List ChargeFact)
    (acceptedOverchargeFindings : List AcceptedOverchargeFinding) : Except PaymentError ShortPayDecision := do
  if acceptedOverchargeFindings.isEmpty then throw (.shortPay .EMPTY_SET)
  if acceptedOverchargeFindings.any fun f => f.currency.isNone || f.varianceAmount.isNone then
    throw (.shortPay .MISSING_AMOUNT)
  if chargeFacts.any fun c => c.currency.isNone then throw (.shortPay .MISSING_AMOUNT)
  let currencies := (chargeFacts.filterMap ChargeFact.currency ++
    acceptedOverchargeFindings.filterMap AcceptedOverchargeFinding.currency).dedup
  if 1 < currencies.length then throw (.shortPay .MIXED_CURRENCY)
  let invoiceTotal ← totalAmount D (chargeFacts.map ChargeFact.amount)
  let sorted := acceptedOverchargeFindings.insertionSort (idLe unicode AcceptedOverchargeFinding.id)
  let withheld ← totalAmount D (sorted.filterMap AcceptedOverchargeFinding.varianceAmount)
  if Decimal.greaterThanOrEqualTo withheld invoiceTotal then throw (.shortPay .WITHHELD_EXCEEDS_TOTAL)
  return ⟨Decimal.toFixed 4 (Decimal.minus invoiceTotal withheld), Decimal.toFixed 4 withheld,
    currencies.headD "", sorted.map AcceptedOverchargeFinding.id⟩

end

end Payments
