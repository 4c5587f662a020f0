import Mathlib.Data.Nat.Pairing
import FreightAuditor.Evaluator.EvaluateInvoice
import FreightAuditor.Library.KeyedTable
import FreightAuditor.Library.LockedRows
import FreightAuditor.Workflow.Instances

/- The tables behind disputes and the statements on them.

   Ids are numbers: `newId tx k` is the `k`-th id that transaction `tx` draws. A tenant
   sees the rows of its own account. `reaccepted` is no table: it keeps the findings that
   were accepted while they stood on a dispute line, and no statement reads it. -/
namespace Disputes

open Claims (Amount AuditEvent AuditEventEvidence ActorKind FindingStatusEvent VarianceStatus amountColumn
  currencyFormat sameEvidence deterministicAuditEventId)
open DecimalJs Evaluator PgNumeric ReadCommitted
open Workflow (WorkflowInstance)

def newId (tx k : ℕ) : ℕ := Nat.pair tx k

inductive DisputeStatus where
  | draft | sent | in_progress | accepted | rejected | closed | partially_accepted
  deriving DecidableEq

def DisputeStatus.text : DisputeStatus → String
  | .draft => "draft" | .sent => "sent" | .in_progress => "in_progress" | .accepted => "accepted"
  | .rejected => "rejected" | .closed => "closed" | .partially_accepted => "partial"

inductive DisputableFindingsCode where
  | EMPTY_SET | NOT_ACCEPTED | MIXED_CARRIER | MIXED_CURRENCY | MISSING_CARRIER | MISSING_AMOUNT
  deriving DecidableEq

/-- What the operations on disputes throw. -/
inductive DisputesError where
  | schema
  | decimal (error : DecimalError)
  | disputableFindings (code : DisputableFindingsCode)
  | acceptedAmountExceedsClaimed
  | instanceNotFound
  | auditEventConflict
  /-- A statement the database refuses. -/
  | database (constraint : String)
  | unexpected (message : String)
  deriving DecidableEq

/-! ## Rows -/

/-- A finding with the carrier of its invoice. `persistAuditRun` gives a positive variance the
direction OVERCHARGE and a finding without a direction no amount. -/
structure VarianceFinding where
  id : ℕ
  accountId : ℕ
  carrierId : Option ℕ
  currency : Option String
  varianceAmount : Option Amount
  /-- Absent for an integrity finding. -/
  direction : Option Direction
  status : VarianceStatus
  sign : direction ≠ some .UNDERCHARGE → ∀ amount ∈ varianceAmount, 0 ≤ amount.units

structure Dispute where
  id : ℕ
  accountId : ℕ
  carrierId : Option ℕ
  status : DisputeStatus
  amountClaimed : Option Amount
  acceptedAmount : Option Amount
  currency : Option String
  deriving DecidableEq

structure DisputeLine where
  accountId : ℕ
  disputeId : ℕ
  varianceFindingId : Option ℕ
  amount : Option Amount
  currency : Option String
  deriving DecidableEq

structure WorkflowCommand where
  id : ℕ
  accountId : ℕ
  workflowInstanceId : ℕ
  commandType : String
  /-- The payload's `disputeId`. -/
  disputeId : ℕ
  runAfter : ℤ
  deriving DecidableEq

inductive DisputeWrite where
  | insertDispute (row : Dispute)
  | insertDisputeLine (row : DisputeLine)
  | updateFindingStatus (findingId : ℕ) (status : VarianceStatus)
  | insertFindingStatusEvent (row : FindingStatusEvent)
  | insertAuditEvent (row : AuditEvent)
  /-- `SET status`, and for a partial acceptance `accepted_amount`. -/
  | updateDispute (disputeId : ℕ) (status : DisputeStatus) (acceptedAmount : Option Amount)
  | insertWorkflowInstance (row : WorkflowInstance)
  | insertWorkflowCommand (row : WorkflowCommand)

structure DisputeDb where
  varianceFindings : KeyedTable VarianceFinding VarianceFinding.id
  disputes : List Dispute
  disputeLines : List DisputeLine
  findingStatusEvents : List FindingStatusEvent
  auditEvents : List AuditEvent
  workflowInstances : List WorkflowInstance
  workflowCommands : List WorkflowCommand
  reaccepted : List ℕ

/-- Findings and nothing else. -/
def DisputeDb.initial (varianceFindings : KeyedTable VarianceFinding VarianceFinding.id) : DisputeDb :=
  ⟨varianceFindings, [], [], [], [], [], [], []⟩

def VarianceFinding.updateStatus (findingId : ℕ) (status : VarianceStatus) (f : VarianceFinding) : VarianceFinding :=
  if f.id = findingId then { f with status } else f

@[simp] theorem VarianceFinding.updateStatus_id (findingId : ℕ) (status : VarianceStatus) (f : VarianceFinding) :
    (f.updateStatus findingId status).id = f.id := by
  unfold VarianceFinding.updateStatus
  split <;> rfl

def Dispute.update (disputeId : ℕ) (status : DisputeStatus) (acceptedAmount : Option Amount) (d : Dispute) : Dispute :=
  if d.id = disputeId then { d with status, acceptedAmount := acceptedAmount <|> d.acceptedAmount } else d

@[simp] theorem Dispute.update_id (disputeId : ℕ) (status : DisputeStatus) (acceptedAmount : Option Amount)
    (d : Dispute) : (d.update disputeId status acceptedAmount).id = d.id := by
  unfold Dispute.update
  split <;> rfl

/-- The finding stands on a dispute line. -/
def DisputeDb.OnLine (db : DisputeDb) (findingId : ℕ) : Prop :=
  ∃ l ∈ db.disputeLines, l.varianceFindingId = some findingId

instance (db : DisputeDb) (findingId : ℕ) : Decidable (db.OnLine findingId) :=
  inferInstanceAs (Decidable (∃ l ∈ db.disputeLines, l.varianceFindingId = some findingId))

def apply (db : DisputeDb) : DisputeWrite → DisputeDb
  | .insertDispute row => { db with disputes := db.disputes ++ [row] }
  | .insertDisputeLine row => { db with disputeLines := db.disputeLines ++ [row] }
  | .updateFindingStatus findingId status =>
    { db with
      varianceFindings := db.varianceFindings.update (.updateStatus findingId status) (by simp)
      reaccepted := if status = .accepted ∧ db.OnLine findingId then findingId :: db.reaccepted else db.reaccepted }
  | .insertFindingStatusEvent row => { db with findingStatusEvents := db.findingStatusEvents ++ [row] }
  | .insertAuditEvent row => { db with auditEvents := db.auditEvents ++ [row] }
  | .updateDispute disputeId status acceptedAmount =>
    { db with disputes := db.disputes.map (.update disputeId status acceptedAmount) }
  | .insertWorkflowInstance row => { db with workflowInstances := db.workflowInstances ++ [row] }
  | .insertWorkflowCommand row => { db with workflowCommands := db.workflowCommands ++ [row] }

/-- The row of a finding or dispute, or a unique key. -/
inductive LockKey where
  | varianceFinding (id : ℕ)
  | dispute (id : ℕ)
  | auditEvent (id : ℕ)
  | workflowInstance (id : ℕ)
  | subject (accountId : ℕ) (workflowType subjectEntity : String) (subjectEntityId : ℕ)
  | command (accountId workflowInstanceId : ℕ) (commandType : String) (runAfter : ℤ)
  deriving DecidableEq

abbrev Statement (R : Type) := Prog DisputeDb DisputeWrite LockKey DisputesError R

/-! ## Audit events -/

section

variable (sha256 : String → ℕ)

/-- Insert the event, or find it there with the same evidence. -/
def writeAuditEvent (startedAt id : ℕ) (value : AuditEventEvidence) : Statement Bool :=
  .exec (fun _ => [.auditEvent id]) fun db =>
    match db.auditEvents.find? (·.id == id) with
    | none => .ok (true, [.insertAuditEvent { value with id := id, recordedAt := startedAt }])
    | some row =>
      if sameEvidence row.toAuditEventEvidence value then .ok (false, []) else .error .auditEventConflict

/-- An event on a row. -/
def rowEvent (actorKind : ActorKind) (clientId : ℕ) (entity : String) (entityId : ℕ) (event : String)
    (actorUserId : Option ℕ) (detail : List (String × Json.Value)) : AuditEventEvidence where
  clientId := some clientId
  entity := entity
  entityId := some entityId
  event := event
  actorKind := actorKind
  actorUserId := actorUserId
  ruleVersionId := none
  rubricSnapshotId := none
  detail := some (.obj detail)

def textOrNull (text : Option String) : Json.Value := (text.map Json.Value.str).getD .null

/-! ## The status of a finding -/

def findFinding (db : DisputeDb) (clientId findingId : ℕ) : Option VarianceFinding :=
  (db.varianceFindings.find? findingId).filter fun f => f.accountId == clientId

/-- One statement, in two steps: `old` is read from the statement's snapshot, and then the update
waits for the row, sets it whatever it has become, and logs the change from `old`. -/
def updateFindingStatus (startedAt clientId findingId : ℕ) (toStatus : VarianceStatus) (note : Option String)
    (actorUserId : Option ℕ) (statusEventId : ℕ) : Statement Bool := do
  let old ← .query fun db => findFinding db clientId findingId
  match old with
  | none => return false
  | some old =>
    .exec (fun _ => [.varianceFinding findingId]) fun _ => .ok ((), [.updateFindingStatus findingId toStatus,
      .insertFindingStatusEvent ⟨statusEventId, clientId, findingId, old.status, toStatus, .analyst, note⟩])
    let _ ← writeAuditEvent startedAt
      (deterministicAuditEventId sha256 [toString clientId, toString statusEventId, "finding.status_changed"])
      (rowEvent .analyst clientId "variance_finding" findingId "finding.status_changed" actorUserId
        [("fromStatus", .str old.status.text), ("toStatus", .str toStatus.text), ("note", textOrNull note),
          ("statusEventId", .str (toString statusEventId))])
    return true

end

/-! ## Findings that can be disputed -/

/-- A finding as `validateDisputableFindings` sees it. -/
structure DisputableFindingRow where
  id : ℕ
  status : VarianceStatus
  carrierId : Option ℕ
  currency : Option String
  varianceAmount : Option String
  direction : Option Direction

structure ValidatedDispute where
  findingIds : List ℕ
  carrierId : ℕ
  currency : String
  amountClaimed : String

/-- What a claimable finding lacks. -/
def missingOf (row : DisputableFindingRow) : Option DisputableFindingsCode :=
  if row.status ≠ .accepted then some .NOT_ACCEPTED
  else if row.carrierId.isNone then some .MISSING_CARRIER
  else if row.varianceAmount.isNone || row.currency.isNone then some .MISSING_AMOUNT
  else none

section

variable (D : Type) [Decimal D]

def plusAmount (sum : D) (amount : String) : Except DisputesError D := do
  let d ← (newDecimal D amount).mapError .decimal
  return Decimal.plus sum d

def validateDisputableFindings (rows : List DisputableFindingRow) : Except DisputesError ValidatedDispute := do
  let claimable := rows.filter fun r => r.direction ≠ some .UNDERCHARGE
  if claimable.isEmpty then throw (.disputableFindings .EMPTY_SET)
  match claimable.findSome? missingOf with
  | some code => throw (.disputableFindings code)
  | none => do
    let carrierIds := (claimable.filterMap DisputableFindingRow.carrierId).dedup
    if 1 < carrierIds.length then throw (.disputableFindings .MIXED_CARRIER)
    let currencies := (claimable.filterMap DisputableFindingRow.currency).dedup
    if 1 < currencies.length then throw (.disputableFindings .MIXED_CURRENCY)
    let amountClaimed ← (claimable.filterMap DisputableFindingRow.varianceAmount).foldlM (plusAmount D)
      (Decimal.ofNumber (.ofNat 0))
    return ⟨claimable.map DisputableFindingRow.id, carrierIds.headD 0, currencies.headD "",
      Decimal.toFixed 4 amountClaimed⟩

end

def VarianceFinding.row (f : VarianceFinding) : DisputableFindingRow :=
  ⟨f.id, f.status, f.carrierId, f.currency, f.varianceAmount.map Numeric.text, f.direction⟩

end Disputes
