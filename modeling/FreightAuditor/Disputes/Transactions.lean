import Mathlib.Data.List.Sort
import FreightAuditor.Claims.Transactions
import FreightAuditor.Disputes.Tables

/- What runs on findings and disputes: an analyst's changes of a finding's status, the
   creation of a dispute from findings, its approval, and the carrier's response. -/
namespace Disputes

open Claims (Amount ActorKind VarianceStatus amountColumn amountFormat currencyFormat deterministicAuditEventId)
open DecimalJs PgNumeric ReadCommitted
open Workflow (WorkflowInstance CreateWorkflowInstanceInput createdEvidence)

section

variable (sha256 : String → ℕ)

/-! ## Findings -/

inductive FindingAction where
  | accept | waive | escalate
  deriving DecidableEq

def FindingAction.text : FindingAction → String
  | .accept => "accept" | .waive => "waive" | .escalate => "escalate"

/-- `FINDING_ACTION_STATUS`. -/
def FindingAction.status : FindingAction → VarianceStatus
  | .accept => .accepted | .waive => .waived | .escalate => .in_review

def WRITABLE_VARIANCE_STATUSES : List VarianceStatus := [.open, .in_review, .queued_for_dispute, .disputed, .closed]

def applyFindingAction (tx startedAt clientId findingId : ℕ) (action : FindingAction) (note : Option String)
    (actorUserId : Option ℕ) : Statement Bool :=
  updateFindingStatus sha256 startedAt clientId findingId action.status
    (some (note.getD ("Analyst action: " ++ action.text))) actorUserId (newId tx 0)

/-- `PATCH /api/findings/:id/status`. -/
def patchFindingStatus (tx startedAt clientId findingId : ℕ) (status : VarianceStatus) (note : Option String)
    (actorUserId : Option ℕ) : Statement Bool :=
  if status ∉ WRITABLE_VARIANCE_STATUSES then .fail .schema
  else updateFindingStatus sha256 startedAt clientId findingId status note actorUserId (newId tx 0)

/-! ## Creation -/

structure CreateDisputeInput where
  clientId : ℕ
  findingIds : List ℕ
  actorUserId : Option ℕ

def CreateDisputeInput.valid (input : CreateDisputeInput) : Bool :=
  1 ≤ input.findingIds.length && input.findingIds.length ≤ 500

/-- The ids asked for, each once and in order. -/
def CreateDisputeInput.sortedIds (input : CreateDisputeInput) : List ℕ :=
  input.findingIds.dedup.insertionSort (· ≤ ·)

/-- `FOR UPDATE OF vf` on one row. -/
def lockFinding (clientId findingId : ℕ) : Statement PUnit :=
  .exec (fun db => if (findFinding db clientId findingId).isSome then [.varianceFinding findingId] else [])
    fun _ => .ok (⟨⟩, [])

/-- `SELECT ... WHERE vf.id = ANY($2) ORDER BY vf.id FOR UPDATE OF vf`. -/
def selectFindings (clientId : ℕ) (ids : List ℕ) : Statement (List VarianceFinding) := do
  ids.forM (lockFinding clientId)
  .query fun db => ids.filterMap (findFinding db clientId)

def insertDispute (id clientId : ℕ) (validated : ValidatedDispute) : Statement ℕ :=
  .exec (fun _ => [.dispute id]) fun db => do
    let amount ← (amountColumn validated.amountClaimed).mapError fun _ => .database "numeric field overflow"
    if !currencyFormat validated.currency then throw (.database "dispute_currency_format_chk")
    if db.disputes.any (·.id == id) then throw (.database "dispute_pkey")
    return (id, [.insertDispute
      ⟨id, clientId, some validated.carrierId, .draft, some amount, none, some validated.currency⟩])

def insertDisputeLine (row : DisputeLine) : Statement PUnit :=
  .exec (fun _ => []) fun _ => do
    if row.currency.any (!currencyFormat ·) then throw (.database "dispute_line_currency_format_chk")
    return (⟨⟩, [.insertDisputeLine row])

/-- The line of the `k`-th finding, and its new status. -/
def includeFinding (tx startedAt clientId disputeId : ℕ) (actorUserId : Option ℕ) (entry : VarianceFinding × ℕ) :
    Statement PUnit := do
  insertDisputeLine
    ⟨clientId, disputeId, some entry.1.id, entry.1.varianceAmount, entry.1.currency⟩
  let _ ← updateFindingStatus sha256 startedAt clientId entry.1.id .queued_for_dispute
    (some "Included in dispute creation") actorUserId (newId tx entry.2)
  return ⟨⟩

def createDisputeFromFindings (D : Type) [Decimal D] (tx startedAt : ℕ) (input : CreateDisputeInput) :
    Statement (ℕ × ValidatedDispute) :=
  if !input.valid then .fail .schema
  else do
    let rows ← selectFindings input.clientId input.sortedIds
    let validated ← .ofExcept (validateDisputableFindings D (rows.map VarianceFinding.row))
    let disputeId ← insertDispute (newId tx 0) input.clientId validated
    ((rows.filter (·.id ∈ validated.findingIds)).zipIdx 1).forM
      (includeFinding sha256 tx startedAt input.clientId disputeId input.actorUserId)
    let _ ← writeAuditEvent startedAt
      (deterministicAuditEventId sha256 [toString input.clientId, toString disputeId, "dispute.created"])
      (rowEvent .analyst input.clientId "dispute" disputeId "dispute.created" input.actorUserId
        [("findingIds", .arr (validated.findingIds.map fun id => .str (toString id))),
          ("amountClaimed", .str validated.amountClaimed), ("currency", .str validated.currency)])
    return (disputeId, validated)

/-! ## Approval and response -/

def RESPONDABLE_STATUSES : List DisputeStatus := [.sent, .in_progress]

def RESOLVED_STATUSES : List DisputeStatus := [.accepted, .rejected, .partially_accepted]

/-- The tenant's row, in one of these statuses. -/
def findDispute (db : DisputeDb) (clientId disputeId : ℕ) (fromStatuses : List DisputeStatus) : Option Dispute :=
  db.disputes.find? fun d => d.accountId == clientId && d.id == disputeId && d.status ∈ fromStatuses

def selectRespondableDispute (clientId disputeId : ℕ) (fromStatuses : List DisputeStatus) :
    Statement (Option Dispute) :=
  .query fun db => findDispute db clientId disputeId fromStatuses

/-- The guarded update, which waits for a row that it matches and looks at it again. -/
def updateDispute (clientId disputeId : ℕ) (fromStatuses : List DisputeStatus) (toStatus : DisputeStatus)
    (acceptedAmount : Option String) : Statement (Option Dispute) :=
  .exec (fun db => if (findDispute db clientId disputeId fromStatuses).isSome then [.dispute disputeId] else [])
    fun db =>
      match findDispute db clientId disputeId fromStatuses, acceptedAmount with
      | none, _ => .ok (none, [])
      | some row, none => .ok (some row, [.updateDispute disputeId toStatus none])
      | some row, some text => do
        let amount ← (amountColumn text).mapError fun _ => .database "numeric field overflow"
        return (some row, [.updateDispute disputeId toStatus (some amount)])

/-- The evidence of a change of a dispute's status. -/
def transitionEvidence (clientId disputeId : ℕ) (fromStatus toStatus : DisputeStatus) (event : String)
    (actorUserId : ℕ) (extraDetail : List (String × Json.Value)) : Claims.AuditEventEvidence :=
  rowEvent .analyst clientId "dispute" disputeId event (some actorUserId)
    ([("fromStatus", .str fromStatus.text), ("toStatus", .str toStatus.text)] ++ extraDetail)

def writeTransitionAuditEvent (startedAt : ℕ) (row : Dispute) (fromStatus toStatus : DisputeStatus) (event : String)
    (actorUserId : ℕ) (extraDetail : List (String × Json.Value)) : Statement Bool :=
  writeAuditEvent startedAt (deterministicAuditEventId sha256 [toString row.accountId, toString row.id, event])
    (transitionEvidence row.accountId row.id fromStatus toStatus event actorUserId extraDetail)

/-- A carrier's response, or the closing of a dispute: what `acceptDispute`, `rejectDispute`,
`partiallyAcceptDispute` and `closeDispute` have in common. -/
def respond (startedAt clientId disputeId actorUserId : ℕ) (fromStatuses : List DisputeStatus)
    (toStatus : DisputeStatus) (event : String) (acceptedAmount : Option String)
    (check : Dispute → Except DisputesError Unit) : Statement Bool := do
  let disputeRow ← selectRespondableDispute clientId disputeId fromStatuses
  match disputeRow with
  | none => return false
  | some disputeRow =>
    .ofExcept (check disputeRow)
    let updated ← updateDispute clientId disputeId fromStatuses toStatus acceptedAmount
    match updated with
    | none => return false
    | some row =>
      let _ ← writeTransitionAuditEvent sha256 startedAt row disputeRow.status toStatus event actorUserId
        (acceptedAmount.toList.map fun amount => ("acceptedAmount", .str amount))
      return true

def acceptDispute (startedAt clientId disputeId actorUserId : ℕ) : Statement Bool :=
  respond sha256 startedAt clientId disputeId actorUserId RESPONDABLE_STATUSES .accepted "dispute.accepted" none
    fun _ => .ok ()

def rejectDispute (startedAt clientId disputeId actorUserId : ℕ) : Statement Bool :=
  respond sha256 startedAt clientId disputeId actorUserId RESPONDABLE_STATUSES .rejected "dispute.rejected" none
    fun _ => .ok ()

def checkAcceptedAmount (D : Type) [Decimal D] (acceptedAmount : String) (row : Dispute) : Except DisputesError Unit :=
  match row.amountClaimed with
  | none => .ok ()
  | some amountClaimed => do
    let accepted ← (newDecimal D acceptedAmount).mapError .decimal
    let claimed ← (newDecimal D amountClaimed.text).mapError .decimal
    if Decimal.greaterThan accepted claimed then throw .acceptedAmountExceedsClaimed

/-- Behind its route's check of the amount. -/
def partiallyAcceptDispute (D : Type) [Decimal D] (startedAt clientId disputeId actorUserId : ℕ)
    (acceptedAmount : String) : Statement Bool :=
  if !amountFormat acceptedAmount then .fail .schema
  else
    respond sha256 startedAt clientId disputeId actorUserId RESPONDABLE_STATUSES .partially_accepted
      "dispute.partially_accepted" (some acceptedAmount) (checkAcceptedAmount D acceptedAmount)

def closeDispute (startedAt clientId disputeId actorUserId : ℕ) : Statement Bool :=
  respond sha256 startedAt clientId disputeId actorUserId RESOLVED_STATUSES .closed "dispute.closed" none
    fun _ => .ok ()

/-! ## Delivery -/

def findBySubject (db : DisputeDb) (input : CreateWorkflowInstanceInput) : Option WorkflowInstance :=
  db.workflowInstances.find? fun i => i.accountId == input.clientId && i.workflowType == input.workflowType &&
    i.subjectEntity == input.subjectEntity && i.subjectEntityId == input.subjectEntityId

def insertInstance (id startedAt : ℕ) (input : CreateWorkflowInstanceInput) : Statement (Option WorkflowInstance) :=
  .exec
    (fun _ => [.workflowInstance id,
      .subject input.clientId input.workflowType input.subjectEntity input.subjectEntityId])
    fun db => do
      if (findBySubject db input).isSome then return (none, [])
      if db.workflowInstances.any (·.id == id) then throw (.database "workflow_instance_pkey")
      let row : WorkflowInstance := ⟨id, input.clientId, input.workflowType, input.subjectEntity,
        input.subjectEntityId, input.initialState, startedAt, startedAt⟩
      return (some row, [.insertWorkflowInstance row])

def createWorkflowInstance (id startedAt : ℕ) (input : CreateWorkflowInstanceInput) : Statement WorkflowInstance := do
  let existing ← .query fun db => findBySubject db input
  match existing with
  | some row => return row
  | none =>
    let inserted ← insertInstance id startedAt input
    match inserted with
    | none =>
      let raced ← .query fun db => findBySubject db input
      match raced with
      | none => .fail (.unexpected "workflow_instance insert conflicted but no row was found on re-read")
      | some row => return row
    | some row =>
      let _ ← writeAuditEvent startedAt
        (deterministicAuditEventId sha256 [toString row.accountId, toString row.id, "workflow.created"])
        (createdEvidence row row.currentState)
      return row

def findCommand (db : DisputeDb) (clientId workflowInstanceId : ℕ) (commandType : String) (runAfter : ℤ) :
    Option WorkflowCommand :=
  db.workflowCommands.find? fun c => c.accountId == clientId && c.workflowInstanceId == workflowInstanceId &&
    c.commandType == commandType && c.runAfter == runAfter

/-- `INSERT ... ON CONFLICT DO NOTHING RETURNING id`. -/
def insertCommand (row : WorkflowCommand) : Statement Bool :=
  .exec (fun _ => [.command row.accountId row.workflowInstanceId row.commandType row.runAfter]) fun db =>
    if (findCommand db row.accountId row.workflowInstanceId row.commandType row.runAfter).isSome then .ok (false, [])
    else .ok (true, [.insertWorkflowCommand row])

/-- With a payload that names a dispute. -/
def scheduleWorkflowCommand (toISOString : ℤ → String) (startedAt : ℕ) (row : WorkflowCommand) : Statement ℕ := do
  let found ← .query fun db =>
    db.workflowInstances.any fun i => i.accountId == row.accountId && i.id == row.workflowInstanceId
  if !found then .fail .instanceNotFound
  else
    let inserted ← insertCommand row
    if inserted then
      let _ ← writeAuditEvent startedAt
        (deterministicAuditEventId sha256 [toString row.accountId, toString row.id, "workflow.command_scheduled"])
        (rowEvent .system row.accountId "workflow_command" row.id "workflow.command_scheduled" none
          [("workflowInstanceId", .str (toString row.workflowInstanceId)), ("commandType", .str row.commandType),
            ("runAfter", .str (toISOString row.runAfter))])
      return row.id
    else
      let existing ← .query fun db =>
        findCommand db row.accountId row.workflowInstanceId row.commandType row.runAfter
      match existing with
      | none => .fail (.unexpected "no command on re-read")
      | some existing => return existing.id

def DELIVER_DISPUTE_COMMAND_TYPE : String := "deliver_dispute"

def deliveryInput (row : Dispute) : CreateWorkflowInstanceInput :=
  ⟨row.accountId, "dispute_delivery", "dispute", row.id, "pending_delivery"⟩

def approveDispute (toISOString : ℤ → String) (tx startedAt clientId disputeId actorUserId : ℕ) (now : ℤ) :
    Statement Bool := do
  let updated ← updateDispute clientId disputeId [.draft] .sent none
  match updated with
  | none => return false
  | some row =>
    let _ ← writeTransitionAuditEvent sha256 startedAt row .draft .sent "dispute.approved" actorUserId []
    let workflowInstance ← createWorkflowInstance sha256 (newId tx 0) startedAt (deliveryInput row)
    let _ ← scheduleWorkflowCommand sha256 toISOString startedAt
      ⟨newId tx 1, row.accountId, workflowInstance.id, DELIVER_DISPUTE_COMMAND_TYPE, row.id, now⟩
    return true

/-! ## Calls -/

inductive DisputeCall where
  | createDisputeFromFindings (input : CreateDisputeInput)
  | applyFindingAction (clientId findingId : ℕ) (action : FindingAction) (note : Option String) (actorUserId : Option ℕ)
  | patchFindingStatus (clientId findingId : ℕ) (status : VarianceStatus) (note : Option String)
      (actorUserId : Option ℕ)
  | approveDispute (clientId disputeId actorUserId : ℕ) (now : ℤ)
  | acceptDispute (clientId disputeId actorUserId : ℕ)
  | rejectDispute (clientId disputeId actorUserId : ℕ)
  | partiallyAcceptDispute (clientId disputeId actorUserId : ℕ) (acceptedAmount : String)
  | closeDispute (clientId disputeId actorUserId : ℕ)

inductive DisputeResult where
  | created (disputeId : ℕ) (validated : ValidatedDispute)
  | found (found : Bool)

def DisputeCall.body (D : Type) [Decimal D] (toISOString : ℤ → String) (tx startedAt : ℕ) :
    DisputeCall → Statement DisputeResult
  | .createDisputeFromFindings input => do
    let created ← Disputes.createDisputeFromFindings sha256 D tx startedAt input
    return .created created.1 created.2
  | .applyFindingAction clientId findingId action note actorUserId => do
    return .found (← Disputes.applyFindingAction sha256 tx startedAt clientId findingId action note actorUserId)
  | .patchFindingStatus clientId findingId status note actorUserId => do
    return .found (← Disputes.patchFindingStatus sha256 tx startedAt clientId findingId status note actorUserId)
  | .approveDispute clientId disputeId actorUserId now => do
    return .found (← Disputes.approveDispute sha256 toISOString tx startedAt clientId disputeId actorUserId now)
  | .acceptDispute clientId disputeId actorUserId => do
    return .found (← Disputes.acceptDispute sha256 startedAt clientId disputeId actorUserId)
  | .rejectDispute clientId disputeId actorUserId => do
    return .found (← Disputes.rejectDispute sha256 startedAt clientId disputeId actorUserId)
  | .partiallyAcceptDispute clientId disputeId actorUserId acceptedAmount => do
    return .found (← Disputes.partiallyAcceptDispute sha256 D startedAt clientId disputeId actorUserId acceptedAmount)
  | .closeDispute clientId disputeId actorUserId => do
    return .found (← Disputes.closeDispute sha256 startedAt clientId disputeId actorUserId)

def disputesSystem (D : Type) [Decimal D] (toISOString : ℤ → String) :
    System DisputeDb DisputeWrite LockKey DisputesError DisputeResult DisputeCall where
  apply := apply
  body call tx startedAt := call.body sha256 D toISOString tx startedAt

end

end Disputes
