import FreightAuditor.Claims.Tables

/- Workflow instances, their mutable current state and their append-only history.

   `createWorkflowInstance` writes the initial state, and `appendWorkflowTransition` locks
   the instance's row, validates the transition against the state it read, and in a second
   statement moves the state and logs the state it then found. -/
namespace Workflow

open Claims (AuditEvent AuditEventEvidence sameEvidence deterministicAuditEventId)
open ReadCommitted

/-- `WorkflowTransitionMap`. -/
abbrev WorkflowTransitionMap := List (String × List String)

inductive WorkflowError where
  | schema
  | instanceNotFound
  | unknownFromState
  | illegalTransition
  | auditEventConflict
  /-- A statement the database refuses. -/
  | database (constraint : String)
  | unexpected (message : String)
  deriving DecidableEq

def validateWorkflowTransition (fromState toState : String) (allowedTransitions : WorkflowTransitionMap) :
    Except WorkflowError Unit :=
  if fromState = toState then .ok ()
  else
    match allowedTransitions.lookup fromState with
    | none => .error .unknownFromState
    | some allowed => if toState ∈ allowed then .ok () else .error .illegalTransition

/-! ## Tables -/

structure WorkflowInstance where
  id : ℕ
  accountId : ℕ
  workflowType : String
  subjectEntity : String
  subjectEntityId : ℕ
  currentState : String
  createdAt : ℕ
  updatedAt : ℕ
  deriving DecidableEq

structure WorkflowTransition where
  id : ℕ
  accountId : ℕ
  workflowInstanceId : ℕ
  fromState : String
  toState : String
  recordedAt : ℕ
  deriving DecidableEq

structure InstanceDb where
  instances : List WorkflowInstance
  transitions : List WorkflowTransition
  auditEvents : List AuditEvent

inductive InstanceWrite where
  | insertInstance (row : WorkflowInstance)
  /-- The update of the current state with the row it logs, in one statement. -/
  | transition (row : WorkflowTransition)
  | insertAuditEvent (row : AuditEvent)

def WorkflowInstance.transition (row : WorkflowTransition) (instance_ : WorkflowInstance) : WorkflowInstance :=
  if instance_.id = row.workflowInstanceId then
    { instance_ with currentState := row.toState, updatedAt := row.recordedAt }
  else instance_

def applyInstanceWrite (db : InstanceDb) : InstanceWrite → InstanceDb
  | .insertInstance row => { db with instances := db.instances ++ [row] }
  | .transition row =>
    { db with
      instances := db.instances.map (WorkflowInstance.transition row)
      transitions := db.transitions ++ [row] }
  | .insertAuditEvent row => { db with auditEvents := db.auditEvents ++ [row] }

/-- The row of an instance, or a unique key. -/
inductive InstanceLock where
  | instance (id : ℕ)
  | instancePkey (id : ℕ)
  | subject (accountId : ℕ) (workflowType subjectEntity : String) (subjectEntityId : ℕ)
  | auditEvent (id : ℕ)
  deriving DecidableEq

abbrev InstanceProg (R : Type) := Prog InstanceDb InstanceWrite InstanceLock WorkflowError R

/-! ## Operations -/

/-- The CHECK on states and types: `^[a-z][a-z0-9_]*$`. -/
def identifierFormat (text : String) : Bool :=
  match text.toList with
  | [] => false
  | c :: rest => c.isLower && rest.all fun c => c.isLower || c.isDigit || c == '_'

structure CreateWorkflowInstanceInput where
  clientId : ℕ
  workflowType : String
  subjectEntity : String
  subjectEntityId : ℕ
  initialState : String

structure AppendWorkflowTransitionInput where
  clientId : ℕ
  workflowInstanceId : ℕ
  toState : String

inductive InstanceCall where
  | create (input : CreateWorkflowInstanceInput)
  | append (input : AppendWorkflowTransitionInput)

inductive InstanceResult where
  | row (instance_ : WorkflowInstance)
  | found (found : Bool)

/-- Insert the event, or find it there with the same evidence. -/
def writeAuditEvent (startedAt id : ℕ) (value : AuditEventEvidence) : InstanceProg Bool :=
  .exec (fun _ => [.auditEvent id]) fun db =>
    match db.auditEvents.find? (·.id == id) with
    | none => .ok (true, [.insertAuditEvent { value with id := id, recordedAt := startedAt }])
    | some row =>
      if sameEvidence row.toAuditEventEvidence value then .ok (false, []) else .error .auditEventConflict

def findBySubject (db : InstanceDb) (input : CreateWorkflowInstanceInput) : Option WorkflowInstance :=
  db.instances.find? fun i => i.accountId == input.clientId && i.workflowType == input.workflowType &&
    i.subjectEntity == input.subjectEntity && i.subjectEntityId == input.subjectEntityId

def findInstance (db : InstanceDb) (clientId id : ℕ) : Option WorkflowInstance :=
  db.instances.find? fun i => i.accountId == clientId && i.id == id

/-- The evidence of a creation, which names the initial state. -/
def createdEvidence (row : WorkflowInstance) (initialState : String) : AuditEventEvidence :=
  { clientId := some row.accountId
    entity := "workflow_instance"
    entityId := some row.id
    event := "workflow.created"
    actorKind := .system
    actorUserId := none
    ruleVersionId := none
    rubricSnapshotId := none
    detail := some (.obj [("workflowType", .str row.workflowType), ("subjectEntity", .str row.subjectEntity),
      ("subjectEntityId", .str (toString row.subjectEntityId)), ("initialState", .str initialState)]) }

def transitionedEvidence (row : WorkflowTransition) : AuditEventEvidence :=
  { clientId := some row.accountId
    entity := "workflow_instance"
    entityId := some row.workflowInstanceId
    event := "workflow.transitioned"
    actorKind := .system
    actorUserId := none
    ruleVersionId := none
    rubricSnapshotId := none
    detail := some (.obj [("fromState", .str row.fromState), ("toState", .str row.toState),
      ("transitionId", .str (toString row.id))]) }

/-- `INSERT INTO workflow_instance ... ON CONFLICT DO NOTHING RETURNING ...`. -/
def insertInstance (tx startedAt : ℕ) (input : CreateWorkflowInstanceInput) :
    InstanceProg (Option WorkflowInstance) :=
  .exec
    (fun _ => [.instancePkey tx,
      .subject input.clientId input.workflowType input.subjectEntity input.subjectEntityId])
    fun db => do
      if !(identifierFormat input.workflowType && identifierFormat input.subjectEntity &&
          identifierFormat input.initialState) then throw (.database "workflow_instance_check")
      if (findBySubject db input).isSome then return (none, [])
      if db.instances.any (·.id == tx) then throw (.database "workflow_instance_pkey")
      let row : WorkflowInstance := ⟨tx, input.clientId, input.workflowType, input.subjectEntity,
        input.subjectEntityId, input.initialState, startedAt, startedAt⟩
      return (some row, [.insertInstance row])

section

variable (sha256 : String → ℕ)

def createWorkflowInstance (tx startedAt : ℕ) (input : CreateWorkflowInstanceInput) :
    InstanceProg WorkflowInstance := do
  let existing ← .query fun db => findBySubject db input
  match existing with
  | some row => return row
  | none =>
    let inserted ← insertInstance tx startedAt input
    match inserted with
    | none =>
      let raced ← .query fun db => findBySubject db input
      match raced with
      | none => .fail (.unexpected "workflow_instance insert conflicted but no row was found on re-read")
      | some row => return row
    | some row =>
      let _ ← writeAuditEvent startedAt
        (deterministicAuditEventId sha256 [toString row.accountId, toString row.id, "workflow.created"])
        (createdEvidence row row.currentState)
      return row

/-- `SELECT ... FOR UPDATE`, which waits for the row. -/
def selectForUpdate (clientId id : ℕ) : InstanceProg (Option WorkflowInstance) :=
  .exec (fun db => if (findInstance db clientId id).isSome then [.instance id] else [])
    fun db => .ok (findInstance db clientId id, [])

/-- Update the current state and log the transition from the state the statement finds. -/
def updateAndLog (tx startedAt : ℕ) (input : AppendWorkflowTransitionInput) :
    InstanceProg (Option WorkflowTransition) :=
  .exec
    (fun db => if (findInstance db input.clientId input.workflowInstanceId).isSome
      then [.instance input.workflowInstanceId] else [])
    fun db =>
      match findInstance db input.clientId input.workflowInstanceId with
      | none => .ok (none, [])
      | some old => do
        if !identifierFormat input.toState then throw (.database "workflow_instance_current_state_check")
        if db.transitions.any (·.id == tx) then throw (.database "workflow_transition_pkey")
        let row : WorkflowTransition :=
          ⟨tx, old.accountId, old.id, old.currentState, input.toState, startedAt⟩
        return (some row, [.transition row])

/-- `appendWorkflowTransition`, with the transition map of the instance's workflow type. -/
def appendWorkflowTransition (allowedTransitions : WorkflowTransitionMap) (tx startedAt : ℕ)
    (input : AppendWorkflowTransitionInput) : InstanceProg Bool := do
  if input.toState = "" then .fail .schema
  else
    let current ← selectForUpdate input.clientId input.workflowInstanceId
    match current with
    | none => .fail .instanceNotFound
    | some instance_ =>
      .ofExcept (validateWorkflowTransition instance_.currentState input.toState allowedTransitions)
      let logged ← updateAndLog tx startedAt input
      match logged with
      | none => return false
      | some row =>
        let _ ← writeAuditEvent startedAt
          (deterministicAuditEventId sha256 [toString row.accountId, toString row.id, "workflow.transitioned"])
          (transitionedEvidence row)
        return true

/-- `maps` gives the transition map that callers pass for an instance. -/
def instanceSystem (maps : ℕ → WorkflowTransitionMap) :
    System InstanceDb InstanceWrite InstanceLock WorkflowError InstanceResult InstanceCall where
  apply := applyInstanceWrite
  body
    | .create input, tx, startedAt => do
      return .row (← createWorkflowInstance sha256 tx startedAt input)
    | .append input, tx, startedAt => do
      return .found (← appendWorkflowTransition sha256 (maps input.workflowInstanceId) tx startedAt input)

end

end Workflow
