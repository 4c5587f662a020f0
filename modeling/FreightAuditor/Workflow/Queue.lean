import Mathlib.Data.List.Sort
import FreightAuditor.Workflow.Instances

/- The queue of the workflow: due work items, the scan that claims them, and the jobs that run them.

   `workflow_command` and `workflow_outbox_message` are two tables of one shape. A scan tick
   returns stale claims to `pending` (or gives them up), claims what is due, and sends a job for
   each claim, in one transaction. A job runs the handler of its item and then marks the item
   done. Handlers are a parameter: what they do elsewhere is an `effect`, and to the queue they
   can only add. -/
namespace WorkQueue

open Claims (AuditEvent AuditEventEvidence sameEvidence deterministicAuditEventId)
open ReadCommitted
open Workflow (WorkflowInstance identifierFormat)

/-! ## Tables -/

inductive WorkTable where
  | workflowCommand
  | workflowOutboxMessage
  deriving DecidableEq

instance instDecidableForallWorkTable (p : WorkTable → Prop) [DecidablePred p] : Decidable (∀ table, p table) :=
  decidable_of_iff (p .workflowCommand ∧ p .workflowOutboxMessage)
    ⟨fun h table => by cases table; exacts [h.1, h.2], fun h => ⟨h _, h _⟩⟩

inductive WorkStatus where
  | pending
  | claimed
  /-- `done` of a command, `delivered` of a message. -/
  | done
  | failed
  deriving DecidableEq

structure WorkItem where
  id : ℕ
  accountId : ℕ
  workflowInstanceId : ℕ
  /-- The command a message was recorded by; a command's own id. -/
  commandId : ℕ
  /-- Of a message; empty for a command. -/
  dedupeKey : String
  /-- `command_type`, `message_type`. -/
  typeKey : String
  payload : Json.Value
  /-- `run_after` of a command, `created_at` of a message. -/
  due : ℕ
  status : WorkStatus
  attempts : ℕ
  claimedAt : Option ℕ

structure Account where
  id : ℕ
  isActive : Bool

/-- The data of a job. An ISO time is the instant it denotes, in microseconds. -/
structure JobPayload where
  schemaVersion : ℕ
  clientId : ℕ
  idempotencyKey : String
  requestedAt : ℕ
  /-- `commandId` of a command's job, `outboxMessageId` of a message's. -/
  itemId : ℕ
  workflowInstanceId : ℕ
  commandId : ℕ
  typeKey : String
  payload : Json.Value

structure Job where
  id : String
  table : WorkTable
  data : JobPayload

structure WorkDb where
  accounts : List Account
  instances : List WorkflowInstance
  rows : WorkTable → List WorkItem
  /-- Every job ever sent to the two queues. -/
  jobs : List Job
  auditEvents : List AuditEvent
  /-- What handlers wrote elsewhere. -/
  effects : List String

inductive WorkWrite where
  | insertItem (table : WorkTable) (row : WorkItem)
  | reclaim (table : WorkTable) (ids : List ℕ)
  | claim (table : WorkTable) (ids : List ℕ) (now : ℕ)
  | complete (table : WorkTable) (id : ℕ)
  | sendJob (job : Job)
  | insertAuditEvent (row : AuditEvent)
  | effect (text : String)

def maxAttempts : ℕ := 5

/-- 30 minutes. -/
def staleAfter : ℕ := 30 * 60 * 1000000

def batchLimit : ℕ := 20

def WorkItem.reclaim (row : WorkItem) : WorkItem :=
  { row with status := if maxAttempts ≤ row.attempts then .failed else .pending, claimedAt := none }

def WorkItem.claim (now : ℕ) (row : WorkItem) : WorkItem :=
  { row with status := .claimed, attempts := row.attempts + 1, claimedAt := some now }

def WorkItem.complete (row : WorkItem) : WorkItem := { row with status := .done }

/-- What a write does to a row of the table. -/
def WorkItem.write (table : WorkTable) (row : WorkItem) : WorkWrite → WorkItem
  | .reclaim table' ids => if table' = table ∧ row.id ∈ ids then row.reclaim else row
  | .claim table' ids now => if table' = table ∧ row.id ∈ ids then row.claim now else row
  | .complete table' id => if table' = table ∧ row.id = id then row.complete else row
  | _ => row

/-- A job whose id is taken is not sent. -/
def applyWork (db : WorkDb) (write : WorkWrite) : WorkDb :=
  match write with
  | .insertItem table row =>
    { db with rows := fun t => if t = table then db.rows t ++ [row] else db.rows t }
  | .sendJob job => if db.jobs.any (·.id == job.id) then db else { db with jobs := db.jobs ++ [job] }
  | .insertAuditEvent row => { db with auditEvents := db.auditEvents ++ [row] }
  | .effect text => { db with effects := db.effects ++ [text] }
  | _ => { db with rows := fun t => (db.rows t).map fun row => row.write t write }

/-- A row, or a unique key. -/
inductive WorkLock where
  | item (table : WorkTable) (id : ℕ)
  | itemPkey (table : WorkTable) (id : ℕ)
  | commandKey (accountId workflowInstanceId : ℕ) (commandType : String) (runAfter : ℕ)
  | dedupeKey (accountId : ℕ) (key : String)
  | job (id : String)
  | auditEvent (id : ℕ)
  deriving DecidableEq

inductive WorkError where
  | schema
  | jobPayloadInvalid
  | jobTenantMismatch
  | unknownType (typeKey : String)
  | instanceNotFound
  | commandNotFound
  | auditEventConflict
  /-- An error of a handler's own. -/
  | handler (message : String)
  /-- A statement the database refuses. -/
  | database (constraint : String)
  deriving DecidableEq

abbrev WorkLog := Log WorkDb WorkWrite WorkLock
abbrev WorkProg (R : Type) := Prog WorkDb WorkWrite WorkLock WorkError R

/-! ## The names of the two pipelines -/

def WorkTable.entity : WorkTable → String
  | .workflowCommand => "workflow_command"
  | .workflowOutboxMessage => "workflow_outbox_message"

def WorkTable.reclaimedEvent : WorkTable → String
  | .workflowCommand => "workflow.command_reclaimed"
  | .workflowOutboxMessage => "workflow.outbox_message_reclaimed"

def WorkTable.failedEvent : WorkTable → String
  | .workflowCommand => "workflow.command_failed"
  | .workflowOutboxMessage => "workflow.outbox_message_failed"

/-- The event the dispatcher writes. -/
def WorkTable.ranEvent : WorkTable → String
  | .workflowCommand => "workflow.command_run"
  | .workflowOutboxMessage => "workflow.outbox_message_sent"

def WorkTable.jobName : WorkTable → String
  | .workflowCommand => "freight.workflow.run-command.v1"
  | .workflowOutboxMessage => "freight.workflow.deliver-outbox-message.v1"

/-! ## Job payloads and ids -/

def isRecord : Json.Value → Bool
  | .obj _ => true
  | _ => false

/-- The check of a job's data against the schema of its queue, which trims the key. -/
def parseJobPayload (data : JobPayload) : Except WorkError JobPayload :=
  let idempotencyKey := JsText.trim data.idempotencyKey
  if data.schemaVersion ≠ 1 ∨ idempotencyKey = "" ∨ 255 < JsText.length idempotencyKey ∨
      identifierFormat data.typeKey = false ∨ isRecord data.payload = false then
    .error .jobPayloadInvalid
  else .ok { data with idempotencyKey }

def WorkTable.keyPrefix : WorkTable → String
  | .workflowCommand => "workflow-command:"
  | .workflowOutboxMessage => "workflow-outbox-message:"

/-- `workflow-command:${id}:${attempts}`, `workflow-outbox-message:${id}:${attempts}`. -/
def attemptKey (table : WorkTable) (id attempts : ℕ) : String :=
  table.keyPrefix ++ toString id ++ ":" ++ toString attempts

/-- The key a job carries: of a message its own, the same in every attempt. -/
def WorkItem.idempotencyKey (table : WorkTable) (row : WorkItem) : String :=
  match table with
  | .workflowCommand => attemptKey table row.id row.attempts
  | .workflowOutboxMessage => row.dedupeKey

/-- The `jobIdKey` passed to `enqueueInTransaction`. -/
def WorkItem.jobIdKey (table : WorkTable) (row : WorkItem) : Option String :=
  match table with
  | .workflowCommand => none
  | .workflowOutboxMessage => some (attemptKey table row.id row.attempts)

def WorkItem.jobPayload (table : WorkTable) (now : ℕ) (row : WorkItem) : JobPayload :=
  { schemaVersion := 1
    clientId := row.accountId
    idempotencyKey := row.idempotencyKey table
    requestedAt := now
    itemId := row.id
    workflowInstanceId := row.workflowInstanceId
    commandId := row.commandId
    typeKey := row.typeKey
    payload := row.payload }

def deterministicJobId (hash : String → String) (name : String) (clientId : ℕ) (key : String) : String :=
  hash (name ++ "\x00" ++ toString clientId ++ "\x00" ++ key)

/-! ## Statements -/

/-- Insert the event, or find it there with the same evidence. -/
def writeAuditEvent (startedAt id : ℕ) (value : AuditEventEvidence) : WorkProg Bool :=
  .exec (fun _ => [.auditEvent id]) fun db =>
    match db.auditEvents.find? (·.id == id) with
    | none => .ok (true, [.insertAuditEvent { value with id := id, recordedAt := startedAt }])
    | some row =>
      if sameEvidence row.toAuditEventEvidence value then .ok (false, []) else .error .auditEventConflict

def systemEvent (table : WorkTable) (clientId itemId : ℕ) (event : String)
    (detail : List (String × Json.Value)) : AuditEventEvidence :=
  { clientId := some clientId
    entity := table.entity
    entityId := some itemId
    event
    actorKind := .system
    actorUserId := none
    ruleVersionId := none
    rubricSnapshotId := none
    detail := some (.obj detail) }

/-- `SELECT id FROM account WHERE is_active = true`. -/
def activeClients (db : WorkDb) : List ℕ := (db.accounts.filter (·.isActive)).map (·.id)

/-- `SELECT ... ORDER BY key LIMIT 20 FOR UPDATE SKIP LOCKED`. `skip` names the rows passed over: at
least those that another transaction has locked. -/
def pick (rows : List WorkItem) (clientId : ℕ) (eligible : WorkItem → Bool) (key : WorkItem → ℕ)
    (skip : List ℕ) : List WorkItem :=
  ((rows.filter fun row => row.accountId == clientId && eligible row && !skip.contains row.id).insertionSort
    fun a b => key a ≤ key b).take batchLimit

def WorkItem.isStale (now : ℕ) (row : WorkItem) : Bool :=
  row.status = .claimed && row.claimedAt.any (· + staleAfter ≤ now)

def WorkItem.isDue (now : ℕ) (row : WorkItem) : Bool := row.status = .pending && row.due ≤ now

def pickStale (table : WorkTable) (clientId now : ℕ) (skip : List ℕ) (db : WorkDb) : List WorkItem :=
  pick (db.rows table) clientId (·.isStale now) (·.claimedAt.getD 0) skip

def pickDue (table : WorkTable) (clientId now : ℕ) (skip : List ℕ) (db : WorkDb) : List WorkItem :=
  pick (db.rows table) clientId (·.isDue now) (·.due) skip

/-- The locks on rows of the table. -/
def itemLocks (table : WorkTable) (rows : List WorkItem) : List WorkLock := rows.map fun row => .item table row.id

def reclaimStaleClaims (table : WorkTable) (clientId now : ℕ) (skip : List ℕ) : WorkProg (List WorkItem) :=
  .exec (fun db => itemLocks table (pickStale table clientId now skip db)) fun db =>
    let picked := pickStale table clientId now skip db
    .ok (picked.map (·.reclaim), [.reclaim table (picked.map (·.id))])

/-- `claimDueWorkflowCommands`, `claimDueOutboxMessages`. -/
def claimDue (table : WorkTable) (clientId now : ℕ) (skip : List ℕ) : WorkProg (List WorkItem) :=
  .exec (fun db => itemLocks table (pickDue table clientId now skip db)) fun db =>
    let picked := pickDue table clientId now skip db
    .ok (picked.map (·.claim now), [.claim table (picked.map (·.id)) now])

/-- `boss.send`, which inserts the job unless its id is there. -/
def sendJob (job : Job) : WorkProg Bool :=
  .exec (fun _ => [.job job.id]) fun db => .ok (!db.jobs.any (·.id == job.id), [.sendJob job])

/-- The row a completion meets: claimed, or already done. -/
def findCompletable (table : WorkTable) (data : JobPayload) (db : WorkDb) : Option WorkItem :=
  (db.rows table).find? fun row => row.accountId == data.clientId && row.id == data.itemId &&
    (row.status == .claimed || row.status == .done)

section

variable (sha256 : String → ℕ)

/-- `completeWorkflowCommand`, `completeOutboxMessage`; the second logs what it completes. -/
def complete (table : WorkTable) (startedAt : ℕ) (data : JobPayload) : WorkProg Bool := do
  let found ← .exec
    (fun db => if (findCompletable table data db).isSome then [.item table data.itemId] else [])
    fun db => .ok ((findCompletable table data db).isSome,
      if (findCompletable table data db).isSome then [.complete table data.itemId] else [])
  if found && table = .workflowOutboxMessage then
    let _ ← writeAuditEvent startedAt
      (deterministicAuditEventId sha256
        [toString data.clientId, toString data.itemId, "workflow.outbox_message_delivered"])
      (systemEvent table data.clientId data.itemId "workflow.outbox_message_delivered" [])
  return found

/-! ## New items -/

structure ScheduleWorkflowCommandInput where
  clientId : ℕ
  workflowInstanceId : ℕ
  commandType : String
  payload : List (String × Json.Value)
  runAfter : ℕ

/-- The items of a table with this account and key. -/
def findCommand (db : WorkDb) (input : ScheduleWorkflowCommandInput) : Option WorkItem :=
  (db.rows .workflowCommand).find? fun row => row.accountId == input.clientId &&
    row.workflowInstanceId == input.workflowInstanceId && row.typeKey == input.commandType &&
    row.due == input.runAfter

def scheduleWorkflowCommand (tx startedAt : ℕ) (input : ScheduleWorkflowCommandInput) : WorkProg Unit := do
  if identifierFormat input.commandType = false then .fail .schema
  else
    let known ← .query fun db => db.instances.any fun i => i.accountId == input.clientId && i.id == input.workflowInstanceId
    if known = false then .fail .instanceNotFound
    else
      let inserted ← .exec
        (fun _ => [.itemPkey .workflowCommand tx,
          .commandKey input.clientId input.workflowInstanceId input.commandType input.runAfter])
        fun db =>
          if (findCommand db input).isSome then .ok (false, [])
          else if (db.rows .workflowCommand).any (·.id == tx) then .error (.database "workflow_command_pkey")
          else .ok (true, [.insertItem .workflowCommand {
            id := tx
            accountId := input.clientId
            workflowInstanceId := input.workflowInstanceId
            commandId := tx
            dedupeKey := ""
            typeKey := input.commandType
            payload := .obj input.payload
            due := input.runAfter
            status := .pending
            attempts := 0
            claimedAt := none }])
      if inserted then
        let _ ← writeAuditEvent startedAt
          (deterministicAuditEventId sha256 [toString input.clientId, toString tx, "workflow.command_scheduled"])
          (systemEvent .workflowCommand input.clientId tx "workflow.command_scheduled"
            [("workflowInstanceId", .str (toString input.workflowInstanceId)),
              ("commandType", .str input.commandType), ("runAfter", .str (toString input.runAfter))])

structure RecordOutboxMessageInput where
  clientId : ℕ
  workflowInstanceId : ℕ
  commandId : ℕ
  dedupeKey : String
  payload : List (String × Json.Value)
  messageType : String

/-- `recordSchema`, which trims the key and the type. -/
def parseRecordInput (input : RecordOutboxMessageInput) : Except WorkError RecordOutboxMessageInput :=
  let dedupeKey := JsText.trim input.dedupeKey
  let messageType := JsText.trim input.messageType
  if dedupeKey = "" ∨ 255 < JsText.length dedupeKey ∨ identifierFormat messageType = false then .error .schema
  else .ok { input with dedupeKey, messageType }

def recordOutboxMessage (tx startedAt : ℕ) (untrusted : RecordOutboxMessageInput) : WorkProg Unit := do
  let input ← .ofExcept (parseRecordInput untrusted)
  let known ← .query fun db =>
    (db.rows .workflowCommand).any fun row => row.accountId == input.clientId && row.id == input.commandId
  if known = false then .fail .commandNotFound
  else
    let inserted ← .exec
      (fun _ => [.itemPkey .workflowOutboxMessage tx, .dedupeKey input.clientId input.dedupeKey])
      fun db =>
        if (db.rows .workflowOutboxMessage).any fun row =>
          row.accountId == input.clientId && row.dedupeKey == input.dedupeKey then .ok (false, [])
        else if !db.instances.any (·.id == input.workflowInstanceId) then
          .error (.database "workflow_outbox_message_workflow_instance_id_fkey")
        else if (db.rows .workflowOutboxMessage).any (·.id == tx) then
          .error (.database "workflow_outbox_message_pkey")
        else .ok (true, [.insertItem .workflowOutboxMessage {
          id := tx
          accountId := input.clientId
          workflowInstanceId := input.workflowInstanceId
          commandId := input.commandId
          dedupeKey := input.dedupeKey
          typeKey := input.messageType
          payload := .obj input.payload
          due := startedAt
          status := .pending
          attempts := 0
          claimedAt := none }])
    if inserted then
      let _ ← writeAuditEvent startedAt
        (deterministicAuditEventId sha256 [toString input.clientId, toString tx, "workflow.outbox_message_recorded"])
        (systemEvent .workflowOutboxMessage input.clientId tx "workflow.outbox_message_recorded"
          [("workflowInstanceId", .str (toString input.workflowInstanceId)),
            ("commandId", .str (toString input.commandId)), ("dedupeKey", .str input.dedupeKey)])

/-! ## Handlers -/

/-- What the dispatcher passes to a handler. -/
structure HandlerCtx where
  clientId : ℕ
  workflowInstanceId : ℕ
  commandId : ℕ
  /-- Of a message. -/
  outboxMessageId : Option ℕ
  idempotencyKey : Option String
  /-- Of a command. -/
  commandType : Option String
  payload : Json.Value

def buildCtx (table : WorkTable) (data : JobPayload) : HandlerCtx :=
  match table with
  | .workflowCommand =>
    ⟨data.clientId, data.workflowInstanceId, data.itemId, none, none, some data.typeKey, data.payload⟩
  | .workflowOutboxMessage =>
    ⟨data.clientId, data.workflowInstanceId, data.commandId, some data.itemId, some data.idempotencyKey, none,
      data.payload⟩

/-- A new item, whose key the transaction found free and holds. -/
structure FreshItem (log : WorkLog) (table : WorkTable) (row : WorkItem) : Prop where
  status : row.status = .pending
  attempts : row.attempts = 0
  trimmed : JsText.trim row.dedupeKey = row.dedupeKey
  free : ∃ p ∈ log.seen, .itemPkey table row.id ∈ p.2 ∧ row.id ∉ (p.1.rows table).map WorkItem.id
  held : .itemPkey table row.id ∈ log.held

/-- The key of the item a write inserts. -/
def WorkWrite.inserted? : WorkWrite → Option (WorkTable × ℕ)
  | .insertItem table row => some (table, row.id)
  | _ => none

/-- The transaction adds items, and leaves those that are there alone. -/
structure OnlyAdds (log : WorkLog) : Prop where
  kinds : ∀ w ∈ log.writes, match w with
    | .insertItem table row => FreshItem log table row
    | .insertAuditEvent _ => True
    | .effect _ => True
    | _ => False
  nodup : (log.writes.filterMap WorkWrite.inserted?).Nodup

/-- The handler registered for a type: any statements that only add. -/
structure Handler where
  run : HandlerCtx → ℕ → ℕ → WorkProg Unit
  onlyAdds : ∀ ctx tx startedAt log, Ends applyWork (run ctx tx startedAt) .empty ⟨⟩ log → OnlyAdds log

/-! ## Jobs -/

/-- The data of a recurring scan. -/
structure ScanPayload where
  schemaVersion : ℕ
  requestedAt : ℕ

def parseScanPayload (data : ScanPayload) : Except WorkError ScanPayload :=
  if data.schemaVersion ≠ 1 then .error .jobPayloadInvalid else .ok data

/-- The rows that the two picks for a client pass over. -/
structure Skips where
  stale : ℕ → List ℕ
  due : ℕ → List ℕ

/-- The audit event of a reclaimed row. -/
def recordReclaimed (table : WorkTable) (startedAt clientId : ℕ) (row : WorkItem) : WorkProg Unit := do
  let event := if row.status = .failed then table.failedEvent else table.reclaimedEvent
  let _ ← writeAuditEvent startedAt
    (deterministicAuditEventId sha256 [toString clientId, toString row.id, event, toString row.attempts])
    (systemEvent table clientId row.id event
      [("workflowInstanceId", .str (toString row.workflowInstanceId)),
        ("attempts", .num (.ofNat row.attempts))])

/-- The loop's body for one client. -/
def reclaimClient (table : WorkTable) (now startedAt : ℕ) (skip : ℕ → List ℕ) (clientId : ℕ) : WorkProg Unit := do
  let rows ← reclaimStaleClaims table clientId now (skip clientId)
  rows.forM (recordReclaimed sha256 table startedAt clientId)

def reclaimStaleClaimsForActiveClients (table : WorkTable) (now startedAt : ℕ) (skip : ℕ → List ℕ) :
    WorkProg Unit := do
  let clients ← .query activeClients
  clients.forM (reclaimClient sha256 table now startedAt skip)

variable (hash : String → String)

def enqueueInTransaction (table : WorkTable) (transactionClientId : ℕ) (untrusted : JobPayload)
    (jobIdKey : Option String) : WorkProg Unit := do
  let data ← .ofExcept (parseJobPayload untrusted)
  if data.clientId ≠ transactionClientId then .fail .jobTenantMismatch
  else
    let _ ← sendJob
      ⟨deterministicJobId hash table.jobName data.clientId (jobIdKey.getD data.idempotencyKey), table, data⟩

/-- The loop's body for one client. -/
def scheduleClient (table : WorkTable) (now : ℕ) (skip : ℕ → List ℕ) (clientId : ℕ) : WorkProg Unit := do
  let due ← claimDue table clientId now (skip clientId)
  due.forM fun row => enqueueInTransaction hash table clientId (row.jobPayload table now) (row.jobIdKey table)

/-- `scheduleWorkflowCommandJobs`, `scheduleOutboxDeliveryJobs`. -/
def scheduleJobs (table : WorkTable) (now : ℕ) (skip : ℕ → List ℕ) : WorkProg Unit := do
  let clients ← .query activeClients
  clients.forM (scheduleClient hash table now skip)

def handleReclaimAndScanJob (table : WorkTable) (startedAt : ℕ) (untrusted : ScanPayload) (skips : Skips) :
    WorkProg Unit := do
  let data ← .ofExcept (parseScanPayload untrusted)
  reclaimStaleClaimsForActiveClients sha256 table data.requestedAt startedAt skips.stale
  scheduleJobs hash table data.requestedAt skips.due

variable (registry : WorkTable → String → Option Handler)

/-- Run the handler, complete the item, and log the run. -/
def dispatch (table : WorkTable) (tx startedAt : ℕ) (data : JobPayload) : WorkProg Unit := do
  match registry table data.typeKey with
  | none => .fail (.unknownType data.typeKey)
  | some handler =>
    handler.run (buildCtx table data) tx startedAt
    let _ ← complete sha256 table startedAt data
    let detail := match table with
      | .workflowCommand => [("workflowInstanceId", Json.Value.str (toString data.workflowInstanceId)),
          ("commandType", .str data.typeKey)]
      | .workflowOutboxMessage => [("workflowInstanceId", .str (toString data.workflowInstanceId)),
          ("commandId", .str (toString data.commandId)), ("messageType", .str data.typeKey)]
    let _ ← writeAuditEvent startedAt
      (deterministicAuditEventId sha256 [toString data.clientId, toString data.itemId, table.ranEvent])
      (systemEvent table data.clientId data.itemId table.ranEvent detail)

/-- `handleRunWorkflowCommandJob`, `handleDeliverOutboxMessageJob`. -/
def handleJob (table : WorkTable) (tx startedAt : ℕ) (untrusted : JobPayload) : WorkProg Unit := do
  let data ← .ofExcept (parseJobPayload untrusted)
  dispatch sha256 registry table tx startedAt data

inductive WorkCall where
  | schedule (input : ScheduleWorkflowCommandInput)
  | record (input : RecordOutboxMessageInput)
  | scan (table : WorkTable) (data : ScanPayload) (skips : Skips)
  | deliver (table : WorkTable) (data : JobPayload)

def workSystem : System WorkDb WorkWrite WorkLock WorkError Unit WorkCall where
  apply := applyWork
  body
    | .schedule input, tx, startedAt => scheduleWorkflowCommand sha256 tx startedAt input
    | .record input, tx, startedAt => recordOutboxMessage sha256 tx startedAt input
    | .scan table data skips, _, startedAt => handleReclaimAndScanJob sha256 hash table startedAt data skips
    | .deliver table data, tx, startedAt => handleJob sha256 registry table tx startedAt data

end

end WorkQueue
