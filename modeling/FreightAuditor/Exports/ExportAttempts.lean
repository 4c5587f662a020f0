import Mathlib.Data.List.Basic
import FreightAuditor.Library.JsText
import FreightAuditor.Library.Runs
import FreightAuditor.Library.Sessions

/- The export of a record to another system, and the trace of the attempt.

   A delivery asks the adapter of the system, records what it answered, and throws where the answer is
   `FAILED`, so that the queue tries again. All of it is one transaction, which a throw rolls back: a failed
   attempt leaves nothing (`transact_handleExportRecordJob`). -/
namespace Exports

open Sessions

/-- A job of the queue, as `parseJobPayload` returns it; the adapter alone reads the rest of it. -/
structure ExportPayload where
  clientId : ℕ
  idempotencyKey : String
  claimId : Option ℕ
  paymentGateDecisionId : Option ℕ
  systemCode : String
  deriving DecidableEq

inductive ExportResult where
  | acknowledged (externalReference adapterVersion : String)
  | failed (reason adapterVersion : String)
  | notConfigured (systemCode : String)
  deriving DecidableEq

inductive AckStatus where
  | ACKNOWLEDGED | FAILED
  deriving DecidableEq

/-- A row of `export_acknowledgement` but for its id. -/
structure Attempt where
  accountId : ℕ
  claimId : Option ℕ
  paymentGateDecisionId : Option ℕ
  systemCode : String
  adapterVersion : String
  dedupeKey : String
  status : AckStatus
  externalReference : Option String
  reason : Option String
  deriving DecidableEq

structure Acknowledgement extends Attempt where
  id : ℕ
  deriving DecidableEq

/-- `export_acknowledgement.recorded`; its id is made of the tenant and the row. -/
structure RecordedEvent where
  clientId : ℕ
  entityId : ℕ
  claimId : Option ℕ
  paymentGateDecisionId : Option ℕ
  systemCode : String
  status : AckStatus
  deriving DecidableEq

/-- Claims and decisions by their tenant and id. -/
structure ExportDb where
  claims : List (ℕ × ℕ)
  decisions : List (ℕ × ℕ)
  acknowledgements : List Acknowledgement
  events : List RecordedEvent

inductive ExportError where
  | MISSING_ORIGIN | CLAIM_NOT_FOUND | PAYMENT_GATE_DECISION_NOT_FOUND | AUDIT_EVENT_CONFLICT
  /-- `ExportRecordFailedError`. -/
  | exportFailed (reason : String)
  /-- A statement that the database refuses. -/
  | sql
  deriving DecidableEq

abbrev Export (A : Type) := Program ExportDb ExportError A

/-! ## Statements -/

def select {A : Type} (f : ExportDb → A) : Export A := statement .sql fun db => some (f db, db)

/-- No text column takes a NUL. -/
def storable (text : String) : Bool := text.toList.all (· ≠ '\x00')

def Attempt.storable (a : Attempt) : Bool :=
  Exports.storable a.systemCode && Exports.storable a.adapterVersion && Exports.storable a.dedupeKey &&
    (a.externalReference.all Exports.storable && a.reason.all Exports.storable)

/-- The partial unique index. -/
def sameExport (accountId : ℕ) (systemCode dedupeKey : String) (a : Attempt) : Bool :=
  a.status = .ACKNOWLEDGED ∧ a.accountId = accountId ∧ a.systemCode = systemCode ∧ a.dedupeKey = dedupeKey

def insertRow (a : Attempt) (db : ExportDb) : (ℕ × Bool) × ExportDb :=
  ((db.acknowledgements.length, true),
    { db with acknowledgements := db.acknowledgements ++ [{ a with id := db.acknowledgements.length }] })

/-- The two statements: an acknowledgement is inserted unless it is there, a failure always is. -/
def insertAttempt (a : Attempt) (db : ExportDb) : Option ((ℕ × Bool) × ExportDb) :=
  if a.storable then
    match a.status with
    | .ACKNOWLEDGED =>
      match db.acknowledgements.find? fun r => sameExport a.accountId a.systemCode a.dedupeKey r.toAttempt with
      | some r => some ((r.id, false), db)
      | none => some (insertRow a db)
    | .FAILED => some (insertRow a db)
  else none

def eventOf (a : Attempt) (id : ℕ) : RecordedEvent :=
  ⟨a.accountId, id, a.claimId, a.paymentGateDecisionId, a.systemCode, a.status⟩

def RecordedEvent.sameId (event e : RecordedEvent) : Bool := e.clientId == event.clientId && e.entityId == event.entityId

/-- `writeAuditEvent`: an event is there once, with one content. -/
def writeEvent (event : RecordedEvent) (db : ExportDb) : Option (Unit × ExportDb) :=
  match db.events.find? event.sameId with
  | none => some ((), { db with events := db.events ++ [event] })
  | some e => if e = event then some ((), db) else none

/-! ## The delivery -/

section

variable (toUpperCase : String → String)

def normalizeSystemCode (systemCode : String) : String := toUpperCase (JsText.trim systemCode)

/-- `ExportAdapterRegistry.export`, where the adapter of the system answers with `answer`. -/
def registryExport (adapters : List String) (systemCode : String) (answer : ExportResult) : ExportResult :=
  if adapters.contains (normalizeSystemCode toUpperCase systemCode) then answer
  else .notConfigured (normalizeSystemCode toUpperCase systemCode)

/-- What is recorded of a settled result. -/
def attemptOf (payload : ExportPayload) : ExportResult → Option Attempt
  | .acknowledged externalReference adapterVersion => some
    { accountId := payload.clientId
      claimId := payload.claimId
      paymentGateDecisionId := payload.paymentGateDecisionId
      systemCode := normalizeSystemCode toUpperCase payload.systemCode
      adapterVersion
      dedupeKey := payload.idempotencyKey
      status := .ACKNOWLEDGED
      externalReference := some externalReference
      reason := none }
  | .failed reason adapterVersion => some
    { accountId := payload.clientId
      claimId := payload.claimId
      paymentGateDecisionId := payload.paymentGateDecisionId
      systemCode := normalizeSystemCode toUpperCase payload.systemCode
      adapterVersion
      dedupeKey := payload.idempotencyKey
      status := .FAILED
      externalReference := none
      reason := some reason }
  | .notConfigured _ => none

/-- The origin, if it is given, has to be the tenant's. -/
def confirmOrigin (error : ExportError) (rows : ExportDb → List (ℕ × ℕ)) (clientId : ℕ) : Option ℕ → Export Unit
  | none => pure ()
  | some id => do
    let found ← select fun db => (rows db).contains (clientId, id)
    if found then pure () else throw error

def recordExportAcknowledgement (a : Attempt) : Export Unit := do
  if a.claimId = none ∧ a.paymentGateDecisionId = none then throw .MISSING_ORIGIN
  confirmOrigin .CLAIM_NOT_FOUND ExportDb.claims a.accountId a.claimId
  confirmOrigin .PAYMENT_GATE_DECISION_NOT_FOUND ExportDb.decisions a.accountId a.paymentGateDecisionId
  let (id, created) ← statement .sql (insertAttempt a)
  if created then
    statement .AUDIT_EVENT_CONFLICT (writeEvent (eventOf a id))
  else pure ()

def handleExportRecordJob (adapters : List String) (payload : ExportPayload) (answer : ExportResult) : Export Unit :=
  let result := registryExport toUpperCase adapters payload.systemCode answer
  match attemptOf toUpperCase payload result with
  | none => pure ()
  | some a => do
    recordExportAcknowledgement a
    match result with
    | .failed reason _ => throw (.exportFailed reason)
    | _ => pure ()

end

/-! ## One delivery -/

/-- The attempt has an origin, and its origins are the tenant's. -/
def HasOrigin (db : ExportDb) (a : Attempt) : Prop :=
  ¬ (a.claimId = none ∧ a.paymentGateDecisionId = none) ∧ (∀ id, a.claimId = some id → (a.accountId, id) ∈ db.claims) ∧
    ∀ id, a.paymentGateDecisionId = some id → (a.accountId, id) ∈ db.decisions

/-- Events are of rows that are there. -/
def ExportDb.Sound (db : ExportDb) : Prop := ∀ e ∈ db.events, e.entityId < db.acknowledgements.length

/-- The rows once the attempt is inserted, with its event. -/
def recorded (a : Attempt) (db : ExportDb) : ExportDb :=
  { (insertRow a db).2 with events := db.events ++ [eventOf a db.acknowledgements.length] }

section

variable {a : Attempt} {db : ExportDb}

theorem exec_confirmOrigin_ok {error : ExportError} {rows : ExportDb → List (ℕ × ℕ)} {clientId : ℕ} {origin : Option ℕ}
    (h : ∀ id, origin = some id → (clientId, id) ∈ rows db) :
    exec (confirmOrigin error rows clientId origin) ⟨db, false⟩ = (.ok (), ⟨db, false⟩) := by
  cases origin with
  | none => rfl
  | some id =>
    have hread : exec (select fun db => (rows db).contains (clientId, id)) ⟨db, false⟩ =
        (.ok ((rows db).contains (clientId, id)), ⟨db, false⟩) := exec_statement_some rfl
    rw [confirmOrigin, exec_bind_ok hread, if_pos (List.contains_iff_mem.mpr (h id rfl)), exec_pure]

theorem exec_confirmOrigin_error {error : ExportError} {rows : ExportDb → List (ℕ × ℕ)} {clientId : ℕ} {origin : Option ℕ}
    (h : ¬ ∀ id, origin = some id → (clientId, id) ∈ rows db) :
    exec (confirmOrigin error rows clientId origin) ⟨db, false⟩ = (.error error, ⟨db, false⟩) := by
  cases origin with
  | none => exact absurd (fun id hid => by cases hid) h
  | some id =>
    have hread : exec (select fun db => (rows db).contains (clientId, id)) ⟨db, false⟩ =
        (.ok ((rows db).contains (clientId, id)), ⟨db, false⟩) := exec_statement_some rfl
    have hmem : (clientId, id) ∉ rows db := fun hmem => h fun id' hid => Option.some.inj hid ▸ hmem
    rw [confirmOrigin, exec_bind_ok hread, if_neg fun hc => hmem (List.contains_iff_mem.mp hc), exec_throw]

/-- With its origins confirmed, the attempt is inserted. -/
theorem exec_record_of_hasOrigin (h : HasOrigin db a) :
    exec (recordExportAcknowledgement a) ⟨db, false⟩ = exec (do
      let (id, created) ← statement .sql (insertAttempt a)
      if created then
        statement .AUDIT_EVENT_CONFLICT (writeEvent (eventOf a id))
      else pure ()) ⟨db, false⟩ := by
  rw [recordExportAcknowledgement, if_neg h.1]
  rw [exec_bind_ok (exec_confirmOrigin_ok h.2.1), exec_bind_ok (exec_confirmOrigin_ok h.2.2)]

/-- A new row is a row with a new id, so that its event is there only once. -/
theorem exec_record_created (hdb : db.Sound) (h : HasOrigin db a) (hins : insertAttempt a db = some (insertRow a db)) :
    exec (recordExportAcknowledgement a) ⟨db, false⟩ = (.ok (), ⟨recorded a db, false⟩) := by
  have hfresh : db.events.find? (eventOf a db.acknowledgements.length).sameId = none := by
    refine List.find?_eq_none.mpr fun e he hsame => ?_
    rw [RecordedEvent.sameId, Bool.and_eq_true, beq_iff_eq, beq_iff_eq] at hsame
    exact Nat.lt_irrefl _ (hsame.2 ▸ hdb e he)
  have hevent : writeEvent (eventOf a db.acknowledgements.length) (insertRow a db).2 = some ((), recorded a db) := by
    rw [writeEvent, show (insertRow a db).2.events = db.events from rfl, hfresh]
    rfl
  rw [exec_record_of_hasOrigin h, exec_bind_ok (exec_statement_some hins)]
  exact exec_statement_some hevent

theorem exec_record_again {id : ℕ} (h : HasOrigin db a) (hins : insertAttempt a db = some ((id, false), db)) :
    exec (recordExportAcknowledgement a) ⟨db, false⟩ = (.ok (), ⟨db, false⟩) := by
  rw [exec_record_of_hasOrigin h, exec_bind_ok (exec_statement_some hins)]
  rfl

/-- Without an origin of the tenant, or with a text that no column takes, nothing is recorded. -/
theorem exec_record_refused (h : ¬ (HasOrigin db a ∧ a.storable = true)) :
    ∃ e s, exec (recordExportAcknowledgement a) ⟨db, false⟩ = (.error e, s) := by
  by_cases horigin : HasOrigin db a
  · have hins : insertAttempt a db = none := if_neg fun hs => h ⟨horigin, hs⟩
    rw [exec_record_of_hasOrigin horigin, exec_bind_error (exec_statement_none hins)]
    exact ⟨_, _, rfl⟩
  · rw [recordExportAcknowledgement]
    by_cases hnone : a.claimId = none ∧ a.paymentGateDecisionId = none
    · rw [if_pos hnone]
      exact ⟨_, _, rfl⟩
    rw [if_neg hnone]
    by_cases hclaim : ∀ id, a.claimId = some id → (a.accountId, id) ∈ db.claims
    · have hdecision : ¬ ∀ id, a.paymentGateDecisionId = some id → (a.accountId, id) ∈ db.decisions :=
        fun hd => horigin ⟨hnone, hclaim, hd⟩
      rw [exec_bind_ok (exec_confirmOrigin_ok hclaim), exec_bind_error (exec_confirmOrigin_error hdecision)]
      exact ⟨_, _, rfl⟩
    · rw [exec_bind_error (exec_confirmOrigin_error hclaim)]
      exact ⟨_, _, rfl⟩

end

section

variable {toUpperCase : String → String} {adapters : List String} {payload : ExportPayload} {answer : ExportResult} {a : Attempt}
  {db : ExportDb}

/-- A failed attempt leaves the rows as they were: the error that asks for another try rolls back what was recorded. -/
theorem transact_failed {reason adapterVersion : String}
    (hresult : registryExport toUpperCase adapters payload.systemCode answer = .failed reason adapterVersion) :
    ∃ e, transact (handleExportRecordJob toUpperCase adapters payload answer) db = (.error e, db) := by
  rw [handleExportRecordJob, hresult]
  simp only [attemptOf]
  rw [transact]
  rcases h : exec (recordExportAcknowledgement _) ⟨db, false⟩ with ⟨⟨e⟩ | ⟨u⟩, s⟩
  · rw [exec_bind_error h]
    exact ⟨e, rfl⟩
  · rw [exec_bind_ok h, exec_throw]
    exact ⟨_, rfl⟩

theorem transact_notConfigured {systemCode : String}
    (hresult : registryExport toUpperCase adapters payload.systemCode answer = .notConfigured systemCode) :
    transact (handleExportRecordJob toUpperCase adapters payload answer) db = (.ok (), db) := by
  rw [handleExportRecordJob, hresult]
  rfl

section

variable {externalReference adapterVersion : String}
  (hresult : registryExport toUpperCase adapters payload.systemCode answer = .acknowledged externalReference adapterVersion)
  (ha : attemptOf toUpperCase payload (.acknowledged externalReference adapterVersion) = some a)

include hresult ha

/-- An acknowledged attempt is what its recording is. -/
theorem handle_acknowledged :
    handleExportRecordJob toUpperCase adapters payload answer = (recordExportAcknowledgement a >>= fun _ => pure ()) := by
  rw [handleExportRecordJob, hresult]
  simp only [ha]

theorem transact_created (hdb : db.Sound) (h : HasOrigin db a) (hins : insertAttempt a db = some (insertRow a db)) :
    transact (handleExportRecordJob toUpperCase adapters payload answer) db = (.ok (), recorded a db) := by
  rw [handle_acknowledged hresult ha, transact, exec_bind_ok (exec_record_created hdb h hins)]
  rfl

theorem transact_again {id : ℕ} (h : HasOrigin db a) (hins : insertAttempt a db = some ((id, false), db)) :
    transact (handleExportRecordJob toUpperCase adapters payload answer) db = (.ok (), db) := by
  rw [handle_acknowledged hresult ha, transact, exec_bind_ok (exec_record_again h hins)]
  rfl

theorem transact_refused (h : ¬ (HasOrigin db a ∧ a.storable = true)) :
    ∃ e, transact (handleExportRecordJob toUpperCase adapters payload answer) db = (.error e, db) := by
  obtain ⟨e, s, hexec⟩ := exec_record_refused h
  rw [handle_acknowledged hresult ha, transact, exec_bind_error hexec]
  exact ⟨e, rfl⟩

end

end

/-! ## Deliveries, one after another -/

def ExportResult.isFailed : ExportResult → Bool
  | .failed _ _ => true
  | _ => false

/-- A delivery, what the registry answered, and whether the job failed. -/
structure Delivered where
  payload : ExportPayload
  result : ExportResult
  threw : Bool

structure ExportWorld where
  db : ExportDb
  delivered : List Delivered

inductive ExportEvent where
  | deliver (payload : ExportPayload) (answer : ExportResult)
  /-- The claims and the decisions that there are from now on. -/
  | origins (claims decisions : List (ℕ × ℕ))

section

variable (toUpperCase : String → String) (adapters : List String)

def exportStep (w : ExportWorld) : ExportEvent → Option ExportWorld
  | .deliver payload answer =>
    let result := registryExport toUpperCase adapters payload.systemCode answer
    let outcome := transact (handleExportRecordJob toUpperCase adapters payload answer) w.db
    some { db := outcome.2, delivered := w.delivered ++ [⟨payload, result, !outcome.1.isOk⟩] }
  | .origins claims decisions => some { w with db := { w.db with claims, decisions } }

/-- What a delivery is an attempt of, where the adapter answered `FAILED`. -/
def Delivered.failure (d : Delivered) : Option Attempt :=
  if d.result.isFailed then attemptOf toUpperCase d.payload d.result else none

/-- The delivery was acknowledged under the key. -/
def Delivered.acknowledgedAs (accountId : ℕ) (systemCode dedupeKey : String) (d : Delivered) : Bool :=
  (attemptOf toUpperCase d.payload d.result).any (sameExport accountId systemCode dedupeKey)

/-- Every attempt left its trace, and took effect once. -/
structure Traced (w : ExportWorld) : Prop where
  failed : ((w.db.acknowledgements.filter (·.status = .FAILED)).map Acknowledgement.toAttempt).Perm
    (w.delivered.filterMap (Delivered.failure toUpperCase))
  events : ∀ r ∈ w.db.acknowledgements, r.status = .FAILED → w.db.events.count (eventOf r.toAttempt r.id) = 1
  acknowledged : ∀ accountId systemCode dedupeKey,
    w.db.acknowledgements.countP (fun r => sameExport accountId systemCode dedupeKey r.toAttempt) =
      if w.delivered.any (Delivered.acknowledgedAs toUpperCase accountId systemCode dedupeKey) then 1 else 0
  retried : ∀ d ∈ w.delivered, d.threw = d.result.isFailed

/-- The adapter does not answer `FAILED`, and what it acknowledged can be recorded. -/
def Settles (w : ExportWorld) : ExportEvent → Prop
  | .deliver payload answer =>
    match registryExport toUpperCase adapters payload.systemCode answer with
    | .acknowledged externalReference adapterVersion =>
      ∀ a, attemptOf toUpperCase payload (.acknowledged externalReference adapterVersion) = some a →
        HasOrigin w.db a ∧ a.storable = true
    | .failed _ _ => False
    | .notConfigured _ => True
  | .origins _ _ => True

/-- What one delivery does. -/
inductive Delivery (w : ExportWorld) (payload : ExportPayload) (answer : ExportResult) : ExportWorld → Prop
  | failed (reason adapterVersion : String)
      (hresult : registryExport toUpperCase adapters payload.systemCode answer = .failed reason adapterVersion) :
      Delivery w payload answer ⟨w.db, w.delivered ++ [⟨payload, .failed reason adapterVersion, true⟩]⟩
  | notConfigured (systemCode : String)
      (hresult : registryExport toUpperCase adapters payload.systemCode answer = .notConfigured systemCode) :
      Delivery w payload answer ⟨w.db, w.delivered ++ [⟨payload, .notConfigured systemCode, false⟩]⟩
  | created (externalReference adapterVersion : String) (a : Attempt)
      (hresult : registryExport toUpperCase adapters payload.systemCode answer = .acknowledged externalReference adapterVersion)
      (ha : attemptOf toUpperCase payload (.acknowledged externalReference adapterVersion) = some a)
      (hgoes : HasOrigin w.db a ∧ a.storable = true)
      (hnew : ∀ r ∈ w.db.acknowledgements, sameExport a.accountId a.systemCode a.dedupeKey r.toAttempt = false) :
      Delivery w payload answer
        ⟨recorded a w.db, w.delivered ++ [⟨payload, .acknowledged externalReference adapterVersion, false⟩]⟩
  | again (externalReference adapterVersion : String) (a : Attempt) (r : Acknowledgement)
      (hresult : registryExport toUpperCase adapters payload.systemCode answer = .acknowledged externalReference adapterVersion)
      (ha : attemptOf toUpperCase payload (.acknowledged externalReference adapterVersion) = some a)
      (hgoes : HasOrigin w.db a ∧ a.storable = true) (hr : r ∈ w.db.acknowledgements)
      (hsame : sameExport a.accountId a.systemCode a.dedupeKey r.toAttempt = true) :
      Delivery w payload answer ⟨w.db, w.delivered ++ [⟨payload, .acknowledged externalReference adapterVersion, false⟩]⟩
  | refused (externalReference adapterVersion : String) (a : Attempt)
      (hresult : registryExport toUpperCase adapters payload.systemCode answer = .acknowledged externalReference adapterVersion)
      (ha : attemptOf toUpperCase payload (.acknowledged externalReference adapterVersion) = some a)
      (hstays : ¬ (HasOrigin w.db a ∧ a.storable = true)) :
      Delivery w payload answer ⟨w.db, w.delivered ++ [⟨payload, .acknowledged externalReference adapterVersion, true⟩]⟩

end

section

variable {toUpperCase : String → String} {adapters : List String} {payload : ExportPayload} {answer : ExportResult}
  {w w' : ExportWorld} {e : ExportEvent}

theorem exportStep_deliver {outcome : Except ExportError Unit} {db : ExportDb}
    (h : transact (handleExportRecordJob toUpperCase adapters payload answer) w.db = (outcome, db)) :
    exportStep toUpperCase adapters w (.deliver payload answer) = some
      ⟨db, w.delivered ++ [⟨payload, registryExport toUpperCase adapters payload.systemCode answer, !outcome.isOk⟩]⟩ := by
  rw [exportStep, h]

theorem delivery_of_step (hdb : w.db.Sound) (h : exportStep toUpperCase adapters w (.deliver payload answer) = some w') :
    Delivery toUpperCase adapters w payload answer w' := by
  cases hresult : registryExport toUpperCase adapters payload.systemCode answer with
  | failed reason adapterVersion =>
    obtain ⟨e, htransact⟩ : ∃ e, transact (handleExportRecordJob toUpperCase adapters payload answer) w.db = (.error e, w.db) :=
      transact_failed hresult
    rw [exportStep_deliver htransact, hresult] at h
    obtain rfl := Option.some.inj h
    exact .failed reason adapterVersion hresult
  | notConfigured systemCode =>
    rw [exportStep_deliver (transact_notConfigured hresult), hresult] at h
    obtain rfl := Option.some.inj h
    exact .notConfigured systemCode hresult
  | acknowledged externalReference adapterVersion =>
    obtain ⟨a, ha⟩ : ∃ a, attemptOf toUpperCase payload (.acknowledged externalReference adapterVersion) = some a := ⟨_, rfl⟩
    have hstatus : a.status = .ACKNOWLEDGED := by
      obtain rfl := Option.some.inj ha
      rfl
    by_cases hgoes : HasOrigin w.db a ∧ a.storable = true
    · cases hfind : w.db.acknowledgements.find? fun r => sameExport a.accountId a.systemCode a.dedupeKey r.toAttempt with
      | none =>
        have hins : insertAttempt a w.db = some (insertRow a w.db) := by
          simp only [insertAttempt, hgoes.2, hstatus, hfind, if_true]
        rw [exportStep_deliver (transact_created hresult ha hdb hgoes.1 hins), hresult] at h
        obtain rfl := Option.some.inj h
        refine .created externalReference adapterVersion a hresult ha hgoes fun r hr => ?_
        exact Bool.eq_false_iff.mpr (List.find?_eq_none.mp hfind r hr)
      | some r =>
        have hins : insertAttempt a w.db = some ((r.id, false), w.db) := by
          simp only [insertAttempt, hgoes.2, hstatus, hfind, if_true]
        rw [exportStep_deliver (transact_again hresult ha hgoes.1 hins), hresult] at h
        obtain rfl := Option.some.inj h
        obtain ⟨hsame, -⟩ := List.find?_eq_some_iff_append.mp hfind
        exact .again externalReference adapterVersion a r hresult ha hgoes (List.mem_of_find?_eq_some hfind) hsame
    · obtain ⟨e, htransact⟩ := transact_refused hresult ha hgoes
      rw [exportStep_deliver htransact, hresult] at h
      obtain rfl := Option.some.inj h
      exact .refused externalReference adapterVersion a hresult ha hgoes

theorem Delivery.sound (hdb : w.db.Sound) (h : Delivery toUpperCase adapters w payload answer w') : w'.db.Sound := by
  cases h with
  | created externalReference adapterVersion a hresult ha hgoes hnew =>
    intro e he
    have hlength : (recorded a w.db).acknowledgements.length = w.db.acknowledgements.length + 1 := List.length_append
    rw [hlength]
    rcases List.mem_append.mp he with hold | hadded
    · exact Nat.lt_succ_of_lt (hdb e hold)
    · rw [List.mem_singleton.mp hadded]
      exact Nat.lt_succ_self _
  | _ => exact hdb

theorem sound_step (hdb : w.db.Sound) (h : exportStep toUpperCase adapters w e = some w') : w'.db.Sound := by
  cases e with
  | deliver payload answer => exact (delivery_of_step hdb h).sound hdb
  | origins claims decisions =>
    obtain rfl := Option.some.inj h
    exact hdb

/-! ## What a delivery leaves -/

theorem sameExport_iff {accountId : ℕ} {systemCode dedupeKey : String} {a : Attempt} :
    sameExport accountId systemCode dedupeKey a = true ↔
      a.status = .ACKNOWLEDGED ∧ a.accountId = accountId ∧ a.systemCode = systemCode ∧ a.dedupeKey = dedupeKey := by
  rw [sameExport, decide_eq_true_eq]

theorem any_delivered (d : Delivered) (accountId : ℕ) (systemCode dedupeKey : String) :
    (w.delivered ++ [d]).any (Delivered.acknowledgedAs toUpperCase accountId systemCode dedupeKey) =
      (w.delivered.any (Delivered.acknowledgedAs toUpperCase accountId systemCode dedupeKey) ||
        d.acknowledgedAs toUpperCase accountId systemCode dedupeKey) := by
  simp

/-- A delivery that is no failure and that changes no row is traced where its acknowledgement is there already. -/
theorem Traced.same (hw : Traced toUpperCase w) {d : Delivered} (hfailed : d.result.isFailed = false) (hthrew : d.threw = false)
    (hthere : ∀ accountId systemCode dedupeKey, d.acknowledgedAs toUpperCase accountId systemCode dedupeKey = true →
      ∃ r ∈ w.db.acknowledgements, sameExport accountId systemCode dedupeKey r.toAttempt = true) :
    Traced toUpperCase ⟨w.db, w.delivered ++ [d]⟩ where
  failed := by
    have hnone : d.failure toUpperCase = none := by rw [Delivered.failure, if_neg (by rw [hfailed]; exact Bool.false_ne_true)]
    rw [List.filterMap_append, List.filterMap_cons_none hnone, List.filterMap_nil, List.append_nil]
    exact hw.failed
  events := hw.events
  acknowledged accountId systemCode dedupeKey := by
    rw [hw.acknowledged, any_delivered]
    cases hd : d.acknowledgedAs toUpperCase accountId systemCode dedupeKey with
    | false => rw [Bool.or_false]
    | true =>
      -- a row that is there was acknowledged before
      have hpos := List.countP_pos_iff.mpr (hthere _ _ _ hd)
      rw [hw.acknowledged] at hpos
      by_cases hany : w.delivered.any (Delivered.acknowledgedAs toUpperCase accountId systemCode dedupeKey) = true
      · rw [hany, Bool.or_true]
      · rw [if_neg hany] at hpos
        cases hpos
  retried d' hd' := by
    rcases List.mem_append.mp hd' with hold | hadded
    · exact hw.retried d' hold
    · rw [List.mem_singleton.mp hadded, hthrew, hfailed]

/-- An acknowledgement that is new is traced by its row. -/
theorem Traced.created (hw : Traced toUpperCase w) {externalReference adapterVersion : String} {a : Attempt}
    (ha : attemptOf toUpperCase payload (.acknowledged externalReference adapterVersion) = some a)
    (hnew : ∀ r ∈ w.db.acknowledgements, sameExport a.accountId a.systemCode a.dedupeKey r.toAttempt = false) :
    Traced toUpperCase ⟨recorded a w.db, w.delivered ++ [⟨payload, .acknowledged externalReference adapterVersion, false⟩]⟩ := by
  have hstatus : a.status = .ACKNOWLEDGED := by
    obtain rfl := Option.some.inj ha
    rfl
  have hrows : (recorded a w.db).acknowledgements =
      w.db.acknowledgements ++ [{ a with id := w.db.acknowledgements.length }] := rfl
  refine ⟨?_, ?_, fun accountId systemCode dedupeKey => ?_, ?_⟩
  · rw [hrows, List.filter_append, List.filter_cons_of_neg (by simp [hstatus]), List.filter_nil, List.append_nil,
      List.filterMap_append, List.filterMap_cons_none rfl, List.filterMap_nil, List.append_nil]
    exact hw.failed
  · intro r hr hfailed
    rw [hrows] at hr
    rcases List.mem_append.mp hr with hold | hadded
    · have hother : eventOf a w.db.acknowledgements.length ≠ eventOf r.toAttempt r.id := fun heq => by
        have := congrArg RecordedEvent.status heq
        rw [eventOf, eventOf, hstatus, hfailed] at this
        cases this
      rw [show (recorded a w.db).events = w.db.events ++ [eventOf a w.db.acknowledgements.length] from rfl, List.count_append,
        hw.events r hold hfailed, List.count_singleton, if_neg (by simpa using hother)]
    · rw [List.mem_singleton.mp hadded, hstatus] at hfailed
      cases hfailed
  · have hthis : Delivered.acknowledgedAs toUpperCase accountId systemCode dedupeKey
        ⟨payload, .acknowledged externalReference adapterVersion, false⟩ = sameExport accountId systemCode dedupeKey a := by
      rw [Delivered.acknowledgedAs, ha, Option.any_some]
    rw [hrows, List.countP_append, hw.acknowledged, any_delivered, hthis, List.countP_singleton]
    cases hsame : sameExport accountId systemCode dedupeKey a with
    | false => simp
    | true =>
      -- the key is the attempt's own, under which there was no row
      obtain ⟨-, rfl, rfl, rfl⟩ := sameExport_iff.mp hsame
      have hzero := hw.acknowledged a.accountId a.systemCode a.dedupeKey
      rw [List.countP_eq_zero.mpr fun r hr => by simp [hnew r hr]] at hzero
      have hnone : ¬ w.delivered.any (Delivered.acknowledgedAs toUpperCase a.accountId a.systemCode a.dedupeKey) = true :=
        fun hany => by
          rw [if_pos hany] at hzero
          cases hzero
      rw [if_neg hnone, Bool.or_true]
      rfl
  · intro d hd
    rcases List.mem_append.mp hd with hold | hadded
    · exact hw.retried d hold
    · rw [List.mem_singleton.mp hadded]
      rfl

theorem Traced.delivery_iff (hw : Traced toUpperCase w) (h : Delivery toUpperCase adapters w payload answer w') :
    Traced toUpperCase w' ↔ Settles toUpperCase adapters w (.deliver payload answer) := by
  cases h with
  | failed reason adapterVersion hresult =>
    have hsettles : ¬ Settles toUpperCase adapters w (.deliver payload answer) := by
      rw [Settles, hresult]
      exact id
    refine iff_of_false (fun hw' => ?_) hsettles
    -- one failure more, and no row more
    have hperm : (w.delivered.filterMap (Delivered.failure toUpperCase)).Perm
        (List.filterMap (Delivered.failure toUpperCase) (w.delivered ++ [⟨payload, .failed reason adapterVersion, true⟩])) :=
      hw.failed.symm.trans hw'.failed
    have hlength := hperm.length_eq
    rw [List.filterMap_append, List.length_append] at hlength
    exact absurd hlength (Nat.ne_of_lt (Nat.lt_succ_self _))
  | notConfigured systemCode hresult =>
    have hsettles : Settles toUpperCase adapters w (.deliver payload answer) := by
      rw [Settles, hresult]
      trivial
    exact iff_of_true (hw.same rfl rfl fun _ _ _ hd => by cases hd) hsettles
  | created externalReference adapterVersion a hresult ha hgoes hnew =>
    have hsettles : Settles toUpperCase adapters w (.deliver payload answer) := by
      rw [Settles, hresult]
      intro a' ha'
      obtain rfl := Option.some.inj (ha.symm.trans ha')
      exact hgoes
    exact iff_of_true (hw.created ha hnew) hsettles
  | again externalReference adapterVersion a r hresult ha hgoes hr hsame =>
    have hsettles : Settles toUpperCase adapters w (.deliver payload answer) := by
      rw [Settles, hresult]
      intro a' ha'
      obtain rfl := Option.some.inj (ha.symm.trans ha')
      exact hgoes
    refine iff_of_true (hw.same rfl rfl fun accountId systemCode dedupeKey hd => ⟨r, hr, ?_⟩) hsettles
    rw [Delivered.acknowledgedAs, ha, Option.any_some] at hd
    obtain ⟨-, rfl, rfl, rfl⟩ := sameExport_iff.mp hd
    exact hsame
  | refused externalReference adapterVersion a hresult ha hstays =>
    have hsettles : ¬ Settles toUpperCase adapters w (.deliver payload answer) := by
      rw [Settles, hresult]
      exact fun h => hstays (h a ha)
    refine iff_of_false (fun hw' => ?_) hsettles
    have hthrew := hw'.retried _ (List.mem_append_right _ (List.mem_singleton_self _))
    cases hthrew

theorem Traced.step_iff (hdb : w.db.Sound) (hw : Traced toUpperCase w) (h : exportStep toUpperCase adapters w e = some w') :
    Traced toUpperCase w' ↔ Settles toUpperCase adapters w e := by
  cases e with
  | deliver payload answer => exact hw.delivery_iff (delivery_of_step hdb h)
  | origins claims decisions =>
    obtain rfl := Option.some.inj h
    exact iff_of_true ⟨hw.failed, hw.events, hw.acknowledged, hw.retried⟩ trivial

end

/-- No attempt yet. -/
def ExportWorld.initial (claims decisions : List (ℕ × ℕ)) : ExportWorld := ⟨⟨claims, decisions, [], []⟩, []⟩

/-- Every attempt is traced throughout a run of deliveries exactly if no adapter answers `FAILED` and every
acknowledgement can be recorded. -/
theorem traced_iff (toUpperCase : String → String) (adapters : List String) (claims decisions : List (ℕ × ℕ))
    (events : List ExportEvent) :
    Runs.AllStates (exportStep toUpperCase adapters) (Traced toUpperCase) (.initial claims decisions) events ↔
      Runs.AllSteps (exportStep toUpperCase adapters) (Settles toUpperCase adapters) (.initial claims decisions) events := by
  refine Runs.allStates_iff_allSteps (fun w => w.db.Sound) (fun _ _ _ => sound_step)
    (fun _ _ _ hdb hw h => hw.step_iff hdb h) events _ ?_ ?_
  · exact fun e he => absurd he List.not_mem_nil
  · exact ⟨.nil, fun r hr => absurd hr List.not_mem_nil, fun _ _ _ => rfl, fun d hd => absurd hd List.not_mem_nil⟩

/-- The adapter of one system answers that it failed. -/
def timedOut : List ExportEvent :=
  [.deliver ⟨1, "export:invoice-1", some 20, none, "QUICKBOOKS"⟩ (.failed "TIMEOUT" "v1")]

theorem timedOut_untraced :
    ¬ Runs.AllStates (exportStep id ["QUICKBOOKS"]) (Traced id) (.initial [(1, 20)] []) timedOut := by
  intro h
  have hlast := (h.2 _ rfl).failed.length_eq
  revert hlast
  decide +kernel

end Exports
