import FreightAuditor.Claims.Tables
import FreightAuditor.Library.WriteOnce

/- The audit log, as its one writer leaves it.

   An event is bound to its id for good: writing it again changes nothing, and writing other
   evidence under its id is refused (`writeAuditEvent_isSome`). -/
namespace AuditLedger

open Claims (AuditEvent AuditEventEvidence sameEvidence)

abbrev AuditLog := KeyedTable AuditEvent AuditEvent.id

/-- Whether a row is bound to the evidence of another. -/
def sameRow (row value : AuditEvent) : Bool := sameEvidence row.toAuditEventEvidence value.toAuditEventEvidence

/-- `none` where the id has other evidence: `AuditEventConflictError`. -/
def writeAuditEvent (log : AuditLog) (id : ℕ) (value : AuditEventEvidence) (now : ℕ) : Option (Bool × AuditLog) :=
  log.record sameRow { value with id, recordedAt := now }

/-- The id is free, or bound to the evidence already. -/
def Bindable (log : AuditLog) (id : ℕ) (value : AuditEventEvidence) : Prop :=
  ∀ row ∈ log.find? id, sameEvidence row.toAuditEventEvidence value = true

instance (log : AuditLog) (id : ℕ) (value : AuditEventEvidence) : Decidable (Bindable log id value) :=
  inferInstanceAs (Decidable (∀ row ∈ log.find? id, _))

/-- The log has the event. -/
def Bound (log : AuditLog) (id : ℕ) (value : AuditEventEvidence) : Prop :=
  ∃ row, log.find? id = some row ∧ sameEvidence row.toAuditEventEvidence value = true

variable {log log' : AuditLog} {id : ℕ} {value : AuditEventEvidence} {now : ℕ} {created : Bool}

@[simp] theorem sameEvidence_self (value : AuditEventEvidence) : sameEvidence value value = true := by
  simp [sameEvidence]

theorem writeAuditEvent_isSome : (writeAuditEvent log id value now).isSome ↔ Bindable log id value :=
  KeyedTable.record_isSome

theorem writeAuditEvent_free (h : log.find? id = none) (value : AuditEventEvidence) (now : ℕ) :
    ∃ log', writeAuditEvent log id value now = some (true, log') ∧ log.insert { value with id, recordedAt := now } = some log' :=
  KeyedTable.record_free h

theorem writeAuditEvent_found {row : AuditEvent} (h : log.find? id = some row) :
    writeAuditEvent log id value now = if sameEvidence row.toAuditEventEvidence value then some (false, log) else none :=
  KeyedTable.record_found h

theorem writeAuditEvent_bound (h : writeAuditEvent log id value now = some (created, log')) : Bound log' id value := by
  have hself : sameRow { value with id, recordedAt := now } { value with id, recordedAt := now } = true :=
    sameEvidence_self value
  exact KeyedTable.record_there hself h

end AuditLedger
