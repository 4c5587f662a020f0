import FreightAuditor.Disputes.Locks
import FreightAuditor.Library.StoredSums

/- What a change of a finding's status and the creation of a dispute have written when they
   commit, and what they had seen.

   Audit events aside (`mainWrites`), an analyst's change writes a finding's status and the
   change it logs, and a creation (`Creation`) a dispute with a line for each finding it
   claims, which is accepted and under lock until the commit. -/
namespace Disputes

open Claims (Amount AuditEventEvidence VarianceStatus amountColumn sameEvidence)
open DecimalJs PgNumeric ReadCommitted

def DisputeWrite.isAudit : DisputeWrite → Bool
  | .insertAuditEvent _ => true
  | _ => false

/-- The writes without audit events. -/
def mainWrites (ws : List DisputeWrite) : List DisputeWrite := ws.filter fun w => !w.isAudit

/-- The tables without the audit events. -/
def DisputeDb.main (db : DisputeDb) : DisputeDb := { db with auditEvents := [] }

@[simp] theorem mainWrites_append (ws ws' : List DisputeWrite) :
    mainWrites (ws ++ ws') = mainWrites ws ++ mainWrites ws' := List.filter_append ..

theorem main_view (db : DisputeDb) (ws : List DisputeWrite) :
    (view apply db ws).main = view apply db.main (mainWrites ws) := by
  induction ws generalizing db with
  | nil => rfl
  | cons w ws ih =>
    rw [view_cons, ih]
    cases w <;> rfl

theorem mem_mainWrites {ws : List DisputeWrite} {w : DisputeWrite} :
    w ∈ mainWrites ws ↔ w ∈ ws ∧ w.isAudit = false := by
  simp [mainWrites]

/-! ## Tables that only grow -/

def DisputeWrite.line? : DisputeWrite → Option DisputeLine
  | .insertDisputeLine row => some row
  | _ => none

def DisputeWrite.auditEvent? : DisputeWrite → Option Claims.AuditEvent
  | .insertAuditEvent row => some row
  | _ => none

def DisputeWrite.workflowInstance? : DisputeWrite → Option Workflow.WorkflowInstance
  | .insertWorkflowInstance row => some row
  | _ => none

def DisputeWrite.workflowCommand? : DisputeWrite → Option WorkflowCommand
  | .insertWorkflowCommand row => some row
  | _ => none

/-- A table to which each write adds what `row?` says. -/
theorem view_table {T : Type} {table : DisputeDb → List T} {row? : DisputeWrite → Option T}
    (h : ∀ db w, table (apply db w) = table db ++ (row? w).toList) (db : DisputeDb) (ws : List DisputeWrite) :
    table (view apply db ws) = table db ++ ws.filterMap row? := by
  induction ws generalizing db with
  | nil => exact (List.append_nil _).symm
  | cons w ws ih =>
    rw [view_cons, ih, h, List.append_assoc]
    congr 1
    cases hw : row? w <;> simp [hw]

section tables

variable (db : DisputeDb) (ws : List DisputeWrite)

theorem view_disputeLines :
    (view apply db ws).disputeLines = db.disputeLines ++ ws.filterMap DisputeWrite.line? :=
  view_table (fun db w => by cases w <;> first | rfl | exact (List.append_nil _).symm) db ws

theorem view_auditEvents :
    (view apply db ws).auditEvents = db.auditEvents ++ ws.filterMap DisputeWrite.auditEvent? :=
  view_table (fun db w => by cases w <;> first | rfl | exact (List.append_nil _).symm) db ws

theorem view_workflowInstances :
    (view apply db ws).workflowInstances = db.workflowInstances ++ ws.filterMap DisputeWrite.workflowInstance? :=
  view_table (fun db w => by cases w <;> first | rfl | exact (List.append_nil _).symm) db ws

theorem view_workflowCommands :
    (view apply db ws).workflowCommands = db.workflowCommands ++ ws.filterMap DisputeWrite.workflowCommand? :=
  view_table (fun db w => by cases w <;> first | rfl | exact (List.append_nil _).symm) db ws

end tables

/-! ## Statements -/

section

variable {D : Type} [Decimal D] {sha256 : String → ℕ} {toISOString : ℤ → String} {tx startedAt : ℕ}
  {log log' : Log DisputeDb DisputeWrite LockKey}

theorem writeAuditEvent_ends {id : ℕ} {value : AuditEventEvidence} {r : Bool}
    (h : Ends apply (writeAuditEvent startedAt id value) log r log') :
    ∃ db events, log' = log.add db [.auditEvent id] events ∧
      (events = [.insertAuditEvent { value with id := id, recordedAt := startedAt }] ∨
        events = [] ∧ ∃ e ∈ (view apply db log.writes).auditEvents, e.id = id ∧
          sameEvidence e.toAuditEventEvidence value = true) := by
  rw [writeAuditEvent, ends_exec] at h
  obtain ⟨db, ws, hf, rfl⟩ := h
  refine ⟨db, ws, rfl, ?_⟩
  split at hf
  · obtain ⟨-, rfl⟩ := Prod.mk.inj (Except.ok.inj hf)
    exact .inl rfl
  · rename_i row hfound
    split at hf
    · rename_i hsame
      obtain ⟨-, rfl⟩ := Prod.mk.inj (Except.ok.inj hf)
      exact .inr ⟨rfl, row, List.mem_of_find?_eq_some hfound, by simpa using List.find?_some hfound, hsame⟩
    · cases hf

/-- Either way, audit events are all it writes. -/
theorem writeAuditEvent_main {id : ℕ} {value : AuditEventEvidence} {r : Bool}
    (h : Ends apply (writeAuditEvent startedAt id value) log r log') :
    mainWrites log'.writes = mainWrites log.writes ∧ log.held ⊆ log'.held := by
  obtain ⟨db, events, rfl, hevents⟩ := writeAuditEvent_ends h
  refine ⟨?_, List.subset_append_left _ _⟩
  obtain rfl | ⟨rfl, -⟩ := hevents
  · simp [Log.add, mainWrites, DisputeWrite.isAudit]
  · simp [Log.add]

/-- A finding's status, and the change. -/
def statusWrites (clientId findingId : ℕ) (fromStatus toStatus : VarianceStatus) (note : Option String)
    (statusEventId : ℕ) : List DisputeWrite :=
  [.updateFindingStatus findingId toStatus,
    .insertFindingStatusEvent ⟨statusEventId, clientId, findingId, fromStatus, toStatus, .analyst, note⟩]

theorem updateFindingStatus_ends {clientId findingId statusEventId : ℕ} {toStatus : VarianceStatus}
    {note : Option String} {actor : Option ℕ} {r : Bool}
    (h : Ends apply (updateFindingStatus sha256 startedAt clientId findingId toStatus note actor statusEventId) log r
      log') :
    ∃ snapshot rest, log'.seen = log.seen ++ (snapshot, log.held) :: rest ∧ log.held ⊆ log'.held ∧
      (findFinding (view apply snapshot log.writes) clientId findingId = none ∧
          mainWrites log'.writes = mainWrites log.writes ∨
        ∃ old, findFinding (view apply snapshot log.writes) clientId findingId = some old ∧
          mainWrites log'.writes =
            mainWrites log.writes ++ statusWrites clientId findingId old.status toStatus note statusEventId) := by
  rw [updateFindingStatus, ends_bind] at h
  obtain ⟨found, mid, ⟨snapshot, hfound, rfl⟩, h⟩ := h
  cases found with
  | none =>
    obtain ⟨-, rfl⟩ := h
    exact ⟨snapshot, [], by simp [Log.add], by simp [Log.add], .inl ⟨hfound.symm, by simp [Log.add]⟩⟩
  | some old =>
    obtain ⟨rest, hrest⟩ := h.extends.seen
    simp only [ends_bind, ends_exec] at h
    obtain ⟨_, mid, ⟨db₁, ws, hws, rfl⟩, _, log₂, haudit, -, rfl⟩ := h
    obtain ⟨-, rfl⟩ := Prod.mk.inj (Except.ok.inj hws)
    obtain ⟨hmain, hheld⟩ := writeAuditEvent_main haudit
    refine ⟨snapshot, rest, ?_, fun k hk => hheld (by simp [Log.add, hk]), .inr ⟨old, hfound.symm, ?_⟩⟩
    · rw [← hrest]
      simp only [Log.add, List.append_nil, List.append_assoc, List.singleton_append]
    · rw [hmain]
      simp [Log.add, statusWrites, mainWrites, DisputeWrite.isAudit]

/-! ## An analyst's change -/

/-- What a call asks for that changes one finding's status. -/
structure StatusChange where
  clientId : ℕ
  findingId : ℕ
  toStatus : VarianceStatus
  note : Option String

def DisputeCall.statusChange? : DisputeCall → Option StatusChange
  | .applyFindingAction clientId findingId action note _ =>
    some ⟨clientId, findingId, action.status, some (note.getD ("Analyst action: " ++ action.text))⟩
  | .patchFindingStatus clientId findingId status note _ => some ⟨clientId, findingId, status, note⟩
  | _ => none

theorem statusChange_ends {call : DisputeCall} {change : StatusChange} {r : DisputeResult}
    (hcall : call.statusChange? = some change)
    (h : Ends apply (call.body sha256 D toISOString tx startedAt) .empty r log) :
    ∃ snapshot rest, log.seen = (snapshot, []) :: rest ∧
      (findFinding snapshot change.clientId change.findingId = none ∧ mainWrites log.writes = [] ∨
        ∃ old, findFinding snapshot change.clientId change.findingId = some old ∧ mainWrites log.writes =
          statusWrites change.clientId change.findingId old.status change.toStatus change.note (newId tx 0)) := by
  have hupdate {actor : Option ℕ} {found : Bool}
      (h : Ends apply (updateFindingStatus sha256 startedAt change.clientId change.findingId change.toStatus
        change.note actor (newId tx 0)) .empty found log) :
      ∃ snapshot rest, log.seen = (snapshot, []) :: rest ∧
        (findFinding snapshot change.clientId change.findingId = none ∧ mainWrites log.writes = [] ∨
          ∃ old, findFinding snapshot change.clientId change.findingId = some old ∧ mainWrites log.writes =
            statusWrites change.clientId change.findingId old.status change.toStatus change.note (newId tx 0)) := by
    obtain ⟨snapshot, rest, hseen, -, hcase⟩ := updateFindingStatus_ends h
    exact ⟨snapshot, rest, hseen, hcase⟩
  cases call with
  | applyFindingAction clientId findingId action note actorUserId =>
    obtain rfl := Option.some.inj hcall
    simp only [DisputeCall.body, ends_bind, ends_pure] at h
    obtain ⟨found, _, h, -, rfl⟩ := h
    exact hupdate h
  | patchFindingStatus clientId findingId status note actorUserId =>
    obtain rfl := Option.some.inj hcall
    simp only [DisputeCall.body, ends_bind, ends_pure] at h
    obtain ⟨found, _, h, -, rfl⟩ := h
    rw [Disputes.patchFindingStatus] at h
    split at h
    · exact h.elim
    · exact hupdate h
  | _ => cases hcall

/-! ## A creation -/

/-- What is validated of the findings of a dispute. -/
structure Disputable (D : Type) [Decimal D] (rows : List DisputableFindingRow) (v : ValidatedDispute) : Prop where
  findingIds : v.findingIds = (rows.filter fun r => r.direction ≠ some .UNDERCHARGE).map DisputableFindingRow.id
  accepted : ∀ r ∈ rows, r.direction ≠ some .UNDERCHARGE → r.status = .accepted
  currency : ∀ r ∈ rows, r.direction ≠ some .UNDERCHARGE → r.currency = some v.currency
  amount : ∀ r ∈ rows, r.direction ≠ some .UNDERCHARGE → r.varianceAmount.isSome
  amountClaimed : ∃ sum : D, ((rows.filter fun r => r.direction ≠ some .UNDERCHARGE).filterMap
      DisputableFindingRow.varianceAmount).foldlM (plusAmount D) (Decimal.ofNumber (.ofNat 0)) = .ok sum ∧
    v.amountClaimed = Decimal.toFixed 4 sum

theorem missingOf_eq_none {r : DisputableFindingRow} (h : missingOf r = none) :
    r.status = .accepted ∧ r.varianceAmount.isSome ∧ r.currency.isSome := by
  unfold missingOf at h
  split at h
  · cases h
  rename_i hstatus
  split at h
  · cases h
  split at h
  · cases h
  rename_i hamount
  rw [Bool.or_eq_true, not_or] at hamount
  exact ⟨not_not.mp hstatus, by simpa using Option.ne_none_iff_isSome.mp (by simpa using hamount.1),
    by simpa using Option.ne_none_iff_isSome.mp (by simpa using hamount.2)⟩

/-- One value in a list without repetitions is every value. -/
theorem headD_of_dedup {α : Type} [DecidableEq α] {values : List α} {a d : α}
    (h : ¬ 1 < values.dedup.length) (ha : a ∈ values) : values.dedup.headD d = a := by
  have hmem : a ∈ values.dedup := List.mem_dedup.mpr ha
  match hlist : values.dedup with
  | [] => rw [hlist] at hmem; cases hmem
  | [b] =>
    rw [hlist] at hmem
    exact (List.mem_singleton.mp hmem).symm
  | b :: c :: rest =>
    rw [hlist] at h
    exact absurd (by simp) h

theorem validateDisputableFindings_ok {rows : List DisputableFindingRow} {v : ValidatedDispute}
    (h : validateDisputableFindings D rows = .ok v) : Disputable D rows v := by
  unfold validateDisputableFindings at h
  simp only [ExceptOk.throw_bind, ExceptOk.ite_throw_eq_ok] at h
  obtain ⟨-, h⟩ := h
  split at h
  · cases h
  rename_i hmissing
  simp only [ExceptOk.ite_throw_eq_ok, ExceptOk.bind_eq_ok, ExceptOk.pure_eq_ok] at h
  obtain ⟨-, hcurrencies, sum, hsum, rfl⟩ := h
  have hnone : ∀ r ∈ rows, r.direction ≠ some .UNDERCHARGE → missingOf r = none := fun r hr hdir =>
    List.findSome?_eq_none_iff.mp hmissing r (List.mem_filter.mpr ⟨hr, by simpa using hdir⟩)
  refine ⟨rfl, fun r hr hdir => (missingOf_eq_none (hnone r hr hdir)).1, fun r hr hdir => ?_,
    fun r hr hdir => (missingOf_eq_none (hnone r hr hdir)).2.1, sum, hsum, rfl⟩
  obtain ⟨currency, hcurrency⟩ := Option.isSome_iff_exists.mp (missingOf_eq_none (hnone r hr hdir)).2.2
  rw [hcurrency, Option.some_inj]
  refine (headD_of_dedup hcurrencies (List.mem_filterMap.mpr ⟨r, ?_, hcurrency⟩)).symm
  exact List.mem_filter.mpr ⟨hr, by simpa using hdir⟩

end

end Disputes
