import FreightAuditor.Workflow.Instances

/- The log of an instance is a path of legal steps from its initial state to its current one.

   Two statements of `appendWorkflowTransition` read the state, one to validate the step
   and one to log it, and a commit publishes both. The row lock taken by the first keeps
   the instance as it was for the second and for the commit (`InstancesSince.locked`), so
   each commit makes the path one step longer (`append_commit`). -/
namespace Workflow

open Claims (AuditEvent AuditEventEvidence sameEvidence deterministicAuditEventId)
open ReadCommitted ExceptOk

/-- A step to the same state, or one the map allows. -/
def LegalStep (allowedTransitions : WorkflowTransitionMap) (fromState toState : String) : Prop :=
  fromState = toState ∨ ∃ allowed, allowedTransitions.lookup fromState = some allowed ∧ toState ∈ allowed

/-- The rows lead from one state to the other, each from where the one before it went. -/
def LegalPath (allowedTransitions : WorkflowTransitionMap) : String → List WorkflowTransition → String → Prop
  | start, [], final => start = final
  | start, row :: rows, final =>
    row.fromState = start ∧ LegalStep allowedTransitions start row.toState ∧
      LegalPath allowedTransitions row.toState rows final

/-- The log of an instance, in the order of the commits. -/
def transitionsOf (db : InstanceDb) (id : ℕ) : List WorkflowTransition :=
  db.transitions.filter fun row => row.workflowInstanceId = id

/-- The instance was created in this state, as an audit event records. -/
def CreatedIn (db : InstanceDb) (instance_ : WorkflowInstance) (initialState : String) : Prop :=
  ∃ e ∈ db.auditEvents, sameEvidence e.toAuditEventEvidence (createdEvidence instance_ initialState) = true

/-- Every instance's log is a legal path from the state it was created in to its current state. -/
structure LegalHistory (maps : ℕ → WorkflowTransitionMap) (db : InstanceDb) : Prop where
  ids : (db.instances.map WorkflowInstance.id).Nodup
  logged : ∀ row ∈ db.transitions, row.workflowInstanceId ∈ db.instances.map WorkflowInstance.id
  path : ∀ i ∈ db.instances, ∃ initialState, CreatedIn db i initialState ∧
    LegalPath (maps i.id) initialState (transitionsOf db i.id) i.currentState

/-! ## Paths -/

theorem LegalPath.append {map : WorkflowTransitionMap} {row : WorkflowTransition}
    (hstep : LegalStep map row.fromState row.toState) :
    ∀ {rows : List WorkflowTransition} {start : String}, LegalPath map start rows row.fromState →
      LegalPath map start (rows ++ [row]) row.toState
  | [], _, h => ⟨h.symm, h ▸ hstep, rfl⟩
  | _ :: _, _, ⟨hfrom, hlegal, hrest⟩ => ⟨hfrom, hlegal, LegalPath.append hstep hrest⟩

theorem validateWorkflowTransition_ok {fromState toState : String} {map : WorkflowTransitionMap} {u : Unit}
    (h : validateWorkflowTransition fromState toState map = .ok u) : LegalStep map fromState toState := by
  unfold validateWorkflowTransition at h
  split at h
  · rename_i heq
    exact .inl heq
  · cases hlookup : map.lookup fromState with
    | none => rw [hlookup] at h; cases h
    | some allowed =>
      rw [hlookup] at h
      by_cases hmem : toState ∈ allowed
      · exact .inr ⟨allowed, hlookup, hmem⟩
      · simp [hmem] at h

/-! ## What other transactions may change -/

/-- Locked instances stay as they are, no id is taken whose key is locked, and audit events stay. -/
structure InstancesSince (held : List InstanceLock) (s db : InstanceDb) : Prop where
  locked : ∀ i ∈ s.instances, .instance i.id ∈ held → i ∈ db.instances
  pkey : ∀ id, .instancePkey id ∈ held → ∀ i ∈ db.instances, i.id = id → id ∈ s.instances.map WorkflowInstance.id
  events : ∀ e ∈ s.auditEvents, e ∈ db.auditEvents

/-- The lock under which a write is made. -/
def InstanceWrite.CoveredBy (locks : List InstanceLock) : InstanceWrite → Prop
  | .insertInstance row => .instancePkey row.id ∈ locks
  | .transition row => .instance row.workflowInstanceId ∈ locks
  | .insertAuditEvent _ => True

theorem InstancesSince.refl (held : List InstanceLock) (db : InstanceDb) : InstancesSince held db db where
  locked := fun _ hi _ => hi
  pkey := fun _ _ _ hi hid => List.mem_map.mpr ⟨_, hi, hid⟩
  events := fun _ he => he

theorem WorkflowInstance.transition_of_ne {row : WorkflowTransition} {i : WorkflowInstance}
    (h : i.id ≠ row.workflowInstanceId) : i.transition row = i := if_neg h

@[simp] theorem WorkflowInstance.transition_id (row : WorkflowTransition) (i : WorkflowInstance) :
    (i.transition row).id = i.id := by
  unfold WorkflowInstance.transition
  split <;> rfl

/-- A write of another transaction, under its locks, keeps to it. -/
theorem InstancesSince.apply {held locks : List InstanceLock} {s db : InstanceDb} {w : InstanceWrite}
    (h : InstancesSince held s db) (hw : w.CoveredBy locks) (hdisjoint : ∀ k ∈ held, k ∉ locks) :
    InstancesSince held s (applyInstanceWrite db w) := by
  obtain ⟨hlocked, hpkey, hevents⟩ := h
  cases w with
  | insertInstance row =>
    refine ⟨fun i hi hheld => List.mem_append_left _ (hlocked i hi hheld), fun id hid i hi he => ?_, hevents⟩
    rcases List.mem_append.mp hi with hi | hi
    · exact hpkey id hid i hi he
    · -- the new row's key is not free
      obtain rfl := List.mem_singleton.mp hi
      exact absurd (he ▸ hw) (hdisjoint _ hid)
  | transition row =>
    refine ⟨fun i hi hheld => ?_, fun id hid i hi he => ?_, hevents⟩
    · have hne : i.id ≠ row.workflowInstanceId := fun he => hdisjoint _ hheld (he ▸ hw)
      have hmem := List.mem_map_of_mem (f := WorkflowInstance.transition row) (hlocked i hi hheld)
      rwa [WorkflowInstance.transition_of_ne hne] at hmem
    · obtain ⟨j, hj, rfl⟩ := List.mem_map.mp hi
      rw [WorkflowInstance.transition_id] at he
      exact hpkey id hid j hj he
  | insertAuditEvent row =>
    exact ⟨hlocked, hpkey, fun e he => List.mem_append_left _ (hevents e he)⟩

theorem InstancesSince.view {held locks : List InstanceLock} {s : InstanceDb} {ws : List InstanceWrite} :
    ∀ {db : InstanceDb}, InstancesSince held s db → (∀ w ∈ ws, w.CoveredBy locks) →
      (∀ k ∈ held, k ∉ locks) → InstancesSince held s (view applyInstanceWrite db ws) := by
  induction ws with
  | nil => exact fun h _ _ => h
  | cons w ws ih =>
    intro db h hws hdisjoint
    exact ih (h.apply (hws w List.mem_cons_self) hdisjoint)
      (fun v hv => hws v (List.mem_cons_of_mem _ hv)) hdisjoint

/-! ## What a finished transaction did -/

theorem findInstance_some {db : InstanceDb} {clientId id : ℕ} {i : WorkflowInstance}
    (h : findInstance db clientId id = some i) : i ∈ db.instances ∧ i.accountId = clientId ∧ i.id = id := by
  have hi := List.find?_some h
  simp only [Bool.and_eq_true, beq_iff_eq] at hi
  exact ⟨List.mem_of_find?_eq_some h, hi⟩

/-- A finished `writeAuditEvent` has its event among the rows it saw, or inserts it. -/
theorem writeAuditEvent_ends {startedAt id : ℕ} {value : AuditEventEvidence} {created : Bool}
    {log log' : Log InstanceDb InstanceWrite InstanceLock}
    (h : Ends applyInstanceWrite (writeAuditEvent startedAt id value) log created log') :
    ∃ db, log' = log.add db [.auditEvent id] (if created then
        [.insertAuditEvent { value with id := id, recordedAt := startedAt }] else []) ∧
      (created = false → ∃ e ∈ (view applyInstanceWrite db log.writes).auditEvents,
        sameEvidence e.toAuditEventEvidence value = true) := by
  simp only [writeAuditEvent, ends_exec] at h
  obtain ⟨db, ws, hf, rfl⟩ := h
  cases hfind : (view applyInstanceWrite db log.writes).auditEvents.find? (·.id == id) with
  | none =>
    rw [hfind] at hf
    obtain ⟨rfl, rfl⟩ := Prod.mk.inj (Except.ok.inj hf)
    exact ⟨db, rfl, fun h => (by cases h)⟩
  | some e =>
    simp only [hfind] at hf
    split at hf
    · rename_i hsame
      obtain ⟨rfl, rfl⟩ := Prod.mk.inj (Except.ok.inj hf)
      exact ⟨db, rfl, fun _ => ⟨e, List.mem_of_find?_eq_some hfind, hsame⟩⟩
    · cases hf

/-- The audit event a transaction may insert besides its row. -/
def AuditOnly (writes : List InstanceWrite) : Prop := writes = [] ∨ ∃ e, writes = [.insertAuditEvent e]

theorem auditOnly_ite {created : Bool} {e : AuditEvent} :
    AuditOnly (if created then [.insertAuditEvent e] else []) := by
  cases created
  · exact .inl rfl
  · exact .inr ⟨e, rfl⟩

/-- What a transaction that logs a transition saw: the instance under its lock, to validate the step,
and once more, to log it. -/
structure AppendRun (map : WorkflowTransitionMap) (tx startedAt : ℕ) (input : AppendWorkflowTransitionInput)
    (log : Log InstanceDb InstanceWrite InstanceLock) where
  validated : InstanceDb
  logged : InstanceDb
  read : WorkflowInstance
  old : WorkflowInstance
  rest : List InstanceWrite
  seen_validated : (validated, [.instance input.workflowInstanceId]) ∈ log.seen
  found : findInstance validated input.clientId input.workflowInstanceId = some read
  legal : LegalStep map read.currentState input.toState
  seen_logged : (logged, [.instance input.workflowInstanceId, .instance input.workflowInstanceId]) ∈ log.seen
  found_again : findInstance logged input.clientId input.workflowInstanceId = some old
  writes : log.writes = .transition
    ⟨tx, old.accountId, old.id, old.currentState, input.toState, startedAt⟩ :: rest
  audit : AuditOnly rest
  held : .instance input.workflowInstanceId ∈ log.held

theorem append_ends {sha256 : String → ℕ} {map : WorkflowTransitionMap} {tx startedAt : ℕ}
    {input : AppendWorkflowTransitionInput} {found : Bool} {log : Log InstanceDb InstanceWrite InstanceLock}
    (h : Ends applyInstanceWrite (appendWorkflowTransition sha256 map tx startedAt input) .empty found log) :
    log.writes = [] ∨ Nonempty (AppendRun map tx startedAt input log) := by
  unfold appendWorkflowTransition at h
  split at h
  · exact (ends_fail h).elim
  simp only [ends_bind, selectForUpdate, ends_exec] at h
  obtain ⟨current, log₁, ⟨s₁, ws, hread, rfl⟩, h⟩ := h
  obtain ⟨rfl, rfl⟩ := Prod.mk.inj (Except.ok.inj hread)
  cases hfound : findInstance s₁ input.clientId input.workflowInstanceId with
  | none => simp [Log.empty, hfound] at h
  | some read =>
    simp only [Log.empty, view_nil, hfound, ends_bind, ends_ofExcept] at h
    obtain ⟨u, log₂, ⟨hvalid, rfl⟩, logged, log₃, hlogged, h⟩ := h
    simp only [updateAndLog, ends_exec] at hlogged
    obtain ⟨s₂, ws, hlog, rfl⟩ := hlogged
    simp only [Log.add, List.append_nil, view_nil] at hlog
    cases hagain : findInstance s₂ input.clientId input.workflowInstanceId with
    | none =>
      rw [hagain] at hlog
      obtain ⟨rfl, rfl⟩ := Prod.mk.inj (Except.ok.inj hlog)
      obtain ⟨-, rfl⟩ := ends_pure.mp h
      exact .inl rfl
    | some old =>
      simp only [hagain, ite_throw_eq_ok, throw_bind, pure_eq_ok, Prod.mk.injEq] at hlog
      obtain ⟨-, -, rfl, rfl⟩ := hlog
      simp only [ends_bind] at h
      obtain ⟨created, log₄, haudit, h⟩ := h
      obtain ⟨-, rfl⟩ := ends_pure.mp h
      obtain ⟨s₃, rfl, -⟩ := writeAuditEvent_ends haudit
      exact .inr ⟨{
        validated := s₁
        logged := s₂
        read := read
        old := old
        rest := _
        seen_validated := by simp [Log.add]
        found := hfound
        legal := validateWorkflowTransition_ok hvalid
        seen_logged := by simp [Log.add, hagain]
        found_again := hagain
        writes := rfl
        audit := auditOnly_ite
        held := by simp [Log.add] }⟩

/-- What a transaction that creates an instance saw when it inserted its row, and the event it then
wrote or found. -/
structure CreateRun (tx startedAt : ℕ) (input : CreateWorkflowInstanceInput)
    (log : Log InstanceDb InstanceWrite InstanceLock) where
  inserted : InstanceDb
  audited : InstanceDb
  row : WorkflowInstance
  event : List InstanceWrite
  seen_inserted : ∃ held, (inserted, held) ∈ log.seen ∧ .instancePkey tx ∈ held
  seen_audited : ∃ held, (audited, held) ∈ log.seen
  fresh : tx ∉ inserted.instances.map WorkflowInstance.id
  row_eq : row = ⟨tx, input.clientId, input.workflowType, input.subjectEntity, input.subjectEntityId,
    input.initialState, startedAt, startedAt⟩
  writes : log.writes = .insertInstance row :: event
  audit : AuditOnly event
  created : (∃ e, event = [.insertAuditEvent e] ∧
      sameEvidence e.toAuditEventEvidence (createdEvidence row row.currentState) = true) ∨
    ∃ e ∈ audited.auditEvents, sameEvidence e.toAuditEventEvidence (createdEvidence row row.currentState) = true
  held : .instancePkey tx ∈ log.held

theorem create_ends {sha256 : String → ℕ} {tx startedAt : ℕ} {input : CreateWorkflowInstanceInput}
    {result : WorkflowInstance} {log : Log InstanceDb InstanceWrite InstanceLock}
    (h : Ends applyInstanceWrite (createWorkflowInstance sha256 tx startedAt input) .empty result log) :
    log.writes = [] ∨ Nonempty (CreateRun tx startedAt input log) := by
  simp only [createWorkflowInstance, ends_bind, ends_query] at h
  obtain ⟨existing, log₁, ⟨s₁, rfl, rfl⟩, h⟩ := h
  cases hexisting : findBySubject (view applyInstanceWrite s₁ Log.empty.writes) input with
  | some row =>
    rw [hexisting] at h
    obtain ⟨-, rfl⟩ := ends_pure.mp h
    exact .inl rfl
  | none =>
    simp only [hexisting, insertInstance, ends_bind, ends_exec] at h
    obtain ⟨inserted, log₂, ⟨s₂, ws, hinsert, rfl⟩, h⟩ := h
    simp only [ite_throw_eq_ok, throw_bind] at hinsert
    obtain ⟨-, hinsert⟩ := hinsert
    split at hinsert
    · -- another transaction was first
      obtain ⟨rfl, rfl⟩ := Prod.mk.inj (pure_eq_ok.mp hinsert)
      simp only [ends_bind, ends_query] at h
      obtain ⟨raced, log₃, ⟨s₃, rfl, rfl⟩, h⟩ := h
      split at h
      · exact (ends_fail h).elim
      · obtain ⟨-, rfl⟩ := ends_pure.mp h
        exact .inl rfl
    · simp only [ite_throw_eq_ok, pure_eq_ok, Prod.mk.injEq] at hinsert
      obtain ⟨hfresh, rfl, rfl⟩ := hinsert
      simp only [ends_bind] at h
      obtain ⟨created, log₃, haudit, h⟩ := h
      obtain ⟨-, rfl⟩ := ends_pure.mp h
      obtain ⟨s₃, rfl, hfound⟩ := writeAuditEvent_ends haudit
      refine .inr ⟨{
        inserted := s₂
        audited := s₃
        row := _
        event := _
        seen_inserted := ⟨[.instancePkey tx, .subject input.clientId input.workflowType input.subjectEntity
          input.subjectEntityId], by simp [Log.add, Log.empty], by simp⟩
        seen_audited := ⟨_, by simp [Log.add, Log.empty]; exact .inr (.inr rfl)⟩
        fresh := by simpa [Log.add, Log.empty] using hfresh
        row_eq := rfl
        writes := rfl
        audit := auditOnly_ite
        created := ?_
        held := by simp [Log.add, Log.empty] }⟩
      cases created with
      | true => exact .inl ⟨_, rfl, by simp [sameEvidence, createdEvidence]⟩
      | false =>
        obtain ⟨e, he, hsame⟩ := hfound rfl
        exact .inr ⟨e, he, hsame⟩

/-- What a call did that finished: it wrote nothing, logged a transition, or created an instance. -/
theorem instanceSystem_ends {sha256 : String → ℕ} {maps : ℕ → WorkflowTransitionMap} {call : InstanceCall}
    {tx startedAt : ℕ} {r : InstanceResult} {log : Log InstanceDb InstanceWrite InstanceLock}
    (h : Ends applyInstanceWrite ((instanceSystem sha256 maps).body call tx startedAt) .empty r log) :
    log.writes = [] ∨
      (∃ input, Nonempty (AppendRun (maps input.workflowInstanceId) tx startedAt input log)) ∨
      ∃ input, Nonempty (CreateRun tx startedAt input log) := by
  cases call with
  | create input =>
    obtain ⟨row, log', h, -, rfl⟩ := ends_bind.mp h
    rcases create_ends h with hnone | hrun
    · exact .inl hnone
    · exact .inr (.inr ⟨input, hrun⟩)
  | append input =>
    obtain ⟨found, log', h, -, rfl⟩ := ends_bind.mp h
    rcases append_ends h with hnone | hrun
    · exact .inl hnone
    · exact .inr (.inl ⟨input, hrun⟩)

theorem AuditOnly.coveredBy {ws : List InstanceWrite} (h : AuditOnly ws) (locks : List InstanceLock) :
    ∀ w ∈ ws, w.CoveredBy locks := by
  rintro w hw
  rcases h with rfl | ⟨e, rfl⟩
  · cases hw
  · obtain rfl := List.mem_singleton.mp hw
    trivial

/-- Every write of a finished call is covered by its locks. -/
theorem instanceSystem_covered {sha256 : String → ℕ} {maps : ℕ → WorkflowTransitionMap} {call : InstanceCall}
    {tx startedAt : ℕ} {r : InstanceResult} {log : Log InstanceDb InstanceWrite InstanceLock}
    (h : Ends applyInstanceWrite ((instanceSystem sha256 maps).body call tx startedAt) .empty r log) :
    ∀ w ∈ log.writes, w.CoveredBy log.held := by
  intro w hw
  rcases instanceSystem_ends h with hnone | ⟨input, ⟨run⟩⟩ | ⟨input, ⟨run⟩⟩
  · rw [hnone] at hw
    cases hw
  · rw [run.writes, List.mem_cons] at hw
    rcases hw with rfl | hw
    · have hid := (findInstance_some run.found_again).2.2
      exact (congrArg (InstanceLock.instance · ∈ log.held) hid).mpr run.held
    · exact run.audit.coveredBy _ w hw
  · rw [run.writes, List.mem_cons] at hw
    rcases hw with rfl | hw
    · have hid : run.row.id = tx := by rw [run.row_eq]
      exact (congrArg (InstanceLock.instancePkey · ∈ log.held) hid).mpr run.held
    · exact run.audit.coveredBy _ w hw

/-! ## Each write keeps the history legal -/

section history

variable {maps : ℕ → WorkflowTransitionMap} {db : InstanceDb}

theorem CreatedIn.mono {db' : InstanceDb} {i : WorkflowInstance} {initialState : String}
    (h : CreatedIn db i initialState) (hevents : ∀ e ∈ db.auditEvents, e ∈ db'.auditEvents) :
    CreatedIn db' i initialState := by
  obtain ⟨e, he, hsame⟩ := h
  exact ⟨e, hevents e he, hsame⟩

theorem LegalHistory.auditOnly {ws : List InstanceWrite} (hws : AuditOnly ws) (h : LegalHistory maps db) :
    LegalHistory maps (view applyInstanceWrite db ws) := by
  rcases hws with rfl | ⟨e, rfl⟩
  · exact h
  · refine ⟨h.ids, h.logged, fun i hi => ?_⟩
    obtain ⟨initialState, hcreated, hpath⟩ := h.path i hi
    exact ⟨initialState, hcreated.mono (fun e he => List.mem_append_left _ he), hpath⟩

/-- A legal step from the current state of an instance, moved and logged. -/
theorem LegalHistory.transition (h : LegalHistory maps db) {old : WorkflowInstance} (hold : old ∈ db.instances)
    {row : WorkflowTransition} (hid : row.workflowInstanceId = old.id) (hfrom : row.fromState = old.currentState)
    (hlegal : LegalStep (maps old.id) row.fromState row.toState) :
    LegalHistory maps (applyInstanceWrite db (.transition row)) := by
  have hids : (applyInstanceWrite db (.transition row)).instances.map WorkflowInstance.id =
      db.instances.map WorkflowInstance.id := by
    simp [applyInstanceWrite, Function.comp_def]
  refine ⟨hids ▸ h.ids, fun r hr => ?_, fun i' hi' => ?_⟩
  · rw [hids]
    rcases List.mem_append.mp hr with hr | hr
    · exact h.logged r hr
    · obtain rfl := List.mem_singleton.mp hr
      exact hid ▸ List.mem_map_of_mem hold
  obtain ⟨i, hi, rfl⟩ := List.mem_map.mp hi'
  obtain ⟨initialState, hcreated, hpath⟩ := h.path i hi
  refine ⟨initialState, ?_, ?_⟩
  · -- what the event records does not change
    obtain ⟨e, he, hsame⟩ := hcreated
    refine ⟨e, he, ?_⟩
    unfold WorkflowInstance.transition
    split <;> exact hsame
  · rw [WorkflowInstance.transition_id]
    by_cases he : i.id = row.workflowInstanceId
    · obtain rfl : i = old := List.inj_on_of_nodup_map h.ids hi hold (he.trans hid)
      have hlog : transitionsOf (applyInstanceWrite db (.transition row)) i.id = transitionsOf db i.id ++ [row] := by
        simp [transitionsOf, applyInstanceWrite, hid]
      rw [hlog, WorkflowInstance.transition, if_pos he]
      exact LegalPath.append hlegal (hfrom ▸ hpath)
    · have hlog : transitionsOf (applyInstanceWrite db (.transition row)) i.id = transitionsOf db i.id := by
        simp [transitionsOf, applyInstanceWrite, Ne.symm he]
      rw [hlog, WorkflowInstance.transition_of_ne he]
      exact hpath

/-- A fresh row starts its own history. -/
theorem LegalHistory.insertInstance (h : LegalHistory maps db) {row : WorkflowInstance}
    (hfresh : row.id ∉ db.instances.map WorkflowInstance.id) (hcreated : CreatedIn db row row.currentState) :
    LegalHistory maps (applyInstanceWrite db (.insertInstance row)) := by
  have hids : (applyInstanceWrite db (.insertInstance row)).instances.map WorkflowInstance.id =
      db.instances.map WorkflowInstance.id ++ [row.id] := by
    simp [applyInstanceWrite]
  refine ⟨?_, fun r hr => ?_, fun i hi => ?_⟩
  · rw [hids, List.nodup_append]
    exact ⟨h.ids, List.nodup_singleton _, fun a ha b hb hab => hfresh (List.mem_singleton.mp hb ▸ hab ▸ ha)⟩
  · rw [hids]
    exact List.mem_append_left _ (h.logged r hr)
  · rcases List.mem_append.mp hi with hi | hi
    · exact h.path i hi
    · obtain rfl := List.mem_singleton.mp hi
      have hlog : transitionsOf (applyInstanceWrite db (.insertInstance i)) i.id = [] :=
        List.filter_eq_nil_iff.mpr fun r hr he => hfresh (of_decide_eq_true he ▸ h.logged r hr)
      refine ⟨i.currentState, hcreated, ?_⟩
      rw [hlog]
      rfl

end history

/-! ## Commits -/

section commits

variable {sha256 : String → ℕ} {maps : ℕ → WorkflowTransitionMap} {db : InstanceDb} {call : InstanceCall}
  {tx startedAt : ℕ} {r : InstanceResult} {log : Log InstanceDb InstanceWrite InstanceLock}

/-- Under its lock, the row both statements read is the committed one. -/
theorem append_commit (hcommit : Commit (instanceSystem sha256 maps) (LegalHistory maps) InstancesSince
    db call tx startedAt r log) {input : AppendWorkflowTransitionInput}
    (run : AppendRun (maps input.workflowInstanceId) tx startedAt input log) :
    LegalHistory maps (view applyInstanceWrite db log.writes) := by
  obtain ⟨hread, -, hreadId⟩ := findInstance_some run.found
  obtain ⟨hold, -, holdId⟩ := findInstance_some run.found_again
  have hread' : run.read ∈ db.instances :=
    (hcommit.seen _ run.seen_validated).2.locked _ hread (by simp [hreadId])
  have hold' : run.old ∈ db.instances :=
    (hcommit.seen _ run.seen_logged).2.locked _ hold (by simp [holdId])
  have hsame : run.read = run.old :=
    List.inj_on_of_nodup_map hcommit.good.ids hread' hold' (hreadId.trans holdId.symm)
  have hlegal : LegalStep (maps run.old.id) run.old.currentState input.toState := by
    rw [holdId, ← hsame]
    exact run.legal
  rw [run.writes, view_cons]
  exact (hcommit.good.transition hold' rfl rfl hlegal).auditOnly run.audit

theorem view_insertInstance {ws : List InstanceWrite} (hws : AuditOnly ws) (row : WorkflowInstance) :
    view applyInstanceWrite db (.insertInstance row :: ws) =
      applyInstanceWrite (view applyInstanceWrite db ws) (.insertInstance row) := by
  rcases hws with rfl | ⟨e, rfl⟩ <;> rfl

/-- The key of a new instance has stayed free, and its event is there. -/
theorem create_commit (hcommit : Commit (instanceSystem sha256 maps) (LegalHistory maps) InstancesSince
    db call tx startedAt r log) {input : CreateWorkflowInstanceInput}
    (run : CreateRun tx startedAt input log) :
    LegalHistory maps (view applyInstanceWrite db log.writes) := by
  have hid : run.row.id = tx := by rw [run.row_eq]
  have hfresh : run.row.id ∉ db.instances.map WorkflowInstance.id := by
    rw [hid]
    intro hmem
    obtain ⟨i, hi, hi'⟩ := List.mem_map.mp hmem
    obtain ⟨held, hseen, hkey⟩ := run.seen_inserted
    exact run.fresh ((hcommit.seen _ hseen).2.pkey tx hkey i hi hi')
  have hinstances : (view applyInstanceWrite db run.event).instances = db.instances := by
    rcases run.audit with hnone | ⟨e, he⟩
    · rw [hnone, view_nil]
    · rw [he, view_cons, view_nil, applyInstanceWrite]
  have hcreated : CreatedIn (view applyInstanceWrite db run.event) run.row run.row.currentState := by
    rcases run.created with ⟨e, he, hsame⟩ | ⟨e, he, hsame⟩
    · exact ⟨e, by rw [he]; exact List.mem_append_right _ List.mem_cons_self, hsame⟩
    · obtain ⟨held, hseen⟩ := run.seen_audited
      have hcreated : CreatedIn db run.row run.row.currentState :=
        ⟨e, (hcommit.seen _ hseen).2.events e he, hsame⟩
      rcases run.audit with hnone | ⟨e', he'⟩
      · rwa [hnone]
      · rw [he']
        exact hcreated.mono (fun e he => List.mem_append_left _ he)
  rw [run.writes, view_insertInstance run.audit]
  exact (hcommit.good.auditOnly run.audit).insertInstance (hinstances ▸ hfresh) hcreated

end commits

variable (sha256 : String → ℕ) (maps : ℕ → WorkflowTransitionMap)

theorem instance_outline :
    Outline (instanceSystem sha256 maps) (LegalHistory maps) InstancesSince (fun _ _ _ => True) where
  refl := InstancesSince.refl
  good := by
    intro db call tx startedAt r log hcommit _
    rcases instanceSystem_ends hcommit.ends with hnone | ⟨input, ⟨run⟩⟩ | ⟨input, ⟨run⟩⟩
    · rw [hnone]
      exact hcommit.good
    · exact append_commit hcommit run
    · exact create_commit hcommit run
  rely := fun _ _ _ _ _ _ hcommit _ _ hdisjoint hs =>
    hs.view (instanceSystem_covered hcommit.ends) hdisjoint

/-- In every interleaving of creations and transitions, the committed log of every instance leads in
legal steps from its initial state to its current one. -/
theorem legalHistory_allStates {db : InstanceDb} (h : LegalHistory maps db) (next now : ℕ)
    (events : List (Event InstanceCall)) :
    Runs.AllStates (step (instanceSystem sha256 maps)) (fun w => LegalHistory maps w.db)
      (World.initial db next now) events :=
  Runs.allStates_of_invariant (Inv (instanceSystem sha256 maps) (LegalHistory maps) InstancesSince)
    (fun _ _ _ hinv hs => (instance_outline sha256 maps).step hinv (fun _ _ _ _ => trivial) hs)
    (fun _ hinv => hinv.good) events _ (inv_initial h next now)

theorem legalHistory_empty : LegalHistory maps ⟨[], [], []⟩ :=
  ⟨List.nodup_nil, fun _ h => (by cases h), fun _ h => (by cases h)⟩

/-- A creation and two transitions that overlap, of which the second waits and is rolled back. -/
def overlappingAppends : List (Event InstanceCall) :=
  [.begin (.create ⟨7, "dispute", "claim", 3, "open"⟩), .exec 0, .exec 0, .exec 0, .commit 0,
    .begin (.append ⟨7, 0, "closed"⟩), .begin (.append ⟨7, 0, "open"⟩), .exec 1, .exec 1, .exec 1, .commit 1,
    .exec 2, .rollback 2]

theorem overlappingAppends_legal :
    let sys := instanceSystem Claims.textNumber (fun _ => [("open", ["closed"])])
    ∃ w, Runs.final (step sys) (World.initial ⟨[], [], []⟩ 0 0) overlappingAppends = some w ∧
      (transitionsOf w.db 0).map (fun row => (row.fromState, row.toState)) = [("open", "closed")] ∧
      LegalHistory (fun _ => [("open", ["closed"])]) w.db := by
  intro sys
  have hrun : (Runs.final (step sys) (World.initial ⟨[], [], []⟩ 0 0) overlappingAppends).any
      (fun w => (transitionsOf w.db 0).map (fun row => (row.fromState, row.toState)) = [("open", "closed")]) = true := by
    decide +kernel
  obtain ⟨w, hw, hlog⟩ := (Option.any_eq_true _ _).mp hrun
  exact ⟨w, hw, of_decide_eq_true hlog,
    (legalHistory_allStates Claims.textNumber _ (legalHistory_empty _) 0 0 overlappingAppends).final hw⟩

end Workflow
