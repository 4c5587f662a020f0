import FreightAuditor.Disputes.FindingWrites

/- What the approval of a dispute and a carrier's response have written when they commit,
   and what they had seen. -/
namespace Disputes

open Claims (Amount AuditEvent AuditEventEvidence amountColumn sameEvidence deterministicAuditEventId)
open DecimalJs PgNumeric ReadCommitted
open Workflow (WorkflowInstance CreateWorkflowInstanceInput)

/-- The events that record a change of a dispute's status. -/
def transitionEvents : List String :=
  ["dispute.approved", "dispute.accepted", "dispute.rejected", "dispute.partially_accepted", "dispute.closed"]

def IsTransition (e : AuditEvent) : Prop := e.entity = "dispute" ∧ e.event ∈ transitionEvents

instance (e : AuditEvent) : Decidable (IsTransition e) := inferInstanceAs (Decidable (_ ∧ _))

/-- An audit event of something else. -/
def DisputeWrite.Aside : DisputeWrite → Prop
  | .insertAuditEvent e => ¬ IsTransition e
  | _ => False

/-- Audit events add nothing to the other tables. -/
theorem aside_none {T : Type} {row? : DisputeWrite → Option T} {aside : List DisputeWrite}
    (haside : ∀ w ∈ aside, w.Aside) (h : ∀ e, row? (.insertAuditEvent e) = none) : aside.filterMap row? = [] := by
  refine List.filterMap_eq_nil_iff.mpr fun w hw => ?_
  have hw := haside w hw
  cases w with
  | insertAuditEvent e => exact h e
  | _ => exact hw.elim

section

variable {D : Type} [Decimal D] {sha256 : String → ℕ} {toISOString : ℤ → String} {tx startedAt : ℕ}
  {log log' : Log DisputeDb DisputeWrite LockKey}

theorem updateDispute_ends {clientId disputeId : ℕ} {fromStatuses : List DisputeStatus}
    {toStatus : DisputeStatus} {acceptedAmount : Option String} {r : Option Dispute}
    (h : Ends apply (updateDispute clientId disputeId fromStatuses toStatus acceptedAmount) log r log') :
    r = none ∧ log'.writes = log.writes ∨
      ∃ snapshot row amount, r = some row ∧
        findDispute (view apply snapshot log.writes) clientId disputeId fromStatuses = some row ∧
        acceptedAmount.map (ofText 18 4) = amount.map some ∧
        log' = log.add snapshot [.dispute disputeId] [.updateDispute disputeId toStatus amount] := by
  rw [updateDispute, ends_exec] at h
  obtain ⟨snapshot, ws, hf, rfl⟩ := h
  split at hf
  · obtain ⟨rfl, rfl⟩ := Prod.mk.inj (Except.ok.inj hf)
    exact .inl ⟨rfl, List.append_nil _⟩
  · rename_i row hfound
    obtain ⟨rfl, rfl⟩ := Prod.mk.inj (Except.ok.inj hf)
    refine .inr ⟨snapshot, row, none, rfl, hfound, rfl, ?_⟩
    rw [hfound, Option.isSome_some, if_pos rfl]
  · rename_i row text hfound
    simp only [ExceptOk.bind_eq_ok, ExceptOk.pure_eq_ok, Prod.mk.injEq] at hf
    obtain ⟨amount, hamount, rfl, rfl⟩ := hf
    refine .inr ⟨snapshot, row, some amount, rfl, hfound, ?_, ?_⟩
    · unfold amountColumn at hamount
      split at hamount
      · rename_i n hn
        rw [Option.map_some, hn, Option.map_some, Except.ok.inj hamount]
      · cases hamount
    · rw [hfound, Option.isSome_some, if_pos rfl]

/-- The event of a change of status: written, or found there. -/
structure Recorded (clientId disputeId : ℕ) (event : String) (log log' : Log DisputeDb DisputeWrite LockKey) where
  snapshot : DisputeDb
  held : List LockKey
  seen : (snapshot, held) ∈ log'.seen
  keeps : log.held ⊆ held
  events : List DisputeWrite
  writes : log'.writes = log.writes ++ events
  written : (∃ e, events = [.insertAuditEvent e] ∧ e.entity = "dispute" ∧ e.entityId = some disputeId ∧
      e.event = event) ∨
    events = [] ∧ ∃ e ∈ (view apply snapshot log.writes).auditEvents, e.entity = "dispute" ∧
      e.entityId = some disputeId ∧ e.event = event

theorem sameEvidence_event {a b : AuditEventEvidence} (h : sameEvidence a b = true) :
    a.entity = b.entity ∧ a.entityId = b.entityId ∧ a.event = b.event := by
  simp only [sameEvidence, Bool.and_eq_true, beq_iff_eq] at h
  exact ⟨h.1.1.1.1.1.1.1.2, h.1.1.1.1.1.1.2, h.1.1.1.1.1.2⟩

theorem writeTransitionAuditEvent_ends {row : Dispute} {fromStatus toStatus : DisputeStatus} {event : String}
    {actorUserId : ℕ} {extraDetail : List (String × Json.Value)} {r : Bool}
    (h : Ends apply (writeTransitionAuditEvent sha256 startedAt row fromStatus toStatus event actorUserId extraDetail)
      log r log') : Nonempty (Recorded row.accountId row.id event log log') := by
  obtain ⟨snapshot, events, rfl, hevents⟩ := writeAuditEvent_ends h
  refine ⟨⟨snapshot, _, List.mem_append_right _ (List.mem_singleton_self _), List.subset_append_left _ _,
    events, rfl, ?_⟩⟩
  obtain hnew | ⟨hnone, e, he, -, hsame⟩ := hevents
  · exact .inl ⟨_, hnew, rfl, rfl, rfl⟩
  · exact .inr ⟨hnone, e, he, sameEvidence_event hsame⟩

/-- Either way it writes at most an audit event. -/
theorem writeAuditEvent_aside {id : ℕ} {value : AuditEventEvidence} {r : Bool} (hentity : value.entity ≠ "dispute")
    (h : Ends apply (writeAuditEvent startedAt id value) log r log') :
    ∃ aside, (∀ w ∈ aside, w.Aside) ∧ log'.writes = log.writes ++ aside := by
  obtain ⟨snapshot, events, rfl, hevents⟩ := writeAuditEvent_ends h
  refine ⟨events, fun w hw => ?_, rfl⟩
  obtain rfl | ⟨rfl, -⟩ := hevents
  · obtain rfl := List.mem_singleton.mp hw
    exact fun h => hentity h.1
  · cases hw

theorem createWorkflowInstance_ends {id : ℕ} {input : CreateWorkflowInstanceInput} {row : WorkflowInstance}
    (h : Ends apply (createWorkflowInstance sha256 id startedAt input) log row log') :
    (∃ p ∈ log'.seen, log.held ⊆ p.2 ∧ (findBySubject (view apply p.1 log.writes) input).isSome ∧
        log'.writes = log.writes) ∨
      ∃ snapshot aside, (snapshot, log.held ++ [.workflowInstance id,
          .subject input.clientId input.workflowType input.subjectEntity input.subjectEntityId]) ∈ log'.seen ∧
        .workflowInstance id ∈ log'.held ∧ (∀ i ∈ (view apply snapshot log.writes).workflowInstances, i.id ≠ id) ∧
        row = ⟨id, input.clientId, input.workflowType, input.subjectEntity, input.subjectEntityId,
          input.initialState, startedAt, startedAt⟩ ∧
        (∀ w ∈ aside, w.Aside) ∧ log'.writes = log.writes ++ .insertWorkflowInstance row :: aside := by
  rw [createWorkflowInstance, ends_bind] at h
  obtain ⟨existing, mid, ⟨snapshot, hexisting, rfl⟩, h⟩ := h
  cases existing with
  | some found =>
    obtain ⟨-, rfl⟩ := h
    have hsome := congrArg Option.isSome hexisting
    exact .inl ⟨_, List.mem_append_right _ (List.mem_singleton_self _), List.subset_append_left _ _, hsome.symm,
      List.append_nil _⟩
  | none =>
    simp only [ends_bind, insertInstance, ends_exec] at h
    obtain ⟨inserted, mid, ⟨db₁, ws, hf, rfl⟩, h⟩ := h
    simp only [Log.add, List.append_nil] at hf h
    split at hf
    · -- another transaction came first
      rename_i hconflict
      obtain ⟨rfl, rfl⟩ := Prod.mk.inj (ExceptOk.pure_eq_ok.mp hf)
      simp only [ends_bind] at h
      obtain ⟨raced, mid, ⟨db₂, -, rfl⟩, h⟩ := h
      cases raced with
      | none => exact h.elim
      | some raced =>
        obtain ⟨-, rfl⟩ := h
        refine .inl ⟨(db₁, _), List.mem_append_left _ (List.mem_append_right _ (List.mem_singleton_self _)),
          List.subset_append_left _ _, hconflict, by simp [Log.add]⟩
    · simp only [ExceptOk.throw_bind, ExceptOk.ite_throw_eq_ok, ExceptOk.pure_eq_ok, Prod.mk.injEq] at hf
      obtain ⟨hfresh, rfl, rfl⟩ := hf
      simp only [ends_bind, ends_pure] at h
      obtain ⟨_, log₁, haudit, rfl, rfl⟩ := h
      obtain ⟨aside, haside, hwrites⟩ := writeAuditEvent_aside (show "workflow_instance" ≠ "dispute" by decide) haudit
      refine .inr ⟨db₁, aside, haudit.extends.seen.subset (List.mem_append_right _ (List.mem_singleton_self _)),
        haudit.extends.held.subset (by simp), fun i hi hid => hfresh (List.any_eq_true.mpr ⟨i, hi, by simpa using hid⟩), rfl, haside, ?_⟩
      rw [hwrites, List.append_assoc]
      rfl

theorem scheduleWorkflowCommand_ends {row : WorkflowCommand} {r : ℕ}
    (h : Ends apply (scheduleWorkflowCommand sha256 toISOString startedAt row) log r log') :
    (∃ p ∈ log'.seen, log.held ⊆ p.2 ∧ (findCommand (view apply p.1 log.writes) row.accountId
        row.workflowInstanceId row.commandType row.runAfter).isSome ∧ log'.writes = log.writes) ∨
      ∃ aside, (∀ w ∈ aside, w.Aside) ∧ log'.writes = log.writes ++ .insertWorkflowCommand row :: aside := by
  rw [scheduleWorkflowCommand, ends_bind] at h
  obtain ⟨found, mid, ⟨snapshot, -, rfl⟩, h⟩ := h
  split at h
  · exact h.elim
  simp only [ends_bind, insertCommand, ends_exec] at h
  obtain ⟨inserted, mid, ⟨db₁, ws, hf, rfl⟩, h⟩ := h
  simp only [Log.add, List.append_nil] at hf h
  split at hf
  · rename_i hconflict
    obtain ⟨rfl, rfl⟩ := Prod.mk.inj (Except.ok.inj hf)
    simp only [Bool.false_eq_true, if_false, ends_bind] at h
    obtain ⟨existing, mid, ⟨db₂, -, rfl⟩, h⟩ := h
    cases existing with
    | none => exact h.elim
    | some existing =>
      obtain ⟨-, rfl⟩ := h
      exact .inl ⟨(db₁, _), List.mem_append_left _ (List.mem_append_right _ (List.mem_singleton_self _)),
        List.subset_append_left _ _, hconflict, by simp [Log.add]⟩
  · obtain ⟨rfl, rfl⟩ := Prod.mk.inj (Except.ok.inj hf)
    simp only [if_true, ends_bind, ends_pure] at h
    obtain ⟨_, log₁, haudit, -, rfl⟩ := h
    obtain ⟨aside, haside, hwrites⟩ := writeAuditEvent_aside (show "workflow_command" ≠ "dispute" by decide) haudit
    refine .inr ⟨aside, haside, ?_⟩
    rw [hwrites, List.append_assoc]
    rfl

/-! ## The operations -/

/-- A change of a dispute's status, with its event; `rest` is what the transaction writes after it. -/
structure Transitioned (clientId disputeId : ℕ) (fromStatuses : List DisputeStatus) (toStatus : DisputeStatus)
    (event : String) (amount : Option Amount) (log : Log DisputeDb DisputeWrite LockKey) (rest : List DisputeWrite) where
  snapshot : DisputeDb
  row : Dispute
  seen : (snapshot, [.dispute disputeId]) ∈ log.seen
  found : findDispute snapshot clientId disputeId fromStatuses = some row
  eventDb : DisputeDb
  held : List LockKey
  seen_event : (eventDb, held) ∈ log.seen
  locked : .dispute disputeId ∈ held
  events : List DisputeWrite
  writes : log.writes = .updateDispute disputeId toStatus amount :: (events ++ rest)
  written : (∃ e, events = [.insertAuditEvent e] ∧ e.entity = "dispute" ∧ e.entityId = some disputeId ∧
      e.event = event) ∨
    events = [] ∧ ∃ e ∈ eventDb.auditEvents, e.entity = "dispute" ∧ e.entityId = some disputeId ∧ e.event = event

theorem findDispute_id {db : DisputeDb} {clientId disputeId : ℕ} {fromStatuses : List DisputeStatus} {row : Dispute}
    (h : findDispute db clientId disputeId fromStatuses = some row) :
    row ∈ db.disputes ∧ row.accountId = clientId ∧ row.id = disputeId ∧ row.status ∈ fromStatuses := by
  have hrow := List.find?_some h
  simp only [Bool.and_eq_true, beq_iff_eq, decide_eq_true_eq] at hrow
  exact ⟨List.mem_of_find?_eq_some h, hrow.1.1, hrow.1.2, hrow.2⟩

/-- The response as it commits: it had checked the dispute in an earlier statement. -/
theorem respond_ends {clientId disputeId actorUserId : ℕ} {fromStatuses : List DisputeStatus}
    {toStatus : DisputeStatus} {event : String} {acceptedAmount : Option String}
    {check : Dispute → Except DisputesError Unit} {r : Bool}
    (h : Ends apply (respond sha256 startedAt clientId disputeId actorUserId fromStatuses toStatus event
      acceptedAmount check) .empty r log) :
    r = false ∧ log.writes = [] ∨
      r = true ∧ ∃ amount checkedDb checked, acceptedAmount.map (ofText 18 4) = amount.map some ∧
        (checkedDb, []) ∈ log.seen ∧ findDispute checkedDb clientId disputeId fromStatuses = some checked ∧
        check checked = .ok () ∧
        Nonempty (Transitioned clientId disputeId fromStatuses toStatus event amount log []) := by
  rw [respond, ends_bind] at h
  obtain ⟨found, mid, ⟨checkedDb, hfound, rfl⟩, h⟩ := h
  cases found with
  | none =>
    obtain ⟨rfl, rfl⟩ := h
    exact .inl ⟨rfl, rfl⟩
  | some checked =>
    simp only [ends_bind, ends_ofExcept] at h
    obtain ⟨_, _, ⟨hcheck, rfl⟩, updated, log₁, hupdate, h⟩ := h
    obtain ⟨rfl, hnone⟩ | ⟨snapshot, row, amount, rfl, hrow, hamount, rfl⟩ := updateDispute_ends hupdate
    · obtain ⟨rfl, rfl⟩ := h
      exact .inl ⟨rfl, hnone⟩
    · simp only [ends_bind, ends_pure] at h
      obtain ⟨_, log₂, haudit, rfl, rfl⟩ := h
      obtain ⟨recorded⟩ := writeTransitionAuditEvent_ends haudit
      have hid := findDispute_id hrow
      refine .inr ⟨rfl, amount, checkedDb, checked, hamount, ?_, hfound.symm, hcheck, ⟨{
        snapshot := snapshot
        row := row
        seen := haudit.extends.seen.subset (List.mem_append_right _ (List.mem_singleton_self _))
        found := hrow
        eventDb := recorded.snapshot
        held := recorded.held
        seen_event := recorded.seen
        locked := recorded.keeps (List.mem_append_right _ (List.mem_singleton_self _))
        events := recorded.events
        writes := by rw [recorded.writes]; simp [Log.add, Log.empty]
        written := hid.2.2.1 ▸ recorded.written }⟩⟩
      exact haudit.extends.seen.subset (List.mem_append_left _ (List.mem_append_right _ (List.mem_singleton_self _)))

/-- What an approval writes after the change of status: an instance for the delivery, and its command. -/
structure Delivery (tx startedAt : ℕ) (row : Dispute) (now : ℤ) (rest : List DisputeWrite) where
  aside : List DisputeWrite
  aside' : List DisputeWrite
  aside_ok : ∀ w ∈ aside ++ aside', w.Aside
  rest_eq : rest = .insertWorkflowInstance ⟨newId tx 0, row.accountId, "dispute_delivery", "dispute", row.id,
      "pending_delivery", startedAt, startedAt⟩ :: (aside ++
    .insertWorkflowCommand ⟨newId tx 1, row.accountId, newId tx 0, DELIVER_DISPUTE_COMMAND_TYPE, row.id, now⟩ ::
      aside')

/-- The approval as it commits, where a draft dispute has no delivery yet and a new instance no command. -/
theorem approveDispute_ends {clientId disputeId actorUserId : ℕ} {now : ℤ} {r : Bool}
    (h : Ends apply (approveDispute sha256 toISOString tx startedAt clientId disputeId actorUserId now) .empty r log)
    (hsubject : ∀ snapshot row, (snapshot, [.dispute disputeId]) ∈ log.seen →
      findDispute snapshot clientId disputeId [.draft] = some row →
        ∀ p ∈ log.seen, .dispute disputeId ∈ p.2 → findBySubject p.1 (deliveryInput row) = none)
    (hcommand : ∀ id, ∀ p ∈ log.seen, .workflowInstance id ∈ p.2 → (∀ i ∈ p.1.workflowInstances, i.id ≠ id) →
      ∀ p' ∈ log.seen, .workflowInstance id ∈ p'.2 → ∀ c ∈ p'.1.workflowCommands, c.workflowInstanceId ≠ id) :
    r = false ∧ log.writes = [] ∨
      r = true ∧ ∃ rest, ∃ run : Transitioned clientId disputeId [.draft] .sent "dispute.approved" none log rest,
        (∃ p ∈ log.seen, .workflowInstance (newId tx 0) ∈ p.2 ∧
          ∀ i ∈ p.1.workflowInstances, i.id ≠ newId tx 0) ∧
        Nonempty (Delivery tx startedAt run.row now rest) := by
  rw [approveDispute, ends_bind] at h
  obtain ⟨updated, log₁, hupdate, h⟩ := h
  obtain ⟨rfl, hnone⟩ | ⟨snapshot, row, amount, rfl, hrow, hamount, rfl⟩ := updateDispute_ends hupdate
  · obtain ⟨rfl, rfl⟩ := h
    exact .inl ⟨rfl, hnone⟩
  obtain rfl : amount = none := by
    cases amount with
    | none => rfl
    | some a => cases hamount
  simp only [ends_bind, ends_pure] at h
  obtain ⟨_, log₂, haudit, instance_, log₃, hinstance, _, log₄, hschedule, rfl, hlog⟩ := h
  rw [hlog] at hsubject hcommand ⊢
  obtain ⟨recorded⟩ := writeTransitionAuditEvent_ends haudit
  have hid := findDispute_id hrow
  have hsub₃ : log₃.seen ⊆ log₄.seen := hschedule.extends.seen.subset
  have hsub₂ : log₂.seen ⊆ log₄.seen := List.Subset.trans hinstance.extends.seen.subset hsub₃
  have hfirst : (snapshot, [.dispute disputeId]) ∈ log₄.seen :=
    hsub₂ (haudit.extends.seen.subset (List.mem_append_right _ (List.mem_singleton_self _)))
  have hlocked : .dispute disputeId ∈ log₂.held :=
    haudit.extends.held.subset (List.mem_append_right _ (List.mem_singleton_self _))
  have hwrites₂ : log₂.writes = .updateDispute disputeId .sent none :: recorded.events := by
    rw [recorded.writes]
    rfl
  -- audit events and a change of status add neither an instance nor a command
  have hinstances : ∀ db : DisputeDb, (view apply db log₂.writes).workflowInstances = db.workflowInstances ∧
      (view apply db log₂.writes).workflowCommands = db.workflowCommands := by
    intro db
    rw [hwrites₂, view_workflowInstances, view_workflowCommands]
    obtain ⟨e, he, -⟩ | ⟨he, -⟩ := recorded.written
    · rw [he]
      exact ⟨List.append_nil _, List.append_nil _⟩
    · rw [he]
      exact ⟨List.append_nil _, List.append_nil _⟩
  have hfind : ∀ db : DisputeDb, findBySubject (view apply db log₂.writes) (deliveryInput row) =
      findBySubject db (deliveryInput row) := by
    intro db
    rw [findBySubject, (hinstances db).1]
    rfl
  obtain ⟨p, hp, hheld, hsome, -⟩ | ⟨db₃, aside, hseen₃, hheld₃, hfresh, rfl, haside, hwrites₃⟩ :=
    createWorkflowInstance_ends hinstance
  · rw [hfind, hsubject snapshot row hfirst hrow p (hsub₃ hp) (hheld hlocked)] at hsome
    cases hsome
  have hnew : .workflowInstance (newId tx 0) ∈ log₂.held ++ [.workflowInstance (newId tx 0),
      .subject (deliveryInput row).clientId (deliveryInput row).workflowType (deliveryInput row).subjectEntity
        (deliveryInput row).subjectEntityId] := by simp
  rw [(hinstances db₃).1] at hfresh
  obtain ⟨p, hp, hheld, hsome, -⟩ | ⟨aside', haside', hwrites₄⟩ := scheduleWorkflowCommand_ends hschedule
  · exfalso
    obtain ⟨c, hc⟩ := Option.isSome_iff_exists.mp hsome
    have hcid := List.find?_some hc
    simp only [Bool.and_eq_true, beq_iff_eq] at hcid
    have hmem := List.mem_of_find?_eq_some hc
    rw [hwrites₃, view_append, view_workflowCommands, (hinstances p.1).2] at hmem
    have hnone : (DisputeWrite.insertWorkflowInstance ⟨newId tx 0, (deliveryInput row).clientId,
        (deliveryInput row).workflowType, (deliveryInput row).subjectEntity, (deliveryInput row).subjectEntityId,
        (deliveryInput row).initialState, startedAt, startedAt⟩ :: aside).filterMap
          DisputeWrite.workflowCommand? = [] :=
      (List.filterMap_cons_none rfl).trans (aside_none haside fun _ => rfl)
    rw [hnone, List.append_nil] at hmem
    exact hcommand _ _ (hsub₃ hseen₃) hnew hfresh p hp (hheld hheld₃) c hmem hcid.1.1.2
  · refine .inr ⟨rfl, _, {
      snapshot := snapshot
      row := row
      seen := hfirst
      found := hrow
      eventDb := recorded.snapshot
      held := recorded.held
      seen_event := hsub₂ recorded.seen
      locked := recorded.keeps (List.mem_append_right _ (List.mem_singleton_self _))
      events := recorded.events
      writes := by rw [hwrites₄, hwrites₃, hwrites₂, List.append_assoc, List.cons_append]
      written := hid.2.2.1 ▸ recorded.written }, ⟨_, hsub₃ hseen₃, hnew, hfresh⟩, ⟨⟨aside, aside', ?_, rfl⟩⟩⟩
    intro w hw
    rcases List.mem_append.mp hw with hw | hw
    · exact haside w hw
    · exact haside' w hw

end

end Disputes
