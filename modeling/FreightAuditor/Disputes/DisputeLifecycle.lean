import FreightAuditor.Disputes.Creation
import FreightAuditor.Disputes.TransitionWrites

/- The lifecycle of a dispute, whatever transactions run at once.

   A dispute is drafted, sent, answered by the carrier in one of three ways, and closed.
   The audit log holds one event for each of these steps, in their order (`Path`), and an
   approval alone schedules the delivery. `lifecycle_allStates` says that this holds in
   every state of every interleaving, and `lifecycle_allSteps` that a commit takes a
   dispute along at most one edge and that a call that fails or is refused changes
   nothing. -/
namespace Disputes

open Claims (Amount AuditEvent VarianceStatus)
open DecimalJs PgNumeric ReadCommitted

/-! ## The path of a dispute -/

def responseEvents : List String := ["dispute.accepted", "dispute.rejected", "dispute.partially_accepted"]

/-- The events that have led to a status. -/
def Path : DisputeStatus → List String → Prop
  | .draft, events => events = []
  | .sent, events => events = ["dispute.approved"]
  | .in_progress, _ => False
  | .accepted, events => events = ["dispute.approved", "dispute.accepted"]
  | .rejected, events => events = ["dispute.approved", "dispute.rejected"]
  | .partially_accepted, events => events = ["dispute.approved", "dispute.partially_accepted"]
  | .closed, events => ∃ response ∈ responseEvents, events = ["dispute.approved", response, "dispute.closed"]

/-- One step of the path. -/
inductive Edge : DisputeStatus → String → DisputeStatus → Prop
  | approved : Edge .draft "dispute.approved" .sent
  | accepted {status : DisputeStatus} : status ∈ RESPONDABLE_STATUSES → Edge status "dispute.accepted" .accepted
  | rejected {status : DisputeStatus} : status ∈ RESPONDABLE_STATUSES → Edge status "dispute.rejected" .rejected
  | partially_accepted {status : DisputeStatus} : status ∈ RESPONDABLE_STATUSES →
      Edge status "dispute.partially_accepted" .partially_accepted
  | closed {status : DisputeStatus} : status ∈ RESOLVED_STATUSES → Edge status "dispute.closed" .closed

theorem Edge.path {fromStatus toStatus : DisputeStatus} {event : String} {events : List String}
    (h : Edge fromStatus event toStatus) (hpath : Path fromStatus events) :
    event ∉ events ∧ Path toStatus (events ++ [event]) := by
  cases h with
  | approved =>
    rw [show events = [] from hpath]
    exact ⟨List.not_mem_nil, rfl⟩
  | accepted hfrom =>
    simp only [RESPONDABLE_STATUSES, List.mem_cons, List.not_mem_nil, or_false] at hfrom
    obtain rfl | rfl := hfrom
    · rw [show events = ["dispute.approved"] from hpath]
      exact ⟨by decide, rfl⟩
    · exact hpath.elim
  | rejected hfrom =>
    simp only [RESPONDABLE_STATUSES, List.mem_cons, List.not_mem_nil, or_false] at hfrom
    obtain rfl | rfl := hfrom
    · rw [show events = ["dispute.approved"] from hpath]
      exact ⟨by decide, rfl⟩
    · exact hpath.elim
  | partially_accepted hfrom =>
    simp only [RESPONDABLE_STATUSES, List.mem_cons, List.not_mem_nil, or_false] at hfrom
    obtain rfl | rfl := hfrom
    · rw [show events = ["dispute.approved"] from hpath]
      exact ⟨by decide, rfl⟩
    · exact hpath.elim
  | closed hfrom =>
    have hresponse : ∃ response ∈ responseEvents, events = ["dispute.approved", response] := by
      simp only [RESOLVED_STATUSES, List.mem_cons, List.not_mem_nil, or_false] at hfrom
      obtain rfl | rfl | rfl := hfrom
      · exact ⟨_, by simp [responseEvents], hpath⟩
      · exact ⟨_, by simp [responseEvents], hpath⟩
      · exact ⟨_, by simp [responseEvents], hpath⟩
    obtain ⟨response, hmem, rfl⟩ := hresponse
    refine ⟨fun h => ?_, response, hmem, rfl⟩
    have hne : "dispute.closed" ∉ responseEvents := by decide
    simp only [List.mem_cons, List.not_mem_nil, or_false] at h
    obtain h | rfl := h
    · exact absurd h (by decide)
    · exact hne hmem

theorem Edge.not_draft {fromStatus toStatus : DisputeStatus} {event : String} (h : Edge fromStatus event toStatus) :
    toStatus ≠ .draft := by
  cases h <;> simp

/-! ## The tables of a dispute -/

/-- The steps that a dispute has taken. -/
def DisputeDb.transitionsOf (db : DisputeDb) (disputeId : ℕ) : List String :=
  (db.auditEvents.filter fun e => IsTransition e ∧ e.entityId = some disputeId).map (·.event)

def DisputeDb.deliveriesOf (db : DisputeDb) (disputeId : ℕ) : List WorkflowCommand :=
  db.workflowCommands.filter fun c => c.commandType = DELIVER_DISPUTE_COMMAND_TYPE ∧ c.disputeId = disputeId

/-- A dispute and its rows agree. -/
structure Settled (db : DisputeDb) (d : Dispute) : Prop where
  path : Path d.status (db.transitionsOf d.id)
  acceptedAmount : d.acceptedAmount.isSome ↔ "dispute.partially_accepted" ∈ db.transitionsOf d.id
  within : ∀ accepted ∈ d.acceptedAmount, ∃ claimed ∈ d.amountClaimed, accepted.units ≤ claimed.units
  delivery : (db.deliveriesOf d.id).length = if "dispute.approved" ∈ db.transitionsOf d.id then 1 else 0

/-- Each dispute stays as it is, or takes one step with one event. -/
def Moves (db db' : DisputeDb) : Prop :=
  (∀ d ∈ db.disputes, ∃ d' ∈ db'.disputes, d'.id = d.id ∧
    (d' = d ∧ db'.transitionsOf d.id = db.transitionsOf d.id ∨
      ∃ event, Edge d.status event d'.status ∧
        db'.transitionsOf d.id = db.transitionsOf d.id ++ [event])) ∧
  ∀ d' ∈ db'.disputes, (∃ d ∈ db.disputes, d.id = d'.id) ∨ d'.status = .draft

structure LifeInv (initial : KeyedTable VarianceFinding VarianceFinding.id) (db : DisputeDb) : Prop where
  findings : FindingsOf initial db
  unique : (db.disputes.map Dispute.id).Nodup
  settled : ∀ d ∈ db.disputes, Settled db d
  claimed : ∀ d ∈ db.disputes, d.amountClaimed.isSome
  transitions : ∀ id, db.transitionsOf id ≠ [] → ∃ d ∈ db.disputes, d.id = id
  deliveries : ∀ id, db.deliveriesOf id ≠ [] → ∃ d ∈ db.disputes, d.id = id
  instances : ∀ i ∈ db.workflowInstances, ∃ d ∈ db.disputes, d.id = i.subjectEntityId ∧ d.status ≠ .draft
  commands : ∀ c ∈ db.workflowCommands, ∃ i ∈ db.workflowInstances, i.id = c.workflowInstanceId

section

variable {initial : KeyedTable VarianceFinding VarianceFinding.id} {db db' : DisputeDb}

theorem lifeInv_initial (initial : KeyedTable VarianceFinding VarianceFinding.id) :
    LifeInv initial (DisputeDb.initial initial) where
  findings := fun _ => rfl
  unique := List.nodup_nil
  settled := by simp [DisputeDb.initial]
  claimed := by simp [DisputeDb.initial]
  transitions := fun id h => absurd rfl h
  deliveries := fun id h => absurd rfl h
  instances := by simp [DisputeDb.initial]
  commands := by simp [DisputeDb.initial]

theorem LifeInv.eq_of_id (h : LifeInv initial db) {d d' : Dispute} (hd : d ∈ db.disputes) (hd' : d' ∈ db.disputes)
    (hid : d.id = d'.id) : d = d' :=
  List.inj_on_of_nodup_map h.unique hd hd' hid

theorem moves_refl (db : DisputeDb) : Moves db db :=
  ⟨fun d hd => ⟨d, hd, rfl, .inl ⟨rfl, rfl⟩⟩, fun d hd => .inl ⟨d, hd, rfl⟩⟩

/-! ## A step of one dispute -/

/-- What a transaction leaves behind that takes a dispute along an edge. -/
structure Moved (db db' : DisputeDb) (row : Dispute) (event : String) (toStatus : DisputeStatus)
    (amount : Option Amount) : Prop where
  mem : row ∈ db.disputes
  edge : Edge row.status event toStatus
  disputes : db'.disputes = db.disputes.map (.update row.id toStatus amount)
  transitions : ∀ id, db'.transitionsOf id = db.transitionsOf id ++ if id = row.id then [event] else []
  amount_iff : amount.isSome ↔ event = "dispute.partially_accepted"
  within : ∀ accepted ∈ amount, ∃ claimed ∈ row.amountClaimed, accepted.units ≤ claimed.units
  deliveries : ∀ id, (db'.deliveriesOf id).length =
    (db.deliveriesOf id).length + if id = row.id ∧ event = "dispute.approved" then 1 else 0
  instances : ∀ i ∈ db'.workflowInstances, i ∈ db.workflowInstances ∨ i.subjectEntityId = row.id
  commands : ∀ c ∈ db'.workflowCommands, ∃ i ∈ db'.workflowInstances, i.id = c.workflowInstanceId

section moved

variable {row : Dispute} {event : String} {toStatus : DisputeStatus} {amount : Option Amount}

theorem Dispute.update_self (d : Dispute) :
    d.update d.id toStatus amount = { d with status := toStatus, acceptedAmount := amount <|> d.acceptedAmount } :=
  if_pos rfl

theorem Dispute.update_other {d : Dispute} {disputeId : ℕ} (h : d.id ≠ disputeId) :
    d.update disputeId toStatus amount = d := if_neg h

/-- The rows of the other disputes are untouched. -/
theorem Moved.other (h : Moved db db' row event toStatus amount) {d : Dispute} (hne : d.id ≠ row.id)
    (hd : Settled db d) : Settled db' d := by
  have htransitions : db'.transitionsOf d.id = db.transitionsOf d.id := by
    rw [h.transitions, if_neg hne, List.append_nil]
  refine ⟨htransitions ▸ hd.path, htransitions ▸ hd.acceptedAmount, hd.within, ?_⟩
  rw [h.deliveries, if_neg (fun h => hne h.1), htransitions]
  exact hd.delivery

theorem Moved.self (h : Moved db db' row event toStatus amount) (hd : Settled db row) :
    Settled db' (row.update row.id toStatus amount) := by
  have htransitions : db'.transitionsOf row.id = db.transitionsOf row.id ++ [event] := by
    rw [h.transitions, if_pos rfl]
  obtain ⟨hfresh, hpath⟩ := h.edge.path hd.path
  rw [Dispute.update_self]
  refine ⟨?_, ?_, fun accepted haccepted => ?_, ?_⟩
  · change Path toStatus (db'.transitionsOf row.id)
    rw [htransitions]
    exact hpath
  · change (amount <|> row.acceptedAmount).isSome ↔ _ ∈ db'.transitionsOf row.id
    have hevent : "dispute.partially_accepted" = event ↔ amount.isSome := eq_comm.trans h.amount_iff.symm
    rw [htransitions, List.mem_append, List.mem_singleton, ← hd.acceptedAmount, hevent]
    cases amount with
    | none => simp
    | some a => simp
  · change accepted ∈ (amount <|> row.acceptedAmount) at haccepted
    cases hamount : amount with
    | none => exact hd.within accepted (by rw [hamount] at haccepted; simpa using haccepted)
    | some a =>
      rw [hamount] at haccepted
      exact h.within accepted (by rw [hamount]; simpa using haccepted)
  · change (db'.deliveriesOf row.id).length = if _ ∈ db'.transitionsOf row.id then 1 else 0
    rw [h.deliveries, hd.delivery, htransitions]
    by_cases happroved : event = "dispute.approved"
    · rw [happroved] at hfresh ⊢
      simp [hfresh]
    · simp [happroved, Ne.symm happroved]

theorem Moved.lifeInv (h : Moved db db' row event toStatus amount) (hinv : LifeInv initial db)
    (hof : FindingsOf initial db') : LifeInv initial db' := by
  have hback : ∀ d' ∈ db'.disputes, ∃ d ∈ db.disputes, d' = d.update row.id toStatus amount := by
    intro d' hd'
    rw [h.disputes] at hd'
    obtain ⟨d, hd, rfl⟩ := List.mem_map.mp hd'
    exact ⟨d, hd, rfl⟩
  have hforth : ∀ d ∈ db.disputes, d.update row.id toStatus amount ∈ db'.disputes := fun d hd =>
    h.disputes ▸ List.mem_map_of_mem hd
  have hids : db'.disputes.map Dispute.id = db.disputes.map Dispute.id := by
    rw [h.disputes, List.map_map]
    exact List.map_congr_left fun d _ => Dispute.update_id ..
  have hknown : ∀ id, (∃ d ∈ db.disputes, d.id = id) → ∃ d' ∈ db'.disputes, d'.id = id := by
    rintro id ⟨d, hd, hid⟩
    exact ⟨_, hforth d hd, (Dispute.update_id ..).trans hid⟩
  refine ⟨hof, hids ▸ hinv.unique, fun d' hd' => ?_, fun d' hd' => ?_, fun id hid => ?_, fun id hid => ?_,
    fun i hi => ?_, h.commands⟩
  · obtain ⟨d, hd, rfl⟩ := hback d' hd'
    by_cases hsame : d.id = row.id
    · rw [hinv.eq_of_id hd h.mem hsame]
      exact h.self (hinv.settled row h.mem)
    · rw [Dispute.update_other hsame]
      exact h.other hsame (hinv.settled d hd)
  · obtain ⟨d, hd, rfl⟩ := hback d' hd'
    have hclaimed := hinv.claimed d hd
    unfold Dispute.update
    split <;> exact hclaimed
  · rw [h.transitions] at hid
    by_cases hsame : id = row.id
    · exact hknown id ⟨row, h.mem, hsame.symm⟩
    · rw [if_neg hsame, List.append_nil] at hid
      exact hknown id (hinv.transitions id hid)
  · by_cases hsame : id = row.id
    · exact hknown id ⟨row, h.mem, hsame.symm⟩
    · have hlength := h.deliveries id
      rw [if_neg (fun h => hsame h.1), add_zero] at hlength
      refine hknown id (hinv.deliveries id fun hnil => hid ?_)
      rw [hnil] at hlength
      exact List.length_eq_zero_iff.mp hlength
  · have hself : ∃ d' ∈ db'.disputes, d'.id = row.id ∧ d'.status ≠ .draft := by
      refine ⟨_, hforth row h.mem, Dispute.update_id .., ?_⟩
      rw [Dispute.update_self]
      exact h.edge.not_draft
    obtain hold | hnew := h.instances i hi
    · obtain ⟨d, hd, hid, hstatus⟩ := hinv.instances i hold
      by_cases hsame : d.id = row.id
      · rw [← hid, hsame]
        exact hself
      · refine ⟨_, hforth d hd, (Dispute.update_id ..).trans hid, ?_⟩
        rw [Dispute.update_other hsame]
        exact hstatus
    · rw [hnew]
      exact hself

theorem Moved.moves (h : Moved db db' row event toStatus amount) (hinv : LifeInv initial db) : Moves db db' := by
  constructor
  · intro d hd
    refine ⟨d.update row.id toStatus amount, h.disputes ▸ List.mem_map_of_mem hd, Dispute.update_id .., ?_⟩
    by_cases hsame : d.id = row.id
    · obtain rfl := hinv.eq_of_id hd h.mem hsame
      refine .inr ⟨event, ?_, by rw [h.transitions, if_pos rfl]⟩
      rw [Dispute.update_self]
      exact h.edge
    · exact .inl ⟨Dispute.update_other hsame, by rw [h.transitions, if_neg hsame, List.append_nil]⟩
  · intro d' hd'
    rw [h.disputes] at hd'
    obtain ⟨d, hd, rfl⟩ := List.mem_map.mp hd'
    exact .inl ⟨d, hd, (Dispute.update_id ..).symm⟩

end moved

end

end Disputes
