import FreightAuditor.Disputes.Transactions

/- Which rows each lock of the dispute operations protects, and what no write undoes.

   `disputes_outline` says that every statement holds the locks of the rows it changes, so
   that a transaction finds them at its commit as it left them. -/
namespace Disputes

open Claims (VarianceStatus)
open DecimalJs ReadCommitted

/-- The row of a finding. -/
def DisputeDb.finding (db : DisputeDb) (id : ℕ) : Option VarianceFinding := db.varianceFindings.find? id

/-- The rows under a lock are the same. -/
def Same (db db' : DisputeDb) : LockKey → Prop
  | .varianceFinding id => db'.finding id = db.finding id
  | .dispute id => db'.disputes.filter (·.id = id) = db.disputes.filter (·.id = id)
  | .auditEvent id => db'.auditEvents.filter (·.id = id) = db.auditEvents.filter (·.id = id)
  | .workflowInstance id =>
    db'.workflowInstances.filter (·.id = id) = db.workflowInstances.filter (·.id = id)
  | .subject a t e s =>
    db'.workflowInstances.filter (fun i => i.accountId = a ∧ i.workflowType = t ∧ i.subjectEntity = e ∧
        i.subjectEntityId = s) =
      db.workflowInstances.filter (fun i => i.accountId = a ∧ i.workflowType = t ∧ i.subjectEntity = e ∧
        i.subjectEntityId = s)
  | .command a i t r =>
    db'.workflowCommands.filter (fun c => c.accountId = a ∧ c.workflowInstanceId = i ∧ c.commandType = t ∧
        c.runAfter = r) =
      db.workflowCommands.filter (fun c => c.accountId = a ∧ c.workflowInstanceId = i ∧ c.commandType = t ∧
        c.runAfter = r)

/-- Disputes stay, with what they claim; and rows that nothing changes stay. -/
structure Grows (db db' : DisputeDb) : Prop where
  disputes : ∀ d ∈ db.disputes, ∃ d' ∈ db'.disputes, d'.id = d.id ∧ d'.accountId = d.accountId ∧
    d'.amountClaimed = d.amountClaimed
  auditEvents : db.auditEvents ⊆ db'.auditEvents
  workflowInstances : db.workflowInstances ⊆ db'.workflowInstances

/-! ## What a write changes -/

theorem finding_update (db : DisputeDb) (findingId : ℕ) (status : VarianceStatus) (id : ℕ) :
    (apply db (.updateFindingStatus findingId status)).finding id =
      (db.finding id).map (.updateStatus findingId status) := by
  unfold DisputeDb.finding KeyedTable.find?
  change (db.varianceFindings.rows.map _).find? _ = _
  rw [List.find?_map]
  congr 2
  funext f
  simp

theorem finding_update_other {findingId id : ℕ} (h : id ≠ findingId) (db : DisputeDb) (status : VarianceStatus) :
    (apply db (.updateFindingStatus findingId status)).finding id = db.finding id := by
  rw [finding_update]
  cases hf : db.finding id with
  | none => rfl
  | some f =>
    have hid : f.id = id := (KeyedTable.find?_sound hf).2
    rw [Option.map_some, VarianceFinding.updateStatus, if_neg (hid ▸ h)]

theorem dispute_update_other {disputeId : ℕ} {id : ℕ} (h : id ≠ disputeId) (status : DisputeStatus)
    (acceptedAmount : Option Claims.Amount) (ds : List Dispute) :
    (ds.map (.update disputeId status acceptedAmount)).filter (·.id = id) = ds.filter (·.id = id) := by
  induction ds with
  | nil => rfl
  | cons d rest ih =>
    by_cases hid : d.id = id
    · have hsame : d.update disputeId status acceptedAmount = d := if_neg (hid ▸ h)
      simp [hsame, hid, ih]
    · simp [hid, ih]

/-- The locks a write needs. -/
def DisputeWrite.locks : DisputeWrite → List LockKey
  | .insertDispute row => [.dispute row.id]
  | .insertDisputeLine _ => []
  | .updateFindingStatus findingId _ => [.varianceFinding findingId]
  | .insertFindingStatusEvent _ => []
  | .insertAuditEvent row => [.auditEvent row.id]
  | .updateDispute disputeId _ _ => [.dispute disputeId]
  | .insertWorkflowInstance row => [.workflowInstance row.id,
      .subject row.accountId row.workflowType row.subjectEntity row.subjectEntityId]
  | .insertWorkflowCommand row => [.command row.accountId row.workflowInstanceId row.commandType row.runAfter]

theorem filter_insert {α : Type} {p : α → Bool} {rows : List α} {row : α} (h : p row = false) :
    (rows ++ [row]).filter p = rows.filter p := by
  simp [List.filter_append, h]

theorem guarded_locks (w : DisputeWrite) :
    Guarded apply (fun k db db' => Same db db' k) w.locks w := by
  intro k hk db
  cases w with
  | insertDispute row =>
    cases k with
    | dispute id => exact filter_insert (by simpa [DisputeWrite.locks, eq_comm] using hk)
    | _ => rfl
  | insertDisputeLine row => cases k <;> rfl
  | updateFindingStatus findingId status =>
    cases k with
    | varianceFinding id => exact finding_update_other (by simpa [DisputeWrite.locks] using hk) db status
    | _ => rfl
  | insertFindingStatusEvent row => cases k <;> rfl
  | insertAuditEvent row =>
    cases k with
    | auditEvent id => exact filter_insert (by simpa [DisputeWrite.locks, eq_comm] using hk)
    | _ => rfl
  | updateDispute disputeId status acceptedAmount =>
    cases k with
    | dispute id =>
      exact dispute_update_other (by simpa [DisputeWrite.locks] using hk) status acceptedAmount db.disputes
    | _ => rfl
  | insertWorkflowInstance row =>
    cases k with
    | workflowInstance id => exact filter_insert (by simpa [DisputeWrite.locks, eq_comm] using hk)
    | subject a t e s =>
      refine filter_insert (decide_eq_false fun h => hk ?_)
      obtain ⟨rfl, rfl, rfl, rfl⟩ := h
      simp [DisputeWrite.locks]
    | _ => rfl
  | insertWorkflowCommand row =>
    cases k with
    | command a i t r =>
      refine filter_insert (decide_eq_false fun h => hk ?_)
      obtain ⟨rfl, rfl, rfl, rfl⟩ := h
      simp [DisputeWrite.locks]
    | _ => rfl

theorem grows_apply (db : DisputeDb) (w : DisputeWrite) : Grows db (apply db w) := by
  have hdisputes : ∀ d ∈ db.disputes, ∃ d' ∈ db.disputes, d'.id = d.id ∧ d'.accountId = d.accountId ∧
      d'.amountClaimed = d.amountClaimed := fun d hd => ⟨d, hd, rfl, rfl, rfl⟩
  cases w with
  | insertDispute row =>
    exact ⟨fun d hd => ⟨d, List.mem_append_left _ hd, rfl, rfl, rfl⟩, fun _ h => h, fun _ h => h⟩
  | insertAuditEvent row => exact ⟨hdisputes, List.subset_append_left _ _, fun _ h => h⟩
  | updateDispute disputeId status acceptedAmount =>
    refine ⟨fun d hd => ⟨_, List.mem_map_of_mem hd, Dispute.update_id .., ?_⟩, fun _ h => h, fun _ h => h⟩
    unfold Dispute.update
    split <;> exact ⟨rfl, rfl⟩
  | insertWorkflowInstance row => exact ⟨hdisputes, fun _ h => h, List.subset_append_left _ _⟩
  | _ => exact ⟨hdisputes, fun _ h => h, fun _ h => h⟩

theorem disputes_parts : Parts apply (fun k db db' => Same db db' k) Grows where
  refl := fun k db => by cases k <;> rfl
  trans := fun k db db' db'' h h' => by cases k <;> exact Eq.trans h' h
  grows_refl := fun db => ⟨fun d hd => ⟨d, hd, rfl, rfl, rfl⟩, fun _ h => h, fun _ h => h⟩
  grows_trans := fun db db' db'' h h' => by
    refine ⟨fun d hd => ?_, List.Subset.trans h.auditEvents h'.auditEvents,
      List.Subset.trans h.workflowInstances h'.workflowInstances⟩
    obtain ⟨d', hd', hid, hacc, hamount⟩ := h.disputes d hd
    obtain ⟨d'', hd'', hid', hacc', hamount'⟩ := h'.disputes d' hd'
    exact ⟨d'', hd'', hid'.trans hid, hacc'.trans hacc, hamount'.trans hamount⟩
  grows_apply := grows_apply

/-! ## Every statement holds its locks -/

abbrev Cov : List LockKey → DisputeWrite → Prop := Guarded apply fun k db db' => Same db db' k

theorem cov_of_locks {locks : List LockKey} {w : DisputeWrite} (h : ∀ k ∈ w.locks, k ∈ locks) : Cov locks w :=
  guarded_mono h (guarded_locks w)

/-- What approvals and responses write. -/
def DisputeWrite.OnDispute : DisputeWrite → Prop
  | .insertAuditEvent _ | .updateDispute .. | .insertWorkflowInstance _ | .insertWorkflowCommand _ => True
  | _ => False

def DisputeCall.OnDispute : DisputeCall → Prop
  | .approveDispute .. | .acceptDispute .. | .rejectDispute .. | .partiallyAcceptDispute .. | .closeDispute .. => True
  | _ => False

abbrev DisputeCov (locks : List LockKey) (w : DisputeWrite) : Prop := Cov locks w ∧ w.OnDispute

theorem cov_of_disputeCov {R : Type} {p : Statement R} (h : Covered DisputeCov p) : Covered Cov p :=
  h.mono fun _ _ hw => hw.1

section covered

variable {D : Type} [Decimal D] {sha256 : String → ℕ} {toISOString : ℤ → String} {tx startedAt : ℕ}

theorem writeAuditEvent_covered {id : ℕ} {value : Claims.AuditEventEvidence} :
    Covered DisputeCov (writeAuditEvent startedAt id value) := by
  refine covered_exec (fun db created ws hf w hw => ?_)
  split at hf
  · obtain ⟨-, rfl⟩ := Prod.mk.inj (Except.ok.inj hf)
    obtain rfl := List.mem_singleton.mp hw
    exact ⟨cov_of_locks fun _ hk => hk, trivial⟩
  · split at hf
    · obtain ⟨-, rfl⟩ := Prod.mk.inj (Except.ok.inj hf)
      cases hw
    · cases hf

theorem updateFindingStatus_covered {clientId findingId statusEventId : ℕ} {status : VarianceStatus}
    {note : Option String} {actor : Option ℕ} :
    Covered Cov (updateFindingStatus sha256 startedAt clientId findingId status note actor statusEventId) := by
  refine covered_bind covered_query (fun old => ?_)
  cases old with
  | none => exact covered_pure
  | some old =>
    refine covered_bind (covered_exec fun db r ws hf w hw => ?_) (fun _ =>
      covered_bind (cov_of_disputeCov writeAuditEvent_covered) fun _ => covered_pure)
    obtain ⟨-, rfl⟩ := Prod.mk.inj (Except.ok.inj hf)
    simp only [List.mem_cons, List.not_mem_nil, or_false] at hw
    rcases hw with rfl | rfl
    · exact cov_of_locks fun _ hk => hk
    · exact cov_of_locks (fun k hk => absurd hk List.not_mem_nil)

theorem createDisputeFromFindings_covered {input : CreateDisputeInput} :
    Covered Cov (createDisputeFromFindings sha256 D tx startedAt input) := by
  rw [createDisputeFromFindings]
  split
  · trivial
  have hlock (findingId : ℕ) : Covered Cov (lockFinding input.clientId findingId) := by
    refine covered_exec (fun db r ws hf w hw => ?_)
    obtain ⟨-, rfl⟩ := Prod.mk.inj (Except.ok.inj hf)
    cases hw
  have hinsert (validated : ValidatedDispute) : Covered Cov (insertDispute (newId tx 0) input.clientId validated) := by
    refine covered_exec (fun db r ws hf w hw => ?_)
    simp only [ExceptOk.bind_eq_ok, ExceptOk.throw_bind, ExceptOk.ite_throw_eq_ok, ExceptOk.pure_eq_ok,
      Prod.mk.injEq] at hf
    obtain ⟨n, -, -, -, -, rfl⟩ := hf
    obtain rfl := List.mem_singleton.mp hw
    exact cov_of_locks fun _ hk => hk
  have hline (row : DisputeLine) : Covered Cov (insertDisputeLine row) := by
    refine covered_exec (fun db r ws hf w hw => ?_)
    simp only [ExceptOk.throw_bind, ExceptOk.ite_throw_eq_ok, ExceptOk.pure_eq_ok, Prod.mk.injEq] at hf
    obtain ⟨-, -, rfl⟩ := hf
    obtain rfl := List.mem_singleton.mp hw
    exact cov_of_locks fun _ hk => hk
  have hinclude (disputeId : ℕ) (entry : VarianceFinding × ℕ) :
      Covered Cov (includeFinding sha256 tx startedAt input.clientId disputeId input.actorUserId entry) :=
    covered_bind (hline _) fun _ => covered_bind updateFindingStatus_covered fun _ => covered_pure
  refine covered_bind (covered_bind (covered_forM fun id _ => hlock id) fun _ => covered_query) fun rows => ?_
  refine covered_ofExcept fun validated _ => covered_bind (hinsert validated) fun disputeId => ?_
  exact covered_bind (covered_forM fun entry _ => hinclude disputeId entry) fun _ =>
    covered_bind (cov_of_disputeCov writeAuditEvent_covered) fun _ => covered_pure

theorem updateDispute_covered {clientId disputeId : ℕ} {fromStatuses : List DisputeStatus}
    {toStatus : DisputeStatus} {acceptedAmount : Option String} :
    Covered DisputeCov (updateDispute clientId disputeId fromStatuses toStatus acceptedAmount) := by
  refine covered_exec (fun db r ws hf w hw => ?_)
  split at hf
  · obtain ⟨-, rfl⟩ := Prod.mk.inj (Except.ok.inj hf)
    cases hw
  · rename_i row hfound
    obtain ⟨-, rfl⟩ := Prod.mk.inj (Except.ok.inj hf)
    obtain rfl := List.mem_singleton.mp hw
    exact ⟨cov_of_locks (by simp [hfound, DisputeWrite.locks]), trivial⟩
  · rename_i row text hfound
    simp only [ExceptOk.bind_eq_ok, ExceptOk.pure_eq_ok, Prod.mk.injEq] at hf
    obtain ⟨n, -, -, rfl⟩ := hf
    obtain rfl := List.mem_singleton.mp hw
    exact ⟨cov_of_locks (by simp [hfound, DisputeWrite.locks]), trivial⟩

theorem respond_covered {clientId disputeId actorUserId : ℕ} {fromStatuses : List DisputeStatus}
    {toStatus : DisputeStatus} {event : String} {acceptedAmount : Option String}
    {check : Dispute → Except DisputesError Unit} :
    Covered DisputeCov (respond sha256 startedAt clientId disputeId actorUserId fromStatuses toStatus event acceptedAmount
      check) := by
  refine covered_bind covered_query fun disputeRow => ?_
  cases disputeRow with
  | none => exact covered_pure
  | some disputeRow =>
    refine covered_ofExcept fun _ _ => covered_bind updateDispute_covered fun updated => ?_
    cases updated with
    | none => exact covered_pure
    | some row => exact covered_bind writeAuditEvent_covered fun _ => covered_pure

theorem createWorkflowInstance_covered {id : ℕ} {input : Workflow.CreateWorkflowInstanceInput} :
    Covered DisputeCov (createWorkflowInstance sha256 id startedAt input) := by
  refine covered_bind covered_query fun existing => ?_
  cases existing with
  | some row => exact covered_pure
  | none =>
    refine covered_bind (covered_exec fun db r ws hf w hw => ?_) fun inserted => ?_
    · split at hf
      · obtain ⟨-, rfl⟩ := Prod.mk.inj (ExceptOk.pure_eq_ok.mp hf)
        cases hw
      · simp only [ExceptOk.throw_bind, ExceptOk.ite_throw_eq_ok, ExceptOk.pure_eq_ok, Prod.mk.injEq] at hf
        obtain ⟨-, -, rfl⟩ := hf
        obtain rfl := List.mem_singleton.mp hw
        exact ⟨cov_of_locks fun _ hk => hk, trivial⟩
    · cases inserted with
      | none =>
        refine covered_bind covered_query fun raced => ?_
        cases raced with
        | none => trivial
        | some row => exact covered_pure
      | some row => exact covered_bind writeAuditEvent_covered fun _ => covered_pure

theorem scheduleWorkflowCommand_covered {row : WorkflowCommand} :
    Covered DisputeCov (scheduleWorkflowCommand sha256 toISOString startedAt row) := by
  refine covered_bind covered_query fun found => ?_
  split
  · trivial
  refine covered_bind (covered_exec fun db r ws hf w hw => ?_) fun inserted => ?_
  · split at hf
    · obtain ⟨-, rfl⟩ := Prod.mk.inj (Except.ok.inj hf)
      cases hw
    · obtain ⟨-, rfl⟩ := Prod.mk.inj (Except.ok.inj hf)
      obtain rfl := List.mem_singleton.mp hw
      exact ⟨cov_of_locks fun _ hk => hk, trivial⟩
  · split
    · exact covered_bind writeAuditEvent_covered fun _ => covered_pure
    · refine covered_bind covered_query fun existing => ?_
      cases existing with
      | none => trivial
      | some existing => exact covered_pure

theorem approveDispute_covered {clientId disputeId actorUserId : ℕ} {now : ℤ} :
    Covered DisputeCov (approveDispute sha256 toISOString tx startedAt clientId disputeId actorUserId now) := by
  refine covered_bind updateDispute_covered fun updated => ?_
  cases updated with
  | none => exact covered_pure
  | some row =>
    exact covered_bind writeAuditEvent_covered fun _ => covered_bind createWorkflowInstance_covered fun _ =>
      covered_bind scheduleWorkflowCommand_covered fun _ => covered_pure

theorem respondCall_covered {call : DisputeCall} (h : call.OnDispute) :
    Covered DisputeCov (call.body sha256 D toISOString tx startedAt) := by
  cases call with
  | approveDispute clientId disputeId actorUserId now => exact covered_bind approveDispute_covered fun _ => covered_pure
  | acceptDispute clientId disputeId actorUserId => exact covered_bind respond_covered fun _ => covered_pure
  | rejectDispute clientId disputeId actorUserId => exact covered_bind respond_covered fun _ => covered_pure
  | partiallyAcceptDispute clientId disputeId actorUserId acceptedAmount =>
    refine covered_bind ?_ fun _ => covered_pure
    rw [partiallyAcceptDispute]
    split
    · trivial
    · exact respond_covered
  | closeDispute clientId disputeId actorUserId => exact covered_bind respond_covered fun _ => covered_pure
  | _ => exact h.elim

theorem body_covered (call : DisputeCall) : Covered Cov (call.body sha256 D toISOString tx startedAt) := by
  cases call with
  | createDisputeFromFindings input => exact covered_bind createDisputeFromFindings_covered fun _ => covered_pure
  | applyFindingAction clientId findingId action note actorUserId =>
    exact covered_bind updateFindingStatus_covered fun _ => covered_pure
  | patchFindingStatus clientId findingId status note actorUserId =>
    refine covered_bind ?_ fun _ => covered_pure
    rw [patchFindingStatus]
    split
    · trivial
    · exact updateFindingStatus_covered
  | _ => exact cov_of_disputeCov (respondCall_covered trivial)

/-- What a response or an approval writes. -/
theorem onDispute_writes {call : DisputeCall} {r : DisputeResult} {log : Log DisputeDb DisputeWrite LockKey}
    (hends : Ends apply ((disputesSystem sha256 D toISOString).body call tx startedAt) .empty r log)
    (h : call.OnDispute) :
    ∀ w ∈ log.writes, w.OnDispute := by
  have hmono : ∀ ks ks' w, (∀ k ∈ ks, k ∈ ks') → DisputeCov ks w → DisputeCov ks' w :=
    fun _ _ _ hsub hw => ⟨guarded_mono hsub hw.1, hw.2⟩
  exact fun w hw => ((respondCall_covered h).ends hmono hends (fun w hw => absurd hw List.not_mem_nil) w hw).2

end covered

/-- What a transaction can count on that has held the locks since it saw `db`. -/
abbrev Since : List LockKey → DisputeDb → DisputeDb → Prop := Kept (fun k db db' => Same db db' k) Grows

variable {D : Type} [Decimal D] {sha256 : String → ℕ} {toISOString : ℤ → String}

theorem disputes_outline {Good : DisputeDb → Prop}
    (hgood : ∀ db call i startedAt r log,
      Commit (disputesSystem sha256 D toISOString) Good Since db call i startedAt r log →
        Good (view apply db log.writes)) :
    Outline (disputesSystem sha256 D toISOString) Good Since (fun _ _ _ => True) :=
  outline disputes_parts (fun call _ _ => body_covered call) hgood

end Disputes
