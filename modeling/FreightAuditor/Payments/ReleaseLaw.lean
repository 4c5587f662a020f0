import FreightAuditor.Library.DecimalRef
import FreightAuditor.Payments.GateDecisions

/- What the payment decisions of a run say together.

   Five writers share the decisions, and each looks at its own part of the state. The
   generators look at the run's outcome; an analyst's authorization looks for the run only.
   So a rejected run can be approved, and that is the one way the law is broken
   (`gateHolds_iff`). -/
namespace Payments

open Claims (AuditEvent AuditEventEvidence deterministicAuditEventId sameEvidence)
open DecimalJs Evaluator ExceptOk Ingestion JsText

/-! ## The law -/

/-- What is decided for a run. -/
def actionsOf (db : PaymentDb) (auditRunId : ℕ) : List PaymentGateAction :=
  (db.decisions.rows.filter fun d => d.auditRunId == auditRunId).map PaymentGateDecision.action

structure GateLaw (db : PaymentDb) (run : AuditRunRow) : Prop where
  once : (actionsOf db run.id).Nodup
  refused : .do_not_pay ∈ actionsOf db run.id ↔ run.outcome = .REJECTED_REWORK
  exclusive : .do_not_pay ∈ actionsOf db run.id → .approve ∉ actionsOf db run.id ∧ .short_pay ∉ actionsOf db run.id
  released : .approve ∈ actionsOf db run.id ∨ .short_pay ∈ actionsOf db run.id → run.outcome = .SCORED

instance (db : PaymentDb) (run : AuditRunRow) : Decidable (GateLaw db run) :=
  decidable_of_iff ((actionsOf db run.id).Nodup ∧
      (.do_not_pay ∈ actionsOf db run.id ↔ run.outcome = .REJECTED_REWORK) ∧
      (.do_not_pay ∈ actionsOf db run.id → .approve ∉ actionsOf db run.id ∧ .short_pay ∉ actionsOf db run.id) ∧
      (.approve ∈ actionsOf db run.id ∨ .short_pay ∈ actionsOf db run.id → run.outcome = .SCORED))
    ⟨fun ⟨once, refused, exclusive, released⟩ => ⟨once, refused, exclusive, released⟩,
      fun h => ⟨h.once, h.refused, h.exclusive, h.released⟩⟩

def GateHolds (db : PaymentDb) : Prop := ∀ run ∈ db.auditRuns.rows, GateLaw db run

instance : DecidablePred GateHolds := fun db => inferInstanceAs (Decidable (∀ run ∈ db.auditRuns.rows, GateLaw db run))

theorem mem_actionsOf {db : PaymentDb} {auditRunId : ℕ} {action : PaymentGateAction} :
    action ∈ actionsOf db auditRunId ↔ ∃ d ∈ db.decisions.rows, d.auditRunId = auditRunId ∧ d.action = action := by
  simp [actionsOf, and_assoc]

/-! ## What one call writes -/

/-- The call is an analyst's approval of the run. -/
def PaymentCall.Approves (call : PaymentCall) (clientId auditRunId : ℕ) : Prop :=
  ∃ input, call = .authorizePayment input ∧ input.action = .approve ∧ input.clientId = clientId ∧
    input.auditRunId = auditRunId

/-- What a decision takes: who may write it for a run of which outcome. -/
def Allowed (call : PaymentCall) (run : AuditRunRow) (d : PaymentGateDecision) : Prop :=
  match d.action with
  | .do_not_pay => run.outcome = .REJECTED_REWORK
  | .short_pay => run.outcome = .SCORED
  | .approve => call.Approves d.accountId d.auditRunId
  | .hold => True

/-- Tables that only grow. -/
structure Grows (db db' : PaymentDb) (runs : List AuditRunRow) (ds : List PaymentGateDecision)
    (es : List AuditEvent) : Prop where
  auditRuns : db'.auditRuns.rows = db.auditRuns.rows ++ runs
  decisions : db'.decisions.rows = db.decisions.rows ++ ds
  auditEvents : db'.auditEvents.rows = db.auditEvents.rows ++ es

/-- All that a call can do to the runs, the decisions and the audit events. -/
structure Effect (call : PaymentCall) (db db' : PaymentDb) (runs : List AuditRunRow)
    (ds : List PaymentGateDecision) (es : List AuditEvent) : Prop extends Grows db db' runs ds es where
  allowed : ∀ d ∈ ds, ∃ run ∈ db'.auditRuns.rows, run.id = d.auditRunId ∧ run.accountId = d.accountId ∧
    Allowed call run d
  refuses : ∀ run ∈ runs, run.outcome = .REJECTED_REWORK →
    ∃ d ∈ db'.decisions.rows, d.auditRunId = run.id ∧ d.action = .do_not_pay
  authorized : ∀ e ∈ es, e.event = "payment_authorized" → ∃ d ∈ ds, e.entityId = some d.id

theorem Grows.refl (db : PaymentDb) : Grows db db [] [] [] :=
  ⟨(List.append_nil _).symm, (List.append_nil _).symm, (List.append_nil _).symm⟩

theorem Grows.trans {a b c : PaymentDb} {runs runs' : List AuditRunRow} {ds ds' : List PaymentGateDecision}
    {es es' : List AuditEvent} (h : Grows a b runs ds es) (h' : Grows b c runs' ds' es') :
    Grows a c (runs ++ runs') (ds ++ ds') (es ++ es') where
  auditRuns := by rw [h'.auditRuns, h.auditRuns, List.append_assoc]
  decisions := by rw [h'.decisions, h.decisions, List.append_assoc]
  auditEvents := by rw [h'.auditEvents, h.auditEvents, List.append_assoc]

/-- The runs, the decisions and the audit events stay. -/
def Same (db db' : PaymentDb) : Prop := Grows db db' [] [] []

theorem Same.foldlM {α : Type} {f : PaymentDb → α → Except PaymentError PaymentDb}
    (hf : ∀ db a db', f db a = .ok db' → Same db db') (items : List α) :
    ∀ {db db' : PaymentDb}, items.foldlM f db = .ok db' → Same db db' := by
  induction items with
  | nil =>
    intro db db' h
    obtain rfl := pure_eq_ok.mp h
    exact .refl db
  | cons a rest ih =>
    intro db db' h
    rw [List.foldlM_cons, bind_eq_ok] at h
    obtain ⟨mid, hmid, hrest⟩ := h
    exact (hf db a mid hmid).trans (ih hrest)

theorem orViolates_ok {α : Type} {constraint : String} {inserted : Option α} {a : α} :
    orViolates constraint inserted = .ok a ↔ inserted = some a := by
  cases inserted <;> simp [orViolates]

theorem insertDecision_ok {db db' : PaymentDb} {row : PaymentGateDecision} (h : insertDecision db row = .ok db') :
    Grows db db' [] [row] [] ∧ (∀ d ∈ db.decisions.rows, d.id ≠ row.id) ∧
      db.decisions.find? row.runAction = none := by
  simp only [insertDecision, throw_bind, ite_throw_eq_ok, bind_eq_ok, pure_eq_ok, orViolates_ok] at h
  obtain ⟨-, hfresh, decisions, hinsert, rfl⟩ := h
  obtain ⟨hnone, hrows⟩ := KeyedTable.insert_eq_some hinsert
  refine ⟨⟨(List.append_nil _).symm, hrows, (List.append_nil _).symm⟩, fun d hd hid => hfresh ?_, hnone⟩
  exact List.any_eq_true.mpr ⟨d, hd, beq_iff_eq.mpr hid⟩

theorem writeAuditEvent_ok {tx : Transaction} {db db' : PaymentDb} {id : ℕ} {value : AuditEventEvidence} {created : Bool}
    (h : writeAuditEvent tx db id value = .ok (created, db')) :
    ∃ es, Grows db db' [] [] es ∧ ∀ e ∈ es, e.toAuditEventEvidence = value := by
  unfold writeAuditEvent at h
  split at h
  · simp only [bind_eq_ok, pure_eq_ok, orViolates_ok, Prod.mk.injEq] at h
    obtain ⟨auditEvents, hinsert, -, rfl⟩ := h
    obtain ⟨-, hrows⟩ := KeyedTable.insert_eq_some hinsert
    exact ⟨_, ⟨(List.append_nil _).symm, (List.append_nil _).symm, hrows⟩, by simp⟩
  · split at h
    · simp only [pure_eq_ok, Prod.mk.injEq] at h
      obtain ⟨-, rfl⟩ := h
      exact ⟨[], .refl db, by simp⟩
    · cases h

theorem selectRun_some {db : PaymentDb} {clientId auditRunId : ℕ} {run : AuditRunRow} :
    selectRun db clientId auditRunId = some run ↔
      run ∈ db.auditRuns.rows ∧ run.id = auditRunId ∧ run.accountId = clientId := by
  simp [selectRun, Option.filter_eq_some_iff, KeyedTable.find?_eq_some, and_assoc]

theorem selectRunWith_some {db : PaymentDb} {clientId auditRunId : ℕ} {outcome : Outcome} {run : AuditRunRow} :
    selectRunWith db clientId auditRunId outcome = some run ↔
      run ∈ db.auditRuns.rows ∧ run.id = auditRunId ∧ run.accountId = clientId ∧ run.outcome = outcome := by
  simp [selectRunWith, Option.filter_eq_some_iff, selectRun_some, and_assoc]

theorem selectDecision_some {db : PaymentDb} {clientId auditRunId : ℕ} {action : PaymentGateAction}
    {d : PaymentGateDecision} (h : selectDecision db clientId auditRunId action = some d) :
    d ∈ db.decisions.rows ∧ d.accountId = clientId ∧ d.auditRunId = auditRunId ∧ d.action = action := by
  obtain ⟨hd, hkey⟩ := KeyedTable.find?_sound h
  simp only [PaymentGateDecision.runAction, Prod.mk.injEq] at hkey
  exact ⟨hd, hkey⟩

/-- A decision with its event: what each of the writers does in the end. -/
theorem decided {tx : Transaction} {db db₁ db₂ : PaymentDb} {row : PaymentGateDecision} {id : ℕ}
    {value : AuditEventEvidence} {created : Bool} (hinsert : insertDecision db row = .ok db₁)
    (hevent : writeAuditEvent tx db₁ id value = .ok (created, db₂)) :
    ∃ es, Grows db db₂ [] [row] es ∧ ∀ e ∈ es, e.toAuditEventEvidence = value := by
  obtain ⟨es, hgrows, hvalue⟩ := writeAuditEvent_ok hevent
  exact ⟨es, (insertDecision_ok hinsert).1.trans hgrows, hvalue⟩

/-- A call that writes one decision, allowed for its run. -/
theorem Effect.decision {call : PaymentCall} {db db' : PaymentDb} {row : PaymentGateDecision} {es : List AuditEvent}
    {value : AuditEventEvidence} {run : AuditRunRow} (h : Grows db db' [] [row] es)
    (hrun : run ∈ db.auditRuns.rows) (hid : run.id = row.auditRunId) (haccount : run.accountId = row.accountId)
    (hallowed : Allowed call run row) (hvalue : ∀ e ∈ es, e.toAuditEventEvidence = value)
    (hauthorized : value.event = "payment_authorized" → value.entityId = some row.id) :
    Effect call db db' [] [row] es where
  toGrows := h
  allowed d hd := by
    obtain rfl := List.mem_singleton.mp hd
    refine ⟨run, ?_, hid, haccount, hallowed⟩
    rw [h.auditRuns, List.append_nil]
    exact hrun
  refuses _ hrun := absurd hrun List.not_mem_nil
  authorized e he hname := by
    refine ⟨row, List.mem_singleton_self _, ?_⟩
    rw [← hvalue e he] at hauthorized
    exact hauthorized hname

/-- A call that writes no decision and no run. -/
theorem Effect.event {call : PaymentCall} {db db' : PaymentDb} {es : List AuditEvent}
    (h : Grows db db' [] [] es) (hevents : ∀ e ∈ es, e.event ≠ "payment_authorized") :
    Effect call db db' [] [] es where
  toGrows := h
  allowed _ hd := absurd hd List.not_mem_nil
  refuses _ hrun := absurd hrun List.not_mem_nil
  authorized e he hname := absurd hname (hevents e he)

/-! ## The calls, one by one -/

section

variable {D : Type} [Decimal D] {unicode : Unicode} {sha256 : String → ℕ} {toISOString : ℤ → String} {tx : Transaction}
  {db db' : PaymentDb}

theorem generateHoldDecision_ok {clientId auditRunId newId : ℕ} {holdThenApprove : Bool}
    {result : Option DecisionResult} (call : PaymentCall)
    (h : generateHoldDecision sha256 tx db clientId auditRunId holdThenApprove newId = .ok (result, db')) :
    ∃ ds es, Effect call db db' [] ds es := by
  have hsame : Effect call db db [] [] [] := .event (.refl db) (by simp)
  unfold generateHoldDecision at h
  split at h
  · simp only [pure_eq_ok, Prod.mk.injEq] at h
    obtain ⟨-, rfl⟩ := h
    exact ⟨[], [], hsame⟩
  · split at h
    · rename_i run hrun
      obtain ⟨hrun, hid, haccount, -⟩ := selectRunWith_some.mp hrun
      split at h
      · simp only [pure_eq_ok, Prod.mk.injEq] at h
        obtain ⟨-, rfl⟩ := h
        exact ⟨[], [], hsame⟩
      · simp only [bind_eq_ok, pure_eq_ok, Prod.exists, Prod.mk.injEq] at h
        obtain ⟨db₁, hinsert, created, db₂, hevent, -, rfl⟩ := h
        obtain ⟨es, hgrows, hvalue⟩ := decided hinsert hevent
        exact ⟨_, es, .decision hgrows hrun hid haccount trivial hvalue (by simp [decisionEvent])⟩
    · cases h

theorem generateDoNotPayDecision_ok {clientId auditRunId newId : ℕ} {result : DoNotPayResult} (call : PaymentCall)
    (h : generateDoNotPayDecision unicode sha256 tx db clientId auditRunId newId = .ok (result, db')) :
    (∃ ds es, Effect call db db' [] ds es) ∧
      ∃ d ∈ db'.decisions.rows, d.accountId = clientId ∧ d.auditRunId = auditRunId ∧ d.action = .do_not_pay := by
  unfold generateDoNotPayDecision at h
  split at h
  · rename_i run hrun
    obtain ⟨hrun, hid, haccount, houtcome⟩ := selectRunWith_some.mp hrun
    simp only [bind_eq_ok] at h
    obtain ⟨decision, -, h⟩ := h
    split at h
    · rename_i row hrow
      simp only [pure_bind, bind_eq_ok, pure_eq_ok, Prod.exists, Prod.mk.injEq] at h
      obtain ⟨created, db₁, hevent, -, rfl⟩ := h
      obtain ⟨es, hgrows, hvalue⟩ := writeAuditEvent_ok hevent
      obtain ⟨hmem, hkey⟩ := selectDecision_some hrow
      refine ⟨⟨[], es, .event hgrows fun e he => ?_⟩, row, ?_, hkey⟩
      · rw [hvalue e he]
        simp [decisionEvent]
      · rw [hgrows.decisions, List.append_nil]
        exact hmem
    · simp only [pure_bind, bind_eq_ok, pure_eq_ok, Prod.exists, Prod.mk.injEq] at h
      obtain ⟨db₁, hinsert, created, db₂, hevent, -, rfl⟩ := h
      obtain ⟨es, hgrows, hvalue⟩ := decided hinsert hevent
      have hmem := hgrows.decisions ▸ List.mem_append_right db.decisions.rows (List.mem_singleton_self _)
      exact ⟨⟨_, es, .decision hgrows hrun hid haccount houtcome hvalue (by simp [decisionEvent])⟩, _, hmem,
        rfl, rfl, rfl⟩
  · cases h

theorem generateShortPayDecision_ok {clientId auditRunId : ℕ} {shortPayEnabled : Bool} {result : ShortPayResult}
    (call : PaymentCall)
    (h : generateShortPayDecision D unicode sha256 tx db clientId auditRunId shortPayEnabled = .ok (result, db')) :
    ∃ ds es, Effect call db db' [] ds es := by
  have hsame : Effect call db db [] [] [] := .event (.refl db) (by simp)
  unfold generateShortPayDecision at h
  split at h
  · simp only [pure_eq_ok, Prod.mk.injEq] at h
    obtain ⟨-, rfl⟩ := h
    exact ⟨[], [], hsame⟩
  · split at h
    · rename_i run hrun
      obtain ⟨hrun, hid, haccount, houtcome⟩ := selectRunWith_some.mp hrun
      split at h
      · simp only [pure_eq_ok, Prod.mk.injEq] at h
        obtain ⟨-, rfl⟩ := h
        exact ⟨[], [], hsame⟩
      · simp only [bind_eq_ok, pure_eq_ok, Prod.exists, Prod.mk.injEq] at h
        obtain ⟨decision, -, amount, -, db₁, hinsert, created, db₂, hevent, -, rfl⟩ := h
        obtain ⟨es, hgrows, hvalue⟩ := decided hinsert hevent
        exact ⟨_, es, .decision hgrows hrun hid haccount houtcome hvalue (by simp [decisionEvent])⟩
    · cases h

theorem generatePaymentEscalation_ok {clientId auditRunId : ℕ} {now gracePeriodDays : ℤ} {created : Bool}
    (call : PaymentCall)
    (h : generatePaymentEscalation sha256 toISOString tx db clientId auditRunId now gracePeriodDays =
      .ok (created, db')) :
    ∃ es, Effect call db db' [] [] es := by
  unfold generatePaymentEscalation at h
  split at h
  · simp only [throw_bind, ite_throw_eq_ok] at h
    obtain ⟨es, hgrows, hvalue⟩ := writeAuditEvent_ok h.2.2
    refine ⟨es, .event hgrows fun e he => ?_⟩
    rw [hvalue e he]
    simp [decisionEvent]
  · cases h

/-- The id of the event that an authorization writes. -/
def authorizationEventId (sha256 : String → ℕ) (tx : Transaction) (input : AuthorizePaymentInput) : ℕ :=
  deterministicAuditEventId sha256 [toString input.clientId, toString (tx.newId 0), "payment-authorization"]

/-- A rationale that the schema takes, and ids that are not in use. -/
structure Acceptable (sha256 : String → ℕ) (tx : Transaction) (db : PaymentDb) (input : AuthorizePaymentInput) : Prop where
  rationale : (parseRationale input.rationale).isOk = true
  decisionId : ∀ d ∈ db.decisions.rows, d.id ≠ tx.newId 0
  eventId : db.auditEvents.find? (authorizationEventId sha256 tx input) = none

/-- Every authorization in the audit log is of a decision. -/
def AuthorizationsLogged (db : PaymentDb) : Prop :=
  ∀ e ∈ db.auditEvents.rows, e.event = "payment_authorized" → ∃ d ∈ db.decisions.rows, e.entityId = some d.id

/-- The decision was there, or it is written now. -/
theorem authorizePayment_ok {input : AuthorizePaymentInput} {result : DecisionResult} (hlogged : AuthorizationsLogged db)
    (h : authorizePayment sha256 tx db input = .ok (result, db')) :
    db' = db ∧ (selectDecision db input.clientId input.auditRunId input.action.toGate).isSome = true ∨
      Acceptable sha256 tx db input ∧ ∃ row es, row.action = input.action.toGate ∧
      row.auditRunId = input.auditRunId ∧ Effect (.authorizePayment input) db db' [] [row] es := by
  simp only [authorizePayment, bind_eq_ok] at h
  obtain ⟨rationale, hrationale, h⟩ := h
  split at h
  · rename_i run hrun
    obtain ⟨hrun, hid, haccount⟩ := selectRun_some.mp hrun
    split at h
    · rename_i row hrow
      simp only [pure_eq_ok, Prod.mk.injEq] at h
      exact .inl ⟨h.2.symm, by rw [hrow]; rfl⟩
    · simp only [bind_eq_ok, pure_eq_ok, Prod.exists, Prod.mk.injEq] at h
      obtain ⟨db₁, hinsert, created, db₂, hevent, -, rfl⟩ := h
      obtain ⟨es, hgrows, hvalue⟩ := decided hinsert hevent
      obtain ⟨hsame, hfresh, -⟩ := insertDecision_ok hinsert
      refine .inr ⟨⟨by rw [hrationale]; rfl, hfresh, ?_⟩, _, es, rfl, rfl,
        .decision hgrows hrun hid haccount ?_ hvalue (by simp [decisionEvent])⟩
      · -- an event with this id would be of a decision with this id
        by_contra hfound
        obtain ⟨row, hrow⟩ := Option.ne_none_iff_exists'.mp hfound
        obtain ⟨hmem, hkey⟩ := KeyedTable.find?_sound hrow
        have hrow₁ : db₁.auditEvents.find? (authorizationEventId sha256 tx input) = some row := by
          refine KeyedTable.find?_eq_some.mpr ⟨?_, hkey⟩
          rw [hsame.auditEvents, List.append_nil]
          exact hmem
        simp only [authorizationEventId] at hrow₁
        simp only [writeAuditEvent, hrow₁] at hevent
        split at hevent
        · rename_i heq
          simp only [sameEvidence, Bool.and_eq_true, beq_iff_eq, decisionEvent] at heq
          obtain ⟨d, hd, hentity⟩ := hlogged row hmem heq.1.1.1.1.1.2
          exact hfresh d hd (Option.some.inj (hentity.symm.trans heq.1.1.1.1.1.1.2))
        · cases hevent
      · unfold Allowed
        cases haction : input.action with
        | approve => exact ⟨input, rfl, haction, rfl, rfl⟩
        | hold => trivial
  · cases h

/-- An acceptable authorization of a run without such a decision goes through. -/
theorem authorizePayment_goes {input : AuthorizePaymentInput} {run : AuditRunRow}
    (hrun : selectRun db input.clientId input.auditRunId = some run)
    (hnone : selectDecision db input.clientId input.auditRunId input.action.toGate = none)
    (haccept : Acceptable sha256 tx db input) : ∃ result db', authorizePayment sha256 tx db input = .ok (result, db') := by
  obtain ⟨rationale, hrationale⟩ : ∃ rationale, parseRationale input.rationale = .ok rationale := by
    have hok := haccept.rationale
    cases hparse : parseRationale input.rationale with
    | ok rationale => exact ⟨rationale, rfl⟩
    | error e => rw [hparse] at hok; cases hok
  obtain ⟨row, hrow⟩ : ∃ row : PaymentGateDecision, row = ⟨tx.newId 0, input.clientId, run.invoiceId, input.auditRunId,
    input.action.toGate, none, none, .analyst, rationale, tx.startedAt⟩ := ⟨_, rfl⟩
  obtain ⟨decisions, hdecisions⟩ : ∃ decisions, db.decisions.insert row = some decisions := by
    rw [hrow]
    exact KeyedTable.insert_fresh hnone
  have hinsert : insertDecision db row = .ok { db with decisions } := by
    have hfresh : db.decisions.rows.any (·.id == row.id) = false := by
      rw [hrow, List.any_eq_false]
      exact fun d hd hid => haccept.decisionId d hd (beq_iff_eq.mp hid)
    have hcurrency : row.currency = none := by rw [hrow]
    simp only [insertDecision, hcurrency, Option.any_none, hfresh, hdecisions, orViolates]
    rfl
  obtain ⟨auditEvents, hevents⟩ := KeyedTable.insert_fresh (t := db.auditEvents) (a :=
    { decisionEvent input.clientId (tx.newId 0) input.auditRunId "payment_authorized" .analyst (some input.actorUserId)
        [("action", .str input.action.toGate.text), ("rationale", (rationale.map Json.Value.str).getD .null)] with
      id := authorizationEventId sha256 tx input, recordedAt := tx.startedAt.toNat }) haccept.eventId
  have heventId := haccept.eventId
  rw [authorizationEventId] at heventId hevents
  simp only [authorizePayment, hrationale, ok_bind, hrun, hnone]
  rw [← hrow, hinsert]
  simp only [ok_bind, writeAuditEvent, heventId, hevents, orViolates]
  exact ⟨_, _, rfl⟩

theorem same_of_eq (hruns : db'.auditRuns = db.auditRuns) (hdecisions : db'.decisions = db.decisions)
    (hevents : db'.auditEvents = db.auditEvents) : Same db db' := by
  refine ⟨?_, ?_, ?_⟩
  · rw [hruns, List.append_nil]
  · rw [hdecisions, List.append_nil]
  · rw [hevents, List.append_nil]

theorem insertChargeFact_ok {clientId invoiceId : ℕ} {c : NormalizedCharge}
    (h : insertChargeFact clientId invoiceId db c = .ok db') : Same db db' := by
  unfold insertChargeFact at h
  split at h
  · simp only [bind_eq_ok, throw_bind, ite_throw_eq_ok, pure_eq_ok] at h
    obtain ⟨amount, -, -, rfl⟩ := h
    exact same_of_eq rfl rfl rfl
  · cases h

theorem insertVarianceFinding_ok {clientId auditRunId : ℕ} {drawn : ℕ × ChargeFinding}
    (h : insertVarianceFinding clientId auditRunId db drawn = .ok db') : Same db db' := by
  simp only [insertVarianceFinding, bind_eq_ok, throw_bind, ite_throw_eq_ok, pure_eq_ok] at h
  obtain ⟨amount, -, -, findings, -, rfl⟩ := h
  exact same_of_eq rfl rfl rfl

theorem generateDecision_ok {clientId auditRunId newId : ℕ} {outcome : Outcome} (call : PaymentCall)
    (h : generateDecision unicode sha256 tx db clientId auditRunId outcome newId = .ok db') :
    (∃ ds es, Effect call db db' [] ds es) ∧ (outcome = .REJECTED_REWORK →
      ∃ d ∈ db'.decisions.rows, d.auditRunId = auditRunId ∧ d.action = .do_not_pay) := by
  cases outcome with
  | SCORED =>
    simp only [generateDecision, bind_eq_ok, pure_eq_ok, Prod.exists] at h
    obtain ⟨result, db₁, hhold, rfl⟩ := h
    exact ⟨generateHoldDecision_ok call hhold, fun h => by cases h⟩
  | REJECTED_REWORK =>
    simp only [generateDecision, bind_eq_ok, pure_eq_ok, Prod.exists] at h
    obtain ⟨result, db₁, hrefuse, rfl⟩ := h
    obtain ⟨heffect, d, hd, -, hid, haction⟩ := generateDoNotPayDecision_ok call hrefuse
    exact ⟨heffect, fun _ => ⟨d, hd, hid, haction⟩⟩

theorem insertChargeFacts_ok {input : PersistInput} {invoiceId : ℕ}
    (h : insertChargeFacts db input invoiceId = .ok db') : Same db db' := by
  unfold insertChargeFacts at h
  split at h
  · exact Same.foldlM (fun _ _ _ => insertChargeFact_ok) _ h
  · obtain rfl := pure_eq_ok.mp h
    exact .refl db

theorem insertAuditRun_ok {row : AuditRunRow} (h : insertAuditRun db row = .ok db') :
    Grows db db' [row] [] [] := by
  simp only [insertAuditRun, bind_eq_ok, pure_eq_ok, orViolates_ok] at h
  obtain ⟨auditRuns, hinsert, rfl⟩ := h
  exact ⟨(KeyedTable.insert_eq_some hinsert).2, (List.append_nil _).symm, (List.append_nil _).symm⟩

/-- A new run, and the decision the gate makes for it. -/
theorem persistAuditRun_ok {input : PersistInput} (call : PaymentCall)
    (h : persistAuditRun unicode sha256 tx db input = .ok db') :
    ∃ ds es, Effect call db db' [input.auditRun tx] ds es := by
  simp only [persistAuditRun, bind_eq_ok] at h
  obtain ⟨db₁, hcharges, db₂, hrun, -, -, db₃, hdecision, hvariances⟩ := h
  have hopened := insertAuditRun_ok hrun
  obtain ⟨⟨ds, es, heffect⟩, hrefuses⟩ := generateDecision_ok call hdecision
  have hsame : Same db₃ db' := Same.foldlM (fun _ _ _ => insertVarianceFinding_ok) _ hvariances
  have hbefore : Same db db₁ := insertChargeFacts_ok hcharges
  have hfailures : Same db₂ (insertGateFailures tx db₂ input.clientId (input.auditRun tx).id input.result.gateFailures) :=
    same_of_eq rfl rfl rfl
  have hgrows : Grows db db' [input.auditRun tx] ds es := by
    simpa using (hbefore.trans hopened).trans (hfailures.trans (heffect.toGrows.trans hsame))
  have hruns : db'.auditRuns.rows = db₃.auditRuns.rows := by rw [hsame.auditRuns, List.append_nil]
  have hdecisions : db'.decisions.rows = db₃.decisions.rows := by rw [hsame.decisions, List.append_nil]
  refine ⟨ds, es, hgrows, ?_, ?_, heffect.authorized⟩
  · rw [hruns]
    exact heffect.allowed
  · rw [hdecisions]
    intro run hrun
    obtain rfl := List.mem_singleton.mp hrun
    exact hrefuses

theorem run_ok {call : PaymentCall} (hlogged : AuthorizationsLogged db)
    (h : call.run D unicode sha256 toISOString tx db = .ok db') : ∃ runs ds es, Effect call db db' runs ds es := by
  have hsame : Same db db' → ∃ runs ds es, Effect call db db' runs ds es :=
    fun hsame => ⟨[], [], [], .event hsame (by simp)⟩
  cases call with
  | persistAuditRun input => exact ⟨_, persistAuditRun_ok _ h⟩
  | generateShortPayDecision clientId auditRunId enabled =>
    simp only [PaymentCall.run, bind_eq_ok, pure_eq_ok, Prod.exists] at h
    obtain ⟨result, db₁, hcall, rfl⟩ := h
    exact ⟨[], generateShortPayDecision_ok _ hcall⟩
  | generatePaymentEscalation clientId auditRunId now gracePeriodDays =>
    simp only [PaymentCall.run, bind_eq_ok, pure_eq_ok, Prod.exists] at h
    obtain ⟨created, db₁, hcall, rfl⟩ := h
    exact ⟨[], [], generatePaymentEscalation_ok _ hcall⟩
  | authorizePayment input =>
    simp only [PaymentCall.run, bind_eq_ok, pure_eq_ok, Prod.exists] at h
    obtain ⟨result, db₁, hcall, rfl⟩ := h
    rcases authorizePayment_ok hlogged hcall with ⟨rfl, -⟩ | ⟨-, row, es, -, -, heffect⟩
    · exact hsame (.refl _)
    · exact ⟨[], [row], es, heffect⟩
  | upsertPaymentPolicy config =>
    simp only [PaymentCall.run, Payments.upsertPaymentPolicy, bind_eq_ok] at h
    obtain ⟨config, -, h⟩ := h
    split at h <;> obtain rfl := pure_eq_ok.mp h <;> exact hsame (same_of_eq rfl rfl rfl)
  | updateFindingStatus findingId status =>
    obtain rfl := pure_eq_ok.mp h
    exact hsame (same_of_eq rfl rfl rfl)

end

/-! ## The invariant -/

/-- What the writers keep among themselves, whatever an analyst approves. -/
structure Consistent (db : PaymentDb) : Prop where
  decided : ∀ d ∈ db.decisions.rows, ∃ run ∈ db.auditRuns.rows, run.id = d.auditRunId ∧ run.accountId = d.accountId ∧
    (d.action = .do_not_pay → run.outcome = .REJECTED_REWORK) ∧ (d.action = .short_pay → run.outcome = .SCORED)
  refused : ∀ run ∈ db.auditRuns.rows, run.outcome = .REJECTED_REWORK →
    ∃ d ∈ db.decisions.rows, d.auditRunId = run.id ∧ d.action = .do_not_pay
  logged : AuthorizationsLogged db

/-- No rejected run is approved. -/
def NoneApproved (db : PaymentDb) : Prop :=
  ∀ d ∈ db.decisions.rows, d.action = .approve →
    ∀ run ∈ db.auditRuns.rows, run.id = d.auditRunId → run.outcome = .SCORED

theorem consistent_initial (criterionKeys : List String) : Consistent (.initial criterionKeys) where
  decided d hd := by cases hd
  refused run hrun := by cases hrun
  logged e he := by cases he

variable {call : PaymentCall} {db db' : PaymentDb} {runs : List AuditRunRow} {ds : List PaymentGateDecision}
  {es : List AuditEvent}

theorem Grows.run_mem (h : Grows db db' runs ds es) {run : AuditRunRow} (hrun : run ∈ db.auditRuns.rows) :
    run ∈ db'.auditRuns.rows := by
  rw [h.auditRuns]
  exact List.mem_append_left _ hrun

theorem Grows.decision_mem (h : Grows db db' runs ds es) {d : PaymentGateDecision} (hd : d ∈ db.decisions.rows) :
    d ∈ db'.decisions.rows := by
  rw [h.decisions]
  exact List.mem_append_left _ hd

theorem Consistent.effect (hdb : Consistent db) (h : Effect call db db' runs ds es) : Consistent db' where
  decided d hd := by
    rw [h.decisions] at hd
    rcases List.mem_append.mp hd with hd | hd
    · obtain ⟨run, hrun, hrest⟩ := hdb.decided d hd
      exact ⟨run, h.run_mem hrun, hrest⟩
    · obtain ⟨run, hrun, hid, haccount, hallowed⟩ := h.allowed d hd
      refine ⟨run, hrun, hid, haccount, fun haction => ?_, fun haction => ?_⟩
      · simpa only [Allowed, haction] using hallowed
      · simpa only [Allowed, haction] using hallowed
  refused run hrun hrejected := by
    rw [h.auditRuns] at hrun
    rcases List.mem_append.mp hrun with hrun | hrun
    · obtain ⟨d, hd, hrest⟩ := hdb.refused run hrun hrejected
      exact ⟨d, h.decision_mem hd, hrest⟩
    · exact h.refuses run hrun hrejected
  logged e he hname := by
    rw [h.auditEvents] at he
    rcases List.mem_append.mp he with he | he
    · obtain ⟨d, hd, hentity⟩ := hdb.logged e he hname
      exact ⟨d, h.decision_mem hd, hentity⟩
    · obtain ⟨d, hd, hentity⟩ := h.authorized e he hname
      refine ⟨d, ?_, hentity⟩
      rw [h.decisions]
      exact List.mem_append_right _ hd

/-- A run's outcome, by what is decided for it. -/
theorem Consistent.outcome_of (hdb : Consistent db) {run : AuditRunRow} (hrun : run ∈ db.auditRuns.rows)
    {action : PaymentGateAction} (h : action ∈ actionsOf db run.id) :
    (action = .do_not_pay → run.outcome = .REJECTED_REWORK) ∧ (action = .short_pay → run.outcome = .SCORED) := by
  obtain ⟨d, hd, hid, rfl⟩ := mem_actionsOf.mp h
  obtain ⟨run', hrun', hid', -, houtcome⟩ := hdb.decided d hd
  obtain rfl : run' = run := KeyedTable.eq_of_key hrun' hrun (hid'.trans hid)
  exact houtcome

/-- Given the rest, the law is that no rejected run is approved. -/
theorem Consistent.gateHolds_noneApproved (hdb : Consistent db) : GateHolds db ↔ NoneApproved db := by
  constructor
  · intro h d hd haction run hrun hid
    exact (h run hrun).released (.inl (mem_actionsOf.mpr ⟨d, hd, hid.symm, haction⟩))
  · intro h run hrun
    have happroved : .approve ∈ actionsOf db run.id → run.outcome = .SCORED := fun hmem => by
      obtain ⟨d, hd, hid, haction⟩ := mem_actionsOf.mp hmem
      exact h d hd haction run hrun hid.symm
    have hrefused : .do_not_pay ∈ actionsOf db run.id → run.outcome ≠ .SCORED := fun hmem hscored => by
      rw [(hdb.outcome_of hrun hmem).1 rfl] at hscored
      cases hscored
    refine ⟨?_, ⟨fun hmem => (hdb.outcome_of hrun hmem).1 rfl, fun hrejected => ?_⟩, fun hmem => ⟨?_, ?_⟩, ?_⟩
    · refine KeyedTable.nodup_filter_map _ _ fun a ha b hb hpa hpb haction => ?_
      obtain ⟨ra, hra, hida, haccounta, -⟩ := hdb.decided a ha
      obtain ⟨rb, hrb, hidb, haccountb, -⟩ := hdb.decided b hb
      have hid : a.auditRunId = b.auditRunId := (beq_iff_eq.mp hpa).trans (beq_iff_eq.mp hpb).symm
      obtain rfl := KeyedTable.eq_of_key hra hrb (by rw [hida, hidb, hid])
      rw [PaymentGateDecision.runAction, PaymentGateDecision.runAction, ← haccounta, ← haccountb, hid, haction]
    · obtain ⟨d, hd, hid, haction⟩ := hdb.refused run hrun hrejected
      exact mem_actionsOf.mpr ⟨d, hd, hid, haction⟩
    · exact fun happrove => hrefused hmem (happroved happrove)
    · exact fun hshort => hrefused hmem ((hdb.outcome_of hrun hshort).2 rfl)
    · rintro (happrove | hshort)
      · exact happroved happrove
      · exact (hdb.outcome_of hrun hshort).2 rfl

/-! ## Runs -/

/-- An acceptable authorization approves a run that the gate rejected. -/
def ApprovesRejected (sha256 : String → ℕ) (db : PaymentDb) (e : Transaction × PaymentCall) : Prop :=
  match e.2 with
  | .authorizePayment input => input.action = .approve ∧ Acceptable sha256 e.1 db input ∧
      ∃ run, selectRun db input.clientId input.auditRunId = some run ∧ run.outcome = .REJECTED_REWORK
  | _ => False

section

variable {D : Type} [Decimal D] {unicode : Unicode} {sha256 : String → ℕ} {toISOString : ℤ → String}
  {e : Transaction × PaymentCall}

theorem step_cases {db' : PaymentDb} (h : step D unicode sha256 toISOString db e = some db') :
    e.2.run D unicode sha256 toISOString e.1 db = .ok db' ∨
      (∃ err, e.2.run D unicode sha256 toISOString e.1 db = .error err) ∧ db' = db := by
  unfold step at h
  split at h
  · rename_i hrun
    exact .inl (Option.some.inj h ▸ hrun)
  · rename_i err hrun
    exact .inr ⟨⟨err, hrun⟩, (Option.some.inj h).symm⟩

theorem Consistent.step {db' : PaymentDb} (hdb : Consistent db)
    (h : step D unicode sha256 toISOString db e = some db') : Consistent db' := by
  rcases step_cases h with hrun | ⟨-, rfl⟩
  · obtain ⟨runs, ds, es, heffect⟩ := run_ok hdb.logged hrun
    exact hdb.effect heffect
  · exact hdb

/-- Approving a rejected run goes through, and breaks the law. -/
theorem not_noneApproved_step {db' : PaymentDb} (hdb : Consistent db) (hnone : NoneApproved db)
    (hbad : ApprovesRejected sha256 db e) (h : step D unicode sha256 toISOString db e = some db') : ¬ NoneApproved db' := by
  obtain ⟨tx, call⟩ := e
  cases call with
  | authorizePayment input =>
    obtain ⟨haction, haccept, run, hrun, hrejected⟩ := hbad
    obtain ⟨hmem, hid, -⟩ := selectRun_some.mp hrun
    have hfree : selectDecision db input.clientId input.auditRunId input.action.toGate = none := by
      by_contra hfound
      obtain ⟨d, hd⟩ := Option.ne_none_iff_exists'.mp hfound
      obtain ⟨hd, -, hdrun, hdaction⟩ := selectDecision_some hd
      rw [haction] at hdaction
      have := hnone d hd hdaction run hmem (hid.trans hdrun.symm)
      rw [hrejected] at this
      cases this
    obtain ⟨result, db₁, hcall⟩ := authorizePayment_goes hrun hfree haccept
    obtain rfl : db₁ = db' := by
      simp only [Payments.step, PaymentCall.run, hcall, ok_bind] at h
      exact Option.some.inj h
    rcases authorizePayment_ok hdb.logged hcall with ⟨-, hfound⟩ | ⟨-, row, es, hrow, hrowrun, heffect⟩
    · rw [hfree] at hfound
      cases hfound
    · intro hnone'
      have hmem' : row ∈ db₁.decisions.rows := by
        rw [heffect.decisions]
        exact List.mem_append_right _ (List.mem_singleton_self _)
      have := hnone' row hmem' (by rw [hrow, haction]; rfl) run (heffect.run_mem hmem) (hid.trans hrowrun.symm)
      rw [hrejected] at this
      cases this
  | _ => exact hbad.elim

/-- What was decided before is still of the same run. -/
theorem Effect.old_run (hdb : Consistent db) (h : Effect call db db' runs ds es) {d : PaymentGateDecision}
    (hd : d ∈ db.decisions.rows) {run : AuditRunRow} (hrun : run ∈ db'.auditRuns.rows) (hid : run.id = d.auditRunId) :
    run ∈ db.auditRuns.rows := by
  obtain ⟨run', hrun', hid', -⟩ := hdb.decided d hd
  obtain rfl := KeyedTable.eq_of_key (h.run_mem hrun') hrun (hid'.trans hid.symm)
  exact hrun'

/-- Every other call keeps rejected runs unapproved. -/
theorem noneApproved_step {db' : PaymentDb} (hdb : Consistent db) (hnone : NoneApproved db)
    (hgood : ¬ ApprovesRejected sha256 db e) (h : step D unicode sha256 toISOString db e = some db') :
    NoneApproved db' := by
  rcases step_cases h with hcall | ⟨-, rfl⟩
  · obtain ⟨runs, ds, es, heffect⟩ := run_ok hdb.logged hcall
    intro d hd haction run hrun hid
    by_cases hold : d ∈ db.decisions.rows
    · exact hnone d hold haction run (heffect.old_run hdb hold hrun hid) hid
    · rw [heffect.decisions] at hd
      obtain ⟨run', hrun', hid', haccount, hallowed⟩ := heffect.allowed d ((List.mem_append.mp hd).resolve_left hold)
      obtain rfl := KeyedTable.eq_of_key hrun' hrun (hid'.trans hid.symm)
      simp only [Allowed, haction] at hallowed
      obtain ⟨input, hinput, happrove, hclient, hauditRun⟩ := hallowed
      obtain ⟨tx, call⟩ := e
      obtain rfl : call = .authorizePayment input := hinput
      simp only [PaymentCall.run, bind_eq_ok, pure_eq_ok, Prod.exists] at hcall
      obtain ⟨result, db₁, hcall, rfl⟩ := hcall
      rcases authorizePayment_ok hdb.logged hcall with ⟨rfl, -⟩ | ⟨haccept, row, es', -, -, heffect'⟩
      · exact absurd (heffect.decisions ▸ hd) hold
      · -- the run was there before, so it was not a rejected one
        rw [heffect'.auditRuns, List.append_nil] at hrun
        by_contra hscored
        have hrejected : run'.outcome = .REJECTED_REWORK := by
          cases houtcome : run'.outcome with
          | REJECTED_REWORK => rfl
          | SCORED => exact absurd houtcome hscored
        refine hgood ⟨happrove, haccept, run', selectRun_some.mpr ⟨hrun, ?_, ?_⟩, hrejected⟩
        · rw [hid, hauditRun]
        · rw [haccount, hclient]
  · exact hnone

/-- The law holds throughout a run of calls exactly if no call approves a rejected run. -/
theorem gateHolds_iff (D : Type) [Decimal D] (unicode : Unicode) (sha256 : String → ℕ) (toISOString : ℤ → String)
    (criterionKeys : List String) (events : List (Transaction × PaymentCall)) :
    Runs.AllStates (step D unicode sha256 toISOString) GateHolds (.initial criterionKeys) events ↔
      Runs.AllSteps (step D unicode sha256 toISOString) (fun db e => ¬ ApprovesRejected sha256 db e)
        (.initial criterionKeys) events := by
  refine Runs.allStates_iff_allSteps Consistent (fun _ _ _ => Consistent.step) ?_ events _ (consistent_initial _) ?_
  · intro db e db' hdb hgate hstep
    rw [(hdb.step hstep).gateHolds_noneApproved]
    have hnone := hdb.gateHolds_noneApproved.mp hgate
    exact ⟨fun h hbad => not_noneApproved_step hdb hnone hbad hstep h,
      fun hgood => noneApproved_step hdb hnone hgood hstep⟩
  · intro run hrun
    cases hrun

end

/-- An invoice that states no currency, as the gate rejects it. -/
def rejectedInvoice : PersistInput where
  clientId := 1
  invoice := ⟨.edi210, "210/1", some "INV-7", none, none, none, none, none, none, [], none, []⟩
  result := ⟨.REJECTED_REWORK,
    [⟨"STD.CURRENCY_STATED", "The invoice states its currency.", none,
      .leaf (.fact "all_currencies_stated") (.bool false)⟩], [], none, [], ⟨"210/1", "1", "h"⟩⟩

/-- The run is rejected, and an analyst approves its payment. -/
def approvedRejection : List (Transaction × PaymentCall) :=
  [(⟨0, fun n => 10 + n⟩, .persistAuditRun rejectedInvoice),
    (⟨1, fun n => 20 + n⟩, .authorizePayment ⟨1, 10, .approve, some "Approved.", 5⟩)]

theorem approvedRejection_released :
    ¬ Runs.AllStates (step DecimalJs.Ref .ascii Claims.textNumber toString) GateHolds
      (.initial ["STD.CURRENCY_STATED"]) approvedRejection := by
  decide +kernel

end Payments
