import FreightAuditor.Claims.Closing
import FreightAuditor.Payments.ReleaseLaw

/- The escalation of a hold, and the queue of the holds that wait for an analyst.

   The queue leaves a run out once it is approved, short-paid or refused. The escalation asks only whether it
   is approved. Its event has one id for the run and says how long the grace period was, so that a call with
   another grace period meets an event that differs (`escalatesExactly_iff`). -/
namespace Payments

open Claims (AuditEvent AuditEventEvidence deterministicAuditEventId deterministicAuditEventId_inj sameEvidence)
open DecimalJs Evaluator ExceptOk Ingestion JsText

/-! ## The queue -/

structure PendingPaymentAuthorizationRow where
  auditRunId : ℕ
  invoiceId : ℕ
  heldAt : ℤ
  rationale : Option String

/-- `NOT EXISTS` is over these. -/
def resolvingActions : List PaymentGateAction := [.approve, .short_pay, .do_not_pay]

/-- Among the rows that the tenant sees. -/
def isPendingHold (db : PaymentDb) (clientId : ℕ) (hold : PaymentGateDecision) : Bool :=
  hold.accountId == clientId && hold.action == .hold && (selectRun db clientId hold.auditRunId).isSome &&
    !db.decisions.rows.any fun resolved => resolved.accountId == clientId && resolved.auditRunId == hold.auditRunId &&
      resolvingActions.contains resolved.action

def heldBefore (a b : PaymentGateDecision) : Prop :=
  a.recordedAt < b.recordedAt ∨ a.recordedAt = b.recordedAt ∧ a.auditRunId ≤ b.auditRunId

instance : DecidableRel heldBefore :=
  fun a b => inferInstanceAs (Decidable (a.recordedAt < b.recordedAt ∨ a.recordedAt = b.recordedAt ∧ a.auditRunId ≤ b.auditRunId))

def DEFAULT_LIMIT : ℕ := 50

def listPendingPaymentAuthorizations (db : PaymentDb) (clientId : ℕ) (limit offset : Option ℕ) :
    List PendingPaymentAuthorizationRow :=
  let holds := (db.decisions.rows.filter (isPendingHold db clientId)).insertionSort heldBefore
  ((holds.drop (offset.getD 0)).take (limit.getD DEFAULT_LIMIT)).map fun hold =>
    ⟨hold.auditRunId, hold.invoiceId, hold.recordedAt, hold.rationale⟩

/-- The run is on some page of the queue. -/
def InQueue (db : PaymentDb) (clientId auditRunId : ℕ) : Prop :=
  ∃ offset, ∃ row ∈ listPendingPaymentAuthorizations db clientId none (some offset), row.auditRunId = auditRunId

theorem inQueue_iff_pending {db : PaymentDb} {clientId auditRunId : ℕ} :
    InQueue db clientId auditRunId ↔
      ∃ hold ∈ db.decisions.rows, isPendingHold db clientId hold = true ∧ hold.auditRunId = auditRunId := by
  constructor
  · intro hqueue
    obtain ⟨offset, row, hrow, hid⟩ := hqueue
    obtain ⟨hold, hhold, rfl⟩ := List.mem_map.mp hrow
    have hmem := (List.mem_insertionSort heldBefore).mp (List.mem_of_mem_drop (List.mem_of_mem_take hhold))
    exact ⟨hold, (List.mem_filter.mp hmem).1, (List.mem_filter.mp hmem).2, hid⟩
  · intro hpage
    obtain ⟨hold, hmem, hpending, hid⟩ := hpage
    have hsorted : hold ∈ (db.decisions.rows.filter (isPendingHold db clientId)).insertionSort heldBefore :=
      (List.mem_insertionSort heldBefore).mpr (List.mem_filter.mpr ⟨hmem, hpending⟩)
    -- the page that begins with it
    obtain ⟨offset, hlt, hget⟩ := List.mem_iff_getElem.mp hsorted
    refine ⟨offset, ⟨hold.auditRunId, hold.invoiceId, hold.recordedAt, hold.rationale⟩, ?_, hid⟩
    refine List.mem_map.mpr ⟨hold, ?_, rfl⟩
    rw [Option.getD_some, Option.getD_none, List.drop_eq_getElem_cons hlt, hget, DEFAULT_LIMIT, List.take_succ_cons]
    exact List.mem_cons_self

/-! ## The calls -/

/-- The writers of the payment gate, the two that persisting a run calls as calls of their own. -/
inductive GateCall where
  | generateHoldDecision (clientId auditRunId : ℕ) (holdThenApprove : Bool)
  | generateDoNotPayDecision (clientId auditRunId : ℕ)
  | payment (call : PaymentCall)

section

variable (D : Type) [Decimal D] (unicode : Unicode) (sha256 : String → ℕ) (toISOString : ℤ → String)

def GateCall.run (call : GateCall) (tx : Transaction) (db : PaymentDb) : Except PaymentError PaymentDb :=
  match call with
  | .generateHoldDecision clientId auditRunId holdThenApprove => do
    let (_, db) ← Payments.generateHoldDecision sha256 tx db clientId auditRunId holdThenApprove (tx.newId 0)
    return db
  | .generateDoNotPayDecision clientId auditRunId => do
    let (_, db) ← Payments.generateDoNotPayDecision unicode sha256 tx db clientId auditRunId (tx.newId 0)
    return db
  | .payment call => call.run D unicode sha256 toISOString tx db

/-- A call that throws leaves the tables as they are. -/
def gateStep (db : PaymentDb) (e : Transaction × GateCall) : Option PaymentDb :=
  match e.2.run D unicode sha256 toISOString e.1 db with
  | .ok db' => some db'
  | .error _ => some db

/-! ## The escalation -/

def escalationEventId (clientId auditRunId : ℕ) : ℕ :=
  deterministicAuditEventId sha256 [toString clientId, toString auditRunId, "payment_gate.escalated"]

def escalationEvidence (clientId auditRunId : ℕ) (heldAt gracePeriodDays : ℤ) : AuditEventEvidence :=
  decisionEvent clientId auditRunId auditRunId "payment_gate.escalated" .system none
    [("holdRecordedAt", .str (toISOString heldAt)), ("gracePeriodDays", .num (numberOfDays gracePeriodDays))]

/-- The event that the run is escalated. -/
def isEscalationOf (auditRunId : ℕ) (e : AuditEvent) : Bool :=
  e.event == "payment_gate.escalated" && e.entityId == some auditRunId

/-- The call returns, and the event is there. -/
def Confirms (tx : Transaction) (db : PaymentDb) (clientId auditRunId : ℕ) (now gracePeriodDays : ℤ) : Prop :=
  ∃ created db', generatePaymentEscalation sha256 toISOString tx db clientId auditRunId now gracePeriodDays = .ok (created, db') ∧
    ∃ e ∈ db'.auditEvents.rows, e.clientId = some clientId ∧ isEscalationOf auditRunId e = true

/-- The run has been held for the grace period. -/
def HeldFor (db : PaymentDb) (clientId auditRunId : ℕ) (now gracePeriodDays : ℤ) : Prop :=
  ∃ hold, selectDecision db clientId auditRunId .hold = some hold ∧
    hold.recordedAt + gracePeriodDays * millisecondsPerDay ≤ now

/-- A hold is escalated exactly while it is pending, and no call changes a decision or fails on the event. -/
def EscalatesExactly (db : PaymentDb) (e : Transaction × GateCall) : Prop :=
  (∀ db', gateStep D unicode sha256 toISOString db e = some db' → db.decisions.rows <+: db'.decisions.rows) ∧
    match e.2 with
    | .payment (.generatePaymentEscalation clientId auditRunId now gracePeriodDays) =>
      (Confirms sha256 toISOString e.1 db clientId auditRunId now gracePeriodDays ↔
          InQueue db clientId auditRunId ∧ HeldFor db clientId auditRunId now gracePeriodDays) ∧
        generatePaymentEscalation sha256 toISOString e.1 db clientId auditRunId now gracePeriodDays ≠ .error .auditEventConflict
    | _ => True

def EscalatedOnce (db : PaymentDb) : Prop :=
  ∀ auditRunId, (db.auditEvents.rows.filter (isEscalationOf auditRunId)).length ≤ 1

/-- What `generatePaymentEscalation` asks before it writes the event. -/
def Unapproved (db : PaymentDb) (clientId auditRunId : ℕ) (now gracePeriodDays : ℤ) : Prop :=
  ∃ hold, selectDecision db clientId auditRunId .hold = some hold ∧ selectDecision db clientId auditRunId .approve = none ∧
    (graceDeadline hold.recordedAt gracePeriodDays).any (now < ·) = false

/-- The grace period that an event of an escalation states. -/
def gracePeriodOf (e : AuditEventEvidence) : Option Json.Value := e.detail.bind (Json.Value.get? "gracePeriodDays")

/-- An unapproved run is neither short-paid nor refused, its hold is as old as is asked, and if it is escalated
already, then with this grace period. -/
def InOrder (db : PaymentDb) (e : Transaction × GateCall) : Prop :=
  match e.2 with
  | .payment (.generatePaymentEscalation clientId auditRunId now gracePeriodDays) =>
    Unapproved db clientId auditRunId now gracePeriodDays →
      selectDecision db clientId auditRunId .short_pay = none ∧ selectDecision db clientId auditRunId .do_not_pay = none ∧
        HeldFor db clientId auditRunId now gracePeriodDays ∧
        ∀ e ∈ db.auditEvents.rows, isEscalationOf auditRunId e = true →
          gracePeriodOf e.toAuditEventEvidence = some (.num (numberOfDays gracePeriodDays))
  | _ => True

end

instance (db : PaymentDb) (clientId auditRunId : ℕ) (now gracePeriodDays : ℤ) :
    Decidable (HeldFor db clientId auditRunId now gracePeriodDays) :=
  inferInstanceAs (Decidable (∃ hold ∈ selectDecision db clientId auditRunId .hold,
    hold.recordedAt + gracePeriodDays * millisecondsPerDay ≤ now))

instance (db : PaymentDb) (clientId auditRunId : ℕ) (now gracePeriodDays : ℤ) :
    Decidable (Unapproved db clientId auditRunId now gracePeriodDays) :=
  inferInstanceAs (Decidable (∃ hold ∈ selectDecision db clientId auditRunId .hold,
    selectDecision db clientId auditRunId .approve = none ∧ (graceDeadline hold.recordedAt gracePeriodDays).any (now < ·) = false))

instance (e : AuditEventEvidence) (v : Json.Value) : Decidable (gracePeriodOf e = some v) :=
  decidable_of_iff ((gracePeriodOf e).map Json.render = (some v).map Json.render)
    (Option.map_injective Json.render_injective).eq_iff

instance (db : PaymentDb) : ∀ e, Decidable (InOrder db e)
  | (_, .payment (.generatePaymentEscalation clientId auditRunId now gracePeriodDays)) =>
    inferInstanceAs (Decidable (Unapproved db clientId auditRunId now gracePeriodDays →
      selectDecision db clientId auditRunId .short_pay = none ∧ selectDecision db clientId auditRunId .do_not_pay = none ∧
        HeldFor db clientId auditRunId now gracePeriodDays ∧
        ∀ e ∈ db.auditEvents.rows, isEscalationOf auditRunId e = true →
          gracePeriodOf e.toAuditEventEvidence = some (.num (numberOfDays gracePeriodDays))))
  | (_, .generateHoldDecision _ _ _) => .isTrue trivial
  | (_, .generateDoNotPayDecision _ _) => .isTrue trivial
  | (_, .payment (.persistAuditRun _)) => .isTrue trivial
  | (_, .payment (.generateShortPayDecision _ _ _)) => .isTrue trivial
  | (_, .payment (.authorizePayment _)) => .isTrue trivial
  | (_, .payment (.upsertPaymentPolicy _)) => .isTrue trivial
  | (_, .payment (.updateFindingStatus _ _)) => .isTrue trivial

theorem numberOfDays_injective : Function.Injective numberOfDays := by
  intro a b h
  have hchars : DecimalText.fixedText 0 a = DecimalText.fixedText 0 b := congrArg DecimalText.NumberText.chars h
  have ha := DecimalText.literal?_fixedText 0 a
  rw [hchars, DecimalText.literal?_fixedText 0 b] at ha
  have hvalue := congrArg DecimalText.Literal.value (Option.some.inj ha)
  rw [DecimalText.value_fixedText, DecimalText.value_fixedText] at hvalue
  simpa using hvalue.symm

/-! ## What a call leaves as it is -/

/-- An event under an id of its own name, other than an escalation. -/
def OtherEvent (sha256 : String → ℕ) (e : AuditEvent) : Prop :=
  e.event ≠ "payment_gate.escalated" ∧ ∃ (a b : ℕ) (name : String), name ≠ "payment_gate.escalated" ∧
    e.id = deterministicAuditEventId sha256 [toString a, toString b, name]

/-- Decisions and events are only added, and no event is an escalation. -/
structure Quiet (sha256 : String → ℕ) (db db' : PaymentDb) : Prop where
  decisions : db.decisions.rows <+: db'.decisions.rows
  events : ∃ es, db'.auditEvents.rows = db.auditEvents.rows ++ es ∧ ∀ e ∈ es, OtherEvent sha256 e

section

variable {sha256 : String → ℕ} {a b c : PaymentDb}

theorem Quiet.refl (a : PaymentDb) : Quiet sha256 a a :=
  ⟨List.prefix_rfl, [], (List.append_nil _).symm, fun _ he => absurd he List.not_mem_nil⟩

theorem Quiet.trans (h : Quiet sha256 a b) (h' : Quiet sha256 b c) : Quiet sha256 a c := by
  obtain ⟨es, hes, hother⟩ := h.events
  obtain ⟨es', hes', hother'⟩ := h'.events
  refine ⟨h.decisions.trans h'.decisions, es ++ es', ?_, fun e he => ?_⟩
  · rw [hes', hes, List.append_assoc]
  · exact (List.mem_append.mp he).elim (hother e) (hother' e)

theorem Grows.quiet {runs : List AuditRunRow} (h : Grows a b runs [] []) : Quiet sha256 a b := by
  refine ⟨?_, [], h.auditEvents, fun _ he => absurd he List.not_mem_nil⟩
  rw [h.decisions, List.append_nil]

theorem insertDecision_quiet {row : PaymentGateDecision} (h : insertDecision a row = .ok b) : Quiet sha256 a b := by
  obtain ⟨hgrows, -⟩ := insertDecision_ok h
  exact ⟨⟨[row], hgrows.decisions.symm⟩, [], hgrows.auditEvents, fun _ he => absurd he List.not_mem_nil⟩

theorem writeAuditEvent_quiet {tx : Transaction} {x y : ℕ} {name : String} {value : AuditEventEvidence} {created : Bool}
    (h : writeAuditEvent tx a (deterministicAuditEventId sha256 [toString x, toString y, name]) value = .ok (created, b))
    (hname : name ≠ "payment_gate.escalated") (hvalue : value.event ≠ "payment_gate.escalated") : Quiet sha256 a b := by
  unfold writeAuditEvent at h
  split at h
  · simp only [bind_eq_ok, pure_eq_ok, orViolates_ok, Prod.mk.injEq] at h
    obtain ⟨auditEvents, hinsert, -, rfl⟩ := h
    obtain ⟨-, hrows⟩ := KeyedTable.insert_eq_some hinsert
    refine ⟨List.prefix_rfl, _, hrows, fun e he => ?_⟩
    rw [List.mem_singleton.mp he]
    exact ⟨hvalue, x, y, name, hname, rfl⟩
  · split at h
    · simp only [pure_eq_ok, Prod.mk.injEq] at h
      obtain ⟨-, rfl⟩ := h
      exact .refl a
    · cases h

end

section

variable {D : Type} [Decimal D] {unicode : Unicode} {sha256 : String → ℕ} {toISOString : ℤ → String} {tx : Transaction}
  {db db' : PaymentDb}

theorem generateHoldDecision_quiet {clientId auditRunId newId : ℕ} {holdThenApprove : Bool} {result : Option DecisionResult}
    (h : generateHoldDecision sha256 tx db clientId auditRunId holdThenApprove newId = .ok (result, db')) :
    Quiet sha256 db db' := by
  unfold generateHoldDecision at h
  split at h
  · simp only [pure_eq_ok, Prod.mk.injEq] at h
    exact h.2 ▸ .refl db
  · split at h
    · split at h
      · simp only [pure_eq_ok, Prod.mk.injEq] at h
        exact h.2 ▸ .refl db
      · simp only [bind_eq_ok, pure_eq_ok, Prod.exists, Prod.mk.injEq] at h
        obtain ⟨db₁, hinsert, created, db₂, hevent, -, rfl⟩ := h
        exact (insertDecision_quiet hinsert).trans (writeAuditEvent_quiet hevent (by decide) (by simp [decisionEvent]))
    · cases h

theorem generateDoNotPayDecision_quiet {clientId auditRunId newId : ℕ} {result : DoNotPayResult}
    (h : generateDoNotPayDecision unicode sha256 tx db clientId auditRunId newId = .ok (result, db')) :
    Quiet sha256 db db' := by
  unfold generateDoNotPayDecision at h
  split at h
  · simp only [bind_eq_ok] at h
    obtain ⟨decision, -, h⟩ := h
    split at h
    · simp only [pure_bind, bind_eq_ok, pure_eq_ok, Prod.exists, Prod.mk.injEq] at h
      obtain ⟨created, db₁, hevent, -, rfl⟩ := h
      exact writeAuditEvent_quiet hevent (by decide) (by simp [decisionEvent])
    · simp only [pure_bind, bind_eq_ok, pure_eq_ok, Prod.exists, Prod.mk.injEq] at h
      obtain ⟨db₁, hinsert, created, db₂, hevent, -, rfl⟩ := h
      exact (insertDecision_quiet hinsert).trans (writeAuditEvent_quiet hevent (by decide) (by simp [decisionEvent]))
  · cases h

theorem generateShortPayDecision_quiet {clientId auditRunId : ℕ} {shortPayEnabled : Bool} {result : ShortPayResult}
    (h : generateShortPayDecision D unicode sha256 tx db clientId auditRunId shortPayEnabled = .ok (result, db')) :
    Quiet sha256 db db' := by
  unfold generateShortPayDecision at h
  split at h
  · simp only [pure_eq_ok, Prod.mk.injEq] at h
    exact h.2 ▸ .refl db
  · split at h
    · split at h
      · simp only [pure_eq_ok, Prod.mk.injEq] at h
        exact h.2 ▸ .refl db
      · simp only [bind_eq_ok, pure_eq_ok, Prod.exists, Prod.mk.injEq] at h
        obtain ⟨decision, -, amount, -, db₁, hinsert, created, db₂, hevent, -, rfl⟩ := h
        exact (insertDecision_quiet hinsert).trans (writeAuditEvent_quiet hevent (by decide) (by simp [decisionEvent]))
    · cases h

theorem authorizePayment_quiet {input : AuthorizePaymentInput} {result : DecisionResult}
    (h : authorizePayment sha256 tx db input = .ok (result, db')) : Quiet sha256 db db' := by
  simp only [authorizePayment, bind_eq_ok] at h
  obtain ⟨rationale, -, h⟩ := h
  split at h
  · split at h
    · simp only [pure_eq_ok, Prod.mk.injEq] at h
      exact h.2 ▸ .refl db
    · simp only [bind_eq_ok, pure_eq_ok, Prod.exists, Prod.mk.injEq] at h
      obtain ⟨db₁, hinsert, created, db₂, hevent, -, rfl⟩ := h
      exact (insertDecision_quiet hinsert).trans (writeAuditEvent_quiet hevent (by decide) (by simp [decisionEvent]))
  · cases h

theorem generateDecision_quiet {clientId auditRunId newId : ℕ} {outcome : Outcome}
    (h : generateDecision unicode sha256 tx db clientId auditRunId outcome newId = .ok db') : Quiet sha256 db db' := by
  cases outcome with
  | SCORED =>
    simp only [generateDecision, bind_eq_ok, pure_eq_ok, Prod.exists] at h
    obtain ⟨result, db₁, hhold, rfl⟩ := h
    exact generateHoldDecision_quiet hhold
  | REJECTED_REWORK =>
    simp only [generateDecision, bind_eq_ok, pure_eq_ok, Prod.exists] at h
    obtain ⟨result, db₁, hrefuse, rfl⟩ := h
    exact generateDoNotPayDecision_quiet hrefuse

theorem persistAuditRun_quiet {input : PersistInput} (h : persistAuditRun unicode sha256 tx db input = .ok db') :
    Quiet sha256 db db' := by
  simp only [persistAuditRun, bind_eq_ok] at h
  obtain ⟨db₁, hcharges, db₂, hrun, -, -, db₃, hdecision, hvariances⟩ := h
  have hfailures : Same db₂ (insertGateFailures tx db₂ input.clientId (input.auditRun tx).id input.result.gateFailures) :=
    same_of_eq rfl rfl rfl
  have hsame : Same db₃ db' := Same.foldlM (fun _ _ _ => insertVarianceFinding_ok) _ hvariances
  exact (Grows.quiet (insertChargeFacts_ok hcharges)).trans ((Grows.quiet (insertAuditRun_ok hrun)).trans
    ((Grows.quiet hfailures).trans ((generateDecision_quiet hdecision).trans (Grows.quiet hsame))))

/-- Every call but the escalation itself. -/
theorem GateCall.quiet {call : GateCall}
    (hother : ∀ clientId auditRunId now gracePeriodDays,
      call ≠ .payment (.generatePaymentEscalation clientId auditRunId now gracePeriodDays))
    (h : call.run D unicode sha256 toISOString tx db = .ok db') : Quiet sha256 db db' := by
  cases call with
  | generateHoldDecision clientId auditRunId holdThenApprove =>
    simp only [GateCall.run, bind_eq_ok, pure_eq_ok, Prod.exists] at h
    obtain ⟨result, db₁, hcall, rfl⟩ := h
    exact generateHoldDecision_quiet hcall
  | generateDoNotPayDecision clientId auditRunId =>
    simp only [GateCall.run, bind_eq_ok, pure_eq_ok, Prod.exists] at h
    obtain ⟨result, db₁, hcall, rfl⟩ := h
    exact generateDoNotPayDecision_quiet hcall
  | payment call =>
    cases call with
    | persistAuditRun input => exact persistAuditRun_quiet h
    | generateShortPayDecision clientId auditRunId enabled =>
      simp only [GateCall.run, PaymentCall.run, bind_eq_ok, pure_eq_ok, Prod.exists] at h
      obtain ⟨result, db₁, hcall, rfl⟩ := h
      exact generateShortPayDecision_quiet hcall
    | generatePaymentEscalation clientId auditRunId now gracePeriodDays => exact absurd rfl (hother _ _ _ _)
    | authorizePayment input =>
      simp only [GateCall.run, PaymentCall.run, bind_eq_ok, pure_eq_ok, Prod.exists] at h
      obtain ⟨result, db₁, hcall, rfl⟩ := h
      exact authorizePayment_quiet hcall
    | upsertPaymentPolicy config =>
      simp only [GateCall.run, PaymentCall.run, Payments.upsertPaymentPolicy, bind_eq_ok] at h
      obtain ⟨config, -, h⟩ := h
      split at h
      · obtain rfl := pure_eq_ok.mp h
        exact Grows.quiet (same_of_eq rfl rfl rfl)
      · obtain rfl := pure_eq_ok.mp h
        exact Grows.quiet (same_of_eq rfl rfl rfl)
    | updateFindingStatus findingId status =>
      obtain rfl := pure_eq_ok.mp h
      exact Grows.quiet (same_of_eq rfl rfl rfl)

theorem GateCall.consistent {call : GateCall} (hdb : Consistent db)
    (h : call.run D unicode sha256 toISOString tx db = .ok db') : Consistent db' := by
  cases call with
  | generateHoldDecision clientId auditRunId holdThenApprove =>
    simp only [GateCall.run, bind_eq_ok, pure_eq_ok, Prod.exists] at h
    obtain ⟨result, db₁, hcall, rfl⟩ := h
    obtain ⟨ds, es, heffect⟩ := generateHoldDecision_ok (.updateFindingStatus 0 .open) hcall
    exact hdb.effect heffect
  | generateDoNotPayDecision clientId auditRunId =>
    simp only [GateCall.run, bind_eq_ok, pure_eq_ok, Prod.exists] at h
    obtain ⟨result, db₁, hcall, rfl⟩ := h
    obtain ⟨⟨ds, es, heffect⟩, -⟩ := generateDoNotPayDecision_ok (.updateFindingStatus 0 .open) hcall
    exact hdb.effect heffect
  | payment call =>
    obtain ⟨runs, ds, es, heffect⟩ := run_ok hdb.logged h
    exact hdb.effect heffect

theorem gateStep_cases {e : Transaction × GateCall} (h : gateStep D unicode sha256 toISOString db e = some db') :
    e.2.run D unicode sha256 toISOString e.1 db = .ok db' ∨
      (∃ err, e.2.run D unicode sha256 toISOString e.1 db = .error err) ∧ db' = db := by
  unfold gateStep at h
  split at h
  · rename_i hrun
    exact .inl (Option.some.inj h ▸ hrun)
  · rename_i err hrun
    exact .inr ⟨⟨err, hrun⟩, (Option.some.inj h).symm⟩

end

/-! ## The invariant -/

/-- An event of the escalation of a run that is held. -/
def EscalationEvent (sha256 : String → ℕ) (toISOString : ℤ → String) (db : PaymentDb) (e : AuditEvent) : Prop :=
  ∃ clientId auditRunId hold gracePeriodDays, selectDecision db clientId auditRunId .hold = some hold ∧
    e.id = escalationEventId sha256 clientId auditRunId ∧
    e.toAuditEventEvidence = escalationEvidence toISOString clientId auditRunId hold.recordedAt gracePeriodDays

/-- Every event is an escalation of a run that is held, or another event under another name. -/
structure Filed (sha256 : String → ℕ) (toISOString : ℤ → String) (db : PaymentDb) : Prop where
  consistent : Consistent db
  events : ∀ e ∈ db.auditEvents.rows, OtherEvent sha256 e ∨ EscalationEvent sha256 toISOString db e

theorem selectDecision_of_prefix {db db' : PaymentDb} (h : db.decisions.rows <+: db'.decisions.rows)
    {clientId auditRunId : ℕ} {action : PaymentGateAction} {d : PaymentGateDecision}
    (hd : selectDecision db clientId auditRunId action = some d) : selectDecision db' clientId auditRunId action = some d := by
  obtain ⟨hmem, hkey⟩ := KeyedTable.find?_sound hd
  exact KeyedTable.find?_eq_some.mpr ⟨h.subset hmem, hkey⟩

section

variable {sha256 : String → ℕ} {toISOString : ℤ → String} {db db' : PaymentDb} {clientId auditRunId : ℕ}

theorem EscalationEvent.of_prefix (h : db.decisions.rows <+: db'.decisions.rows) {e : AuditEvent}
    (he : EscalationEvent sha256 toISOString db e) : EscalationEvent sha256 toISOString db' e := by
  obtain ⟨clientId, auditRunId, hold, gracePeriodDays, hhold, hid, hvalue⟩ := he
  exact ⟨clientId, auditRunId, hold, gracePeriodDays, selectDecision_of_prefix h hhold, hid, hvalue⟩

theorem Filed.quiet (hdb : Filed sha256 toISOString db) (hconsistent : Consistent db') (h : Quiet sha256 db db') :
    Filed sha256 toISOString db' := by
  refine ⟨hconsistent, fun e he => ?_⟩
  obtain ⟨es, hes, hother⟩ := h.events
  rw [hes] at he
  rcases List.mem_append.mp he with hold | hnew
  · exact (hdb.events e hold).imp_right (EscalationEvent.of_prefix h.decisions)
  · exact .inl (hother e hnew)

/-- What is under the id of a run's escalation is that escalation. -/
theorem Filed.of_id (hsha : Function.Injective sha256) (hdb : Filed sha256 toISOString db) {e : AuditEvent}
    (he : e ∈ db.auditEvents.rows) (hid : e.id = escalationEventId sha256 clientId auditRunId) :
    ∃ hold gracePeriodDays, selectDecision db clientId auditRunId .hold = some hold ∧
      e.toAuditEventEvidence = escalationEvidence toISOString clientId auditRunId hold.recordedAt gracePeriodDays := by
  rcases hdb.events e he with ⟨-, a, b, name, hname, hid'⟩ | ⟨clientId', auditRunId', hold, gracePeriodDays, hhold, hid', hvalue⟩
  · exact absurd (deterministicAuditEventId_inj hsha (hid'.symm.trans hid)).2.2 hname
  · obtain ⟨rfl, rfl, -⟩ := deterministicAuditEventId_inj hsha (hid'.symm.trans hid)
    exact ⟨hold, gracePeriodDays, hhold, hvalue⟩

/-- An escalation of the run is under the id that the run's tenant gives it. -/
theorem Filed.id_of (hdb : Filed sha256 toISOString db) {e : AuditEvent} (he : e ∈ db.auditEvents.rows)
    (hescalation : isEscalationOf auditRunId e = true) {run : AuditRunRow} (hrun : run ∈ db.auditRuns.rows)
    (hid : run.id = auditRunId) : e.id = escalationEventId sha256 run.accountId auditRunId := by
  rw [isEscalationOf, Bool.and_eq_true, beq_iff_eq, beq_iff_eq] at hescalation
  rcases hdb.events e he with ⟨hname, -⟩ | ⟨clientId', auditRunId', hold, gracePeriodDays, hhold, heid, hvalue⟩
  · exact absurd hescalation.1 hname
  · have hentity : e.entityId = some auditRunId' := by rw [hvalue]; rfl
    obtain rfl : auditRunId' = auditRunId := Option.some.inj (hentity.symm.trans hescalation.2)
    obtain ⟨hmem, haccount, hholdrun, -⟩ := selectDecision_some hhold
    obtain ⟨run', hrun', hid', haccount', -⟩ := hdb.consistent.decided hold hmem
    obtain rfl := KeyedTable.eq_of_key hrun' hrun (hid'.trans (hholdrun.trans hid.symm))
    rw [heid, haccount', haccount]

theorem Filed.escalatedOnce (hdb : Filed sha256 toISOString db) : EscalatedOnce db := by
  intro auditRunId
  cases hfilter : db.auditEvents.rows.filter (isEscalationOf auditRunId) with
  | nil => exact Nat.zero_le _
  | cons e rest =>
    obtain ⟨he, hescalation⟩ := List.mem_filter.mp (hfilter ▸ List.mem_cons_self : e ∈ _)
    have hrun : ∃ run ∈ db.auditRuns.rows, run.id = auditRunId := by
      rw [isEscalationOf, Bool.and_eq_true, beq_iff_eq, beq_iff_eq] at hescalation
      rcases hdb.events e he with ⟨hname, -⟩ | ⟨clientId', auditRunId', hold, gracePeriodDays, hhold, -, hvalue⟩
      · exact absurd hescalation.1 hname
      · have hentity : e.entityId = some auditRunId' := by rw [hvalue]; rfl
        obtain rfl : auditRunId' = auditRunId := Option.some.inj (hentity.symm.trans hescalation.2)
        obtain ⟨hmem, -, hholdrun, -⟩ := selectDecision_some hhold
        obtain ⟨run, hrun, hid, -⟩ := hdb.consistent.decided hold hmem
        exact ⟨run, hrun, hid.trans hholdrun⟩
    obtain ⟨run, hrun, hid⟩ := hrun
    have hone : db.auditEvents.rows.filter (isEscalationOf auditRunId) = [e] :=
      KeyedTable.filter_eq_singleton he hescalation fun e' he' hescalation' => by
        rw [hdb.id_of he' hescalation' hrun hid, hdb.id_of he hescalation hrun hid]
    rw [← hfilter, hone]
    exact Nat.le_refl 1

/-- The queue holds the runs with a hold and none of the three decisions. -/
theorem inQueue_iff (hdb : Consistent db) :
    InQueue db clientId auditRunId ↔ (∃ hold, selectDecision db clientId auditRunId .hold = some hold) ∧
      ∀ action ∈ resolvingActions, selectDecision db clientId auditRunId action = none := by
  rw [inQueue_iff_pending]
  constructor
  · intro hpage
    obtain ⟨hold, hmem, hpending, hid⟩ := hpage
    simp only [isPendingHold, Bool.and_eq_true, beq_iff_eq, Bool.not_eq_true'] at hpending
    obtain ⟨⟨⟨haccount, haction⟩, -⟩, hnone⟩ := hpending
    refine ⟨⟨hold, KeyedTable.find?_eq_some.mpr ⟨hmem, ?_⟩⟩, fun action haction => ?_⟩
    · rw [PaymentGateDecision.runAction, haccount, hid, haction]
    · by_contra hfound
      obtain ⟨d, hd⟩ := Option.ne_none_iff_exists'.mp hfound
      obtain ⟨hmem', haccount', hrun', rfl⟩ := selectDecision_some hd
      have hall := List.any_eq_false.mp hnone d hmem'
      simp only [Bool.and_eq_true, beq_iff_eq, List.contains_iff_mem] at hall
      exact hall ⟨⟨haccount', hrun'.trans hid.symm⟩, haction⟩
  · intro hunresolved
    obtain ⟨⟨hold, hhold⟩, hnone⟩ := hunresolved
    obtain ⟨hmem, haccount, hrun, haction⟩ := selectDecision_some hhold
    refine ⟨hold, hmem, ?_, hrun⟩
    obtain ⟨run, hrunmem, hid, hrunaccount, -⟩ := hdb.decided hold hmem
    have hselect : selectRun db clientId hold.auditRunId = some run :=
      selectRun_some.mpr ⟨hrunmem, hid, hrunaccount.trans haccount⟩
    simp only [isPendingHold, Bool.and_eq_true, beq_iff_eq, Bool.not_eq_true']
    refine ⟨⟨⟨haccount, haction⟩, by rw [hselect]; rfl⟩, List.any_eq_false.mpr fun d hd => ?_⟩
    simp only [Bool.and_eq_true, beq_iff_eq, List.contains_iff_mem]
    intro hresolved
    obtain ⟨⟨haccount', hrun'⟩, haction'⟩ := hresolved
    have hfound : selectDecision db clientId auditRunId d.action = some d :=
      KeyedTable.find?_eq_some.mpr ⟨hd, by rw [PaymentGateDecision.runAction, haccount', hrun', hrun]⟩
    rw [hnone d.action haction'] at hfound
    cases hfound

/-! ## One escalation -/

variable {tx : Transaction} {now gracePeriodDays : ℤ}

theorem escalation_of_unapproved {hold : PaymentGateDecision} (hhold : selectDecision db clientId auditRunId .hold = some hold)
    (happrove : selectDecision db clientId auditRunId .approve = none)
    (hdeadline : (graceDeadline hold.recordedAt gracePeriodDays).any (now < ·) = false) :
    generatePaymentEscalation sha256 toISOString tx db clientId auditRunId now gracePeriodDays =
      writeAuditEvent tx db (escalationEventId sha256 clientId auditRunId)
        (escalationEvidence toISOString clientId auditRunId hold.recordedAt gracePeriodDays) := by
  simp only [generatePaymentEscalation, hhold, happrove, hdeadline]
  rfl

theorem escalation_of_not_unapproved (sha256 : String → ℕ) (toISOString : ℤ → String) (tx : Transaction)
    (h : ¬ Unapproved db clientId auditRunId now gracePeriodDays) :
    ∃ code, generatePaymentEscalation sha256 toISOString tx db clientId auditRunId now gracePeriodDays =
      .error (.escalation code) := by
  unfold generatePaymentEscalation
  cases hhold : selectDecision db clientId auditRunId .hold with
  | none => exact ⟨_, rfl⟩
  | some hold =>
    cases happrove : selectDecision db clientId auditRunId .approve with
    | some d => exact ⟨_, rfl⟩
    | none =>
      cases hdeadline : (graceDeadline hold.recordedAt gracePeriodDays).any (now < ·) with
      | true =>
        simp only [hdeadline]
        exact ⟨_, rfl⟩
      | false => exact absurd ⟨hold, hhold, happrove, hdeadline⟩ h

theorem writeAuditEvent_new {id : ℕ} (tx : Transaction) (value : AuditEventEvidence) (h : db.auditEvents.find? id = none) :
    ∃ db', writeAuditEvent tx db id value = .ok (true, db') ∧ db'.decisions = db.decisions ∧
      db'.auditEvents.rows = db.auditEvents.rows ++ [{ value with id := id, recordedAt := tx.startedAt.toNat }] := by
  obtain ⟨auditEvents, hinsert⟩ := KeyedTable.insert_fresh (t := db.auditEvents)
    (a := { value with id := id, recordedAt := tx.startedAt.toNat }) h
  refine ⟨{ db with auditEvents }, ?_, rfl, (KeyedTable.insert_eq_some hinsert).2⟩
  rw [writeAuditEvent, h]
  simp only [hinsert, orViolates]
  rfl

/-- Two events of one escalation are the same if they state one grace period. -/
theorem sameEvidence_iff {heldAt g g' : ℤ} :
    sameEvidence (escalationEvidence toISOString clientId auditRunId heldAt g')
      (escalationEvidence toISOString clientId auditRunId heldAt g) = true ↔ g' = g := by
  constructor
  · intro h
    simp only [sameEvidence, Bool.and_eq_true, beq_iff_eq] at h
    have htext := Option.some.inj h.2
    have hnumber := Json.value_eq "gracePeriodDays" (Json.canonicalText_inj.mp htext) rfl rfl
    exact numberOfDays_injective (Json.Value.num.inj hnumber)
  · intro h
    rw [h]
    simp [sameEvidence]

theorem gracePeriodOf_escalation {heldAt g : ℤ} :
    gracePeriodOf (escalationEvidence toISOString clientId auditRunId heldAt g) = some (.num (numberOfDays g)) := rfl

/-- The event under the run's id, if there is one, decides whether an unapproved run's escalation goes through. -/
theorem Filed.confirms_iff (hsha : Function.Injective sha256) (hdb : Filed sha256 toISOString db) (tx : Transaction)
    (h : Unapproved db clientId auditRunId now gracePeriodDays) :
    (Confirms sha256 toISOString tx db clientId auditRunId now gracePeriodDays ↔
        generatePaymentEscalation sha256 toISOString tx db clientId auditRunId now gracePeriodDays ≠ .error .auditEventConflict) ∧
      (generatePaymentEscalation sha256 toISOString tx db clientId auditRunId now gracePeriodDays ≠ .error .auditEventConflict ↔
        ∀ e ∈ db.auditEvents.rows, isEscalationOf auditRunId e = true →
          gracePeriodOf e.toAuditEventEvidence = some (.num (numberOfDays gracePeriodDays))) := by
  obtain ⟨hold, hhold, happrove, hdeadline⟩ := h
  obtain ⟨hmem, haccount, hrun, -⟩ := selectDecision_some hhold
  obtain ⟨run, hrunmem, hrunid, hrunaccount, -⟩ := hdb.consistent.decided hold hmem
  rw [Confirms, escalation_of_unapproved hhold happrove hdeadline]
  cases hfound : db.auditEvents.find? (escalationEventId sha256 clientId auditRunId) with
  | none =>
    obtain ⟨db', hwrite, -, hrows⟩ := writeAuditEvent_new tx
      (escalationEvidence toISOString clientId auditRunId hold.recordedAt gracePeriodDays) hfound
    rw [hwrite]
    refine ⟨iff_of_true ⟨true, db', rfl, _, hrows ▸ List.mem_append_right _ (List.mem_singleton_self _), rfl, ?_⟩ ?_,
      iff_of_true ?_ fun e he hescalation => ?_⟩
    · simp [isEscalationOf, escalationEvidence, decisionEvent]
    · exact fun hcases => by cases hcases
    · exact fun hcases => by cases hcases
    · have hid := hdb.id_of he hescalation hrunmem (hrunid.trans hrun)
      rw [hrunaccount, haccount] at hid
      exact absurd hid (KeyedTable.find?_eq_none.mp hfound e he)
  | some row =>
    obtain ⟨hrow, hid⟩ := KeyedTable.find?_sound hfound
    obtain ⟨hold', g, hhold', hvalue⟩ := hdb.of_id hsha hrow hid
    obtain rfl : hold' = hold := Option.some.inj (hhold'.symm.trans hhold)
    have hescalation : isEscalationOf auditRunId row = true := by
      rw [isEscalationOf, hvalue]
      simp [escalationEvidence, decisionEvent]
    by_cases hg : g = gracePeriodDays
    · have hwrite : writeAuditEvent tx db (escalationEventId sha256 clientId auditRunId)
          (escalationEvidence toISOString clientId auditRunId hold'.recordedAt gracePeriodDays) = .ok (false, db) := by
        rw [writeAuditEvent, hfound]
        exact if_pos (by rw [hvalue]; exact sameEvidence_iff.mpr hg)
      rw [hwrite]
      refine ⟨iff_of_true ⟨false, db, rfl, row, hrow, by rw [hvalue]; rfl, hescalation⟩ ?_, iff_of_true ?_ fun e he hof => ?_⟩
      · exact fun hcases => by cases hcases
      · exact fun hcases => by cases hcases
      · have heid := hdb.id_of he hof hrunmem (hrunid.trans hrun)
        rw [hrunaccount, haccount] at heid
        obtain rfl := KeyedTable.eq_of_key he hrow (heid.trans hid.symm)
        rw [hvalue, gracePeriodOf_escalation, hg]
    · have hwrite : writeAuditEvent tx db (escalationEventId sha256 clientId auditRunId)
          (escalationEvidence toISOString clientId auditRunId hold'.recordedAt gracePeriodDays) = .error .auditEventConflict := by
        rw [writeAuditEvent, hfound]
        exact if_neg (by rw [hvalue]; exact fun h => hg (sameEvidence_iff.mp h))
      rw [hwrite]
      have hrefused : ¬ ∃ created db', (Except.error PaymentError.auditEventConflict : Except PaymentError (Bool × PaymentDb)) =
          .ok (created, db') ∧ ∃ e ∈ db'.auditEvents.rows, e.clientId = some clientId ∧ isEscalationOf auditRunId e = true := by
        intro hconfirms
        obtain ⟨created, db', hok, -⟩ := hconfirms
        cases hok
      refine ⟨iff_of_false hrefused fun h => h rfl, iff_of_false (fun h => h rfl) fun hall => hg ?_⟩
      have hgrace := hall row hrow hescalation
      rw [hvalue, gracePeriodOf_escalation] at hgrace
      exact numberOfDays_injective (Json.Value.num.inj (Option.some.inj hgrace))

/-- A run in the queue whose hold is old enough is one that the escalation goes on with. -/
theorem unapproved_of_heldFor (hqueue : InQueue db clientId auditRunId) (hdb : Consistent db)
    (hheld : HeldFor db clientId auditRunId now gracePeriodDays) : Unapproved db clientId auditRunId now gracePeriodDays := by
  obtain ⟨-, hnone⟩ := (inQueue_iff hdb).mp hqueue
  obtain ⟨hold, hhold, hle⟩ := hheld
  refine ⟨hold, hhold, hnone .approve (by decide), ?_⟩
  rw [graceDeadline]
  split
  · rw [Option.any_some]
    exact decide_eq_false (by omega)
  · rfl

end

section

variable {D : Type} [Decimal D] {unicode : Unicode} {sha256 : String → ℕ} {toISOString : ℤ → String} {db db' : PaymentDb}
  {e : Transaction × GateCall}

theorem Filed.step (hdb : Filed sha256 toISOString db) (h : gateStep D unicode sha256 toISOString db e = some db') :
    Filed sha256 toISOString db' ∧ db.decisions.rows <+: db'.decisions.rows := by
  rcases gateStep_cases h with hrun | ⟨-, rfl⟩
  · have hconsistent := GateCall.consistent hdb.consistent hrun
    by_cases hother : ∀ clientId auditRunId now gracePeriodDays,
        e.2 ≠ .payment (.generatePaymentEscalation clientId auditRunId now gracePeriodDays)
    · have hquiet := GateCall.quiet hother hrun
      exact ⟨hdb.quiet hconsistent hquiet, hquiet.decisions⟩
    · simp only [not_forall, not_not] at hother
      obtain ⟨clientId, auditRunId, now, gracePeriodDays, hcall⟩ := hother
      rw [hcall] at hrun
      simp only [GateCall.run, PaymentCall.run, bind_eq_ok, pure_eq_ok, Prod.exists] at hrun
      obtain ⟨created, db₁, hcall, rfl⟩ := hrun
      by_cases hun : Unapproved db clientId auditRunId now gracePeriodDays
      · obtain ⟨hold, hhold, happrove, hdeadline⟩ := hun
        rw [escalation_of_unapproved hhold happrove hdeadline] at hcall
        cases hfound : db.auditEvents.find? (escalationEventId sha256 clientId auditRunId) with
        | none =>
          obtain ⟨db₂, hwrite, hdecisions, hrows⟩ := writeAuditEvent_new e.1
            (escalationEvidence toISOString clientId auditRunId hold.recordedAt gracePeriodDays) hfound
          rw [hwrite] at hcall
          obtain ⟨-, rfl⟩ := Prod.mk.inj (Except.ok.inj hcall)
          have hprefix : db.decisions.rows <+: db₂.decisions.rows := by rw [hdecisions]
          refine ⟨⟨hconsistent, fun ev hev => ?_⟩, hprefix⟩
          rw [hrows] at hev
          rcases List.mem_append.mp hev with hold' | hnew
          · exact (hdb.events ev hold').imp_right (EscalationEvent.of_prefix hprefix)
          · rw [List.mem_singleton.mp hnew]
            exact .inr ⟨clientId, auditRunId, hold, gracePeriodDays, selectDecision_of_prefix hprefix hhold, rfl, rfl⟩
        | some row =>
          rw [writeAuditEvent, hfound] at hcall
          simp only at hcall
          split at hcall
          · obtain ⟨-, rfl⟩ := Prod.mk.inj (Except.ok.inj hcall)
            exact ⟨hdb, List.prefix_rfl⟩
          · cases hcall
      · obtain ⟨code, herror⟩ := escalation_of_not_unapproved sha256 toISOString e.1 hun
        rw [herror] at hcall
        cases hcall
  · exact ⟨hdb, List.prefix_rfl⟩

theorem Filed.exact (hsha : Function.Injective sha256) (hdb : Filed sha256 toISOString db) :
    EscalatesExactly D unicode sha256 toISOString db e ↔ InOrder db e := by
  have hkept : ∀ db', gateStep D unicode sha256 toISOString db e = some db' → db.decisions.rows <+: db'.decisions.rows :=
    fun db' h => (hdb.step h).2
  unfold EscalatesExactly InOrder
  rw [and_iff_right hkept]
  split
  · rename_i clientId auditRunId now gracePeriodDays hcall
    by_cases hun : Unapproved db clientId auditRunId now gracePeriodDays
    · obtain ⟨hconfirms, hgrace⟩ := hdb.confirms_iff hsha e.1 hun
      obtain ⟨hold, hhold, happrove, -⟩ := id hun
      have hqueue : InQueue db clientId auditRunId ↔ selectDecision db clientId auditRunId .short_pay = none ∧
          selectDecision db clientId auditRunId .do_not_pay = none := by
        rw [inQueue_iff hdb.consistent, and_iff_right ⟨hold, hhold⟩]
        simp [resolvingActions, happrove]
      rw [hconfirms, forall_prop_of_true hun, hqueue, hgrace]
      tauto
    · obtain ⟨code, herror⟩ := escalation_of_not_unapproved sha256 toISOString e.1 hun
      refine iff_of_true ⟨iff_of_false (fun hc => ?_) fun hqueue => ?_, ?_⟩ fun h => absurd h hun
      · obtain ⟨created, db', hok, -⟩ := hc
        rw [herror] at hok
        cases hok
      · exact hun (unapproved_of_heldFor hqueue.1 hdb.consistent hqueue.2)
      · rw [herror]
        exact fun hcases => by cases hcases
  · rfl

/-- Holds are escalated exactly while they are pending, once each, throughout a run of calls exactly if each call
on an unapproved run finds it neither short-paid nor refused, held for the grace period, and not escalated before
with another grace period. -/
theorem escalatesExactly_iff (D : Type) [Decimal D] (unicode : Unicode) (hsha : Function.Injective sha256)
    (toISOString : ℤ → String) (criterionKeys : List String) (events : List (Transaction × GateCall)) :
    Runs.AllStates (gateStep D unicode sha256 toISOString) EscalatedOnce (.initial criterionKeys) events ∧
        Runs.AllSteps (gateStep D unicode sha256 toISOString) (EscalatesExactly D unicode sha256 toISOString)
          (.initial criterionKeys) events ↔
      Runs.AllSteps (gateStep D unicode sha256 toISOString) InOrder (.initial criterionKeys) events := by
  have hstart : Filed sha256 toISOString (.initial criterionKeys) :=
    ⟨consistent_initial criterionKeys, fun e he => absurd he List.not_mem_nil⟩
  refine Runs.allStates_and_allSteps_iff (Filed sha256 toISOString) (fun _ _ _ hdb h => (hdb.step h).1) ?_ events _ hstart
    hstart.escalatedOnce
  intro db e db' hdb _ hstep
  rw [and_iff_right (hdb.step hstep).1.escalatedOnce]
  exact hdb.exact hsha

end

/-- An invoice with one charge, which is overcharged. -/
def overcharged : PersistInput where
  clientId := 1
  invoice := ⟨.edi210, "210/1", some "INV-7", none, none, none, none, none, some "USD",
    [⟨some "400", none, some "LINEHAUL", false, some "1500.0000", "USD", none, none, none, none⟩], none, []⟩
  result := ⟨.SCORED, [], [⟨"CONTRACT.RATE_VARIANCE", .VARIANCE, .leaf (.fact "billed_linehaul") (.bool false),
    some "100.0000", some "USD", .OVERCHARGE⟩], none, [], ⟨"210/1", "1", "h"⟩⟩

/-- A week in milliseconds. -/
def weekLater : ℤ := 7 * millisecondsPerDay

/-- Held, and escalated after a week, and again. -/
def heldForAWeek : List (Transaction × GateCall) :=
  [(⟨0, fun n => 10 + n⟩, .payment (.persistAuditRun overcharged)),
    (⟨weekLater, fun n => 20 + n⟩, .payment (.generatePaymentEscalation 1 10 weekLater 7)),
    (⟨weekLater + 1, fun n => 30 + n⟩, .payment (.generatePaymentEscalation 1 10 (weekLater + 1) 7))]

theorem heldForAWeek_escalated :
    Runs.AllStates (gateStep DecimalJs.Ref .ascii Claims.textCode toString) EscalatedOnce
        (.initial ["CONTRACT.RATE_VARIANCE"]) heldForAWeek ∧
      Runs.AllSteps (gateStep DecimalJs.Ref .ascii Claims.textCode toString)
        (EscalatesExactly DecimalJs.Ref .ascii Claims.textCode toString) (.initial ["CONTRACT.RATE_VARIANCE"]) heldForAWeek :=
  (escalatesExactly_iff DecimalJs.Ref .ascii Claims.textCode_injective toString ["CONTRACT.RATE_VARIANCE"] heldForAWeek).mpr
    (by decide +kernel)

/-- Held, short-paid, and escalated after a week. -/
def shortPaid : List (Transaction × GateCall) :=
  [(⟨0, fun n => 10 + n⟩, .payment (.persistAuditRun overcharged)),
    (⟨1, fun n => 20 + n⟩, .payment (.updateFindingStatus 10 .accepted)),
    (⟨2, fun n => 30 + n⟩, .payment (.generateShortPayDecision 1 10 true)),
    (⟨weekLater, fun n => 40 + n⟩, .payment (.generatePaymentEscalation 1 10 weekLater 7))]

theorem shortPaid_escalated :
    ¬ (Runs.AllStates (gateStep DecimalJs.Ref .ascii Claims.textCode toString) EscalatedOnce
        (.initial ["CONTRACT.RATE_VARIANCE"]) shortPaid ∧
      Runs.AllSteps (gateStep DecimalJs.Ref .ascii Claims.textCode toString)
        (EscalatesExactly DecimalJs.Ref .ascii Claims.textCode toString) (.initial ["CONTRACT.RATE_VARIANCE"]) shortPaid) := by
  intro hboth
  obtain ⟨-, hsteps⟩ := hboth
  have hstart : Filed Claims.textCode toString (.initial ["CONTRACT.RATE_VARIANCE"]) :=
    ⟨consistent_initial _, fun e he => absurd he List.not_mem_nil⟩
  have horder := (Runs.allSteps_iff (Filed Claims.textCode toString) (fun _ _ _ hdb h => (hdb.step h).1)
    (fun _ _ _ hdb _ => hdb.exact Claims.textCode_injective) shortPaid _ hstart).mp hsteps
  revert horder
  decide +kernel

end Payments
