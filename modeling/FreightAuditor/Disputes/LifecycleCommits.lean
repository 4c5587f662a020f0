import FreightAuditor.Disputes.DisputeLifecycle
import FreightAuditor.Disputes.OneDispute

/- What each commit does to the lifecycles of disputes.

   A change of a finding and a creation write no step of a dispute (`Quiet`). An approval
   and a response hold the dispute's row from the moment they find it in a status that
   allows the step, so that its event cannot be there yet and its delivery neither. -/
namespace Disputes

open Claims (Amount AuditEvent AuditEventEvidence VarianceStatus amountFormat amountFormat_stored textNumber)
open DecimalJs PgNumeric ReadCommitted

/-! ## Findings and creations -/

/-- A write that is no step of a dispute. -/
def DisputeWrite.Quiet : DisputeWrite → Prop
  | .insertAuditEvent e => ¬ IsTransition e
  | .insertDispute _ | .insertDisputeLine _ | .updateFindingStatus .. | .insertFindingStatusEvent _ => True
  | _ => False

abbrev QuietCov (_ : List LockKey) (w : DisputeWrite) : Prop := w.Quiet

section quiet

variable {D : Type} [Decimal D] {sha256 : String → ℕ} {toISOString : ℤ → String} {tx startedAt : ℕ}

theorem writeAuditEvent_quiet {id : ℕ} {value : AuditEventEvidence}
    (h : ¬ (value.entity = "dispute" ∧ value.event ∈ transitionEvents)) :
    Covered QuietCov (writeAuditEvent startedAt id value) := by
  refine covered_exec (fun db created ws hf w hw => ?_)
  split at hf
  · obtain ⟨-, rfl⟩ := Prod.mk.inj (Except.ok.inj hf)
    obtain rfl := List.mem_singleton.mp hw
    exact h
  · split at hf
    · obtain ⟨-, rfl⟩ := Prod.mk.inj (Except.ok.inj hf)
      cases hw
    · cases hf

theorem updateFindingStatus_quiet {clientId findingId statusEventId : ℕ} {status : VarianceStatus}
    {note : Option String} {actor : Option ℕ} :
    Covered QuietCov (updateFindingStatus sha256 startedAt clientId findingId status note actor statusEventId) := by
  refine covered_bind covered_query (fun old => ?_)
  cases old with
  | none => exact covered_pure
  | some old =>
    refine covered_bind (covered_exec fun db r ws hf w hw => ?_) (fun _ =>
      covered_bind (writeAuditEvent_quiet fun h => absurd h.1 (show "variance_finding" ≠ "dispute" by decide))
        fun _ => covered_pure)
    obtain ⟨-, rfl⟩ := Prod.mk.inj (Except.ok.inj hf)
    simp only [List.mem_cons, List.not_mem_nil, or_false] at hw
    obtain rfl | rfl := hw <;> trivial

theorem createDisputeFromFindings_quiet {input : CreateDisputeInput} :
    Covered QuietCov (createDisputeFromFindings sha256 D tx startedAt input) := by
  rw [createDisputeFromFindings]
  split
  · trivial
  have hlock (findingId : ℕ) : Covered QuietCov (lockFinding input.clientId findingId) := by
    refine covered_exec (fun db r ws hf w hw => ?_)
    obtain ⟨-, rfl⟩ := Prod.mk.inj (Except.ok.inj hf)
    cases hw
  have hinsert (v : ValidatedDispute) : Covered QuietCov (insertDispute (newId tx 0) input.clientId v) := by
    refine covered_exec (fun db r ws hf w hw => ?_)
    simp only [ExceptOk.bind_eq_ok, ExceptOk.throw_bind, ExceptOk.ite_throw_eq_ok, ExceptOk.pure_eq_ok,
      Prod.mk.injEq] at hf
    obtain ⟨n, -, -, -, -, rfl⟩ := hf
    obtain rfl := List.mem_singleton.mp hw
    trivial
  have hline (row : DisputeLine) : Covered QuietCov (insertDisputeLine row) := by
    refine covered_exec (fun db r ws hf w hw => ?_)
    simp only [ExceptOk.throw_bind, ExceptOk.ite_throw_eq_ok, ExceptOk.pure_eq_ok, Prod.mk.injEq] at hf
    obtain ⟨-, -, rfl⟩ := hf
    obtain rfl := List.mem_singleton.mp hw
    trivial
  have hinclude (disputeId : ℕ) (entry : VarianceFinding × ℕ) :
      Covered QuietCov (includeFinding sha256 tx startedAt input.clientId disputeId input.actorUserId entry) :=
    covered_bind (hline _) fun _ => covered_bind updateFindingStatus_quiet fun _ => covered_pure
  refine covered_bind (covered_bind (covered_forM fun id _ => hlock id) fun _ => covered_query) fun rows => ?_
  refine covered_ofExcept fun v _ => covered_bind (hinsert v) fun disputeId => ?_
  exact covered_bind (covered_forM fun entry _ => hinclude disputeId entry) fun _ =>
    covered_bind (writeAuditEvent_quiet fun h => absurd h.2 (show "dispute.created" ∉ transitionEvents by decide))
      fun _ => covered_pure

theorem body_quiet {call : DisputeCall} (h : ¬ call.OnDispute) :
    Covered QuietCov (call.body sha256 D toISOString tx startedAt) := by
  cases call with
  | createDisputeFromFindings input => exact covered_bind createDisputeFromFindings_quiet fun _ => covered_pure
  | applyFindingAction clientId findingId action note actorUserId =>
    exact covered_bind updateFindingStatus_quiet fun _ => covered_pure
  | patchFindingStatus clientId findingId status note actorUserId =>
    refine covered_bind ?_ fun _ => covered_pure
    rw [patchFindingStatus]
    split
    · trivial
    · exact updateFindingStatus_quiet
  | _ => exact absurd trivial h

theorem quiet_writes {call : DisputeCall} {r : DisputeResult} {log : Log DisputeDb DisputeWrite LockKey}
    (hends : Ends apply ((disputesSystem sha256 D toISOString).body call tx startedAt) .empty r log)
    (h : ¬ call.OnDispute) : ∀ w ∈ log.writes, w.Quiet :=
  (body_quiet h).ends (fun _ _ _ _ hw => hw) hends (fun _ hw => absurd hw List.not_mem_nil)

end quiet

section

variable {initial : KeyedTable VarianceFinding VarianceFinding.id} {db db' : DisputeDb} {ws : List DisputeWrite}

/-- The steps among some audit events. -/
def stepsIn (events : List AuditEvent) (disputeId : ℕ) : List String :=
  (events.filter fun e => IsTransition e ∧ e.entityId = some disputeId).map (·.event)

theorem transitionsOf_view (db : DisputeDb) (ws : List DisputeWrite) (id : ℕ) :
    (view apply db ws).transitionsOf id =
      db.transitionsOf id ++ stepsIn (ws.filterMap DisputeWrite.auditEvent?) id := by
  rw [DisputeDb.transitionsOf, view_auditEvents, List.filter_append, List.map_append]
  rfl

theorem stepsIn_nil (ws : List DisputeWrite) (h : ∀ w ∈ ws, ∀ e ∈ w.auditEvent?, ¬ IsTransition e) (id : ℕ) :
    stepsIn (ws.filterMap DisputeWrite.auditEvent?) id = [] := by
  rw [stepsIn, List.map_eq_nil_iff, List.filter_eq_nil_iff]
  intro e he
  obtain ⟨w, hw, hwe⟩ := List.mem_filterMap.mp he
  simp [h w hw e hwe]

/-- Disputes that appear are drafts. -/
theorem LifeInv.drafted (h : LifeInv initial db) (hof : FindingsOf initial db') (new : Option Dispute)
    (hdisputes : db'.disputes = db.disputes ++ new.toList)
    (hnew : ∀ d ∈ new, d.status = .draft ∧ d.acceptedAmount = none ∧ d.amountClaimed.isSome ∧
      ∀ d' ∈ db.disputes, d'.id ≠ d.id)
    (htransitions : ∀ id, db'.transitionsOf id = db.transitionsOf id)
    (hinstances : db'.workflowInstances = db.workflowInstances)
    (hcommands : db'.workflowCommands = db.workflowCommands) : LifeInv initial db' ∧ Moves db db' := by
  have hdeliveries (id : ℕ) : db'.deliveriesOf id = db.deliveriesOf id := by
    rw [DisputeDb.deliveriesOf, hcommands]
    rfl
  have hmem : ∀ d', d' ∈ db'.disputes ↔ d' ∈ db.disputes ∨ d' ∈ new := by
    intro d'
    rw [hdisputes, List.mem_append, Option.mem_toList]
    exact Iff.rfl
  have hsettled : ∀ d, Settled db d → Settled db' d := fun d hd =>
    ⟨htransitions d.id ▸ hd.path, htransitions d.id ▸ hd.acceptedAmount, hd.within,
      by rw [hdeliveries, htransitions]; exact hd.delivery⟩
  constructor
  · refine ⟨hof, ?_, fun d' hd' => ?_, fun d' hd' => ?_, fun id hid => ?_, fun id hid => ?_, fun i hi => ?_, ?_⟩
    · rw [hdisputes, List.map_append]
      cases new with
      | none => simpa using h.unique
      | some d =>
        obtain ⟨-, -, -, hfresh⟩ := hnew d rfl
        rw [List.nodup_append]
        refine ⟨h.unique, by simp, fun a ha b hb hab => ?_⟩
        obtain ⟨d', hd', rfl⟩ := List.mem_map.mp ha
        obtain rfl := List.mem_singleton.mp hb
        exact hfresh d' hd' hab
    · obtain hold | hd' := (hmem d').mp hd'
      · exact hsettled d' (h.settled d' hold)
      · -- a new dispute has no rows yet
        obtain ⟨hstatus, haccepted, -, hfresh⟩ := hnew d' hd'
        have hnone : db.transitionsOf d'.id = [] := by
          by_contra hne
          obtain ⟨d, hd, hid⟩ := h.transitions _ hne
          exact hfresh d hd hid
        have hnodelivery : db.deliveriesOf d'.id = [] := by
          by_contra hne
          obtain ⟨d, hd, hid⟩ := h.deliveries _ hne
          exact hfresh d hd hid
        refine ⟨?_, ?_, ?_, ?_⟩
        · rw [htransitions, hnone, hstatus]
          rfl
        · rw [htransitions, hnone, haccepted]
          simp
        · rw [haccepted]
          simp
        · rw [hdeliveries, hnodelivery, htransitions, hnone]
          simp
    · obtain hold | hd' := (hmem d').mp hd'
      · exact h.claimed d' hold
      · exact (hnew d' hd').2.2.1
    · rw [htransitions] at hid
      obtain ⟨d, hd, hdid⟩ := h.transitions id hid
      exact ⟨d, (hmem d).mpr (.inl hd), hdid⟩
    · rw [hdeliveries] at hid
      obtain ⟨d, hd, hdid⟩ := h.deliveries id hid
      exact ⟨d, (hmem d).mpr (.inl hd), hdid⟩
    · rw [hinstances] at hi
      obtain ⟨d, hd, hdid⟩ := h.instances i hi
      exact ⟨d, (hmem d).mpr (.inl hd), hdid⟩
    · rw [hcommands, hinstances]
      exact h.commands
  · constructor
    · exact fun d hd => ⟨d, (hmem d).mpr (.inl hd), rfl, .inl ⟨rfl, htransitions d.id⟩⟩
    · intro d' hd'
      obtain hold | hd' := (hmem d').mp hd'
      · exact .inl ⟨d', hold, rfl⟩
      · exact .inr (hnew d' hd').1

theorem quiet_view (db : DisputeDb) (hquiet : ∀ w ∈ ws, w.Quiet) :
    (∀ id, (view apply db ws).transitionsOf id = db.transitionsOf id) ∧
      (view apply db ws).workflowInstances = db.workflowInstances ∧
      (view apply db ws).workflowCommands = db.workflowCommands := by
  refine ⟨fun id => ?_, ?_, ?_⟩
  · rw [transitionsOf_view, stepsIn_nil, List.append_nil]
    intro w hw e he
    have hq := hquiet w hw
    cases w with
    | insertAuditEvent row =>
      obtain rfl := Option.some.inj he
      exact hq
    | _ => cases he
  · rw [view_workflowInstances, List.filterMap_eq_nil_iff.mpr, List.append_nil]
    intro w hw
    have hq := hquiet w hw
    cases w with
    | insertWorkflowInstance row => exact hq.elim
    | _ => rfl
  · rw [view_workflowCommands, List.filterMap_eq_nil_iff.mpr, List.append_nil]
    intro w hw
    have hq := hquiet w hw
    cases w with
    | insertWorkflowCommand row => exact hq.elim
    | _ => rfl

/-- An analyst's change leaves the disputes. -/
theorem statusChange_disputes (db : DisputeDb) {D : Type} [Decimal D] {sha256 : String → ℕ} {toISOString : ℤ → String}
    {tx startedAt : ℕ} {call : DisputeCall} {change : StatusChange} {r : DisputeResult}
    {log : Log DisputeDb DisputeWrite LockKey} (hcall : call.statusChange? = some change)
    (hends : Ends apply ((disputesSystem sha256 D toISOString).body call tx startedAt) .empty r log) :
    (view apply db log.writes).disputes = db.disputes := by
  have hmain := congrArg DisputeDb.disputes (main_view db log.writes)
  obtain ⟨snapshot, rest, -, ⟨-, hwrites⟩ | ⟨old, -, hwrites⟩⟩ := statusChange_ends hcall hends
  · rw [hwrites] at hmain
    exact hmain
  · rw [hwrites] at hmain
    exact hmain

/-! ## Steps -/

/-- A dispute whose row is locked is the same in what was seen under the lock. -/
theorem locked_dispute {s : DisputeDb} {held : List LockKey} {d : Dispute} (hsince : Since held s db)
    (hlock : .dispute d.id ∈ held) : d ∈ s.disputes ↔ d ∈ db.disputes := by
  have hsame : db.disputes.filter (·.id = d.id) = s.disputes.filter (·.id = d.id) := hsince.same (.dispute d.id) hlock
  have hmem : d ∈ db.disputes.filter (·.id = d.id) ↔ d ∈ s.disputes.filter (·.id = d.id) := by rw [hsame]
  simpa using hmem.symm

/-- What a transaction may write after a step. -/
def DisputeWrite.Side : DisputeWrite → Prop
  | .insertAuditEvent e => ¬ IsTransition e
  | .insertWorkflowInstance _ | .insertWorkflowCommand _ => True
  | _ => False

theorem view_disputes_side (h : ∀ w ∈ ws, w.isAudit = true ∨ w.Side) :
    (view apply db ws).disputes = db.disputes := by
  induction ws generalizing db with
  | nil => rfl
  | cons w ws ih =>
    rw [view_cons, ih fun v hv => h v (List.mem_cons_of_mem _ hv)]
    cases w with
    | insertAuditEvent row => rfl
    | insertWorkflowInstance row => rfl
    | insertWorkflowCommand row => rfl
    | _ =>
      obtain h | h := h _ List.mem_cons_self
      · cases h
      · exact h.elim

variable {clientId disputeId : ℕ} {fromStatuses : List DisputeStatus} {toStatus : DisputeStatus} {event : String}
  {amount : Option Amount} {log : Log DisputeDb DisputeWrite LockKey} {rest : List DisputeWrite}

/-- A finished step, at its commit. -/
theorem Transitioned.moved (run : Transitioned clientId disputeId fromStatuses toStatus event amount log rest)
    (hinv : LifeInv initial db) (hseen : ∀ p ∈ log.seen, LifeInv initial p.1 ∧ Since p.2 p.1 db)
    (hevent : event ∈ transitionEvents) (hedge : ∀ status ∈ fromStatuses, Edge status event toStatus)
    (hamount : amount.isSome ↔ event = "dispute.partially_accepted")
    (hwithin : ∀ accepted ∈ amount, ∃ claimed ∈ run.row.amountClaimed, accepted.units ≤ claimed.units)
    (hrest : ∀ w ∈ rest, w.Side)
    (hdeliveries : ∀ id, ((rest.filterMap DisputeWrite.workflowCommand?).filter fun c =>
      c.commandType = DELIVER_DISPUTE_COMMAND_TYPE ∧ c.disputeId = id).length =
        if id = disputeId ∧ event = "dispute.approved" then 1 else 0)
    (hinstances : ∀ i ∈ rest.filterMap DisputeWrite.workflowInstance?, i.subjectEntityId = disputeId)
    (hcommands : ∀ c ∈ rest.filterMap DisputeWrite.workflowCommand?,
      ∃ i ∈ rest.filterMap DisputeWrite.workflowInstance?, i.id = c.workflowInstanceId) :
    Moved db (view apply db log.writes) run.row event toStatus amount := by
  obtain ⟨hrow, -, hid, hstatus⟩ := findDispute_id run.found
  have hmem : run.row ∈ db.disputes :=
    (locked_dispute (hseen _ run.seen).2 (by simp [hid])).mp hrow
  have hedge := hedge _ hstatus
  -- the event cannot have been there: the row has not taken the step
  have hwritten : ∃ e, run.events = [.insertAuditEvent e] ∧ IsTransition e ∧ e.entityId = some disputeId ∧
      e.event = event := by
    obtain ⟨e, hevents, hentity, hentityId, hname⟩ | ⟨-, e, he, hentity, hentityId, hname⟩ := run.written
    · exact ⟨e, hevents, ⟨hentity, hname ▸ hevent⟩, hentityId, hname⟩
    · obtain ⟨hthen, hsince⟩ := hseen _ run.seen_event
      have hrowThen : run.row ∈ run.eventDb.disputes := (locked_dispute hsince (by rw [hid]; exact run.locked)).mpr hmem
      have hfresh := (hedge.path (hthen.settled _ hrowThen).path).1
      have hstep : e.event ∈ run.eventDb.transitionsOf run.row.id :=
        List.mem_map_of_mem (List.mem_filter.mpr ⟨he, by simp [IsTransition, hentity, hentityId, hname, hevent, hid]⟩)
      obtain ⟨steps, hsteps⟩ : ∃ steps, run.eventDb.transitionsOf run.row.id = steps := ⟨_, rfl⟩
      simp only [hsteps] at hfresh hstep
      rw [hname] at hstep
      exact absurd hstep hfresh
  obtain ⟨e, hevents, htransition, hentityId, hname⟩ := hwritten
  have hwrites : log.writes = .updateDispute disputeId toStatus amount :: .insertAuditEvent e :: rest := by
    rw [run.writes, hevents]
    rfl
  have hnoCommand : log.writes.filterMap DisputeWrite.workflowCommand? = rest.filterMap DisputeWrite.workflowCommand? := by
    rw [hwrites]
    rfl
  have hnoInstance : log.writes.filterMap DisputeWrite.workflowInstance? =
      rest.filterMap DisputeWrite.workflowInstance? := by
    rw [hwrites]
    rfl
  refine ⟨hmem, hedge, ?_, fun id => ?_, hamount, hwithin, fun id => ?_, fun i hi => ?_, fun c hc => ?_⟩
  · rw [hwrites, view_cons, view_cons, view_disputes_side fun w hw => .inr (hrest w hw), hid]
    rfl
  · rw [transitionsOf_view, hwrites]
    have hnone := stepsIn_nil rest (fun w hw f hf => by
      have hside := hrest w hw
      cases w with
      | insertAuditEvent row =>
        obtain rfl := Option.some.inj hf
        exact hside
      | _ => cases hf) id
    congr 1
    change stepsIn (e :: rest.filterMap DisputeWrite.auditEvent?) id = _
    rw [stepsIn, List.filter_cons]
    by_cases hsame : id = run.row.id
    · have hcond : decide (IsTransition e ∧ e.entityId = some id) = true := by
        simp [htransition, hentityId, hsame, hid]
      rw [if_pos hcond, if_pos hsame, List.map_cons, hname]
      exact congrArg _ hnone
    · have hcond : ¬ decide (IsTransition e ∧ e.entityId = some id) = true := by
        simp [hentityId, ← hid, Ne.symm hsame]
      rw [if_neg hcond, if_neg hsame]
      exact hnone
  · rw [DisputeDb.deliveriesOf, view_workflowCommands, List.filter_append, List.length_append, hnoCommand,
      hdeliveries, hid]
    rfl
  · rw [view_workflowInstances, hnoInstance, List.mem_append] at hi
    obtain hold | hnew := hi
    · exact .inl hold
    · exact .inr ((hinstances i hnew).trans hid.symm)
  · rw [view_workflowCommands, hnoCommand, List.mem_append] at hc
    rw [view_workflowInstances, hnoInstance]
    obtain hold | hnew := hc
    · obtain ⟨i, hi, hci⟩ := hinv.commands c hold
      exact ⟨i, List.mem_append_left _ hi, hci⟩
    · obtain ⟨i, hi, hci⟩ := hcommands c hnew
      exact ⟨i, List.mem_append_right _ hi, hci⟩

end

/-! ## Commits -/

section

variable {D : Type} [Decimal D] {sha256 : String → ℕ} {toISOString : ℤ → String} {tx startedAt : ℕ}
  {initial : KeyedTable VarianceFinding VarianceFinding.id} {db : DisputeDb} {call : DisputeCall}
  {log : Log DisputeDb DisputeWrite LockKey} {r : DisputeResult}

/-- An amount that passes is stored, and is at most what the dispute claims. -/
theorem checkAcceptedAmount_ok {text : String} {row : Dispute} (h : checkAcceptedAmount D text row = .ok ())
    (hformat : amountFormat text = true) {n claimed : Amount} (hn : ofText 18 4 text = some n)
    (hclaimed : row.amountClaimed = some claimed) : n.units ≤ claimed.units := by
  have hfit (m : Amount) : |m.units| < 10 ^ precision := lt_trans m.inRange (by decide)
  obtain ⟨x, hx, hxval⟩ := newDecimal_exactly (D := D) (by decide) (amountFormat_stored hformat hn) (hfit n)
  obtain ⟨y, hy, hyval⟩ := newDecimal_exactly (D := D) (by decide) (readsAs_text claimed) (hfit claimed)
  simp only [checkAcceptedAmount, hclaimed, hx, hy, Except.mapError, ExceptOk.ok_bind] at h
  split at h
  · cases h
  rename_i hle
  rw [Decimal.greaterThan, hxval, hyval, Val.lt_fin, decide_eq_true_eq, not_lt] at hle
  have h10 : (0 : ℚ) < 10 ^ 4 := by norm_num
  exact_mod_cast (div_le_div_iff_of_pos_right h10).mp hle

section respond

variable {clientId disputeId actorUserId : ℕ} {fromStatuses : List DisputeStatus} {toStatus : DisputeStatus}
  {event : String} {acceptedAmount : Option String} {check : Dispute → Except DisputesError Unit} {b : Bool}

theorem respond_commit
    (hends : Ends apply (respond sha256 startedAt clientId disputeId actorUserId fromStatuses toStatus event
      acceptedAmount check) .empty b log)
    (hinv : LifeInv initial db) (hseen : ∀ p ∈ log.seen, LifeInv initial p.1 ∧ Since p.2 p.1 db)
    (hevent : event ∈ transitionEvents) (hnotApproved : event ≠ "dispute.approved")
    (hedge : ∀ status ∈ fromStatuses, Edge status event toStatus)
    (hamount : acceptedAmount.isSome ↔ event = "dispute.partially_accepted")
    (hcheck : ∀ row, check row = .ok () → ∀ text ∈ acceptedAmount, ∀ n, ofText 18 4 text = some n →
      ∀ claimed, row.amountClaimed = some claimed → n.units ≤ claimed.units) :
    LifeInv initial (view apply db log.writes) ∧ Moves db (view apply db log.writes) ∧
      (b = true ∨ log.writes = []) := by
  obtain ⟨-, hnone⟩ | ⟨rfl, amount, checkedDb, checked, hstored, hseenChecked, hfound, hok, ⟨run⟩⟩ := respond_ends hends
  · rw [hnone]
    exact ⟨hinv, moves_refl db, .inr rfl⟩
  have hstoredSome : amount.isSome = acceptedAmount.isSome := by
    have hlen := congrArg Option.isSome hstored
    rw [Option.isSome_map, Option.isSome_map] at hlen
    exact hlen.symm
  -- what the check saw of the amount claimed is what the row says
  have hwithin : ∀ accepted ∈ amount, ∃ claimed ∈ run.row.amountClaimed, accepted.units ≤ claimed.units := by
    intro accepted haccepted
    obtain ⟨hrow, -, hid, -⟩ := findDispute_id run.found
    have hmem : run.row ∈ db.disputes := (locked_dispute (hseen _ run.seen).2 (by simp [hid])).mp hrow
    obtain ⟨hchecked, -, hcheckedId, -⟩ := findDispute_id hfound
    obtain ⟨d, hd, hdid, -, hdamount⟩ := (hseen _ hseenChecked).2.grows.disputes checked hchecked
    have hsame : d = run.row := hinv.eq_of_id hd hmem (hdid.trans (hcheckedId.trans hid.symm))
    obtain ⟨claimed, hclaimed⟩ := Option.isSome_iff_exists.mp (hinv.claimed run.row hmem)
    obtain ⟨text, htext⟩ : ∃ text, acceptedAmount = some text := by
      rw [← Option.isSome_iff_exists, ← hstoredSome, haccepted]
      rfl
    rw [htext, haccepted, Option.map_some, Option.map_some] at hstored
    refine ⟨claimed, hclaimed, hcheck checked hok text htext accepted (Option.some.inj hstored) claimed ?_⟩
    rw [← hdamount, hsame]
    exact hclaimed
  have hmoved := run.moved hinv hseen hevent hedge (by rw [hstoredSome]; exact hamount) hwithin
    (fun w hw => absurd hw List.not_mem_nil) (fun id => by simp [hnotApproved]) (by simp) (by simp)
  exact ⟨hmoved.lifeInv hinv (hinv.findings.view _), hmoved.moves hinv, .inl rfl⟩

end respond

section delivery

variable {row : Dispute} {now : ℤ} {rest : List DisputeWrite} (delivery : Delivery tx startedAt row now rest)

include delivery

theorem Delivery.asides : (∀ w ∈ delivery.aside, w.Aside) ∧ ∀ w ∈ delivery.aside', w.Aside :=
  ⟨fun w hw => delivery.aside_ok w (List.mem_append_left _ hw),
    fun w hw => delivery.aside_ok w (List.mem_append_right _ hw)⟩

/-- One command. -/
theorem Delivery.commands : rest.filterMap DisputeWrite.workflowCommand? =
    [⟨newId tx 1, row.accountId, newId tx 0, DELIVER_DISPUTE_COMMAND_TYPE, row.id, now⟩] := by
  have hfirst : delivery.aside.filterMap DisputeWrite.workflowCommand? = [] :=
    aside_none delivery.asides.1 fun _ => rfl
  have hsecond : delivery.aside'.filterMap DisputeWrite.workflowCommand? = [] :=
    aside_none delivery.asides.2 fun _ => rfl
  rw [delivery.rest_eq]
  change (delivery.aside ++ _ :: delivery.aside').filterMap DisputeWrite.workflowCommand? = _
  rw [List.filterMap_append, hfirst]
  change [] ++ (_ :: delivery.aside'.filterMap DisputeWrite.workflowCommand?) = _
  rw [hsecond]
  rfl

/-- One instance. -/
theorem Delivery.instances : rest.filterMap DisputeWrite.workflowInstance? =
    [⟨newId tx 0, row.accountId, "dispute_delivery", "dispute", row.id, "pending_delivery", startedAt, startedAt⟩] := by
  have hfirst : delivery.aside.filterMap DisputeWrite.workflowInstance? = [] :=
    aside_none delivery.asides.1 fun _ => rfl
  have hsecond : delivery.aside'.filterMap DisputeWrite.workflowInstance? = [] :=
    aside_none delivery.asides.2 fun _ => rfl
  rw [delivery.rest_eq]
  change _ :: (delivery.aside ++ _ :: delivery.aside').filterMap DisputeWrite.workflowInstance? = _
  rw [List.filterMap_append, hfirst]
  change _ :: ([] ++ delivery.aside'.filterMap DisputeWrite.workflowInstance?) = _
  rw [hsecond]
  rfl

theorem Delivery.side : ∀ w ∈ rest, w.Side := by
  intro w hw
  have hside : ∀ w : DisputeWrite, w.Aside → w.Side := fun w hw => by
    cases w <;> first | exact hw | exact hw.elim
  rw [delivery.rest_eq, List.mem_cons, List.mem_append, List.mem_cons] at hw
  obtain rfl | hw | rfl | hw := hw
  · trivial
  · exact hside w (delivery.asides.1 w hw)
  · trivial
  · exact hside w (delivery.asides.2 w hw)

end delivery

theorem approve_commit {clientId disputeId actorUserId : ℕ} {now : ℤ} {b : Bool}
    (hends : Ends apply (approveDispute sha256 toISOString tx startedAt clientId disputeId actorUserId now) .empty b
      log)
    (hinv : LifeInv initial db) (hseen : ∀ p ∈ log.seen, LifeInv initial p.1 ∧ Since p.2 p.1 db) :
    LifeInv initial (view apply db log.writes) ∧ Moves db (view apply db log.writes) ∧
      (b = true ∨ log.writes = []) := by
  obtain ⟨-, hnone⟩ | ⟨rfl, rest, run, -, ⟨delivery⟩⟩ := approveDispute_ends hends
    (fun snapshot row hfirst hfound p hp hlock => by
      -- a draft has no delivery
      obtain ⟨hrow, -, hid, hstatus⟩ := findDispute_id hfound
      have hmem : row ∈ db.disputes := (locked_dispute (hseen _ hfirst).2 (by simp [hid])).mp hrow
      by_contra hsome
      obtain ⟨i, hi⟩ := Option.ne_none_iff_exists'.mp hsome
      have hsubject := List.find?_some hi
      simp only [Bool.and_eq_true, beq_iff_eq] at hsubject
      obtain ⟨d, hd, hdid, hnotDraft⟩ := (hseen p hp).1.instances i (List.mem_of_find?_eq_some hi)
      have hdrow : d.id = row.id := hdid.trans hsubject.2
      have hd' : d ∈ db.disputes := (locked_dispute (hseen p hp).2 (by rw [hdrow, hid]; exact hlock)).mp hd
      rw [hinv.eq_of_id hd' hmem hdrow] at hnotDraft
      exact hnotDraft (List.mem_singleton.mp hstatus))
    (fun id p hp hlock hfresh p' hp' hlock' c hc hcid => by
      -- a command has an instance, and the new instance's id was free
      obtain ⟨i, hi, hici⟩ := (hseen p' hp').1.commands c hc
      have hsame : db.workflowInstances.filter (·.id = id) = p.1.workflowInstances.filter (·.id = id) :=
        (hseen p hp).2.same (.workflowInstance id) hlock
      have hsame' : db.workflowInstances.filter (·.id = id) = p'.1.workflowInstances.filter (·.id = id) :=
        (hseen p' hp').2.same (.workflowInstance id) hlock'
      have hmem : i ∈ p'.1.workflowInstances.filter (·.id = id) :=
        List.mem_filter.mpr ⟨hi, by simp [hici, hcid]⟩
      rw [← hsame', hsame] at hmem
      exact hfresh i (List.mem_of_mem_filter hmem) (hici.trans hcid))
  · rw [hnone]
    exact ⟨hinv, moves_refl db, .inr rfl⟩
  have hcommands := delivery.commands
  have hinstances := delivery.instances
  have hid := (findDispute_id run.found).2.2.1
  have hmoved := run.moved hinv hseen (by decide)
    (fun status hstatus => by rw [List.mem_singleton.mp hstatus]; exact .approved) (by simp) (by simp) delivery.side
    (fun id => by
      rw [hcommands, hid]
      by_cases hsame : id = disputeId
      · simp [hsame]
      · simp [hsame, Ne.symm hsame])
    (fun i hi => by
      rw [hinstances] at hi
      rw [List.mem_singleton.mp hi]
      exact hid)
    (fun c hc => by
      rw [hcommands] at hc
      rw [hinstances, List.mem_singleton.mp hc]
      exact ⟨_, List.mem_singleton_self _, rfl⟩)
  exact ⟨hmoved.lifeInv hinv (hinv.findings.view _), hmoved.moves hinv, .inl rfl⟩

theorem lifecycle_commit
    (h : Commit (disputesSystem sha256 D toISOString) (LifeInv initial) Since db call tx startedAt r log) :
    LifeInv initial (view apply db log.writes) ∧ Moves db (view apply db log.writes) ∧
      (call.OnDispute → r = .found true ∨ log.writes = []) := by
  obtain ⟨hinv, hends, hseen⟩ := h
  have hof := hinv.findings.view log.writes
  cases call with
  | createDisputeFromFindings input =>
    obtain ⟨htransitions, hinstances, hcommands⟩ := quiet_view db (quiet_writes hends id)
    simp only [disputesSystem, DisputeCall.body, ends_bind, ends_pure] at hends
    obtain ⟨created, _, hends, -, rfl⟩ := hends
    obtain ⟨run⟩ := createDispute_ends hends (fun p hp => ⟨(hseen p hp).1.findings, (hseen p hp).2⟩) hinv.findings
    obtain ⟨hlife, hmoves⟩ := hinv.drafted hof (some run.dispute) run.view_eq.1
      (fun d hd => by
        obtain rfl := Option.some.inj hd
        exact ⟨rfl, rfl, rfl, run.fresh⟩)
      htransitions hinstances hcommands
    exact ⟨hlife, hmoves, fun h => h.elim⟩
  | applyFindingAction clientId findingId action note actorUserId =>
    obtain ⟨htransitions, hinstances, hcommands⟩ := quiet_view db (quiet_writes hends id)
    have hdisputes := statusChange_disputes db rfl hends
    obtain ⟨hlife, hmoves⟩ := hinv.drafted hof none (by rw [hdisputes]; simp) (by simp) htransitions hinstances hcommands
    exact ⟨hlife, hmoves, fun h => h.elim⟩
  | patchFindingStatus clientId findingId status note actorUserId =>
    obtain ⟨htransitions, hinstances, hcommands⟩ := quiet_view db (quiet_writes hends id)
    have hdisputes := statusChange_disputes db rfl hends
    obtain ⟨hlife, hmoves⟩ := hinv.drafted hof none (by rw [hdisputes]; simp) (by simp) htransitions hinstances hcommands
    exact ⟨hlife, hmoves, fun h => h.elim⟩
  | approveDispute clientId disputeId actorUserId now =>
    simp only [disputesSystem, DisputeCall.body, ends_bind, ends_pure] at hends
    obtain ⟨b, _, hends, rfl, rfl⟩ := hends
    obtain ⟨hlife, hmoves, hfound⟩ := approve_commit hends hinv hseen
    exact ⟨hlife, hmoves, fun _ => hfound.imp (congrArg _) id⟩
  | acceptDispute clientId disputeId actorUserId =>
    simp only [disputesSystem, DisputeCall.body, ends_bind, ends_pure] at hends
    obtain ⟨b, _, hends, rfl, rfl⟩ := hends
    obtain ⟨hlife, hmoves, hfound⟩ := respond_commit hends hinv hseen (by decide) (by decide)
      (fun _ => .accepted) (by decide) (fun _ _ _ htext => by cases htext)
    exact ⟨hlife, hmoves, fun _ => hfound.imp (congrArg _) id⟩
  | rejectDispute clientId disputeId actorUserId =>
    simp only [disputesSystem, DisputeCall.body, ends_bind, ends_pure] at hends
    obtain ⟨b, _, hends, rfl, rfl⟩ := hends
    obtain ⟨hlife, hmoves, hfound⟩ := respond_commit hends hinv hseen (by decide) (by decide)
      (fun _ => .rejected) (by decide) (fun _ _ _ htext => by cases htext)
    exact ⟨hlife, hmoves, fun _ => hfound.imp (congrArg _) id⟩
  | partiallyAcceptDispute clientId disputeId actorUserId acceptedAmount =>
    simp only [disputesSystem, DisputeCall.body, ends_bind, ends_pure] at hends
    obtain ⟨b, _, hends, rfl, rfl⟩ := hends
    rw [partiallyAcceptDispute] at hends
    split at hends
    · exact hends.elim
    rename_i hformat
    obtain ⟨hlife, hmoves, hfound⟩ := respond_commit hends hinv hseen (by decide) (by decide)
      (fun _ => .partially_accepted) (by simp)
      (fun row hok text htext n hn claimed hclaimed => by
        obtain rfl := Option.some.inj htext
        exact checkAcceptedAmount_ok hok (by simpa using hformat) hn hclaimed)
    exact ⟨hlife, hmoves, fun _ => hfound.imp (congrArg _) id⟩
  | closeDispute clientId disputeId actorUserId =>
    simp only [disputesSystem, DisputeCall.body, ends_bind, ends_pure] at hends
    obtain ⟨b, _, hends, rfl, rfl⟩ := hends
    obtain ⟨hlife, hmoves, hfound⟩ := respond_commit hends hinv hseen (by decide) (by decide)
      (fun _ => .closed) (by decide) (fun _ _ _ htext => by cases htext)
    exact ⟨hlife, hmoves, fun _ => hfound.imp (congrArg _) id⟩

end

/-! ## Every interleaving -/

section

variable (D : Type) [Decimal D] (sha256 : String → ℕ) (toISOString : ℤ → String)
  (initial : KeyedTable VarianceFinding VarianceFinding.id)

/-- A step moves disputes along their paths, and changes rows only as the commit of a call that did
not fail; an approval or a response has then found its dispute. -/
def LegalStep (w : World DisputeDb DisputeWrite LockKey DisputesError DisputeResult DisputeCall)
    (e : Event DisputeCall) : Prop :=
  ∀ w', step (disputesSystem sha256 D toISOString) w e = some w' → Moves w.db w'.db ∧
    (w'.db = w.db ∨ ∃ i t r, e = .commit i ∧ w.opened i = some t ∧ t.rest = .done r ∧
      (t.call.OnDispute → r = .found true))

theorem lifecycle_outline :
    Outline (disputesSystem sha256 D toISOString) (LifeInv initial) Since (fun _ _ _ => True) :=
  disputes_outline fun _ _ _ _ _ _ h => (lifecycle_commit h).1

theorem legalStep_inv {w : World DisputeDb DisputeWrite LockKey DisputesError DisputeResult DisputeCall}
    (hw : Inv (disputesSystem sha256 D toISOString) (LifeInv initial) Since w) (e : Event DisputeCall) :
    LegalStep D sha256 toISOString w e := by
  intro w' hs
  by_cases hc : ∃ i, e = .commit i
  · obtain ⟨i, rfl⟩ := hc
    obtain ⟨t, r, ht, hr, rfl⟩ := step_commit hs
    obtain ⟨-, hmoves, hfound⟩ := lifecycle_commit (hw.commit_of ht hr)
    refine ⟨hmoves, ?_⟩
    by_cases hon : t.call.OnDispute
    · obtain htrue | hnone := hfound hon
      · exact .inr ⟨i, t, r, rfl, ht, hr, fun _ => htrue⟩
      · refine .inl ?_
        change view _ w.db t.log.writes = w.db
        rw [hnone]
        rfl
    · exact .inr ⟨i, t, r, rfl, ht, hr, fun h => absurd h hon⟩
  · have hdb : w'.db = w.db := step_db hs fun i hi => hc ⟨i, hi⟩
    rw [hdb]
    exact ⟨moves_refl w.db, .inl rfl⟩

/-- In every state of every interleaving, disputes and their rows agree; and every step is legal. -/
theorem lifecycle (next now : ℕ) (events : List (Event DisputeCall)) :
    Runs.AllStates (step (disputesSystem sha256 D toISOString)) (fun w => ∀ d ∈ w.db.disputes, Settled w.db d)
        (World.initial (DisputeDb.initial initial) next now) events ∧
      Runs.AllSteps (step (disputesSystem sha256 D toISOString)) (LegalStep D sha256 toISOString)
        (World.initial (DisputeDb.initial initial) next now) events := by
  have O := lifecycle_outline D sha256 toISOString initial
  constructor
  · have hgood := O.allStates (lifeInv_initial initial)
      (O.allSteps (fun _ _ _ _ _ _ _ => trivial) (lifeInv_initial initial) next now events)
    exact hgood.mono fun w h => h.settled
  · refine (O.allSteps_iff (G := fun _ _ => True) (fun w e w' hw _ => ?_) (lifeInv_initial initial) next now
      events).mpr (Runs.allSteps_true _ events)
    exact iff_of_true (legalStep_inv D sha256 toISOString initial hw e) trivial

end

end Disputes
