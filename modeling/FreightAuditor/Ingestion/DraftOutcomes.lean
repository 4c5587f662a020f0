import FreightAuditor.Ingestion.DraftTables

/- What becomes of an invoice draft.

   Confirming and rejecting both look at the status without a lock and update the row
   without looking again. Two confirmations meet at the audit event, whose id they share
   and whose run differs; a confirmation and a rejection do not. So a draft has one outcome
   in every interleaving in which no confirmation commits over a rejected draft and no
   rejection over a confirmed one (`draftOutcomes_iff`). -/
namespace InvoiceDrafts

open AuditLedger (AuditDb ConfirmDraftInput DraftStatus SourceDocumentRow finalInvoice)
open DecimalJs Evaluator Ingestion Json JsText ReadCommitted

/-! ## What each lock protects -/

/-- The rows under a lock are the same. -/
def Same (db db' : DraftDb) : LockKey → Prop
  | .draft id => db'.drafts.find? id = db.drafts.find? id
  | .auditRun id => db'.auditRuns.filter (·.id = id) = db.auditRuns.filter (·.id = id)
  | .auditEvent id => db'.auditEvents.filter (·.id = id) = db.auditEvents.filter (·.id = id)

/-- A later state of a draft. -/
structure Later (d d' : InvoiceDraft) : Prop where
  id : d'.id = d.id
  accountId : d'.accountId = d.accountId
  extractedPayload : d'.extractedPayload = d.extractedPayload

/-- Drafts stay, and runs and events. -/
structure Grows (db db' : DraftDb) : Prop where
  drafts : ∀ d ∈ db.drafts.rows, ∃ d' ∈ db'.drafts.rows, Later d d'
  auditRuns : db.auditRuns ⊆ db'.auditRuns
  auditEvents : db.auditEvents ⊆ db'.auditEvents

def DraftWrite.locks : DraftWrite → List LockKey
  | .insertExtractionFields _ => []
  | .insertAuditRun row => [.auditRun row.id]
  | .confirmDraft draftId _ _ => [.draft draftId]
  | .rejectDraft draftId => [.draft draftId]
  | .insertAuditEvent row => [.auditEvent row.id]

section

variable {draftId id : String} {f : InvoiceDraft → InvoiceDraft}

theorem later_update (hf : ∀ d, Later d (f d)) (d : InvoiceDraft) : Later d (d.update draftId f) := by
  unfold InvoiceDraft.update
  split
  · exact hf d
  · exact ⟨rfl, rfl, rfl⟩

theorem later_confirm (correctedPayload : Option ParsedInvoice) (auditRunId : String) (d : InvoiceDraft) :
    Later d (d.confirm correctedPayload auditRunId) := ⟨rfl, rfl, rfl⟩

theorem later_reject (d : InvoiceDraft) : Later d d.reject := ⟨rfl, rfl, rfl⟩

theorem find?_update_other (t : KeyedTable InvoiceDraft InvoiceDraft.id) (hf : ∀ d, (f d).id = d.id) (h : id ≠ draftId) :
    (t.update (.update draftId f) (InvoiceDraft.update_id hf)).find? id = t.find? id := by
  unfold KeyedTable.find? KeyedTable.update
  rw [List.find?_map]
  have hkey : ((fun d : InvoiceDraft => decide (d.id = id)) ∘ InvoiceDraft.update draftId f) =
      fun d => decide (d.id = id) := by
    funext d
    simp [InvoiceDraft.update_id hf]
  rw [hkey]
  cases hfound : t.rows.find? fun d => decide (d.id = id) with
  | none => rfl
  | some d =>
    have hid : d.id = id := by simpa using List.find?_some hfound
    rw [Option.map_some, InvoiceDraft.update, if_neg (hid ▸ h)]

end

theorem guarded_locks (w : DraftWrite) : Guarded apply (fun k db db' => Same db db' k) w.locks w := by
  intro k hk db
  cases w with
  | insertExtractionFields rows => cases k <;> rfl
  | insertAuditRun row =>
    cases k with
    | auditRun id =>
      have hne : row.id ≠ id := fun h => hk (by rw [DraftWrite.locks, h]; exact List.mem_singleton_self _)
      simp [Same, apply, List.filter_append, hne]
    | _ => rfl
  | confirmDraft draftId correctedPayload auditRunId =>
    cases k with
    | draft id =>
      refine find?_update_other db.drafts (fun d => (later_confirm correctedPayload auditRunId d).id) fun h => hk ?_
      rw [DraftWrite.locks, h]
      exact List.mem_singleton_self _
    | _ => rfl
  | rejectDraft draftId =>
    cases k with
    | draft id =>
      refine find?_update_other db.drafts (fun d => (later_reject d).id) fun h => hk ?_
      rw [DraftWrite.locks, h]
      exact List.mem_singleton_self _
    | _ => rfl
  | insertAuditEvent row =>
    cases k with
    | auditEvent id =>
      have hne : row.id ≠ id := fun h => hk (by rw [DraftWrite.locks, h]; exact List.mem_singleton_self _)
      simp [Same, apply, List.filter_append, hne]
    | _ => rfl

theorem Grows.refl (db : DraftDb) : Grows db db :=
  ⟨fun d hd => ⟨d, hd, rfl, rfl, rfl⟩, List.Subset.refl _, List.Subset.refl _⟩

theorem grows_update (db : DraftDb) {draftId : String} {f : InvoiceDraft → InvoiceDraft} (hf : ∀ d, Later d (f d)) :
    Grows db { db with drafts := db.drafts.update (.update draftId f) (InvoiceDraft.update_id fun d => (hf d).id) } :=
  ⟨fun d hd => ⟨_, List.mem_map_of_mem hd, later_update hf d⟩, List.Subset.refl _, List.Subset.refl _⟩

theorem grows_apply (db : DraftDb) (w : DraftWrite) : Grows db (apply db w) := by
  have hdrafts : ∀ d ∈ db.drafts.rows, ∃ d' ∈ db.drafts.rows, Later d d' := (Grows.refl db).drafts
  cases w with
  | insertExtractionFields rows => exact ⟨hdrafts, List.Subset.refl _, List.Subset.refl _⟩
  | insertAuditRun row => exact ⟨hdrafts, List.subset_append_left _ _, List.Subset.refl _⟩
  | confirmDraft draftId correctedPayload auditRunId => exact grows_update db (later_confirm correctedPayload auditRunId)
  | rejectDraft draftId => exact grows_update db later_reject
  | insertAuditEvent row => exact ⟨hdrafts, List.Subset.refl _, List.subset_append_left _ _⟩

theorem drafts_parts : Parts apply (fun k db db' => Same db db' k) Grows where
  refl := fun k db => by cases k <;> rfl
  trans := fun k db db' db'' h h' => by cases k <;> exact Eq.trans h' h
  grows_refl := Grows.refl
  grows_trans := fun db db' db'' h h' => by
    refine ⟨fun d hd => ?_, List.Subset.trans h.auditRuns h'.auditRuns, List.Subset.trans h.auditEvents h'.auditEvents⟩
    obtain ⟨d', hd', hid, hacc, hpayload⟩ := h.drafts d hd
    obtain ⟨d'', hd'', hid', hacc', hpayload'⟩ := h'.drafts d' hd'
    exact ⟨d'', hd'', hid'.trans hid, hacc'.trans hacc, hpayload'.trans hpayload⟩
  grows_apply := grows_apply

abbrev Cov : List LockKey → DraftWrite → Prop := Guarded apply fun k db db' => Same db db' k

theorem cov_of_locks {locks : List LockKey} {w : DraftWrite} (h : ∀ k ∈ w.locks, k ∈ locks) : Cov locks w :=
  guarded_mono h (guarded_locks w)

/-- What a transaction can count on that has held the locks since it saw `db`. -/
abbrev Since : List LockKey → DraftDb → DraftDb → Prop := Kept (fun k db db' => Same db db' k) Grows

/-! ## What the statements do -/

section

variable {sha256 : String → String} {D : Type} [Decimal D] {unicode : Unicode} {uuidIn : String → Option String}
  {log log' : Log DraftDb DraftWrite LockKey}

theorem select_covered {R : Type} {f : DraftDb → Except DraftError R} {S : Type} {next : R → Statement S}
    (hnext : ∀ r, Covered Cov (next r)) : Covered Cov (select f >>= next) :=
  covered_bind (covered_bind covered_query fun answer => by
    cases answer with
    | ok r => exact covered_pure
    | error e => trivial) hnext

theorem writeAuditEvent_covered {id : String} {value : DraftEvidence} : Covered Cov (writeAuditEvent id value) := by
  refine covered_exec fun db r ws hf w hw => ?_
  split at hf
  · obtain ⟨-, rfl⟩ := Prod.mk.inj (Except.ok.inj hf)
    obtain rfl := List.mem_singleton.mp hw
    exact cov_of_locks fun _ hk => hk
  · split at hf
    · obtain ⟨-, rfl⟩ := Prod.mk.inj (Except.ok.inj hf)
      cases hw
    · cases hf

theorem updateDraft_covered {draftId : String} {write : DraftWrite} (h : write.locks = [.draft draftId]) :
    Covered Cov (updateDraft draftId write) := by
  refine covered_exec fun db r ws hf w hw => ?_
  obtain ⟨-, rfl⟩ := Prod.mk.inj (Except.ok.inj hf)
  obtain rfl := List.mem_singleton.mp hw
  exact h ▸ guarded_locks _

theorem insertAuditRun_ok {auditRunId : String} {draft : InvoiceDraft} {document : SourceDocumentRow}
    {input : ConfirmDraftInput} {invoice : ParsedInvoice} {result : AuditResult} {resolvedInputs : ContractFacts}
    (h : Ends apply (insertAuditRun sha256 unicode uuidIn auditRunId draft document input invoice result resolvedInputs)
      log ⟨⟩ log') :
    ∃ db manifest, (∀ run ∈ (view apply db log.writes).auditRuns, run.id ≠ auditRunId) ∧
      log' = log.add db [.auditRun auditRunId] [.insertAuditRun ⟨auditRunId, input.clientId, draft.id,
        input.carrierId <|> draft.resolvedCarrierId, invoice, manifest⟩] := by
  obtain ⟨db, ws, hf, rfl⟩ := ends_exec.mp h
  simp only [ExceptOk.throw_bind, ExceptOk.ite_throw_eq_ok, ExceptOk.bind_eq_ok, ExceptOk.pure_eq_ok,
    Prod.mk.injEq] at hf
  obtain ⟨hfree, stored, -, -, rfl⟩ := hf
  refine ⟨db, _, fun run hrun hid => hfree ?_, rfl⟩
  exact List.any_eq_true.mpr ⟨run, hrun, beq_iff_eq.mpr hid⟩

theorem insertAuditRun_covered {auditRunId : String} {draft : InvoiceDraft} {document : SourceDocumentRow}
    {input : ConfirmDraftInput} {invoice : ParsedInvoice} {result : AuditResult} {resolvedInputs : ContractFacts} :
    Covered Cov
      (insertAuditRun sha256 unicode uuidIn auditRunId draft document input invoice result resolvedInputs) := by
  refine covered_exec fun db r ws hf w hw => ?_
  simp only [ExceptOk.throw_bind, ExceptOk.ite_throw_eq_ok, ExceptOk.bind_eq_ok, ExceptOk.pure_eq_ok,
    Prod.mk.injEq] at hf
  obtain ⟨-, stored, -, -, rfl⟩ := hf
  obtain rfl := List.mem_singleton.mp hw
  exact cov_of_locks fun _ hk => hk

theorem recordCorrectionDiff_covered {clientId sourceDocumentId : String} {original corrected : ParsedInvoice} :
    Covered Cov (recordCorrectionDiff clientId sourceDocumentId original corrected) := by
  refine covered_exec fun db r ws hf w hw => ?_
  obtain ⟨-, rfl⟩ := Prod.mk.inj (Except.ok.inj hf)
  obtain rfl := List.mem_singleton.mp hw
  exact cov_of_locks fun _ hk => hk

theorem body_covered {newId : ℕ → String} (call : DraftCall) (tx startedAt : ℕ) :
    Covered Cov ((draftsSystem sha256 D unicode uuidIn newId).body call tx startedAt) := by
  cases call with
  | confirm input =>
    refine select_covered fun loaded => covered_ofExcept fun _ _ => ?_
    refine covered_bind (covered_forM fun _ _ => recordCorrectionDiff_covered) fun _ => select_covered fun evaluated => ?_
    exact covered_bind insertAuditRun_covered fun _ =>
      covered_bind (updateDraft_covered rfl) fun _ => writeAuditEvent_covered
  | reject clientId draftId =>
    refine select_covered fun loaded => covered_ofExcept fun _ _ => ?_
    exact covered_bind (updateDraft_covered rfl) fun _ => writeAuditEvent_covered

/-! ## What a finished body has seen and written -/

theorem ends_select {R : Type} {f : DraftDb → Except DraftError R} {r : R} :
    Ends apply (select f) log r log' ↔ ∃ db, f (view apply db log.writes) = .ok r ∧ log' = log.add db [] [] := by
  simp only [select, ends_bind, ends_query, ends_ofExcept]
  constructor
  · rintro ⟨_, _, ⟨db, rfl, rfl⟩, hf, rfl⟩
    exact ⟨db, hf, rfl⟩
  · rintro ⟨db, hf, rfl⟩
    exact ⟨_, _, ⟨db, rfl, rfl⟩, hf, rfl⟩

theorem loadDraft_ok {db : DraftDb} {clientId draftId : String} {draft : InvoiceDraft} {document : SourceDocumentRow}
    (h : loadDraft db clientId draftId = .ok (draft, document)) :
    draft ∈ db.drafts.rows ∧ draft.id = draftId ∧ draft.accountId = clientId := by
  simp only [loadDraft] at h
  split at h
  · rename_i found hfound
    split at h
    · cases h
      obtain ⟨hfind, hacc⟩ := Option.filter_eq_some_iff.mp hfound
      obtain ⟨hmem, hid⟩ := KeyedTable.find?_sound hfind
      exact ⟨hmem, hid, beq_iff_eq.mp hacc⟩
    · cases h
  · cases h

/-- An event is new, or it was there with the same evidence. -/
def Logged (db : DraftDb) (id : String) (value : DraftEvidence) (new : List AuditEvent) : Prop :=
  new = [{ value with id := id }] ∧ (∀ e ∈ db.auditEvents, e.id ≠ id) ∨
    new = [] ∧ ∃ e ∈ db.auditEvents, e.id = id ∧ sameEvidence e.toDraftEvidence value = true

theorem writeAuditEvent_ok {id : String} {value : DraftEvidence} (h : Ends apply (writeAuditEvent id value) log ⟨⟩ log') :
    ∃ db new, Logged (view apply db log.writes) id value new ∧
      log' = log.add db [.auditEvent id] (new.map .insertAuditEvent) := by
  obtain ⟨db, ws, hf, rfl⟩ := ends_exec.mp h
  split at hf
  · rename_i hnone
    obtain ⟨-, rfl⟩ := Prod.mk.inj (Except.ok.inj hf)
    refine ⟨db, [{ value with id := id }], .inl ⟨rfl, fun e he hid => ?_⟩, rfl⟩
    exact absurd (beq_iff_eq.mpr hid) (List.find?_eq_none.mp hnone e he)
  · rename_i row hrow
    split at hf
    · rename_i hsame
      obtain ⟨-, rfl⟩ := Prod.mk.inj (Except.ok.inj hf)
      have hid : row.id = id := by simpa using List.find?_some hrow
      exact ⟨db, [], .inr ⟨rfl, row, List.mem_of_find?_eq_some hrow, hid, hsame⟩, rfl⟩
    · cases hf

/-- What the statements before the last one do to runs, drafts and events. -/
theorem view_fields (db : DraftDb) (fields : List (List ExtractionField)) :
    view apply db (fields.map .insertExtractionFields) =
      { db with extractionFields := db.extractionFields ++ fields.flatten } := by
  induction fields generalizing db with
  | nil => simp
  | cons rows rest ih =>
    rw [List.map_cons, view_cons, ih]
    simp [apply]

theorem recordCorrection_ok {clientId sourceDocumentId : String} {original : ParsedInvoice}
    {correctedPayload : Option ParsedInvoice}
    (h : Ends apply (correctedPayload.toList.forM (recordCorrectionDiff clientId sourceDocumentId original)) log ⟨⟩
      log') :
    log'.writes = log.writes ++ (correctedPayload.toList.map (correctionRows clientId sourceDocumentId original)).map
      .insertExtractionFields := by
  cases correctedPayload with
  | none =>
    obtain ⟨-, rfl⟩ := h
    exact (List.append_nil _).symm
  | some corrected =>
    obtain ⟨⟨⟩, mid, hrecord, hend⟩ := ends_bind.mp h
    obtain ⟨-, rfl⟩ := hend
    obtain ⟨db, ws, hf, rfl⟩ := ends_exec.mp hrecord
    obtain ⟨-, rfl⟩ := Prod.mk.inj (Except.ok.inj hf)
    rfl

/-- What a confirmation has seen and written. -/
structure Confirmed (sha256 : String → String) (auditRunId : String) (input : ConfirmDraftInput)
    (log : Log DraftDb DraftWrite LockKey) (draft : InvoiceDraft) (run : AuditRun) (new : List AuditEvent) : Prop where
  loaded : ∃ s ∈ log.seen, draft ∈ s.1.drafts.rows
  draftId : draft.id = input.draftId
  accountId : draft.accountId = input.clientId
  runId : run.id = auditRunId
  runDraft : run.draftId = draft.id
  invoice : run.invoice = finalInvoice draft.row input.correctedPayload
  free : ∃ s ∈ log.seen, .auditRun auditRunId ∈ s.2 ∧ ∀ r ∈ s.1.auditRuns, r.id ≠ auditRunId
  logged : ∃ s ∈ log.seen,
    .auditEvent (deterministicAuditEventId sha256 [input.clientId, draft.id, "invoice_draft.confirmed"]) ∈ s.2 ∧
      Logged s.1 (deterministicAuditEventId sha256 [input.clientId, draft.id, "invoice_draft.confirmed"])
        (confirmedEvidence draft input auditRunId) new
  writes : log.writes =
    (input.correctedPayload.toList.map (correctionRows input.clientId draft.sourceDocumentId draft.extractedPayload)).map
      .insertExtractionFields ++
    [.insertAuditRun run, .confirmDraft draft.id input.correctedPayload auditRunId] ++ new.map .insertAuditEvent

theorem confirm_ends {auditRunId : String} {input : ConfirmDraftInput}
    (h : Ends apply (confirmInvoiceDraft sha256 D unicode uuidIn auditRunId input) .empty ⟨⟩ log) :
    ∃ draft run new, Confirmed sha256 auditRunId input log draft run new := by
  obtain ⟨⟨draft, document⟩, log₁, hload, h⟩ := ends_bind.mp h
  obtain ⟨⟨⟩, log₂, hcheck, h⟩ := ends_bind.mp h
  obtain ⟨⟨⟩, log₃, hrecord, h⟩ := ends_bind.mp h
  obtain ⟨⟨result, resolvedInputs⟩, log₄, heval, h⟩ := ends_bind.mp h
  obtain ⟨⟨⟩, log₅, hinsert, h⟩ := ends_bind.mp h
  obtain ⟨⟨⟩, log₆, hupdate, hevent⟩ := ends_bind.mp h
  obtain ⟨db₁, hloaded, rfl⟩ := ends_select.mp hload
  obtain ⟨-, rfl⟩ := ends_ofExcept.mp hcheck
  have hseen := hrecord.extends.seen
  have hfields := recordCorrection_ok hrecord
  obtain ⟨db₄, -, rfl⟩ := ends_select.mp heval
  obtain ⟨db₅, manifest, hfree, rfl⟩ := insertAuditRun_ok hinsert
  obtain ⟨db₆, ws, hf, rfl⟩ := ends_exec.mp hupdate
  obtain ⟨-, rfl⟩ := Prod.mk.inj (Except.ok.inj hf)
  obtain ⟨db₇, new, hlogged, rfl⟩ := writeAuditEvent_ok hevent
  obtain ⟨hmem, hid, hacc⟩ := loadDraft_ok hloaded
  have hfields' : log₃.writes = (input.correctedPayload.toList.map
      (correctionRows input.clientId draft.sourceDocumentId draft.extractedPayload)).map .insertExtractionFields := hfields
  simp only [Log.add_writes, List.append_nil, hfields', view_append, view_fields] at hfree hlogged
  have hseen₁ := (hseen.subset (Log.last_seen ..) : (db₁, _) ∈ log₃.seen)
  refine ⟨draft, ⟨auditRunId, input.clientId, draft.id, input.carrierId <|> draft.resolvedCarrierId,
    finalInvoice draft.row input.correctedPayload, manifest⟩, new,
    ⟨_, Log.mem_seen_add (Log.mem_seen_add (Log.mem_seen_add (Log.mem_seen_add hseen₁ ..) ..) ..) .., hmem⟩, hid, hacc,
    rfl, rfl, rfl, ⟨_, Log.mem_seen_add (Log.mem_seen_add (Log.last_seen ..) ..) .., ?_, hfree⟩, ⟨_, Log.last_seen .., ?_, hlogged⟩,
    ?_⟩
  · exact List.mem_append_right _ (List.mem_singleton_self _)
  · exact List.mem_append_right _ (List.mem_singleton_self _)
  · simp [hfields']

/-- What a rejection has seen and written. -/
structure Rejected (sha256 : String → String) (clientId draftId : String) (log : Log DraftDb DraftWrite LockKey)
    (draft : InvoiceDraft) (new : List AuditEvent) : Prop where
  loaded : ∃ s ∈ log.seen, draft ∈ s.1.drafts.rows
  loadedId : draft.id = draftId
  logged : ∃ s ∈ log.seen,
    Logged s.1 (deterministicAuditEventId sha256 [draft.accountId, draft.id, "invoice_draft.rejected"])
      (rejectedEvidence draft) new
  writes : log.writes = .rejectDraft draftId :: new.map .insertAuditEvent

theorem reject_ends {clientId draftId : String}
    (h : Ends apply (rejectInvoiceDraft sha256 clientId draftId) .empty ⟨⟩ log) :
    ∃ draft new, Rejected sha256 clientId draftId log draft new := by
  obtain ⟨⟨draft, document⟩, log₁, hload, h⟩ := ends_bind.mp h
  obtain ⟨⟨⟩, log₂, hcheck, h⟩ := ends_bind.mp h
  obtain ⟨⟨⟩, log₃, hupdate, hevent⟩ := ends_bind.mp h
  obtain ⟨db₁, hloaded, rfl⟩ := ends_select.mp hload
  obtain ⟨-, rfl⟩ := ends_ofExcept.mp hcheck
  obtain ⟨db₂, ws, hf, rfl⟩ := ends_exec.mp hupdate
  obtain ⟨-, rfl⟩ := Prod.mk.inj (Except.ok.inj hf)
  obtain ⟨db₃, new, hlogged, rfl⟩ := writeAuditEvent_ok hevent
  obtain ⟨hmem, hid, -⟩ := loadDraft_ok hloaded
  exact ⟨draft, new, ⟨_, Log.mem_seen_add (Log.mem_seen_add (Log.last_seen ..) ..) .., hmem⟩, hid,
    ⟨_, Log.last_seen .., hlogged⟩, rfl⟩

end

/-! ## The outcome of a draft -/

/-- The event is there for the draft. -/
def DraftDb.Decided (db : DraftDb) (event draftId : String) : Prop :=
  ∃ e ∈ db.auditEvents, e.event = event ∧ e.entityId = draftId

instance (db : DraftDb) (event draftId : String) : Decidable (db.Decided event draftId) :=
  inferInstanceAs (Decidable (∃ e ∈ db.auditEvents, e.event = event ∧ e.entityId = draftId))

/-- The runs made from a draft. -/
def DraftDb.runsOf (db : DraftDb) (draftId : String) : List AuditRun := db.auditRuns.filter (·.draftId == draftId)

/-- A run at most, and a confirmation or a rejection and not both; no run once it is rejected, and
once confirmed a run that is the one it names, of its invoice as corrected. -/
structure OneOutcome (db : DraftDb) (draft : InvoiceDraft) : Prop where
  oneRun : (db.runsOf draft.id).length ≤ 1
  notBoth : ¬ (db.Decided "invoice_draft.confirmed" draft.id ∧ db.Decided "invoice_draft.rejected" draft.id)
  rejected : draft.status = .rejected → db.runsOf draft.id = []
  confirmed : draft.status = .confirmed → db.runsOf draft.id ≠ [] ∧ ∀ run ∈ db.runsOf draft.id,
    draft.confirmedAuditRunId = some run.id ∧ run.invoice = finalInvoice draft.row draft.correctedPayload

instance (db : DraftDb) (draft : InvoiceDraft) : Decidable (OneOutcome db draft) :=
  have : Decidable (db.runsOf draft.id = []) := decidable_of_iff _ List.isEmpty_iff
  decidable_of_iff ((db.runsOf draft.id).length ≤ 1 ∧
      ¬ (db.Decided "invoice_draft.confirmed" draft.id ∧ db.Decided "invoice_draft.rejected" draft.id) ∧
      (draft.status = .rejected → db.runsOf draft.id = []) ∧
      (draft.status = .confirmed → db.runsOf draft.id ≠ [] ∧ ∀ run ∈ db.runsOf draft.id,
        draft.confirmedAuditRunId = some run.id ∧ run.invoice = finalInvoice draft.row draft.correctedPayload))
    ⟨fun ⟨h₁, h₂, h₃, h₄⟩ => ⟨h₁, h₂, h₃, h₄⟩, fun ⟨h₁, h₂, h₃, h₄⟩ => ⟨h₁, h₂, h₃, h₄⟩⟩

def OneOutcomeEach (db : DraftDb) : Prop := ∀ draft ∈ db.drafts.rows, OneOutcome db draft

instance (db : DraftDb) : Decidable (OneOutcomeEach db) :=
  inferInstanceAs (Decidable (∀ draft ∈ db.drafts.rows, OneOutcome db draft))

/-- The draft that is being confirmed is not rejected, and the one being rejected not confirmed. -/
def NotDecidedOtherwise (db : DraftDb) (call : DraftCall) (_ : Log DraftDb DraftWrite LockKey) : Prop :=
  ∀ draft ∈ db.drafts.rows, draft.id = call.draftId →
    match call with
    | .confirm _ => draft.status ≠ .rejected
    | .reject _ _ => draft.status ≠ .confirmed

/-- The run that an event tells of. -/
def DraftEvidence.Names (e : DraftEvidence) (auditRunId : String) : Prop :=
  ∃ v, e.detail = some v ∧ v.get? "auditRunId" = some (.str auditRunId)

theorem confirmedEvidence_names (draft : InvoiceDraft) (input : ConfirmDraftInput) (auditRunId : String) :
    (confirmedEvidence draft input auditRunId).Names auditRunId := ⟨_, rfl, rfl⟩

theorem sameEvidence_event {a b : DraftEvidence} (h : sameEvidence a b = true) :
    a.event = b.event ∧ a.entityId = b.entityId := by
  simp only [sameEvidence, Bool.and_eq_true, beq_iff_eq] at h
  exact ⟨h.1.2, h.1.1.2⟩

theorem sameEvidence_names {a b : DraftEvidence} {auditRunId : String} (h : sameEvidence a b = true)
    (hb : b.Names auditRunId) : a.Names auditRunId := by
  obtain ⟨w, hw, hget⟩ := hb
  simp only [sameEvidence, Bool.and_eq_true, beq_iff_eq] at h
  obtain ⟨v, hv, htext⟩ := Option.map_eq_some_iff.mp (h.2.trans (congrArg (Option.map canonicalText) hw))
  refine ⟨v, hv, ?_⟩
  have hsorted := congrArg (Value.get? "auditRunId") (canonicalText_inj.mp htext)
  rw [get?_sortKeys, get?_sortKeys, hget] at hsorted
  obtain ⟨u, hu, hsort⟩ := Option.map_eq_some_iff.mp hsorted
  rw [hu]
  cases u with
  | str text => exact congrArg some hsort
  | _ => cases hsort

/-- A run comes with the confirmation of its draft and a confirmation with a run; what is decided of
a draft is in its status, and its status in the events. -/
structure Recorded (sha256 : String → String) (db : DraftDb) : Prop where
  runs : ∀ run ∈ db.auditRuns, ∃ draft ∈ db.drafts.rows, draft.id = run.draftId ∧
    ∃ e ∈ db.auditEvents, e.event = "invoice_draft.confirmed" ∧ e.entityId = draft.id ∧
      e.id = deterministicAuditEventId sha256 [draft.accountId, draft.id, "invoice_draft.confirmed"]
  confirmations : ∀ e ∈ db.auditEvents, e.event = "invoice_draft.confirmed" →
    ∃ run ∈ db.auditRuns, run.draftId = e.entityId ∧ e.Names run.id
  confirmed : ∀ draft ∈ db.drafts.rows, draft.status = .confirmed → db.Decided "invoice_draft.confirmed" draft.id
  rejected : ∀ draft ∈ db.drafts.rows, draft.status = .rejected → db.Decided "invoice_draft.rejected" draft.id
  decided : ∀ draft ∈ db.drafts.rows,
    db.Decided "invoice_draft.confirmed" draft.id ∨ db.Decided "invoice_draft.rejected" draft.id →
      draft.status = .confirmed ∨ draft.status = .rejected

/-! ## What a commit decides -/

/-- From the rows before to those after, the draft is updated, with runs and events of its own. -/
structure Decides (db db' : DraftDb) (draft : InvoiceDraft) (f : InvoiceDraft → InvoiceDraft) (event : String)
    (runs : List AuditRun) (new : List AuditEvent) : Prop where
  mem : draft ∈ db.drafts.rows
  later : ∀ d, Later d (f d)
  drafts : db'.drafts.rows = db.drafts.rows.map (.update draft.id f)
  auditRuns : db'.auditRuns = db.auditRuns ++ runs
  runsOf : ∀ run ∈ runs, run.draftId = draft.id
  auditEvents : db'.auditEvents = db.auditEvents ++ new
  events : ∀ e ∈ new, e.event = event ∧ e.entityId = draft.id
  decided : db'.Decided event draft.id

section

variable {db db' : DraftDb} {draft : InvoiceDraft} {f : InvoiceDraft → InvoiceDraft} {event : String}
  {runs : List AuditRun} {new : List AuditEvent} (h : Decides db db' draft f event runs new)

include h

/-- Each draft is the one before, but for the one that is updated. -/
theorem Decides.mem_drafts {d' : InvoiceDraft} :
    d' ∈ db'.drafts.rows ↔ d' = f draft ∨ d' ∈ db.drafts.rows ∧ d'.id ≠ draft.id := by
  rw [h.drafts, List.mem_map]
  constructor
  · rintro ⟨d, hd, rfl⟩
    unfold InvoiceDraft.update
    split
    · rename_i hid
      exact .inl (congrArg f (KeyedTable.eq_of_key hd h.mem hid))
    · rename_i hid
      exact .inr ⟨hd, hid⟩
  · rintro (rfl | ⟨hd, hid⟩)
    · exact ⟨draft, h.mem, if_pos rfl⟩
    · exact ⟨d', hd, if_neg hid⟩

theorem Decides.decided_mono {ev id : String} (hd : db.Decided ev id) : db'.Decided ev id := by
  obtain ⟨e, he, hev⟩ := hd
  exact ⟨e, h.auditEvents ▸ List.mem_append_left _ he, hev⟩

/-- Nothing else is decided. -/
theorem Decides.decided_old {ev id : String} (hd : db'.Decided ev id) (hne : ev ≠ event ∨ id ≠ draft.id) :
    db.Decided ev id := by
  obtain ⟨e, he, hev, hid⟩ := hd
  rw [h.auditEvents] at he
  rcases List.mem_append.mp he with he | he
  · exact ⟨e, he, hev, hid⟩
  · obtain ⟨hev', hid'⟩ := h.events e he
    rcases hne with hne | hne
    · exact absurd (hev.symm.trans hev') hne
    · exact absurd (hid.symm.trans hid') hne

theorem Decides.runsOf_other {id : String} (hid : id ≠ draft.id) : db'.runsOf id = db.runsOf id := by
  have hruns : runs.filter (·.draftId == id) = [] := by
    refine List.filter_eq_nil_iff.mpr fun run hrun => ?_
    rw [h.runsOf run hrun, beq_iff_eq]
    exact Ne.symm hid
  rw [DraftDb.runsOf, h.auditRuns, List.filter_append, hruns, List.append_nil, DraftDb.runsOf]

theorem Decides.runsOf_own : db'.runsOf draft.id = db.runsOf draft.id ++ runs := by
  have hruns : runs.filter (·.draftId == draft.id) = runs :=
    List.filter_eq_self.mpr fun run hrun => beq_iff_eq.mpr (h.runsOf run hrun)
  rw [DraftDb.runsOf, h.auditRuns, List.filter_append, hruns, DraftDb.runsOf]

/-- The other drafts are as they were. -/
theorem Decides.oneOutcome_other {d : InvoiceDraft} (hid : d.id ≠ draft.id) (hd : OneOutcome db d) : OneOutcome db' d := by
  have hruns := h.runsOf_other hid
  refine ⟨hruns ▸ hd.oneRun, fun hboth => hd.notBoth ?_, hruns ▸ hd.rejected, hruns ▸ hd.confirmed⟩
  exact ⟨h.decided_old hboth.1 (.inr hid), h.decided_old hboth.2 (.inr hid)⟩

/-- The law is kept exactly if it holds of the draft that is decided. -/
theorem Decides.oneOutcomeEach_iff (heach : OneOutcomeEach db) : OneOutcomeEach db' ↔ OneOutcome db' (f draft) := by
  constructor
  · exact fun hall => hall _ (h.mem_drafts.mpr (.inl rfl))
  · intro hown d hd
    rcases h.mem_drafts.mp hd with rfl | ⟨hd, hid⟩
    · exact hown
    · exact h.oneOutcome_other hid (heach d hd)

end

section

variable {sha256 : String → String} {db db' : DraftDb} {draft : InvoiceDraft}

/-- What a confirmation decides. -/
structure Confirms (sha256 : String → String) (db db' : DraftDb) (draft : InvoiceDraft)
    (correctedPayload : Option ParsedInvoice) (run : AuditRun) (e : AuditEvent) : Prop extends
    Decides db db' draft (.confirm correctedPayload run.id) "invoice_draft.confirmed" [run] [e] where
  eventId : e.id = deterministicAuditEventId sha256 [draft.accountId, draft.id, "invoice_draft.confirmed"]
  names : e.Names run.id
  invoice : run.invoice = finalInvoice draft.row correctedPayload
  noRun : ∀ r ∈ db.auditRuns, r.draftId ≠ draft.id

theorem Confirms.recorded {correctedPayload : Option ParsedInvoice} {run : AuditRun} {e : AuditEvent}
    (h : Confirms sha256 db db' draft correctedPayload run e) (hdb : Recorded sha256 db) : Recorded sha256 db' := by
  have he := h.events e (List.mem_singleton_self e)
  constructor
  · intro r hr
    rw [h.auditRuns] at hr
    rcases List.mem_append.mp hr with hr | hr
    · obtain ⟨d, hd, hid, ev, hev, hconfirmed⟩ := hdb.runs r hr
      refine ⟨d, h.mem_drafts.mpr (.inr ⟨hd, fun heq => h.noRun r hr (hid.symm.trans heq)⟩), hid, ev, ?_, hconfirmed⟩
      exact h.auditEvents ▸ List.mem_append_left _ hev
    · obtain rfl := List.mem_singleton.mp hr
      refine ⟨_, h.mem_drafts.mpr (.inl rfl), (h.runsOf r (List.mem_singleton_self r)).symm, e, ?_, he.1, he.2, h.eventId⟩
      exact h.auditEvents ▸ List.mem_append_right _ (List.mem_singleton_self e)
  · intro ev hev hconfirmed
    rw [h.auditEvents] at hev
    rw [h.auditRuns]
    rcases List.mem_append.mp hev with hev | hev
    · obtain ⟨r, hr, hnames⟩ := hdb.confirmations ev hev hconfirmed
      exact ⟨r, List.mem_append_left _ hr, hnames⟩
    · obtain rfl := List.mem_singleton.mp hev
      exact ⟨run, List.mem_append_right _ (List.mem_singleton_self run),
        (h.runsOf run (List.mem_singleton_self run)).trans he.2.symm, h.names⟩
  · intro d hd hstatus
    rcases h.mem_drafts.mp hd with rfl | ⟨hd, -⟩
    · exact h.decided
    · exact h.decided_mono (hdb.confirmed d hd hstatus)
  · intro d hd hstatus
    rcases h.mem_drafts.mp hd with rfl | ⟨hd, -⟩
    · cases hstatus
    · exact h.decided_mono (hdb.rejected d hd hstatus)
  · intro d hd hdecided
    rcases h.mem_drafts.mp hd with rfl | ⟨hd, hid⟩
    · exact .inl rfl
    · exact hdb.decided d hd (hdecided.imp (fun hc => h.decided_old hc (.inr hid)) fun hr => h.decided_old hr (.inr hid))

/-- A confirmation keeps the law exactly if the draft is not rejected. -/
theorem Confirms.oneOutcomeEach_iff {correctedPayload : Option ParsedInvoice} {run : AuditRun} {e : AuditEvent}
    (h : Confirms sha256 db db' draft correctedPayload run e) (hdb : Recorded sha256 db) (heach : OneOutcomeEach db) :
    OneOutcomeEach db' ↔ draft.status ≠ .rejected := by
  rw [h.toDecides.oneOutcomeEach_iff heach]
  have hruns : db'.runsOf draft.id = [run] := by
    have hnone : db.runsOf draft.id = [] :=
      List.filter_eq_nil_iff.mpr fun r hr => by simpa using h.noRun r hr
    rw [h.runsOf_own, hnone, List.nil_append]
  constructor
  · intro hone hrejected
    exact hone.notBoth ⟨h.decided, h.decided_mono (hdb.rejected draft h.mem hrejected)⟩
  · intro hstatus
    refine ⟨?_, fun hboth => ?_, fun hrejected => (by cases hrejected), fun _ => ⟨?_, fun r hr => ?_⟩⟩
    · exact (congrArg List.length hruns).le
    · -- a rejection of the draft would have left it confirmed, and then it would have a run
      have hdecided := h.decided_old hboth.2 (.inl (by decide))
      rcases hdb.decided draft h.mem (.inr hdecided) with hconfirmed | hrejected
      · obtain ⟨ev, hev, hevent, hentity⟩ := hdb.confirmed draft h.mem hconfirmed
        obtain ⟨r, hr, hof, -⟩ := hdb.confirmations ev hev hevent
        exact h.noRun r hr (hof.trans hentity)
      · exact hstatus hrejected
    · exact ne_of_eq_of_ne hruns (List.cons_ne_nil _ _)
    · obtain rfl := List.mem_singleton.mp (hruns ▸ hr)
      exact ⟨rfl, h.invoice⟩

theorem Decides.recorded_reject {new : List AuditEvent}
    (h : Decides db db' draft .reject "invoice_draft.rejected" [] new) (hdb : Recorded sha256 db) :
    Recorded sha256 db' := by
  have hruns : db'.auditRuns = db.auditRuns := h.auditRuns.trans (List.append_nil _)
  constructor
  · intro r hr
    rw [hruns] at hr
    obtain ⟨d, hd, hid, ev, hev, hevent, hentity, hevId⟩ := hdb.runs r hr
    have hev' : ev ∈ db'.auditEvents := h.auditEvents ▸ List.mem_append_left _ hev
    by_cases hsame : d.id = draft.id
    · obtain rfl := KeyedTable.eq_of_key hd h.mem hsame
      exact ⟨_, h.mem_drafts.mpr (.inl rfl), hid, ev, hev', hevent, hentity, hevId⟩
    · exact ⟨d, h.mem_drafts.mpr (.inr ⟨hd, hsame⟩), hid, ev, hev', hevent, hentity, hevId⟩
  · intro ev hev hconfirmed
    rw [h.auditEvents] at hev
    rw [hruns]
    rcases List.mem_append.mp hev with hev | hev
    · exact hdb.confirmations ev hev hconfirmed
    · exact absurd ((h.events ev hev).1.symm.trans hconfirmed) (by decide)
  · intro d hd hstatus
    rcases h.mem_drafts.mp hd with rfl | ⟨hd, -⟩
    · cases hstatus
    · exact h.decided_mono (hdb.confirmed d hd hstatus)
  · intro d hd hstatus
    rcases h.mem_drafts.mp hd with rfl | ⟨hd, -⟩
    · exact h.decided
    · exact h.decided_mono (hdb.rejected d hd hstatus)
  · intro d hd hdecided
    rcases h.mem_drafts.mp hd with rfl | ⟨hd, hid⟩
    · exact .inr rfl
    · exact hdb.decided d hd (hdecided.imp (fun hc => h.decided_old hc (.inr hid)) fun hr => h.decided_old hr (.inr hid))

/-- A rejection keeps the law exactly if the draft is not confirmed. -/
theorem Decides.oneOutcomeEach_reject_iff {new : List AuditEvent}
    (h : Decides db db' draft .reject "invoice_draft.rejected" [] new) (hdb : Recorded sha256 db)
    (heach : OneOutcomeEach db) : OneOutcomeEach db' ↔ draft.status ≠ .confirmed := by
  rw [h.oneOutcomeEach_iff heach]
  have hruns : db'.runsOf draft.id = db.runsOf draft.id := h.runsOf_own.trans (List.append_nil _)
  constructor
  · intro hone hconfirmed
    exact hone.notBoth ⟨h.decided_mono (hdb.confirmed draft h.mem hconfirmed), h.decided⟩
  · intro hstatus
    have hold := heach draft h.mem
    -- a run would come with a confirmation, and leave the draft confirmed or rejected without a run
    have hnone : db.runsOf draft.id = [] := by
      by_contra hsome
      obtain ⟨r, hr⟩ := List.exists_mem_of_ne_nil _ hsome
      obtain ⟨hr, hof⟩ := List.mem_filter.mp hr
      obtain ⟨d, hd, hid, ev, hev, hevent, hentity, -⟩ := hdb.runs r hr
      have hdecided : db.Decided "invoice_draft.confirmed" draft.id :=
        ⟨ev, hev, hevent, hentity.trans (hid.trans (beq_iff_eq.mp hof))⟩
      rcases hdb.decided draft h.mem (.inl hdecided) with hconfirmed | hrejected
      · exact hstatus hconfirmed
      · exact hsome (hold.rejected hrejected)
    refine ⟨?_, fun hboth => ?_, fun _ => hruns.trans hnone, fun hconfirmed => (by cases hconfirmed)⟩
    · exact (congrArg List.length (hruns.trans hnone)).le.trans (Nat.zero_le 1)
    · obtain ⟨ev, hev, hevent, hentity⟩ := h.decided_old hboth.1 (.inl (by decide))
      obtain ⟨r, hr, hof, -⟩ := hdb.confirmations ev hev hevent
      have hmem : r ∈ db.runsOf draft.id := List.mem_filter.mpr ⟨hr, beq_iff_eq.mpr (hof.trans hentity)⟩
      rw [hnone] at hmem
      cases hmem

end

/-! ## Runs -/

theorem DraftEvidence.Names.eq {e : DraftEvidence} {id id' : String} (h : e.Names id) (h' : e.Names id') : id = id' := by
  obtain ⟨v, hv, hget⟩ := h
  obtain ⟨w, hw, hget'⟩ := h'
  obtain rfl := Option.some.inj (hv.symm.trans hw)
  exact Value.str.inj (Option.some.inj (hget.symm.trans hget'))

/-- What was not there under a lock is not there while it is held. -/
theorem absent_of_same {α : Type} {rows rows' : List α} {p : α → Prop} [DecidablePred p]
    (hsame : rows'.filter p = rows.filter p) (h : ∀ a ∈ rows, ¬ p a) : ∀ a ∈ rows', ¬ p a := by
  intro a ha hp
  have hmem : a ∈ rows.filter p := hsame ▸ List.mem_filter.mpr ⟨ha, decide_eq_true hp⟩
  exact h a (List.mem_filter.mp hmem).1 hp

section

variable {sha256 : String → String} {D : Type} [Decimal D] {unicode : Unicode} {uuidIn : String → Option String}
  {newId : ℕ → String} {db : DraftDb} {i startedAt : ℕ} {r : PUnit} {log : Log DraftDb DraftWrite LockKey}

theorem confirm_commit {input : ConfirmDraftInput}
    (h : Commit (draftsSystem sha256 D unicode uuidIn newId) (Recorded sha256) Since db (.confirm input) i startedAt r log) :
    ∃ draft run e, draft.id = input.draftId ∧
      Confirms sha256 db (view apply db log.writes) draft input.correctedPayload run e := by
  obtain ⟨draft₀, run, new, hc⟩ := confirm_ends h.ends
  obtain ⟨s₁, hs₁, hmem⟩ := hc.loaded
  obtain ⟨draft, hdraft, hlater⟩ := (h.seen s₁ hs₁).2.grows.drafts draft₀ hmem
  obtain ⟨s₂, hs₂, hlock₂, hfree₂⟩ := hc.free
  have hfree := absent_of_same ((h.seen s₂ hs₂).2.same _ hlock₂) hfree₂
  obtain ⟨s₃, hs₃, hlock₃, hlogged⟩ := hc.logged
  have hwrites := hc.writes
  rcases hlogged with ⟨rfl, hfresh₃⟩ | ⟨-, e, he, -, hsame⟩
  · have hfresh := absent_of_same ((h.seen s₃ hs₃).2.same _ hlock₃) hfresh₃
    have hacc : draft.accountId = input.clientId := hlater.accountId.trans hc.accountId
    let e : AuditEvent := { confirmedEvidence draft₀ input (newId i) with
      id := deterministicAuditEventId sha256 [input.clientId, draft₀.id, "invoice_draft.confirmed"] }
    have hview : view apply db log.writes =
        { apply db (.confirmDraft draft.id input.correctedPayload run.id) with
          auditRuns := db.auditRuns ++ [run]
          extractionFields := db.extractionFields ++ (input.correctedPayload.toList.map
            (correctionRows input.clientId draft₀.sourceDocumentId draft₀.extractedPayload)).flatten
          auditEvents := db.auditEvents ++ [e] } := by
      rw [hwrites, hc.runId, hlater.id, view_append, view_append, view_fields]
      rfl
    refine ⟨draft, run, e, hlater.id.trans hc.draftId, ⟨hdraft, later_confirm _ _, ?_, ?_, ?_, ?_, ?_, ?_⟩, ?_, ?_, ?_,
      fun r hr hof => ?_⟩
    · rw [hview]
      rfl
    · rw [hview]
    · intro r hr
      rw [List.mem_singleton.mp hr, hc.runDraft, hlater.id]
    · rw [hview]
    · intro e' he'
      obtain rfl := List.mem_singleton.mp he'
      exact ⟨rfl, hlater.id.symm⟩
    · rw [hview]
      exact ⟨e, List.mem_append_right _ (List.mem_singleton_self e), rfl, hlater.id.symm⟩
    · rw [hacc, hlater.id]
    · rw [hc.runId]
      exact confirmedEvidence_names draft₀ input (newId i)
    · rw [hc.invoice]
      simp [finalInvoice, InvoiceDraft.row, hlater.extractedPayload]
    · -- an earlier run of the draft would have taken the id of the event
      obtain ⟨d, hd, hid, ev, hev, -, -, hevId⟩ := h.good.runs r hr
      obtain rfl := KeyedTable.eq_of_key hd hdraft (hid.trans hof)
      exact hfresh ev hev (by rw [hevId, hacc, hlater.id])
  · -- the event there would name this run, which is not stored yet
    obtain ⟨hevent, -⟩ := sameEvidence_event hsame
    obtain ⟨r, hr, -, hnames⟩ := (h.seen s₃ hs₃).1.confirmations e he hevent
    have hid := hnames.eq (sameEvidence_names hsame (confirmedEvidence_names draft₀ input (newId i)))
    exact absurd hid (hfree r ((h.seen s₃ hs₃).2.grows.auditRuns hr))

theorem reject_commit {clientId draftId : String}
    (h : Commit (draftsSystem sha256 D unicode uuidIn newId) (Recorded sha256) Since db (.reject clientId draftId) i
      startedAt r log) :
    ∃ draft new, draft.id = draftId ∧
      Decides db (view apply db log.writes) draft .reject "invoice_draft.rejected" [] new := by
  obtain ⟨draft₀, new, hr⟩ := reject_ends h.ends
  obtain ⟨s₁, hs₁, hmem⟩ := hr.loaded
  obtain ⟨draft, hdraft, hlater⟩ := (h.seen s₁ hs₁).2.grows.drafts draft₀ hmem
  obtain ⟨s₂, hs₂, hlogged⟩ := hr.logged
  have hevents : ∀ (new : List AuditEvent) (db : DraftDb), view apply db (new.map .insertAuditEvent) =
      { db with auditEvents := db.auditEvents ++ new } := by
    intro new
    induction new with
    | nil => simp
    | cons e rest ih =>
      intro db
      rw [List.map_cons, view_cons, ih]
      simp [apply]
  have hview : view apply db log.writes =
      { apply db (.rejectDraft draftId) with auditEvents := db.auditEvents ++ new } := by
    rw [hr.writes, view_cons, hevents]
    rfl
  have hid : draft.id = draftId := hlater.id.trans hr.loadedId
  refine ⟨draft, new, hid, hdraft, later_reject, ?_, ?_, fun _ hr => (by cases hr), ?_, fun e he => ?_, ?_⟩
  · rw [hview, hid]
    rfl
  · rw [hview, List.append_nil]
    rfl
  · rw [hview]
  · rcases hlogged with ⟨rfl, -⟩ | ⟨rfl, -⟩
    · obtain rfl := List.mem_singleton.mp he
      exact ⟨rfl, hlater.id.symm⟩
    · cases he
  · rw [hview]
    rcases hlogged with ⟨rfl, -⟩ | ⟨rfl, e, he, -, hsame⟩
    · exact ⟨_, List.mem_append_right _ (List.mem_singleton_self _), rfl, hlater.id.symm⟩
    · obtain ⟨hevent, hentity⟩ := sameEvidence_event hsame
      exact ⟨e, List.mem_append_left _ ((h.seen s₂ hs₂).2.grows.auditEvents he), hevent,
        hentity.trans hlater.id.symm⟩

theorem recorded_commit {call : DraftCall}
    (h : Commit (draftsSystem sha256 D unicode uuidIn newId) (Recorded sha256) Since db call i startedAt r log) :
    Recorded sha256 (view apply db log.writes) := by
  cases call with
  | confirm input =>
    obtain ⟨draft, run, e, -, hconfirms⟩ := confirm_commit h
    exact hconfirms.recorded h.good
  | reject clientId draftId =>
    obtain ⟨draft, new, -, hrejects⟩ := reject_commit h
    exact hrejects.recorded_reject h.good

theorem oneOutcome_commit {call : DraftCall}
    (h : Commit (draftsSystem sha256 D unicode uuidIn newId) (Recorded sha256) Since db call i startedAt r log)
    (heach : OneOutcomeEach db) :
    OneOutcomeEach (view apply db log.writes) ↔ NotDecidedOtherwise db call log := by
  cases call with
  | confirm input =>
    obtain ⟨draft, run, e, hid, hconfirms⟩ := confirm_commit h
    rw [hconfirms.oneOutcomeEach_iff h.good heach]
    constructor
    · intro hstatus d hd hdid
      obtain rfl := KeyedTable.eq_of_key hd hconfirms.mem (hdid.trans hid.symm)
      exact hstatus
    · exact fun hall => hall draft hconfirms.mem hid
  | reject clientId draftId =>
    obtain ⟨draft, new, hid, hrejects⟩ := reject_commit h
    rw [hrejects.oneOutcomeEach_reject_iff h.good heach]
    constructor
    · intro hstatus d hd hdid
      obtain rfl := KeyedTable.eq_of_key hd hrejects.mem (hdid.trans hid.symm)
      exact hstatus
    · exact fun hall => hall draft hrejects.mem hid

end

/-- Drafts as they are extracted, none of them decided. -/
structure ExtractedDrafts where
  table : KeyedTable InvoiceDraft InvoiceDraft.id
  undecided : ∀ d ∈ table.rows, d.status ≠ .confirmed ∧ d.status ≠ .rejected

section

variable (sha256 : String → String) (D : Type) [Decimal D] (unicode : Unicode) (uuidIn : String → Option String)
  (newId : ℕ → String)

theorem recorded_initial (pinned : AuditDb) (drafts : ExtractedDrafts) :
    Recorded sha256 (DraftDb.initial pinned drafts.table) where
  runs := fun _ hr => by cases hr
  confirmations := fun _ he => by cases he
  confirmed := fun d hd hstatus => absurd hstatus (drafts.undecided d hd).1
  rejected := fun d hd hstatus => absurd hstatus (drafts.undecided d hd).2
  decided := fun d hd h => by rcases h with ⟨e, he, -⟩ | ⟨e, he, -⟩ <;> cases he

theorem oneOutcomeEach_initial (pinned : AuditDb) (drafts : ExtractedDrafts) :
    OneOutcomeEach (DraftDb.initial pinned drafts.table) := by
  intro d hd
  refine ⟨Nat.zero_le 1, ?_, fun _ => rfl, fun hstatus => absurd hstatus (drafts.undecided d hd).1⟩
  rintro ⟨⟨e, he, -⟩, -⟩
  cases he

/-- Every draft has one outcome along a run exactly if no confirmation commits over a rejected draft and no
rejection over a confirmed one. -/
theorem draftOutcomes_iff (pinned : AuditDb) (drafts : ExtractedDrafts) (next now : ℕ) (events : List (Event DraftCall)) :
    Runs.AllStates (step (draftsSystem sha256 D unicode uuidIn newId)) (fun w => OneOutcomeEach w.db)
        (World.initial (DraftDb.initial pinned drafts.table) next now) events ↔
      Runs.AllSteps (step (draftsSystem sha256 D unicode uuidIn newId)) (CommitsMeet NotDecidedOtherwise)
        (World.initial (DraftDb.initial pinned drafts.table) next now) events :=
  have outlined : Outline (draftsSystem sha256 D unicode uuidIn newId) _ _ _ :=
    outline drafts_parts body_covered fun _ _ _ _ _ _ h => recorded_commit h
  outlined.allStates_iff OneOutcomeEach NotDecidedOtherwise
    (fun _ _ _ _ _ _ h heach => oneOutcome_commit h heach) (recorded_initial sha256 pinned drafts)
    (oneOutcomeEach_initial pinned drafts) next now events

end

/-! ## Confirmed and rejected at once -/

/-- The document of the draft, and the rule of the footing gate. -/
def draftPinned : AuditDb :=
  { AuditLedger.footingDb [] List.nodup_nil with
    sourceDocuments := [⟨AuditLedger.uuidOf "03", AuditLedger.uuidOf "02", AuditLedger.hashText⟩]
    sourceDocumentKey := List.nodup_singleton _ }

/-- One draft, of an invoice that does not foot. -/
def unfootedDraft : ExtractedDrafts where
  table := ⟨[⟨AuditLedger.uuidOf "10", AuditLedger.uuidOf "02", .extracted, AuditLedger.uuidOf "03",
    draftOf "100.00" "90.00", none, none, none⟩], List.nodup_singleton _⟩
  undecided := by
    intro d hd
    obtain rfl := List.mem_singleton.mp hd
    exact ⟨DraftStatus.noConfusion, DraftStatus.noConfusion⟩

def confirmUnfooted : DraftCall := .confirm ⟨AuditLedger.uuidOf "02", AuditLedger.uuidOf "10", none, none, none⟩

def rejectUnfooted : DraftCall := .reject (AuditLedger.uuidOf "02") (AuditLedger.uuidOf "10")

/-- Both look at the draft before either decides it, and both commit. -/
theorem confirmedAndRejected :
    ¬ Runs.AllStates (step (draftsSystem id Ref .ascii some fun i => AuditLedger.uuidOf ("2" ++ toString i)))
      (fun w => OneOutcomeEach w.db) (World.initial (DraftDb.initial draftPinned unfootedDraft.table) 1 0)
      [.begin confirmUnfooted, .begin rejectUnfooted, .exec 1, .exec 2, .exec 1, .exec 1, .exec 1, .exec 1, .commit 1,
        .exec 2, .exec 2, .commit 2] := by
  decide +kernel

end InvoiceDrafts
