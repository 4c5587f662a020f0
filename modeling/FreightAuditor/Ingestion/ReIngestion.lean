import FreightAuditor.AuditLedger.NamedEvents
import FreightAuditor.AuditLedger.ReplayAuditRun

/- Ingesting the bytes of one document again and again.

   The bytes are stored once, under their hash, and the event that says so has an id made of
   the tenant and the document. But its detail has the content type that the caller names,
   which is no part of either key. So the bytes can be ingested again exactly if they come with
   the content type of the first time (`reIngested_iff`). -/
namespace ReIngestion

open AuditLedger (AuditDb AuditError SourceDocumentRow resolveAndEvaluate persistAuditRun storeSourceDocument
  contractVersionIds)
open DecimalJs Evaluator ExceptOk Ingestion JsText

/-! ## The events -/

/-- The event, with the entity it is about by its constructor. -/
inductive IngestDetail where
  | sourceStored (contentType : Option String) (sha256 : String)
  | auditCreated (invoiceId : String) (outcome : Outcome) (transactionSet : TransactionSet)
  deriving DecidableEq

def IngestDetail.event : IngestDetail → String
  | .sourceStored _ _ => "ingestion.source_stored"
  | .auditCreated _ _ _ => "ingestion.audit_created"

structure IngestDb where
  audit : AuditDb
  auditEvents : NamedEvent.Log IngestDetail

inductive IngestError where
  | unparseableEdi
  | audit (e : AuditError)
  | auditEventConflict

/-! ## Ingesting -/

/-- By the ST01 of the first ST segment. -/
def detectTransactionSet (raw : String) : Except IngestError TransactionSet :=
  match parseX12 raw with
  | .error _ => throw .unparseableEdi
  | .ok ix =>
    match el (firstSegment ix "ST") 1 with
    | some "210" => return .edi210
    | some "310" => return .edi310
    | _ => throw .unparseableEdi

section

variable (sha256 : String → String) (D : Type) [Decimal D] (unicode : Unicode) (uuidIn : String → Option String)

def parseInvoice (raw : String) (categorize : Categorize) : Except IngestError ParsedInvoice := do
  match ← detectTransactionSet raw with
  | .edi210 => (parse210 D unicode raw categorize).mapError fun _ => .unparseableEdi
  | _ => (parse310 D unicode raw categorize).mapError fun _ => .unparseableEdi

def writeAuditEvent (events : NamedEvent.Log IngestDetail) (clientId entityId : String) (detail : IngestDetail) :
    Except IngestError (NamedEvent.Log IngestDetail) :=
  match events.write sha256 IngestDetail.event clientId entityId detail with
  | some events => return events
  | none => throw .auditEventConflict

/-- The tenant and the document, by the hash that the object store answers for its bytes. -/
structure Document where
  clientId : String
  raw : String
  sha256 : String

/-- What differs between calls with the same bytes. `categorize` is what `resolveCategorizer` has resolved, and the
ids are those that the database gives the new rows. -/
structure IngestCall where
  contentType : Option String
  contractVersionId : Option String
  categorize : Categorize
  newDocumentId : String
  auditRunId : String
  invoiceId : String

variable (document : Document)

def ingestInvoice (db : IngestDb) (call : IngestCall) : Except IngestError IngestDb := do
  let (sourceDocument, audit) ←
    (storeSourceDocument db.audit document.clientId document.sha256 call.newDocumentId).mapError .audit
  let auditEvents ← writeAuditEvent sha256 db.auditEvents document.clientId sourceDocument.id
    (.sourceStored call.contentType sourceDocument.sha256)
  let invoice ← parseInvoice D unicode document.raw call.categorize
  let (result, resolvedInputs) ←
    (resolveAndEvaluate D unicode sha256 uuidIn audit document.clientId invoice call.contractVersionId).mapError .audit
  let audit ← (persistAuditRun unicode sha256 uuidIn audit
    { clientId := document.clientId, invoice, result, rubricSnapshotId := none, sourceDocuments := [sourceDocument]
      contractVersionIds := contractVersionIds call.contractVersionId, resolvedInputs } call.auditRunId).mapError .audit
  let auditEvents ← writeAuditEvent sha256 auditEvents document.clientId call.auditRunId
    (.auditCreated call.invoiceId result.outcome invoice.transactionSet)
  return ⟨audit, auditEvents⟩

/-- What happens to the document: it is ingested, or stored by an operation that does not ingest it. -/
inductive DocumentEvent where
  | ingest (call : IngestCall)
  | store (newDocumentId : String)

/-- What throws is rolled back. -/
def step (db : IngestDb) : DocumentEvent → Option IngestDb
  | .ingest call =>
    match ingestInvoice sha256 D unicode uuidIn document db call with
    | .ok db' => some db'
    | .error _ => some db
  | .store newDocumentId =>
    match storeSourceDocument db.audit document.clientId document.sha256 newDocumentId with
    | .ok (_, audit) => some { db with audit }
    | .error _ => some db

/-! ## The law -/

/-- The rows of the document. -/
def rowsOf (db : AuditDb) : List SourceDocumentRow :=
  db.sourceDocuments.filter fun row => row.accountId == document.clientId && row.sha256 == document.sha256

/-- The events that say that a document was stored. -/
def storedEvents (db : IngestDb) (sourceDocumentId : String) : List (NamedEvent IngestDetail) :=
  db.auditEvents.rows.filter fun e => e.detail.event = "ingestion.source_stored" ∧ e.entityId = sourceDocumentId

/-- The bytes parse, and the invoice is judged and stored on these rows. -/
def Ingestible (db : IngestDb) (call : IngestCall) : Prop :=
  ∃ invoice audit, parseInvoice D unicode document.raw call.categorize = .ok invoice ∧
    AuditLedger.ingestInvoice D unicode sha256 uuidIn db.audit
      ⟨document.clientId, document.sha256, invoice, call.contractVersionId⟩ call.newDocumentId call.auditRunId = .ok audit

/-- A call with such bytes commits a new run, on the document's one row, with the one event that says that it was stored. -/
def ReIngested (db : IngestDb) : DocumentEvent → Prop
  | .store _ => True
  | .ingest call => Ingestible sha256 D unicode uuidIn document db call →
      ∃ db' row, ingestInvoice sha256 D unicode uuidIn document db call = .ok db' ∧
        db.audit.manifest? call.auditRunId = none ∧ (db'.audit.manifest? call.auditRunId).isSome ∧
        rowsOf document db'.audit = [row] ∧ (∀ old ∈ rowsOf document db.audit, old = row) ∧
        (storedEvents db' row.id).length = 1

/-- The content type is that of the event that says that the document was stored, if there is one. -/
def SameContentType (db : IngestDb) : DocumentEvent → Prop
  | .store _ => True
  | .ingest call => Ingestible sha256 D unicode uuidIn document db call →
      ∀ row ∈ rowsOf document db.audit, ∀ e ∈ storedEvents db row.id,
        e.detail = .sourceStored call.contentType document.sha256

end

/-! ## The names of the events -/

theorem created_ne_stored : "ingestion.audit_created" ≠ "ingestion.source_stored" := by decide

theorem nul_not_mem_event (detail : IngestDetail) : '\x00' ∉ detail.event.toList := by
  cases detail with
  | sourceStored contentType sha256 =>
    show '\x00' ∉ "ingestion.source_stored".toList
    decide
  | auditCreated invoiceId outcome transactionSet =>
    show '\x00' ∉ "ingestion.audit_created".toList
    decide

/-! ## What a call does to the rows -/

section

variable {D : Type} [Decimal D] {unicode : Unicode} {sha256 : String → String} {uuidIn : String → Option String}
  {document : Document} {audit audit' : AuditDb}

/-- The one row of the document after it is stored is the one it had, if it had one. -/
theorem storeSourceDocument_row {newId : String} {pin : AuditLedger.SourceDocumentPin} (hone : (rowsOf document audit).length ≤ 1)
    (h : storeSourceDocument audit document.clientId document.sha256 newId = .ok (pin, audit')) :
    ∃ row, rowsOf document audit' = [row] ∧ pin = ⟨row.id, document.sha256⟩ ∧ (∀ old ∈ rowsOf document audit, old = row) ∧
      audit'.manifests = audit.manifests := by
  unfold storeSourceDocument at h
  split at h
  · rename_i row hfound
    obtain ⟨rfl, rfl⟩ := Prod.mk.inj (pure_eq_ok.mp h)
    have hmatch := List.find?_some hfound
    have hmem : row ∈ rowsOf document audit := List.mem_filter.mpr ⟨List.mem_of_find?_eq_some hfound, hmatch⟩
    obtain ⟨only, honly⟩ := List.length_eq_one_iff.mp (Nat.le_antisymm hone (List.length_pos_of_mem hmem))
    rw [honly] at hmem ⊢
    obtain rfl := List.mem_singleton.mp hmem
    exact ⟨row, rfl, rfl, fun old hold => List.mem_singleton.mp hold, rfl⟩
  · rename_i hnone
    have hempty : rowsOf document audit = [] := List.filter_eq_nil_iff.mpr (List.find?_eq_none.mp hnone)
    simp only [bind_eq_ok, pure_eq_ok, Prod.mk.injEq] at h
    obtain ⟨mid, hinsert, rfl, rfl⟩ := h
    unfold AuditDb.insertSourceDocument at hinsert
    split at hinsert
    · cases hinsert
    · obtain rfl := pure_eq_ok.mp hinsert
      refine ⟨⟨newId, document.clientId, document.sha256⟩, ?_, rfl, ?_, rfl⟩
      · show List.filter _ (audit.sourceDocuments ++ [_]) = _
        rw [List.filter_append, ← rowsOf, hempty, List.nil_append]
        exact List.filter_cons_of_pos (by simp)
      · rw [hempty]
        exact fun old hold => absurd hold List.not_mem_nil

/-- A run that is stored is new, and those that were stay. -/
theorem persistAuditRun_manifest {input : AuditLedger.PersistInput} {auditRunId : String}
    (h : persistAuditRun unicode sha256 uuidIn audit input auditRunId = .ok audit') :
    audit'.sourceDocuments = audit.sourceDocuments ∧ audit.manifest? auditRunId = none ∧
      (audit'.manifest? auditRunId).isSome ∧ ∀ id, (audit.manifest? id).isSome → (audit'.manifest? id).isSome := by
  simp only [AuditLedger.persistAuditRun, bind_eq_ok] at h
  obtain ⟨ruleVersionIds, -, contractIds, -, h⟩ := h
  split at h
  · cases h
  · rename_i hash hhash
    obtain ⟨hsame, hmanifest⟩ := AuditLedger.insertManifest_ok h
    refine ⟨hsame.sourceDocuments, ?_, by rw [hmanifest]; rfl, fun id hid => ?_⟩
    · unfold AuditDb.insertManifest at h
      split at h
      · cases h
      · rename_i hfree
        refine List.find?_eq_none.mpr fun row hrow hid => hfree ?_
        exact List.mem_map.mpr ⟨row, hrow, beq_iff_eq.mp hid⟩
    · unfold AuditDb.insertManifest at h
      split at h
      · cases h
      · obtain rfl := pure_eq_ok.mp h
        show (List.find? _ (audit.manifests ++ [_])).isSome
        rw [List.find?_append, Option.isSome_or]
        exact Bool.or_eq_true _ _ |>.mpr (.inl hid)

theorem writeAuditEvent_eq_ok {events events' : NamedEvent.Log IngestDetail} {clientId entityId : String}
    {detail : IngestDetail} : writeAuditEvent sha256 events clientId entityId detail = .ok events' ↔
      events.write sha256 IngestDetail.event clientId entityId detail = some events' := by
  unfold writeAuditEvent
  cases events.write sha256 IngestDetail.event clientId entityId detail with
  | none => exact iff_of_false (fun h => by cases h) fun h => by cases h
  | some after => rw [pure_eq_ok, Option.some.injEq]

/-! ## What holds of the rows -/

/-- The entity of the event is there. -/
def About (document : Document) (audit : AuditDb) (e : NamedEvent IngestDetail) : Prop :=
  match e.detail with
  | .sourceStored _ _ => ∃ row ∈ rowsOf document audit, row.id = e.entityId
  | .auditCreated _ _ _ => (audit.manifest? e.entityId).isSome

theorem About.mono {e : NamedEvent IngestDetail} (h : About document audit e)
    (hrows : ∀ row ∈ rowsOf document audit, row ∈ rowsOf document audit')
    (hmanifests : ∀ id, (audit.manifest? id).isSome → (audit'.manifest? id).isSome) : About document audit' e := by
  unfold About at h ⊢
  split at h
  · obtain ⟨row, hrow, hid⟩ := h
    exact ⟨row, hrows row hrow, hid⟩
  · exact hmanifests _ h

/-- The document has at most one row, and each event has the id of what it says about an entity that is there. -/
structure Kept (sha256 : String → String) (document : Document) (db : IngestDb) : Prop where
  one : (rowsOf document db.audit).length ≤ 1
  named : db.auditEvents.WellNamed sha256 IngestDetail.event document.clientId
  about : ∀ e ∈ db.auditEvents.rows, About document db.audit e

variable {events events' : NamedEvent.Log IngestDetail} {entityId : String} {detail : IngestDetail}

theorem Kept.write (hkept : Kept sha256 document ⟨audit, events⟩)
    (habout : About document audit (.of sha256 IngestDetail.event document.clientId entityId detail))
    (h : events.write sha256 IngestDetail.event document.clientId entityId detail = some events') :
    Kept sha256 document ⟨audit, events'⟩ := by
  refine ⟨hkept.one, hkept.named.write h, fun e he => ?_⟩
  rcases (NamedEvent.mem_write hkept.named h).mp he with he | rfl
  · exact hkept.about e he
  · exact habout

/-- What was recorded of a stored document is the only event that says so. -/
theorem Kept.storedEvents_length (hkept : Kept sha256 document ⟨audit, events⟩) {e : NamedEvent IngestDetail}
    (he : e ∈ storedEvents ⟨audit, events⟩ entityId) : (storedEvents ⟨audit, events⟩ entityId).length = 1 := by
  obtain ⟨hmem, hsays⟩ := List.mem_filter.mp he
  obtain ⟨hevent, hentity⟩ := of_decide_eq_true hsays
  have hone : storedEvents ⟨audit, events⟩ entityId = [e] := by
    refine KeyedTable.filter_eq_singleton hmem hsays fun a ha hsame => ?_
    obtain ⟨hevent', hentity'⟩ := of_decide_eq_true hsame
    rw [hkept.named.eq_of_name ha hmem (hentity'.trans hentity.symm) (hevent'.trans hevent.symm)]
  rw [hone]
  rfl

/-! ## What a call does -/

/-- Every part of a call that returns. -/
theorem ingestInvoice_eq_ok {db db' : IngestDb} {call : IngestCall} :
    ingestInvoice sha256 D unicode uuidIn document db call = .ok db' ↔
      ∃ pin stored events invoice result resolvedInputs audit events',
        storeSourceDocument db.audit document.clientId document.sha256 call.newDocumentId = .ok (pin, stored) ∧
        writeAuditEvent sha256 db.auditEvents document.clientId pin.id (.sourceStored call.contentType pin.sha256) = .ok events ∧
        parseInvoice D unicode document.raw call.categorize = .ok invoice ∧
        resolveAndEvaluate D unicode sha256 uuidIn stored document.clientId invoice call.contractVersionId =
          .ok (result, resolvedInputs) ∧
        persistAuditRun unicode sha256 uuidIn stored
          { clientId := document.clientId, invoice, result, rubricSnapshotId := none, sourceDocuments := [pin]
            contractVersionIds := contractVersionIds call.contractVersionId, resolvedInputs } call.auditRunId = .ok audit ∧
        writeAuditEvent sha256 events document.clientId call.auditRunId
          (.auditCreated call.invoiceId result.outcome invoice.transactionSet) = .ok events' ∧
        db' = ⟨audit, events'⟩ := by
  simp only [ingestInvoice, bind_eq_ok, pure_eq_ok, mapError_eq_ok, Prod.exists]
  constructor
  · intro h
    obtain ⟨pin, stored, hstore, events, hevent, invoice, hparse, result, resolvedInputs, hresult, audit, hpersist,
      events', hevent', rfl⟩ := h
    exact ⟨pin, stored, events, invoice, result, resolvedInputs, audit, events', hstore, hevent, hparse, hresult,
      hpersist, hevent', rfl⟩
  · intro h
    obtain ⟨pin, stored, events, invoice, result, resolvedInputs, audit, events', hstore, hevent, hparse, hresult,
      hpersist, hevent', rfl⟩ := h
    exact ⟨pin, stored, hstore, events, hevent, invoice, hparse, result, resolvedInputs, hresult, audit, hpersist,
      events', hevent', rfl⟩

theorem Kept.store {db : IngestDb} {newId : String} {pin : AuditLedger.SourceDocumentPin}
    (hkept : Kept sha256 document db)
    (h : storeSourceDocument db.audit document.clientId document.sha256 newId = .ok (pin, audit)) :
    Kept sha256 document { db with audit } := by
  obtain ⟨row, hrows, -, hold, hmanifests⟩ := storeSourceDocument_row hkept.one h
  refine ⟨le_of_eq (by rw [hrows]; rfl), hkept.named, fun e he => (hkept.about e he).mono (fun old hmem => ?_) fun id hid => ?_⟩
  · rw [hrows, hold old hmem]
    exact List.mem_singleton_self row
  · rw [AuditDb.manifest?, hmanifests]
    exact hid

/-- A call that returns has done what is expected of it. -/
theorem Kept.ingest {db db' : IngestDb} {call : IngestCall} (hkept : Kept sha256 document db)
    (h : ingestInvoice sha256 D unicode uuidIn document db call = .ok db') :
    Kept sha256 document db' ∧ ∃ row, db.audit.manifest? call.auditRunId = none ∧
      (db'.audit.manifest? call.auditRunId).isSome ∧ rowsOf document db'.audit = [row] ∧
      (∀ old ∈ rowsOf document db.audit, old = row) ∧ (storedEvents db' row.id).length = 1 := by
  obtain ⟨pin, stored, events, invoice, result, resolvedInputs, audit, events', hstore, hevent, -, -, hpersist, hevent',
    rfl⟩ := ingestInvoice_eq_ok.mp h
  obtain ⟨row, hrows, rfl, hold, hmanifests⟩ := storeSourceDocument_row hkept.one hstore
  obtain ⟨hdocuments, hfree, hthere, hstay⟩ := persistAuditRun_manifest hpersist
  have hwrite := writeAuditEvent_eq_ok.mp hevent
  have hwrite' := writeAuditEvent_eq_ok.mp hevent'
  have hrows' : rowsOf document audit = [row] := by rw [rowsOf, hdocuments, ← rowsOf, hrows]
  have hfirst : Kept sha256 document ⟨stored, events⟩ := by
    have habout : About document stored (.of sha256 IngestDetail.event document.clientId row.id (.sourceStored call.contentType document.sha256)) :=
      ⟨row, by rw [hrows]; exact List.mem_singleton_self row, rfl⟩
    exact (hkept.store hstore).write habout hwrite
  have hrun : Kept sha256 document ⟨audit, events⟩ := by
    refine ⟨le_of_eq (by rw [hrows']; rfl), hfirst.named, fun e he => (hfirst.about e he).mono (fun old hmem => ?_) hstay⟩
    rw [rowsOf, hdocuments]
    exact hmem
  have habout : About document audit
      (.of sha256 IngestDetail.event document.clientId call.auditRunId
        (.auditCreated call.invoiceId result.outcome invoice.transactionSet)) :=
    hthere
  have hlast : Kept sha256 document ⟨audit, events'⟩ := hrun.write habout hwrite'
  refine ⟨hlast, row, ?_, hthere, hrows', hold, ?_⟩
  · rw [AuditDb.manifest?, ← hmanifests]
    exact hfree
  · -- the first event is there, and the second write has lost none
    have hmem := (NamedEvent.mem_write hrun.named hwrite').mpr
      (.inl ((NamedEvent.mem_write (hkept.store hstore).named hwrite).mpr (.inr rfl)))
    exact hlast.storedEvents_length (List.mem_filter.mpr ⟨hmem, decide_eq_true ⟨rfl, rfl⟩⟩)

/-- With bytes that can be ingested, a call returns if the stored event has its content type. -/
theorem Kept.returns_iff {db : IngestDb} {call : IngestCall} (hsha : Function.Injective sha256)
    (hkept : Kept sha256 document db) (hbytes : Ingestible sha256 D unicode uuidIn document db call) :
    Returns (ingestInvoice sha256 D unicode uuidIn document db call) ↔
      ∀ row ∈ rowsOf document db.audit, ∀ e ∈ storedEvents db row.id, e.detail = .sourceStored call.contentType document.sha256 := by
  constructor
  · intro h row hrow e he
    obtain ⟨db', h⟩ := h
    obtain ⟨pin, stored, events, -, -, -, -, -, hstore, hevent, -⟩ := ingestInvoice_eq_ok.mp h
    obtain ⟨row', -, rfl, hold, -⟩ := storeSourceDocument_row hkept.one hstore
    obtain rfl := hold row hrow
    have hwritten := Option.isSome_iff_exists.mpr ⟨_, writeAuditEvent_eq_ok.mp hevent⟩
    obtain ⟨hmem, hsays⟩ := List.mem_filter.mp he
    obtain ⟨hevent, hentity⟩ := of_decide_eq_true hsays
    exact (NamedEvent.write_isSome hsha nul_not_mem_event (hkept.store hstore).named).mp hwritten e hmem hevent hentity
  · intro hsame
    obtain ⟨invoice, audit, hparse, h⟩ := hbytes
    simp only [AuditLedger.ingestInvoice, bind_eq_ok, Prod.exists] at h
    obtain ⟨pin, stored, hstore, result, resolvedInputs, hresult, hpersist⟩ := h
    obtain ⟨row, hrows, rfl, hold, hmanifests⟩ := storeSourceDocument_row hkept.one hstore
    obtain ⟨hdocuments, hfree, hthere, hstay⟩ := persistAuditRun_manifest hpersist
    have hstored := hkept.store hstore
    have hwrite : (db.auditEvents.write sha256 IngestDetail.event document.clientId row.id
        (.sourceStored call.contentType document.sha256)).isSome := by
      refine (NamedEvent.write_isSome hsha nul_not_mem_event hstored.named).mpr fun e he hevent hentity => ?_
      -- an event that says that the document was stored is about a row that was there
      have habout := hkept.about e he
      unfold About at habout
      split at habout
      · obtain ⟨old, hmem, hid⟩ := habout
        exact hsame old hmem e (List.mem_filter.mpr ⟨he, decide_eq_true ⟨hevent, hid.symm⟩⟩)
      · rename_i hdetail
        rw [hdetail] at hevent
        exact absurd hevent created_ne_stored
    obtain ⟨events, hevent⟩ := Option.isSome_iff_exists.mp hwrite
    have hfirst : Kept sha256 document ⟨stored, events⟩ := by
      have habout : About document stored (.of sha256 IngestDetail.event document.clientId row.id (.sourceStored call.contentType document.sha256)) :=
        ⟨row, by rw [hrows]; exact List.mem_singleton_self row, rfl⟩
      exact hstored.write habout hevent
    have hwrite' : (events.write sha256 IngestDetail.event document.clientId call.auditRunId
        (.auditCreated call.invoiceId result.outcome invoice.transactionSet)).isSome := by
      refine (NamedEvent.write_isSome hsha nul_not_mem_event hfirst.named).mpr fun e he hevent hentity => ?_
      -- the run is new, so no event is about it
      have habout := hfirst.about e he
      unfold About at habout
      split at habout
      · rename_i hdetail
        rw [hdetail] at hevent
        exact absurd hevent.symm created_ne_stored
      · rw [hentity, hfree] at habout
        cases habout
    obtain ⟨events', hevent'⟩ := Option.isSome_iff_exists.mp hwrite'
    exact ⟨⟨audit, events'⟩, ingestInvoice_eq_ok.mpr ⟨_, stored, events, invoice, result, resolvedInputs, audit, events',
      hstore, writeAuditEvent_eq_ok.mpr hevent, hparse, hresult, hpersist, writeAuditEvent_eq_ok.mpr hevent', rfl⟩⟩

theorem Kept.step {db db' : IngestDb} {event : DocumentEvent} (hkept : Kept sha256 document db)
    (h : step sha256 D unicode uuidIn document db event = some db') : Kept sha256 document db' := by
  cases event with
  | ingest call =>
    simp only [ReIngestion.step] at h
    split at h
    · rename_i after hcall
      obtain rfl := Option.some.inj h
      exact (hkept.ingest hcall).1
    · obtain rfl := Option.some.inj h
      exact hkept
  | store newDocumentId =>
    simp only [ReIngestion.step] at h
    split at h
    · rename_i pin audit hstore
      obtain rfl := Option.some.inj h
      exact hkept.store hstore
    · obtain rfl := Option.some.inj h
      exact hkept

theorem Kept.step_reIngested {db : IngestDb} {event : DocumentEvent} (hsha : Function.Injective sha256)
    (hkept : Kept sha256 document db) : ReIngested sha256 D unicode uuidIn document db event ↔
      SameContentType sha256 D unicode uuidIn document db event := by
  cases event with
  | store newDocumentId => exact Iff.rfl
  | ingest call =>
    refine forall_congr' fun hbytes => ?_
    rw [← hkept.returns_iff hsha hbytes]
    constructor
    · intro h
      obtain ⟨db', row, hcall, -⟩ := h
      exact ⟨db', hcall⟩
    · intro h
      obtain ⟨db', hcall⟩ := h
      obtain ⟨-, row, hdone⟩ := hkept.ingest hcall
      exact ⟨db', row, hcall, hdone⟩

end

/-- Over every history of a document, each call with bytes that can be ingested commits a run on its one row, with one
event that says that it was stored, if and only if each has the content type of that event. -/
theorem reIngested_iff (sha256 : String → String) (hsha : Function.Injective sha256) (D : Type) [Decimal D] (unicode : Unicode)
    (uuidIn : String → Option String) (document : Document) (audit : AuditDb) (hone : (rowsOf document audit).length ≤ 1)
    (events : List DocumentEvent) :
    Runs.AllSteps (step sha256 D unicode uuidIn document) (ReIngested sha256 D unicode uuidIn document) ⟨audit, .empty⟩ events ↔
      Runs.AllSteps (step sha256 D unicode uuidIn document) (SameContentType sha256 D unicode uuidIn document) ⟨audit, .empty⟩
        events := by
  refine Runs.allSteps_iff (Kept sha256 document) (fun db event db' hkept h => hkept.step h)
    (fun db event db' hkept _ => hkept.step_reIngested hsha) events _ ?_
  exact ⟨hone, fun e he => absurd he List.not_mem_nil, fun e he => absurd he List.not_mem_nil⟩

/-! ## A motor invoice sent twice -/

open AuditLedger (footingDb uuidOf hashText)

/-- One line of 100.00, and a declared total of 90.00. -/
def motorBill : Document where
  clientId := uuidOf "02"
  raw := "ISA****************>~ST*210*1~B3**INV-7*S1****90.00****SCAC~L1*1***100.00****LHS~"
  sha256 := hashText

/-- The bytes with their content type as a caller states it. -/
def motorCall (contentType : Option String) (newDocumentId auditRunId : String) : IngestCall :=
  ⟨contentType, none, fun _ => some "LINEHAUL", newDocumentId, auditRunId, uuidOf "09"⟩

def ediCall : IngestCall := motorCall (some "application/edi-x12") (uuidOf "11") (uuidOf "12")

def ediAgain : IngestCall := motorCall (some "application/edi-x12") (uuidOf "13") (uuidOf "14")

def untypedAgain : IngestCall := motorCall none (uuidOf "13") (uuidOf "14")

def emptyDb : IngestDb := ⟨footingDb [] List.nodup_nil, .empty⟩

/-- After the first call, the document has its row and its event. -/
theorem ediCall_done : ∃ db, ingestInvoice id Ref .ascii some motorBill emptyDb ediCall = .ok db ∧
    step id Ref .ascii some motorBill emptyDb (.ingest ediCall) = some db := by
  obtain ⟨db, h⟩ := exists_ok (x := ingestInvoice id Ref .ascii some motorBill emptyDb ediCall) (by decide +kernel)
  exact ⟨db, h, by rw [step, h]⟩

/-- With the same content type, the second call is as good as the first. -/
theorem sameBytes_reIngested : Runs.AllSteps (step id Ref .ascii some motorBill) (ReIngested id Ref .ascii some motorBill)
    emptyDb [.ingest ediCall, .ingest ediAgain] := by
  refine (reIngested_iff id Function.injective_id Ref .ascii some motorBill (footingDb [] List.nodup_nil) (by decide)
    [.ingest ediCall, .ingest ediAgain]).mpr ?_
  obtain ⟨db, h, hstep⟩ := ediCall_done
  intro db' hstep'
  obtain rfl := Option.some.inj (hstep.symm.trans hstep')
  refine ⟨fun _ row hrow => absurd hrow List.not_mem_nil, fun _ _ => ⟨fun _ row hrow e he => ?_, trivial⟩⟩
  have hevents : (ingestInvoice id Ref .ascii some motorBill emptyDb ediCall).toOption.all (fun db =>
      (rowsOf motorBill db.audit).all fun row => (storedEvents db row.id).all fun e =>
        decide (e.detail = .sourceStored ediAgain.contentType motorBill.sha256)) = true := by
    decide +kernel
  rw [h] at hevents
  exact of_decide_eq_true (List.all_eq_true.mp (List.all_eq_true.mp hevents row hrow) e he)

/-- Without one, it conflicts with the event of the first, and nothing is committed. -/
theorem otherContentType_refused : ¬ Runs.AllSteps (step id Ref .ascii some motorBill)
    (ReIngested id Ref .ascii some motorBill) emptyDb [.ingest ediCall, .ingest untypedAgain] := by
  intro hall
  obtain ⟨db, h, hstep⟩ := ediCall_done
  obtain ⟨-, hrest⟩ := hall db hstep
  have hrefused : (ingestInvoice id Ref .ascii some motorBill emptyDb ediCall).toOption.all (fun db =>
      !(ingestInvoice id Ref .ascii some motorBill db untypedAgain).isOk) = true := by
    decide +kernel
  have hbytes : (ingestInvoice id Ref .ascii some motorBill emptyDb ediCall).toOption.all (fun db =>
      (parseInvoice Ref .ascii motorBill.raw untypedAgain.categorize).toOption.any fun invoice =>
        (AuditLedger.ingestInvoice Ref .ascii id some db.audit ⟨motorBill.clientId, motorBill.sha256, invoice, none⟩
          untypedAgain.newDocumentId untypedAgain.auditRunId).isOk) = true := by
    decide +kernel
  rw [h] at hrefused hbytes
  obtain ⟨invoice, hinvoice, haudit⟩ := (Option.any_eq_true _ _).mp hbytes
  obtain ⟨audit, haudit⟩ := exists_ok haudit
  have hparse : parseInvoice Ref .ascii motorBill.raw untypedAgain.categorize = .ok invoice := by
    cases hresult : parseInvoice Ref .ascii motorBill.raw untypedAgain.categorize with
    | ok a =>
      rw [hresult] at hinvoice
      rw [Option.some.inj hinvoice]
    | error e =>
      rw [hresult] at hinvoice
      cases hinvoice
  have hnever : ∀ after, ingestInvoice id Ref .ascii some motorBill db untypedAgain ≠ .ok after := by
    intro after hcall
    have hfails : (!(ingestInvoice id Ref .ascii some motorBill db untypedAgain).isOk) = true := hrefused
    rw [hcall] at hfails
    cases hfails
  have hsecond : step id Ref .ascii some motorBill db (.ingest untypedAgain) = some db := by
    rw [step]
    split
    · rename_i after hcall
      exact absurd hcall (hnever after)
    · rfl
  obtain ⟨hdone, -⟩ := hrest db hsecond
  obtain ⟨after, -, hcall, -⟩ := hdone ⟨invoice, audit, hparse, haudit⟩
  exact hnever after hcall

end ReIngestion
