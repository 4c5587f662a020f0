import FreightAuditor.Ingestion.DraftTables
import FreightAuditor.Library.LikePattern
import FreightAuditor.Library.WriteOnce

/- The carrier of a PDF invoice, by the name that was read off it.

   A name that equals one of the catalogue's is taken for it; else one that contains, or is
   contained in, the only such name. The search for the latter is a `LIKE` pattern made of the
   names themselves, so it is literal exactly as far as the patterns are
   (`matchedLiterally_iff`). A draft is stored as extracted only with a carrier. -/
namespace InvoiceDrafts

open AuditLedger (AuditDb AuditError DraftStatus storeSourceDocument)
open ExceptOk Ingestion Json JsText LikePattern

structure CarrierRow where
  id : String
  name : String
  deriving DecidableEq

structure CarrierCandidate where
  carrierId : String
  name : String
  deriving DecidableEq

structure CarrierMatchResult where
  carrierId : Option String
  candidates : List CarrierCandidate
  deriving DecidableEq

def CarrierRow.candidate (row : CarrierRow) : CarrierCandidate := ⟨row.id, row.name⟩

/-- `text LIKE '%' || part || '%'`, which is never rejected. -/
def likeContains (text part : String) : Bool := (like ("%" ++ part ++ "%") text).getD false

section

variable (unicode : Unicode)

/-- The rows of the first query. -/
def namesakes (catalogue : KeyedTable CarrierRow CarrierRow.id) (name : String) : List CarrierRow :=
  catalogue.rows.filter fun row => unicode.lower row.name = unicode.lower name

/-- The rows of the second query. -/
def lookalikes (catalogue : KeyedTable CarrierRow CarrierRow.id) (name : String) : List CarrierRow :=
  catalogue.rows.filter fun row =>
    likeContains (unicode.lower row.name) (unicode.lower name) || likeContains (unicode.lower name) (unicode.lower row.name)

def matchCarrierName (catalogue : KeyedTable CarrierRow CarrierRow.id) (rawName : String) : CarrierMatchResult :=
  let trimmed := trim rawName
  if trimmed = "" then ⟨none, []⟩
  else
    match namesakes unicode catalogue trimmed with
    | [row] => ⟨some row.id, []⟩
    | [] =>
      match lookalikes unicode catalogue trimmed with
      | [row] => ⟨some row.id, []⟩
      | rows => ⟨none, rows.map CarrierRow.candidate⟩
    | rows => ⟨none, rows.map CarrierRow.candidate⟩

/-! ## Creating a draft -/

structure StoredDraft extends InvoiceDraft where
  carrierCandidates : List CarrierCandidate
  extractionModel : String

/-- The rows of the draft's tenant, and the catalogue that it sees. -/
structure DraftStore where
  audit : AuditDb
  carriers : KeyedTable CarrierRow CarrierRow.id
  drafts : KeyedTable StoredDraft fun d => d.id
  auditEvents : KeyedTable AuditEvent AuditEvent.id

inductive CreateDraftError where
  | unextractablePdf
  | audit (e : AuditError)
  | uniqueViolation
  | auditEventConflict

structure DraftRecord where
  id : String
  status : DraftStatus
  extractedPayload : ParsedInvoice
  carrierCandidates : List CarrierCandidate

def EXTRACTION_MODEL : String := "claude-opus-5"

def draftStatusText : DraftStatus → String
  | .extracted => "extracted" | .needs_carrier_review => "needs_carrier_review" | .confirmed => "confirmed"
  | .rejected => "rejected"

/-- The event `invoice_draft.extracted`. -/
def extractedEvidence (clientId draftId sourceDocumentId : String) (status : DraftStatus) : DraftEvidence where
  clientId := clientId
  entityId := draftId
  event := "invoice_draft.extracted"
  detail := some (.obj [("sourceDocumentId", .str sourceDocumentId), ("status", .str (draftStatusText status)),
    ("extractionModel", .str EXTRACTION_MODEL)])

variable (sha256 : String → String)

/-- `extracted` is what `extractInvoiceFromPdf` answers for the bytes, and `draftId` the id the database gives the draft. -/
def createInvoiceDraft (store : DraftStore) (clientId documentSha256 : String)
    (extracted : Except CreateDraftError (ParsedInvoice × String)) (newDocumentId draftId : String) :
    Except CreateDraftError (DraftRecord × DraftStore) := do
  let (doc, audit) ← (storeSourceDocument store.audit clientId documentSha256 newDocumentId).mapError .audit
  let (invoice, carrierName) ← extracted
  let carrierMatch := matchCarrierName unicode store.carriers carrierName
  let status : DraftStatus :=
    if carrierMatch.carrierId = none ∧ carrierMatch.candidates.length ≠ 1 then .needs_carrier_review else .extracted
  let some drafts := store.drafts.insert
    { id := draftId, accountId := clientId, status, sourceDocumentId := doc.id, extractedPayload := invoice
      correctedPayload := none, resolvedCarrierId := carrierMatch.carrierId, confirmedAuditRunId := none
      carrierCandidates := carrierMatch.candidates, extractionModel := EXTRACTION_MODEL }
    | throw .uniqueViolation
  let some (_, auditEvents) := store.auditEvents.record (fun row e => sameEvidence row.toDraftEvidence e.toDraftEvidence)
    { extractedEvidence clientId draftId doc.id status with
      id := deterministicAuditEventId sha256 [clientId, draftId, "invoice_draft.extracted"] }
    | throw .auditEventConflict
  return (⟨draftId, status, invoice, carrierMatch.candidates⟩, ⟨audit, store.carriers, drafts, auditEvents⟩)

/-! ## What a match says -/

/-- The non-empty names that contain this one or are contained in it, ignoring case. -/
def containing (catalogue : KeyedTable CarrierRow CarrierRow.id) (name : String) : List CarrierRow :=
  catalogue.rows.filter fun row => row.name ≠ "" ∧
    ((unicode.lower name).toList <:+: (unicode.lower row.name).toList ∨
      (unicode.lower row.name).toList <:+: (unicode.lower name).toList)

/-- The carrier is the only namesake, or where there is none, the only one whose name contains this one or is contained
in it; without a carrier, the candidates are all that the last of the two found. -/
structure MatchedLiterally (catalogue : KeyedTable CarrierRow CarrierRow.id) (name : String) (result : CarrierMatchResult) : Prop where
  carrier : ∀ id, result.carrierId = some id ↔
    (∃ row, namesakes unicode catalogue name = [row] ∧ row.id = id) ∨
      namesakes unicode catalogue name = [] ∧ ∃ row, containing unicode catalogue name = [row] ∧ row.id = id
  candidates : result.carrierId = none → result.candidates =
    (if (namesakes unicode catalogue name).isEmpty then containing unicode catalogue name
      else namesakes unicode catalogue name).map CarrierRow.candidate

/-- The patterns find the names that they are meant to find. -/
def SearchedLiterally (catalogue : KeyedTable CarrierRow CarrierRow.id) (name : String) : Prop :=
  ∀ row ∈ catalogue.rows,
    (likeContains (unicode.lower row.name) (unicode.lower name) || likeContains (unicode.lower name) (unicode.lower row.name)) =
      decide (row.name ≠ "" ∧ ((unicode.lower name).toList <:+: (unicode.lower row.name).toList ∨
        (unicode.lower row.name).toList <:+: (unicode.lower name).toList))

/-- The name has a namesake, or the patterns are literal; or it is blank, and is no part of any name. -/
def FoundLiterally (catalogue : KeyedTable CarrierRow CarrierRow.id) (name : String) : Prop :=
  if name = "" then namesakes unicode catalogue name = [] ∧ containing unicode catalogue name = []
  else namesakes unicode catalogue name ≠ [] ∨ SearchedLiterally unicode catalogue name

/-- No name is empty, and none has a pattern character. -/
def PlainNames (catalogue : KeyedTable CarrierRow CarrierRow.id) (name : String) : Prop :=
  Plain (unicode.lower name) ∧ ∀ row ∈ catalogue.rows, row.name ≠ "" ∧ Plain (unicode.lower row.name)

instance (catalogue : KeyedTable CarrierRow CarrierRow.id) (name : String) : Decidable (PlainNames unicode catalogue name) :=
  have : Decidable (∀ row ∈ catalogue.rows, row.name ≠ "" ∧ Plain (unicode.lower row.name)) :=
    List.decidableBAll (fun row : CarrierRow => row.name ≠ "" ∧ Plain (unicode.lower row.name)) _
  inferInstanceAs (Decidable (_ ∧ _))

end

section

variable {unicode : Unicode} {catalogue : KeyedTable CarrierRow CarrierRow.id} {name rawName : String}

/-- The pattern is one. -/
theorem like_eq_likeContains (text part : String) : like ("%" ++ part ++ "%") text = some (likeContains text part) := by
  have hread : (read ("%" ++ part ++ "%").toList).isSome := by
    rw [String.toList_append, show "%".toList = ['%'] by decide]
    exact read_percent_isSome _
  have hlike : (like ("%" ++ part ++ "%") text).isSome := by rwa [like, Option.isSome_map]
  obtain ⟨found, hfound⟩ := Option.isSome_iff_exists.mp hlike
  rw [likeContains, hfound, Option.getD_some]

theorem likeContains_plain {part : String} (hplain : Plain part) (text : String) :
    likeContains text part = decide (part.toList <:+: text.toList) := by
  rw [likeContains, like_contains hplain, Option.getD_some]

/-- Among plain names, the patterns are literal. -/
theorem searchedLiterally_of_plain (hplain : PlainNames unicode catalogue name) :
    SearchedLiterally unicode catalogue name := by
  intro row hrow
  obtain ⟨hname, hrows⟩ := hplain
  obtain ⟨hnonempty, hrow⟩ := hrows row hrow
  rw [likeContains_plain hname, likeContains_plain hrow, Bool.eq_iff_iff, Bool.or_eq_true, decide_eq_true_eq,
    decide_eq_true_eq, decide_eq_true_eq]
  exact ⟨fun h => ⟨hnonempty, h⟩, fun h => h.2⟩

theorem lookalikes_eq_iff :
    lookalikes unicode catalogue name = containing unicode catalogue name ↔ SearchedLiterally unicode catalogue name := by
  constructor
  · intro h row hrow
    have hmem : row ∈ lookalikes unicode catalogue name ↔ row ∈ containing unicode catalogue name := by rw [h]
    rw [lookalikes, containing, List.mem_filter, List.mem_filter, and_congr_right_iff] at hmem
    exact Bool.eq_iff_iff.mpr (hmem hrow)
  · exact List.filter_congr

/-- The answer that the rows of a stage give. -/
theorem matchCarrierName_stages (hname : trim rawName ≠ "") :
    ((∃ row, namesakes unicode catalogue (trim rawName) = [row] ∧
        matchCarrierName unicode catalogue rawName = ⟨some row.id, []⟩) ∨
      (∃ first second rest, namesakes unicode catalogue (trim rawName) = first :: second :: rest ∧
        matchCarrierName unicode catalogue rawName =
          ⟨none, (namesakes unicode catalogue (trim rawName)).map CarrierRow.candidate⟩)) ∨
    namesakes unicode catalogue (trim rawName) = [] ∧
      ((∃ row, lookalikes unicode catalogue (trim rawName) = [row] ∧
        matchCarrierName unicode catalogue rawName = ⟨some row.id, []⟩) ∨
      ((∀ row, lookalikes unicode catalogue (trim rawName) ≠ [row]) ∧ matchCarrierName unicode catalogue rawName =
          ⟨none, (lookalikes unicode catalogue (trim rawName)).map CarrierRow.candidate⟩)) := by
  unfold matchCarrierName
  simp only [if_neg hname]
  cases hnamesakes : namesakes unicode catalogue (trim rawName) with
  | nil =>
    refine .inr ⟨rfl, ?_⟩
    cases hlookalikes : lookalikes unicode catalogue (trim rawName) with
    | nil => exact .inr ⟨fun row h => (List.cons_ne_nil _ _ h.symm).elim, rfl⟩
    | cons row rest =>
      cases rest with
      | nil => exact .inl ⟨row, rfl, rfl⟩
      | cons second rest => exact .inr ⟨fun row h => (by cases h), rfl⟩
  | cons row rest =>
    cases rest with
    | nil => exact .inl (.inl ⟨row, rfl, rfl⟩)
    | cons second rest => exact .inl (.inr ⟨row, second, rest, rfl, rfl⟩)

theorem candidate_injective : Function.Injective CarrierRow.candidate := by
  intro a b h
  obtain ⟨hid, hname⟩ := CarrierCandidate.mk.inj h
  cases a
  cases b
  exact congrArg₂ CarrierRow.mk hid hname

theorem matchCarrierName_blank (hname : trim rawName = "") : matchCarrierName unicode catalogue rawName = ⟨none, []⟩ := by
  unfold matchCarrierName
  exact if_pos hname

/-- With a namesake, the patterns are not used. -/
theorem matchedLiterally_of_namesake (hname : trim rawName ≠ "")
    (hnamesakes : namesakes unicode catalogue (trim rawName) ≠ []) :
    MatchedLiterally unicode catalogue (trim rawName) (matchCarrierName unicode catalogue rawName) := by
  rcases @matchCarrierName_stages unicode catalogue rawName hname with
    (⟨row, hrows, hresult⟩ | ⟨first, second, rest, hrows, hresult⟩) | ⟨hnone, -⟩
  · rw [hresult]
    refine ⟨fun id => ?_, fun h => by cases h⟩
    rw [hrows]
    simp
  · rw [hresult]
    refine ⟨fun id => ?_, fun _ => ?_⟩
    · rw [hrows]
      simp
    · rw [hrows]
      rfl
  · exact absurd hnone hnamesakes

/-- Without one, the match is literal if the patterns are. -/
theorem matchedLiterally_iff_lookalikes (hname : trim rawName ≠ "")
    (hnone : namesakes unicode catalogue (trim rawName) = []) :
    MatchedLiterally unicode catalogue (trim rawName) (matchCarrierName unicode catalogue rawName) ↔
      lookalikes unicode catalogue (trim rawName) = containing unicode catalogue (trim rawName) := by
  rcases @matchCarrierName_stages unicode catalogue rawName hname with
    (⟨row, hrows, -⟩ | ⟨first, second, rest, hrows, -⟩) | ⟨-, ⟨row, hrows, hresult⟩ | ⟨hmany, hresult⟩⟩
  · rw [hnone] at hrows
    cases hrows
  · rw [hnone] at hrows
    cases hrows
  · rw [hresult, hrows]
    constructor
    · intro h
      rcases (h.carrier row.id).mp rfl with ⟨first, hfirst, -⟩ | ⟨-, only, honly, hid⟩
      · rw [hnone] at hfirst
        cases hfirst
      · have hrow : row ∈ catalogue.rows :=
          (List.mem_filter.mp (hrows ▸ List.mem_singleton_self row : row ∈ lookalikes unicode catalogue (trim rawName))).1
        have honlyRow : only ∈ catalogue.rows :=
          (List.mem_filter.mp (honly ▸ List.mem_singleton_self only : only ∈ containing unicode catalogue (trim rawName))).1
        rw [honly, KeyedTable.eq_of_key honlyRow hrow hid]
    · intro h
      refine ⟨fun id => ?_, fun h => by cases h⟩
      rw [hnone, ← h]
      simp
  · rw [hresult]
    constructor
    · intro h
      have hcandidates := h.candidates rfl
      rw [hnone] at hcandidates
      exact List.map_injective_iff.mpr candidate_injective hcandidates
    · intro h
      refine ⟨fun id => ?_, fun _ => ?_⟩
      · rw [hnone, ← h]
        simp [hmany]
      · rw [hnone, ← h]
        rfl

theorem matchedLiterally_blank_iff (hname : trim rawName = "") :
    MatchedLiterally unicode catalogue (trim rawName) (matchCarrierName unicode catalogue rawName) ↔
      namesakes unicode catalogue (trim rawName) = [] ∧ containing unicode catalogue (trim rawName) = [] := by
  rw [matchCarrierName_blank hname]
  constructor
  · intro h
    have hcandidates := List.map_eq_nil_iff.mp (h.candidates rfl).symm
    split at hcandidates
    · rename_i hnone
      exact ⟨List.isEmpty_iff.mp hnone, hcandidates⟩
    · rename_i hsome
      exact absurd (List.isEmpty_iff.mpr hcandidates) hsome
  · intro h
    obtain ⟨hnone, hcontaining⟩ := h
    refine ⟨fun id => ?_, fun _ => ?_⟩
    · rw [hnone, hcontaining]
      simp
    · rw [hnone, hcontaining]
      rfl

/-- One candidate is a carrier. -/
theorem matchCarrierName_candidates (h : (matchCarrierName unicode catalogue rawName).carrierId = none) :
    (matchCarrierName unicode catalogue rawName).candidates.length ≠ 1 := by
  by_cases hname : trim rawName = ""
  · rw [matchCarrierName_blank hname]
    exact Nat.zero_ne_one
  · rcases @matchCarrierName_stages unicode catalogue rawName hname with
      (⟨row, -, hresult⟩ | ⟨first, second, rest, hrows, hresult⟩) | ⟨-, ⟨row, -, hresult⟩ | ⟨hmany, hresult⟩⟩
    · rw [hresult] at h
      cases h
    · rw [hresult, hrows]
      simp
    · rw [hresult] at h
      cases h
    · rw [hresult, List.length_map]
      intro hone
      obtain ⟨row, hrow⟩ := List.length_eq_one_iff.mp hone
      exact hmany row hrow

/-- A new draft is stored as extracted only with a carrier. -/
theorem createInvoiceDraft_carrier {sha256 : String → String} {store store' : DraftStore}
    {clientId documentSha256 newDocumentId draftId : String} {extracted : Except CreateDraftError (ParsedInvoice × String)}
    {record : DraftRecord}
    (h : createInvoiceDraft unicode sha256 store clientId documentSha256 extracted newDocumentId draftId =
      .ok (record, store')) : ∀ d ∈ store'.drafts.rows, d ∈ store.drafts.rows ∨
        (d.status = .extracted → d.resolvedCarrierId.isSome) := by
  simp only [createInvoiceDraft, bind_eq_ok] at h
  obtain ⟨⟨doc, audit⟩, -, ⟨invoice, carrierName⟩, -, h⟩ := h
  split at h
  · rename_i drafts hinsert
    split at h
    · rename_i created auditEvents hrecord
      obtain ⟨-, rfl⟩ := Prod.mk.inj (pure_eq_ok.mp h)
      intro d hd
      rw [(KeyedTable.insert_eq_some hinsert).2] at hd
      rcases List.mem_append.mp hd with hold | hnew
      · exact .inl hold
      · refine .inr fun hstatus => ?_
        rw [List.mem_singleton.mp hnew] at hstatus ⊢
        by_contra hnone
        have hcarrier := Option.not_isSome_iff_eq_none.mp hnone
        have hcandidates := matchCarrierName_candidates hcarrier
        simp only [if_pos (And.intro hcarrier hcandidates)] at hstatus
        cases hstatus
    · cases h
  · cases h

end

/-- A name is matched literally if and only if it has a namesake or the patterns are literal (a blank one: if it is no
part of any name). And a draft is stored as extracted only with a carrier. -/
theorem matchedLiterally_iff (unicode : Unicode) (sha256 : String → String) (catalogue : KeyedTable CarrierRow CarrierRow.id)
    (rawName : String) :
    (MatchedLiterally unicode catalogue (trim rawName) (matchCarrierName unicode catalogue rawName) ↔
      FoundLiterally unicode catalogue (trim rawName)) ∧
    ∀ store clientId documentSha256 extracted newDocumentId draftId record store',
      createInvoiceDraft unicode sha256 store clientId documentSha256 extracted newDocumentId draftId = .ok (record, store') →
      ∀ d ∈ store'.drafts.rows, d ∈ store.drafts.rows ∨ (d.status = .extracted → d.resolvedCarrierId.isSome) := by
  constructor
  · by_cases hname : trim rawName = ""
    · rw [matchedLiterally_blank_iff hname, FoundLiterally, if_pos hname]
    · rw [FoundLiterally, if_neg hname]
      by_cases hnone : namesakes unicode catalogue (trim rawName) = []
      · rw [matchedLiterally_iff_lookalikes hname hnone, lookalikes_eq_iff]
        exact (or_iff_right (not_not.mpr hnone)).symm
      · exact iff_of_true (matchedLiterally_of_namesake hname hnone) (.inl hnone)
  · intro store clientId documentSha256 extracted newDocumentId draftId record store' h
    exact createInvoiceDraft_carrier h

/-! ## Names on a page -/

def acme : KeyedTable CarrierRow CarrierRow.id := ⟨[⟨"c1", "Acme Freight"⟩], List.nodup_singleton _⟩

def hundredPercent : KeyedTable CarrierRow CarrierRow.id :=
  ⟨[⟨"c1", "Acme Freight"⟩, ⟨"c2", "100% Logistics"⟩], by decide⟩

/-- The legal name contains the only carrier's. -/
theorem legalName_matched : MatchedLiterally .ascii acme (trim " ACME Freight Inc. ")
    (matchCarrierName .ascii acme " ACME Freight Inc. ") := by
  refine (matchedLiterally_iff .ascii id acme " ACME Freight Inc. ").1.mpr ?_
  rw [FoundLiterally, if_neg (by decide +kernel)]
  exact .inr (searchedLiterally_of_plain (by decide +kernel))

/-- A percent sign in a carrier's name stands for any text. -/
theorem percentSign_misbooks : ¬ MatchedLiterally .ascii hundredPercent (trim "100 Mile Logistics")
    (matchCarrierName .ascii hundredPercent "100 Mile Logistics") := by
  intro h
  have hid : (matchCarrierName .ascii hundredPercent "100 Mile Logistics").carrierId = some "c2" := by decide +kernel
  have hnamesakes : namesakes .ascii hundredPercent (trim "100 Mile Logistics") = [] := by decide +kernel
  have hcontaining : containing .ascii hundredPercent (trim "100 Mile Logistics") = [] := by decide +kernel
  rcases (h.carrier "c2").mp hid with ⟨row, hrow, -⟩ | ⟨-, row, hrow, -⟩
  · rw [hnamesakes] at hrow
    cases hrow
  · rw [hcontaining] at hrow
    cases hrow

end InvoiceDrafts
