import FreightAuditor.Claims.ListClaims

/- The list of gate failures.

   Failures of the runs that were rejected, joined with what they refer to, in the order of the claims'
   list. The anchor of a cursor is read without the conditions of the list. -/
namespace GateFailureLists

open CursorPagination KeysetPages

structure GateFailure where
  id : Uuid
  auditRunId : Uuid
  criterionId : Option Uuid
  clauseId : Option Uuid
  defect : String
  citation : Option String
  evaluatedExpr : Option Json.Value
  sourceDocumentId : Option Uuid
  transportDocumentId : Option Uuid
  recordedAt : Timestamp

structure AuditRun where
  id : Uuid
  invoiceId : Uuid
  outcome : String

structure Invoice where
  id : Uuid
  invoiceNumber : Option String
  carrierId : Option Uuid

structure Carrier where
  id : Uuid
  name : String

structure Criterion where
  id : Uuid
  criterionKey : String

structure ContractClause where
  id : Uuid
  clauseRef : String

/-- The rows a request sees. -/
structure GateFailuresDb where
  gateFailures : KeyedTable GateFailure GateFailure.id
  auditRuns : KeyedTable AuditRun AuditRun.id
  invoices : KeyedTable Invoice Invoice.id
  carriers : KeyedTable Carrier Carrier.id
  criteria : KeyedTable Criterion Criterion.id
  contractClauses : KeyedTable ContractClause ContractClause.id

structure JoinedRow where
  gateFailure : GateFailure
  auditRun : AuditRun
  invoice : Invoice
  carrier : Option Carrier
  criterion : Criterion
  contractClause : Option ContractClause

namespace JoinedRow

def id (r : JoinedRow) : Uuid := r.gateFailure.id

def recordedAt (r : JoinedRow) : Timestamp := r.gateFailure.recordedAt

end JoinedRow

/-- The joins, each on the primary key of its table. -/
def join (db : GateFailuresDb) (gateFailure : GateFailure) : Option JoinedRow := do
  let auditRun ← db.auditRuns.find? gateFailure.auditRunId
  let invoice ← db.invoices.find? auditRun.invoiceId
  let carrier := invoice.carrierId.bind db.carriers.find?
  let criterion ← gateFailure.criterionId.bind db.criteria.find?
  let contractClause := gateFailure.clauseId.bind db.contractClauses.find?
  return ⟨gateFailure, auditRun, invoice, carrier, criterion, contractClause⟩

structure GateFailureRow where
  id : Uuid
  auditRunId : Uuid
  invoiceNumber : Option String
  carrierName : Option String
  defect : String
  citation : Option String
  recordedAt : ℤ
  criterionKey : String
  evaluatedExpr : Option Json.Value
  clauseReference : Option String
  sourceDocumentId : Option Uuid
  transportDocumentId : Option Uuid

def toGateFailureRow (row : JoinedRow) : GateFailureRow :=
  { id := row.id, auditRunId := row.gateFailure.auditRunId, invoiceNumber := row.invoice.invoiceNumber,
    carrierName := row.carrier.map Carrier.name, defect := row.gateFailure.defect, citation := row.gateFailure.citation,
    recordedAt := row.recordedAt.toDate, criterionKey := row.criterion.criterionKey,
    evaluatedExpr := row.gateFailure.evaluatedExpr, clauseReference := row.contractClause.map ContractClause.clauseRef,
    sourceDocumentId := row.gateFailure.sourceDocumentId, transportDocumentId := row.gateFailure.transportDocumentId }

/-- The conditions besides the cursor's; an empty carrier is none. -/
def conditions (carrier : Option String) (row : JoinedRow) : Bool :=
  row.auditRun.outcome = "REJECTED_REWORK" &&
    (carrier.filter (· ≠ "")).all fun name => row.carrier.map Carrier.name = some name

/-- The rows of the list. -/
def listed (db : GateFailuresDb) (carrier : Option String) : List JoinedRow :=
  (db.gateFailures.rows.filterMap (join db)).filter (conditions carrier)

def listGateFailures (db : GateFailuresDb) (carrier : Option String) (options : PageOptions) : List GateFailureRow :=
  let selected := match options.cursor with
    | none => listed db carrier
    | some cursorId => keysetTieBreak JoinedRow.recordedAt JoinedRow.id (listed db carrier)
        (keysetAnchorFrom GateFailure.recordedAt GateFailure.id db.gateFailures.rows (fun _ => true) cursorId)
  (limitOffsetClause options (sorted JoinedRow.recordedAt JoinedRow.id selected)).map toGateFailureRow

def keyOf (r : GateFailureRow) : KeysetCursor := rowKey r.recordedAt r.id

/-- `GET /api/gate-failures`. -/
def getGateFailures (otherForms : String → Bool) (db : GateFailuresDb) (carrier : Option String) (limit offset : Option ℕ)
    (cursor : Option String) : Except PageRefusal (List GateFailureRow × Option String) :=
  answerPage otherForms (listGateFailures db carrier) keyOf limit offset cursor

/-! ## One row for each failure -/

section

variable {db : GateFailuresDb} {carrier : Option String}

theorem join_gateFailure {gateFailure : GateFailure} {row : JoinedRow} (h : join db gateFailure = some row) :
    row.gateFailure = gateFailure := by
  simp only [join, Option.bind_eq_bind, Option.bind_eq_some_iff, Option.pure_def, Option.some.injEq] at h
  obtain ⟨-, -, -, -, -, -, rfl⟩ := h
  rfl

theorem joined_nodup : ((db.gateFailures.rows.filterMap (join db)).map JoinedRow.id).Nodup := by
  have hsublist (rows : List GateFailure) : ((rows.filterMap (join db)).map JoinedRow.id).Sublist (rows.map GateFailure.id) := by
    induction rows with
    | nil => exact List.Sublist.refl _
    | cons row rows ih =>
      cases hjoin : join db row with
      | none =>
        rw [List.filterMap_cons_none hjoin]
        exact ih.cons _
      | some joined =>
        have hid : joined.id = row.id := congrArg GateFailure.id (join_gateFailure hjoin)
        rw [List.filterMap_cons_some hjoin, List.map_cons, List.map_cons, hid]
        exact ih.cons_cons _
  exact db.gateFailures.unique.sublist (hsublist _)

theorem listed_nodup : ((listed db carrier).map JoinedRow.id).Nodup :=
  joined_nodup.sublist (List.filter_sublist.map JoinedRow.id)

theorem listed_length : (listed db carrier).length ≤ db.gateFailures.rows.length :=
  (List.length_filter_le _ _).trans (List.length_filterMap_le _ _)

theorem listGateFailures_lists : Lists JoinedRow.recordedAt JoinedRow.id (listed db carrier) toGateFailureRow
    (listGateFailures db carrier) := by
  refine ⟨fun limit => rfl, fun limit a ha => ?_⟩
  obtain ⟨gateFailure, hmem, hjoin⟩ := List.mem_filterMap.mp (List.mem_of_mem_filter ha)
  have hrow := join_gateFailure hjoin
  have hanchor : keysetAnchorFrom GateFailure.recordedAt GateFailure.id db.gateFailures.rows (fun _ => true) a.id =
      [(a.recordedAt, a.id)] := by
    rw [JoinedRow.recordedAt, JoinedRow.id, hrow]
    exact keysetAnchorFrom_eq db.gateFailures.unique hmem rfl
  simp only [listGateFailures, hanchor, keysetTieBreak_singleton]
  rfl

theorem listGateFailures_keys (options : PageOptions) : ∀ row ∈ listGateFailures db carrier options,
    ∃ t : Timestamp, ∃ id, keyOf row = rowKey t.toDate id := by
  intro row hrow
  obtain ⟨joined, -, rfl⟩ := List.mem_map.mp hrow
  exact ⟨joined.recordedAt, joined.id, rfl⟩

end

/-! ## Following the cursors -/

open ClaimLists in
/-- Following `nextCursor` from the first page ends, and shows the rows of either list each once and in order;
    and each cursor that is answered is read back. -/
theorem cursors_show_each_once (otherForms : String → Bool) {limit : ℕ} (hlimit : 1 ≤ limit) :
    (∀ (claims : KeyedTable Claim Claim.id) (clientId : ℕ) (status : Option String) (fuel : ℕ), claims.rows.length < fuel →
      follow (fun cursor => (getClaims otherForms claims clientId status (some limit) none cursor).toOption) fuel none =
        some ((sorted Claim.openedAt Claim.id (claims.rows.filter (ClaimLists.conditions clientId status))).map toClaimRow)) ∧
    (∀ (db : GateFailuresDb) (carrier : Option String) (fuel : ℕ), db.gateFailures.rows.length < fuel →
      follow (fun cursor => (getGateFailures otherForms db carrier (some limit) none cursor).toOption) fuel none =
        some ((sorted JoinedRow.recordedAt JoinedRow.id (listed db carrier)).map toGateFailureRow)) ∧
    (∀ (claims : KeyedTable Claim Claim.id) (clientId : ℕ) (status : Option String) (offset : Option ℕ) (cursor : Option String)
      (page : List ClaimRow) (next : String),
      getClaims otherForms claims clientId status (some limit) offset cursor = .ok (page, some next) →
        ∃ c, next = encodeCursor c ∧ decodeCursor otherForms next = some c) ∧
    (∀ (db : GateFailuresDb) (carrier : Option String) (offset : Option ℕ) (cursor : Option String)
      (page : List GateFailureRow) (next : String),
      getGateFailures otherForms db carrier (some limit) offset cursor = .ok (page, some next) →
        ∃ c, next = encodeCursor c ∧ decodeCursor otherForms next = some c) := by
  refine ⟨fun claims clientId status fuel hfuel => ?_, fun db carrier fuel hfuel => ?_, ?_, ?_⟩
  · have hlength := lt_of_le_of_lt (List.length_filter_le (ClaimLists.conditions clientId status) claims.rows) hfuel
    exact follow_list listClaims_lists filter_nodup (fun _ => rfl) otherForms hlimit hlength
  · exact follow_list listGateFailures_lists listed_nodup (fun _ => rfl) otherForms hlimit
      (lt_of_le_of_lt listed_length hfuel)
  · intro claims clientId status offset cursor page next h
    exact nextCursor_decodes listClaims_keys h
  · intro db carrier offset cursor page next h
    exact nextCursor_decodes listGateFailures_keys h

/-! Two rows of one microsecond on either side of a page's end, and one a microsecond later. -/

theorem bound_zero : ((0 : ℤ) / 1000).natAbs ≤ IsoDate.maxTime := by decide

theorem bound_one : ((1 : ℤ) / 1000).natAbs ≤ IsoDate.maxTime := by decide

theorem sampleId_lt (n : ℕ) : n % 2 ^ 128 < 2 ^ 128 := Nat.mod_lt n (Nat.two_pow_pos 128)

def sampleId (n : ℕ) : Uuid := ⟨n % 2 ^ 128, sampleId_lt n⟩

def sampleClaim (id : Uuid) (openedAt : Timestamp) : ClaimLists.Claim :=
  { id := id, accountId := sampleId 1, disputeId := none, amountClaimed := "10.0000", currency := some "USD", status := "open",
    openedAt := openedAt, agingDeadlineAt := none }

def sampleClaimRows : List ClaimLists.Claim :=
  [sampleClaim (sampleId 3) ⟨0, bound_zero⟩, sampleClaim (sampleId 1) ⟨0, bound_zero⟩, sampleClaim (sampleId 2) ⟨1, bound_one⟩]

theorem sampleClaimRows_unique : (sampleClaimRows.map ClaimLists.Claim.id).Nodup := by decide

def sampleGateFailure (id : Uuid) (recordedAt : Timestamp) : GateFailure :=
  { id := id, auditRunId := sampleId 5, criterionId := some (sampleId 6), clauseId := none, defect := "no reference", citation := none,
    evaluatedExpr := none, sourceDocumentId := none, transportDocumentId := none, recordedAt := recordedAt }

def sampleGateFailureRows : List GateFailure :=
  [sampleGateFailure (sampleId 3) ⟨0, bound_zero⟩, sampleGateFailure (sampleId 1) ⟨0, bound_zero⟩, sampleGateFailure (sampleId 2) ⟨1, bound_one⟩]

theorem sampleGateFailureRows_unique : (sampleGateFailureRows.map GateFailure.id).Nodup := by decide

def sampleDb : GateFailuresDb where
  gateFailures := ⟨sampleGateFailureRows, sampleGateFailureRows_unique⟩
  auditRuns := ⟨[⟨sampleId 5, sampleId 7, "REJECTED_REWORK"⟩], List.nodup_singleton _⟩
  invoices := ⟨[⟨sampleId 7, some "INV-1", none⟩], List.nodup_singleton _⟩
  carriers := ⟨[], List.nodup_nil⟩
  criteria := ⟨[⟨sampleId 6, "reference_present"⟩], List.nodup_singleton _⟩
  contractClauses := ⟨[], List.nodup_nil⟩

theorem sample_shown_once :
    (follow (fun cursor => (ClaimLists.getClaims (fun _ => false) ⟨sampleClaimRows, sampleClaimRows_unique⟩ 1 none (some 2) none
      cursor).toOption) 4 none).map (List.map ClaimLists.ClaimRow.id) = some [2, 1, 3] ∧
    (follow (fun cursor => (getGateFailures (fun _ => false) sampleDb none (some 2) none cursor).toOption) 4 none).map
      (List.map GateFailureRow.id) = some [2, 1, 3] := by
  obtain ⟨hclaims, hfailures, -, -⟩ := cursors_show_each_once (fun _ => false) (show 1 ≤ 2 by decide)
  constructor
  · rw [hclaims ⟨sampleClaimRows, sampleClaimRows_unique⟩ 1 none 4 (by decide)]
    decide
  · rw [hfailures sampleDb none 4 (by decide)]
    decide

end GateFailureLists
