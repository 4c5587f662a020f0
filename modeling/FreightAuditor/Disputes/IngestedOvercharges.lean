import FreightAuditor.Disputes.Transactions
import FreightAuditor.Evaluator.StoredRun
import FreightAuditor.Ingestion.ReIngestion
import FreightAuditor.Library.AppendOnly
import FreightAuditor.ReferenceData.Crosswalk

/- From an interchange to a dispute.

   The carrier that a B3 segment names is looked up to categorize the charges, and is dropped: the invoice is
   stored without it. A dispute has one carrier, that of the invoice, so no overcharge of such an invoice can be
   disputed, whatever an analyst does (`disputable_iff`). A confirmed draft is stored with its carrier. -/
namespace IngestedOvercharges

open Claims (Amount VarianceStatus amountColumn currencyFormat)
open Crosswalk (CrosswalkRow)
open DecimalJs Disputes Evaluator ExceptOk Ingestion JsText PgNumeric RubricResolver Runs

/-! ## The tables -/

structure Carrier where
  id : ℕ
  scacCode : Option String
  deriving DecidableEq

structure Invoice (input : NumericInput 18 4) where
  id : ℕ
  accountId : ℕ
  carrierId : Option ℕ
  run : StoredRun input

/-- A finding of the run of an invoice. -/
structure VarianceFinding (input : NumericInput 18 4) where
  id : ℕ
  accountId : ℕ
  invoiceId : ℕ
  row : VarianceFindingRow input
  status : VarianceStatus

structure Dispute where
  id : ℕ
  accountId : ℕ
  carrierId : ℕ
  amountClaimed : Amount
  currency : String

structure DisputeLine where
  accountId : ℕ
  disputeId : ℕ
  varianceFindingId : ℕ
  amount : Option String
  currency : Option String

/-- `named` is no table: it keeps the invoices whose interchange names a carrier, with that carrier. -/
structure DisputeWorld (input : NumericInput 18 4) where
  carriers : List Carrier
  crosswalk : List CrosswalkRow
  invoices : List (Invoice input)
  varianceFindings : List (VarianceFinding input)
  disputes : List Dispute
  disputeLines : List DisputeLine
  named : List (ℕ × ℕ)

/-- Reference data and nothing else. -/
def DisputeWorld.initial (input : NumericInput 18 4) (carriers : List Carrier) (crosswalk : List CrosswalkRow) :
    DisputeWorld input :=
  ⟨carriers, crosswalk, [], [], [], [], []⟩

/-! ## Ingestion -/

def Carrier.entry (c : Carrier) : Crosswalk.Carrier := ⟨toString c.id, c.scacCode⟩

/-- The carrier that `resolveCategorizer` takes from the first B3-11. -/
def carrierOf (carriers : List Carrier) (raw : String) : Option ℕ :=
  match parseX12 raw, ReIngestion.detectTransactionSet raw with
  | .ok ix, .ok .edi210 =>
    (el (firstSegment ix "B3") 11).bind fun code =>
      (carriers.find? fun c => c.scacCode = some (trim code)).map Carrier.id
  | _, _ => none

inductive IngestError where
  | ingest (e : ReIngestion.IngestError)
  | crosswalk (e : Crosswalk.CrosswalkError)
  | store (e : StoreError)
  /-- A reference to a row that is not there. -/
  | foreignKey (constraint : String)

section

variable {input : NumericInput 18 4}

/-- `persistAuditRun` with the run as it is stored: its invoice and its findings, all open. -/
def DisputeWorld.persist (w : DisputeWorld input) (clientId : ℕ) (carrierId : Option ℕ) (run : StoredRun input) :
    DisputeWorld input :=
  { w with
    invoices := w.invoices ++ [⟨w.invoices.length, clientId, carrierId, run⟩]
    varianceFindings := w.varianceFindings ++ (run.varianceFindings.zipIdx w.varianceFindings.length).map fun f =>
      ⟨f.2, clientId, w.invoices.length, f.1, .open⟩ }

/-- The rows for all and for the tenant. -/
def DisputeWorld.visibleCrosswalk (w : DisputeWorld input) (clientId : ℕ) : List CrosswalkRow :=
  w.crosswalk.filter fun row => row.accountId = none ∨ row.accountId = some (toString clientId)

variable (D : Type) [Decimal D] (unicode : Unicode) (sha256 : String → String)
  (regexMatch : String → String → Option Bool)

/-- What `resolveAndEvaluate` reads of the database is given as the rubric and the contract's facts. -/
def ingestInvoice (w : DisputeWorld input) (clientId : ℕ) (raw : String) (rubric : ComposedRubric)
    (contract : Option ContractFacts) : Except IngestError (DisputeWorld input) := do
  let transactionSet ← (ReIngestion.detectTransactionSet raw).mapError .ingest
  let categorize ← (Crosswalk.resolveCategorizer regexMatch (w.carriers.map Carrier.entry) (w.visibleCrosswalk clientId)
    raw transactionSet).mapError .crosswalk
  let invoice ← (ReIngestion.parseInvoice D unicode raw categorize).mapError .ingest
  let run ← (judgeAndStore D input unicode sha256 invoice rubric contract).mapError .store
  -- no carrier is given
  let stored := w.persist clientId none run
  match carrierOf w.carriers raw with
  | none => return stored
  | some carrierId => return { stored with named := stored.named ++ [(w.invoices.length, carrierId)] }

/-- `confirmInvoiceDraft` from the invoice that is confirmed on. -/
def confirmInvoiceDraft (w : DisputeWorld input) (clientId : ℕ) (carrierId : Option ℕ) (invoice : ParsedInvoice)
    (rubric : ComposedRubric) (contract : Option ContractFacts) : Except IngestError (DisputeWorld input) := do
  let run ← (judgeAndStore D input unicode sha256 invoice rubric contract).mapError .store
  if carrierId.any fun id => !w.carriers.any (·.id == id) then throw (.foreignKey "invoice_carrier_id_fkey")
  return w.persist clientId carrierId run

end

/-! ## Disputes -/

section

variable {input : NumericInput 18 4}

/-- The amount as `numeric(18,4)` reads it back. -/
def columnText (amount : StoredAmount input) : String := ((ofText 18 4 amount.text).map Numeric.text).getD amount.text

/-- The finding of the tenant, with the carrier of its invoice. -/
def DisputeWorld.findingRow (w : DisputeWorld input) (clientId findingId : ℕ) : Option DisputableFindingRow := do
  let f ← w.varianceFindings.find? fun f => f.id = findingId ∧ f.accountId = clientId
  let i ← w.invoices.find? fun i => i.id = f.invoiceId ∧ i.accountId = f.accountId
  return ⟨f.id, f.status, i.carrierId, f.row.currency.map CurrencyCode.text, f.row.varianceAmount.map columnText,
    f.row.direction⟩

def VarianceFinding.updateStatus (clientId : ℕ) (findingIds : List ℕ) (status : VarianceStatus)
    (f : VarianceFinding input) : VarianceFinding input :=
  if f.accountId = clientId ∧ f.id ∈ findingIds then { f with status } else f

def DisputeWorld.updateFindingStatus (w : DisputeWorld input) (clientId : ℕ) (findingIds : List ℕ)
    (status : VarianceStatus) : DisputeWorld input :=
  { w with varianceFindings := w.varianceFindings.map (.updateStatus clientId findingIds status) }

def createDisputeFromFindings (D : Type) [Decimal D] (w : DisputeWorld input) (call : CreateDisputeInput) :
    Except DisputesError (DisputeWorld input) := do
  if !call.valid then throw .schema
  let rows := call.sortedIds.filterMap (w.findingRow call.clientId)
  let validated ← validateDisputableFindings D rows
  let amountClaimed ← (amountColumn validated.amountClaimed).mapError fun _ => .database "numeric field overflow"
  if !currencyFormat validated.currency then throw (.database "dispute_currency_format_chk")
  let disputeId := w.disputes.length
  let lines := (rows.filter (·.id ∈ validated.findingIds)).map fun r =>
    ⟨call.clientId, disputeId, r.id, r.varianceAmount, r.currency⟩
  return { w.updateFindingStatus call.clientId validated.findingIds .queued_for_dispute with
    disputes := w.disputes ++ [⟨disputeId, call.clientId, validated.carrierId, amountClaimed, validated.currency⟩]
    disputeLines := w.disputeLines ++ lines }

end

/-! ## Runs -/

inductive Operation where
  | addCarrier (carrier : Carrier)
  | ingestInvoice (clientId : ℕ) (raw : String) (rubric : ComposedRubric) (contract : Option ContractFacts)
  | confirmInvoiceDraft (clientId : ℕ) (carrierId : Option ℕ) (invoice : ParsedInvoice) (rubric : ComposedRubric)
      (contract : Option ContractFacts)
  | updateFindingStatus (clientId findingId : ℕ) (status : VarianceStatus)
  | createDispute (call : CreateDisputeInput)

section

variable {input : NumericInput 18 4} (D : Type) [Decimal D] (unicode : Unicode) (sha256 : String → String)
  (regexMatch : String → String → Option Bool)

/-- What throws is rolled back. -/
def committed {ε : Type} (w : DisputeWorld input) : Except ε (DisputeWorld input) → DisputeWorld input
  | .ok w' => w'
  | .error _ => w

def step (w : DisputeWorld input) : Operation → Option (DisputeWorld input)
  | .addCarrier carrier => some { w with carriers := w.carriers ++ [carrier] }
  | .ingestInvoice clientId raw rubric contract =>
    some (committed w (ingestInvoice D unicode sha256 regexMatch w clientId raw rubric contract))
  | .confirmInvoiceDraft clientId carrierId invoice rubric contract =>
    some (committed w (confirmInvoiceDraft D unicode sha256 w clientId carrierId invoice rubric contract))
  | .updateFindingStatus clientId findingId status => some (w.updateFindingStatus clientId [findingId] status)
  | .createDispute call => some (committed w (createDisputeFromFindings D w call))

/-! ## What is claimed -/

/-- A finding that the carrier owes, as the analyst has accepted it. -/
def IsAcceptedOvercharge (f : VarianceFinding input) : Prop := f.row.direction = some .OVERCHARGE ∧ f.status = .accepted

/-- The finding is disputed alone: the dispute claims its amount, in its currency, of the carrier. -/
def IsDisputed (w : DisputeWorld input) (f : VarianceFinding input) (carrierId : ℕ) : Prop :=
  ∃ w' dispute, createDisputeFromFindings D w ⟨f.accountId, [f.id], none⟩ = .ok w' ∧
    w'.disputes = w.disputes ++ [dispute] ∧ dispute.carrierId = carrierId ∧
    (∃ amount ∈ f.row.varianceAmount, ofText 18 4 amount.text = some dispute.amountClaimed) ∧
    f.row.currency.map CurrencyCode.text = some dispute.currency

/-- Every invoice whose interchange names a carrier is stored with it, and its accepted overcharges can be disputed. -/
def Disputable (w : DisputeWorld input) : Prop :=
  ∀ entry ∈ w.named, ∃ invoice ∈ w.invoices, invoice.id = entry.1 ∧ invoice.carrierId = some entry.2 ∧
    ∀ f ∈ w.varianceFindings, f.invoiceId = invoice.id → IsAcceptedOvercharge f → IsDisputed D w f entry.2

/-- No accepted overcharge of such an invoice can be disputed, for want of a carrier. -/
def Refused (w : DisputeWorld input) : Prop :=
  ∀ entry ∈ w.named, ∀ f ∈ w.varianceFindings, f.invoiceId = entry.1 → IsAcceptedOvercharge f →
    createDisputeFromFindings D w ⟨f.accountId, [f.id], none⟩ = .error (.disputableFindings .MISSING_CARRIER)

/-- No interchange that is accepted names a carrier of the catalogue. -/
def NamesNone (w : DisputeWorld input) : Operation → Prop
  | .ingestInvoice clientId raw rubric contract =>
    ∀ w', ingestInvoice D unicode sha256 regexMatch w clientId raw rubric contract = .ok w' →
      carrierOf w.carriers raw = none
  | _ => True

/-- The invoices that an operation adds to those with a named carrier. -/
def newlyNamed (w : DisputeWorld input) : Operation → List (ℕ × ℕ)
  | .ingestInvoice clientId raw rubric contract =>
    match ingestInvoice D unicode sha256 regexMatch w clientId raw rubric contract with
    | .ok _ => ((carrierOf w.carriers raw).map fun carrierId => (w.invoices.length, carrierId)).toList
    | .error _ => []
  | _ => []

end

/-! ## What the operations keep -/

structure Kept {input : NumericInput 18 4} (w : DisputeWorld input) : Prop where
  invoiceIds : w.invoices.map Invoice.id = List.range w.invoices.length
  findingIds : w.varianceFindings.map VarianceFinding.id = List.range w.varianceFindings.length
  invoiceOf : ∀ f ∈ w.varianceFindings, ∃ i ∈ w.invoices, i.id = f.invoiceId ∧ i.accountId = f.accountId
  /-- The carrier is dropped. -/
  dropped : ∀ entry ∈ w.named, ∃ i ∈ w.invoices, i.id = entry.1 ∧ i.carrierId = none

section

variable {input : NumericInput 18 4} {w w' : DisputeWorld input}

theorem kept_initial (carriers : List Carrier) (crosswalk : List CrosswalkRow) :
    Kept (DisputeWorld.initial input carriers crosswalk) :=
  ⟨rfl, rfl, fun _ h => absurd h List.not_mem_nil, fun _ h => absurd h List.not_mem_nil⟩

theorem Kept.invoice_eq (hkept : Kept w) {i j : Invoice input} (hi : i ∈ w.invoices) (hj : j ∈ w.invoices)
    (hid : i.id = j.id) : i = j := by
  have hnodup : (w.invoices.map Invoice.id).Nodup := hkept.invoiceIds ▸ List.nodup_range
  exact List.inj_on_of_nodup_map hnodup hi hj hid

theorem Kept.finding_eq (hkept : Kept w) {f g : VarianceFinding input} (hf : f ∈ w.varianceFindings)
    (hg : g ∈ w.varianceFindings) (hid : f.id = g.id) : f = g := by
  have hnodup : (w.varianceFindings.map VarianceFinding.id).Nodup := hkept.findingIds ▸ List.nodup_range
  exact List.inj_on_of_nodup_map hnodup hf hg hid

theorem Kept.persist (hkept : Kept w) (clientId : ℕ) (carrierId : Option ℕ) (run : StoredRun input) :
    Kept (w.persist clientId carrierId run) where
  invoiceIds := by
    rw [DisputeWorld.persist, List.map_append, hkept.invoiceIds, List.length_append, List.length_singleton,
      List.range_succ]
    rfl
  findingIds := by
    have hnew : ((run.varianceFindings.zipIdx w.varianceFindings.length).map fun f =>
        (⟨f.2, clientId, w.invoices.length, f.1, .open⟩ : VarianceFinding input)).map VarianceFinding.id =
        List.range' w.varianceFindings.length run.varianceFindings.length := by
      rw [List.map_map, ← List.zipIdx_map_snd]
      rfl
    rw [DisputeWorld.persist, List.map_append, hkept.findingIds, hnew, List.length_append, List.length_map,
      List.length_zipIdx, List.range_eq_range', List.range_eq_range', ← List.range'_append_1, Nat.zero_add]
  invoiceOf f hf := by
    cases List.mem_append.mp hf with
    | inl hf =>
      obtain ⟨i, hi, hsame⟩ := hkept.invoiceOf f hf
      exact ⟨i, List.mem_append_left _ hi, hsame⟩
    | inr hf =>
      obtain ⟨g, -, rfl⟩ := List.mem_map.mp hf
      exact ⟨_, List.mem_append_right _ (List.mem_singleton_self _), rfl, rfl⟩
  dropped entry hentry := by
    obtain ⟨i, hi, hsame⟩ := hkept.dropped entry hentry
    exact ⟨i, List.mem_append_left _ hi, hsame⟩

theorem updateStatus_same (clientId : ℕ) (findingIds : List ℕ) (status : VarianceStatus) (f : VarianceFinding input) :
    (f.updateStatus clientId findingIds status).id = f.id ∧
      (f.updateStatus clientId findingIds status).accountId = f.accountId ∧
      (f.updateStatus clientId findingIds status).invoiceId = f.invoiceId := by
  unfold VarianceFinding.updateStatus
  split
  · exact ⟨rfl, rfl, rfl⟩
  · exact ⟨rfl, rfl, rfl⟩

theorem Kept.updateFindingStatus (hkept : Kept w) (clientId : ℕ) (findingIds : List ℕ) (status : VarianceStatus) :
    Kept (w.updateFindingStatus clientId findingIds status) where
  invoiceIds := hkept.invoiceIds
  findingIds := by
    have hids : (w.varianceFindings.map (.updateStatus clientId findingIds status)).map VarianceFinding.id =
        w.varianceFindings.map VarianceFinding.id := by
      rw [List.map_map]
      exact List.map_congr_left fun f _ => (updateStatus_same clientId findingIds status f).1
    rw [DisputeWorld.updateFindingStatus, hids, hkept.findingIds, List.length_map]
  invoiceOf f hf := by
    obtain ⟨g, hg, rfl⟩ := List.mem_map.mp hf
    obtain ⟨i, hi, hid, haccount⟩ := hkept.invoiceOf g hg
    obtain ⟨-, hsameAccount, hsameInvoice⟩ := updateStatus_same clientId findingIds status g
    exact ⟨i, hi, hid.trans hsameInvoice.symm, haccount.trans hsameAccount.symm⟩
  dropped := hkept.dropped

variable {D : Type} [Decimal D] {unicode : Unicode} {sha256 : String → String}
  {regexMatch : String → String → Option Bool}

/-- A dispute is a row, its lines and new statuses. -/
theorem createDispute_ok {call : CreateDisputeInput} (h : createDisputeFromFindings D w call = .ok w') :
    ∃ findingIds disputes disputeLines, w' =
      { w.updateFindingStatus call.clientId findingIds .queued_for_dispute with disputes, disputeLines } := by
  simp only [createDisputeFromFindings, throw_bind, ite_throw_eq_ok, bind_eq_ok, pure_eq_ok] at h
  obtain ⟨-, validated, -, amountClaimed, -, -, rfl⟩ := h
  exact ⟨_, _, _, rfl⟩

/-- An interchange that is accepted is stored without a carrier. -/
theorem ingestInvoice_ok {clientId : ℕ} {raw : String} {rubric : ComposedRubric} {contract : Option ContractFacts}
    (h : ingestInvoice D unicode sha256 regexMatch w clientId raw rubric contract = .ok w') :
    ∃ run, w' = { w.persist clientId none run with
      named := w.named ++ ((carrierOf w.carriers raw).map fun carrierId => (w.invoices.length, carrierId)).toList } := by
  simp only [ingestInvoice, bind_eq_ok] at h
  obtain ⟨transactionSet, -, categorize, -, invoice, -, run, -, h⟩ := h
  split at h
  · rename_i hnone
    cases h
    refine ⟨run, ?_⟩
    rw [hnone, Option.map_none, Option.toList_none, List.append_nil]
    rfl
  · rename_i carrierId hsome
    cases h
    exact ⟨run, by rw [hsome]; rfl⟩

theorem confirmInvoiceDraft_ok {clientId : ℕ} {carrierId : Option ℕ} {invoice : ParsedInvoice} {rubric : ComposedRubric}
    {contract : Option ContractFacts}
    (h : confirmInvoiceDraft D unicode sha256 w clientId carrierId invoice rubric contract = .ok w') :
    ∃ run, w' = w.persist clientId carrierId run := by
  simp only [confirmInvoiceDraft, throw_bind, ite_throw_eq_ok, bind_eq_ok, pure_eq_ok] at h
  obtain ⟨run, -, -, rfl⟩ := h
  exact ⟨run, rfl⟩

/-- One step keeps what is kept, and adds the interchange that it accepts. -/
theorem step_kept (hkept : Kept w) {operation : Operation}
    (h : step D unicode sha256 regexMatch w operation = some w') :
    Kept w' ∧ w'.named = w.named ++ newlyNamed D unicode sha256 regexMatch w operation := by
  cases operation with
  | addCarrier carrier =>
    cases h
    exact ⟨⟨hkept.invoiceIds, hkept.findingIds, hkept.invoiceOf, hkept.dropped⟩, (List.append_nil _).symm⟩
  | ingestInvoice clientId raw rubric contract =>
    have hw := Option.some.inj h
    rw [newlyNamed]
    cases hrun : ingestInvoice D unicode sha256 regexMatch w clientId raw rubric contract with
    | error e =>
      rw [hrun] at hw
      cases hw
      exact ⟨hkept, (List.append_nil _).symm⟩
    | ok stored =>
      rw [hrun] at hw
      obtain ⟨run, hstored⟩ := ingestInvoice_ok hrun
      have hpersisted := hkept.persist clientId none run
      subst hw
      refine ⟨?_, by rw [committed, hstored]⟩
      rw [committed, hstored]
      refine ⟨hpersisted.invoiceIds, hpersisted.findingIds, hpersisted.invoiceOf, fun entry hentry => ?_⟩
      cases List.mem_append.mp hentry with
      | inl hentry => exact hpersisted.dropped entry hentry
      | inr hentry =>
        obtain ⟨carrierId, -, rfl⟩ := Option.map_eq_some_iff.mp (Option.mem_toList.mp hentry)
        exact ⟨_, List.mem_append_right _ (List.mem_singleton_self _), rfl, rfl⟩
  | confirmInvoiceDraft clientId carrierId invoice rubric contract =>
    have hw := Option.some.inj h
    have hnone : newlyNamed D unicode sha256 regexMatch w
      (.confirmInvoiceDraft clientId carrierId invoice rubric contract) = [] := rfl
    rw [hnone, List.append_nil]
    cases hrun : confirmInvoiceDraft D unicode sha256 w clientId carrierId invoice rubric contract with
    | error e =>
      rw [hrun] at hw
      cases hw
      exact ⟨hkept, rfl⟩
    | ok stored =>
      rw [hrun] at hw
      obtain ⟨run, rfl⟩ := confirmInvoiceDraft_ok hrun
      subst hw
      exact ⟨hkept.persist clientId carrierId run, rfl⟩
  | updateFindingStatus clientId findingId status =>
    cases h
    exact ⟨hkept.updateFindingStatus clientId [findingId] status, (List.append_nil _).symm⟩
  | createDispute call =>
    have hw := Option.some.inj h
    have hnone : newlyNamed D unicode sha256 regexMatch w (.createDispute call) = [] := rfl
    rw [hnone, List.append_nil]
    cases hrun : createDisputeFromFindings D w call with
    | error e =>
      rw [hrun] at hw
      cases hw
      exact ⟨hkept, rfl⟩
    | ok created =>
      rw [hrun] at hw
      obtain ⟨findingIds, disputes, disputeLines, rfl⟩ := createDispute_ok hrun
      subst hw
      have hupdated := hkept.updateFindingStatus call.clientId findingIds .queued_for_dispute
      exact ⟨⟨hupdated.invoiceIds, hupdated.findingIds, hupdated.invoiceOf, hupdated.dropped⟩, rfl⟩

/-! ## The law -/

/-- The law holds where no stored invoice has a named carrier. -/
theorem disputable_iff_named (hkept : Kept w) : Disputable D w ↔ w.named = [] := by
  constructor
  · intro h
    by_contra hne
    obtain ⟨entry, hentry⟩ := List.exists_mem_of_ne_nil _ hne
    obtain ⟨invoice, hinvoice, hid, hcarrier, -⟩ := h entry hentry
    obtain ⟨dropped, hdropped, hdroppedId, hnone⟩ := hkept.dropped entry hentry
    obtain rfl := hkept.invoice_eq hinvoice hdropped (hid.trans hdroppedId.symm)
    rw [hcarrier] at hnone
    cases hnone
  · intro h entry hentry
    rw [h] at hentry
    exact absurd hentry List.not_mem_nil

/-- A step keeps the law just if it accepts no interchange that names a carrier. -/
theorem newlyNamed_iff {operation : Operation} :
    newlyNamed D unicode sha256 regexMatch w operation = [] ↔ NamesNone D unicode sha256 regexMatch w operation := by
  cases operation with
  | ingestInvoice clientId raw rubric contract =>
    cases hrun : ingestInvoice D unicode sha256 regexMatch w clientId raw rubric contract with
    | error e =>
      refine iff_of_true ?_ fun w' h => ?_
      · rw [newlyNamed, hrun]
      · rw [hrun] at h
        cases h
    | ok stored =>
      rw [newlyNamed, hrun]
      simp only [Option.toList_eq_nil_iff, Option.map_eq_none_iff]
      exact ⟨fun hnone w' _ => hnone, fun h => h stored hrun⟩
  | addCarrier carrier => exact iff_of_true rfl trivial
  | confirmInvoiceDraft clientId carrierId invoice rubric contract => exact iff_of_true rfl trivial
  | updateFindingStatus clientId findingId status => exact iff_of_true rfl trivial
  | createDispute call => exact iff_of_true rfl trivial

/-- The finding that is asked for, as it is read. -/
theorem findingRow_eq (hkept : Kept w) {f : VarianceFinding input} (hf : f ∈ w.varianceFindings) {i : Invoice input}
    (hi : i ∈ w.invoices) (hid : i.id = f.invoiceId) :
    w.findingRow f.accountId f.id = some ⟨f.id, f.status, i.carrierId, f.row.currency.map CurrencyCode.text,
      f.row.varianceAmount.map columnText, f.row.direction⟩ := by
  have hfinding : w.varianceFindings.find? (fun g => g.id = f.id ∧ g.accountId = f.accountId) = some f := by
    refine AppendOnly.find?_unique hf (decide_eq_true ⟨rfl, rfl⟩) fun g hg hsame => ?_
    exact hkept.finding_eq hg hf (of_decide_eq_true hsame).1
  have hinvoice : w.invoices.find? (fun j => j.id = f.invoiceId ∧ j.accountId = f.accountId) = some i := by
    obtain ⟨j, hj, hjid, haccount⟩ := hkept.invoiceOf f hf
    obtain rfl := hkept.invoice_eq hj hi (hjid.trans hid.symm)
    refine AppendOnly.find?_unique hi (decide_eq_true ⟨hid, haccount⟩) fun k hk hsame => ?_
    exact hkept.invoice_eq hk hi ((of_decide_eq_true hsame).1.trans hid.symm)
  unfold DisputeWorld.findingRow
  rw [hfinding, Option.bind_eq_bind, Option.bind_some, hinvoice]
  rfl

/-- A finding that is accepted and no undercharge lacks a carrier where its invoice does. -/
theorem createDispute_refused (hkept : Kept w) {f : VarianceFinding input} (hf : f ∈ w.varianceFindings)
    {i : Invoice input} (hi : i ∈ w.invoices) (hid : i.id = f.invoiceId) (hcarrier : i.carrierId = none)
    (haccepted : IsAcceptedOvercharge f) :
    createDisputeFromFindings D w ⟨f.accountId, [f.id], none⟩ = .error (.disputableFindings .MISSING_CARRIER) := by
  obtain ⟨hdirection, hstatus⟩ := haccepted
  have hrow := findingRow_eq hkept hf hi hid
  have hrows : (CreateDisputeInput.sortedIds ⟨f.accountId, [f.id], none⟩).filterMap (w.findingRow f.accountId) =
      [⟨f.id, f.status, i.carrierId, f.row.currency.map CurrencyCode.text, f.row.varianceAmount.map columnText,
        f.row.direction⟩] := by
    rw [show CreateDisputeInput.sortedIds ⟨f.accountId, [f.id], none⟩ = [f.id] from rfl, List.filterMap_cons_some hrow]
    rfl
  have hvalidated : validateDisputableFindings D [⟨f.id, f.status, i.carrierId, f.row.currency.map CurrencyCode.text,
      f.row.varianceAmount.map columnText, f.row.direction⟩] = .error (.disputableFindings .MISSING_CARRIER) := by
    rw [hdirection, hstatus, hcarrier]
    rfl
  have hvalid : ¬ (!CreateDisputeInput.valid ⟨f.accountId, [f.id], none⟩) = true := Bool.false_ne_true
  unfold createDisputeFromFindings
  rw [if_neg hvalid]
  dsimp only
  rw [hrows, hvalidated]
  rfl

theorem Kept.refused (hkept : Kept w) : Refused D w := by
  intro entry hentry f hf hinvoice haccepted
  obtain ⟨i, hi, hid, hcarrier⟩ := hkept.dropped entry hentry
  exact createDispute_refused hkept hf hi (hid.trans hinvoice.symm) hcarrier haccepted

/-- The law holds along a run just if the run accepts no interchange that names a carrier; of one that does, no
accepted overcharge can be disputed, ever. -/
theorem disputable_iff (carriers : List Carrier) (crosswalk : List CrosswalkRow) (operations : List Operation) :
    (AllStates (step D unicode sha256 regexMatch) (Disputable D) (.initial input carriers crosswalk) operations ↔
      AllSteps (step D unicode sha256 regexMatch) (NamesNone D unicode sha256 regexMatch)
        (.initial input carriers crosswalk) operations) ∧
    AllStates (step D unicode sha256 regexMatch) (Refused D) (.initial input carriers crosswalk) operations := by
  have hinitial : Kept (DisputeWorld.initial input carriers crosswalk) := kept_initial carriers crosswalk
  constructor
  · refine allStates_iff_allSteps Kept (fun w e w' hkept hstep => (step_kept hkept hstep).1) (fun w e w' hkept hP hstep => ?_)
      operations _ hinitial ((disputable_iff_named hinitial).mpr rfl)
    obtain ⟨hkept', hnamed⟩ := step_kept hkept hstep
    rw [disputable_iff_named hkept', hnamed, (disputable_iff_named hkept).mp hP, List.nil_append, newlyNamed_iff]
  · exact allStates_of_invariant Kept (fun w e w' hkept hstep => (step_kept hkept hstep).1) (fun w => Kept.refused)
      operations _ hinitial

end

/-- Billed 100.00 by the carrier of the B3 segment. -/
def motorBill : String := "ISA****************>~ST*210*1~B3**INV-7*S1****100.00****SCAC~L1*1***100.00****LHS~"

def catalogue : List Carrier := [⟨7, some "SCAC"⟩]

/-- The code is linehaul, for every carrier. -/
def linehaulCodes : List CrosswalkRow := [⟨none, none, some "LHS", none, "LINEHAUL", 1, none, none, 0⟩]

/-- The bill is ingested under a contract that says 90.00, and the overcharge is accepted. -/
def acceptedBill : List Operation :=
  [.ingestInvoice 1 motorBill CONTRACT_RUBRIC (some ⟨some (some ⟨"90.00", "USD", none⟩), none, none, []⟩),
    .updateFindingStatus 1 5 .accepted]

def billStep : DisputeWorld (plainInput 18 4) → Operation → Option (DisputeWorld (plainInput 18 4)) :=
  step Ref Unicode.ascii id fun _ _ => some false

/-- The bill names a carrier of the catalogue, and has an accepted overcharge. -/
def isNamedOvercharge (w : DisputeWorld (plainInput 18 4)) : Bool :=
  w.named == [(0, 7)] && w.varianceFindings.any fun f =>
    decide (f.invoiceId = 0 ∧ f.row.direction = some .OVERCHARGE ∧ f.status = .accepted)

/-- The accepted overcharge of the bill is refused. -/
theorem acceptedBill_refused :
    ∃ w, final billStep (.initial (plainInput 18 4) catalogue linehaulCodes) acceptedBill = some w ∧ ¬ Disputable Ref w ∧
      ∃ f ∈ w.varianceFindings, IsAcceptedOvercharge f ∧
        createDisputeFromFindings Ref w ⟨f.accountId, [f.id], none⟩ = .error (.disputableFindings .MISSING_CARRIER) := by
  have hreached : (final billStep (.initial (plainInput 18 4) catalogue linehaulCodes) acceptedBill).any isNamedOvercharge =
      true := by decide +kernel
  obtain ⟨w, hw, hnamed⟩ := (Option.any_eq_true _ _).mp hreached
  have hkept : Kept w := by
    have hall : AllStates billStep Kept (.initial (plainInput 18 4) catalogue linehaulCodes) acceptedBill :=
      allStates_of_invariant Kept (fun w e w' hkept hstep => (step_kept hkept hstep).1) (fun _ h => h) _ _
        (kept_initial catalogue linehaulCodes)
    exact hall.final hw
  simp only [isNamedOvercharge, Bool.and_eq_true, beq_iff_eq, List.any_eq_true, decide_eq_true_eq] at hnamed
  obtain ⟨hentry, f, hf, hinvoice, hdirection, hstatus⟩ := hnamed
  refine ⟨w, hw, fun hdisputable => ?_, f, hf, ⟨hdirection, hstatus⟩, ?_⟩
  · rw [(disputable_iff_named hkept).mp hdisputable] at hentry
    cases hentry
  · exact hkept.refused (0, 7) (hentry ▸ List.mem_singleton_self _) f hf hinvoice ⟨hdirection, hstatus⟩

end IngestedOvercharges
