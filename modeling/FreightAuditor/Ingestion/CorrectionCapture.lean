import FreightAuditor.Ingestion.DraftOutcomes

/- What is captured of a correction.

   The extraction comes back from its `jsonb` column with the shorter keys first, the correction has its keys
   in the order of the schema: no two charges have one text (`charge_text_ne`), so that each index is
   recorded. Of the header three fields are compared. A confirmation records every correction and nothing
   else exactly if no charge and no footing is sent as it was extracted, and nothing else of the header is
   changed (`correctionsCaptured_iff`). -/
namespace InvoiceDrafts

open AuditLedger (AuditDb ConfirmDraftInput DraftStatus finalInvoice fieldwise_jsonb jsonb jsonbKeyLe jsonbKeyLe_refl
  canonicalText_jsonb sortKeys_jsonb)
open DecimalJs Evaluator Ingestion Json JsText ReadCommitted

/-! ## What is to be captured -/

/-- The keys of an invoice. -/
def payloadKeys : List String :=
  ["transactionSet", "parserVersion", "invoiceNumber", "shipmentReferences", "carrierCode", "containerNumbers",
    "vesselVoyage", "portCodes", "headerCurrency", "charges", "footing", "quarantinedCodes"]

def headerKeys : List String := payloadKeys.filter (· ≠ "charges")

/-- The same value but for the order of keys, or none on either side. -/
def SameJson (a b : Option Value) : Prop := a.map canonicalText = b.map canonicalText

instance (a b : Option Value) : Decidable (SameJson a b) := inferInstanceAs (Decidable (_ = _))

/-- The indices of the charges on either side, and the whole header. -/
def places (extracted scored : Value) : List FieldPath :=
  (List.range (max (payloadCharges extracted).length (payloadCharges scored).length)).map .charge ++
    headerKeys.map .header

/-- The human value recorded for a place, or else the extracted one. -/
def appliedValue (rows : List ExtractionField) (extracted : Value) (path : FieldPath) : Option Value :=
  match rows.find? (·.fieldPath == path.text) with
  | some row => row.humanValue
  | none => path.valueIn extracted

/-- The extracted payload with the recorded human values in their places. -/
def applyCorrections (rows : List ExtractionField) (extracted : Value) : Value :=
  object (payloadKeys.map fun key => (key,
    if key = "charges" then
      some (.arr ((List.range ((payloadCharges extracted).length + rows.length)).filterMap fun i =>
        appliedValue rows extracted (.charge i)))
    else appliedValue rows extracted (.header key)))

/-- Every correction is recorded and nothing else, and the rows tell the scored invoice from the extracted one. -/
structure Captured (extracted scored : Value) (rows : List ExtractionField) : Prop where
  recorded : ∀ path ∈ places extracted scored,
    (∃ row ∈ rows, row.fieldPath = path.text) ↔ ¬ SameJson (path.valueIn extracted) (path.valueIn scored)
  nothingElse : ∀ row ∈ rows, ∃ path ∈ places extracted scored, row.fieldPath = path.text
  reconstructs : SameJson (some (applyCorrections rows extracted)) (some scored)

instance (extracted scored : Value) (rows : List ExtractionField) : Decidable (Captured extracted scored rows) :=
  decidable_of_iff ((∀ path ∈ places extracted scored,
      (∃ row ∈ rows, row.fieldPath = path.text) ↔ ¬ SameJson (path.valueIn extracted) (path.valueIn scored)) ∧
      (∀ row ∈ rows, ∃ path ∈ places extracted scored, row.fieldPath = path.text) ∧
      SameJson (some (applyCorrections rows extracted)) (some scored))
    ⟨fun h => ⟨h.1, h.2.1, h.2.2⟩, fun h => ⟨h.recorded, h.nothingElse, h.reconstructs⟩⟩

/-- No charge and no footing is sent as it was extracted, and nothing else but the compared fields is changed. -/
structure CorrectsEachCharge (extracted corrected : ParsedInvoice) : Prop where
  charges : ∀ p ∈ extracted.charges.zip corrected.charges, p.1 ≠ p.2
  footing : corrected.footing = extracted.footing → ∀ f ∈ extracted.footing, f.declaredTotal = none
  shipmentReferences : corrected.shipmentReferences = extracted.shipmentReferences
  carrierCode : corrected.carrierCode = extracted.carrierCode
  containerNumbers : corrected.containerNumbers = extracted.containerNumbers
  vesselVoyage : corrected.vesselVoyage = extracted.vesselVoyage
  portCodes : corrected.portCodes = extracted.portCodes
  quarantinedCodes : corrected.quarantinedCodes = extracted.quarantinedCodes

def DraftCall.correctedPayload : DraftCall → Option ParsedInvoice
  | .confirm input => input.correctedPayload
  | .reject _ _ => none

/-- The rows a transaction adds to `extraction_field`. -/
def recordedFields (log : Log DraftDb DraftWrite LockKey) : List ExtractionField :=
  log.writes.flatMap fun
    | .insertExtractionFields rows => rows
    | _ => []

/-- The invoices of the runs it stores. -/
def scoredInvoices (log : Log DraftDb DraftWrite LockKey) : List ParsedInvoice :=
  log.writes.filterMap fun
    | .insertAuditRun run => some run.invoice
    | _ => none

/-- A confirmation with a correction scores one invoice, and captures what was corrected. -/
def CapturesCorrections (db : DraftDb) (call : DraftCall) (log : Log DraftDb DraftWrite LockKey) : Prop :=
  ∀ draft ∈ db.drafts.rows, draft.id = call.draftId → call.correctedPayload.isSome = true →
    (scoredInvoices log).length = 1 ∧
      ∀ scored ∈ scoredInvoices log, Captured (jsonb draft.extractedPayload.toJson) scored.toJson (recordedFields log)

instance (db : DraftDb) (call : DraftCall) (log : Log DraftDb DraftWrite LockKey) :
    Decidable (CapturesCorrections db call log) :=
  inferInstanceAs (Decidable (∀ draft ∈ db.drafts.rows, _))

def EachChargeCorrected (db : DraftDb) (call : DraftCall) (_ : Log DraftDb DraftWrite LockKey) : Prop :=
  ∀ draft ∈ db.drafts.rows, draft.id = call.draftId → ∀ corrected ∈ call.correctedPayload,
    CorrectsEachCharge draft.extractedPayload corrected

/-! ## Key order -/

theorem fieldwise_sortKeys : Fieldwise sortKeys where
  get? := get?_sortKeys
  null := rfl
  bool _ := rfl
  num _ := rfl
  str _ := rfl
  arr l := by rw [sortKeys, sortElems_eq_map]
  strict keys v := by
    cases v with
    | obj fields =>
      have hperm := (List.perm_insertionSort keyLe (sortFields fields)).all_eq (f := fun f => keys.contains f.1)
      rw [sortKeys, strict, hperm, sortFields_eq_map, List.all_map]
      rfl
    | _ => rfl

theorem charge_sameJson {c d : NormalizedCharge} : SameJson (some (jsonb c.toJson)) (some d.toJson) ↔ c = d := by
  constructor
  · intro h
    have hsorted := canonicalText_inj.mp ((canonicalText_jsonb _).symm.trans (Option.some.inj h))
    have hread := congrArg NormalizedCharge.ofJson hsorted
    rw [c.ofJson_toJson fieldwise_sortKeys, d.ofJson_toJson fieldwise_sortKeys] at hread
    exact Option.some.inj hread
  · intro h
    rw [h]
    exact congrArg some (canonicalText_jsonb _)

theorem footing_sameJson {f g : Footing} : SameJson (some (jsonb f.toJson)) (some g.toJson) ↔ f = g := by
  constructor
  · intro h
    have hsorted := canonicalText_inj.mp ((canonicalText_jsonb _).symm.trans (Option.some.inj h))
    have hread := congrArg Footing.ofJson hsorted
    rw [f.ofJson_toJson fieldwise_sortKeys, g.ofJson_toJson fieldwise_sortKeys] at hread
    exact Option.some.inj hread
  · intro h
    rw [h]
    exact congrArg some (canonicalText_jsonb _)

/-- Where a value from the column has the keys of an object as written, they are in its order. -/
theorem keys_in_order {v : Value} {fields : List (String × Option Value)} (h : jsonb v = object fields) {k k' : String}
    {x y : Value} (hkeys : [(k, some x), (k', some y)].Sublist fields) : jsonbKeyLe k k' := by
  have : IsTrans (String × Value) (Json.fieldLe jsonbKeyLe) := ⟨fun f g e hfg hge => by
    unfold Json.fieldLe jsonbKeyLe at *
    grind [String.le_trans]⟩
  have : Std.Total (α := String × Value) (Json.fieldLe jsonbKeyLe) := ⟨fun f g => by
    unfold Json.fieldLe jsonbKeyLe
    grind [String.le_total]⟩
  have hpair : [(k, x), (k', y)].Sublist (fields.filterMap fun f => f.2.map (f.1, ·)) := by
    exact hkeys.filterMap fun f => f.2.map (f.1, ·)
  cases v with
  | obj stored =>
    rw [jsonb, reorder, object, Value.obj.injEq] at h
    have hsorted := List.pairwise_insertionSort (Json.fieldLe jsonbKeyLe) (reorderFields jsonbKeyLe stored)
    rw [h] at hsorted
    exact List.rel_of_pairwise_cons (hsorted.sublist hpair) (List.mem_singleton_self _)
  | _ => cases h

/-- A charge from the column has its currency before its quarantine, and a corrected one after it. -/
theorem charge_text_ne (c d : NormalizedCharge) : jsonb c.toJson ≠ d.toJson := by
  intro h
  have hle : jsonbKeyLe "quarantined" "currency" :=
    keys_in_order h (.cons _ (.cons _ (.cons _ (.cons_cons _ (.cons _ (.cons_cons _ (List.nil_sublist _)))))))
  exact absurd hle (by decide)

/-- A footing from the column has its line sum first, a corrected one its declared total. -/
theorem footing_text_eq {f g : Footing} : jsonb f.toJson = g.toJson ↔ f = g ∧ f.declaredTotal = none := by
  constructor
  · intro h
    obtain rfl := footing_sameJson.mp (congrArg (fun v => some (canonicalText v)) h)
    refine ⟨rfl, ?_⟩
    cases htotal : f.declaredTotal with
    | none => rfl
    | some total =>
      have hle : jsonbKeyLe "declaredTotal" "lineSum" := by
        rw [Footing.toJson, htotal] at h
        exact keys_in_order h (List.Sublist.refl _)
      exact absurd hle (by decide)
  · intro h
    obtain ⟨rfl, htotal⟩ := h
    rw [Footing.toJson, htotal]
    rfl

/-! ## The rows of a correction -/

/-- An index, or a key of the header. -/
def FieldPath.Known : FieldPath → Prop
  | .charge _ => True
  | .header key => key ∈ headerKeys

/-- A row tells the place it is for. -/
theorem text_injective {p q : FieldPath} (hp : p.Known) (hq : q.Known) (h : p.text = q.text) : p = q := by
  have hbracket : ∀ key ∈ headerKeys, '[' ∉ (FieldPath.header key).text.toList := by decide
  have hindex (i : ℕ) : '[' ∈ (FieldPath.charge i).text.toList := by
    simp [FieldPath.text]
  cases p with
  | charge i =>
    cases q with
    | charge j =>
      have hdigits : toString i = toString j := by
        simpa [FieldPath.text, String.append_assoc] using h
      exact congrArg FieldPath.charge (toDigits_injective (String.ofList_inj.mp hdigits))
    | header key => exact absurd (h ▸ hindex i) (hbracket key hq)
  | header key =>
    cases q with
    | charge j => exact absurd (h ▸ hindex j) (hbracket key hp)
    | header key' => exact congrArg FieldPath.header h

section

variable (clientId sourceDocumentId : String) (before after : FieldPath → Option Value)

/-- The rows for a list of places. -/
def rowsOf (paths : List FieldPath) : List ExtractionField :=
  (paths.flatMap fun path => writeDiff path.text (before path) (after path)).map fun (fieldPath, aiValue, humanValue) =>
    ⟨clientId, sourceDocumentId, fieldPath, aiValue, humanValue⟩

variable {clientId sourceDocumentId before after}

theorem writeDiff_eq (fieldPath : String) {x y : Option Value} :
    (x = y → writeDiff fieldPath x y = []) ∧ (x ≠ y → writeDiff fieldPath x y = [(fieldPath, x, y)]) := by
  constructor
  · intro h
    rw [writeDiff, h, if_pos rfl]
  · intro h
    exact if_neg fun htext => h (Option.map_injective Json.render_injective htext)

theorem mem_rowsOf {paths : List FieldPath} {row : ExtractionField} :
    row ∈ rowsOf clientId sourceDocumentId before after paths ↔ ∃ p ∈ paths, before p ≠ after p ∧
      row = ⟨clientId, sourceDocumentId, p.text, before p, after p⟩ := by
  simp only [rowsOf, List.mem_map, List.mem_flatMap]
  constructor
  · intro h
    obtain ⟨diff, ⟨p, hp, hdiff⟩, hrow⟩ := h
    by_cases hsame : before p = after p
    · rw [(writeDiff_eq p.text).1 hsame] at hdiff
      cases hdiff
    · rw [(writeDiff_eq p.text).2 hsame, List.mem_singleton] at hdiff
      subst hdiff
      exact ⟨p, hp, hsame, hrow.symm⟩
  · intro h
    obtain ⟨p, hp, hne, hrow⟩ := h
    refine ⟨(p.text, before p, after p), ⟨p, hp, ?_⟩, hrow.symm⟩
    rw [(writeDiff_eq p.text).2 hne]
    exact List.mem_singleton_self _

variable {paths : List FieldPath} (hpaths : ∀ p ∈ paths, p.Known) {q : FieldPath} (hq : q.Known)

include hpaths hq

/-- There is a row for a place if it is compared and differs. -/
theorem exists_row_iff : (∃ row ∈ rowsOf clientId sourceDocumentId before after paths, row.fieldPath = q.text) ↔
    q ∈ paths ∧ before q ≠ after q := by
  constructor
  · intro h
    obtain ⟨row, hrow, htext⟩ := h
    obtain ⟨p, hp, hne, rfl⟩ := mem_rowsOf.mp hrow
    obtain rfl := text_injective (hpaths p hp) hq htext
    exact ⟨hp, hne⟩
  · intro h
    exact ⟨_, mem_rowsOf.mpr ⟨q, h.1, h.2, rfl⟩, rfl⟩

/-- Applied to the values before, the rows give the value after wherever they were compared. -/
theorem appliedValue_rowsOf {extracted : Value} (hbefore : q.valueIn extracted = before q)
    (hafter : q ∉ paths → after q = before q) :
    appliedValue (rowsOf clientId sourceDocumentId before after paths) extracted q = after q := by
  have hiff := @exists_row_iff clientId sourceDocumentId before after paths hpaths q hq
  unfold appliedValue
  split
  · rename_i row hfind
    obtain ⟨p, hp, -, rfl⟩ := mem_rowsOf.mp (List.mem_of_find?_eq_some hfind)
    have htext : p.text = q.text := by simpa using List.find?_some hfind
    obtain rfl := text_injective (hpaths p hp) hq htext
    rfl
  · rename_i hfind
    rw [hbefore]
    by_cases hmem : q ∈ paths
    · by_contra hne
      obtain ⟨row, hrow, htext⟩ := hiff.mpr ⟨hmem, hne⟩
      exact List.find?_eq_none.mp hfind row hrow (beq_iff_eq.mpr htext)
    · exact (hafter hmem).symm

omit hpaths hq

/-- There are as many rows as places that differ. -/
theorem length_rowsOf_ge {front : List FieldPath} (hfront : front.Sublist paths)
    (hne : ∀ p ∈ front, before p ≠ after p) :
    front.length ≤ (rowsOf clientId sourceDocumentId before after paths).length := by
  rw [rowsOf, List.length_map]
  induction hfront with
  | slnil => exact Nat.zero_le _
  | cons p _ ih =>
    rw [List.flatMap_cons, List.length_append]
    exact (ih hne).trans (Nat.le_add_left _ _)
  | cons_cons p _ ih =>
    have hrest := ih fun r hr => hne r (List.mem_cons_of_mem _ hr)
    rw [List.flatMap_cons, (writeDiff_eq p.text).2 (hne p List.mem_cons_self), List.length_append, List.length_cons,
      List.length_singleton]
    omega

end

/-! ## The header and the charges -/

/-- A value without an object. -/
def ObjectFree (v : Value) : Prop := jsonb v = v ∧ sortKeys v = v

theorem plain_str (s : String) : ObjectFree (.str s) := ⟨rfl, rfl⟩

theorem plain_strings (l : List String) : ObjectFree (.arr (l.map .str)) := by
  constructor
  · rw [fieldwise_jsonb.arr, List.map_map]
    rfl
  · rw [fieldwise_sortKeys.arr, List.map_map]
    rfl

section

variable {inv corrected : ParsedInvoice}

/-- Of the header, only the footing is an object. -/
theorem plain_header {key : String} (hkey : key ∈ headerKeys) (hfooting : key ≠ "footing") :
    ∀ v ∈ inv.toJson.get? key, ObjectFree v := by
  intro v hv
  simp only [headerKeys, payloadKeys, List.mem_filter, List.mem_cons, List.not_mem_nil, or_false] at hkey
  obtain ⟨hkey, hcharges⟩ := hkey
  rcases hkey with rfl | rfl | rfl | rfl | rfl | rfl | rfl | rfl | rfl | rfl | rfl | rfl
  case inr.inr.inr.inr.inr.inr.inr.inr.inr.inl => simp at hcharges
  case inr.inr.inr.inr.inr.inr.inr.inr.inr.inr.inl => exact absurd rfl hfooting
  all_goals
    simp [ParsedInvoice.toJson, texts] at hv
    grind [plain_str, plain_strings]

theorem header_stored (key : String) :
    (FieldPath.header key).valueIn (jsonb inv.toJson) = (inv.toJson.get? key).map jsonb :=
  fieldwise_jsonb.get? key inv.toJson

theorem map_jsonb_plain {x : Option Value} (h : ∀ v ∈ x, ObjectFree v) : x.map jsonb = x := by
  cases x with
  | none => rfl
  | some v => exact congrArg some (h v rfl).1

theorem sameJson_plain {x y : Option Value} (hx : ∀ v ∈ x, ObjectFree v) (hy : ∀ v ∈ y, ObjectFree v) :
    SameJson x y ↔ x = y := by
  have htext {z : Option Value} (hz : ∀ v ∈ z, ObjectFree v) : z.map canonicalText = z.map Json.render := by
    cases z with
    | none => rfl
    | some v => rw [Option.map_some, Option.map_some, canonicalText, (hz v rfl).2]
  rw [SameJson, htext hx, htext hy]
  exact (Option.map_injective Json.render_injective).eq_iff

theorem payloadCharges_toJson : payloadCharges inv.toJson = inv.charges.map NormalizedCharge.toJson := by
  simp [payloadCharges, ParsedInvoice.toJson]

theorem payloadCharges_stored :
    payloadCharges (jsonb inv.toJson) = inv.charges.map fun c => jsonb c.toJson := by
  have hget : (jsonb inv.toJson).get? "charges" = some (.arr (inv.charges.map fun c => jsonb c.toJson)) := by
    rw [fieldwise_jsonb.get?]
    simp [ParsedInvoice.toJson, fieldwise_jsonb.arr]
  rw [payloadCharges, hget]

theorem charge_stored (i : ℕ) :
    (FieldPath.charge i).valueIn (jsonb inv.toJson) = (inv.charges[i]?).map fun c => jsonb c.toJson := by
  rw [FieldPath.valueIn, payloadCharges_stored, List.getElem?_map]

theorem charge_sent (i : ℕ) :
    (FieldPath.charge i).valueIn corrected.toJson = (corrected.charges[i]?).map NormalizedCharge.toJson := by
  rw [FieldPath.valueIn, payloadCharges_toJson, List.getElem?_map]

/-- The two texts of a charge differ wherever one side has a charge. -/
theorem charge_ne {i : ℕ} (h : i < max inv.charges.length corrected.charges.length) :
    (FieldPath.charge i).valueIn (jsonb inv.toJson) ≠ (FieldPath.charge i).valueIn corrected.toJson := by
  rw [charge_stored, charge_sent]
  intro heq
  cases hc : inv.charges[i]? with
  | none =>
    rw [hc] at heq
    have hd : corrected.charges[i]? = none := Option.map_eq_none_iff.mp heq.symm
    rw [List.getElem?_eq_none_iff] at hc hd
    omega
  | some c =>
    rw [hc] at heq
    obtain ⟨d, -, hd⟩ := Option.map_eq_some_iff.mp heq.symm
    exact charge_text_ne c d hd.symm

/-- The invoice that is scored: the kind of document is the extraction's. -/
def scoredOf (inv corrected : ParsedInvoice) : ParsedInvoice :=
  { corrected with transactionSet := inv.transactionSet, parserVersion := inv.parserVersion }

/-- What is compared is compared with the scored invoice. -/
theorem correctionRows_eq (clientId sourceDocumentId : String) : correctionRows clientId sourceDocumentId inv corrected =
    rowsOf clientId sourceDocumentId (·.valueIn (jsonb inv.toJson)) (·.valueIn (scoredOf inv corrected).toJson)
      (comparedPaths (jsonb inv.toJson) (scoredOf inv corrected).toJson) := by
  have hpaths : comparedPaths (jsonb inv.toJson) (scoredOf inv corrected).toJson =
      comparedPaths (jsonb inv.toJson) corrected.toJson := by
    rw [comparedPaths, comparedPaths, payloadCharges_toJson, payloadCharges_toJson, scoredOf]
  have hvalues : ∀ p ∈ comparedPaths (jsonb inv.toJson) corrected.toJson,
      p.valueIn corrected.toJson = p.valueIn (scoredOf inv corrected).toJson := by
    intro p hp
    cases p with
    | charge i => rw [charge_sent, charge_sent, scoredOf]
    | header key =>
      have hkey : key = "invoiceNumber" ∨ key = "headerCurrency" ∨ key = "footing" := by
        simpa [comparedPaths, HEADER_FIELD_PATHS] using hp
      rcases hkey with rfl | rfl | rfl
      · simp [FieldPath.valueIn, ParsedInvoice.toJson, scoredOf]
      · simp [FieldPath.valueIn, ParsedInvoice.toJson, scoredOf]
      · simp [FieldPath.valueIn, ParsedInvoice.toJson, scoredOf]
  rw [correctionRows, correctionDiff, rowsOf, hpaths]
  refine congrArg (List.map _) (List.flatMap_congr fun p hp => ?_)
  rw [hvalues p hp]

/-! ## When a correction is captured -/

section

variable {extracted scored : Value}

theorem charge_mem_comparedPaths {i : ℕ} : .charge i ∈ comparedPaths extracted scored ↔
    i < max (payloadCharges extracted).length (payloadCharges scored).length := by
  simp [comparedPaths]

theorem header_mem_comparedPaths {key : String} :
    .header key ∈ comparedPaths extracted scored ↔ key ∈ HEADER_FIELD_PATHS := by
  simp [comparedPaths]

theorem charge_mem_places {i : ℕ} : .charge i ∈ places extracted scored ↔
    i < max (payloadCharges extracted).length (payloadCharges scored).length := by
  simp [places]

theorem header_mem_places {key : String} : .header key ∈ places extracted scored ↔ key ∈ headerKeys := by
  simp [places]

theorem HEADER_FIELD_PATHS_subset : HEADER_FIELD_PATHS ⊆ headerKeys := by decide

theorem known_of_compared {p : FieldPath} (h : p ∈ comparedPaths extracted scored) : p.Known := by
  cases p with
  | charge i => trivial
  | header key => exact HEADER_FIELD_PATHS_subset (header_mem_comparedPaths.mp h)

theorem compared_subset_places {p : FieldPath} (h : p ∈ comparedPaths extracted scored) :
    p ∈ places extracted scored := by
  cases p with
  | charge i => exact charge_mem_places.mpr (charge_mem_comparedPaths.mp h)
  | header key => exact header_mem_places.mpr (HEADER_FIELD_PATHS_subset (header_mem_comparedPaths.mp h))

theorem known_of_place {p : FieldPath} (h : p ∈ places extracted scored) : p.Known := by
  cases p with
  | charge i => trivial
  | header key => exact header_mem_places.mp h

end

/-- What has to hold of a place: it is compared and its texts differ exactly if its values do. -/
def RecordedAt (inv corrected : ParsedInvoice) (p : FieldPath) : Prop :=
  p ∈ comparedPaths (jsonb inv.toJson) (scoredOf inv corrected).toJson ∧
      p.valueIn (jsonb inv.toJson) ≠ p.valueIn (scoredOf inv corrected).toJson ↔
    ¬ SameJson (p.valueIn (jsonb inv.toJson)) (p.valueIn (scoredOf inv corrected).toJson)

theorem recordedAt_charge {i : ℕ} (h : i < max inv.charges.length corrected.charges.length) :
    RecordedAt inv corrected (.charge i) ↔
      ∀ c d, inv.charges[i]? = some c → corrected.charges[i]? = some d → c ≠ d := by
  have hcompared : .charge i ∈ comparedPaths (jsonb inv.toJson) (scoredOf inv corrected).toJson := by
    rw [charge_mem_comparedPaths, payloadCharges_stored, payloadCharges_toJson, List.length_map, List.length_map]
    exact h
  have hne : (FieldPath.charge i).valueIn (jsonb inv.toJson) ≠ (FieldPath.charge i).valueIn (scoredOf inv corrected).toJson :=
    charge_ne h
  have hrecorded : RecordedAt inv corrected (.charge i) ↔
      ¬ SameJson ((inv.charges[i]?).map fun c => jsonb c.toJson) ((corrected.charges[i]?).map NormalizedCharge.toJson) := by
    rw [RecordedAt, charge_stored, charge_sent]
    exact iff_true_left ⟨hcompared, charge_stored i ▸ charge_sent i ▸ hne⟩
  rw [hrecorded]
  cases hc : inv.charges[i]? with
  | none =>
    cases hd : corrected.charges[i]? with
    | none =>
      rw [List.getElem?_eq_none_iff] at hc hd
      omega
    | some d => simp [SameJson]
  | some c =>
    cases hd : corrected.charges[i]? with
    | none => simp [SameJson]
    | some d => simp [charge_sameJson]

theorem recordedAt_footing : RecordedAt inv corrected (.header "footing") ↔
    (corrected.footing = inv.footing → ∀ f ∈ inv.footing, f.declaredTotal = none) := by
  have hcompared : .header "footing" ∈ comparedPaths (jsonb inv.toJson) (scoredOf inv corrected).toJson :=
    header_mem_comparedPaths.mpr (by decide)
  have hsent : (FieldPath.header "footing").valueIn (scoredOf inv corrected).toJson = corrected.footing.map Footing.toJson := by
    simp [FieldPath.valueIn, ParsedInvoice.toJson, scoredOf]
  have hstored : (FieldPath.header "footing").valueIn (jsonb inv.toJson) = inv.footing.map fun f => jsonb f.toJson := by
    rw [header_stored]
    simp [ParsedInvoice.toJson]
    rfl
  rw [RecordedAt, and_iff_right hcompared, hsent, hstored, not_iff_not]
  cases hf : inv.footing with
  | none =>
    cases hg : corrected.footing with
    | none => simp [SameJson]
    | some g => simp [SameJson]
  | some f =>
    cases hg : corrected.footing with
    | none => simp [SameJson]
    | some g =>
      simp only [Option.map_some, Option.some.injEq, footing_text_eq, footing_sameJson, Option.mem_def]
      constructor
      · intro h hgf f' hf'
        subst hf'
        exact (h.mpr hgf.symm).2
      · intro h
        exact ⟨And.left, fun hfg => ⟨hfg, h hfg.symm f rfl⟩⟩

/-- Of the rest of the header, what is not compared has to stay. -/
theorem recordedAt_header {key : String} (hkey : key ∈ headerKeys) (hfooting : key ≠ "footing") :
    RecordedAt inv corrected (.header key) ↔
      (key ∈ HEADER_FIELD_PATHS ∨ inv.toJson.get? key = (scoredOf inv corrected).toJson.get? key) := by
  have hplain := @plain_header inv key hkey hfooting
  have hplain' := @plain_header (scoredOf inv corrected) key hkey hfooting
  rw [RecordedAt, header_mem_comparedPaths, header_stored, map_jsonb_plain hplain, FieldPath.valueIn,
    sameJson_plain hplain hplain']
  tauto

theorem strings_injective : Function.Injective fun l : List String => Value.arr (l.map .str) := by
  intro l m h
  exact List.map_injective_iff.mpr (fun _ _ => Value.str.inj) (Value.arr.inj h)

/-- The header fields that no row can tell of. -/
theorem uncompared_iff : (∀ key ∈ headerKeys, key ≠ "footing" → key ∈ HEADER_FIELD_PATHS ∨
      inv.toJson.get? key = (scoredOf inv corrected).toJson.get? key) ↔
    inv.shipmentReferences = corrected.shipmentReferences ∧ inv.carrierCode = corrected.carrierCode ∧
      inv.containerNumbers = corrected.containerNumbers ∧ inv.vesselVoyage = corrected.vesselVoyage ∧
      inv.portCodes = corrected.portCodes ∧ inv.quarantinedCodes = corrected.quarantinedCodes := by
  have htext {a b : Option String} : a.map Value.str = b.map .str ↔ a = b :=
    (Option.map_injective fun _ _ => Value.str.inj).eq_iff
  have htexts {a b : Option (List String)} : texts a = texts b ↔ a = b := (Option.map_injective strings_injective).eq_iff
  have hcodes {a b : List String} : a.map Value.str = b.map .str ↔ a = b :=
    (List.map_injective_iff.mpr fun _ _ => Value.str.inj).eq_iff
  simp [headerKeys, payloadKeys, HEADER_FIELD_PATHS, ParsedInvoice.toJson, scoredOf, htext, htexts, hcodes]

theorem recordedAt_iff : (∀ p ∈ places (jsonb inv.toJson) (scoredOf inv corrected).toJson, RecordedAt inv corrected p) ↔
    CorrectsEachCharge inv corrected := by
  have hcharge {i : ℕ} : .charge i ∈ places (jsonb inv.toJson) (scoredOf inv corrected).toJson ↔
      i < max inv.charges.length corrected.charges.length := by
    rw [charge_mem_places, payloadCharges_stored, payloadCharges_toJson, List.length_map, List.length_map, scoredOf]
  constructor
  · intro h
    have hheader : ∀ key ∈ headerKeys, key ≠ "footing" → key ∈ HEADER_FIELD_PATHS ∨
        inv.toJson.get? key = (scoredOf inv corrected).toJson.get? key := fun key hkey hfooting =>
      (recordedAt_header hkey hfooting).mp (h _ (header_mem_places.mpr hkey))
    obtain ⟨hrefs, hcarrier, hcontainers, hvessel, hports, hcodes⟩ := uncompared_iff.mp hheader
    refine ⟨fun p hp => ?_, recordedAt_footing.mp (h _ (header_mem_places.mpr (by decide))), hrefs.symm, hcarrier.symm,
      hcontainers.symm, hvessel.symm, hports.symm, hcodes.symm⟩
    obtain ⟨i, hi⟩ := List.mem_iff_getElem?.mp hp
    obtain ⟨hc, hd⟩ := List.getElem?_zip_eq_some.mp hi
    have hlt : i < max inv.charges.length corrected.charges.length :=
      lt_max_of_lt_left (List.getElem?_eq_some_iff.mp hc).1
    exact (recordedAt_charge hlt).mp (h _ (hcharge.mpr hlt)) _ _ hc hd
  · intro h p hp
    cases p with
    | charge i =>
      refine (recordedAt_charge (hcharge.mp hp)).mpr fun c d hc hd => ?_
      exact h.charges (c, d) (List.mem_iff_getElem?.mpr ⟨i, List.getElem?_zip_eq_some.mpr ⟨hc, hd⟩⟩)
    | header key =>
      by_cases hfooting : key = "footing"
      · subst hfooting
        exact recordedAt_footing.mpr h.footing
      · have hkey : key ∈ headerKeys := header_mem_places.mp hp
        exact (recordedAt_header hkey hfooting).mpr (uncompared_iff.mpr ⟨h.shipmentReferences.symm, h.carrierCode.symm,
          h.containerNumbers.symm, h.vesselVoyage.symm, h.portCodes.symm, h.quarantinedCodes.symm⟩ key hkey hfooting)

/-! ## What the rows tell -/

theorem filterMap_getElem? {α : Type} (l : List α) {n : ℕ} (h : l.length ≤ n) :
    (List.range n).filterMap (fun i => l[i]?) = l := by
  induction l generalizing n with
  | nil => simp
  | cons a l ih =>
    obtain _ | n := n
    · cases h
    · have hrest := ih (Nat.le_of_succ_le_succ h)
      simpa [List.range_succ_eq_map, List.filterMap_map, Function.comp_def] using hrest

/-- An invoice as an object of its keys. -/
theorem toJson_keys : inv.toJson = object (payloadKeys.map fun key => (key, inv.toJson.get? key)) := by
  simp [payloadKeys, ParsedInvoice.toJson]

/-- A row for each charge on either side. -/
theorem length_correctionRows_ge {clientId sourceDocumentId : String} :
    corrected.charges.length ≤ (correctionRows clientId sourceDocumentId inv corrected).length := by
  have hlength : (payloadCharges (jsonb inv.toJson)).length = inv.charges.length := by
    rw [payloadCharges_stored, List.length_map]
  have hlength' : (payloadCharges (scoredOf inv corrected).toJson).length = corrected.charges.length := by
    rw [payloadCharges_toJson, List.length_map, scoredOf]
  have hfront : ((List.range (max inv.charges.length corrected.charges.length)).map FieldPath.charge).Sublist
      (comparedPaths (jsonb inv.toJson) (scoredOf inv corrected).toJson) := by
    rw [comparedPaths, hlength, hlength']
    exact List.sublist_append_left _ _
  have hne : ∀ p ∈ (List.range (max inv.charges.length corrected.charges.length)).map FieldPath.charge,
      p.valueIn (jsonb inv.toJson) ≠ p.valueIn (scoredOf inv corrected).toJson := by
    intro p hp
    obtain ⟨i, hi, rfl⟩ := List.mem_map.mp hp
    exact @charge_ne inv (scoredOf inv corrected) i (List.mem_range.mp hi)
  have hle := @length_rowsOf_ge clientId sourceDocumentId _ _ _ _ hfront hne
  rw [List.length_map, List.length_range, ← correctionRows_eq] at hle
  exact (le_max_right _ _).trans hle

section

variable {clientId sourceDocumentId : String} (h : CorrectsEachCharge inv corrected)

include h

theorem appliedValue_eq {p : FieldPath} (hp : p.Known) :
    appliedValue (correctionRows clientId sourceDocumentId inv corrected) (jsonb inv.toJson) p =
      p.valueIn (scoredOf inv corrected).toJson := by
  rw [correctionRows_eq]
  refine appliedValue_rowsOf (fun _ => known_of_compared) hp rfl fun hnot => ?_
  cases p with
  | charge i =>
    rw [charge_mem_comparedPaths, payloadCharges_stored, payloadCharges_toJson, List.length_map, List.length_map] at hnot
    have hbeyond : inv.charges.length ≤ i ∧ corrected.charges.length ≤ i := max_le_iff.mp (not_lt.mp hnot)
    rw [charge_stored, charge_sent, List.getElem?_eq_none hbeyond.1]
    exact Option.map_eq_none_iff.mpr (List.getElem?_eq_none hbeyond.2)
  | header key =>
    rw [header_mem_comparedPaths] at hnot
    have hfooting : key ≠ "footing" := fun heq => hnot (heq ▸ by decide)
    have hsame := (recordedAt_header hp hfooting).mp (recordedAt_iff.mpr h _ (header_mem_places.mpr hp))
    rw [header_stored, map_jsonb_plain (plain_header hp hfooting)]
    exact (hsame.resolve_left hnot).symm

/-- Applied to the extraction, the rows give the scored invoice. -/
theorem applyCorrections_eq :
    applyCorrections (correctionRows clientId sourceDocumentId inv corrected) (jsonb inv.toJson) =
      (scoredOf inv corrected).toJson := by
  rw [@toJson_keys (scoredOf inv corrected), applyCorrections]
  refine congrArg object (List.map_congr_left fun key hkey => congrArg (key, ·) ?_)
  split
  · rename_i hcharges
    have hvalues (i : ℕ) :
        appliedValue (correctionRows clientId sourceDocumentId inv corrected) (jsonb inv.toJson) (.charge i) =
          (corrected.charges.map NormalizedCharge.toJson)[i]? := by
      rw [appliedValue_eq h (p := .charge i) trivial, charge_sent, List.getElem?_map]
      rfl
    have hget : (scoredOf inv corrected).toJson.get? key = some (.arr (corrected.charges.map NormalizedCharge.toJson)) := by
      subst hcharges
      simp [ParsedInvoice.toJson, scoredOf]
    simp only [hvalues, hget]
    rw [filterMap_getElem?]
    rw [List.length_map]
    exact length_correctionRows_ge.trans (Nat.le_add_left _ _)
  · rename_i hcharges
    exact appliedValue_eq h (List.mem_filter.mpr ⟨hkey, decide_eq_true hcharges⟩)

end

/-- A correction is captured exactly if each charge is corrected. -/
theorem captured_iff {clientId sourceDocumentId : String} :
    Captured (jsonb inv.toJson) (scoredOf inv corrected).toJson (correctionRows clientId sourceDocumentId inv corrected) ↔
      CorrectsEachCharge inv corrected := by
  have hrecorded : ∀ p ∈ places (jsonb inv.toJson) (scoredOf inv corrected).toJson,
      ((∃ row ∈ correctionRows clientId sourceDocumentId inv corrected, row.fieldPath = p.text) ↔
        p ∈ comparedPaths (jsonb inv.toJson) (scoredOf inv corrected).toJson ∧
          p.valueIn (jsonb inv.toJson) ≠ p.valueIn (scoredOf inv corrected).toJson) := by
    intro p hp
    rw [correctionRows_eq]
    exact exists_row_iff (fun _ => known_of_compared) (known_of_place hp)
  constructor
  · intro h
    exact recordedAt_iff.mp fun p hp => (hrecorded p hp).symm.trans (h.recorded p hp)
  · intro h
    refine ⟨fun p hp => (hrecorded p hp).trans (recordedAt_iff.mpr h p hp), fun row hrow => ?_,
      congrArg (fun v => some (canonicalText v)) (applyCorrections_eq h)⟩
    rw [correctionRows_eq] at hrow
    obtain ⟨p, hp, -, rfl⟩ := mem_rowsOf.mp hrow
    exact ⟨p, compared_subset_places hp, rfl⟩

end

/-! ## Confirmations -/

section

variable {sha256 : String → String} {D : Type} [Decimal D] {unicode : Unicode} {uuidIn : String → Option String}
  {newId : ℕ → String} {db : DraftDb} {i startedAt : ℕ} {r : PUnit} {log : Log DraftDb DraftWrite LockKey}

theorem confirmation_writes {auditRunId : String} {input : ConfirmDraftInput} {draft : InvoiceDraft} {run : AuditRun}
    {new : List AuditEvent} {corrected : ParsedInvoice} (hc : Confirmed sha256 auditRunId input log draft run new)
    (hcorrected : input.correctedPayload = some corrected) :
    recordedFields log = correctionRows input.clientId draft.sourceDocumentId draft.extractedPayload corrected ∧
      scoredInvoices log = [scoredOf draft.extractedPayload corrected] := by
  have hinvoice : run.invoice = scoredOf draft.extractedPayload corrected := by
    rw [hc.invoice, hcorrected]
    rfl
  constructor
  · simp [recordedFields, hc.writes, hcorrected, List.flatMap_map]
  · simp [scoredInvoices, hc.writes, hcorrected, List.filterMap_map, hinvoice]

theorem capturesCorrections_commit {call : DraftCall}
    (h : Commit (draftsSystem sha256 D unicode uuidIn newId) (Recorded sha256) Since db call i startedAt r log) :
    CapturesCorrections db call log ↔ EachChargeCorrected db call log := by
  cases call with
  | reject clientId draftId =>
    refine iff_of_true (fun draft _ _ hsome => ?_) fun draft _ _ corrected hcorrected => ?_
    · cases hsome
    · cases hcorrected
  | confirm input =>
    obtain ⟨draft₀, run, new, hc⟩ := confirm_ends h.ends
    obtain ⟨s, hs, hmem⟩ := hc.loaded
    obtain ⟨draft, hdraft, hlater⟩ := (h.seen s hs).2.grows.drafts draft₀ hmem
    have hunique : ∀ d ∈ db.drafts.rows, d.id = input.draftId → d = draft := fun d hd hid =>
      KeyedTable.eq_of_key hd hdraft (hid.trans (hlater.id.trans hc.draftId).symm)
    cases hpayload : input.correctedPayload with
    | none =>
      refine iff_of_true (fun d _ _ hsome => ?_) fun d _ _ corrected hcorrected => ?_
      · rw [DraftCall.correctedPayload, hpayload] at hsome
        cases hsome
      · rw [DraftCall.correctedPayload, hpayload] at hcorrected
        cases hcorrected
    | some corrected =>
      obtain ⟨hrows, hscored⟩ := confirmation_writes hc hpayload
      have hsome : (DraftCall.confirm input).correctedPayload = some corrected := hpayload
      have hiff := @captured_iff draft₀.extractedPayload corrected input.clientId draft₀.sourceDocumentId
      rw [← hrows] at hiff
      constructor
      · intro hcaptures d hd hid c hcorrected
        obtain rfl := hunique d hd hid
        obtain rfl := Option.some.inj (hsome.symm.trans hcorrected)
        have hcaptured := (hcaptures d hd hid (hsome ▸ rfl)).2 _ (hscored ▸ List.mem_singleton_self _)
        rw [hlater.extractedPayload] at hcaptured ⊢
        exact hiff.mp hcaptured
      · intro heach d hd hid _
        obtain rfl := hunique d hd hid
        have hcorrects := heach d hd hid corrected hsome
        refine ⟨by rw [hscored]; rfl, fun scored hmem' => ?_⟩
        rw [hscored, List.mem_singleton] at hmem'
        subst hmem'
        rw [hlater.extractedPayload] at hcorrects ⊢
        exact hiff.mpr hcorrects

end

section

variable (sha256 : String → String) (D : Type) [Decimal D] (unicode : Unicode) (uuidIn : String → Option String)
  (newId : ℕ → String)

/-- Along a run every confirmation captures what was corrected, and nothing else, exactly if in every one each
charge is corrected, the footing is not sent as it was, and nothing but the compared fields is changed. -/
theorem correctionsCaptured_iff (pinned : AuditDb) (drafts : ExtractedDrafts) (next now : ℕ)
    (events : List (Event DraftCall)) :
    Runs.AllSteps (step (draftsSystem sha256 D unicode uuidIn newId)) (CommitsMeet CapturesCorrections)
        (World.initial (DraftDb.initial pinned drafts.table) next now) events ↔
      Runs.AllSteps (step (draftsSystem sha256 D unicode uuidIn newId)) (CommitsMeet EachChargeCorrected)
        (World.initial (DraftDb.initial pinned drafts.table) next now) events :=
  have outlined : Outline (draftsSystem sha256 D unicode uuidIn newId) _ _ _ :=
    outline drafts_parts body_covered fun _ _ _ _ _ _ h => recorded_commit h
  outlined.commitsMeet_iff (fun _ _ _ _ _ _ h => capturesCorrections_commit h) (recorded_initial sha256 pinned drafts)
    next now events

end

/-- A bill as it is extracted, which does not foot. -/
def extractedBill : ParsedInvoice :=
  { draftOf "90.00" "100.0000" with
    charges := [⟨some "400", none, some "LINEHAUL", false, some "100.0000", "USD", none, none, none, none⟩] }

def billDraft : ExtractedDrafts where
  table := ⟨[⟨AuditLedger.uuidOf "10", AuditLedger.uuidOf "02", .extracted, AuditLedger.uuidOf "03", extractedBill, none,
    none, none⟩], List.nodup_singleton _⟩
  undecided := by
    intro d hd
    obtain rfl := List.mem_singleton.mp hd
    exact ⟨DraftStatus.noConfusion, DraftStatus.noConfusion⟩

/-- The analyst corrects the number of the bill and states its references. -/
def renumberedBill : ParsedInvoice :=
  { extractedBill with invoiceNumber := some "INV-7", shipmentReferences := some ["BOL-1"] }

/-- The charge and the footing are recorded as corrected, which they are not, and the references are not recorded. -/
theorem renumberedBill_notCaptured : CorrectedInvoiceSchema renumberedBill = true ∧
    ¬ Runs.AllSteps (step (draftsSystem id Ref .ascii some fun i => AuditLedger.uuidOf ("2" ++ toString i)))
      (CommitsMeet CapturesCorrections) (World.initial (DraftDb.initial draftPinned billDraft.table) 1 0)
      [.begin (.confirm ⟨AuditLedger.uuidOf "02", AuditLedger.uuidOf "10", some renumberedBill, none, none⟩), .exec 1,
        .exec 1, .exec 1, .exec 1, .exec 1, .exec 1, .commit 1] := by
  decide +kernel

end InvoiceDrafts
