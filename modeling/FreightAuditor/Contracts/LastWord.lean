import FreightAuditor.Contracts.Extractions

/- The verified contract and the analyst's last word.

   A correction that was submitted before finds its old row, and the finalization takes the
   row recorded last: so it takes the submission that was last a new one, and reads `null` as
   no correction. `lastWord_iff` says when that is the last correction accepted. -/
namespace Contracts.Extractions

open AppendOnly DecimalJs ReadCommitted
open Claims (AuditEvent AuditEventEvidence)

/-! ## The law -/

/-- The rows, and the corrections accepted so far. -/
structure Corrected where
  serial : Serial Db
  history : List CorrectionInput

def accepted (history : List CorrectionInput) : ExtractionCall → List CorrectionInput
  | .persistExtractionFieldCorrection input => history ++ [input]
  | .finalizeContractVersion _ => history

def onField (history : List CorrectionInput) (fieldId : ℕ) : List CorrectionInput :=
  history.filter fun c => c.fieldId = fieldId

/-- The value corrected to last, or the model's. -/
def lastWord (history : List CorrectionInput) (fieldId : ℕ) (aiValue : Json.Value) : Json.Value :=
  ((onField history fieldId).getLast?.map CorrectionInput.humanValue).getD aiValue

def sameSubmission (a b : CorrectionInput) : Bool :=
  sameJson a.humanValue b.humanValue && a.answerSource == b.answerSource

/-- The corrections that submit a value and a source for the first time. -/
def submissions (history : List CorrectionInput) : List CorrectionInput :=
  history.foldl (fun seen c => if seen.any (sameSubmission c) then seen else seen ++ [c]) []

/-- The last new submission has the last correction's value; or it is `null`, and the model's value is that. -/
def LastSubmissionCounts (history : List CorrectionInput) (original : ExtractionField) : Prop :=
  ∀ last ∈ (onField history original.id).getLast?, ∀ new ∈ (submissions (onField history original.id)).getLast?,
    match new.humanValue with
    | .null => sameJson original.aiValue last.humanValue = true
    | v => sameJson v last.humanValue = true

section

variable (sha256 : String → ℕ) (collation : Collation)

def extractionStep (s : Corrected) (call : ExtractionCall) : Option Corrected :=
  (serialStep (extractionsSystem sha256 collation) s.serial call).map fun serial => ⟨serial, accepted s.history call⟩

/-- The contract versions that a call verifies. -/
def verifies (s : Corrected) (call : ExtractionCall) : List VerifiedContractVersion :=
  match alone append s.serial.db (call.body sha256 collation s.serial.next s.serial.next) .empty with
  | .ok (_, log) => verifiedContractVersions log.writes
  | .error _ => []

/-- What is verified has the last word on each of its fields. -/
def CarriesLastWord (s : Corrected) (call : ExtractionCall) : Prop :=
  ∀ v ∈ verifies sha256 collation s call, ∀ field ∈ v.resolvedFields,
    sameJson field.effectiveValue (lastWord s.history field.originalFieldId field.aiValue) = true

instance (s : Corrected) (call : ExtractionCall) : Decidable (CarriesLastWord sha256 collation s call) :=
  inferInstanceAs (Decidable (∀ v ∈ verifies sha256 collation s call, ∀ field ∈ v.resolvedFields,
    sameJson field.effectiveValue (lastWord s.history field.originalFieldId field.aiValue) = true))

/-- Of an extraction finalized for the first time, on every field the last new submission counts. -/
def FinalizesLastWord (s : Corrected) : ExtractionCall → Prop
  | .finalizeContractVersion input =>
    taken Row.keys s.serial.db (.verified input.clientId input.contractVersionId input.extractionResponseHash) = false →
      ∀ source, sourceOf s.serial.db input.clientId input.contractVersionId = some source →
        ∀ original ∈ extractionFields s.serial.db, original.accountId = input.clientId ∧
          original.sourceDocumentId = source ∧ original.extractionResponseHash = some input.extractionResponseHash →
          original.correctionHash = none → LastSubmissionCounts s.history original
  | .persistExtractionFieldCorrection _ => True

end

/-! ## Submissions -/

theorem sameSubmission_iff {a b : CorrectionInput} :
    sameSubmission a b = true ↔ Json.canonicalText a.humanValue = Json.canonicalText b.humanValue ∧
      a.answerSource = b.answerSource := by
  simp [sameSubmission, sameJson]

theorem submissions_append (history : List CorrectionInput) (c : CorrectionInput) :
    submissions (history ++ [c]) =
      if (submissions history).any (sameSubmission c) then submissions history else submissions history ++ [c] := by
  simp [submissions, List.foldl_append]

theorem submissions_eq_nil {history : List CorrectionInput} : submissions history = [] ↔ history = [] := by
  rcases List.eq_nil_or_concat history with rfl | ⟨rest, c, rfl⟩
  · simp [submissions]
  · rw [List.concat_eq_append, submissions_append]
    split
    · rename_i hany
      constructor
      · intro h
        rw [h] at hany
        cases hany
      · simp
    · simp

theorem onField_append (history : List CorrectionInput) (c : CorrectionInput) (fieldId : ℕ) :
    onField (history ++ [c]) fieldId =
      if c.fieldId = fieldId then onField history fieldId ++ [c] else onField history fieldId := by
  rw [onField, List.filter_append]
  by_cases h : c.fieldId = fieldId <;> simp [onField, h]

/-- The hash of a correction is of the value as JSON. -/
theorem correctionHash_congr {sha256 : String → ℕ} {fieldId : ℕ} {v w : Json.Value} {source : AnswerSource}
    (h : Json.canonicalText v = Json.canonicalText w) :
    correctionHash sha256 fieldId v source = correctionHash sha256 fieldId w source := by
  have hsort : Json.sortKeys v = Json.sortKeys w := Json.canonicalText_inj.mp h
  have htext : Json.canonicalText (.obj [("fieldId", idText fieldId), ("humanValue", v),
      ("answerSource", .str source.text)]) = Json.canonicalText (.obj [("fieldId", idText fieldId),
      ("humanValue", w), ("answerSource", .str source.text)]) :=
    Json.canonicalText_inj.mpr (by simp only [Json.sortKeys, Json.sortFields, hsort])
  rw [correctionHash, correctionHash, hash, hash, htext]

/-! ## Corrections of a field -/

/-- Of the same field of the same extraction. -/
def SameField (f original : ExtractionField) : Prop :=
  f.accountId = original.accountId ∧ f.sourceDocumentId = original.sourceDocumentId ∧
    f.extractionResponseHash = original.extractionResponseHash ∧ f.fieldPath = original.fieldPath

instance (f original : ExtractionField) : Decidable (SameField f original) := inferInstanceAs (Decidable (_ ∧ _))

def corrections (db : Db) (original : ExtractionField) : List ExtractionField :=
  (extractionFields db).filter fun f => SameField f original ∧ f.correctionHash.isSome

/-- The row of a submission. -/
def RowOf (sha256 : String → ℕ) (fieldId : ℕ) (f : ExtractionField) (c : CorrectionInput) : Prop :=
  f.humanValue = some c.humanValue ∧ f.correctionSource = some c.answerSource ∧
    f.correctionHash = some (correctionHash sha256 fieldId c.humanValue c.answerSource)

theorem forall₂_mem_left {α β : Type} {R : α → β → Prop} {l : List α} {l' : List β} (h : List.Forall₂ R l l') {a : α}
    (ha : a ∈ l) : ∃ b ∈ l', R a b := by
  induction h with
  | nil => cases ha
  | cons hab _ ih =>
    rcases List.mem_cons.mp ha with rfl | ha
    · exact ⟨_, List.mem_cons_self, hab⟩
    · obtain ⟨b, hb, hR⟩ := ih ha
      exact ⟨b, List.mem_cons_of_mem _ hb, hR⟩

theorem forall₂_mem_right {α β : Type} {R : α → β → Prop} {l : List α} {l' : List β} (h : List.Forall₂ R l l') {b : β}
    (hb : b ∈ l') : ∃ a ∈ l, R a b := by
  obtain ⟨a, ha, hR⟩ := forall₂_mem_left h.flip hb
  exact ⟨a, ha, hR⟩

theorem forall₂_getLast? {α β : Type} {R : α → β → Prop} {l : List α} {l' : List β} (h : List.Forall₂ R l l') {b : β}
    (hb : b ∈ l'.getLast?) : ∃ a ∈ l.getLast?, R a b := by
  have hreverse : List.Forall₂ R l.reverse l'.reverse := List.forall₂_reverse_iff.mpr h
  rw [← List.head?_reverse] at hb ⊢
  generalize l.reverse = r, l'.reverse = r' at hreverse hb
  cases hreverse with
  | nil => cases hb
  | cons hab _ =>
    obtain rfl := Option.some.inj hb
    exact ⟨_, rfl, hab⟩

/-- The corrections of every field are its submissions, in their order. -/
structure Recorded (sha256 : String → ℕ) (s : Corrected) : Prop where
  unique : Unique Row.keys s.serial.db
  rows : ∀ o, .field o ∈ s.serial.db → o.IsOriginal →
    List.Forall₂ (RowOf sha256 o.id) (corrections s.serial.db o) (submissions (onField s.history o.id))
  ordered : ∀ o, (corrections s.serial.db o).Pairwise fun f g => f.recordedAt < g.recordedAt
  past : ∀ f, .field f ∈ s.serial.db → f.correctionHash.isSome = true → f.recordedAt < s.serial.next

theorem original_unique {db : Db} (h : Unique Row.keys db) {o o' : ExtractionField} (ho : .field o ∈ db)
    (ho' : .field o' ∈ db) (horiginal : o.IsOriginal) (horiginal' : o'.IsOriginal) (hsame : SameField o o') : o = o' := by
  obtain ⟨response, hresponse⟩ := Option.isSome_iff_exists.mp horiginal.1
  obtain ⟨haccount, hdocument, hresponse', hpath⟩ := hsame
  refine Row.field.inj (h.eq_of_key (k := .original o.accountId o.sourceDocumentId response o.fieldPath) ho ho' ?_ ?_)
  · simp [Row.keys, ExtractionField.keys, horiginal.2, hresponse]
  · simp [Row.keys, ExtractionField.keys, horiginal'.2, ← hresponse', hresponse, haccount, hdocument, hpath]

/-! ## What a call inserts -/

section

variable {sha256 : String → ℕ} {collation : Collation} {tx startedAt : ℕ} {db : Db} {log log' : Log Db Row Key}

theorem insertRow_inserts {target : List Key} {row : Row} :
    Inserts Row.keys (fun _ => True) (insertRow target row) := inserts_insertUnless trivial

theorem call_inserts (call : ExtractionCall) :
    Inserts Row.keys (fun _ => True) (call.body sha256 collation tx startedAt) := by
  cases call with
  | persistExtractionFieldCorrection input =>
    refine inserts_bind (inserts_bind inserts_query fun found => ?_) fun _ => inserts_pure
    cases found with
    | none => trivial
    | some original =>
      refine inserts_bind insertRow_inserts fun created => inserts_bind inserts_query fun existing => ?_
      cases existing with
      | none => trivial
      | some id => exact inserts_bind (inserts_insertOr trivial) fun _ => inserts_pure
  | finalizeContractVersion input =>
    refine inserts_bind (inserts_bind inserts_query fun source => ?_) fun _ => inserts_pure
    cases source with
    | none => trivial
    | some sourceDocumentId =>
      refine inserts_bind inserts_query fun persisted => ?_
      split
      · trivial
      refine inserts_bind inserts_query fun fields => ?_
      split
      · trivial
      refine inserts_bind inserts_query fun unanswered => ?_
      split
      · trivial
      refine inserts_bind insertRow_inserts fun created => inserts_bind inserts_query fun existing => ?_
      cases existing with
      | none => trivial
      | some id => exact inserts_bind (inserts_insertOr trivial) fun _ => inserts_pure

theorem writeAuditEvent_effect {id : ℕ} {value : AuditEventEvidence} {r : Bool}
    (h : alone append db (writeAuditEvent startedAt id value) log = .ok (r, log')) :
    ∃ events : List AuditEvent, log'.writes = log.writes ++ events.map Row.auditEvent := by
  rcases alone_insertOr h with ⟨-, -, hw⟩ | ⟨-, -, hw⟩
  · exact ⟨[], by simp [hw]⟩
  · exact ⟨[_], hw⟩

theorem findOriginal_some {clientId fieldId : ℕ} {o : ExtractionField} (h : findOriginal db clientId fieldId = some o) :
    .field o ∈ db ∧ o.id = fieldId ∧ o.IsOriginal := by
  have ho := List.find?_some h
  rw [decide_eq_true_eq] at ho
  exact ⟨mem_extractionFields.mp (List.mem_of_find?_eq_some h), ho.1, ho.2.2⟩

/-- The row is new, or an equal one was there. -/
theorem persist_effect {input : CorrectionInput} {r : CorrectionResult}
    (h : alone append db (persistExtractionFieldCorrection sha256 tx startedAt input) .empty = .ok (r, log)) :
    ∃ o, .field o ∈ db ∧ o.id = input.fieldId ∧ o.IsOriginal ∧ ∃ events : List AuditEvent,
      (taken Row.keys db (.correction o.accountId o.sourceDocumentId o.extractionResponseHash o.fieldPath
            (correctionHash sha256 o.id input.humanValue input.answerSource)) = false ∧
          log.writes = .field (correctionRow sha256 (newId tx 0) startedAt o input) :: events.map Row.auditEvent) ∨
        ((∃ f, .field f ∈ db ∧ sameCorrection f (correctionRow sha256 (newId tx 0) startedAt o input) = true) ∧
          log.writes = events.map Row.auditEvent) := by
  simp only [persistExtractionFieldCorrection, alone_bind, alone_query, ExceptOk.ok_bind] at h
  cases hfound : findOriginal (view append db Log.empty.writes) input.clientId input.fieldId with
  | none =>
    rw [hfound] at h
    cases h
  | some o =>
    rw [hfound] at h
    simp only [alone_bind, alone_query, ExceptOk.bind_eq_ok, Except.ok.injEq] at h
    obtain ⟨⟨created, mid⟩, hinsert, ⟨existing, mid'⟩, hquery, h⟩ := h
    obtain ⟨hexisting, rfl⟩ := Prod.mk.inj hquery
    obtain ⟨ho, hid, horiginal⟩ := findOriginal_some hfound
    dsimp only at hexisting h
    refine ⟨o, ho, hid, horiginal, ?_⟩
    cases existing with
    | none => cases h
    | some id =>
      simp only [alone_bind, alone_pure, ExceptOk.bind_eq_ok, Except.ok.injEq, Prod.mk.injEq] at h
      obtain ⟨⟨written, last⟩, hevent, -, rfl⟩ := h
      obtain ⟨events, hevents⟩ := writeAuditEvent_effect hevent
      refine ⟨events, ?_⟩
      rcases alone_insertOr hinsert with ⟨hcreated, -, hwrites⟩ | ⟨rfl, hfree, hwrites⟩
      · obtain rfl : created = false := (Except.ok.inj hcreated).symm
        rw [if_neg Bool.false_ne_true, Option.map_eq_some_iff] at hexisting
        obtain ⟨f, hf, -⟩ := hexisting
        rw [view_eq, hwrites] at hf
        refine .inr ⟨⟨f, ?_, List.find?_some (p := fun f => sameCorrection f _) hf⟩, ?_⟩
        · simpa [Log.empty] using List.mem_of_find?_eq_some hf
        · rw [hevents]
          simp [hwrites, Log.empty]
      · refine .inl ⟨?_, ?_⟩
        · have hkey := hfree (.correction o.accountId o.sourceDocumentId o.extractionResponseHash o.fieldPath
            (correctionHash sha256 o.id input.humanValue input.answerSource)) (by simp)
          simpa [Log.empty] using hkey
        · rw [hevents]
          simp [hwrites, Log.empty]

/-- A finalization verifies once, what it resolves from the rows there are. -/
theorem finalize_effect {input : FinalizeInput} {r : FinalizeResult}
    (h : alone append db (finalizeContractVersion sha256 collation tx startedAt input) .empty = .ok (r, log)) :
    ∃ source, sourceOf db input.clientId input.contractVersionId = some source ∧ ∃ events : List AuditEvent,
      (taken Row.keys db (.verified input.clientId input.contractVersionId input.extractionResponseHash) = false ∧
          log.writes = .verified (verifiedRow sha256 (newId tx 0) input source (resolveFields
            (extractionRows collation db input.clientId source input.extractionResponseHash))) ::
              events.map Row.auditEvent) ∨
        (taken Row.keys db (.verified input.clientId input.contractVersionId input.extractionResponseHash) = true ∧
          log.writes = events.map Row.auditEvent) := by
  simp only [finalizeContractVersion, alone_bind, alone_query, ExceptOk.ok_bind] at h
  cases hsource : sourceOf (view append db Log.empty.writes) input.clientId input.contractVersionId with
  | none =>
    rw [hsource] at h
    cases h
  | some source =>
    rw [hsource] at h
    simp only [alone_bind, alone_query, ExceptOk.ok_bind] at h
    split at h
    · cases h
    simp only [alone_bind, alone_query, ExceptOk.ok_bind] at h
    split at h
    · cases h
    simp only [alone_bind, alone_query, ExceptOk.ok_bind] at h
    split at h
    · cases h
    simp only [recordVerification, alone_bind, alone_query, ExceptOk.bind_eq_ok, Except.ok.injEq] at h
    obtain ⟨⟨created, mid⟩, hinsert, ⟨existing, mid'⟩, hquery, h⟩ := h
    obtain ⟨-, rfl⟩ := Prod.mk.inj hquery
    refine ⟨source, hsource, ?_⟩
    cases existing with
    | none => cases h
    | some id =>
      simp only [alone_bind, alone_pure, ExceptOk.bind_eq_ok, Except.ok.injEq, Prod.mk.injEq] at h
      obtain ⟨⟨written, last⟩, hevent, -, rfl⟩ := h
      obtain ⟨events, hevents⟩ := writeAuditEvent_effect hevent
      refine ⟨events, ?_⟩
      rcases alone_insertOr hinsert with ⟨-, ⟨k, hk, htaken⟩, hwrites⟩ | ⟨-, hfree, hwrites⟩
      · rw [List.mem_singleton.mp hk] at htaken
        refine .inr ⟨by simpa [Log.empty, verifiedRow] using htaken, ?_⟩
        rw [hevents]
        simp [hwrites, Log.empty]
      · refine .inl ⟨?_, ?_⟩
        · have hkey := hfree (.verified input.clientId input.contractVersionId input.extractionResponseHash)
            (by simp [verifiedRow])
          simpa [Log.empty] using hkey
        · rw [hevents]
          simp [hwrites, Log.empty]

end

/-! ## The corrections are the submissions -/

section

variable {sha256 : String → ℕ} {collation : Collation} {db : Db} {ws : List Row}

theorem fields_events (events : List AuditEvent) : extractionFields (events.map Row.auditEvent) = [] := by
  simp [extractionFields]

/-- Rows that are no fields change no corrections. -/
theorem corrections_quiet (hws : extractionFields ws = []) (o : ExtractionField) :
    corrections (db ++ ws) o = corrections db o := by
  have hfields : extractionFields (db ++ ws) = extractionFields db := by
    rw [extractionFields, List.filterMap_append]
    exact (congrArg _ hws).trans (List.append_nil _)
  rw [corrections, corrections, hfields]

theorem corrections_insert {f : ExtractionField} {rest : List Row} (hrest : extractionFields rest = [])
    (hf : f.correctionHash.isSome = true) (o : ExtractionField) :
    corrections (db ++ .field f :: rest) o = if SameField f o then corrections db o ++ [f] else corrections db o := by
  have hfields : extractionFields (db ++ .field f :: rest) = extractionFields db ++ [f] := by
    rw [extractionFields, List.filterMap_append]
    show extractionFields db ++ f :: extractionFields rest = _
    rw [hrest]
  rw [corrections, hfields, List.filter_append]
  by_cases hsame : SameField f o <;> simp [corrections, hsame, hf]

theorem mem_corrections {o f : ExtractionField} :
    f ∈ corrections db o ↔ .field f ∈ db ∧ SameField f o ∧ f.correctionHash.isSome = true := by
  simp [corrections]

theorem Recorded.quiet {s : Corrected} (h : Recorded sha256 s) (hws : extractionFields ws = [])
    (hunique : Unique Row.keys (s.serial.db ++ ws)) :
    Recorded sha256 ⟨⟨s.serial.db ++ ws, s.serial.next + 1⟩, s.history⟩ := by
  have hmem : ∀ f, .field f ∈ s.serial.db ++ ws → .field f ∈ s.serial.db := by
    intro f hf
    rcases List.mem_append.mp hf with hf | hf
    · exact hf
    · exact absurd (hws ▸ mem_extractionFields.mpr hf) List.not_mem_nil
  refine ⟨hunique, fun o ho horiginal => ?_, fun o => ?_, fun f hf hcorrection => ?_⟩
  · exact (corrections_quiet hws o).symm ▸ h.rows o (hmem o ho) horiginal
  · exact (corrections_quiet hws o).symm ▸ h.ordered o
  · exact Nat.lt_succ_of_lt (h.past f (hmem f hf) hcorrection)

theorem sameField_correctionRow {id startedAt : ℕ} {o o' : ExtractionField} {input : CorrectionInput} :
    SameField (correctionRow sha256 id startedAt o input) o' ↔ SameField o o' := Iff.rfl

/-- A new row is that of a new submission. -/
theorem Recorded.inserted {s : Corrected} (h : Recorded sha256 s) {o : ExtractionField} {input : CorrectionInput}
    {id : ℕ} {rest : List Row} (ho : .field o ∈ s.serial.db) (hid : o.id = input.fieldId) (horiginal : o.IsOriginal)
    (hfree : taken Row.keys s.serial.db (.correction o.accountId o.sourceDocumentId o.extractionResponseHash o.fieldPath
      (correctionHash sha256 o.id input.humanValue input.answerSource)) = false)
    (hrest : extractionFields rest = [])
    (hunique : Unique Row.keys (s.serial.db ++ .field (correctionRow sha256 id s.serial.next o input) :: rest)) :
    Recorded sha256 ⟨⟨s.serial.db ++ .field (correctionRow sha256 id s.serial.next o input) :: rest, s.serial.next + 1⟩,
      s.history ++ [input]⟩ := by
  have hcorrection : (correctionRow sha256 id s.serial.next o input).correctionHash.isSome = true := rfl
  have hmem : ∀ f, .field f ∈ s.serial.db ++ .field (correctionRow sha256 id s.serial.next o input) :: rest →
      f.IsOriginal → .field f ∈ s.serial.db := by
    intro f hf hforiginal
    rcases List.mem_append.mp hf with hf | hf
    · exact hf
    rcases List.mem_cons.mp hf with hf | hf
    · obtain rfl := Row.field.inj hf
      cases hforiginal.2
    · exact absurd (hrest ▸ mem_extractionFields.mpr hf) List.not_mem_nil
  refine ⟨hunique, fun o' ho' horiginal' => ?_, fun o' => ?_, fun f hf hfcorrection => ?_⟩
  · have ho'' := hmem o' ho' horiginal'
    rw [corrections_insert hrest hcorrection, onField_append]
    by_cases hsame : SameField o o'
    · obtain rfl := original_unique h.unique ho ho'' horiginal horiginal' hsame
      rw [if_pos (sameField_correctionRow.mpr hsame), if_pos hid.symm, submissions_append]
      -- an equal submission would hold the key
      have hnew : ¬ (submissions (onField s.history o.id)).any (sameSubmission input) = true := by
        intro hany
        obtain ⟨c, hc, hsub⟩ := List.any_eq_true.mp hany
        obtain ⟨hvalue, hsource⟩ := sameSubmission_iff.mp hsub
        obtain ⟨f, hf, -, -, hhash⟩ := forall₂_mem_right (h.rows o ho horiginal) hc
        obtain ⟨hf, ⟨haccount, hdocument, hresponse, hpath⟩, -⟩ := mem_corrections.mp hf
        refine not_taken hfree hf ?_
        rw [correctionHash_congr hvalue, hsource]
        simp [Row.keys, ExtractionField.keys, hhash, haccount, hdocument, hresponse, hpath]
      rw [if_neg hnew]
      exact List.rel_append (h.rows o ho horiginal) (.cons ⟨rfl, rfl, rfl⟩ .nil)
    · have hne : input.fieldId ≠ o'.id := by
        intro hid'
        refine hsame ?_
        have heq : Row.field o = Row.field o' := h.unique.eq_of_key (k := .fieldId o.id) ho ho''
          (by simp [Row.keys, ExtractionField.keys]) (by simp [Row.keys, ExtractionField.keys, hid, hid'])
        obtain rfl := Row.field.inj heq
        exact ⟨rfl, rfl, rfl, rfl⟩
      rw [if_neg (mt sameField_correctionRow.mp hsame), if_neg hne]
      exact h.rows o' ho'' horiginal'
  · rw [corrections_insert hrest hcorrection]
    split
    · refine List.pairwise_append.mpr ⟨h.ordered o', List.pairwise_singleton _ _, fun f hf g hg => ?_⟩
      obtain rfl := List.mem_singleton.mp hg
      exact h.past f (mem_corrections.mp hf).1 (mem_corrections.mp hf).2.2
    · exact h.ordered o'
  · rcases List.mem_append.mp hf with hf | hf
    · exact Nat.lt_succ_of_lt (h.past f hf hfcorrection)
    rcases List.mem_cons.mp hf with hf | hf
    · obtain rfl := Row.field.inj hf
      exact Nat.lt_succ_self _
    · exact absurd (hrest ▸ mem_extractionFields.mpr hf) List.not_mem_nil

/-- A row that is found is that of an earlier submission. -/
theorem Recorded.found {s : Corrected} (h : Recorded sha256 s) {o f : ExtractionField} {input : CorrectionInput}
    {id : ℕ} (ho : .field o ∈ s.serial.db) (hid : o.id = input.fieldId) (horiginal : o.IsOriginal)
    (hf : .field f ∈ s.serial.db)
    (hsame : sameCorrection f (correctionRow sha256 id s.serial.next o input) = true)
    (hws : extractionFields ws = []) (hunique : Unique Row.keys (s.serial.db ++ ws)) :
    Recorded sha256 ⟨⟨s.serial.db ++ ws, s.serial.next + 1⟩, s.history ++ [input]⟩ := by
  have hquiet := h.quiet hws hunique
  refine ⟨hunique, fun o' ho' horiginal' => ?_, hquiet.ordered, hquiet.past⟩
  have hrows := hquiet.rows o' ho' horiginal'
  rw [onField_append]
  split
  swap
  · exact hrows
  rename_i hid'
  have ho'' : .field o' ∈ s.serial.db := by
    rcases List.mem_append.mp ho' with ho' | ho'
    · exact ho'
    · exact absurd (hws ▸ mem_extractionFields.mpr ho') List.not_mem_nil
  have heq : Row.field o = Row.field o' := h.unique.eq_of_key (k := .fieldId o.id) ho ho''
    (by simp [Row.keys, ExtractionField.keys]) (by simp [Row.keys, ExtractionField.keys, hid, hid'])
  obtain rfl := Row.field.inj heq
  simp only [sameCorrection, Bool.and_eq_true, beq_iff_eq, correctionRow, Option.map_some] at hsame
  obtain ⟨⟨⟨⟨⟨⟨⟨⟨haccount, hdocument⟩, hresponse⟩, hpath⟩, hhash⟩, -⟩, hvalue⟩, hsource⟩, -⟩ := hsame
  have hmem : f ∈ corrections s.serial.db o :=
    mem_corrections.mpr ⟨hf, ⟨haccount, hdocument, hresponse, hpath⟩, by rw [hhash]; rfl⟩
  obtain ⟨c, hc, hcvalue, hcsource, -⟩ := forall₂_mem_left (h.rows o ho horiginal) hmem
  rw [submissions_append, if_pos]
  · exact hrows
  refine List.any_eq_true.mpr ⟨c, hc, sameSubmission_iff.mpr ⟨?_, ?_⟩⟩
  · rw [hcvalue, Option.map_some] at hvalue
    exact (Option.some.inj hvalue).symm
  · exact Option.some.inj (hsource.symm.trans hcsource)

/-- The latest of the rows sorted by the time of their recording. -/
theorem getLast?_sorted {l sorted : List ExtractionField} (hperm : sorted.Perm l)
    (hsorted : sorted.Pairwise fun f g => f.recordedAt ≤ g.recordedAt)
    (hl : l.Pairwise fun f g => f.recordedAt < g.recordedAt) : sorted.getLast? = l.getLast? := by
  rcases List.eq_nil_or_concat l with rfl | ⟨front, last, rfl⟩
  · rw [List.perm_nil.mp hperm]
  rcases List.eq_nil_or_concat sorted with rfl | ⟨front', last', rfl⟩
  · simp at hperm
  rw [List.concat_eq_append, List.getLast?_concat, List.concat_eq_append, List.getLast?_concat]
  rw [List.concat_eq_append] at hl hsorted
  simp only [List.concat_eq_append] at hperm
  have hmem : last' ∈ front ++ [last] := hperm.subset (by simp)
  have hmem' : last ∈ front' ++ [last'] := hperm.symm.subset (by simp)
  rcases List.mem_append.mp hmem with hfront | hlast
  swap
  · rw [List.mem_singleton.mp hlast]
  -- recorded before the last of one list, and not before the last of the other
  have hlt : last'.recordedAt < last.recordedAt :=
    (List.pairwise_append.mp hl).2.2 last' hfront last (List.mem_singleton_self _)
  rcases List.mem_append.mp hmem' with hfront' | hlast'
  · have hle := (List.pairwise_append.mp hsorted).2.2 last hfront' last' (List.mem_singleton_self _)
    omega
  · rw [List.mem_singleton.mp hlast']

theorem fieldOrder_trans (collation : Collation) : Std.TransCmp (fieldOrder collation) := by
  have := collation.trans
  have hpath : Std.TransCmp fun a b : ExtractionField => collation.cmp a.fieldPath b.fieldPath :=
    { eq_swap := collation.trans.eq_swap
      isLE_trans := collation.trans.isLE_trans }
  unfold fieldOrder
  infer_instance

/-- Of one path, by the time of recording. -/
theorem fieldOrder_samePath {collation : Collation} {f g : ExtractionField} (hpath : f.fieldPath = g.fieldPath)
    (h : (fieldOrder collation f g).isLE = true) : f.recordedAt ≤ g.recordedAt := by
  have := collation.trans
  have hrefl : collation.cmp g.fieldPath g.fieldPath = .eq := Std.ReflCmp.compare_self
  rw [fieldOrder, compareLex, hpath, hrefl, Ordering.then, compareLex, compareOn] at h
  by_contra hlt
  rw [Nat.compare_eq_gt.mpr (by omega)] at h
  cases h

/-- The correction that a finalization takes is the last one. -/
theorem latest_eq {s : Corrected} (h : Recorded sha256 s) {clientId source : ℕ} {response : String}
    {o : ExtractionField} (ho : o.accountId = clientId ∧ o.sourceDocumentId = source ∧
      o.extractionResponseHash = some response) :
    ((extractionRows collation s.serial.db clientId source response).filter fun f =>
        f.fieldPath = o.fieldPath ∧ f.correctionHash.isSome).getLast? = (corrections s.serial.db o).getLast? := by
  have htrans := fieldOrder_trans collation
  refine getLast?_sorted ?_ ?_ (h.ordered o)
  · refine ((List.perm_insertionSort _ _).filter _).trans (List.Perm.of_eq ?_)
    rw [List.filter_filter, corrections]
    refine List.filter_congr fun f _ => ?_
    simp only [SameField, ho.1, ho.2.1, ho.2.2, ← Bool.decide_and]
    refine decide_eq_decide.mpr ?_
    tauto
  · have htotal : Std.Total fun f g => (fieldOrder collation f g).isLE = true := ⟨fun f g => by
      have hswap : fieldOrder collation g f = (fieldOrder collation f g).swap := Std.OrientedCmp.eq_swap
      rw [hswap]
      cases fieldOrder collation f g <;> simp⟩
    have htransitive : IsTrans ExtractionField fun f g => (fieldOrder collation f g).isLE = true :=
      ⟨fun _ _ _ => Std.TransCmp.isLE_trans⟩
    have hsorted : (extractionRows collation s.serial.db clientId source response).Pairwise
        fun f g => (fieldOrder collation f g).isLE = true := List.pairwise_insertionSort _ _
    refine (hsorted.filter _).imp_of_mem fun hf hg hle => fieldOrder_samePath ?_ hle
    have hf' := (List.mem_filter.mp hf).2
    have hg' := (List.mem_filter.mp hg).2
    rw [decide_eq_true_eq] at hf' hg'
    exact hf'.1.trans hg'.1.symm

/-- The effective value is the last word exactly if the last submission counts. -/
theorem effective_iff {s : Corrected} (h : Recorded sha256 s) {clientId source : ℕ} {response : String}
    {o : ExtractionField} (hmem : .field o ∈ s.serial.db) (horiginal : o.IsOriginal) (ho : o.accountId = clientId ∧
      o.sourceDocumentId = source ∧ o.extractionResponseHash = some response) :
    sameJson (resolveField (extractionRows collation s.serial.db clientId source response) o).effectiveValue
        (lastWord s.history o.id o.aiValue) = true ↔ LastSubmissionCounts s.history o := by
  have hrows := h.rows o hmem horiginal
  rw [resolveField, latest_eq h ho, LastSubmissionCounts, lastWord]
  rcases List.eq_nil_or_concat (onField s.history o.id) with hnil | ⟨calls, last, hlast⟩
  · rw [hnil] at hrows
    rw [hnil, List.forall₂_nil_right_iff.mp hrows]
    simp [coalesce, sameJson]
  have hne : submissions (onField s.history o.id) ≠ [] := by
    rw [Ne, submissions_eq_nil, hlast]
    simp
  obtain ⟨front, new, hnew⟩ := (List.eq_nil_or_concat (submissions (onField s.history o.id))).resolve_left hne
  rw [hnew, List.concat_eq_append] at hrows
  -- the last row is that of the last new submission
  obtain ⟨f, hf, hvalue, -⟩ := forall₂_getLast? hrows (b := new) (by simp)
  rw [Option.mem_def.mp hf, hnew, hlast]
  simp only [List.concat_eq_append, List.getLast?_concat, Option.bind_some, hvalue, Option.map_some, Option.getD_some,
    Option.mem_some_iff, forall_eq']
  cases new.humanValue <;> rfl

theorem extraction_step {s s' : Corrected} {call : ExtractionCall} (h : Recorded sha256 s)
    (hs : extractionStep sha256 collation s call = some s') :
    Recorded sha256 s' ∧ (CarriesLastWord sha256 collation s call ↔ FinalizesLastWord s call) := by
  obtain ⟨serial, hserial, rfl⟩ := Option.map_eq_some_iff.mp hs
  obtain ⟨r, log, halone, rfl⟩ := serialStep_alone hserial
  have hcommit : Commit (extractionsSystem sha256 collation) (AppendOnly.Unique Row.keys) (Since Row.keys)
      s.serial.db call s.serial.next s.serial.next r log := (alone_commit append_parts.kept_refl h.unique halone).1
  have hunique := (unique_commit rfl (call_inserts call) hcommit h.unique).2
  have hview : view (extractionsSystem sha256 collation).apply s.serial.db log.writes = s.serial.db ++ log.writes :=
    view_eq _ _
  have hverifies : verifies sha256 collation s call = verifiedContractVersions log.writes := by
    have halone' : alone append s.serial.db (call.body sha256 collation s.serial.next s.serial.next) .empty =
      .ok (r, log) := halone
    rw [verifies, halone']
  rw [hview, CarriesLastWord, hverifies]
  cases call with
  | persistExtractionFieldCorrection input =>
    simp only [extractionsSystem, ExtractionCall.body, alone_bind, ExceptOk.bind_eq_ok] at halone
    obtain ⟨⟨result, last⟩, hcall, hlast⟩ := halone
    cases hlast
    obtain ⟨o, ho, hid, horiginal, events, ⟨hfree, hwrites⟩ | ⟨⟨f, hf, hsame⟩, hwrites⟩⟩ := persist_effect hcall
    · rw [hwrites] at hunique ⊢
      refine ⟨h.inserted ho hid horiginal hfree (fields_events events) hunique, iff_of_true (fun v hv => ?_) trivial⟩
      exact absurd hv (by simp [verifiedContractVersions])
    · rw [hwrites] at hunique ⊢
      refine ⟨h.found ho hid horiginal hf hsame (fields_events events) hunique, iff_of_true (fun v hv => ?_) trivial⟩
      exact absurd hv (by simp [verifiedContractVersions])
  | finalizeContractVersion input =>
    simp only [extractionsSystem, ExtractionCall.body, alone_bind, ExceptOk.bind_eq_ok] at halone
    obtain ⟨⟨result, last⟩, hcall, hlast⟩ := halone
    cases hlast
    obtain ⟨source, hsource, events, ⟨hfree, hwrites⟩ | ⟨htaken, hwrites⟩⟩ := finalize_effect hcall
    · rw [hwrites] at hunique ⊢
      refine ⟨h.quiet (by simp [extractionFields]) hunique, ?_⟩
      have hone : verifiedContractVersions (.verified (verifiedRow sha256 (newId s.serial.next 0) input source
          (resolveFields (extractionRows collation s.serial.db input.clientId source input.extractionResponseHash))) ::
            events.map Row.auditEvent) = [verifiedRow sha256 (newId s.serial.next 0) input source
          (resolveFields (extractionRows collation s.serial.db input.clientId source input.extractionResponseHash))] := by
        simp [verifiedContractVersions]
      rw [hone]
      -- the fields resolved are the originals of the extraction
      have hfields : ∀ o, o ∈ (extractionRows collation s.serial.db input.clientId source
          input.extractionResponseHash).filter (fun f => f.correctionHash.isNone) ↔
          o ∈ extractionFields s.serial.db ∧ (o.accountId = input.clientId ∧ o.sourceDocumentId = source ∧
            o.extractionResponseHash = some input.extractionResponseHash) ∧ o.correctionHash = none := by
        intro o
        simp [extractionRows, and_assoc]
      constructor
      · intro hcarries _ source' hsource' o ho hin hnone
        obtain rfl : source = source' := Option.some.inj (hsource.symm.trans hsource')
        exact (effective_iff h (mem_extractionFields.mp ho) ⟨by rw [hin.2.2]; rfl, hnone⟩ hin).mp
          (hcarries _ (List.mem_singleton_self _) _ (List.mem_map_of_mem ((hfields o).mpr ⟨ho, hin, hnone⟩)))
      · intro hcounts v hv field hfield
        obtain rfl := List.mem_singleton.mp hv
        obtain ⟨o, ho, rfl⟩ := List.mem_map.mp hfield
        obtain ⟨hmem, hin, hnone⟩ := (hfields o).mp ho
        exact (effective_iff h (mem_extractionFields.mp hmem) ⟨by rw [hin.2.2]; rfl, hnone⟩ hin).mpr
          (hcounts hfree source hsource o hmem hin hnone)
    · rw [hwrites] at hunique ⊢
      refine ⟨h.quiet (fields_events events) hunique, iff_of_true (fun v hv => ?_) fun hfree => ?_⟩
      · exact absurd hv (by simp [verifiedContractVersions])
      · rw [htaken] at hfree
        cases hfree

end

/-! ## Runs -/

/-- The rows a run begins with: extractions, none of which has been corrected. -/
structure Uncorrected where
  rows : Db
  unique : Unique Row.keys rows
  uncorrected : ∀ f, .field f ∈ rows → f.correctionHash = none

theorem Uncorrected.recorded (sha256 : String → ℕ) (start : Uncorrected) (next : ℕ) :
    Recorded sha256 ⟨⟨start.rows, next⟩, []⟩ := by
  have hnone : ∀ o, corrections start.rows o = [] := by
    intro o
    refine List.eq_nil_iff_forall_not_mem.mpr fun f hf => ?_
    obtain ⟨hf, -, hcorrection⟩ := mem_corrections.mp hf
    rw [start.uncorrected f hf] at hcorrection
    cases hcorrection
  refine ⟨start.unique, fun o _ _ => ?_, fun o => ?_, fun f hf hcorrection => ?_⟩
  · rw [hnone]
    exact .nil
  · rw [hnone]
    exact .nil
  · rw [start.uncorrected f hf] at hcorrection
    cases hcorrection

/-- Every version that is verified carries the last word on its fields exactly if, on the fields of every
extraction that is finalized for the first time, the last new submission counts. -/
theorem lastWord_iff (sha256 : String → ℕ) (collation : Collation) (start : Uncorrected) (next : ℕ)
    (calls : List ExtractionCall) :
    Runs.AllSteps (extractionStep sha256 collation) (CarriesLastWord sha256 collation) ⟨⟨start.rows, next⟩, []⟩ calls ↔
      Runs.AllSteps (extractionStep sha256 collation) FinalizesLastWord ⟨⟨start.rows, next⟩, []⟩ calls :=
  Runs.allSteps_iff (Recorded sha256) (fun _ _ _ h hs => (extraction_step h hs).1)
    (fun _ _ _ h hs => (extraction_step h hs).2) calls _ (start.recorded sha256 next)

/-- One field, of an extraction that is recorded. -/
def oneField : Uncorrected where
  rows := [.contractVersion ⟨3, 1, some 2⟩,
    .field ⟨⟨.null, none, .null, none, none, some "FOUND", .arr [], some "1"⟩, 7, 1, 2, "currency", .str "USD", none,
      some "r", none, none, none, 0⟩,
    .auditEvent ⟨⟨some 1, "contract_extraction", some 2, "persisted", .ai, none, none, none,
      some (.obj [("responseHash", .str "r")])⟩, 0, 0⟩]
  unique := by simp [AppendOnly.Unique, Row.keys, ExtractionField.keys]
  uncorrected := by simp

def correctTo (currency : String) : ExtractionCall :=
  .persistExtractionFieldCorrection ⟨1, 7, 9, .str currency, .read_from_doc⟩

/-- Corrected to one value, to another, and back: verified is the other. -/
theorem correctedBack_lost :
    ¬ Runs.AllSteps (extractionStep checksum ⟨compare, inferInstance⟩) (CarriesLastWord checksum ⟨compare, inferInstance⟩)
      ⟨⟨oneField.rows, 1⟩, []⟩
      [correctTo "CAD", correctTo "EUR", correctTo "CAD", .finalizeContractVersion ⟨1, 3, 9, "r"⟩] := by
  decide +kernel

end Contracts.Extractions
