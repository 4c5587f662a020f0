import FreightAuditor.Contracts.Abstentions
import FreightAuditor.Contracts.PersistProposals

/- Proposed rules and the clauses they cite.

   A model normalizes the clauses of an extraction, and a model proposes rules from what is normalized. Three
   gates tie the two answers to the extraction: a normalized clause is one of the extraction's, it cites nothing
   its source does not cite, and a proposal cites nothing that the clauses it refers to do not cite. None of
   them asks whether the source was found. A clause that was abstained from and that has citations nevertheless
   can be normalized and proposed from (`grounded_iff`). -/
namespace ContractExtractions

open ExceptOk JsText Json RuleEngine

/-! ## Normalized clauses -/

inductive ClauseCategory where
  | RATE | ACCESSORIAL | PAYMENT | SERVICE | LIABILITY | TERM | AMENDMENT | OTHER
  deriving DecidableEq

inductive NormalizationReason where
  | MISSING_TEXT | AMBIGUOUS_MEANING | CONFLICTING_TERMS | INSUFFICIENT_CITATION
  deriving DecidableEq

structure SemanticTerm where
  key : String
  semanticType : SemanticType
  sourceValue : String
  unit : Option String
  citations : List ExtractionCitation
  deriving DecidableEq

/-- `NORMALIZED` or `ABSTAINED`. -/
inductive NormalizedClause where
  | normalized (clauseReference : String) (category : ClauseCategory) (title : Option String) (summary : String)
      (applicability : List String) (terms : List SemanticTerm) (citations : List ExtractionCitation)
  | abstained (clauseReference : String) (reason : NormalizationReason) (clarificationQuestion : String)
      (citations : List ExtractionCitation)
  deriving DecidableEq

def NormalizedClause.clauseReference : NormalizedClause → String
  | .normalized clauseReference _ _ _ _ _ _ => clauseReference
  | .abstained clauseReference _ _ _ => clauseReference

/-- Its own, and those of its terms. -/
def NormalizedClause.allCitations : NormalizedClause → List ExtractionCitation
  | .normalized _ _ _ _ _ terms citations => citations ++ terms.flatMap SemanticTerm.citations
  | .abstained _ _ _ citations => citations

/-- `/^[a-z][a-z0-9_]*$/`. -/
def isTermKey (s : String) : Bool :=
  match s.toList with
  | [] => false
  | c :: rest => isLower c && rest.all fun d => isLower d || d.isDigit || d == '_'

def citationsSchema (minimum maximum : ℕ) (citations : List ExtractionCitation) : Bool :=
  citations.all ExtractionCitationSchema && decide (minimum ≤ citations.length) && decide (citations.length ≤ maximum)

def semanticTermSchema (term : SemanticTerm) : Bool :=
  boundedText 200 term.key && isTermKey term.key && boundedText 20000 term.sourceValue &&
    term.unit.all (boundedText 100) && citationsSchema 1 20 term.citations

def normalizedClauseSchema : NormalizedClause → Bool
  | .normalized clauseReference _ title summary applicability terms citations =>
    boundedText 300 clauseReference && title.all (boundedText 1000) && boundedText 4000 summary &&
      applicability.all (boundedText 1000) && decide (applicability.length ≤ 100) && terms.all semanticTermSchema &&
      decide (terms.length ≤ 500) && decide (terms.map SemanticTerm.key).Nodup && citationsSchema 1 20 citations
  | .abstained clauseReference _ clarificationQuestion citations =>
    boundedText 300 clauseReference && boundedText 2000 clarificationQuestion && citationsSchema 0 20 citations

inductive ProposalCitationRejectionCode where
  | MISSING_CLAUSE_REFERENCE | MISSING_CITATION | UNKNOWN_CLAUSE | ABSTAINED_CLAUSE | UNCITED_CLAUSE | UNKNOWN_CITATION
  deriving DecidableEq

structure ProposalCitationRejection where
  criterionKey : String
  code : ProposalCitationRejectionCode
  clauseReference : Option String
  deriving DecidableEq

inductive GroundingError where
  /-- A schema does not accept. -/
  | schema
  /-- `ClauseNormalizationError`. -/
  | NO_CLAUSES | UNGROUNDED_OUTPUT
  /-- `AnthropicProviderError`: the answer is not what the schema takes. -/
  | INVALID_RESPONSE
  /-- `ProposedCriteriaError`. -/
  | NO_NORMALIZED_CLAUSES
  /-- `ProposalCitationError`. -/
  | UNCITED_PROPOSAL (rejections : List ProposalCitationRejection)
  deriving DecidableEq

/-- `JSON.stringify` of the parts of a citation. -/
def citationKey (citation : ExtractionCitation) : List Char :=
  render (.arr [nat citation.pageNumber, .str citation.excerpt,
    (citation.boundingBox.map fun box => Value.arr (box.map Value.num)).getD .null,
    (citation.span.map fun span => Value.arr [nat span.offset, nat span.length]).getD .null])

section

variable (canonical : String → String)

def ClauseNormalizationSchema (clauses : List NormalizedClause) : Bool :=
  clauses.all normalizedClauseSchema && decide (clauses.length ≤ 10000) &&
    rejectDuplicates canonical (clauses.map NormalizedClause.clauseReference)

/-- In the map, a later entry of one reference replaces an earlier one. -/
def byReference {α : Type} (reference : α → String) (clauses : List α) (key : String) : Option α :=
  (clauses.filter fun clause => canonical (reference clause) = key).getLast?

/-- Every citation of the clause is one of its source's. -/
def citesSource (sources : List ExtractedContractClause) (clause : NormalizedClause) : Bool :=
  match byReference canonical ExtractedContractClause.clauseReference sources (canonical clause.clauseReference) with
  | none => false
  | some source => clause.allCitations.all fun c => (source.text.citations.map citationKey).contains (citationKey c)

def assertGrounded (output : List NormalizedClause) (sources : List ExtractedContractClause) : Except GroundingError Unit := do
  let sourceReferences := (sources.map fun source => canonical source.clauseReference).dedup
  let outputReferences := (output.map fun clause => canonical clause.clauseReference).dedup
  if outputReferences.length ≠ sourceReferences.length ∨ ¬ sourceReferences.all outputReferences.contains then
    throw .UNGROUNDED_OUTPUT
  if output.all (citesSource canonical sources) then return () else throw .UNGROUNDED_OUTPUT

/-- `output` is what the model answers. -/
def normalizeContractClauses (extraction : ContractExtraction) (output : List NormalizedClause) :
    Except GroundingError (List NormalizedClause) := do
  if ¬ ContractExtractionSchema canonical extraction then throw .schema
  if extraction.clauses.isEmpty then throw .NO_CLAUSES
  if ¬ ClauseNormalizationSchema canonical output then throw .INVALID_RESPONSE
  assertGrounded canonical output extraction.clauses
  return output

end

/-! ## Proposed criteria -/

/-- A criterion that the model proposes, with the citations as they are parsed. -/
structure CitedCriterion where
  criterionKey : String
  ruleType : RuleType
  description : String
  clauseReferences : List String
  citations : List ExtractionCitation
  ast : AstNode
  accepted : ProposedCriteria.isAccepted ast = true

def CitedCriterion.model (c : CitedCriterion) : ProposedCriteria.ModelCriterion where
  criterionKey := c.criterionKey
  ruleType := c.ruleType
  description := c.description
  clauseReferences := c.clauseReferences
  citations := c.citations.map ExtractionCitation.toJson
  ast := c.ast
  accepted := c.accepted

def isUpper (c : Char) : Bool := 'A' ≤ c && c ≤ 'Z'

/-- `/^CONTRACT\.PROPOSED\.[A-Z][A-Z0-9_]*$/`. -/
def isCriterionKey (s : String) : Bool :=
  "CONTRACT.PROPOSED.".toList.isPrefixOf s.toList &&
    match s.toList.drop "CONTRACT.PROPOSED.".length with
    | [] => false
    | c :: rest => isUpper c && rest.all fun d => isUpper d || d.isDigit || d == '_'

def proposedCriterionSchema (c : CitedCriterion) : Bool :=
  boundedText 255 c.criterionKey && isCriterionKey c.criterionKey && boundedText 4000 c.description &&
    c.clauseReferences.all (boundedText 300) && decide (1 ≤ c.clauseReferences.length) &&
    decide (c.clauseReferences.length ≤ 100) && citationsSchema 1 100 c.citations

def ProposedCriteriaModelOutputSchema (criteria : List CitedCriterion) : Bool :=
  criteria.all proposedCriterionSchema && decide (criteria.length ≤ 1000) &&
    decide (criteria.map CitedCriterion.criterionKey).Nodup

def NormalizedClause.isNormalized : NormalizedClause → Bool
  | .normalized .. => true
  | .abstained .. => false

def NormalizedClause.citations : NormalizedClause → List ExtractionCitation
  | .normalized _ _ _ _ _ _ citations => citations
  | .abstained _ _ _ citations => citations

section

variable (canonical : String → String) (localeCompare : String → String → Ordering)

/-- What the gate has against one reference of a criterion. -/
def referenceRejections (clauses : List NormalizedClause) (c : CitedCriterion) (reference : String) :
    List ProposalCitationRejection :=
  match byReference canonical NormalizedClause.clauseReference clauses reference with
  | none => [⟨c.criterionKey, .UNKNOWN_CLAUSE, some reference⟩]
  | some clause =>
    if ¬ clause.isNormalized then [⟨c.criterionKey, .ABSTAINED_CLAUSE, some clause.clauseReference⟩]
    else if c.citations.any fun citation => (clause.citations.map citationKey).contains (citationKey citation) then []
    else [⟨c.criterionKey, .UNCITED_CLAUSE, some clause.clauseReference⟩]

/-- The citations that a reference allows. -/
def allowedBy (clauses : List NormalizedClause) (reference : String) : List (List Char) :=
  match byReference canonical NormalizedClause.clauseReference clauses reference with
  | none => []
  | some clause => if clause.isNormalized then clause.citations.map citationKey else []

def criterionRejections (clauses : List NormalizedClause) (c : CitedCriterion) : List ProposalCitationRejection :=
  let references := sortTexts (c.clauseReferences.map canonical).dedup
  let allowed := references.flatMap (allowedBy canonical clauses)
  (if c.clauseReferences.isEmpty then [⟨c.criterionKey, .MISSING_CLAUSE_REFERENCE, none⟩] else []) ++
    (if c.citations.isEmpty then [⟨c.criterionKey, .MISSING_CITATION, none⟩] else []) ++
    references.flatMap (referenceRejections canonical clauses c) ++
    (c.citations.filter fun citation => !allowed.contains (citationKey citation)).map fun _ =>
      ⟨c.criterionKey, .UNKNOWN_CITATION, none⟩

def validateProposalCitations (criteria : List CitedCriterion) (clauses : List NormalizedClause) :
    List ProposalCitationRejection :=
  (StableSort.sort (fun left right => localeCompare left.criterionKey right.criterionKey) criteria).flatMap
    (criterionRejections canonical clauses)

def requireProposalCitations (criteria : List CitedCriterion) (clauses : List NormalizedClause) : Except GroundingError Unit :=
  let rejections := validateProposalCitations canonical localeCompare criteria clauses
  if rejections.isEmpty then return () else throw (.UNCITED_PROPOSAL rejections)

/-- `output` is what the model answers. -/
def generateProposedCriteria (sha256 : String → String) (clauses : List NormalizedClause) (output : List CitedCriterion) :
    Except GroundingError (List ProposedCriteria.ProposedCriterion) := do
  if ¬ ClauseNormalizationSchema canonical clauses then throw .schema
  if ¬ clauses.any NormalizedClause.isNormalized then throw .NO_NORMALIZED_CLAUSES
  if ¬ ProposedCriteriaModelOutputSchema output then throw .INVALID_RESPONSE
  requireProposalCitations canonical localeCompare output clauses
  return ProposedCriteria.generateProposedCriteria localeCompare sha256 (output.map CitedCriterion.model)

end

/-! ## What is claimed -/

/-- A proposal refers to normalized clauses whose source was found, and cites what such a source cites. -/
structure Grounded (canonical : String → String) (sources : List ExtractedContractClause) (clauses : List NormalizedClause)
    (p : ProposedCriteria.ProposedCriterion) : Prop where
  normalized : ∀ reference ∈ p.clauseReferences, ∃ clause ∈ clauses, clause.isNormalized = true ∧
    canonical clause.clauseReference = canonical reference
  found : ∀ reference ∈ p.clauseReferences, ∃ source ∈ sources, canonical source.clauseReference = canonical reference ∧
    source.text.asked = none
  cited : ∀ citation ∈ p.citations, ∃ reference ∈ p.clauseReferences, ∃ source ∈ sources,
    canonical source.clauseReference = canonical reference ∧ citation ∈ source.text.citations.map ExtractionCitation.toJson
  sound : ∀ source ∈ sources, source.text.asked.isSome = true →
    ∀ reference ∈ p.clauseReferences, canonical source.clauseReference ≠ canonical reference

/-- A criterion of the answer that refers to a clause which was abstained from although it has citations. -/
def RefersToAbstained (canonical : String → String) (sources : List ExtractedContractClause) (c : CitedCriterion) : Prop :=
  ∃ reference ∈ c.clauseReferences, ∃ source ∈ sources, canonical source.clauseReference = canonical reference ∧
    source.text.asked.isSome = true ∧ source.text.citations ≠ []

instance (canonical : String → String) (sources : List ExtractedContractClause) (c : CitedCriterion) :
    Decidable (RefersToAbstained canonical sources c) :=
  inferInstanceAs (Decidable (∃ reference ∈ c.clauseReferences, ∃ source ∈ sources,
    canonical source.clauseReference = canonical reference ∧ source.text.asked.isSome = true ∧ source.text.citations ≠ []))

/-! ## The gates -/

theorem citationKey_injective : Function.Injective citationKey := by
  intro a b h
  obtain ⟨pageNumber, excerpt, boundingBox, span⟩ := a
  obtain ⟨pageNumber', excerpt', boundingBox', span'⟩ := b
  have hparts := Value.arr.inj (render_injective h)
  simp only [List.cons.injEq, and_true] at hparts
  obtain ⟨hpage, hexcerpt, hbox, hspan⟩ := hparts
  obtain rfl := nat_injective hpage
  obtain rfl := Value.str.inj hexcerpt
  obtain rfl : boundingBox = boundingBox' := by
    cases boundingBox with
    | none => cases boundingBox' with
      | none => rfl
      | some box' => cases hbox
    | some box => cases boundingBox' with
      | none => cases hbox
      | some box' =>
        have hboxes := Value.arr.inj hbox
        rw [List.map_injective_iff.mpr (fun _ _ h => Value.num.inj h) hboxes]
  obtain rfl : span = span' := by
    cases span with
    | none => cases span' with
      | none => rfl
      | some s' => cases hspan
    | some s => cases span' with
      | none => cases hspan
      | some s' =>
        have hnumbers := Value.arr.inj hspan
        simp only [List.cons.injEq, and_true] at hnumbers
        obtain ⟨offset, length⟩ := s
        obtain ⟨offset', length'⟩ := s'
        obtain rfl := nat_injective hnumbers.1
        obtain rfl := nat_injective hnumbers.2
        rfl
  rfl

theorem contains_citationKey {citation : ExtractionCitation} {citations : List ExtractionCitation} :
    (citations.map citationKey).contains (citationKey citation) = true ↔ citation ∈ citations := by
  rw [List.contains_iff_mem, List.mem_map_of_injective citationKey_injective]

section

variable {canonical : String → String} {α : Type} {reference : α → String} {clauses : List α} {key : String} {clause : α}

theorem byReference_some (h : byReference canonical reference clauses key = some clause) :
    clause ∈ clauses ∧ canonical (reference clause) = key := by
  have hmem := List.mem_of_getLast? h
  exact ⟨(List.mem_filter.mp hmem).1, of_decide_eq_true (List.mem_filter.mp hmem).2⟩

/-- Clauses whose references differ have one entry each. -/
theorem eq_of_reference (hnodup : (clauses.map fun c => canonical (reference c)).Nodup) {a b : α} (ha : a ∈ clauses)
    (hb : b ∈ clauses) (h : canonical (reference a) = canonical (reference b)) : a = b :=
  List.inj_on_of_nodup_map hnodup ha hb h

end

section

variable {canonical : String → String} {localeCompare : String → String → Ordering} {sha256 : String → String}
  {extraction : ContractExtraction} {answer clauses : List NormalizedClause} {criteria : List CitedCriterion}
  {c : CitedCriterion} {sources : List ExtractedContractClause}

theorem citesSource_iff {clause : NormalizedClause} (h : citesSource canonical sources clause = true) :
    ∃ source ∈ sources, canonical source.clauseReference = canonical clause.clauseReference ∧
      ∀ citation ∈ clause.allCitations, citation ∈ source.text.citations := by
  unfold citesSource at h
  split at h
  · cases h
  · rename_i source hsource
    obtain ⟨hmem, hreference⟩ := byReference_some hsource
    exact ⟨source, hmem, hreference, fun citation hcitation =>
      contains_citationKey.mp (List.all_eq_true.mp h citation hcitation)⟩

/-- What is normalized is the answer, and each clause of it cites what its source cites. -/
theorem normalizeContractClauses_ok (h : normalizeContractClauses canonical extraction answer = .ok clauses) :
    clauses = answer ∧ ContractExtractionSchema canonical extraction = true ∧ ClauseNormalizationSchema canonical answer = true ∧
      ∀ clause ∈ answer, ∃ source ∈ extraction.clauses,
        canonical source.clauseReference = canonical clause.clauseReference ∧
        ∀ citation ∈ clause.allCitations, citation ∈ source.text.citations := by
  simp only [normalizeContractClauses, assertGrounded, throw_bind, ite_throw_eq_ok, bind_eq_ok, pure_eq_ok, not_not] at h
  obtain ⟨hextraction, -, hanswer, _, ⟨-, hgrounded⟩, rfl⟩ := h
  have hall : answer.all (citesSource canonical extraction.clauses) = true := by
    by_contra hnot
    rw [if_neg hnot] at hgrounded
    cases hgrounded
  exact ⟨rfl, hextraction, hanswer, fun clause hclause => citesSource_iff (List.all_eq_true.mp hall clause hclause)⟩

theorem mem_references {reference : String} :
    reference ∈ sortTexts (c.clauseReferences.map canonical).dedup ↔ ∃ r ∈ c.clauseReferences, canonical r = reference := by
  rw [(sortTexts_perm _).mem_iff, List.mem_dedup, List.mem_map]

/-- A criterion that is not rejected refers to normalized clauses, and cites what one of them cites. -/
theorem criterionRejections_nil (h : criterionRejections canonical clauses c = []) :
    (∀ reference ∈ c.clauseReferences, ∃ clause ∈ clauses, clause.isNormalized = true ∧
      canonical clause.clauseReference = canonical reference) ∧
    ∀ citation ∈ c.citations, ∃ reference ∈ c.clauseReferences, ∃ clause ∈ clauses, clause.isNormalized = true ∧
      canonical clause.clauseReference = canonical reference ∧ citation ∈ clause.citations := by
  simp only [criterionRejections, List.append_eq_nil_iff, List.flatMap_eq_nil_iff, List.map_eq_nil_iff] at h
  obtain ⟨⟨-, hreferences⟩, hcitations⟩ := h
  constructor
  · intro reference hreference
    have hnone := hreferences (canonical reference) (mem_references.mpr ⟨reference, hreference, rfl⟩)
    unfold referenceRejections at hnone
    split at hnone
    · cases hnone
    · rename_i clause hclause
      obtain ⟨hmem, heq⟩ := byReference_some hclause
      refine ⟨clause, hmem, ?_, heq⟩
      by_contra hnot
      rw [if_pos hnot] at hnone
      cases hnone
  · intro citation hcitation
    have hallowed := List.filter_eq_nil_iff.mp hcitations citation hcitation
    rw [Bool.not_eq_true', Bool.not_eq_false, List.contains_iff_mem, List.mem_flatMap] at hallowed
    obtain ⟨key, hkey, hallowed⟩ := hallowed
    obtain ⟨reference, hreference, rfl⟩ := mem_references.mp hkey
    unfold allowedBy at hallowed
    split at hallowed
    · cases hallowed
    · rename_i clause hclause
      obtain ⟨hmem, heq⟩ := byReference_some hclause
      split at hallowed
      · rename_i hnormalized
        refine ⟨reference, hreference, clause, hmem, hnormalized, heq, ?_⟩
        exact (List.mem_map_of_injective citationKey_injective).mp hallowed
      · cases hallowed

/-- What is proposed is the answer's criteria, none of which is rejected. -/
theorem generateProposedCriteria_ok {proposed : List ProposedCriteria.ProposedCriterion}
    (h : generateProposedCriteria canonical localeCompare sha256 clauses criteria = .ok proposed) :
    (∀ c ∈ criteria, criterionRejections canonical clauses c = []) ∧
      ∀ p, p ∈ proposed ↔ ∃ c ∈ criteria, ProposedCriteria.proposedCriterion localeCompare sha256 c.model = p := by
  simp only [generateProposedCriteria, requireProposalCitations, throw_bind, ite_throw_eq_ok, bind_eq_ok, pure_eq_ok] at h
  obtain ⟨-, -, -, _, hcited, rfl⟩ := h
  have hnone : (validateProposalCitations canonical localeCompare criteria clauses).isEmpty = true := by
    by_contra hnot
    rw [if_neg hnot] at hcited
    cases hcited
  constructor
  · intro c hc
    refine List.flatMap_eq_nil_iff.mp (List.isEmpty_iff.mp hnone) c ?_
    exact StableSort.mem_sort.mpr hc
  · intro p
    rw [ProposedCriteria.generateProposedCriteria, StableSort.mem_sort, List.map_map, List.mem_map]
    rfl

theorem NormalizedClause.citations_ne_nil {clause : NormalizedClause} (h : normalizedClauseSchema clause = true)
    (hnormalized : clause.isNormalized = true) : clause.citations ≠ [] := by
  cases clause with
  | abstained clauseReference reason clarificationQuestion citations => cases hnormalized
  | normalized clauseReference category title summary applicability terms citations =>
    simp only [normalizedClauseSchema, citationsSchema, Bool.and_eq_true, decide_eq_true_eq] at h
    exact List.ne_nil_of_length_pos h.2.1.2

theorem NormalizedClause.citations_subset (clause : NormalizedClause) : clause.citations ⊆ clause.allCitations := by
  cases clause with
  | abstained clauseReference reason clarificationQuestion citations => exact fun _ h => h
  | normalized clauseReference category title summary applicability terms citations =>
    exact List.subset_append_left citations _

/-- Proposals are grounded exactly if none of them refers to a clause that was abstained from although it has
citations. -/
theorem grounded_iff {proposed : List ProposedCriteria.ProposedCriterion}
    (hclauses : normalizeContractClauses canonical extraction answer = .ok clauses)
    (hproposed : generateProposedCriteria canonical localeCompare sha256 clauses criteria = .ok proposed) :
    (∀ p ∈ proposed, Grounded canonical extraction.clauses clauses p) ↔
      ∀ c ∈ criteria, ¬ RefersToAbstained canonical extraction.clauses c := by
  obtain ⟨rfl, hextraction, hschema, hsources⟩ := normalizeContractClauses_ok hclauses
  obtain ⟨haccepted, hmem⟩ := generateProposedCriteria_ok hproposed
  have hnodup : (extraction.clauses.map fun source => canonical source.clauseReference).Nodup := by
    simp only [ContractExtractionSchema, rejectDuplicates, Bool.and_eq_true, decide_eq_true_eq, List.map_map] at hextraction
    exact hextraction.1.2
  constructor
  · intro hgrounded c hc hrefers
    obtain ⟨reference, hreference, source, hsource, heq, hasked, -⟩ := hrefers
    exact (hgrounded _ ((hmem _).mpr ⟨c, hc, rfl⟩)).sound source hsource hasked reference hreference heq
  · intro hnone p hp
    obtain ⟨c, hc, rfl⟩ := (hmem p).mp hp
    obtain ⟨hnormalized, hcited⟩ := criterionRejections_nil (haccepted c hc)
    -- the source of a clause that is referred to has citations, so it was found
    have hfound : ∀ reference ∈ c.clauseReferences, ∃ source ∈ extraction.clauses,
        canonical source.clauseReference = canonical reference ∧ source.text.asked = none := by
      intro reference hreference
      obtain ⟨clause, hclause, hisNormalized, heq⟩ := hnormalized reference hreference
      obtain ⟨source, hsource, hsourceEq, hsubset⟩ := hsources clause hclause
      have hclauseSchema : normalizedClauseSchema clause = true := by
        simp only [ClauseNormalizationSchema, Bool.and_eq_true, List.all_eq_true] at hschema
        exact hschema.1.1 clause hclause
      obtain ⟨citation, hcitation⟩ := List.exists_mem_of_ne_nil _ (clause.citations_ne_nil hclauseSchema hisNormalized)
      have hcites : source.text.citations ≠ [] := List.ne_nil_of_mem (hsubset citation (clause.citations_subset hcitation))
      refine ⟨source, hsource, hsourceEq.trans heq, ?_⟩
      by_contra hasked
      exact hnone c hc ⟨reference, hreference, source, hsource, hsourceEq.trans heq,
        Option.isSome_iff_ne_none.mpr hasked, hcites⟩
    refine ⟨hnormalized, hfound, fun v hv => ?_, fun source hsource hasked reference hreference heq => ?_⟩
    · obtain ⟨citation, hcitation, rfl⟩ := List.mem_map.mp hv
      obtain ⟨reference, hreference, clause, hclause, -, heq, hclauseCites⟩ := hcited citation hcitation
      obtain ⟨source, hsource, hsourceEq, hsubset⟩ := hsources clause hclause
      exact ⟨reference, hreference, source, hsource, hsourceEq.trans heq,
        List.mem_map_of_mem (hsubset citation (clause.citations_subset hclauseCites))⟩
    · obtain ⟨source', hsource', heq', hfound'⟩ := hfound reference hreference
      obtain rfl := eq_of_reference hnodup hsource hsource' (heq.trans heq'.symm)
      rw [hfound'] at hasked
      cases hasked

end

/-- Where the terms are stated. -/
def termsCitation : ExtractionCitation := ⟨1, "Net 30 days", none, some ⟨0, 11⟩⟩

def normalizedTerms : List NormalizedClause :=
  [.normalized "4.1" .PAYMENT none "Payment within 30 days." [] [] [termsCitation]]

theorem chargeRule_accepted :
    ProposedCriteria.isAccepted (.compare .eq (.fact "all_amounts_stated") (.lit (.boolean true)) none) = true := by
  decide

def proposedTerms : List CitedCriterion :=
  [⟨"CONTRACT.PROPOSED.TERMS", .STRUCTURAL, "Payment terms.", ["4.1"], [termsCitation],
    .compare .eq (.fact "all_amounts_stated") (.lit (.boolean true)) none, chargeRule_accepted⟩]

theorem proposedTerms_go : generateProposedCriteria asciiLower compare id normalizedTerms proposedTerms =
    .ok (ProposedCriteria.generateProposedCriteria compare id (proposedTerms.map CitedCriterion.model)) := by
  rfl

/-- The clause is found. -/
theorem foundTerms_grounded :
    normalizeContractClauses asciiLower (termsExtraction "4.1") normalizedTerms = .ok normalizedTerms ∧
      ∀ p ∈ ProposedCriteria.generateProposedCriteria compare id (proposedTerms.map CitedCriterion.model),
        Grounded asciiLower (termsExtraction "4.1").clauses normalizedTerms p := by
  have hnormalized : normalizeContractClauses asciiLower (termsExtraction "4.1") normalizedTerms = .ok normalizedTerms := by
    decide +kernel
  exact ⟨hnormalized, (@grounded_iff asciiLower compare id (termsExtraction "4.1") normalizedTerms normalizedTerms
    proposedTerms _ hnormalized proposedTerms_go).mpr (by decide +kernel)⟩

/-- The extraction of the terms, of which none is certain enough. -/
def demotedTerms : ContractExtraction where
  sourceDocumentSha256 := String.ofList (List.replicate 64 '0')
  model := ⟨"m", "p"⟩
  fields := [⟨"netTerms", .DURATION, .abstained .AMBIGUOUS (some "30 days") half [termsCitation]
    "Please verify netTerms against the cited contract source."⟩]
  clauses := [⟨"4.1", none, .abstained .AMBIGUOUS (some "30 days") half [termsCitation]
    "Please verify clauses[\"4.1\"].text against the cited contract source."⟩]
  rateTables := []

/-- The clause is demoted for its low confidence, and proposed from all the same. -/
theorem demotedTerms_proposed :
    (applyContractExtractionAbstention asciiLower compare (termsExtraction "4.1") ⟨"v1", .ofNat 1, []⟩).map
        AbstentionPolicyResult.extraction = .ok demotedTerms ∧
      normalizeContractClauses asciiLower demotedTerms normalizedTerms = .ok normalizedTerms ∧
      generateProposedCriteria asciiLower compare id normalizedTerms proposedTerms =
        .ok (ProposedCriteria.generateProposedCriteria compare id (proposedTerms.map CitedCriterion.model)) ∧
      ∃ p ∈ ProposedCriteria.generateProposedCriteria compare id (proposedTerms.map CitedCriterion.model),
        ¬ Grounded asciiLower demotedTerms.clauses normalizedTerms p := by
  refine ⟨by decide +kernel, by decide +kernel, proposedTerms_go, _, List.mem_singleton_self _, fun h => ?_⟩
  obtain ⟨source, hsource, -, hfound⟩ := h.found "4.1" (List.mem_singleton_self _)
  rw [List.mem_singleton.mp hsource] at hfound
  cases hfound

end ContractExtractions
