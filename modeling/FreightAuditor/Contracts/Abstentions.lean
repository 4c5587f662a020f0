import FreightAuditor.Contracts.ExtractionSchema
import FreightAuditor.Library.ExceptOk
import FreightAuditor.Library.StableSort

/- Abstentions from what the model says.

   A value of too low a confidence becomes a question, a required field that is not there is added with one, and
   the rest stays. The result is an extraction again, and each of its abstentions a question, unless there are too
   many, a path is too long, or a required path is another's in a different case (`abstains_iff`). -/
namespace ContractExtractions

open DecimalText ExceptOk JsText Json

structure RequiredField where
  path : String
  semanticType : SemanticType
  clarificationQuestion : String
  deriving DecidableEq

structure ContractExtractionAbstentionPolicy where
  version : String
  minimumConfidence : NumberText
  requiredFields : List RequiredField
  deriving DecidableEq

def ContractExtractionAbstentionPolicySchema (policy : ContractExtractionAbstentionPolicy) : Bool :=
  boundedText 200 policy.version && confidenceSchema policy.minimumConfidence &&
    policy.requiredFields.all (fun field => boundedText 500 field.path && boundedText 2000 field.clarificationQuestion) &&
    decide (policy.requiredFields.length ≤ 10000) && decide (policy.requiredFields.map RequiredField.path).Nodup

inductive AbstentionReason where
  | MISSING_REQUIRED_FIELD | LOW_CONFIDENCE | MODEL_ABSTENTION | AMBIGUOUS_TABLE_ORIENTATION
  deriving DecidableEq

def AbstentionReason.text : AbstentionReason → String
  | .MISSING_REQUIRED_FIELD => "MISSING_REQUIRED_FIELD" | .LOW_CONFIDENCE => "LOW_CONFIDENCE"
  | .MODEL_ABSTENTION => "MODEL_ABSTENTION" | .AMBIGUOUS_TABLE_ORIENTATION => "AMBIGUOUS_TABLE_ORIENTATION"

structure ContractExtractionAbstention where
  path : String
  status : AbstainedStatus
  reason : AbstentionReason
  clarificationQuestion : String
  deriving DecidableEq

structure AbstentionPolicyResult where
  extraction : ContractExtraction
  policyVersion : String
  abstentions : List ContractExtractionAbstention
  deriving DecidableEq

inductive AbstentionError where
  /-- A schema does not accept. -/
  | schema
  | conflictingAbstention
  deriving DecidableEq

/-! ## Applying a policy -/

def applyToValue (minimumConfidence : NumberText) (value : ExtractedContractValue) (path : String)
    (preferredQuestion : Option String) : ExtractedContractValue × List ContractExtractionAbstention :=
  match value with
  | .abstained status _ _ _ clarificationQuestion => (value, [⟨path, status, .MODEL_ABSTENTION, clarificationQuestion⟩])
  | .found rawText _ confidence citations =>
    if minimumConfidence.value ≤ confidence.value then (value, [])
    else
      let question := preferredQuestion.getD ("Please verify " ++ path ++ " against the cited contract source.")
      (.abstained .AMBIGUOUS (some rawText) confidence citations question, [⟨path, .AMBIGUOUS, .LOW_CONFIDENCE, question⟩])

section

variable (policy : ContractExtractionAbstentionPolicy)

def preferredQuestion (path : String) : Option String :=
  (policy.requiredFields.find? fun field => field.path = path).map RequiredField.clarificationQuestion

def applyToField (field : ContractExtractionField) : ContractExtractionField × List ContractExtractionAbstention :=
  let applied := applyToValue policy.minimumConfidence field.value field.path (preferredQuestion policy field.path)
  ({ field with value := applied.1 }, applied.2)

def RequiredField.missing (requirement : RequiredField) : ContractExtractionField where
  path := requirement.path
  semanticType := requirement.semanticType
  value := .abstained .NOT_FOUND none (.ofNat 0) [] requirement.clarificationQuestion

def RequiredField.abstention (requirement : RequiredField) : ContractExtractionAbstention :=
  ⟨requirement.path, .NOT_FOUND, .MISSING_REQUIRED_FIELD, requirement.clarificationQuestion⟩

/-- A required field is added where it is not there. -/
def addRequired (state : List ContractExtractionField × List ContractExtractionAbstention) (requirement : RequiredField) :
    Except AbstentionError (List ContractExtractionField × List ContractExtractionAbstention) :=
  if state.1.any fun field => field.path = requirement.path then .ok state
  else if isFieldPath requirement.path then
    .ok (state.1 ++ [requirement.missing], state.2 ++ [requirement.abstention])
  else .error .schema

def applyToClause (clause : ExtractedContractClause) : ExtractedContractClause × List ContractExtractionAbstention :=
  let applied := applyToValue policy.minimumConfidence clause.text (clausePath clause.clauseReference) none
  ({ clause with text := applied.1 }, applied.2)

def applyToCell (base : String) (cell : ExtractedRateTableCell) : ExtractedRateTableCell × List ContractExtractionAbstention :=
  let applied := applyToValue policy.minimumConfidence cell.value (base ++ cellSuffix cell.corner) none
  ({ cell with value := applied.1 }, applied.2)

def orientationQuestion (tableKey : String) : String := "Is " ++ tableKey ++ " organized with brackets in rows or columns?"

def ExtractedRateTable.orientationAbstention (table : ExtractedRateTable) : List ContractExtractionAbstention :=
  if table.orientation = .AMBIGUOUS then
    [⟨tableBase table.tableKey ++ ".orientation", .AMBIGUOUS, .AMBIGUOUS_TABLE_ORIENTATION, orientationQuestion table.tableKey⟩]
  else []

def applyToTable (table : ExtractedRateTable) : ExtractedRateTable × List ContractExtractionAbstention :=
  let base := tableBase table.tableKey
  let title := applyToValue policy.minimumConfidence table.title (base ++ ".title") none
  let cells := table.cells.map (applyToCell policy base)
  ({ table with title := title.1, cells := cells.map Prod.fst },
    title.2 ++ cells.flatMap Prod.snd ++ table.orientationAbstention)

end

section

variable (canonical : String → String) (localeCompare : String → String → Ordering)

def compareFields (left right : ContractExtractionField) : Ordering := localeCompare left.path right.path

def compareAbstentions : ContractExtractionAbstention → ContractExtractionAbstention → Ordering :=
  compareLex (fun left right => localeCompare left.path right.path)
    fun left right => localeCompare left.reason.text right.reason.text

def applyContractExtractionAbstention (extraction : ContractExtraction) (policy : ContractExtractionAbstentionPolicy) :
    Except AbstentionError AbstentionPolicyResult := do
  if ¬ ContractExtractionSchema canonical extraction then throw .schema
  if ¬ ContractExtractionAbstentionPolicySchema policy then throw .schema
  let fields := extraction.fields.map (applyToField policy)
  let required ← policy.requiredFields.foldlM addRequired (fields.map Prod.fst, fields.flatMap Prod.snd)
  let clauses := extraction.clauses.map (applyToClause policy)
  let tables := extraction.rateTables.map (applyToTable policy)
  let applied := { extraction with
    fields := StableSort.sort (compareFields localeCompare) required.1
    clauses := clauses.map Prod.fst
    rateTables := tables.map Prod.fst }
  if ¬ ContractExtractionSchema canonical applied then throw .schema
  return ⟨applied, policy.version,
    StableSort.sort (compareAbstentions localeCompare) (required.2 ++ clauses.flatMap Prod.snd ++ tables.flatMap Prod.snd)⟩

end

/-! ## Questions -/

structure GeneratedClarifyingQuestion where
  path : String
  status : AbstainedStatus
  reason : AbstentionReason
  question : String
  questionHash : String
  deriving DecidableEq

/-- `z.string().trim().min(1).max(maximum)`. -/
def trimmedText (maximum : ℕ) (s : String) : Except AbstentionError String :=
  if 1 ≤ length (trim s) ∧ length (trim s) ≤ maximum then .ok (trim s) else .error .schema

def parseAbstention (abstention : ContractExtractionAbstention) : Except AbstentionError ContractExtractionAbstention := do
  let path ← trimmedText 1000 abstention.path
  let clarificationQuestion ← trimmedText 2000 abstention.clarificationQuestion
  return { abstention with path, clarificationQuestion }

section

variable (sha256 : String → String) (localeCompare : String → String → Ordering)

def clarifyingQuestionHash (parts : List String) : String := sha256 ("\x00".intercalate parts)

def ContractExtractionAbstention.generated (version : String) (abstention : ContractExtractionAbstention) :
    GeneratedClarifyingQuestion :=
  ⟨abstention.path, abstention.status, abstention.reason, abstention.clarificationQuestion,
    clarifyingQuestionHash sha256
      [version, abstention.path, abstention.status.text, abstention.reason.text, abstention.clarificationQuestion]⟩

/-- The questions so far, in the order of the map. -/
def addQuestion (version : String) (byPath : List GeneratedClarifyingQuestion) (abstention : ContractExtractionAbstention) :
    Except AbstentionError (List GeneratedClarifyingQuestion) :=
  let question := abstention.generated sha256 version
  match byPath.find? fun prior => prior.path = question.path with
  | some prior => if prior = question then .ok byPath else .error .conflictingAbstention
  | none => .ok (byPath ++ [question])

def compareQuestions (left right : GeneratedClarifyingQuestion) : Ordering := localeCompare left.path right.path

def generateClarifyingQuestions (untrustedAbstentions : List ContractExtractionAbstention) (policyVersion : String) :
    Except AbstentionError (List GeneratedClarifyingQuestion) := do
  if 30000 < untrustedAbstentions.length then throw .schema
  let abstentions ← untrustedAbstentions.mapM parseAbstention
  let version ← trimmedText 200 policyVersion
  let byPath ← abstentions.foldlM (addQuestion sha256 version) []
  return StableSort.sort (compareQuestions localeCompare) byPath

end

/-! ## What is claimed -/

/-- The status and the question of an abstention, `none` of a value that is found. -/
def ExtractedContractValue.asked : ExtractedContractValue → Option (AbstainedStatus × String)
  | .found .. => none
  | .abstained status _ _ _ clarificationQuestion => some (status, clarificationQuestion)

/-- What is claimed of the result. -/
structure FailSafe (canonical : String → String) (localeCompare : String → String → Ordering) (sha256 : String → String)
    (extraction : ContractExtraction) (policy : ContractExtractionAbstentionPolicy) (result : AbstentionPolicyResult) : Prop where
  found : ∀ row ∈ collectRows result.extraction, row.value.asked = none →
    policy.minimumConfidence.value ≤ row.value.confidence.value ∧ row ∈ collectRows extraction
  required : ∀ requirement ∈ policy.requiredFields, requirement.path ∈ result.extraction.fields.map ContractExtractionField.path
  explained : ∀ row ∈ collectRows result.extraction, ∀ asked, row.value.asked = some asked →
    ∃ abstention, result.abstentions.filter (fun a => a.path = row.fieldPath) = [abstention] ∧
      (abstention.status, abstention.clarificationQuestion) = asked
  again : ∃ result', applyContractExtractionAbstention canonical localeCompare result.extraction policy = .ok result' ∧
    result'.extraction = result.extraction
  questions : ∃ questions, generateClarifyingQuestions sha256 localeCompare result.abstentions result.policyVersion = .ok questions ∧
    (questions.map fun q => (q.path, q.status, q.reason, q.question)).Perm
      (result.abstentions.map fun a => (a.path, a.status, a.reason, a.clarificationQuestion))

/-- The policy is applied, and what comes out is as it is claimed. -/
def Abstains (canonical : String → String) (localeCompare : String → String → Ordering) (sha256 : String → String)
    (extraction : ContractExtraction) (policy : ContractExtractionAbstentionPolicy) : Prop :=
  ∃ result, applyContractExtractionAbstention canonical localeCompare extraction policy = .ok result ∧
    FailSafe canonical localeCompare sha256 extraction policy result

/-- The required fields that the model does not give. -/
def missingFields (extraction : ContractExtraction) (policy : ContractExtractionAbstentionPolicy) : List RequiredField :=
  policy.requiredFields.filter fun requirement => requirement.path ∉ extraction.fields.map ContractExtractionField.path

/-- Abstained from, or of too low a confidence. -/
def ExtractedContractValue.Doubtful (minimumConfidence : NumberText) (value : ExtractedContractValue) : Prop :=
  value.asked.isSome ∨ value.confidence.value < minimumConfidence.value

instance (minimumConfidence : NumberText) (value : ExtractedContractValue) : Decidable (value.Doubtful minimumConfidence) :=
  inferInstanceAs (Decidable (_ ∨ _))

/-- What the schemas have no room for does not come up. -/
structure Fits (canonical : String → String) (extraction : ContractExtraction) (policy : ContractExtractionAbstentionPolicy) :
    Prop where
  fields : extraction.fields.length + (missingFields extraction policy).length ≤ 10000
  paths : ((extraction.fields.map ContractExtractionField.path ++
    (missingFields extraction policy).map RequiredField.path).map canonical).Nodup
  clauses : ∀ clause ∈ extraction.clauses, clause.text.Doubtful policy.minimumConfidence →
    length (clausePath clause.clauseReference) ≤ 1000
  count : ((collectRows extraction).countP fun row => row.value.Doubtful policy.minimumConfidence) +
    (missingFields extraction policy).length +
    (extraction.rateTables.countP fun table => table.orientation = .AMBIGUOUS) ≤ 30000

/-! ## One value -/

/-- What an abstention says of which path. -/
def ContractExtractionAbstention.key (abstention : ContractExtractionAbstention) : String × AbstainedStatus × String :=
  (abstention.path, abstention.status, abstention.clarificationQuestion)

def PersistenceRow.asked (row : PersistenceRow) : Option (String × AbstainedStatus × String) :=
  row.value.asked.map (row.fieldPath, ·)

section

variable {minimumConfidence : NumberText} {value : ExtractedContractValue} {path : String} {preferred : Option String}

/-- A value that is not found after the policy has one abstention, and one that is found has none. -/
theorem applyToValue_keys : (applyToValue minimumConfidence value path preferred).2.map ContractExtractionAbstention.key =
    (PersistenceRow.asked ⟨path, (applyToValue minimumConfidence value path preferred).1⟩).toList := by
  unfold applyToValue
  cases value with
  | abstained status rawText confidence citations clarificationQuestion => rfl
  | found rawText normalizedValue confidence citations =>
    dsimp only
    split <;> rfl

/-- One that is found is as it was. -/
theorem applyToValue_found (h : (applyToValue minimumConfidence value path preferred).1.asked = none) :
    minimumConfidence.value ≤ value.confidence.value ∧ (applyToValue minimumConfidence value path preferred).1 = value := by
  unfold applyToValue at h ⊢
  cases value with
  | abstained status rawText confidence citations clarificationQuestion => cases h
  | found rawText normalizedValue confidence citations =>
    dsimp only at h ⊢
    split at h
    · rename_i hconfident
      rw [if_pos hconfident]
      exact ⟨hconfident, rfl⟩
    · cases h

/-- A second time it changes nothing. -/
theorem applyToValue_again {path' : String} {preferred' : Option String} :
    (applyToValue minimumConfidence (applyToValue minimumConfidence value path preferred).1 path' preferred').1 =
      (applyToValue minimumConfidence value path preferred).1 := by
  cases value with
  | abstained status rawText confidence citations clarificationQuestion => rfl
  | found rawText normalizedValue confidence citations =>
    by_cases hconfident : minimumConfidence.value ≤ confidence.value
    · have hkept : ∀ p q, applyToValue minimumConfidence (.found rawText normalizedValue confidence citations) p q =
          (.found rawText normalizedValue confidence citations, []) := fun p q => if_pos hconfident
      rw [hkept, hkept]
    · have hasked : ∀ p q, applyToValue minimumConfidence (.found rawText normalizedValue confidence citations) p q = _ :=
        fun p q => if_neg hconfident
      rw [hasked]
      rfl

theorem applyToValue_length : (applyToValue minimumConfidence value path preferred).2.length =
    if value.Doubtful minimumConfidence then 1 else 0 := by
  unfold applyToValue
  cases value with
  | abstained status rawText confidence citations clarificationQuestion => rfl
  | found rawText normalizedValue confidence citations =>
    have hdoubt : (ExtractedContractValue.found rawText normalizedValue confidence citations).Doubtful minimumConfidence ↔
        ¬ minimumConfidence.value ≤ confidence.value := (or_iff_right nofun).trans not_le.symm
    dsimp only
    by_cases hconfident : minimumConfidence.value ≤ confidence.value
    · rw [if_pos hconfident, if_neg fun h => hdoubt.mp h hconfident]
      rfl
    · rw [if_neg hconfident, if_pos (hdoubt.mpr hconfident)]
      rfl

/-- The schema takes a value whose question it takes. -/
theorem applyToValue_accepted (hvalue : ExtractedContractValueSchema value = true)
    (hquestion : boundedText 2000 (preferred.getD ("Please verify " ++ path ++ " against the cited contract source.")) = true) :
    ExtractedContractValueSchema (applyToValue minimumConfidence value path preferred).1 = true := by
  unfold applyToValue
  cases value with
  | abstained status rawText confidence citations clarificationQuestion => exact hvalue
  | found rawText normalizedValue confidence citations =>
    dsimp only
    split
    · exact hvalue
    · simp only [ExtractedContractValueSchema, Bool.and_eq_true] at hvalue ⊢
      obtain ⟨⟨⟨⟨⟨hraw, -⟩, hconfidence⟩, hcitations⟩, -⟩, hcount⟩ := hvalue
      exact ⟨⟨⟨⟨hraw, hconfidence⟩, hcitations⟩, hcount⟩, hquestion⟩

end

/-! ## Lengths of texts -/

theorem length_append (a b : String) : length (a ++ b) = length a + length b := by
  rw [length, String.toList_append, List.map_append, List.sum_append]
  rfl

theorem length_ofList (cs : List Char) : length (String.ofList cs) = (cs.map fun c => if c.toNat < 0x10000 then 1 else 2).sum := by
  rw [length, String.toList_ofList]

theorem units_le (cs : List Char) : (cs.map fun c => if c.toNat < 0x10000 then 1 else 2).sum ≤ 2 * cs.length := by
  induction cs with
  | nil => exact le_refl _
  | cons c rest ih =>
    rw [List.map_cons, List.sum_cons, List.length_cons]
    split <;> omega

theorem hexDigit_small : ∀ n < 16, (hexDigit n).toNat < 0x10000 := by decide

theorem small_of_all {cs : List Char} (h : (cs.all fun c => decide (c.toNat < 0x10000)) = true) :
    ∀ c ∈ cs, c.toNat < 0x10000 := fun c hc => of_decide_eq_true (List.all_eq_true.mp h c hc)

/-- A character stands for itself or for at most six small ones. -/
theorem escape_small (c : Char) : escape c = [c] ∨ (escape c).length ≤ 6 ∧ ∀ d ∈ escape c, d.toNat < 0x10000 := by
  unfold escape
  repeat (split; · exact .inr ⟨by decide, small_of_all (by decide)⟩)
  split
  · rename_i hcontrol
    have hhigh := hexDigit_small (c.toNat / 16) (by omega)
    have hlow := hexDigit_small (c.toNat % 16) (Nat.mod_lt _ (by decide))
    refine .inr ⟨le_refl _, ?_⟩
    simp only [List.forall_mem_cons]
    exact ⟨by decide, by decide, by decide, by decide, hhigh, hlow, List.forall_mem_nil _⟩
  · exact .inl rfl

theorem escape_plain {c : Char} (hquote : c ≠ '"') (hbackslash : c ≠ '\\') (hcontrol : ¬ c.toNat < 32) : escape c = [c] := by
  have hne : ∀ d : Char, d.toNat < 32 → c ≠ d := fun d hd heq => hcontrol (heq ▸ hd)
  rw [escape, if_neg hquote, if_neg hbackslash, if_neg (hne _ (by decide)), if_neg (hne _ (by decide)),
    if_neg (hne _ (by decide)), if_neg (hne _ (by decide)), if_neg (hne _ (by decide)), if_neg hcontrol]

theorem units_small {cs : List Char} (h : ∀ c ∈ cs, c.toNat < 0x10000) :
    (cs.map fun c => if c.toNat < 0x10000 then 1 else 2).sum = cs.length := by
  induction cs with
  | nil => rfl
  | cons c rest ih =>
    obtain ⟨hc, hrest⟩ := List.forall_mem_cons.mp h
    rw [List.map_cons, List.sum_cons, List.length_cons, ih hrest, if_pos hc, Nat.add_comm]

/-- An escaped character is at most six units long. -/
theorem escape_units (c : Char) : ((escape c).map fun d => if d.toNat < 0x10000 then 1 else 2).sum ≤
    6 * if c.toNat < 0x10000 then 1 else 2 := by
  rcases escape_small c with hself | ⟨hlength, hsmall⟩
  · rw [hself, List.map_singleton, List.sum_singleton]
    omega
  · rw [units_small hsmall]
    refine hlength.trans ?_
    split <;> omega

theorem length_quote (s : String) : length (String.ofList (quote s)) ≤ 6 * length s + 2 := by
  have hbody : ∀ cs : List Char, ((cs.flatMap escape).map fun c => if c.toNat < 0x10000 then 1 else 2).sum ≤
      6 * (cs.map fun c => if c.toNat < 0x10000 then 1 else 2).sum := by
    intro cs
    induction cs with
    | nil => exact le_refl _
    | cons c rest ih =>
      rw [List.flatMap_cons, List.map_append, List.sum_append, List.map_cons, List.sum_cons, Nat.mul_add]
      exact Nat.add_le_add (escape_units c) ih
  rw [length_ofList, quote, List.map_cons, List.map_append, List.sum_cons, List.sum_append]
  have hquotes : (if '"'.toNat < 0x10000 then 1 else 2) + (['"'].map fun c => if c.toNat < 0x10000 then 1 else 2).sum = 2 := by
    decide
  have hlength := hbody s.toList
  rw [length]
  omega

/-- A table's key needs no escapes. -/
theorem length_tableKey {s : String} (h : isTableKey s = true) : length (String.ofList (quote s)) = length s + 2 := by
  have hplain : ∀ c ∈ s.toList, escape c = [c] := by
    intro c hc
    have hkey : isLower c || c.isDigit || c == '_' || c == '-' := by
      unfold isTableKey at h
      cases hs : s.toList with
      | nil =>
        rw [hs] at hc
        cases hc
      | cons d rest =>
        rw [hs] at h hc
        obtain ⟨hfirst, hrest⟩ := Bool.and_eq_true_iff.mp h
        rcases List.mem_cons.mp hc with rfl | hc
        · rw [hfirst]
          rfl
        · exact List.all_eq_true.mp hrest c hc
    have hcode : ¬ c.toNat < 32 ∧ c.toNat ≠ 34 ∧ c.toNat ≠ 92 := by
      simp only [Bool.or_eq_true, isLower, Bool.and_eq_true, decide_eq_true_eq, beq_iff_eq] at hkey
      rcases hkey with ((⟨hlow, hhigh⟩ | hdigit) | rfl) | rfl
      · have hlow' : 97 ≤ c.toNat := hlow
        have hhigh' : c.toNat ≤ 122 := hhigh
        refine ⟨?_, ?_, ?_⟩ <;> omega
      · have hdigit' : (decide (48 ≤ c.val) && decide (c.val ≤ 57)) = true := hdigit
        obtain ⟨hfrom, hto⟩ := Bool.and_eq_true_iff.mp hdigit'
        have hlow' : 48 ≤ c.toNat := of_decide_eq_true hfrom
        have hhigh' : c.toNat ≤ 57 := of_decide_eq_true hto
        refine ⟨?_, ?_, ?_⟩ <;> omega
      · decide
      · decide
    exact escape_plain (fun hc => hcode.2.1 (by rw [hc]; rfl)) (fun hc => hcode.2.2 (by rw [hc]; rfl)) hcode.1
  have hbody : s.toList.flatMap escape = s.toList := by
    rw [List.flatMap_congr hplain]
    exact List.flatMap_singleton' _
  rw [length_ofList, quote, hbody, List.map_cons, List.map_append, List.sum_cons, List.sum_append, length]
  have hquotes : (if '"'.toNat < 0x10000 then 1 else 2) + (['"'].map fun c => if c.toNat < 0x10000 then 1 else 2).sum = 2 := by
    decide
  omega

theorem length_toString {n k : ℕ} (h : n < 10 ^ k) (hk : 0 < k) : length (toString n) ≤ 2 * k := by
  rw [length, Nat.toString_eq_repr, Nat.toList_repr]
  refine (units_le _).trans (Nat.mul_le_mul_left 2 ?_)
  exact (Nat.length_toDigits_le_iff (by decide) hk).mpr h

/-- A text between two that have no white space at their ends. -/
theorem trim_between {first middle last : String} (hfirst : ∃ c cs, first.toList = c :: cs ∧ isWhiteSpace c = false)
    (hlast : ∃ c cs, last.toList = cs ++ [c] ∧ isWhiteSpace c = false) : trim (first ++ middle ++ last) = first ++ middle ++ last := by
  obtain ⟨c, cs, hc, hfront⟩ := hfirst
  obtain ⟨d, ds, hd, hback⟩ := hlast
  refine trim_eq_self (fun e he => ?_) fun e he => ?_
  · rw [String.toList_append, String.toList_append, hc] at he
    obtain rfl := Option.some.inj he
    exact hfront
  · rw [String.toList_append, hd, ← List.append_assoc, List.getLast?_concat] at he
    obtain rfl := Option.some.inj he
    exact hback

theorem boundedText_iff {maximum : ℕ} {s : String} :
    boundedText maximum s = true ↔ trim s = s ∧ 1 ≤ length s ∧ length s ≤ maximum := by
  rw [boundedText, Bool.and_eq_true, Bool.and_eq_true, beq_iff_eq, decide_eq_true_eq, decide_eq_true_eq, and_assoc]

theorem boundedText_between {maximum : ℕ} {first middle last : String} (hfirst : ∃ c cs, first.toList = c :: cs ∧ isWhiteSpace c = false)
    (hlast : ∃ c cs, last.toList = cs ++ [c] ∧ isWhiteSpace c = false) (hpos : 1 ≤ length first)
    (hlength : length first + length middle + length last ≤ maximum) : boundedText maximum (first ++ middle ++ last) = true := by
  refine boundedText_iff.mpr ⟨trim_between hfirst hlast, ?_, ?_⟩
  · rw [length_append, length_append]
    omega
  · rwa [length_append, length_append]

theorem verifyQuestion_bounded {path : String} (h : length path ≤ 1900) :
    boundedText 2000 ("Please verify " ++ path ++ " against the cited contract source.") = true := by
  have hfirst : length "Please verify " = 14 := by decide +kernel
  have hlast : length " against the cited contract source." = 35 := by decide +kernel
  exact boundedText_between ⟨'P', "lease verify ".toList, by decide +kernel, by decide⟩
    ⟨'.', " against the cited contract source".toList, by decide +kernel, by decide⟩ (by omega) (by omega)

theorem orientationQuestion_bounded {tableKey : String} (h : length tableKey ≤ 300) :
    boundedText 2000 (orientationQuestion tableKey) = true := by
  have hfirst : length "Is " = 3 := by decide +kernel
  have hlast : length " organized with brackets in rows or columns?" = 44 := by decide +kernel
  exact boundedText_between ⟨'I', "s ".toList, by decide +kernel, by decide⟩
    ⟨'?', " organized with brackets in rows or columns".toList, by decide +kernel, by decide⟩ (by omega) (by omega)

theorem clausePath_bounds {clauseReference : String} (h : length clauseReference ≤ 300) :
    trim (clausePath clauseReference) = clausePath clauseReference ∧ 1 ≤ length (clausePath clauseReference) ∧
      length (clausePath clauseReference) ≤ 1900 := by
  have hfirst : length "clauses[" = 8 := by decide +kernel
  have hlast : length "].text" = 6 := by decide +kernel
  have hquote := length_quote clauseReference
  refine boundedText_iff.mp ?_
  exact boundedText_between ⟨'c', "lauses[".toList, by decide +kernel, by decide⟩ ⟨'t', "].tex".toList, by decide +kernel, by decide⟩
    (by omega) (by omega)

/-- A path in a table: its base and a suffix. -/
theorem tablePath_bounds {tableKey suffix : String} (hkey : isTableKey tableKey = true) (hlength : length tableKey ≤ 300)
    (hsuffix : length suffix ≤ 100) (hlast : ∃ c cs, suffix.toList = cs ++ [c] ∧ isWhiteSpace c = false) :
    trim (tableBase tableKey ++ suffix) = tableBase tableKey ++ suffix ∧ 1 ≤ length (tableBase tableKey ++ suffix) ∧
      length (tableBase tableKey ++ suffix) ≤ 1000 := by
  have hfirst : length "rateTables[" = 11 := by decide +kernel
  have hclose : length "]" = 1 := by decide +kernel
  have hquote := length_tableKey hkey
  refine boundedText_iff.mp ?_
  rw [tableBase, String.append_assoc]
  refine boundedText_between ⟨'r', "ateTables[".toList, by decide +kernel, by decide⟩ ?_ (by omega) ?_
  · obtain ⟨c, cs, hc, hwhite⟩ := hlast
    exact ⟨c, ']' :: cs, by rw [String.toList_append, hc]; rfl, hwhite⟩
  · rw [length_append]
    omega

theorem cellSuffix_bounds {corner : ℕ × ℕ} (hrow : corner.1 < 100000) (hcolumn : corner.2 < 100000) :
    length (cellSuffix corner) ≤ 100 ∧ ∃ c cs, (cellSuffix corner).toList = cs ++ [c] ∧ isWhiteSpace c = false := by
  have hopen : length ".cells[" = 7 := by decide +kernel
  have hcomma : length "," = 1 := by decide +kernel
  have hclose : length "]" = 1 := by decide +kernel
  have hrows := length_toString (n := corner.1) (k := 5) hrow (by decide)
  have hcolumns := length_toString (n := corner.2) (k := 5) hcolumn (by decide)
  constructor
  · rw [cellSuffix, length_append, length_append, length_append, length_append]
    omega
  · exact ⟨']', _, String.toList_append, by decide⟩

/-! ## The extraction after the policy -/

section

variable (localeCompare : String → String → Ordering) (extraction : ContractExtraction) (policy : ContractExtractionAbstentionPolicy)

/-- The fields, those of the model first. -/
def appliedFields : List ContractExtractionField :=
  (extraction.fields.map (applyToField policy)).map Prod.fst ++ (missingFields extraction policy).map RequiredField.missing

def applied : ContractExtraction :=
  { extraction with
    fields := StableSort.sort (compareFields localeCompare) (appliedFields extraction policy)
    clauses := (extraction.clauses.map (applyToClause policy)).map Prod.fst
    rateTables := (extraction.rateTables.map (applyToTable policy)).map Prod.fst }

/-- The abstentions as they are collected. -/
def collectedAbstentions : List ContractExtractionAbstention :=
  (extraction.fields.map (applyToField policy)).flatMap Prod.snd ++ (missingFields extraction policy).map RequiredField.abstention ++
    (extraction.clauses.map (applyToClause policy)).flatMap Prod.snd ++
      (extraction.rateTables.map (applyToTable policy)).flatMap Prod.snd

end

theorem addRequired_run {requirements : List RequiredField} (hgrammar : ∀ r ∈ requirements, isFieldPath r.path = true)
    (hnodup : (requirements.map RequiredField.path).Nodup) (fields : List ContractExtractionField)
    (abstentions : List ContractExtractionAbstention) :
    requirements.foldlM addRequired (fields, abstentions) = .ok
      (fields ++ (requirements.filter fun r => r.path ∉ fields.map ContractExtractionField.path).map RequiredField.missing,
        abstentions ++ (requirements.filter fun r => r.path ∉ fields.map ContractExtractionField.path).map RequiredField.abstention) := by
  induction requirements generalizing fields abstentions with
  | nil => simp [pure, Except.pure]
  | cons r rest ih =>
    obtain ⟨hr, hrest⟩ := List.forall_mem_cons.mp hgrammar
    rw [List.map_cons, List.nodup_cons] at hnodup
    rw [List.foldlM_cons]
    by_cases hthere : r.path ∈ fields.map ContractExtractionField.path
    · have hany : (fields.any fun field => field.path = r.path) = true := by
        obtain ⟨field, hfield, hpath⟩ := List.mem_map.mp hthere
        exact List.any_eq_true.mpr ⟨field, hfield, decide_eq_true hpath⟩
      have hstep : addRequired (fields, abstentions) r = .ok (fields, abstentions) := if_pos hany
      rw [hstep, ok_bind, ih hrest hnodup.2, List.filter_cons_of_neg (by simpa using hthere)]
    · have hnone : ¬ (fields.any fun field => field.path = r.path) = true := by
        intro hany
        obtain ⟨field, hfield, hpath⟩ := List.any_eq_true.mp hany
        exact hthere (List.mem_map.mpr ⟨field, hfield, of_decide_eq_true hpath⟩)
      have hstep : addRequired (fields, abstentions) r = .ok (fields ++ [r.missing], abstentions ++ [r.abstention]) :=
        (if_neg hnone).trans (if_pos hr)
      have hsame : (rest.filter fun q => q.path ∉ (fields ++ [r.missing]).map ContractExtractionField.path) =
          rest.filter fun q => q.path ∉ fields.map ContractExtractionField.path := by
        refine List.filter_congr fun q hq => decide_eq_decide.mpr ?_
        have hne : q.path ≠ r.path := fun heq => hnodup.1 (heq ▸ List.mem_map_of_mem hq)
        rw [List.map_append, List.mem_append, not_or, List.map_singleton, List.mem_singleton]
        exact and_iff_left hne
      rw [hstep, ok_bind, ih hrest hnodup.2, hsame, List.filter_cons_of_pos (by simpa using hthere), List.map_cons, List.map_cons,
        List.append_assoc, List.append_assoc]
      rfl

section

variable {canonical : String → String} {localeCompare : String → String → Ordering} {extraction : ContractExtraction}
  {policy : ContractExtractionAbstentionPolicy}

theorem appliedField_paths : ((extraction.fields.map (applyToField policy)).map Prod.fst).map ContractExtractionField.path =
    extraction.fields.map ContractExtractionField.path := by
  rw [List.map_map, List.map_map]
  rfl

theorem policy_paths_nodup (h : ContractExtractionAbstentionPolicySchema policy = true) :
    (policy.requiredFields.map RequiredField.path).Nodup := of_decide_eq_true (Bool.and_eq_true_iff.mp h).2

/-- The policy is applied where the extraction that comes out is accepted. -/
theorem apply_eq_ok (hgrammar : ∀ r ∈ policy.requiredFields, isFieldPath r.path = true) {result : AbstentionPolicyResult} :
    applyContractExtractionAbstention canonical localeCompare extraction policy = .ok result ↔
      ContractExtractionSchema canonical extraction = true ∧ ContractExtractionAbstentionPolicySchema policy = true ∧
        ContractExtractionSchema canonical (applied localeCompare extraction policy) = true ∧
          result = ⟨applied localeCompare extraction policy, policy.version,
            StableSort.sort (compareAbstentions localeCompare) (collectedAbstentions extraction policy)⟩ := by
  simp only [applyContractExtractionAbstention, throw_bind, ite_throw_eq_ok, not_not, bind_eq_ok, pure_eq_ok]
  refine and_congr_right fun _ => and_congr_right fun hpolicy => ?_
  have hrun := addRequired_run hgrammar (policy_paths_nodup hpolicy)
    ((extraction.fields.map (applyToField policy)).map Prod.fst) ((extraction.fields.map (applyToField policy)).flatMap Prod.snd)
  rw [appliedField_paths] at hrun
  rw [hrun]
  constructor
  · rintro ⟨required, hrequired, haccepted, rfl⟩
    obtain rfl := Except.ok.inj hrequired
    exact ⟨haccepted, rfl⟩
  · rintro ⟨haccepted, rfl⟩
    exact ⟨_, rfl, haccepted, rfl⟩

/-! ## What is asked -/

/-- What is collected of a list is what its values ask after the policy. -/
theorem collected_asked {α β : Type} (f : α → β × List ContractExtractionAbstention) (row : β → PersistenceRow)
    (h : ∀ a, (f a).2.map ContractExtractionAbstention.key = (row (f a).1).asked.toList) (l : List α) :
    ((l.map f).flatMap Prod.snd).map ContractExtractionAbstention.key =
      (((l.map f).map Prod.fst).map row).filterMap PersistenceRow.asked := by
  induction l with
  | nil => rfl
  | cons a rest ih =>
    rw [List.map_cons, List.flatMap_cons, List.map_append, ih, h, List.map_cons, List.map_cons, List.filterMap_cons]
    cases (row (f a).1).asked <;> rfl

def ContractExtractionField.row (field : ContractExtractionField) : PersistenceRow := ⟨field.path, field.value⟩

def ExtractedContractClause.row (clause : ExtractedContractClause) : PersistenceRow :=
  ⟨clausePath clause.clauseReference, clause.text⟩

def ExtractedRateTable.cellRow (base : String) (cell : ExtractedRateTableCell) : PersistenceRow :=
  ⟨base ++ cellSuffix cell.corner, cell.value⟩

theorem filterMap_asked_cons (row : PersistenceRow) (rows : List PersistenceRow) :
    (row :: rows).filterMap PersistenceRow.asked = row.asked.toList ++ rows.filterMap PersistenceRow.asked := by
  rw [List.filterMap_cons]
  cases row.asked <;> rfl

theorem applyToTable_asked (table : ExtractedRateTable) : (applyToTable policy table).2.map ContractExtractionAbstention.key =
    (applyToTable policy table).1.rows.filterMap PersistenceRow.asked ++
      table.orientationAbstention.map ContractExtractionAbstention.key := by
  have htitle := @applyToValue_keys policy.minimumConfidence table.title (tableBase table.tableKey ++ ".title") none
  have hcells := collected_asked (applyToCell policy (tableBase table.tableKey))
    (ExtractedRateTable.cellRow (tableBase table.tableKey)) (fun cell => @applyToValue_keys policy.minimumConfidence cell.value (tableBase table.tableKey ++ cellSuffix cell.corner) none)
    table.cells
  have hrows : (applyToTable policy table).1.rows =
      ⟨tableBase table.tableKey ++ ".title",
        (applyToValue policy.minimumConfidence table.title (tableBase table.tableKey ++ ".title") none).1⟩ ::
      ((table.cells.map (applyToCell policy (tableBase table.tableKey))).map Prod.fst).map
        (ExtractedRateTable.cellRow (tableBase table.tableKey)) := rfl
  have habstentions : (applyToTable policy table).2 =
      (applyToValue policy.minimumConfidence table.title (tableBase table.tableKey ++ ".title") none).2 ++
        (table.cells.map (applyToCell policy (tableBase table.tableKey))).flatMap Prod.snd ++ table.orientationAbstention := rfl
  rw [habstentions, hrows, filterMap_asked_cons, List.map_append, List.map_append, htitle, hcells]

/-- What is asked of the orientations. -/
def orientationKeys (extraction : ContractExtraction) : List (String × AbstainedStatus × String) :=
  extraction.rateTables.flatMap fun table => table.orientationAbstention.map ContractExtractionAbstention.key

theorem applied_rows : (collectRows (applied localeCompare extraction policy)).Perm
    ((appliedFields extraction policy).map ContractExtractionField.row ++
      ((extraction.clauses.map (applyToClause policy)).map Prod.fst).map ExtractedContractClause.row ++
        ((extraction.rateTables.map (applyToTable policy)).map Prod.fst).flatMap ExtractedRateTable.rows) :=
  (((StableSort.sort_perm _).map ContractExtractionField.row).append_right _).append_right _

/-- Every value that is not found, and every ambiguous orientation, is asked for once. -/
theorem collected_keys : ((collectedAbstentions extraction policy).map ContractExtractionAbstention.key).Perm
    ((collectRows (applied localeCompare extraction policy)).filterMap PersistenceRow.asked ++ orientationKeys extraction) := by
  have hfields := collected_asked (applyToField policy) ContractExtractionField.row (fun field => applyToValue_keys)
    extraction.fields
  have hclauses := collected_asked (applyToClause policy) ExtractedContractClause.row (fun clause => applyToValue_keys)
    extraction.clauses
  have hmissing : ((missingFields extraction policy).map RequiredField.abstention).map ContractExtractionAbstention.key =
      (((missingFields extraction policy).map RequiredField.missing).map ContractExtractionField.row).filterMap
        PersistenceRow.asked := by
    rw [List.map_map, List.map_map, List.filterMap_map]
    exact (congrFun (List.filterMap_eq_map (f := _)) _).symm
  have htables : ((extraction.rateTables.map (applyToTable policy)).flatMap Prod.snd).map ContractExtractionAbstention.key =
      extraction.rateTables.flatMap fun table => (applyToTable policy table).1.rows.filterMap PersistenceRow.asked ++
        table.orientationAbstention.map ContractExtractionAbstention.key := by
    rw [List.flatMap_map, List.map_flatMap]
    exact List.flatMap_congr fun table _ => applyToTable_asked table
  have hrows := @applied_rows localeCompare extraction policy
  refine List.Perm.trans ?_ ((hrows.filterMap PersistenceRow.asked).symm.append_right _)
  rw [collectedAbstentions, List.map_append, List.map_append, List.map_append, hfields, hmissing, hclauses, htables,
    List.filterMap_append, List.filterMap_append, appliedFields, List.map_append, List.filterMap_append, List.append_assoc _ _ (orientationKeys _)]
  refine List.Perm.append_left _ ?_
  rw [List.filterMap_flatMap, List.flatMap_map, List.flatMap_map]
  exact (List.flatMap_append_perm _ _ _).symm

/-! ## The result is an extraction -/

theorem cellsFit_bounds {rowCount columnCount : ℕ} {cells : List ExtractedRateTableCell} {occupied : List (ℕ × ℕ)}
    (h : cellsFit rowCount columnCount cells occupied = true) :
    ∀ cell ∈ cells, cell.rowIndex + cell.rowSpan ≤ rowCount ∧ cell.columnIndex + cell.columnSpan ≤ columnCount := by
  induction cells generalizing occupied with
  | nil => exact List.forall_mem_nil _
  | cons cell rest ih =>
    simp only [cellsFit, Bool.and_eq_true, decide_eq_true_eq] at h
    exact List.forall_mem_cons.mpr ⟨⟨h.1.1.1, h.1.1.2⟩, ih h.2⟩

/-- Only the places of cells matter. -/
theorem cellsFit_applied {base : String} {rowCount columnCount : ℕ} {cells : List ExtractedRateTableCell}
    {occupied : List (ℕ × ℕ)} : cellsFit rowCount columnCount ((cells.map (applyToCell policy base)).map Prod.fst) occupied =
      cellsFit rowCount columnCount cells occupied := by
  induction cells generalizing occupied with
  | nil => rfl
  | cons cell rest ih =>
    rw [List.map_cons, List.map_cons, cellsFit, cellsFit]
    exact congrArg (_ && ·) ih

section

variable (hpolicy : ContractExtractionAbstentionPolicySchema policy = true)
include hpolicy

theorem required_bounded : ∀ r ∈ policy.requiredFields,
    boundedText 500 r.path = true ∧ boundedText 2000 r.clarificationQuestion = true := by
  simp only [ContractExtractionAbstentionPolicySchema, Bool.and_eq_true, List.all_eq_true] at hpolicy
  exact hpolicy.1.1.2

theorem preferredQuestion_bounded {path : String} (hpath : length path ≤ 1900) :
    boundedText 2000 ((preferredQuestion policy path).getD ("Please verify " ++ path ++ " against the cited contract source.")) =
      true := by
  unfold preferredQuestion
  cases hfound : policy.requiredFields.find? fun field => field.path = path with
  | none => exact verifyQuestion_bounded hpath
  | some r => exact (required_bounded hpolicy r (List.mem_of_find?_eq_some hfound)).2

theorem applyToField_accepted {field : ContractExtractionField} (h : ContractExtractionFieldSchema field = true) :
    ContractExtractionFieldSchema (applyToField policy field).1 = true := by
  simp only [ContractExtractionFieldSchema, Bool.and_eq_true] at h ⊢
  obtain ⟨hpath, hvalue⟩ := h
  have hlength := (boundedText_iff.mp hpath.1).2.2
  exact ⟨hpath, applyToValue_accepted hvalue (preferredQuestion_bounded hpolicy (by omega))⟩

theorem missing_accepted {r : RequiredField} (hr : r ∈ policy.requiredFields) (hgrammar : isFieldPath r.path = true) :
    ContractExtractionFieldSchema r.missing = true := by
  obtain ⟨hpath, hquestion⟩ := required_bounded hpolicy r hr
  have hconfidence : confidenceSchema (.ofNat 0) = true := by decide +kernel
  simp only [ContractExtractionFieldSchema, RequiredField.missing, ExtractedContractValueSchema, Bool.and_eq_true]
  exact ⟨⟨hpath, hgrammar⟩, ⟨⟨⟨rfl, hconfidence⟩, rfl⟩, rfl⟩, hquestion⟩

end

theorem applyToClause_accepted {clause : ExtractedContractClause} (h : ExtractedContractClauseSchema clause = true) :
    ExtractedContractClauseSchema (applyToClause policy clause).1 = true := by
  simp only [ExtractedContractClauseSchema, Bool.and_eq_true] at h ⊢
  obtain ⟨hreference, htext⟩ := h
  have hpath := clausePath_bounds (boundedText_iff.mp hreference.1).2.2
  exact ⟨hreference, applyToValue_accepted htext (verifyQuestion_bounded hpath.2.2)⟩

/-- What is known of the paths in a table. -/
structure TablePaths (table : ExtractedRateTable) : Prop where
  key : isTableKey table.tableKey = true ∧ length table.tableKey ≤ 300
  cells : ∀ cell ∈ table.cells, cell.rowIndex < 100000 ∧ cell.columnIndex < 100000

theorem tablePaths {table : ExtractedRateTable} (h : ExtractedRateTableSchema table = true) : TablePaths table := by
  simp only [ExtractedRateTableSchema, Bool.and_eq_true, List.all_eq_true, decide_eq_true_eq] at h
  obtain ⟨⟨⟨⟨⟨⟨⟨⟨⟨hkey, hgrammar⟩, -⟩, -⟩, hrows⟩, -⟩, hcolumns⟩, -⟩, hcells⟩, hfit⟩ := h
  refine ⟨⟨hgrammar, (boundedText_iff.mp hkey).2.2⟩, fun cell hcell => ?_⟩
  have hspans := hcells cell hcell
  have hbounds := cellsFit_bounds hfit cell hcell
  simp only [ExtractedRateTableCellSchema, Bool.and_eq_true, decide_eq_true_eq] at hspans
  omega

theorem TablePaths.title {table : ExtractedRateTable} (h : TablePaths table) :
    trim (tableBase table.tableKey ++ ".title") = tableBase table.tableKey ++ ".title" ∧
      1 ≤ length (tableBase table.tableKey ++ ".title") ∧ length (tableBase table.tableKey ++ ".title") ≤ 1000 :=
  tablePath_bounds h.key.1 h.key.2 (by decide +kernel) ⟨'e', ".titl".toList, by decide +kernel, by decide⟩

theorem TablePaths.orientation {table : ExtractedRateTable} (h : TablePaths table) :
    trim (tableBase table.tableKey ++ ".orientation") = tableBase table.tableKey ++ ".orientation" ∧
      1 ≤ length (tableBase table.tableKey ++ ".orientation") ∧ length (tableBase table.tableKey ++ ".orientation") ≤ 1000 :=
  tablePath_bounds h.key.1 h.key.2 (by decide +kernel) ⟨'n', ".orientatio".toList, by decide +kernel, by decide⟩

theorem TablePaths.cell {table : ExtractedRateTable} (h : TablePaths table) {cell : ExtractedRateTableCell} (hcell : cell ∈ table.cells) :
    trim (tableBase table.tableKey ++ cellSuffix cell.corner) = tableBase table.tableKey ++ cellSuffix cell.corner ∧
      1 ≤ length (tableBase table.tableKey ++ cellSuffix cell.corner) ∧
        length (tableBase table.tableKey ++ cellSuffix cell.corner) ≤ 1000 := by
  have hcorner := h.cells cell hcell
  obtain ⟨hlength, hlast⟩ := @cellSuffix_bounds cell.corner hcorner.1 hcorner.2
  exact tablePath_bounds h.key.1 h.key.2 hlength hlast

theorem applyToTable_accepted {table : ExtractedRateTable} (h : ExtractedRateTableSchema table = true) :
    ExtractedRateTableSchema (applyToTable policy table).1 = true := by
  have hpaths := tablePaths h
  simp only [ExtractedRateTableSchema, Bool.and_eq_true, List.all_eq_true] at h ⊢
  obtain ⟨⟨⟨⟨⟨⟨⟨⟨⟨hkey, hgrammar⟩, htitle⟩, hrow⟩, hrows⟩, hcolumn⟩, hcolumns⟩, hlength⟩, hcells⟩, hfit⟩ := h
  refine ⟨⟨⟨⟨⟨⟨⟨⟨⟨hkey, hgrammar⟩, ?_⟩, hrow⟩, hrows⟩, hcolumn⟩, hcolumns⟩, ?_⟩, ?_⟩, ?_⟩
  · exact applyToValue_accepted htitle (verifyQuestion_bounded (hpaths.title.2.2.trans (by decide)))
  · show decide (((table.cells.map _).map Prod.fst).length ≤ 250000) = true
    rwa [List.length_map, List.length_map]
  · intro applied happlied
    obtain ⟨pair, hpair, rfl⟩ := List.mem_map.mp happlied
    obtain ⟨cell, hcell, rfl⟩ := List.mem_map.mp hpair
    have haccepted := hcells cell hcell
    simp only [ExtractedRateTableCellSchema, Bool.and_eq_true] at haccepted ⊢
    exact ⟨haccepted.1, applyToValue_accepted haccepted.2 (verifyQuestion_bounded ((hpaths.cell hcell).2.2.trans (by decide)))⟩
  · exact cellsFit_applied.trans hfit

theorem schema_iff {x : ContractExtraction} : ContractExtractionSchema canonical x = true ↔
    (isSha256 x.sourceDocumentSha256 = true ∧ boundedText 200 x.model.modelId = true ∧
      boundedText 200 x.model.promptVersion = true) ∧
    (x.fields.length ≤ 10000 ∧ ∀ field ∈ x.fields, ContractExtractionFieldSchema field = true) ∧
    (x.clauses.length ≤ 10000 ∧ ∀ clause ∈ x.clauses, ExtractedContractClauseSchema clause = true) ∧
    (x.rateTables.length ≤ 1000 ∧ ∀ table ∈ x.rateTables, ExtractedRateTableSchema table = true) ∧
    ((x.fields.map ContractExtractionField.path).map canonical).Nodup ∧
    ((x.clauses.map ExtractedContractClause.clauseReference).map canonical).Nodup ∧
    ((x.rateTables.map ExtractedRateTable.tableKey).map canonical).Nodup := by
  simp only [ContractExtractionSchema, rejectDuplicates, Bool.and_eq_true, List.all_eq_true, decide_eq_true_eq, and_assoc]

theorem appliedFields_paths : (appliedFields extraction policy).map ContractExtractionField.path =
    extraction.fields.map ContractExtractionField.path ++ (missingFields extraction policy).map RequiredField.path := by
  rw [appliedFields, List.map_append, appliedField_paths, List.map_map]
  rfl

theorem missing_required {r : RequiredField} (h : r ∈ missingFields extraction policy) : r ∈ policy.requiredFields :=
  List.mem_of_mem_filter h

/-- The result is an extraction but for what is added to the fields. -/
theorem applied_accepted_iff (hextraction : ContractExtractionSchema canonical extraction = true)
    (hpolicy : ContractExtractionAbstentionPolicySchema policy = true)
    (hgrammar : ∀ r ∈ policy.requiredFields, isFieldPath r.path = true) :
    ContractExtractionSchema canonical (applied localeCompare extraction policy) = true ↔
      extraction.fields.length + (missingFields extraction policy).length ≤ 10000 ∧
        ((extraction.fields.map ContractExtractionField.path ++
          (missingFields extraction policy).map RequiredField.path).map canonical).Nodup := by
  obtain ⟨hheader, ⟨-, hfields⟩, ⟨hclauses, hclause⟩, ⟨htables, htable⟩, -, hreferences, hkeys⟩ := schema_iff.mp hextraction
  have hsorted : (StableSort.sort (compareFields localeCompare) (appliedFields extraction policy)).Perm
      (appliedFields extraction policy) := StableSort.sort_perm _
  have hlength : (applied localeCompare extraction policy).fields.length =
      extraction.fields.length + (missingFields extraction policy).length := by
    have hsame := hsorted.length_eq
    rwa [appliedFields, List.length_append, List.length_map, List.length_map, List.length_map] at hsame
  have hnodup : (((applied localeCompare extraction policy).fields.map ContractExtractionField.path).map canonical).Nodup ↔
      ((extraction.fields.map ContractExtractionField.path ++
        (missingFields extraction policy).map RequiredField.path).map canonical).Nodup := by
    rw [← appliedFields_paths]
    exact ((hsorted.map _).map _).nodup_iff
  have haccepted : ∀ field ∈ (applied localeCompare extraction policy).fields, ContractExtractionFieldSchema field = true := by
    intro field hfield
    rcases List.mem_append.mp (hsorted.mem_iff.mp hfield) with hfield | hfield
    · obtain ⟨pair, hpair, rfl⟩ := List.mem_map.mp hfield
      obtain ⟨source, hsource, rfl⟩ := List.mem_map.mp hpair
      exact applyToField_accepted hpolicy (hfields source hsource)
    · obtain ⟨r, hr, rfl⟩ := List.mem_map.mp hfield
      exact missing_accepted hpolicy (missing_required hr) (hgrammar r (missing_required hr))
  have hclauses' : (applied localeCompare extraction policy).clauses.length ≤ 10000 ∧
      ∀ clause ∈ (applied localeCompare extraction policy).clauses, ExtractedContractClauseSchema clause = true := by
    refine ⟨?_, fun clause hmem => ?_⟩
    · show ((extraction.clauses.map _).map Prod.fst).length ≤ 10000
      rwa [List.length_map, List.length_map]
    · obtain ⟨pair, hpair, rfl⟩ := List.mem_map.mp hmem
      obtain ⟨source, hsource, rfl⟩ := List.mem_map.mp hpair
      exact applyToClause_accepted (hclause source hsource)
  have htables' : (applied localeCompare extraction policy).rateTables.length ≤ 1000 ∧
      ∀ table ∈ (applied localeCompare extraction policy).rateTables, ExtractedRateTableSchema table = true := by
    refine ⟨?_, fun table hmem => ?_⟩
    · show ((extraction.rateTables.map _).map Prod.fst).length ≤ 1000
      rwa [List.length_map, List.length_map]
    · obtain ⟨pair, hpair, rfl⟩ := List.mem_map.mp hmem
      obtain ⟨source, hsource, rfl⟩ := List.mem_map.mp hpair
      exact applyToTable_accepted (htable source hsource)
  have hreferences' : (applied localeCompare extraction policy).clauses.map ExtractedContractClause.clauseReference =
      extraction.clauses.map ExtractedContractClause.clauseReference := by
    show ((extraction.clauses.map _).map Prod.fst).map _ = _
    rw [List.map_map, List.map_map]
    rfl
  have hkeys' : (applied localeCompare extraction policy).rateTables.map ExtractedRateTable.tableKey =
      extraction.rateTables.map ExtractedRateTable.tableKey := by
    show ((extraction.rateTables.map _).map Prod.fst).map _ = _
    rw [List.map_map, List.map_map]
    rfl
  rw [schema_iff, hlength, hnodup, hreferences', hkeys']
  exact ⟨fun h => ⟨h.2.1.1, h.2.2.2.2.1⟩,
    fun h => ⟨hheader, ⟨h.1, haccepted⟩, hclauses', htables', h.2, hreferences, hkeys⟩⟩

/-! ## Each question once -/

theorem mem_orientationKeys {path : String} (h : path ∈ (orientationKeys extraction).map Prod.fst) :
    ∃ table ∈ extraction.rateTables, path = tableBase table.tableKey ++ ".orientation" := by
  obtain ⟨key, hkey, rfl⟩ := List.mem_map.mp h
  obtain ⟨table, htable, hkey⟩ := List.mem_flatMap.mp hkey
  obtain ⟨abstention, habstention, rfl⟩ := List.mem_map.mp hkey
  unfold ExtractedRateTable.orientationAbstention at habstention
  split at habstention
  · rw [List.mem_singleton.mp habstention]
    exact ⟨table, htable, rfl⟩
  · cases habstention

theorem orientationKeys_nodup (hkeys : (extraction.rateTables.map ExtractedRateTable.tableKey).Nodup) :
    ((orientationKeys extraction).map Prod.fst).Nodup := by
  have hpaths : (orientationKeys extraction).map Prod.fst =
      ((extraction.rateTables.filter fun table => table.orientation = .AMBIGUOUS).map ExtractedRateTable.tableKey).map
        fun key => tableBase key ++ ".orientation" := by
    unfold orientationKeys
    induction extraction.rateTables with
    | nil => rfl
    | cons table rest ih =>
      rw [List.flatMap_cons, List.map_append, ih, ExtractedRateTable.orientationAbstention]
      by_cases hambiguous : table.orientation = .AMBIGUOUS
      · rw [if_pos hambiguous, List.filter_cons, if_pos (decide_eq_true hambiguous)]
        rfl
      · rw [if_neg hambiguous, List.filter_cons, if_neg (by simpa using hambiguous)]
        rfl
  rw [hpaths]
  refine List.Nodup.map (fun a b hab => (tableBase_append_inj hab).1) ?_
  exact hkeys.sublist (List.filter_sublist.map _)

theorem cellSuffix_ne_orientation (corner : ℕ × ℕ) : cellSuffix corner ≠ ".orientation" := by
  intro h
  have htext := congrArg String.toList h
  simp [cellSuffix] at htext

/-- No value has the path of an orientation. -/
theorem orientation_not_row {x : ContractExtraction} (h : ContractExtractionSchema canonical x = true) {tableKey : String} :
    tableBase tableKey ++ ".orientation" ∉ (collectRows x).map PersistenceRow.fieldPath := by
  intro hmem
  obtain ⟨row, hrow, hpath⟩ := List.mem_map.mp hmem
  obtain ⟨-, ⟨-, hfields⟩, -⟩ := schema_iff.mp h
  rcases List.mem_append.mp hrow with hrow | hrow
  · rcases List.mem_append.mp hrow with hrow | hrow
    · obtain ⟨field, hfield, rfl⟩ := List.mem_map.mp hrow
      have haccepted := hfields field hfield
      simp only [ContractExtractionFieldSchema, Bool.and_eq_true] at haccepted
      refine fieldPath_no_quote haccepted.1.2 ?_
      rw [show field.path = _ from hpath]
      simp [tableBase, quote_mem]
    · obtain ⟨clause, -, rfl⟩ := List.mem_map.mp hrow
      have htext := congrArg String.toList hpath
      simp [clausePath, tableBase] at htext
  · obtain ⟨table, -, hrow⟩ := List.mem_flatMap.mp hrow
    rcases List.mem_cons.mp hrow with rfl | hrow
    · exact absurd (tableBase_append_inj hpath).2 (by decide)
    · obtain ⟨cell, -, rfl⟩ := List.mem_map.mp hrow
      exact cellSuffix_ne_orientation cell.corner (tableBase_append_inj hpath).2

theorem asked_path {row : PersistenceRow} {key : String × AbstainedStatus × String} (h : row.asked = some key) :
    key.1 = row.fieldPath := by
  obtain ⟨asked, -, rfl⟩ := Option.map_eq_some_iff.mp h
  rfl

theorem asked_paths_sublist (rows : List PersistenceRow) :
    ((rows.filterMap PersistenceRow.asked).map Prod.fst).Sublist (rows.map PersistenceRow.fieldPath) := by
  induction rows with
  | nil => exact List.Sublist.refl _
  | cons row rest ih =>
    cases hasked : row.asked with
    | none =>
      rw [List.filterMap_cons, hasked]
      exact ih.cons _
    | some key =>
      rw [List.filterMap_cons, hasked, List.map_cons, List.map_cons, asked_path hasked]
      exact ih.cons_cons _

/-- No two abstentions have one path. -/
theorem collected_paths_nodup (hextraction : ContractExtractionSchema canonical extraction = true)
    (h : ContractExtractionSchema canonical (applied localeCompare extraction policy) = true) :
    ((collectedAbstentions extraction policy).map ContractExtractionAbstention.path).Nodup := by
  have hperm := (@collected_keys localeCompare extraction policy).map Prod.fst
  rw [List.map_map] at hperm
  refine hperm.nodup_iff.mpr ?_
  rw [List.map_append]
  refine List.Nodup.append ((collectPaths_nodup h).sublist (asked_paths_sublist _)) ?_ ?_
  · obtain ⟨-, -, -, -, -, -, hkeys⟩ := schema_iff.mp hextraction
    exact orientationKeys_nodup (List.Nodup.of_map canonical hkeys)
  · intro path hrow horientation
    obtain ⟨table, -, rfl⟩ := mem_orientationKeys horientation
    exact orientation_not_row h ((asked_paths_sublist _).subset hrow)

theorem filter_eq_singleton {α β : Type} [DecidableEq β] {f : α → β} {l : List α} (hnodup : (l.map f).Nodup) {a : α} (ha : a ∈ l) :
    l.filter (fun b => f b = f a) = [a] := by
  induction l with
  | nil => cases ha
  | cons b rest ih =>
    rw [List.map_cons, List.nodup_cons] at hnodup
    rcases List.mem_cons.mp ha with rfl | ha
    · rw [List.filter_cons, if_pos (decide_eq_true rfl)]
      refine congrArg (_ :: ·) (List.filter_eq_nil_iff.mpr fun c hc hsame => ?_)
      exact hnodup.1 (of_decide_eq_true hsame ▸ List.mem_map_of_mem hc)
    · have hne : f b ≠ f a := fun heq => hnodup.1 (heq ▸ List.mem_map_of_mem ha)
      rw [List.filter_cons_of_neg (by simpa using hne), ih hnodup.2 ha]

/-! ## What holds of the result -/

theorem found_kept : ∀ row ∈ collectRows (applied localeCompare extraction policy), row.value.asked = none →
    policy.minimumConfidence.value ≤ row.value.confidence.value ∧ row ∈ collectRows extraction := by
  intro row hrow hasked
  rcases List.mem_append.mp (applied_rows.mem_iff.mp hrow) with hrow | hrow
  · rcases List.mem_append.mp hrow with hrow | hrow
    · obtain ⟨field, hfield, rfl⟩ := List.mem_map.mp hrow
      rcases List.mem_append.mp hfield with hfield | hfield
      · obtain ⟨pair, hpair, rfl⟩ := List.mem_map.mp hfield
        obtain ⟨source, hsource, rfl⟩ := List.mem_map.mp hpair
        obtain ⟨hconfident, hsame⟩ := applyToValue_found hasked
        have hrow : (applyToField policy source).1.row = ⟨source.path, source.value⟩ :=
          congrArg (PersistenceRow.mk source.path) hsame
        rw [hrow]
        exact ⟨hconfident, List.mem_append_left _ (List.mem_append_left _ (List.mem_map_of_mem hsource))⟩
      · obtain ⟨r, -, rfl⟩ := List.mem_map.mp hfield
        cases hasked
    · obtain ⟨clause, hclause, rfl⟩ := List.mem_map.mp hrow
      obtain ⟨pair, hpair, rfl⟩ := List.mem_map.mp hclause
      obtain ⟨source, hsource, rfl⟩ := List.mem_map.mp hpair
      obtain ⟨hconfident, hsame⟩ := applyToValue_found hasked
      have hrow : (applyToClause policy source).1.row = ⟨clausePath source.clauseReference, source.text⟩ :=
        congrArg (PersistenceRow.mk (clausePath source.clauseReference)) hsame
      rw [hrow]
      exact ⟨hconfident, List.mem_append_left _ (List.mem_append_right _ (List.mem_map_of_mem hsource))⟩
  · obtain ⟨table, htable, hrow⟩ := List.mem_flatMap.mp hrow
    obtain ⟨pair, hpair, rfl⟩ := List.mem_map.mp htable
    obtain ⟨source, hsource, rfl⟩ := List.mem_map.mp hpair
    have hthere : ∀ row ∈ source.rows, row ∈ collectRows extraction := fun row hrow =>
      List.mem_append_right _ (List.mem_flatMap.mpr ⟨source, hsource, hrow⟩)
    rcases List.mem_cons.mp hrow with rfl | hrow
    · obtain ⟨hconfident, hsame⟩ := applyToValue_found hasked
      refine ⟨?_, hthere _ ?_⟩
      · show policy.minimumConfidence.value ≤ ((applyToTable policy source).1.title).confidence.value
        rw [show (applyToTable policy source).1.title = source.title from hsame]
        exact hconfident
      · exact List.mem_cons.mpr (.inl (congrArg (PersistenceRow.mk _) hsame))
    · obtain ⟨cell, hcell, rfl⟩ := List.mem_map.mp hrow
      obtain ⟨pair, hpair, rfl⟩ := List.mem_map.mp hcell
      obtain ⟨original, horiginal, rfl⟩ := List.mem_map.mp hpair
      obtain ⟨hconfident, hsame⟩ := applyToValue_found hasked
      refine ⟨?_, hthere _ (List.mem_cons_of_mem _ (List.mem_map.mpr ⟨original, horiginal, ?_⟩))⟩
      · show policy.minimumConfidence.value ≤ ((applyToCell policy (tableBase source.tableKey) original).1.value).confidence.value
        rw [show (applyToCell policy (tableBase source.tableKey) original).1.value = original.value from hsame]
        exact hconfident
      · exact congrArg (PersistenceRow.mk _) hsame.symm

theorem required_there : ∀ r ∈ policy.requiredFields,
    r.path ∈ (applied localeCompare extraction policy).fields.map ContractExtractionField.path := by
  intro r hr
  have hsorted : ((applied localeCompare extraction policy).fields.map ContractExtractionField.path).Perm
      ((appliedFields extraction policy).map ContractExtractionField.path) := (StableSort.sort_perm _).map _
  refine hsorted.mem_iff.mpr ?_
  rw [appliedFields_paths, List.mem_append]
  by_cases hthere : r.path ∈ extraction.fields.map ContractExtractionField.path
  · exact .inl hthere
  · exact .inr (List.mem_map_of_mem (List.mem_filter.mpr ⟨hr, decide_eq_true hthere⟩))

theorem explained_once (hextraction : ContractExtractionSchema canonical extraction = true)
    (h : ContractExtractionSchema canonical (applied localeCompare extraction policy) = true)
    {abstentions : List ContractExtractionAbstention} (hperm : abstentions.Perm (collectedAbstentions extraction policy)) :
    ∀ row ∈ collectRows (applied localeCompare extraction policy), ∀ asked, row.value.asked = some asked →
      ∃ abstention, abstentions.filter (fun a => a.path = row.fieldPath) = [abstention] ∧
        (abstention.status, abstention.clarificationQuestion) = asked := by
  intro row hrow asked hasked
  have hkey : (row.fieldPath, asked) ∈ (collectRows (applied localeCompare extraction policy)).filterMap PersistenceRow.asked :=
    List.mem_filterMap.mpr ⟨row, hrow, by rw [PersistenceRow.asked, hasked]; rfl⟩
  have hmem : (row.fieldPath, asked) ∈ abstentions.map ContractExtractionAbstention.key :=
    (hperm.map _).mem_iff.mpr (collected_keys.mem_iff.mpr (List.mem_append_left _ hkey))
  obtain ⟨abstention, habstention, hsame⟩ := List.mem_map.mp hmem
  obtain ⟨hpath, hrest⟩ := Prod.mk.inj hsame
  have hnodup : (abstentions.map ContractExtractionAbstention.path).Nodup :=
    (hperm.map _).nodup_iff.mpr (collected_paths_nodup hextraction h)
  rw [← hpath]
  exact ⟨abstention, filter_eq_singleton hnodup habstention, hrest⟩

/-! ## A second time -/

theorem applyToField_again {field : ContractExtractionField} (h : field ∈ appliedFields extraction policy) :
    (applyToField policy field).1 = field := by
  rcases List.mem_append.mp h with h | h
  · obtain ⟨pair, hpair, rfl⟩ := List.mem_map.mp h
    obtain ⟨source, -, rfl⟩ := List.mem_map.mp hpair
    exact congrArg (ContractExtractionField.mk source.path source.semanticType) applyToValue_again
  · obtain ⟨r, -, rfl⟩ := List.mem_map.mp h
    rfl

theorem applyToClause_again (clause : ExtractedContractClause) :
    (applyToClause policy (applyToClause policy clause).1).1 = (applyToClause policy clause).1 :=
  congrArg (ExtractedContractClause.mk clause.clauseReference clause.title) applyToValue_again

theorem applyToCell_again (base : String) (cell : ExtractedRateTableCell) :
    (applyToCell policy base (applyToCell policy base cell).1).1 = (applyToCell policy base cell).1 :=
  congrArg (ExtractedRateTableCell.mk cell.rowIndex cell.columnIndex cell.rowSpan cell.columnSpan cell.role) applyToValue_again

theorem map_again {α β : Type} {f : α → α × β} (h : ∀ a, (f (f a).1).1 = (f a).1) (l : List α) :
    (((l.map f).map Prod.fst).map f).map Prod.fst = (l.map f).map Prod.fst := by
  rw [List.map_map, List.map_map, List.map_map, List.map_map]
  exact List.map_congr_left fun a _ => h a

theorem applyToTable_again (table : ExtractedRateTable) :
    (applyToTable policy (applyToTable policy table).1).1 = (applyToTable policy table).1 := by
  have hcells := map_again (fun cell => @applyToCell_again policy (tableBase table.tableKey) cell) table.cells
  have htitle := @applyToValue_again policy.minimumConfidence table.title (tableBase table.tableKey ++ ".title") none
    (tableBase table.tableKey ++ ".title") none
  have htable := congrArg₂ (fun title cells => ExtractedRateTable.mk table.tableKey title table.orientation table.rowCount
    table.columnCount cells) htitle hcells
  exact htable

/-- The policy leaves alone what it has been applied to. -/
theorem applied_again [Std.TransCmp localeCompare] :
    applied localeCompare (applied localeCompare extraction policy) policy = applied localeCompare extraction policy := by
  have htrans : Std.TransCmp (compareFields localeCompare) := StableSort.transCmp_key ContractExtractionField.path
  have hmissing : missingFields (applied localeCompare extraction policy) policy = [] :=
    List.filter_eq_nil_iff.mpr fun r hr hnot => of_decide_eq_true hnot (required_there r hr)
  have hfields : appliedFields (applied localeCompare extraction policy) policy =
      StableSort.sort (compareFields localeCompare) (appliedFields extraction policy) := by
    rw [appliedFields, hmissing, List.map_nil, List.append_nil, List.map_map]
    refine (List.map_congr_left fun field hfield => ?_).trans (List.map_id _)
    exact applyToField_again (StableSort.mem_sort.mp hfield)
  have hsorted : StableSort.sort (compareFields localeCompare) (appliedFields (applied localeCompare extraction policy) policy) =
      StableSort.sort (compareFields localeCompare) (appliedFields extraction policy) := by
    rw [hfields]
    exact StableSort.sort_sort _
  have hclauses := map_again (fun clause => @applyToClause_again policy clause) extraction.clauses
  have htables := map_again (fun table => @applyToTable_again policy table) extraction.rateTables
  show ContractExtraction.mk _ _ _ _ _ = ContractExtraction.mk _ _ _ _ _
  exact congr (congr (congrArg (ContractExtraction.mk _ _) hsorted) hclauses) htables

/-! ## Questions of abstentions -/

/-- Trimmed texts that the schema of abstentions takes. -/
structure Askable (abstention : ContractExtractionAbstention) : Prop where
  path : trim abstention.path = abstention.path ∧ 1 ≤ length abstention.path ∧ length abstention.path ≤ 1000
  question : boundedText 2000 abstention.clarificationQuestion = true

theorem trimmedText_eq_ok {maximum : ℕ} {s t : String} :
    trimmedText maximum s = .ok t ↔ (1 ≤ length (trim s) ∧ length (trim s) ≤ maximum) ∧ t = trim s := by
  unfold trimmedText
  split
  · rename_i h
    rw [and_iff_right h]
    exact ⟨fun heq => (Except.ok.inj heq).symm, fun heq => congrArg Except.ok heq.symm⟩
  · rename_i h
    exact iff_of_false (fun heq => by cases heq) fun hboth => h hboth.1

theorem parseAbstention_askable {abstention : ContractExtractionAbstention} (h : Askable abstention) :
    parseAbstention abstention = .ok abstention := by
  obtain ⟨⟨htrim, hpath⟩, hquestion⟩ := h
  obtain ⟨htrim', hquestion⟩ := boundedText_iff.mp hquestion
  have hpath' : trimmedText 1000 abstention.path = .ok abstention.path :=
    trimmedText_eq_ok.mpr ⟨by rwa [htrim], htrim.symm⟩
  have hquestion' : trimmedText 2000 abstention.clarificationQuestion = .ok abstention.clarificationQuestion :=
    trimmedText_eq_ok.mpr ⟨by rwa [htrim'], htrim'.symm⟩
  rw [parseAbstention, hpath', ok_bind, hquestion', ok_bind]
  rfl

variable {sha256 : String → String}

theorem addQuestion_run {version : String} {abstentions : List ContractExtractionAbstention}
    {byPath : List GeneratedClarifyingQuestion} (hnodup : (abstentions.map ContractExtractionAbstention.path).Nodup)
    (hnew : ∀ abstention ∈ abstentions, abstention.path ∉ byPath.map GeneratedClarifyingQuestion.path) :
    abstentions.foldlM (addQuestion sha256 version) byPath =
      .ok (byPath ++ abstentions.map fun a => a.generated sha256 version) := by
  induction abstentions generalizing byPath with
  | nil => rw [List.map_nil, List.append_nil]; rfl
  | cons a rest ih =>
    obtain ⟨ha, hrest⟩ := List.forall_mem_cons.mp hnew
    rw [List.map_cons, List.nodup_cons] at hnodup
    have hnone : byPath.find? (fun prior => prior.path = (a.generated sha256 version).path) = none := by
      refine List.find?_eq_none.mpr fun prior hprior hsame => ha ?_
      exact List.mem_map.mpr ⟨prior, hprior, of_decide_eq_true hsame⟩
    have hstep : addQuestion sha256 version byPath a = .ok (byPath ++ [a.generated sha256 version]) := by
      rw [addQuestion, hnone]
    rw [List.foldlM_cons, hstep, ok_bind, ih hnodup.2, List.append_assoc]
    · rfl
    · intro b hb hmem
      rw [List.map_append, List.mem_append, List.map_singleton, List.mem_singleton] at hmem
      rcases hmem with hmem | heq
      · exact hrest b hb hmem
      · have hsame : b.path = a.path := heq
        exact hnodup.1 (hsame ▸ List.mem_map_of_mem hb)

/-- Questions are generated if there are not too many and the paths are short enough. -/
theorem generates_iff {abstentions : List ContractExtractionAbstention} {version : String}
    (hnodup : (abstentions.map ContractExtractionAbstention.path).Nodup) (hversion : boundedText 200 version = true)
    (htrimmed : ∀ a ∈ abstentions, trim a.path = a.path ∧ 1 ≤ length a.path)
    (hquestions : ∀ a ∈ abstentions, boundedText 2000 a.clarificationQuestion = true) :
    (∃ questions, generateClarifyingQuestions sha256 localeCompare abstentions version = .ok questions ∧
      (questions.map fun q => (q.path, q.status, q.reason, q.question)).Perm
        (abstentions.map fun a => (a.path, a.status, a.reason, a.clarificationQuestion))) ↔
      abstentions.length ≤ 30000 ∧ ∀ a ∈ abstentions, length a.path ≤ 1000 := by
  constructor
  · rintro ⟨questions, hrun, -⟩
    simp only [generateClarifyingQuestions, throw_bind, ite_throw_eq_ok, bind_eq_ok, not_lt] at hrun
    obtain ⟨hcount, parsed, hparsed, -⟩ := hrun
    refine ⟨hcount, fun a ha => ?_⟩
    obtain ⟨b, -, hb⟩ := exists_of_mapM hparsed ha
    simp only [parseAbstention, bind_eq_ok] at hb
    obtain ⟨path, hpath, -⟩ := hb
    have hbounds := (trimmedText_eq_ok.mp hpath).1.2
    rwa [(htrimmed a ha).1] at hbounds
  · rintro ⟨hcount, hlengths⟩
    have hask : ∀ a ∈ abstentions, parseAbstention a = .ok a := fun a ha =>
      parseAbstention_askable ⟨⟨(htrimmed a ha).1, (htrimmed a ha).2, hlengths a ha⟩, hquestions a ha⟩
    have hparsed : abstentions.mapM parseAbstention = .ok abstentions := by
      clear hnodup htrimmed hquestions hcount hlengths
      induction abstentions with
      | nil => rfl
      | cons a rest ih =>
        obtain ⟨ha, hrest⟩ := List.forall_mem_cons.mp hask
        rw [List.mapM_cons, ha, ok_bind, ih hrest]
        rfl
    obtain ⟨htrim, hbounds⟩ := boundedText_iff.mp hversion
    have hversion' : trimmedText 200 version = .ok version := trimmedText_eq_ok.mpr ⟨by rwa [htrim], htrim.symm⟩
    have hmade : abstentions.foldlM (addQuestion sha256 version) [] =
        .ok (abstentions.map fun a => a.generated sha256 version) := addQuestion_run hnodup fun a _ => List.not_mem_nil
    refine ⟨StableSort.sort (compareQuestions localeCompare) (abstentions.map fun a => a.generated sha256 version), ?_, ?_⟩
    · rw [generateClarifyingQuestions, if_neg (by omega), hparsed, ok_bind, hversion', ok_bind, hmade, ok_bind]
      rfl
    · refine ((StableSort.sort_perm _).map _).trans ?_
      rw [List.map_map]
      exact List.Perm.refl _

/-! ## The abstentions that are collected -/

theorem question_bounded {value : ExtractedContractValue} {asked : AbstainedStatus × String}
    (h : ExtractedContractValueSchema value = true) (hasked : value.asked = some asked) : boundedText 2000 asked.2 = true := by
  cases value with
  | found rawText normalizedValue confidence citations => cases hasked
  | abstained status rawText confidence citations clarificationQuestion =>
    obtain rfl := Option.some.inj hasked
    exact (Bool.and_eq_true_iff.mp h).2

theorem mem_applyToValue {minimumConfidence : NumberText} {value : ExtractedContractValue} {path : String}
    {preferred : Option String} {a : ContractExtractionAbstention}
    (h : a ∈ (applyToValue minimumConfidence value path preferred).2) : a.path = path ∧ value.Doubtful minimumConfidence ∧
      (applyToValue minimumConfidence value path preferred).1.asked = some (a.status, a.clarificationQuestion) := by
  have hkey := List.mem_map_of_mem (f := ContractExtractionAbstention.key) h
  rw [applyToValue_keys] at hkey
  obtain ⟨asked, hasked, hsame⟩ := Option.map_eq_some_iff.mp (Option.mem_toList.mp hkey)
  obtain ⟨hpath, rfl⟩ := Prod.mk.inj hsame
  refine ⟨hpath.symm, ?_, hasked⟩
  by_contra hsure
  have hlength := @applyToValue_length minimumConfidence value path preferred
  rw [if_neg hsure, List.length_eq_zero_iff] at hlength
  rw [hlength] at h
  cases h

/-- A path and a question that are taken, but for the length of a clause's path. -/
structure Wellformed (extraction : ContractExtraction) (policy : ContractExtractionAbstentionPolicy)
    (a : ContractExtractionAbstention) : Prop where
  trimmed : trim a.path = a.path ∧ 1 ≤ length a.path
  question : boundedText 2000 a.clarificationQuestion = true
  short : length a.path ≤ 1000 ∨ ∃ clause ∈ extraction.clauses, clause.text.Doubtful policy.minimumConfidence ∧
    a.path = clausePath clause.clauseReference

theorem wellformed_value {minimumConfidence : NumberText} {value : ExtractedContractValue} {path : String}
    {preferred : Option String} {a : ContractExtractionAbstention}
    (h : a ∈ (applyToValue minimumConfidence value path preferred).2)
    (haccepted : ExtractedContractValueSchema (applyToValue minimumConfidence value path preferred).1 = true)
    (hpath : trim path = path ∧ 1 ≤ length path ∧ length path ≤ 1000) : Wellformed extraction policy a := by
  obtain ⟨rfl, -, hasked⟩ := mem_applyToValue h
  have hquestion : boundedText 2000 a.clarificationQuestion = true := by
    have hbounded := question_bounded haccepted hasked
    exact hbounded
  exact ⟨⟨hpath.1, hpath.2.1⟩, hquestion, .inl hpath.2.2⟩

theorem collected_wellformed (hextraction : ContractExtractionSchema canonical extraction = true)
    (hpolicy : ContractExtractionAbstentionPolicySchema policy = true) :
    ∀ a ∈ collectedAbstentions extraction policy, Wellformed extraction policy a := by
  obtain ⟨-, ⟨-, hfields⟩, ⟨-, hclauses⟩, ⟨-, htables⟩, -⟩ := schema_iff.mp hextraction
  intro a ha
  rcases List.mem_append.mp ha with ha | ha
  · rcases List.mem_append.mp ha with ha | ha
    · rcases List.mem_append.mp ha with ha | ha
      · obtain ⟨pair, hpair, ha⟩ := List.mem_flatMap.mp ha
        obtain ⟨field, hfield, rfl⟩ := List.mem_map.mp hpair
        have haccepted := applyToField_accepted hpolicy (hfields field hfield)
        simp only [ContractExtractionFieldSchema, Bool.and_eq_true] at haccepted
        obtain ⟨htrim, hpos, hlength⟩ := boundedText_iff.mp haccepted.1.1
        exact wellformed_value ha haccepted.2 ⟨htrim, hpos, hlength.trans (by decide)⟩
      · obtain ⟨r, hr, rfl⟩ := List.mem_map.mp ha
        obtain ⟨hpath, hquestion⟩ := required_bounded hpolicy r (missing_required hr)
        obtain ⟨htrim, hpos, hlength⟩ := boundedText_iff.mp hpath
        exact ⟨⟨htrim, hpos⟩, hquestion, .inl (hlength.trans (by decide))⟩
    · obtain ⟨pair, hpair, ha⟩ := List.mem_flatMap.mp ha
      obtain ⟨clause, hclause, rfl⟩ := List.mem_map.mp hpair
      have hsource := hclauses clause hclause
      have haccepted := @applyToClause_accepted policy clause hsource
      simp only [ExtractedContractClauseSchema, Bool.and_eq_true] at haccepted hsource
      obtain ⟨htrim, hpos, -⟩ := clausePath_bounds (boundedText_iff.mp hsource.1.1).2.2
      obtain ⟨hpath, hdoubtful, hasked⟩ := mem_applyToValue ha
      have hbounded := question_bounded haccepted.2 hasked
      refine ⟨?_, hbounded, .inr ⟨clause, hclause, hdoubtful, hpath⟩⟩
      rw [hpath]
      exact ⟨htrim, hpos⟩
  · obtain ⟨pair, hpair, ha⟩ := List.mem_flatMap.mp ha
    obtain ⟨table, htable, rfl⟩ := List.mem_map.mp hpair
    have hpaths := tablePaths (htables table htable)
    have haccepted := @applyToTable_accepted policy table (htables table htable)
    simp only [ExtractedRateTableSchema, Bool.and_eq_true, List.all_eq_true] at haccepted
    obtain ⟨⟨⟨⟨⟨⟨⟨⟨-, htitle⟩, -⟩, -⟩, -⟩, -⟩, -⟩, hcells⟩, -⟩ := haccepted
    rcases List.mem_append.mp ha with ha | ha
    · rcases List.mem_append.mp ha with ha | ha
      · exact wellformed_value ha htitle hpaths.title
      · obtain ⟨pair, hpair, ha⟩ := List.mem_flatMap.mp ha
        have hcell := hcells pair.1 (List.mem_map_of_mem hpair)
        obtain ⟨cell, hsource, rfl⟩ := List.mem_map.mp hpair
        simp only [ExtractedRateTableCellSchema, Bool.and_eq_true] at hcell
        exact wellformed_value ha hcell.2 (hpaths.cell hsource)
    · unfold ExtractedRateTable.orientationAbstention at ha
      split at ha
      · rw [List.mem_singleton.mp ha]
        obtain ⟨htrim, hpos, hlength⟩ := hpaths.orientation
        exact ⟨⟨htrim, hpos⟩, orientationQuestion_bounded hpaths.key.2, .inl hlength⟩
      · cases ha

theorem collected_length_of {α β : Type} (f : α → β × List ContractExtractionAbstention) (row : α → PersistenceRow)
    {minimumConfidence : NumberText}
    (h : ∀ a, (f a).2.length = if (row a).value.Doubtful minimumConfidence then 1 else 0) (l : List α) :
    ((l.map f).flatMap Prod.snd).length = (l.map row).countP fun row => row.value.Doubtful minimumConfidence := by
  induction l with
  | nil => rfl
  | cons a rest ih =>
    rw [List.map_cons, List.flatMap_cons, List.length_append, ih, h, List.map_cons, List.countP_cons, Nat.add_comm]
    simp only [decide_eq_true_eq]

theorem collected_length : (collectedAbstentions extraction policy).length =
    ((collectRows extraction).countP fun row => row.value.Doubtful policy.minimumConfidence) +
      (missingFields extraction policy).length + (extraction.rateTables.countP fun table => table.orientation = .AMBIGUOUS) := by
  have hfields := collected_length_of (applyToField policy) ContractExtractionField.row
    (fun field => applyToValue_length) extraction.fields
  have hclauses := collected_length_of (applyToClause policy) ExtractedContractClause.row
    (fun clause => applyToValue_length) extraction.clauses
  have htables : ((extraction.rateTables.map (applyToTable policy)).flatMap Prod.snd).length =
      ((extraction.rateTables.flatMap ExtractedRateTable.rows).countP fun row => row.value.Doubtful policy.minimumConfidence) +
        (extraction.rateTables.countP fun table => table.orientation = .AMBIGUOUS) := by
    induction extraction.rateTables with
    | nil => rfl
    | cons table rest ih =>
      have htitle := @applyToValue_length policy.minimumConfidence table.title (tableBase table.tableKey ++ ".title") none
      have hcells := collected_length_of (applyToCell policy (tableBase table.tableKey))
        (ExtractedRateTable.cellRow (tableBase table.tableKey)) (fun cell => applyToValue_length) table.cells
      have horientation : table.orientationAbstention.length = if table.orientation = .AMBIGUOUS then 1 else 0 := by
        unfold ExtractedRateTable.orientationAbstention
        split <;> rfl
      have htable : (applyToTable policy table).2.length =
          (table.rows.countP fun row => row.value.Doubtful policy.minimumConfidence) +
            if table.orientation = .AMBIGUOUS then 1 else 0 := by
        show (_ ++ _ ++ table.orientationAbstention).length = _
        rw [List.length_append, List.length_append, htitle, hcells, horientation, ExtractedRateTable.rows, List.countP_cons]
        simp only [decide_eq_true_eq]
        rw [Nat.add_comm (ite _ _ _)]
        rfl
      rw [List.map_cons, List.flatMap_cons, List.length_append, ih, htable, List.flatMap_cons, List.countP_append, List.countP_cons]
      simp only [decide_eq_true_eq]
      omega
  have hrows : (collectRows extraction).countP (fun row => row.value.Doubtful policy.minimumConfidence) =
      ((extraction.fields.map ContractExtractionField.row).countP fun row => row.value.Doubtful policy.minimumConfidence) +
        ((extraction.clauses.map ExtractedContractClause.row).countP fun row => row.value.Doubtful policy.minimumConfidence) +
          (extraction.rateTables.flatMap ExtractedRateTable.rows).countP fun row => row.value.Doubtful policy.minimumConfidence := by
    rw [collectRows, List.countP_append, List.countP_append]
    rfl
  rw [collectedAbstentions, List.length_append, List.length_append, List.length_append, List.length_map, hfields, hclauses,
    htables, hrows]
  omega

/-- A clause in doubt is asked for. -/
theorem clause_collected {clause : ExtractedContractClause} (hclause : clause ∈ extraction.clauses)
    (hdoubtful : clause.text.Doubtful policy.minimumConfidence) :
    ∃ a ∈ collectedAbstentions extraction policy, a.path = clausePath clause.clauseReference := by
  have hlength : (applyToClause policy clause).2.length = 1 := applyToValue_length.trans (if_pos hdoubtful)
  obtain ⟨a, hone⟩ := List.length_eq_one_iff.mp hlength
  have ha : a ∈ (applyToClause policy clause).2 := hone ▸ List.mem_singleton_self a
  refine ⟨a, List.mem_append_left _ (List.mem_append_right _ ?_), (mem_applyToValue ha).1⟩
  exact List.mem_flatMap.mpr ⟨_, List.mem_map_of_mem hclause, ha⟩

section

variable (hextraction : ContractExtractionSchema canonical extraction = true)
  (hpolicy : ContractExtractionAbstentionPolicySchema policy = true)
include hextraction hpolicy

theorem collected_generates (h : ContractExtractionSchema canonical (applied localeCompare extraction policy) = true) :
    (∃ questions, generateClarifyingQuestions sha256 localeCompare
        (StableSort.sort (compareAbstentions localeCompare) (collectedAbstentions extraction policy)) policy.version =
          .ok questions ∧
      (questions.map fun q => (q.path, q.status, q.reason, q.question)).Perm
        ((StableSort.sort (compareAbstentions localeCompare) (collectedAbstentions extraction policy)).map fun a =>
          (a.path, a.status, a.reason, a.clarificationQuestion))) ↔
      (collectedAbstentions extraction policy).length ≤ 30000 ∧
        ∀ a ∈ collectedAbstentions extraction policy, length a.path ≤ 1000 := by
  have hversion : boundedText 200 policy.version = true := by
    simp only [ContractExtractionAbstentionPolicySchema, Bool.and_eq_true] at hpolicy
    exact hpolicy.1.1.1.1
  have hsorted : (StableSort.sort (compareAbstentions localeCompare) (collectedAbstentions extraction policy)).Perm
      (collectedAbstentions extraction policy) := StableSort.sort_perm _
  have hwellformed := collected_wellformed hextraction hpolicy
  rw [generates_iff ((hsorted.map _).nodup_iff.mpr (collected_paths_nodup hextraction h)) hversion
    (fun a ha => (hwellformed a (hsorted.mem_iff.mp ha)).trimmed) fun a ha => (hwellformed a (hsorted.mem_iff.mp ha)).question,
    hsorted.length_eq]
  exact and_congr_right fun _ => forall_congr' fun a => imp_congr_left hsorted.mem_iff

variable (hgrammar : ∀ r ∈ policy.requiredFields, isFieldPath r.path = true)
include hgrammar

theorem fits_of_abstains (h : Abstains canonical localeCompare sha256 extraction policy) : Fits canonical extraction policy := by
  obtain ⟨result, hrun, hsafe⟩ := h
  obtain ⟨-, -, haccepted, rfl⟩ := (apply_eq_ok hgrammar).mp hrun
  obtain ⟨hfields, hpaths⟩ := (applied_accepted_iff hextraction hpolicy hgrammar).mp haccepted
  obtain ⟨hcount, hlengths⟩ := (collected_generates hextraction hpolicy haccepted).mp hsafe.questions
  refine ⟨hfields, hpaths, fun clause hclause hdoubtful => ?_, ?_⟩
  · obtain ⟨a, ha, hpath⟩ := clause_collected hclause hdoubtful
    exact hpath ▸ hlengths a ha
  · rw [← collected_length]
    exact hcount

theorem abstains_of_fits [Std.TransCmp localeCompare] (h : Fits canonical extraction policy) : Abstains canonical localeCompare sha256 extraction policy := by
  have haccepted := (@applied_accepted_iff canonical localeCompare extraction policy hextraction hpolicy hgrammar).mpr
    ⟨h.fields, h.paths⟩
  have hsorted : (StableSort.sort (compareAbstentions localeCompare) (collectedAbstentions extraction policy)).Perm
      (collectedAbstentions extraction policy) := StableSort.sort_perm _
  refine ⟨_, (apply_eq_ok hgrammar).mpr ⟨hextraction, hpolicy, haccepted, rfl⟩, found_kept, required_there,
    explained_once hextraction haccepted hsorted, ?_,
    (collected_generates hextraction hpolicy haccepted).mpr ⟨?_, fun a ha => ?_⟩⟩
  · refine ⟨_, (apply_eq_ok hgrammar).mpr ⟨haccepted, hpolicy, ?_, rfl⟩, applied_again⟩
    rw [applied_again]
    exact haccepted
  · rw [collected_length]
    exact h.count
  · rcases (collected_wellformed hextraction hpolicy a ha).short with hshort | ⟨clause, hclause, hdoubtful, hpath⟩
    · exact hshort
    · rw [hpath]
      exact h.clauses clause hclause hdoubtful

/-- The policy is applied fail-safe, and all questions can be asked, exactly if the schemas have room for them. -/
theorem abstains_iff [Std.TransCmp localeCompare] :
    Abstains canonical localeCompare sha256 extraction policy ↔ Fits canonical extraction policy :=
  ⟨fits_of_abstains hextraction hpolicy hgrammar, abstains_of_fits hextraction hpolicy hgrammar⟩

end

end

def asciiLower (s : String) : String := String.ofList (s.toList.map Char.toLower)

theorem half_isLiteral : (literal? "0.5".toList).isSome = true := by decide +kernel

def half : NumberText := ⟨"0.5".toList, half_isLiteral⟩

def paymentTerms : ExtractedContractValue := .found "30 days" none half [⟨1, "Net 30 days", none, some ⟨0, 11⟩⟩]

/-- A document with one field and one clause. -/
def termsExtraction (clauseReference : String) : ContractExtraction where
  sourceDocumentSha256 := String.ofList (List.replicate 64 '0')
  model := ⟨"m", "p"⟩
  fields := [⟨"netTerms", .DURATION, paymentTerms⟩]
  clauses := [⟨clauseReference, none, paymentTerms⟩]
  rateTables := []

/-- All has to be certain, and one field is required. -/
def strictPolicy (path : String) : ContractExtractionAbstentionPolicy := ⟨"v1", .ofNat 1, [⟨path, .TEXT, "What is it?"⟩]⟩

theorem termsExtraction_abstains : Abstains asciiLower compare id (termsExtraction "4.1") (strictPolicy "currency") :=
  (abstains_iff (by decide +kernel) (by decide +kernel) (by decide +kernel)).mpr
    ⟨by decide +kernel, by decide +kernel, by decide +kernel, by decide +kernel⟩

/-- What the schemas and the grammar of paths take. -/
def Admitted (extraction : ContractExtraction) (policy : ContractExtractionAbstentionPolicy) : Prop :=
  ContractExtractionSchema asciiLower extraction = true ∧ ContractExtractionAbstentionPolicySchema policy = true ∧
    ∀ r ∈ policy.requiredFields, isFieldPath r.path = true

/-- A reference that needs many escapes. -/
def controlReference (n : ℕ) : String := String.ofList ('a' :: (List.replicate n '\x01' ++ ['b']))

theorem units_replicate (c : Char) (n : ℕ) :
    (((List.replicate n c).flatMap escape).map fun d => if d.toNat < 0x10000 then 1 else 2).sum =
      n * ((escape c).map fun d => if d.toNat < 0x10000 then 1 else 2).sum := by
  induction n with
  | zero => rw [Nat.zero_mul]; rfl
  | succ n ih =>
    rw [List.replicate_succ, List.flatMap_cons, List.map_append, List.sum_append, ih, Nat.succ_mul, Nat.add_comm]

/-- Every control character of a reference is six in its path. -/
theorem length_quote_controlReference (n : ℕ) :
    6 * n ≤ length (String.ofList (quote (controlReference n))) := by
  have hcontrol : ((escape '\x01').map fun d => if d.toNat < 0x10000 then 1 else 2).sum = 6 := by decide
  have hmiddle := units_replicate '\x01' n
  rw [hcontrol] at hmiddle
  rw [length_ofList, quote, controlReference, String.toList_ofList, List.flatMap_cons, List.flatMap_append, List.map_cons, List.map_append,
    List.map_append, List.map_append, List.sum_cons, List.sum_append, List.sum_append, List.sum_append, hmiddle]
  omega

theorem length_quote_le (clauseReference : String) :
    length (String.ofList (quote clauseReference)) ≤ length (clausePath clauseReference) := by
  rw [clausePath, length_append, length_append]
  omega

theorem clausePath_controlReference {n : ℕ} (hn : 1000 < 6 * n) : 1000 < length (clausePath (controlReference n)) :=
  Nat.lt_of_lt_of_le hn (Nat.le_trans (length_quote_controlReference n) (length_quote_le _))

/-- The clause of `termsExtraction` is in doubt, whatever its reference. -/
theorem clausePath_le {clauseReference : String}
    (hadmitted : Admitted (termsExtraction clauseReference) (strictPolicy "currency"))
    (h : Abstains asciiLower compare id (termsExtraction clauseReference) (strictPolicy "currency")) :
    length (clausePath clauseReference) ≤ 1000 := by
  have hdoubtful : paymentTerms.Doubtful (.ofNat 1) := .inr (by decide +kernel)
  exact (fits_of_abstains hadmitted.1 hadmitted.2.1 hadmitted.2.2 h).clauses ⟨clauseReference, none, paymentTerms⟩
    (List.mem_singleton_self _) hdoubtful

/-- A required path that is a field's in another case, and a clause in doubt with a long path. -/
theorem strictPolicy_fails :
    (Admitted (termsExtraction "4.1") (strictPolicy "netterms") ∧
      ¬ Abstains asciiLower compare id (termsExtraction "4.1") (strictPolicy "netterms")) ∧
    (Admitted (termsExtraction (controlReference 200)) (strictPolicy "currency") ∧
      ¬ Abstains asciiLower compare id (termsExtraction (controlReference 200)) (strictPolicy "currency")) := by
  have hcase : Admitted (termsExtraction "4.1") (strictPolicy "netterms") :=
    ⟨by decide +kernel, by decide +kernel, by decide +kernel⟩
  have hcontrol : Admitted (termsExtraction (controlReference 200)) (strictPolicy "currency") :=
    ⟨by decide +kernel, by decide +kernel, by decide +kernel⟩
  refine ⟨⟨hcase, fun h => ?_⟩, hcontrol, fun h => ?_⟩
  · have hpaths := (fits_of_abstains hcase.1 hcase.2.1 hcase.2.2 h).paths
    exact absurd hpaths (by decide +kernel)
  · exact Nat.not_le_of_lt (clausePath_controlReference (by omega)) (clausePath_le hcontrol h)

end ContractExtractions
