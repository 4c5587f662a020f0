import FreightAuditor.Contracts.ProposedCriteria
import FreightAuditor.Library.CodeUnits
import FreightAuditor.Library.Collation
import FreightAuditor.Library.DecimalRef
import FreightAuditor.RuleEngine.Lifecycle

/- Proposed rules from the model's answer to the stored rows.

   `generateProposedCriteria` canonicalizes each rule of the answer, hashes it and lists its facts.
   `persistContractRuleProposals` trusts neither: it hashes the rule again and walks its stored form for the
   facts. The two walks meet the same keys in the same order (`collectFacts_toJson`), so what was generated is
   never refused for its hash or its facts (`persist_generated`). -/
namespace ProposedCriteria

open DecimalJs ExceptOk Json RuleEngine

def PROPOSED_CRITERIA_SCHEMA_VERSION : String := "proposed-criteria/1"
def PROPOSED_CRITERIA_PROMPT_VERSION : String := "contract-proposed-criteria/1"

/-- A criterion of the answer that the schema and the gates before it have passed. -/
structure ModelCriterion where
  criterionKey : String
  ruleType : RuleType
  description : String
  clauseReferences : List String
  citations : List Value
  ast : AstNode
  accepted : isAccepted ast = true

structure ProposedCriterion where
  criterionKey : String
  ruleType : RuleType
  description : String
  clauseReferences : List String
  citations : List Value
  ast : AstNode
  astHash : String
  expectedInputs : List String

def ruleTypeText : RuleType → String
  | .STRUCTURAL => "STRUCTURAL"
  | .INTRA_LINE => "INTRA_LINE"
  | .CROSS_REFERENCE => "CROSS_REFERENCE"
  | .CONTRACT_CONFORMANCE => "CONTRACT_CONFORMANCE"
  | .EXTERNAL_REFERENCE => "EXTERNAL_REFERENCE"
  | .CROSS_DOCUMENT => "CROSS_DOCUMENT"
  | .POLICY_ELIGIBILITY => "POLICY_ELIGIBILITY"

def textsJson (texts : List String) : Value := .arr (texts.map Value.str)

def ProposedCriterion.toJson (c : ProposedCriterion) : Value := .obj [
  ("criterionKey", .str c.criterionKey),
  ("kind", .str "SCORING"),
  ("ruleType", .str (ruleTypeText c.ruleType)),
  ("description", .str c.description),
  ("clauseReferences", textsJson c.clauseReferences),
  ("citations", .arr c.citations),
  ("ast", c.ast.toJson),
  ("astHash", .str c.astHash),
  ("expectedInputs", textsJson c.expectedInputs),
  ("lifecycleState", .str "PROPOSED")]

section

variable (localeCompare : String → String → Ordering) (sha256 : String → String)

def proposedCriterion (c : ModelCriterion) : ProposedCriterion :=
  let ast := canonicalizeAst localeCompare c.ast
  { criterionKey := c.criterionKey
    ruleType := c.ruleType
    description := c.description
    clauseReferences := c.clauseReferences
    citations := c.citations
    ast
    astHash := astHash sha256 ast
    expectedInputs := JsText.sortTexts (collectFactKeys [] ast) }

/-- From the parsed answer on. -/
def generateProposedCriteria (criteria : List ModelCriterion) : List ProposedCriterion :=
  StableSort.sort (fun a b => localeCompare a.criterionKey b.criterionKey)
    (criteria.map (proposedCriterion localeCompare sha256))

end

/-! ## The facts of a stored rule -/

/-- `keys.add(value.key)` at a `fact` or `require` node with a key. -/
def addFactOf (keys : List String) (fields : List (String × Value)) : List String :=
  match fields.lookup "type", fields.lookup "key" with
  | some (.str type), some (.str key) =>
    if (type = "fact" ∨ type = "require") ∧ key ≠ "" then addKey keys key else keys
  | _, _ => keys

mutual

/-- The walk over any value, in the order of the source: the node's key, then `then`, `left`, `right`, `args`. -/
def collectFacts (keys : List String) : Value → List String
  | .obj fields =>
    collectArgs (collectField "right" (collectField "left" (collectField "then" (addFactOf keys fields) fields) fields)
      fields) fields
  | _ => keys

def collectField (name : String) (keys : List String) : List (String × Value) → List String
  | [] => keys
  | (key, v) :: rest => if key = name then collectFacts keys v else collectField name keys rest

def collectArgs (keys : List String) : List (String × Value) → List String
  | [] => keys
  | (key, v) :: rest => if key = "args" then collectElems keys v else collectArgs keys rest

def collectElems (keys : List String) : Value → List String
  | .arr elems => collectEach keys elems
  | _ => keys

def collectEach (keys : List String) : List Value → List String
  | [] => keys
  | v :: rest => collectEach (collectFacts keys v) rest

end

/-! ## The store -/

/-- A verified version with the digest of its document. -/
structure VerifiedVersion where
  id : ℕ
  accountId : ℕ
  sourceDocumentId : ℕ
  extractionResponseHash : String
  verificationHash : String
  sha256 : String
  contractVersionId : ℕ

/-- A `persisted` event of a contract extraction. -/
structure ExtractionEvent where
  accountId : ℕ
  entityId : ℕ
  responseHash : String

structure ClauseRow where
  id : ℕ
  accountId : ℕ
  contractVersionId : ℕ
  clauseRef : String

structure ProposalRow where
  id : ℕ
  accountId : ℕ
  verifiedContractVersionId : ℕ
  criterion : ProposedCriterion
  proposalSchemaVersion : String
  modelId : String
  promptVersion : String
  providerMessageId : String
  requestKey : String
  sourceDocumentSha256 : String
  extractionResponseHash : String
  verificationHash : String
  proposalHash : String
  actorUserId : ℕ

structure ProposalClauseRow where
  accountId : ℕ
  proposalId : ℕ
  contractClauseId : ℕ
  citations : Value

structure ProposalEvent where
  accountId : ℕ
  entityId : ℕ
  requestKey : String
  actorUserId : ℕ
  detail : Value

structure ProposalDb where
  verifiedVersions : List VerifiedVersion
  extractionEvents : List ExtractionEvent
  clauses : List ClauseRow
  proposals : List ProposalRow
  proposalClauses : List ProposalClauseRow
  events : List ProposalEvent

structure PersistInput where
  clientId : ℕ
  verifiedContractVersionId : ℕ
  actorUserId : ℕ
  criteria : List ProposedCriterion
  modelId : String
  sourceDocumentSha256 : String
  requestKey : String
  providerMessageId : String

inductive ProposalPersistenceError where
  | VERIFIED_VERSION_NOT_FOUND | SOURCE_HASH_MISMATCH | EXTRACTION_NOT_FOUND | CLAUSE_NOT_FOUND | AST_HASH_MISMATCH
  | EXPECTED_INPUTS_MISMATCH | PARTIAL_CONFLICT
  /-- `AuditEventConflictError`. -/
  | AUDIT_EVENT_CONFLICT
  deriving DecidableEq

structure Persisted where
  proposalIds : List ℕ
  createdCount : ℕ

section

variable (sha256 : String → String)

def proposalHash (input : PersistInput) (verified : VerifiedVersion) (criterion : ProposedCriterion) : String :=
  sha256 (String.ofList (canonicalText (.obj [
    ("verifiedContractVersionId", .str (toString input.verifiedContractVersionId)),
    ("criterion", criterion.toJson),
    ("provider", .str "anthropic"),
    ("modelId", .str input.modelId),
    ("promptVersion", .str PROPOSED_CRITERIA_PROMPT_VERSION),
    ("providerMessageId", .str input.providerMessageId),
    ("requestKey", .str input.requestKey),
    ("extractionResponseHash", .str verified.extractionResponseHash),
    ("verificationHash", .str verified.verificationHash)])))

/-- The two unique indexes. -/
def conflicts (a b : ProposalRow) : Bool :=
  a.accountId = b.accountId ∧ (a.proposalHash = b.proposalHash ∨
    a.verifiedContractVersionId = b.verifiedContractVersionId ∧ a.criterion.criterionKey = b.criterion.criterionKey ∧
      a.criterion.astHash = b.criterion.astHash)

/-- The row of the proposal, whether it is new, and the tables. -/
def insertProposal (row : ProposalRow) (db : ProposalDb) : Except ProposalPersistenceError (ℕ × Bool × ProposalDb) :=
  if db.proposals.any (conflicts row) then
    match db.proposals.find? fun r => r.accountId = row.accountId ∧ r.proposalHash = row.proposalHash ∧
        r.verifiedContractVersionId = row.verifiedContractVersionId ∧
        r.criterion.criterionKey = row.criterion.criterionKey ∧ r.criterion.astHash = row.criterion.astHash with
    | some r => .ok (r.id, false, db)
    | none => .error .PARTIAL_CONFLICT
  else .ok (row.id, true, { db with proposals := db.proposals ++ [row] })

/-- The clause of a reference; the last of the rows, as in a `Map`. -/
def clauseId (clauses : List ClauseRow) (reference : String) : Option ℕ :=
  (clauses.reverse.find? (·.clauseRef = reference)).map ClauseRow.id

def relateClause (clientId proposalId : ℕ) (clauses : List ClauseRow) (citations : Value) (db : ProposalDb)
    (reference : String) : Except ProposalPersistenceError ProposalDb :=
  match clauseId clauses reference with
  | none => .error .CLAUSE_NOT_FOUND
  | some contractClauseId =>
    let same (r : ProposalClauseRow) : Bool :=
      r.accountId = clientId ∧ r.proposalId = proposalId ∧ r.contractClauseId = contractClauseId
    if db.proposalClauses.any same then
      if db.proposalClauses.any fun r => same r && canonicalText r.citations == canonicalText citations then .ok db
      else .error .PARTIAL_CONFLICT
    else .ok { db with proposalClauses := db.proposalClauses ++ [⟨clientId, proposalId, contractClauseId, citations⟩] }

/-- One round of the loop over the criteria. -/
def persistCriterion (input : PersistInput) (verified : VerifiedVersion) (clauses : List ClauseRow)
    (st : Persisted × ProposalDb) (criterion : ProposedCriterion) :
    Except ProposalPersistenceError (Persisted × ProposalDb) := do
  if astHash sha256 criterion.ast ≠ criterion.astHash then throw .AST_HASH_MISMATCH
  let expectedInputs := JsText.sortTexts (collectFacts [] criterion.ast.toJson)
  if canonicalText (textsJson expectedInputs) ≠ canonicalText (textsJson criterion.expectedInputs) then
    throw .EXPECTED_INPUTS_MISMATCH
  let row : ProposalRow :=
    { id := st.2.proposals.length
      accountId := input.clientId
      verifiedContractVersionId := input.verifiedContractVersionId
      criterion
      proposalSchemaVersion := PROPOSED_CRITERIA_SCHEMA_VERSION
      modelId := input.modelId
      promptVersion := PROPOSED_CRITERIA_PROMPT_VERSION
      providerMessageId := input.providerMessageId
      requestKey := input.requestKey
      sourceDocumentSha256 := input.sourceDocumentSha256
      extractionResponseHash := verified.extractionResponseHash
      verificationHash := verified.verificationHash
      proposalHash := proposalHash sha256 input verified criterion
      actorUserId := input.actorUserId }
  let (id, created, db) ← insertProposal row st.2
  let db ← (JsText.sortTexts criterion.clauseReferences).foldlM
    (relateClause input.clientId id clauses (.arr criterion.citations)) db
  return (⟨st.1.proposalIds ++ [id], if created then st.1.createdCount + 1 else st.1.createdCount⟩, db)

def eventDetail (input : PersistInput) (verified : VerifiedVersion) (persisted : Persisted) : Value := .obj [
  ("proposalIds", textsJson (persisted.proposalIds.map toString)),
  ("proposalCount", .num (.ofNat persisted.proposalIds.length)),
  ("requestKey", .str input.requestKey),
  ("modelId", .str input.modelId),
  ("promptVersion", .str PROPOSED_CRITERIA_PROMPT_VERSION),
  ("providerMessageId", .str input.providerMessageId),
  ("extractionResponseHash", .str verified.extractionResponseHash),
  ("verificationHash", .str verified.verificationHash)]

/-- One event for the tenant, the version and the request. -/
def writeProposalEvent (event : ProposalEvent) (db : ProposalDb) : Except ProposalPersistenceError ProposalDb :=
  match db.events.find? fun e => e.accountId = event.accountId ∧ e.entityId = event.entityId ∧
      e.requestKey = event.requestKey with
  | none => .ok { db with events := db.events ++ [event] }
  | some e =>
    if e.actorUserId = event.actorUserId ∧ canonicalText e.detail = canonicalText event.detail then .ok db
    else .error .AUDIT_EVENT_CONFLICT

def persistContractRuleProposals (input : PersistInput) (db : ProposalDb) :
    Except ProposalPersistenceError (Persisted × ProposalDb) := do
  match db.verifiedVersions.find? fun v => v.id = input.verifiedContractVersionId ∧ v.accountId = input.clientId with
  | none => throw .VERIFIED_VERSION_NOT_FOUND
  | some verified =>
    if verified.sha256 ≠ input.sourceDocumentSha256 then throw .SOURCE_HASH_MISMATCH
    if ¬ db.extractionEvents.any fun e => e.accountId = input.clientId ∧ e.entityId = verified.sourceDocumentId ∧
        e.responseHash = verified.extractionResponseHash then throw .EXTRACTION_NOT_FOUND
    let clauses := db.clauses.filter fun c => c.accountId = input.clientId ∧
      c.contractVersionId = verified.contractVersionId
    if (input.criteria.flatMap ProposedCriterion.clauseReferences).any fun r => (clauseId clauses r).isNone then
      throw .CLAUSE_NOT_FOUND
    let (persisted, db) ← input.criteria.foldlM (persistCriterion sha256 input verified clauses) (⟨[], 0⟩, db)
    let db ← writeProposalEvent ⟨input.clientId, input.verifiedContractVersionId, input.requestKey, input.actorUserId,
      eventDetail input verified persisted⟩ db
    return (persisted, db)

end

/-! ## Two walks, one list of facts -/

/-- The walk over the stored form of a rule meets its facts in the order of the walk over the rule. -/
theorem collectFacts_toJson (n : AstNode) (h : ∀ key, Mentions n key → key ≠ "") :
    ∀ keys, collectFacts keys n.toJson = collectFactKeys keys n := by
  have hall {args : List AstNode} (ih : ∀ a ∈ args, ∀ keys, collectFacts keys a.toJson = collectFactKeys keys a) :
      ∀ keys, collectEach keys (argsToJson args) = collectAllFactKeys keys args := by
    induction args with
    | nil => exact fun _ => rfl
    | cons a rest ihrest =>
      intro keys
      obtain ⟨ha, hrest⟩ := List.forall_mem_cons.mp ih
      rw [argsToJson, collectEach, ha, ihrest hrest, collectAllFactKeys]
  induction n using AstNode.induction with
  | lit v => exact fun keys => rfl
  | money amount currency => exact fun keys => rfl
  | fact key =>
    intro keys
    have hkey : key ≠ "" := h key (.fact key)
    have hadd : addFactOf keys [("type", .str "fact"), ("key", .str key)] = addKey keys key := if_pos ⟨.inl rfl, hkey⟩
    rw [collectFactKeys, ← hadd]
    rfl
  | arith op args ih =>
    exact hall fun a ha => ih a ha fun key hkey => h key (.arith op args a ha key hkey)
  | compare op left right tolerance ihl ihr =>
    intro keys
    rw [collectFactKeys, ← ihl fun key hkey => h key (.left op left right tolerance key hkey),
      ← ihr fun key hkey => h key (.right op left right tolerance key hkey)]
    cases tolerance with
    | none => rfl
    | some t => rfl
  | logic op args ih =>
    exact hall fun a ha => ih a ha fun key hkey => h key (.logic op args a ha key hkey)
  | require key thenNode ih =>
    intro keys
    have hkey : key ≠ "" := h key (.required key thenNode)
    have hadd : addFactOf keys [("type", .str "require"), ("key", .str key), ("then", thenNode.toJson)] = addKey keys key :=
      if_pos ⟨.inr rfl, hkey⟩
    rw [collectFactKeys, ← ih fun asked hasked => h asked (.require key thenNode asked hasked), ← hadd]
    rfl

/-- A proposal asks for facts of the list only. -/
theorem mentions_proposable {n : AstNode} {asked : String} (h : Mentions n asked) (hn : isProposalAst n = true) :
    asked ∈ PROPOSABLE_FACT_KEYS := by
  induction h with
  | fact key => exact List.contains_iff_mem.mp hn
  | required key thenNode =>
    simp only [isProposalAst, Bool.and_eq_true] at hn
    exact List.contains_iff_mem.mp hn.1
  | require key thenNode asked _ ih =>
    simp only [isProposalAst, Bool.and_eq_true] at hn
    exact ih hn.2
  | left op left right tolerance asked _ ih =>
    simp only [isProposalAst, Bool.and_eq_true] at hn
    exact ih hn.1.2
  | right op left right tolerance asked _ ih =>
    simp only [isProposalAst, Bool.and_eq_true] at hn
    exact ih hn.2
  | logic op args a ha asked _ ih =>
    simp only [isProposalAst, Bool.and_eq_true] at hn
    exact ih (areProposalAsts_iff.mp hn.2 a ha)
  | arith op args a ha asked _ ih => cases hn

section

variable {localeCompare : String → String → Ordering} {sha256 : String → String}

/-- A generated criterion states its hash and its facts as they are found again. -/
theorem generated_states {criteria : List ModelCriterion} {c : ProposedCriterion}
    (h : c ∈ generateProposedCriteria localeCompare sha256 criteria) :
    astHash sha256 c.ast = c.astHash ∧ JsText.sortTexts (collectFacts [] c.ast.toJson) = c.expectedInputs := by
  obtain ⟨m, -, rfl⟩ := List.mem_map.mp (StableSort.mem_sort.mp h)
  have haccepted := m.accepted
  simp only [isAccepted, Bool.and_eq_true] at haccepted
  refine ⟨rfl, congrArg JsText.sortTexts (collectFacts_toJson _ (fun key hkey => ?_) [])⟩
  have hmem := mentions_proposable ((mentions_canonicalizeAst localeCompare m.ast key).mp hkey) haccepted.1.1
  intro hempty
  rw [hempty] at hmem
  exact absurd hmem (by decide)

/-- The two errors about what a criterion states. -/
def IsMismatch (e : ProposalPersistenceError) : Prop := e = .AST_HASH_MISMATCH ∨ e = .EXPECTED_INPUTS_MISMATCH

theorem error_ne {α : Type} {e e' : ProposalPersistenceError} (he : IsMismatch e) (he' : ¬ IsMismatch e') :
    (.error e' : Except ProposalPersistenceError α) ≠ .error e := fun h => he' (Except.error.inj h ▸ he)

theorem not_isMismatch : ¬ IsMismatch .VERIFIED_VERSION_NOT_FOUND ∧ ¬ IsMismatch .SOURCE_HASH_MISMATCH ∧
    ¬ IsMismatch .EXTRACTION_NOT_FOUND ∧ ¬ IsMismatch .CLAUSE_NOT_FOUND ∧ ¬ IsMismatch .PARTIAL_CONFLICT ∧
    ¬ IsMismatch .AUDIT_EVENT_CONFLICT := by
  unfold IsMismatch
  decide

theorem ite_throw_ne {α : Type} {c : Prop} [Decidable c] {e e' : ProposalPersistenceError}
    {x : Except ProposalPersistenceError α} (he : IsMismatch e) (he' : ¬ IsMismatch e') (hx : x ≠ .error e) :
    (if c then throw e' else x) ≠ .error e := by
  split
  · exact error_ne he he'
  · exact hx

theorem insertProposal_ne {row : ProposalRow} {db : ProposalDb} {e : ProposalPersistenceError} (he : IsMismatch e) :
    insertProposal row db ≠ .error e := by
  unfold insertProposal
  split
  · split
    · exact fun h => by cases h
    · exact error_ne he not_isMismatch.2.2.2.2.1
  · exact fun h => by cases h

theorem relateClause_ne {clientId proposalId : ℕ} {clauses : List ClauseRow} {citations : Value} {db : ProposalDb}
    {reference : String} {e : ProposalPersistenceError} (he : IsMismatch e) :
    relateClause clientId proposalId clauses citations db reference ≠ .error e := by
  unfold relateClause
  split
  · exact error_ne he not_isMismatch.2.2.2.1
  · dsimp only
    split
    · split
      · exact fun h => by cases h
      · exact error_ne he not_isMismatch.2.2.2.2.1
    · exact fun h => by cases h

theorem writeProposalEvent_ne {event : ProposalEvent} {db : ProposalDb} {e : ProposalPersistenceError} (he : IsMismatch e) :
    writeProposalEvent event db ≠ .error e := by
  unfold writeProposalEvent
  split
  · exact fun h => by cases h
  · split
    · exact fun h => by cases h
    · exact error_ne he not_isMismatch.2.2.2.2.2

/-- A criterion that states its hash and its facts is not refused for them. -/
theorem persistCriterion_ne {input : PersistInput} {verified : VerifiedVersion} {clauses : List ClauseRow}
    {st : Persisted × ProposalDb} {c : ProposedCriterion} {e : ProposalPersistenceError} (he : IsMismatch e)
    (hhash : astHash sha256 c.ast = c.astHash) (hfacts : JsText.sortTexts (collectFacts [] c.ast.toJson) = c.expectedInputs) :
    persistCriterion sha256 input verified clauses st c ≠ .error e := by
  unfold persistCriterion
  rw [if_neg (not_not_intro hhash), hfacts, if_neg (not_not_intro rfl)]
  refine bind_ne_error (insertProposal_ne he) fun _ _ => ?_
  exact bind_ne_error (foldlM_ne_error (fun _ _ _ => relateClause_ne he) _) fun _ _ h => by cases h

/-- What was generated is not refused for a hash or for its facts, whatever the store has. -/
theorem persist_generated {input : PersistInput} {criteria : List ModelCriterion} {e : ProposalPersistenceError}
    (hinput : input.criteria = generateProposedCriteria localeCompare sha256 criteria) (he : IsMismatch e) (db : ProposalDb) :
    persistContractRuleProposals sha256 input db ≠ .error e := by
  obtain ⟨hversion, hsource, hextraction, hclause, -, -⟩ := not_isMismatch
  unfold persistContractRuleProposals
  split
  · exact error_ne he hversion
  · refine ite_throw_ne he hsource (ite_throw_ne he hextraction (ite_throw_ne he hclause ?_))
    refine bind_ne_error (foldlM_ne_error (fun st c hc => ?_) _) fun _ _ => ?_
    · rw [hinput] at hc
      obtain ⟨hhash, hfacts⟩ := generated_states hc
      exact persistCriterion_ne he hhash hfacts
    · exact bind_ne_error (writeProposalEvent_ne he) fun _ _ h => by cases h

/-- A proposal has one form, and what is generated from proposals is stored, exactly if ties are decided. -/
theorem proposals_canonical_iff (D : Type) [Decimal D] [Std.TransCmp localeCompare] (hsha : Function.Injective sha256) :
    (∀ ast, isAccepted ast = true → (HasOneForm D localeCompare sha256 ast ↔ Decided localeCompare ast)) ∧
    ∀ (input : PersistInput) (criteria : List ModelCriterion) (db : ProposalDb),
      input.criteria = generateProposedCriteria localeCompare sha256 criteria →
        persistContractRuleProposals sha256 input db ≠ .error .AST_HASH_MISMATCH ∧
        persistContractRuleProposals sha256 input db ≠ .error .EXPECTED_INPUTS_MISMATCH :=
  ⟨fun _ h => hasOneForm_iff hsha h, fun _ _ db hinput =>
    ⟨persist_generated hinput (.inl rfl) db, persist_generated hinput (.inr rfl) db⟩⟩

end

/-- The fuel category has the text. -/
def fuelIs (text : String) : AstNode := .compare .eq (.fact "has_fuel_category") (.lit (.string text)) none

def untiedRule : AstNode := .logic .or [fuelIs "diesel", fuelIs "coop"]

theorem untiedRule_accepted : isAccepted untiedRule = true := by decide

theorem untiedRule_oneForm :
    HasOneForm Ref hyphenless id untiedRule ∧
    persistContractRuleProposals id ⟨1, 2, 3, generateProposedCriteria hyphenless id
      [⟨"CONTRACT.PROPOSED.FUEL", .STRUCTURAL, "fuel", ["1"], [], untiedRule, untiedRule_accepted⟩], "m", "s", "k", "p"⟩
      ⟨[], [], [], [], [], []⟩ ≠ .error .AST_HASH_MISMATCH := by
  obtain ⟨hform, hstored⟩ := @proposals_canonical_iff hyphenless id Ref _ _ Function.injective_id
  refine ⟨(hform untiedRule untiedRule_accepted).mpr ⟨⟨⟨trivial, trivial⟩, ⟨trivial, trivial⟩, trivial⟩, fun _ => ?_⟩,
    (hstored _ _ _ rfl).1⟩
  decide +kernel

/-- Two operands that the collation does not tell apart. -/
def tiedRule : AstNode := .logic .or [fuelIs "coop", fuelIs "co\u00adop"]

def swappedRule : AstNode := .logic .or [fuelIs "co\u00adop", fuelIs "coop"]

/-- The rule with its operands the other way round has another hash. -/
theorem tiedRule_twoHashes : isAccepted tiedRule = true ∧ Rearranged tiedRule swappedRule ∧
    astHash id (canonicalizeAst hyphenless swappedRule) ≠ astHash id (canonicalizeAst hyphenless tiedRule) ∧
    ¬ HasOneForm Ref hyphenless id tiedRule := by
  have hswapped : Rearranged tiedRule swappedRule := .single (.operands .or _ _ (by decide) (List.Perm.swap _ _ _))
  have hhash : astHash id (canonicalizeAst hyphenless swappedRule) ≠ astHash id (canonicalizeAst hyphenless tiedRule) := by
    decide +kernel
  exact ⟨by decide, hswapped, hhash, fun hform => hhash (hform.oneHash swappedRule _ hswapped .refl)⟩

end ProposedCriteria
