import FreightAuditor.Contracts.RequestKeys

/- The results of one request, stored one after another.

   What was accepted once is accepted again, with the same ids and nothing new (`persist_again`). Another result
   for the same document has the same request key, and the key names one event: the second result is refused
   unless it says what the first one said (`accepted_iff`). -/
namespace ProposedCriteria

open ContractExtractions ExceptOk Json Runs

/-- An answer of the model for one version, with who stores it. -/
structure ProposalResult where
  actorUserId : ℕ
  criteria : List ModelCriterion
  distinct : (criteria.map ModelCriterion.criterionKey).Nodup
  providerMessageId : String

/-- One tenant's verified version, with the model that is asked about its document. -/
structure ProposalContext where
  clientId : ℕ
  verifiedContractVersionId : ℕ
  modelId : String
  sourceDocumentSha256 : String

section

variable (localeCompare : String → String → Ordering) (sha256 : String → String)

def ProposalContext.requestKey (ctx : ProposalContext) : String :=
  sha256 (requestText ctx.modelId PROPOSED_CRITERIA_PROMPT_VERSION ctx.sourceDocumentSha256)

def ProposalContext.input (ctx : ProposalContext) (r : ProposalResult) : PersistInput where
  clientId := ctx.clientId
  verifiedContractVersionId := ctx.verifiedContractVersionId
  actorUserId := r.actorUserId
  criteria := generateProposedCriteria localeCompare sha256 r.criteria
  modelId := ctx.modelId
  sourceDocumentSha256 := ctx.sourceDocumentSha256
  requestKey := ctx.requestKey sha256
  providerMessageId := r.providerMessageId

/-- A result that is refused changes nothing. -/
def storeResult (ctx : ProposalContext) (db : ProposalDb) (r : ProposalResult) : Option ProposalDb :=
  some (match persistContractRuleProposals sha256 (ctx.input localeCompare sha256 r) db with
    | .ok (_, db') => db'
    | .error _ => db)

/-- The result is accepted, and stored again it creates nothing and has the same ids. -/
def Accepted (ctx : ProposalContext) (db : ProposalDb) (r : ProposalResult) : Prop :=
  ∃ persisted db', persistContractRuleProposals sha256 (ctx.input localeCompare sha256 r) db = .ok (persisted, db') ∧
    persistContractRuleProposals sha256 (ctx.input localeCompare sha256 r) db' = .ok (⟨persisted.proposalIds, 0⟩, db')

end

/-- What the result is checked against is stored: its version with the document's digest, the extraction and the
clauses that it refers to. -/
def Storable (ctx : ProposalContext) (db : ProposalDb) (r : ProposalResult) : Prop :=
  ∃ verified, db.verifiedVersions.find? (fun v => v.id = ctx.verifiedContractVersionId ∧ v.accountId = ctx.clientId) =
      some verified ∧
    verified.sha256 = ctx.sourceDocumentSha256 ∧
    (∃ e ∈ db.extractionEvents, e.accountId = ctx.clientId ∧ e.entityId = verified.sourceDocumentId ∧
      e.responseHash = verified.extractionResponseHash) ∧
    ∀ c ∈ r.criteria, ∀ reference ∈ c.clauseReferences, ∃ clause ∈ db.clauses, clause.accountId = ctx.clientId ∧
      clause.contractVersionId = verified.contractVersionId ∧ clause.clauseRef = reference

/-- One user stores one message of the model with the same criteria. -/
structure SameResult (localeCompare : String → String → Ordering) (sha256 : String → String) (r r' : ProposalResult) :
    Prop where
  actor : r.actorUserId = r'.actorUserId
  message : r.providerMessageId = r'.providerMessageId
  criteria : (generateProposedCriteria localeCompare sha256 r.criteria).map (fun c => sortKeys c.toJson) =
    (generateProposedCriteria localeCompare sha256 r'.criteria).map fun c => sortKeys c.toJson

/-- No proposal and no event of the version. -/
structure Unproposed (ctx : ProposalContext) (db : ProposalDb) : Prop where
  proposals : ∀ row ∈ db.proposals,
    ¬ (row.accountId = ctx.clientId ∧ row.verifiedContractVersionId = ctx.verifiedContractVersionId)
  events : ∀ e ∈ db.events, ¬ (e.accountId = ctx.clientId ∧ e.entityId = ctx.verifiedContractVersionId)

/-! ## The tables -/

/-- The invariant of the tables of proposals. -/
structure Kept (sha256 : String → String) (db : ProposalDb) : Prop where
  ids : db.proposals.map ProposalRow.id = List.range db.proposals.length
  distinct : db.proposals.Pairwise fun a b => ¬ conflicts a b = true
  hashes : ∀ row ∈ db.proposals, ∃ input verified, row.proposalHash = proposalHash sha256 input verified row.criterion ∧
    input.verifiedContractVersionId = row.verifiedContractVersionId
  relations : ∀ relation ∈ db.proposalClauses, relation.proposalId < db.proposals.length

/-- The later tables have what the earlier ones had. -/
structure Grown (db db' : ProposalDb) : Prop where
  verifiedVersions : db'.verifiedVersions = db.verifiedVersions
  extractionEvents : db'.extractionEvents = db.extractionEvents
  clauses : db'.clauses = db.clauses
  proposals : db.proposals <+: db'.proposals
  proposalClauses : db.proposalClauses <+: db'.proposalClauses
  events : db.events <+: db'.events

theorem Grown.refl (db : ProposalDb) : Grown db db :=
  ⟨rfl, rfl, rfl, List.prefix_rfl, List.prefix_rfl, List.prefix_rfl⟩

theorem Grown.trans {a b c : ProposalDb} (hab : Grown a b) (hbc : Grown b c) : Grown a c where
  verifiedVersions := hbc.verifiedVersions.trans hab.verifiedVersions
  extractionEvents := hbc.extractionEvents.trans hab.extractionEvents
  clauses := hbc.clauses.trans hab.clauses
  proposals := hab.proposals.trans hbc.proposals
  proposalClauses := hab.proposalClauses.trans hbc.proposalClauses
  events := hab.events.trans hbc.events

section

variable {sha256 : String → String} {db db' : ProposalDb}

theorem Kept.id_lt (hkept : Kept sha256 db) {row : ProposalRow} (hrow : row ∈ db.proposals) :
    row.id < db.proposals.length :=
  List.mem_range.mp (hkept.ids ▸ List.mem_map_of_mem hrow)

theorem Kept.row_eq (hkept : Kept sha256 db) {row row' : ProposalRow} (hrow : row ∈ db.proposals)
    (hrow' : row' ∈ db.proposals) (hid : row.id = row'.id) : row = row' := by
  have hnodup : (db.proposals.map ProposalRow.id).Nodup := hkept.ids ▸ List.nodup_range
  exact List.inj_on_of_nodup_map hnodup hrow hrow' hid

theorem conflicts_comm (a b : ProposalRow) : conflicts a b = conflicts b a := by
  simp only [conflicts, eq_comm]

instance : Std.Symm fun a b : ProposalRow => ¬ conflicts a b = true where
  symm a b h := by
    rw [conflicts_comm]
    exact h

/-- Two rows that share a hash in one account are one row. -/
theorem Kept.hash_eq (hkept : Kept sha256 db) {row row' : ProposalRow} (hrow : row ∈ db.proposals)
    (hrow' : row' ∈ db.proposals) (haccount : row.accountId = row'.accountId)
    (hhash : row.proposalHash = row'.proposalHash) : row = row' := by
  by_contra hne
  exact hkept.distinct.forall hrow hrow' hne (decide_eq_true ⟨haccount, .inl hhash⟩)

end

/-! ## The clauses of a proposal -/

/-- The clause of the reference is related to the proposal, with these citations. -/
def Related (clientId proposalId : ℕ) (clauses : List ClauseRow) (citations : Value) (db : ProposalDb)
    (reference : String) : Prop :=
  ∃ contractClauseId, clauseId clauses reference = some contractClauseId ∧ ∃ relation ∈ db.proposalClauses,
    relation.accountId = clientId ∧ relation.proposalId = proposalId ∧ relation.contractClauseId = contractClauseId ∧
      canonicalText relation.citations = canonicalText citations

section

variable {clientId proposalId : ℕ} {clauses : List ClauseRow} {citations : Value} {db db' : ProposalDb}
  {reference : String} {references : List String}

theorem Related.mono (h : Related clientId proposalId clauses citations db reference)
    (hgrown : db.proposalClauses <+: db'.proposalClauses) : Related clientId proposalId clauses citations db' reference := by
  obtain ⟨contractClauseId, hclause, relation, hrelation, hsame⟩ := h
  exact ⟨contractClauseId, hclause, relation, hgrown.subset hrelation, hsame⟩

theorem relateClause_ok (h : relateClause clientId proposalId clauses citations db reference = .ok db') :
    ∃ rows, db' = { db with proposalClauses := db.proposalClauses ++ rows } ∧
      (∀ row ∈ rows, row.proposalId = proposalId) ∧ Related clientId proposalId clauses citations db' reference := by
  unfold relateClause at h
  cases hclause : clauseId clauses reference with
  | none =>
    rw [hclause] at h
    cases h
  | some contractClauseId =>
    rw [hclause] at h
    dsimp only at h
    split at h
    · split at h
      · rename_i hsame
        cases h
        obtain ⟨relation, hrelation, hsame⟩ := List.any_eq_true.mp hsame
        simp only [Bool.and_eq_true, decide_eq_true_eq, beq_iff_eq] at hsame
        obtain ⟨⟨haccount, hproposal, hclauseId⟩, hcitations⟩ := hsame
        refine ⟨[], by rw [List.append_nil], fun row hrow => absurd hrow List.not_mem_nil, ?_⟩
        exact ⟨contractClauseId, hclause, relation, hrelation, haccount, hproposal, hclauseId, hcitations⟩
      · cases h
    · cases h
      refine ⟨[⟨clientId, proposalId, contractClauseId, citations⟩], rfl, fun row hrow => ?_, ?_⟩
      · rw [List.mem_singleton.mp hrow]
      · exact ⟨contractClauseId, hclause, _, List.mem_append_right _ (List.mem_singleton_self _), rfl, rfl, rfl, rfl⟩

theorem relateAll_ok : ∀ {references : List String} {db : ProposalDb},
    references.foldlM (relateClause clientId proposalId clauses citations) db = .ok db' →
    ∃ rows, db' = { db with proposalClauses := db.proposalClauses ++ rows } ∧
      (∀ row ∈ rows, row.proposalId = proposalId) ∧
      ∀ reference ∈ references, Related clientId proposalId clauses citations db' reference := by
  intro references
  induction references with
  | nil =>
    intro db h
    cases h
    exact ⟨[], by rw [List.append_nil], fun row hrow => absurd hrow List.not_mem_nil,
      fun reference hreference => absurd hreference List.not_mem_nil⟩
  | cons reference rest ih =>
    intro db h
    rw [List.foldlM_cons, bind_eq_ok] at h
    obtain ⟨mid, hmid, h⟩ := h
    obtain ⟨rows, rfl, hrows, hrelated⟩ := relateClause_ok hmid
    obtain ⟨rows', rfl, hrows', hrest⟩ := ih h
    refine ⟨rows ++ rows', by rw [List.append_assoc], fun row hrow => ?_, fun r hr => ?_⟩
    · cases List.mem_append.mp hrow with
      | inl hrow => exact hrows row hrow
      | inr hrow => exact hrows' row hrow
    · cases List.mem_cons.mp hr with
      | inl heq => exact heq ▸ hrelated.mono (List.prefix_append _ _)
      | inr hr => exact hrest r hr

theorem relateClause_again (h : Related clientId proposalId clauses citations db reference) :
    relateClause clientId proposalId clauses citations db reference = .ok db := by
  obtain ⟨contractClauseId, hclause, relation, hrelation, haccount, hproposal, hclauseId, hcitations⟩ := h
  unfold relateClause
  rw [hclause]
  dsimp only
  rw [if_pos, if_pos]
  · refine List.any_eq_true.mpr ⟨relation, hrelation, ?_⟩
    simp only [haccount, hproposal, hclauseId, hcitations, and_self, decide_true, beq_self_eq_true, Bool.and_self]
  · exact List.any_eq_true.mpr ⟨relation, hrelation, decide_eq_true ⟨haccount, hproposal, hclauseId⟩⟩

theorem relateAll_again (h : ∀ reference ∈ references, Related clientId proposalId clauses citations db reference) :
    references.foldlM (relateClause clientId proposalId clauses citations) db = .ok db := by
  induction references with
  | nil => rfl
  | cons reference rest ih =>
    obtain ⟨hfirst, hrest⟩ := List.forall_mem_cons.mp h
    rw [List.foldlM_cons, relateClause_again hfirst]
    exact ih hrest

/-- A proposal whose relations all have its citations takes any clause that there is. -/
theorem relateAll_fresh (hfresh : ∀ relation ∈ db.proposalClauses, relation.proposalId = proposalId →
      canonicalText relation.citations = canonicalText citations)
    (hclauses : ∀ reference ∈ references, (clauseId clauses reference).isSome = true) :
    ∃ db', references.foldlM (relateClause clientId proposalId clauses citations) db = .ok db' := by
  induction references generalizing db with
  | nil => exact ⟨db, rfl⟩
  | cons reference rest ih =>
    obtain ⟨hfirst, hrest⟩ := List.forall_mem_cons.mp hclauses
    obtain ⟨contractClauseId, hclause⟩ := Option.isSome_iff_exists.mp hfirst
    rw [List.foldlM_cons]
    by_cases hsome : ∃ relation ∈ db.proposalClauses, relation.accountId = clientId ∧ relation.proposalId = proposalId ∧
        relation.contractClauseId = contractClauseId
    · obtain ⟨relation, hrelation, haccount, hproposal, hclauseId⟩ := hsome
      rw [relateClause_again ⟨contractClauseId, hclause, relation, hrelation, haccount, hproposal, hclauseId,
        hfresh relation hrelation hproposal⟩]
      exact ih hfresh hrest
    · have hnone : ¬ (db.proposalClauses.any fun r =>
          r.accountId = clientId ∧ r.proposalId = proposalId ∧ r.contractClauseId = contractClauseId) = true := by
        intro hany
        obtain ⟨relation, hrelation, hsame⟩ := List.any_eq_true.mp hany
        exact hsome ⟨relation, hrelation, of_decide_eq_true hsame⟩
      have hnew : relateClause clientId proposalId clauses citations db reference = .ok
          { db with proposalClauses := db.proposalClauses ++ [⟨clientId, proposalId, contractClauseId, citations⟩] } := by
        unfold relateClause
        rw [hclause]
        exact if_neg hnone
      rw [hnew]
      refine ih (fun relation hrelation hproposal => ?_) hrest
      cases List.mem_append.mp hrelation with
      | inl hrelation => exact hfresh relation hrelation hproposal
      | inr hrelation => rw [List.mem_singleton.mp hrelation]

end

/-! ## One criterion -/

/-- The row that a criterion is stored as. -/
def proposalRow (sha256 : String → String) (input : PersistInput) (verified : VerifiedVersion) (id : ℕ)
    (criterion : ProposedCriterion) : ProposalRow where
  id := id
  accountId := input.clientId
  verifiedContractVersionId := input.verifiedContractVersionId
  criterion := criterion
  proposalSchemaVersion := PROPOSED_CRITERIA_SCHEMA_VERSION
  modelId := input.modelId
  promptVersion := PROPOSED_CRITERIA_PROMPT_VERSION
  providerMessageId := input.providerMessageId
  requestKey := input.requestKey
  sourceDocumentSha256 := input.sourceDocumentSha256
  extractionResponseHash := verified.extractionResponseHash
  verificationHash := verified.verificationHash
  proposalHash := proposalHash sha256 input verified criterion
  actorUserId := input.actorUserId

/-- The criterion's hash and facts are what they say. -/
def States (sha256 : String → String) (c : ProposedCriterion) : Prop :=
  astHash sha256 c.ast = c.astHash ∧ JsText.sortTexts (collectFacts [] c.ast.toJson) = c.expectedInputs

/-- The criterion is stored under the id, with its clauses. -/
structure Held (sha256 : String → String) (input : PersistInput) (verified : VerifiedVersion) (clauses : List ClauseRow)
    (db : ProposalDb) (c : ProposedCriterion) (id : ℕ) : Prop where
  row : ∃ row ∈ db.proposals, row.id = id ∧ row.accountId = input.clientId ∧
    row.proposalHash = proposalHash sha256 input verified c ∧
    row.verifiedContractVersionId = input.verifiedContractVersionId ∧
    row.criterion.criterionKey = c.criterionKey ∧ row.criterion.astHash = c.astHash
  related : ∀ reference ∈ c.clauseReferences, Related input.clientId id clauses (.arr c.citations) db reference

section

variable {sha256 : String → String} {input : PersistInput} {verified : VerifiedVersion} {clauses : List ClauseRow}
  {db db' : ProposalDb} {c : ProposedCriterion} {cs : List ProposedCriterion} {p p' : Persisted} {id : ℕ} {ids : List ℕ}

theorem Held.mono (h : Held sha256 input verified clauses db c id) (hgrown : Grown db db') :
    Held sha256 input verified clauses db' c id where
  row := by
    obtain ⟨row, hrow, hsame⟩ := h.row
    exact ⟨row, hgrown.proposals.subset hrow, hsame⟩
  related reference hreference := (h.related reference hreference).mono hgrown.proposalClauses

theorem Kept.insert (hkept : Kept sha256 db) (hfree : ∀ r ∈ db.proposals,
      ¬ conflicts (proposalRow sha256 input verified db.proposals.length c) r = true) :
    Kept sha256 { db with proposals := db.proposals ++ [proposalRow sha256 input verified db.proposals.length c] } where
  ids := by
    rw [List.map_append, hkept.ids, List.length_append, List.length_singleton, List.range_succ]
    rfl
  distinct := by
    refine List.pairwise_append.mpr ⟨hkept.distinct, List.pairwise_singleton _ _, fun a ha b hb => ?_⟩
    rw [List.mem_singleton.mp hb, conflicts_comm]
    exact hfree a ha
  hashes row hrow := by
    cases List.mem_append.mp hrow with
    | inl hrow => exact hkept.hashes row hrow
    | inr hrow =>
      rw [List.mem_singleton.mp hrow]
      exact ⟨input, verified, rfl, rfl⟩
  relations relation hrelation := by
    have hlt := hkept.relations relation hrelation
    rw [List.length_append]
    exact Nat.lt_add_right _ hlt

theorem Kept.relate {rows : List ProposalClauseRow} (hkept : Kept sha256 db)
    (hrows : ∀ row ∈ rows, row.proposalId < db.proposals.length) :
    Kept sha256 { db with proposalClauses := db.proposalClauses ++ rows } where
  ids := hkept.ids
  distinct := hkept.distinct
  hashes := hkept.hashes
  relations relation hrelation := by
    cases List.mem_append.mp hrelation with
    | inl hrelation => exact hkept.relations relation hrelation
    | inr hrelation => exact hrows relation hrelation

/-- The row is there, as it is or as it was. -/
theorem insertProposal_ok {row : ProposalRow} {created : Bool} (h : insertProposal row db = .ok (id, created, db')) :
    (db' = db ∧ ∃ r ∈ db.proposals, r.id = id ∧ r.accountId = row.accountId ∧ r.proposalHash = row.proposalHash ∧
      r.verifiedContractVersionId = row.verifiedContractVersionId ∧ r.criterion.criterionKey = row.criterion.criterionKey ∧
      r.criterion.astHash = row.criterion.astHash) ∨
    (id = row.id ∧ db' = { db with proposals := db.proposals ++ [row] } ∧ ∀ r ∈ db.proposals, ¬ conflicts row r = true) := by
  unfold insertProposal at h
  split at h
  · split at h
    · rename_i r hfind
      simp only [Except.ok.injEq, Prod.mk.injEq] at h
      obtain ⟨rfl, -, rfl⟩ := h
      have hsame := List.find?_some hfind
      rw [decide_eq_true_eq] at hsame
      exact .inl ⟨rfl, r, List.mem_of_find?_eq_some hfind, rfl, hsame⟩
    · cases h
  · rename_i hfree
    simp only [Except.ok.injEq, Prod.mk.injEq] at h
    obtain ⟨rfl, -, rfl⟩ := h
    exact .inr ⟨rfl, rfl, fun r hr hconflict => hfree (List.any_eq_true.mpr ⟨r, hr, hconflict⟩)⟩

theorem persistCriterion_ok (hkept : Kept sha256 db)
    (h : persistCriterion sha256 input verified clauses (p, db) c = .ok (p', db')) :
    Kept sha256 db' ∧ Grown db db' ∧ db'.events = db.events ∧
      ∃ id, p'.proposalIds = p.proposalIds ++ [id] ∧ Held sha256 input verified clauses db' c id := by
  simp only [persistCriterion, throw_bind, ite_throw_eq_ok, bind_eq_ok, pure_eq_ok, Prod.exists, Prod.mk.injEq] at h
  obtain ⟨-, -, id, created, mid, hinsert, after, hrelate, rfl, rfl⟩ := h
  obtain ⟨rows, rfl, hrows, hrelated⟩ := relateAll_ok hrelate
  have hreferences : ∀ reference ∈ c.clauseReferences, Related input.clientId id clauses (.arr c.citations)
      { mid with proposalClauses := mid.proposalClauses ++ rows } reference := fun reference hreference =>
    hrelated reference ((JsText.sortTexts_perm _).mem_iff.mpr hreference)
  cases insertProposal_ok hinsert with
  | inl hold =>
    obtain ⟨rfl, row, hrow, rfl, hsame⟩ := hold
    have hlt := hkept.id_lt hrow
    refine ⟨hkept.relate fun r hr => by rw [hrows r hr]; exact hlt,
      ⟨rfl, rfl, rfl, List.prefix_rfl, List.prefix_append _ _, List.prefix_rfl⟩, rfl, row.id, rfl, ⟨row, hrow, rfl, hsame⟩, hreferences⟩
  | inr hnew =>
    obtain ⟨rfl, rfl, hfree⟩ := hnew
    have hinserted := hkept.insert hfree
    refine ⟨hinserted.relate fun r hr => ?_,
      ⟨rfl, rfl, rfl, List.prefix_append _ _, List.prefix_append _ _, List.prefix_rfl⟩, rfl, _, rfl,
      ⟨_, ?_, rfl, rfl, rfl, rfl, rfl, rfl⟩,
      hreferences⟩
    · rw [hrows r hr, List.length_append]
      exact Nat.lt_succ_self _
    · exact List.mem_append_right _ (List.mem_singleton_self _)

/-- The row of a proposal that is stored is found. -/
theorem insertProposal_again {row stored : ProposalRow} (hkept : Kept sha256 db) (hstored : stored ∈ db.proposals)
    (haccount : stored.accountId = row.accountId) (hhash : stored.proposalHash = row.proposalHash)
    (hversion : stored.verifiedContractVersionId = row.verifiedContractVersionId)
    (hkey : stored.criterion.criterionKey = row.criterion.criterionKey)
    (hast : stored.criterion.astHash = row.criterion.astHash) : insertProposal row db = .ok (stored.id, false, db) := by
  unfold insertProposal
  rw [if_pos (List.any_eq_true.mpr ⟨stored, hstored, decide_eq_true ⟨haccount.symm, .inl hhash.symm⟩⟩)]
  split
  · rename_i r hfind
    have hsame := List.find?_some hfind
    rw [decide_eq_true_eq] at hsame
    rw [hkept.hash_eq (List.mem_of_find?_eq_some hfind) hstored (hsame.1.trans haccount.symm)
      (hsame.2.1.trans hhash.symm)]
  · rename_i hfind
    exact absurd (decide_eq_true ⟨haccount, hhash, hversion, hkey, hast⟩) (List.find?_eq_none.mp hfind stored hstored)

theorem persistCriterion_again (hkept : Kept sha256 db) (hstates : States sha256 c)
    (hheld : Held sha256 input verified clauses db c id) :
    persistCriterion sha256 input verified clauses (p, db) c = .ok (⟨p.proposalIds ++ [id], p.createdCount⟩, db) := by
  obtain ⟨row, hrow, rfl, haccount, hhash, hversion, hkey, hast⟩ := hheld.row
  have hinsert : insertProposal (proposalRow sha256 input verified db.proposals.length c) db = .ok (row.id, false, db) :=
    insertProposal_again hkept hrow haccount hhash hversion hkey hast
  have hrelate := relateAll_again fun reference hreference =>
    hheld.related reference ((JsText.sortTexts_perm _).mem_iff.mp hreference)
  simp only [persistCriterion, throw_bind, ite_throw_eq_ok, bind_eq_ok, pure_eq_ok, Prod.exists, Prod.mk.injEq]
  exact ⟨not_not_intro hstates.1, not_not_intro (by rw [hstates.2]), row.id, false, db, hinsert, db, hrelate, rfl, rfl⟩

theorem persistCriteria_ok : ∀ {cs : List ProposedCriterion} {p : Persisted} {db : ProposalDb}, Kept sha256 db →
    cs.foldlM (persistCriterion sha256 input verified clauses) (p, db) = .ok (p', db') →
    Kept sha256 db' ∧ Grown db db' ∧ db'.events = db.events ∧ ∃ ids, p'.proposalIds = p.proposalIds ++ ids ∧
      List.Forall₂ (Held sha256 input verified clauses db') cs ids := by
  intro cs
  induction cs with
  | nil =>
    intro p db hkept h
    cases h
    exact ⟨hkept, .refl _, rfl, [], by rw [List.append_nil], .nil⟩
  | cons c rest ih =>
    intro p db hkept h
    rw [List.foldlM_cons, bind_eq_ok] at h
    obtain ⟨⟨mid, dbMid⟩, hmid, h⟩ := h
    obtain ⟨hkeptMid, hgrown, hevents, id, hid, hheld⟩ := persistCriterion_ok hkept hmid
    obtain ⟨hkept', hgrown', hevents', ids, hids, hrest⟩ := ih hkeptMid h
    refine ⟨hkept', hgrown.trans hgrown', hevents'.trans hevents, id :: ids, ?_, .cons (hheld.mono hgrown') hrest⟩
    rw [hids, hid, List.append_assoc, List.singleton_append]

theorem persistCriteria_again (hkept : Kept sha256 db) (hstates : ∀ c ∈ cs, States sha256 c)
    (hheld : List.Forall₂ (Held sha256 input verified clauses db) cs ids) :
    cs.foldlM (persistCriterion sha256 input verified clauses) (p, db) =
      .ok (⟨p.proposalIds ++ ids, p.createdCount⟩, db) := by
  induction hheld generalizing p with
  | nil =>
    rw [List.append_nil]
    rfl
  | @cons c id rest ids hfirst _ ih =>
    obtain ⟨hc, hrest⟩ := List.forall_mem_cons.mp hstates
    rw [List.foldlM_cons, persistCriterion_again hkept hc hfirst]
    refine (ih hrest).trans ?_
    rw [List.append_assoc, List.singleton_append]

/-! ## A result that is stored -/

/-- The event of the request. -/
def requestEvent (input : PersistInput) (db : ProposalDb) : Option ProposalEvent :=
  db.events.find? fun e => e.accountId = input.clientId ∧ e.entityId = input.verifiedContractVersionId ∧
    e.requestKey = input.requestKey

/-- The version that is proposed for. -/
def verifiedVersion (input : PersistInput) (db : ProposalDb) : Option VerifiedVersion :=
  db.verifiedVersions.find? fun v => v.id = input.verifiedContractVersionId ∧ v.accountId = input.clientId

def versionClauses (input : PersistInput) (verified : VerifiedVersion) (db : ProposalDb) : List ClauseRow :=
  db.clauses.filter fun c => c.accountId = input.clientId ∧ c.contractVersionId = verified.contractVersionId

/-- What the function asks for before it stores anything. -/
structure Guarded (input : PersistInput) (verified : VerifiedVersion) (db : ProposalDb) : Prop where
  version : verifiedVersion input db = some verified
  digest : verified.sha256 = input.sourceDocumentSha256
  extraction : ∃ e ∈ db.extractionEvents, e.accountId = input.clientId ∧ e.entityId = verified.sourceDocumentId ∧
    e.responseHash = verified.extractionResponseHash
  references : ∀ c ∈ input.criteria, ∀ reference ∈ c.clauseReferences,
    (clauseId (versionClauses input verified db) reference).isSome = true

/-- The whole result is stored under the ids. -/
structure Stored (sha256 : String → String) (input : PersistInput) (verified : VerifiedVersion) (ids : List ℕ)
    (db : ProposalDb) : Prop where
  guarded : Guarded input verified db
  held : List.Forall₂ (Held sha256 input verified (versionClauses input verified db) db) input.criteria ids
  event : ∃ e, requestEvent input db = some e ∧ e.actorUserId = input.actorUserId ∧
    canonicalText e.detail = canonicalText (eventDetail input verified ⟨ids, 0⟩)

theorem Guarded.grown (h : Guarded input verified db) (hgrown : Grown db db') : Guarded input verified db' where
  version := by
    rw [verifiedVersion, hgrown.verifiedVersions]
    exact h.version
  digest := h.digest
  extraction := by
    rw [hgrown.extractionEvents]
    exact h.extraction
  references := by
    rw [versionClauses, hgrown.clauses]
    exact h.references

theorem Stored.mono (h : Stored sha256 input verified ids db) (hgrown : Grown db db') :
    Stored sha256 input verified ids db' where
  guarded := h.guarded.grown hgrown
  held := by
    rw [versionClauses, hgrown.clauses]
    exact h.held.imp fun c id hheld => hheld.mono hgrown
  event := by
    obtain ⟨e, he, hsame⟩ := h.event
    obtain ⟨later, hlater⟩ := hgrown.events
    refine ⟨e, ?_, hsame⟩
    rw [requestEvent, ← hlater, List.find?_append]
    rw [requestEvent] at he
    rw [he]
    rfl

/-- The function as its guards and what follows them. -/
theorem persist_eq_ok : persistContractRuleProposals sha256 input db = .ok (p, db') ↔
    ∃ verified, Guarded input verified db ∧ ∃ mid,
      input.criteria.foldlM (persistCriterion sha256 input verified (versionClauses input verified db)) (⟨[], 0⟩, db) =
        .ok (p, mid) ∧
      writeProposalEvent ⟨input.clientId, input.verifiedContractVersionId, input.requestKey, input.actorUserId,
        eventDetail input verified p⟩ mid = .ok db' := by
  unfold persistContractRuleProposals
  cases hversion : verifiedVersion input db with
  | none =>
    have hfind := hversion
    rw [verifiedVersion] at hfind
    rw [hfind]
    refine iff_of_false (fun h => by cases h) fun h => ?_
    obtain ⟨verified, hguarded, -⟩ := h
    rw [hguarded.version] at hversion
    cases hversion
  | some verified =>
    have hfind := hversion
    rw [verifiedVersion] at hfind
    rw [hfind]
    simp only [throw_bind, ite_throw_eq_ok, bind_eq_ok, pure_eq_ok, Prod.exists, Prod.mk.injEq, not_not, ne_eq]
    constructor
    · intro h
      obtain ⟨hdigest, hextraction, hreferences, q, mid, hfold, after, hwrite, rfl, rfl⟩ := h
      refine ⟨verified, ⟨hversion, hdigest, ?_, fun c hc reference hreference => ?_⟩, mid, hfold, hwrite⟩
      · obtain ⟨e, he, hsame⟩ := List.any_eq_true.mp hextraction
        exact ⟨e, he, of_decide_eq_true hsame⟩
      · by_contra hnone
        refine hreferences (List.any_eq_true.mpr ⟨reference, List.mem_flatMap.mpr ⟨c, hc, hreference⟩, ?_⟩)
        exact Option.isNone_iff_eq_none.mpr (Option.not_isSome_iff_eq_none.mp hnone)
    · intro h
      obtain ⟨verified', hguarded, mid, hfold, hwrite⟩ := h
      obtain rfl : verified = verified' := Option.some.inj (hversion.symm.trans hguarded.version)
      refine ⟨hguarded.digest, ?_, fun hnone => ?_, p, mid, hfold, db', hwrite, rfl, rfl⟩
      · obtain ⟨e, he, hsame⟩ := hguarded.extraction
        exact List.any_eq_true.mpr ⟨e, he, decide_eq_true hsame⟩
      · obtain ⟨reference, hreference, hisNone⟩ := List.any_eq_true.mp hnone
        obtain ⟨c, hc, hmem⟩ := List.mem_flatMap.mp hreference
        have hisSome := hguarded.references c hc reference hmem
        rw [versionClauses] at hisSome
        rw [Option.isNone_iff_eq_none.mp hisNone] at hisSome
        cases hisSome

theorem writeProposalEvent_ok {event : ProposalEvent} (h : writeProposalEvent event db = .ok db') :
    ∃ rows, db' = { db with events := db.events ++ rows } ∧
      ∃ e, db'.events.find? (fun e => e.accountId = event.accountId ∧ e.entityId = event.entityId ∧
          e.requestKey = event.requestKey) = some e ∧
        e.actorUserId = event.actorUserId ∧ canonicalText e.detail = canonicalText event.detail := by
  unfold writeProposalEvent at h
  split at h
  · rename_i hnone
    cases h
    refine ⟨[event], rfl, event, ?_, rfl, rfl⟩
    rw [List.find?_append, hnone, Option.none_or]
    exact List.find?_cons_of_pos (decide_eq_true ⟨rfl, rfl, rfl⟩)
  · rename_i e hfind
    split at h
    · rename_i hsame
      cases h
      exact ⟨[], by rw [List.append_nil], e, hfind, hsame⟩
    · cases h

theorem writeProposalEvent_new {event : ProposalEvent}
    (h : ∀ e ∈ db.events, ¬ (e.accountId = event.accountId ∧ e.entityId = event.entityId)) :
    writeProposalEvent event db = .ok { db with events := db.events ++ [event] } := by
  unfold writeProposalEvent
  split
  · rfl
  · rename_i e hfind
    have hkey := List.find?_some hfind
    rw [decide_eq_true_eq] at hkey
    exact absurd ⟨hkey.1, hkey.2.1⟩ (h e (List.mem_of_find?_eq_some hfind))

/-- The invariant is kept, and what is accepted is stored. -/
theorem persist_stored (hkept : Kept sha256 db) (h : persistContractRuleProposals sha256 input db = .ok (p, db')) :
    Kept sha256 db' ∧ Grown db db' ∧ ∃ verified, Stored sha256 input verified p.proposalIds db' := by
  obtain ⟨verified, hguarded, mid, hfold, hwrite⟩ := persist_eq_ok.mp h
  obtain ⟨hkeptMid, hgrown, -, ids, hids, hheld⟩ := persistCriteria_ok hkept hfold
  rw [List.nil_append] at hids
  obtain ⟨rows, rfl, hevent⟩ := writeProposalEvent_ok hwrite
  have hwritten : Grown mid { mid with events := mid.events ++ rows } :=
    ⟨rfl, rfl, rfl, List.prefix_rfl, List.prefix_rfl, List.prefix_append _ _⟩
  have hall := hgrown.trans hwritten
  have hclauses : versionClauses input verified { mid with events := mid.events ++ rows } =
      versionClauses input verified db := by
    rw [versionClauses, hall.clauses, versionClauses]
  refine ⟨⟨hkeptMid.ids, hkeptMid.distinct, hkeptMid.hashes, hkeptMid.relations⟩, hall, verified,
    hguarded.grown hall, ?_, hevent⟩
  rw [hids, hclauses]
  exact hheld.imp fun c id hc => hc.mono hwritten

/-- A result that is stored is accepted, with the ids that it has. -/
theorem stored_again (hkept : Kept sha256 db) (hstates : ∀ c ∈ input.criteria, States sha256 c)
    (hstored : Stored sha256 input verified ids db) :
    persistContractRuleProposals sha256 input db = .ok (⟨ids, 0⟩, db) := by
  obtain ⟨e, he, hsame⟩ := hstored.event
  refine persist_eq_ok.mpr ⟨verified, hstored.guarded, db, persistCriteria_again hkept hstates hstored.held, ?_⟩
  rw [requestEvent] at he
  unfold writeProposalEvent
  rw [he]
  exact if_pos hsame

/-- What is accepted once is accepted again, with the same ids and nothing new. -/
theorem persist_again (hkept : Kept sha256 db) (hstates : ∀ c ∈ input.criteria, States sha256 c)
    (h : persistContractRuleProposals sha256 input db = .ok (p, db')) :
    persistContractRuleProposals sha256 input db' = .ok (⟨p.proposalIds, 0⟩, db') := by
  obtain ⟨hkept', -, verified, hstored⟩ := persist_stored hkept h
  exact stored_again hkept' hstates hstored

/-! ## One request, one result -/

theorem toString_injective : Function.Injective fun n : ℕ => toString n :=
  fun _ _ h => JsText.toDigits_injective (String.ofList_inj.mp h)

theorem proposalHash_inj {input' : PersistInput} {verified' : VerifiedVersion} {c' : ProposedCriterion}
    (hsha : Function.Injective sha256)
    (h : proposalHash sha256 input verified c = proposalHash sha256 input' verified' c') :
    input.verifiedContractVersionId = input'.verifiedContractVersionId ∧ sortKeys c.toJson = sortKeys c'.toJson := by
  have hjson := canonicalText_inj.mp (String.ofList_inj.mp (hsha h))
  exact ⟨toString_injective (Value.str.inj (value_eq "verifiedContractVersionId" hjson rfl rfl)),
    value_eq "criterion" hjson rfl rfl⟩

theorem proposalHash_congr {input' : PersistInput} {c' : ProposedCriterion}
    (hversion : input.verifiedContractVersionId = input'.verifiedContractVersionId)
    (hmodel : input.modelId = input'.modelId) (hmessage : input.providerMessageId = input'.providerMessageId)
    (hrequest : input.requestKey = input'.requestKey) (hc : sortKeys c.toJson = sortKeys c'.toJson) :
    proposalHash sha256 input verified c = proposalHash sha256 input' verified c' := by
  simp only [proposalHash, canonicalText, sortKeys, sortFields, hversion, hmodel, hmessage, hrequest, hc]

theorem textsJson_toString_injective : Function.Injective fun ids : List ℕ => sortKeys (textsJson (ids.map toString)) :=
  textsJson_injective.comp (List.map_injective_iff.mpr toString_injective)

/-- What the order of its keys does not change of a criterion. -/
theorem criterion_eq {c c' : ProposedCriterion} (h : sortKeys c.toJson = sortKeys c'.toJson) :
    c.criterionKey = c'.criterionKey ∧ c.astHash = c'.astHash ∧ c.clauseReferences = c'.clauseReferences ∧
      canonicalText (.arr c.citations) = canonicalText (.arr c'.citations) :=
  ⟨Value.str.inj (value_eq "criterionKey" h rfl rfl), Value.str.inj (value_eq "astHash" h rfl rfl),
    textsJson_injective (value_eq "clauseReferences" h rfl rfl), canonicalText_inj.mpr (value_eq "citations" h rfl rfl)⟩

/-- Criteria with the same JSON, one by one. -/
def SameCriteria (cs cs' : List ProposedCriterion) : Prop :=
  List.Forall₂ (fun c c' => sortKeys c.toJson = sortKeys c'.toJson) cs cs'

theorem sameCriteria_iff {cs cs' : List ProposedCriterion} :
    SameCriteria cs cs' ↔ cs.map (fun c => sortKeys c.toJson) = cs'.map fun c => sortKeys c.toJson := by
  rw [← List.forall₂_eq_eq_eq, List.forall₂_map_left_iff, List.forall₂_map_right_iff]
  exact Iff.rfl

/-- The proposals under one id are one row, and its hash is that of both criteria. -/
theorem held_same {input' : PersistInput} {verified' : VerifiedVersion} {clauses' : List ClauseRow}
    (hsha : Function.Injective sha256) (hkept : Kept sha256 db)
    (h : List.Forall₂ (Held sha256 input verified clauses db) cs ids) : ∀ {cs' : List ProposedCriterion},
    List.Forall₂ (Held sha256 input' verified' clauses' db) cs' ids → SameCriteria cs cs' := by
  induction h with
  | nil =>
    intro cs' h'
    cases h'
    exact .nil
  | @cons c id rest ids hc _ ih =>
    intro cs' h'
    cases h' with
    | @cons c' _ rest' _ hc' hrest' =>
      obtain ⟨row, hrow, hid, -, hhash, -⟩ := hc.row
      obtain ⟨row', hrow', hid', -, hhash', -⟩ := hc'.row
      obtain rfl := hkept.row_eq hrow hrow' (hid.trans hid'.symm)
      exact .cons (proposalHash_inj hsha (hhash.symm.trans hhash')).2 (ih hrest')

end

section

variable {localeCompare : String → String → Ordering} {sha256 : String → String} {ctx : ProposalContext}
  {r r' : ProposalResult} {verified verified' : VerifiedVersion} {ids ids' : List ℕ} {db db' : ProposalDb}

/-- Two results that are both stored say the same: their key names one event. -/
theorem stored_same (hsha : Function.Injective sha256) (hkept : Kept sha256 db)
    (h : Stored sha256 (ctx.input localeCompare sha256 r) verified ids db)
    (h' : Stored sha256 (ctx.input localeCompare sha256 r') verified' ids' db) : SameResult localeCompare sha256 r r' := by
  obtain ⟨e, he, hactor, hdetail⟩ := h.event
  obtain ⟨e', he', hactor', hdetail'⟩ := h'.event
  obtain rfl : e = e' := Option.some.inj (he.symm.trans he')
  have hjson := canonicalText_inj.mp (hdetail.symm.trans hdetail')
  obtain rfl : ids = ids' := textsJson_toString_injective (value_eq "proposalIds" hjson rfl rfl)
  exact ⟨hactor.symm.trans hactor', Value.str.inj (value_eq "providerMessageId" hjson rfl rfl),
    sameCriteria_iff.mp (held_same hsha hkept h.held h'.held)⟩

theorem Held.of_same {c c' : ProposedCriterion} {clauses : List ClauseRow} {id : ℕ}
    (hsame : SameResult localeCompare sha256 r r') (hc : sortKeys c.toJson = sortKeys c'.toJson)
    (h : Held sha256 (ctx.input localeCompare sha256 r) verified clauses db c id) :
    Held sha256 (ctx.input localeCompare sha256 r') verified clauses db c' id := by
  obtain ⟨hkey, hast, hreferences, hcitations⟩ := criterion_eq hc
  refine ⟨?_, fun reference hreference => ?_⟩
  · obtain ⟨row, hrow, hid, haccount, hhash, hversion, hrowKey, hrowAst⟩ := h.row
    exact ⟨row, hrow, hid, haccount, hhash.trans (proposalHash_congr rfl rfl hsame.message rfl hc), hversion,
      hrowKey.trans hkey, hrowAst.trans hast⟩
  · obtain ⟨contractClauseId, hclause, relation, hrelation, haccount, hproposal, hclauseId, hequal⟩ :=
      h.related reference (hreferences ▸ hreference)
    exact ⟨contractClauseId, hclause, relation, hrelation, haccount, hproposal, hclauseId, hequal.trans hcitations⟩

theorem held_of_same {cs cs' : List ProposedCriterion} {clauses : List ClauseRow}
    (hsame : SameResult localeCompare sha256 r r') (hcs : SameCriteria cs cs') : ∀ {ids : List ℕ},
    List.Forall₂ (Held sha256 (ctx.input localeCompare sha256 r) verified clauses db) cs ids →
      List.Forall₂ (Held sha256 (ctx.input localeCompare sha256 r') verified clauses db) cs' ids := by
  induction hcs with
  | nil =>
    intro ids h
    cases h
    exact .nil
  | cons hc _ ih =>
    intro ids h
    cases h with
    | cons hheld hrest => exact .cons (hheld.of_same hsame hc) (ih hrest)

/-- Where one result is stored, a result that says the same is stored. -/
theorem Stored.of_same (hsame : SameResult localeCompare sha256 r r')
    (h : Stored sha256 (ctx.input localeCompare sha256 r) verified ids db) :
    Stored sha256 (ctx.input localeCompare sha256 r') verified ids db := by
  have hcriteria := sameCriteria_iff.mpr hsame.criteria
  refine ⟨⟨h.guarded.version, h.guarded.digest, h.guarded.extraction, fun c' hc' reference hreference => ?_⟩,
    held_of_same hsame hcriteria h.held, ?_⟩
  · obtain ⟨c, hc, hequal⟩ := (exists_of_forall₂ hcriteria).2 c' hc'
    exact h.guarded.references c hc reference ((criterion_eq hequal).2.2.1 ▸ hreference)
  · obtain ⟨e, he, hactor, hdetail⟩ := h.event
    refine ⟨e, he, hactor.trans hsame.actor, hdetail.trans ?_⟩
    have hmessage : (ctx.input localeCompare sha256 r).providerMessageId =
      (ctx.input localeCompare sha256 r').providerMessageId := hsame.message
    rw [eventDetail, eventDetail, hmessage]
    rfl

theorem generated_all_state (r : ProposalResult) :
    ∀ c ∈ generateProposedCriteria localeCompare sha256 r.criteria, States sha256 c :=
  fun _ hc => generated_states hc

theorem SameResult.symm (h : SameResult localeCompare sha256 r r') : SameResult localeCompare sha256 r' r :=
  ⟨h.actor.symm, h.message.symm, h.criteria.symm⟩

theorem SameResult.trans {r'' : ProposalResult} (h : SameResult localeCompare sha256 r r')
    (h' : SameResult localeCompare sha256 r' r'') : SameResult localeCompare sha256 r r'' :=
  ⟨h.actor.trans h'.actor, h.message.trans h'.message, h.criteria.trans h'.criteria⟩

/-- After a first result, exactly the results that say the same are accepted. -/
theorem accepted_iff (hsha : Function.Injective sha256) (hkept : Kept sha256 db)
    (h : Stored sha256 (ctx.input localeCompare sha256 r) verified ids db) :
    Accepted localeCompare sha256 ctx db r' ↔ SameResult localeCompare sha256 r r' := by
  constructor
  · intro haccepted
    obtain ⟨persisted, db', hpersist, -⟩ := haccepted
    obtain ⟨hkept', hgrown, verified', hstored⟩ := persist_stored hkept hpersist
    exact stored_same hsha hkept' (h.mono hgrown) hstored
  · intro hsame
    have hagain := stored_again hkept (generated_all_state r') (h.of_same hsame)
    exact ⟨⟨ids, 0⟩, db, hagain, hagain⟩

/-- After a first result, no result moves the tables. -/
theorem storeResult_again (hsha : Function.Injective sha256) (hkept : Kept sha256 db)
    (h : Stored sha256 (ctx.input localeCompare sha256 r) verified ids db) :
    storeResult localeCompare sha256 ctx db r' = some db := by
  unfold storeResult
  cases hpersist : persistContractRuleProposals sha256 (ctx.input localeCompare sha256 r') db with
  | error e => rfl
  | ok out =>
    obtain ⟨persisted, db'⟩ := out
    obtain ⟨hkept', hgrown, verified', hstored⟩ := persist_stored hkept hpersist
    have hsame := stored_same hsha hkept' (h.mono hgrown) hstored
    rw [stored_again hkept (generated_all_state r') (h.of_same hsame)] at hpersist
    cases hpersist
    rfl

/-! ## The first result -/

theorem clauseId_isSome {clauses : List ClauseRow} {reference : String} :
    (clauseId clauses reference).isSome = true ↔ ∃ clause ∈ clauses, clause.clauseRef = reference := by
  rw [clauseId, Option.isSome_map, List.find?_isSome]
  simp only [List.mem_reverse, decide_eq_true_eq]

theorem mem_versionClauses {input : PersistInput} {clause : ClauseRow} :
    clause ∈ versionClauses input verified db ↔ clause ∈ db.clauses ∧ clause.accountId = input.clientId ∧
      clause.contractVersionId = verified.contractVersionId := by
  rw [versionClauses, List.mem_filter, decide_eq_true_eq]

theorem storable_iff : Storable ctx db r ↔ ∃ verified, Guarded (ctx.input localeCompare sha256 r) verified db := by
  constructor
  · intro h
    obtain ⟨verified, hversion, hdigest, hextraction, hclauses⟩ := h
    refine ⟨verified, hversion, hdigest, hextraction, fun c hc reference hreference => ?_⟩
    obtain ⟨m, hm, rfl⟩ := List.mem_map.mp (StableSort.mem_sort.mp hc)
    obtain ⟨clause, hclause, haccount, hversionId, href⟩ := hclauses m hm reference hreference
    exact clauseId_isSome.mpr ⟨clause, mem_versionClauses.mpr ⟨hclause, haccount, hversionId⟩, href⟩
  · intro h
    obtain ⟨verified, hguarded⟩ := h
    refine ⟨verified, hguarded.version, hguarded.digest, hguarded.extraction, fun m hm reference hreference => ?_⟩
    have hc : proposedCriterion localeCompare sha256 m ∈ (ctx.input localeCompare sha256 r).criteria :=
      StableSort.mem_sort.mpr (List.mem_map_of_mem hm)
    obtain ⟨clause, hclause, href⟩ := clauseId_isSome.mp (hguarded.references _ hc reference hreference)
    obtain ⟨hmem, haccount, hversionId⟩ := mem_versionClauses.mp hclause
    exact ⟨clause, hmem, haccount, hversionId, href⟩

/-- A proposal is in conflict with nothing but a proposal of its version with its key. -/
theorem not_conflicts {input : PersistInput} {c : ProposedCriterion} {n : ℕ} (hsha : Function.Injective sha256)
    (hkept : Kept sha256 db) (hfree : ∀ row ∈ db.proposals, row.accountId = input.clientId →
      row.verifiedContractVersionId = input.verifiedContractVersionId → row.criterion.criterionKey ≠ c.criterionKey) :
    ∀ row ∈ db.proposals, ¬ conflicts (proposalRow sha256 input verified n c) row = true := by
  intro row hrow hconflict
  obtain ⟨haccount, hreason⟩ := of_decide_eq_true hconflict
  cases hreason with
  | inl hhash =>
    obtain ⟨input', verified', hrowHash, hrowVersion⟩ := hkept.hashes row hrow
    obtain ⟨hversion, hjson⟩ := proposalHash_inj hsha (hhash.trans hrowHash)
    exact hfree row hrow haccount.symm (hrowVersion.symm.trans hversion.symm) (criterion_eq hjson).1.symm
  | inr hsame => exact hfree row hrow haccount.symm hsame.1.symm hsame.2.1.symm

theorem persistCriterion_fresh {input : PersistInput} {clauses : List ClauseRow} {c : ProposedCriterion} {p : Persisted}
    (hkept : Kept sha256 db) (hstates : States sha256 c) (hfree : ∀ row ∈ db.proposals,
      ¬ conflicts (proposalRow sha256 input verified db.proposals.length c) row = true)
    (hclauses : ∀ reference ∈ c.clauseReferences, (clauseId clauses reference).isSome = true) :
    ∃ p' db', persistCriterion sha256 input verified clauses (p, db) c = .ok (p', db') ∧
      db'.proposals = db.proposals ++ [proposalRow sha256 input verified db.proposals.length c] := by
  have hinsert : insertProposal (proposalRow sha256 input verified db.proposals.length c) db = .ok
      (db.proposals.length, true,
        { db with proposals := db.proposals ++ [proposalRow sha256 input verified db.proposals.length c] }) :=
    if_neg fun hany => by
      obtain ⟨row, hrow, hconflict⟩ := List.any_eq_true.mp hany
      exact hfree row hrow hconflict
  obtain ⟨db', hrelate⟩ := @relateAll_fresh input.clientId db.proposals.length clauses (.arr c.citations)
    { db with proposals := db.proposals ++ [proposalRow sha256 input verified db.proposals.length c] }
    (JsText.sortTexts c.clauseReferences)
    (fun relation hrelation hproposal => absurd hproposal (hkept.relations relation hrelation).ne)
    fun reference hreference => hclauses reference ((JsText.sortTexts_perm _).mem_iff.mp hreference)
  obtain ⟨rows, hdb', -, -⟩ := relateAll_ok hrelate
  refine ⟨⟨p.proposalIds ++ [db.proposals.length], p.createdCount + 1⟩, db', ?_, by rw [hdb']⟩
  simp only [persistCriterion, throw_bind, ite_throw_eq_ok, bind_eq_ok, pure_eq_ok, Prod.exists, Prod.mk.injEq]
  exact ⟨not_not_intro hstates.1, not_not_intro (by rw [hstates.2]), _, _, _, hinsert, db', hrelate, rfl, rfl⟩

theorem persistCriteria_fresh {input : PersistInput} {clauses : List ClauseRow} (hsha : Function.Injective sha256)
    {cs : List ProposedCriterion} (hnodup : (cs.map ProposedCriterion.criterionKey).Nodup)
    (hstates : ∀ c ∈ cs, States sha256 c)
    (hclauses : ∀ c ∈ cs, ∀ reference ∈ c.clauseReferences, (clauseId clauses reference).isSome = true) :
    ∀ {p : Persisted} {db : ProposalDb}, Kept sha256 db → (∀ row ∈ db.proposals, row.accountId = input.clientId →
        row.verifiedContractVersionId = input.verifiedContractVersionId →
        row.criterion.criterionKey ∉ cs.map ProposedCriterion.criterionKey) →
      ∃ out, cs.foldlM (persistCriterion sha256 input verified clauses) (p, db) = .ok out := by
  induction cs with
  | nil => exact fun _ _ => ⟨_, rfl⟩
  | cons c rest ih =>
    intro p db hkept hdisjoint
    obtain ⟨hc, hrest⟩ := List.forall_mem_cons.mp hstates
    obtain ⟨hcClauses, hrestClauses⟩ := List.forall_mem_cons.mp hclauses
    obtain ⟨hnotin, hnodup⟩ := List.nodup_cons.mp hnodup
    have hfree : ∀ row ∈ db.proposals, ¬ conflicts (proposalRow sha256 input verified db.proposals.length c) row = true :=
      not_conflicts hsha hkept fun row hrow haccount hversion hkey =>
        hdisjoint row hrow haccount hversion (hkey ▸ List.mem_cons_self)
    obtain ⟨p', db', hstep, hproposals⟩ := persistCriterion_fresh (p := p) hkept hc hfree hcClauses
    have hkept' := (persistCriterion_ok hkept hstep).1
    rw [List.foldlM_cons, hstep]
    refine ih hnodup hrest hrestClauses hkept' fun row hrow haccount hversion => ?_
    rw [hproposals] at hrow
    cases List.mem_append.mp hrow with
    | inl hrow => exact fun hkey => hdisjoint row hrow haccount hversion (List.mem_cons_of_mem _ hkey)
    | inr hrow =>
      rw [List.mem_singleton.mp hrow]
      exact hnotin

theorem generated_nodup (r : ProposalResult) :
    ((generateProposedCriteria localeCompare sha256 r.criteria).map ProposedCriterion.criterionKey).Nodup := by
  have hperm := (@StableSort.sort_perm _ (fun a b => localeCompare a.criterionKey b.criterionKey)
    (r.criteria.map (proposedCriterion localeCompare sha256))).map ProposedCriterion.criterionKey
  refine hperm.nodup_iff.mpr ?_
  rw [List.map_map]
  exact r.distinct

/-- The first result is accepted just if what it is checked against is stored. -/
theorem first_accepted_iff (hsha : Function.Injective sha256) (hkept : Kept sha256 db) (hnone : Unproposed ctx db) :
    Accepted localeCompare sha256 ctx db r ↔ Storable ctx db r := by
  constructor
  · intro h
    obtain ⟨persisted, db', hpersist, -⟩ := h
    obtain ⟨verified, hguarded, -⟩ := persist_eq_ok.mp hpersist
    exact storable_iff.mpr ⟨verified, hguarded⟩
  · intro h
    obtain ⟨verified, hguarded⟩ := storable_iff.mp h
    obtain ⟨⟨p, mid⟩, hfold⟩ := @persistCriteria_fresh sha256 verified (ctx.input localeCompare sha256 r)
      (versionClauses (ctx.input localeCompare sha256 r) verified db) hsha _ (generated_nodup r) (generated_all_state r)
      hguarded.references ⟨[], 0⟩ db hkept
      fun row hrow haccount hversion => absurd ⟨haccount, hversion⟩ (hnone.proposals row hrow)
    have hevents : mid.events = db.events := (persistCriteria_ok hkept hfold).2.2.1
    have hpersist : persistContractRuleProposals sha256 (ctx.input localeCompare sha256 r) db = .ok (p,
        { mid with events := mid.events ++ [⟨ctx.clientId, ctx.verifiedContractVersionId, ctx.requestKey sha256,
          r.actorUserId, eventDetail (ctx.input localeCompare sha256 r) verified p⟩] }) := by
      refine persist_eq_ok.mpr ⟨verified, hguarded, mid, hfold, ?_⟩
      refine writeProposalEvent_new fun e he => ?_
      rw [hevents] at he
      exact hnone.events e he
    exact ⟨p, _, hpersist, persist_again hkept (generated_all_state r) hpersist⟩

/-! ## The two laws -/

theorem Storable.of_same (hsame : SameResult localeCompare sha256 r r') (h : Storable ctx db r) : Storable ctx db r' := by
  obtain ⟨verified, hguarded⟩ := (@storable_iff localeCompare sha256 ctx r db).mp h
  refine (@storable_iff localeCompare sha256 ctx r' db).mpr ⟨verified, hguarded.version, hguarded.digest, hguarded.extraction,
    fun c' hc' reference hreference => ?_⟩
  obtain ⟨c, hc, hequal⟩ := (exists_of_forall₂ (sameCriteria_iff.mpr hsame.criteria)).2 c' hc'
  exact hguarded.references c hc reference ((criterion_eq hequal).2.2.1 ▸ hreference)

/-- Once a result is stored, those that follow are accepted just if they say the same. -/
theorem allAccepted_iff (hsha : Function.Injective sha256) (hkept : Kept sha256 db)
    (h : Stored sha256 (ctx.input localeCompare sha256 r) verified ids db) (results : List ProposalResult) :
    AllSteps (storeResult localeCompare sha256 ctx) (Accepted localeCompare sha256 ctx) db results ↔
      ∀ r' ∈ results, SameResult localeCompare sha256 r r' := by
  induction results with
  | nil => exact iff_of_true trivial fun r' hr' => absurd hr' List.not_mem_nil
  | cons r' rest ih =>
    simp only [AllSteps, storeResult_again hsha hkept h, Option.some.injEq, forall_eq', List.forall_mem_cons,
      accepted_iff hsha hkept h, ih]

/-- All results of a sequence are accepted just if the first can be stored and the others say the same. -/
theorem sequence_iff (hsha : Function.Injective sha256) (hkept : Kept sha256 db) (hnone : Unproposed ctx db)
    (results : List ProposalResult) :
    AllSteps (storeResult localeCompare sha256 ctx) (Accepted localeCompare sha256 ctx) db results ↔
      (∀ r ∈ results, Storable ctx db r) ∧ ∀ r ∈ results, ∀ r' ∈ results, SameResult localeCompare sha256 r r' := by
  cases results with
  | nil =>
    exact iff_of_true trivial ⟨fun r hr => absurd hr List.not_mem_nil, fun r hr => absurd hr List.not_mem_nil⟩
  | cons r rest =>
    by_cases hstorable : Storable ctx db r
    · obtain ⟨p, db', hpersist, hagain⟩ := (first_accepted_iff hsha hkept hnone).mpr hstorable
      obtain ⟨hkept', -, verified, hstored⟩ := persist_stored hkept hpersist
      have hstep : storeResult localeCompare sha256 ctx db r = some db' := by
        rw [storeResult, hpersist]
      have hsequence : AllSteps (storeResult localeCompare sha256 ctx) (Accepted localeCompare sha256 ctx) db (r :: rest) ↔
          ∀ r' ∈ rest, SameResult localeCompare sha256 r r' := by
        simp only [AllSteps, hstep, Option.some.injEq, forall_eq', allAccepted_iff hsha hkept' hstored]
        exact and_iff_right ⟨p, db', hpersist, hagain⟩
      rw [hsequence]
      constructor
      · intro hrest
        have hall : ∀ r' ∈ r :: rest, SameResult localeCompare sha256 r r' :=
          List.forall_mem_cons.mpr ⟨⟨rfl, rfl, rfl⟩, hrest⟩
        exact ⟨fun r' hr' => hstorable.of_same (hall r' hr'),
          fun a ha b hb => (hall a ha).symm.trans (hall b hb)⟩
      · intro h r' hr'
        exact h.2 r List.mem_cons_self r' (List.mem_cons_of_mem _ hr')
    · refine iff_of_false (fun h => hstorable ?_) fun h => hstorable (h.1 r List.mem_cons_self)
      exact (first_accepted_iff hsha hkept hnone).mp (h _ rfl).1

/-- Equal keys mean equal requests just where one document has one text, and the results of a sequence are all
accepted just if they can be stored and say the same. -/
theorem requestKeys_iff (canonical : String → String) (hsha : Function.Injective sha256) :
    (∀ (provider : VersionedAnthropicProvider) (a b : Call) (x y : AnthropicStructuredInput) (rx ry : ProviderRequest),
      a.Sends canonical localeCompare sha256 provider x rx → b.Sends canonical localeCompare sha256 provider y ry →
        ((rx.idempotencyKey = ry.idempotencyKey → x.prompt = y.prompt ∧ x.untrustedEvidence = y.untrustedEvidence) ↔
          OneText localeCompare a b)) ∧
    ∀ (ctx : ProposalContext) (db : ProposalDb) (results : List ProposalResult), Kept sha256 db → Unproposed ctx db →
      (AllSteps (storeResult localeCompare sha256 ctx) (Accepted localeCompare sha256 ctx) db results ↔
        (∀ r ∈ results, Storable ctx db r) ∧ ∀ r ∈ results, ∀ r' ∈ results, SameResult localeCompare sha256 r r') :=
  ⟨fun _ _ _ _ _ _ _ ha hb => requests_iff hsha ha hb, fun _ _ results hkept hnone => sequence_iff hsha hkept hnone results⟩

end

/-- A document that states its payment terms. -/
def statedTerms (document : Char) (text : String) : ContractExtraction where
  sourceDocumentSha256 := String.ofList (List.replicate 64 document)
  model := ⟨"m", "p"⟩
  fields := []
  clauses := [⟨"4.1", none, .found text none (.ofNat 1) [termsCitation]⟩]
  rateTables := []

theorem oneModel_pinned : isPin "m" = true := by decide

def oneModel : VersionedAnthropicProvider := ⟨"m", oneModel_pinned⟩

def termsContext : ProposalContext := ⟨1, 2, "m", "d"⟩

def termsCriterion : ModelCriterion where
  criterionKey := "CONTRACT.PROPOSED.TERMS"
  ruleType := .STRUCTURAL
  description := "Payment terms."
  clauseReferences := ["4.1"]
  citations := []
  ast := untiedRule
  accepted := untiedRule_accepted

theorem termsCriterion_distinct : ([termsCriterion].map ModelCriterion.criterionKey).Nodup := by decide

def termsResult (message : String) : ProposalResult := ⟨3, [termsCriterion], termsCriterion_distinct, message⟩

/-- A verified version of a document with one clause. -/
def termsDb : ProposalDb where
  verifiedVersions := [⟨2, 1, 5, "extraction", "verification", "d", 6⟩]
  extractionEvents := [⟨1, 5, "extraction"⟩]
  clauses := [⟨7, 1, 6, "4.1"⟩]
  proposals := []
  proposalClauses := []
  events := []

theorem termsDb_kept : Kept id termsDb :=
  ⟨rfl, .nil, fun _ h => absurd h List.not_mem_nil, fun _ h => absurd h List.not_mem_nil⟩

theorem termsDb_unproposed : Unproposed termsContext termsDb :=
  ⟨fun _ h => absurd h List.not_mem_nil, fun _ h => absurd h List.not_mem_nil⟩

/-- Two documents have two keys, and one answer is stored as often as it is asked to. -/
theorem statedTerms_twoKeys :
    (∃ x y rx ry, (Call.normalizeContractClauses (statedTerms '0' "30 days")).Sends asciiLower compare id oneModel x rx ∧
      (Call.normalizeContractClauses (statedTerms '1' "60 days")).Sends asciiLower compare id oneModel y ry ∧
      (rx.idempotencyKey = ry.idempotencyKey → x.prompt = y.prompt ∧ x.untrustedEvidence = y.untrustedEvidence)) ∧
    AllSteps (storeResult compare id termsContext) (Accepted compare id termsContext) termsDb
      [termsResult "first", termsResult "first"] := by
  obtain ⟨hkeys, hstored⟩ := @requestKeys_iff compare id asciiLower Function.injective_id
  constructor
  · obtain ⟨x, rx, hx, -⟩ := @normalization_sends asciiLower compare id oneModel
      (statedTerms '0' "30 days") (by decide +kernel) (by decide +kernel)
    obtain ⟨y, ry, hy, -⟩ := @normalization_sends asciiLower compare id oneModel
      (statedTerms '1' "60 days") (by decide +kernel) (by decide +kernel)
    refine ⟨x, y, rx, ry, hx, hy, (hkeys _ _ _ _ _ _ _ hx hy).mpr fun hdocument => ?_⟩
    exact absurd hdocument (by decide)
  · have hstorable : Storable termsContext termsDb (termsResult "first") := by
      refine ⟨_, rfl, rfl, ⟨_, List.mem_singleton_self _, rfl, rfl, rfl⟩, fun c hc reference hreference => ?_⟩
      cases List.mem_singleton.mp hc
      cases List.mem_singleton.mp hreference
      exact ⟨_, List.mem_singleton_self _, rfl, rfl, rfl⟩
    refine (hstored _ _ _ termsDb_kept termsDb_unproposed).mpr ⟨fun r hr => ?_, fun r hr r' hr' => ?_⟩
    · have hr' : r = termsResult "first" := by simpa using hr
      exact hr' ▸ hstorable
    · have hfirst : r = termsResult "first" := by simpa using hr
      have hsecond : r' = termsResult "first" := by simpa using hr'
      rw [hfirst, hsecond]
      exact ⟨rfl, rfl, rfl⟩

/-- Two readings of one document are asked about under one key, and a second answer to it is refused. -/
theorem statedTerms_oneKey :
    (∃ x y rx ry, (Call.normalizeContractClauses (statedTerms '0' "30 days")).Sends asciiLower compare id oneModel x rx ∧
      (Call.normalizeContractClauses (statedTerms '0' "60 days")).Sends asciiLower compare id oneModel y ry ∧
      rx.idempotencyKey = ry.idempotencyKey ∧ x.untrustedEvidence ≠ y.untrustedEvidence) ∧
    ¬ AllSteps (storeResult compare id termsContext) (Accepted compare id termsContext) termsDb
      [termsResult "first", termsResult "second"] := by
  constructor
  · obtain ⟨x, rx, hx, hdocument, hevidence⟩ := @normalization_sends asciiLower compare id oneModel
      (statedTerms '0' "30 days") (by decide +kernel) (by decide +kernel)
    obtain ⟨y, ry, hy, hdocument', hevidence'⟩ := @normalization_sends asciiLower compare id oneModel
      (statedTerms '0' "60 days") (by decide +kernel) (by decide +kernel)
    refine ⟨x, y, rx, ry, hx, hy, ?_, fun heq => ?_⟩
    · exact (same_key Function.injective_id hx hy).mpr ⟨rfl, hdocument.trans hdocument'.symm⟩
    · rw [hevidence, hevidence', normalization_iff] at heq
      exact absurd heq (by decide +kernel)
  · intro haccepted
    have hsame := (sequence_iff Function.injective_id termsDb_kept termsDb_unproposed _).mp haccepted
    have hmessage := (hsame.2 _ List.mem_cons_self _ (List.mem_cons_of_mem _ (List.mem_singleton_self _))).message
    exact absurd hmessage (by decide)

end ProposedCriteria
