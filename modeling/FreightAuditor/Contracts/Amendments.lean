import FreightAuditor.Contracts.Governance

/- Amendments of a contract, and the rules they retire.

   An amendment links a version of a contract to the one that supersedes it.
   `analyzeAmendmentImpact` compares the clauses of the two by reference and collects the
   ACTIVE rules that cite a clause of the superseded version; `retireAmendedRules`
   deprecates these, and proposes a replacement under the new text where there is one. -/
namespace Contracts

open AppendOnly DecimalJs JsText ReadCommitted
open RuleEngine (ClauseChange mergeFields)

structure AmendmentInput where
  clientId : ℕ
  amendmentId : ℕ

/-! ## The impact -/

/-- Two clauses side by side, where a row of the outer join has both. -/
abbrev ClausePair := Option ContractClause × Option ContractClause

def fullOuterJoin {α : Type} (l r : List α) (on : α → α → Bool) : List (Option α × Option α) :=
  (l.flatMap fun o => match r.filter (on o) with
    | [] => [(some o, none)]
    | found => found.map fun n => (some o, some n)) ++
  (r.filter fun n => !l.any (on · n)).map fun n => (none, some n)

/-- `coalesce(o.clause_ref, n.clause_ref)`. -/
def ClausePair.clauseRef (pair : ClausePair) : Option String := (pair.1.or pair.2).map ContractClause.clauseRef

/-- The order of a nullable text: nulls last. -/
def nullsLast (collation : String → String → Ordering) : Option String → Option String → Ordering
  | some a, some b => collation a b
  | some _, none => .lt
  | none, some _ => .gt
  | none, none => .eq

section

variable (collation : String → String → Ordering)

/-- The left side is every clause there is: a clause of the new version joins itself. -/
def joinedClauses (db : Db) (supersedesVersionId newVersionId : ℕ) : List ClausePair :=
  let joined : List ClausePair := fullOuterJoin (contractClauses db) (contractClauses db) fun o n =>
    n.contractVersionId == newVersionId && n.clauseRef == o.clauseRef
  let kept := joined.filter fun pair => pair.1.any (·.contractVersionId == supersedesVersionId) ||
    (pair.1.isNone && pair.2.any (·.contractVersionId == newVersionId))
  kept.mergeSort fun a b => nullsLast collation a.clauseRef b.clauseRef != .gt

def ClausePair.change : ClausePair → Option ClauseChange
  | (none, _) => some .ADDED
  | (some _, none) => some .REMOVED
  | (some o, some n) => if o.textExcerpt ≠ n.textExcerpt then some .CHANGED else none

structure ClauseImpact extends RuleEngine.ClauseImpact where
  oldClauseId : Option ℕ

/-- The ACTIVE versions derived from a clause. -/
def activeVersionsOf (clauseId : ℕ) (db : Db) : List ℕ :=
  (((ruleVersions db).filter fun v => v.clauseId = some clauseId ∧ v.lifecycleState = .ACTIVE).map
    RuleVersion.id).mergeSort

def affectedBy (old : Option ContractClause) : Statement (List ℕ) :=
  match old with
  | none => return []
  | some o => .query (activeVersionsOf o.id)

def clauseImpact (pair : ClausePair) (change : ClauseChange) (affectedRuleVersionIds : List ℕ) : ClauseImpact :=
  ⟨⟨pair.clauseRef.getD "", change, pair.2.map ContractClause.id, affectedRuleVersionIds⟩,
    pair.1.map ContractClause.id⟩

def analyzeClauses : List ClausePair → Statement (List ClauseImpact)
  | [] => return []
  | pair :: rest =>
    match pair.change with
    | none => analyzeClauses rest
    | some change => do
      let affected ← affectedBy pair.1
      let impacts ← analyzeClauses rest
      return clauseImpact pair change affected :: impacts

def findAmendment (db : Db) (input : AmendmentInput) : Option ContractAmendment :=
  (contractAmendments db).find? fun a => a.id = input.amendmentId ∧ a.accountId = input.clientId

def analyzeAmendmentImpact (input : AmendmentInput) : Statement (List ClauseImpact) := do
  let amendment ← .query fun db => findAmendment db input
  match amendment with
  | none => .fail (.amendmentNotFound input.amendmentId)
  | some a =>
    match a.supersedesVersionId, a.newVersionId with
    | some supersedesVersionId, some newVersionId =>
      let rows ← .query fun db => joinedClauses collation db supersedesVersionId newVersionId
      analyzeClauses rows
    | _, _ => .fail .amendmentUnlinked

/-! ## Retirement -/

/-- A PROPOSED successor of the deprecated version, under the new clause. -/
def replacementVersion (id amendmentId clauseId : ℕ) (deprecated : RuleVersion) : RuleVersion :=
  plainVersion { deprecated.toRuleContent with
    clauseId := some clauseId
    provenance := mergeFields deprecated.provenance
      [("contractAmendmentId", idText amendmentId), ("replacementFor", idText deprecated.id)] }
    id .PROPOSED (some deprecated.id)

/-- `INSERT ... SELECT ... FROM rule_version`, or the replacement that is there. -/
def proposeReplacement (id amendmentId clauseId deprecatedId : ℕ) : Statement ℕ := do
  let found ← .query fun db => findVersion db deprecatedId
  let inserted ← match found with
    | none => pure false
    | some deprecated =>
      insertRow [.successor deprecatedId .PROPOSED] (.ruleVersion (replacementVersion id amendmentId clauseId deprecated))
  if inserted then return id
  else
    let existing ← .query fun db => findSuccessor db deprecatedId .PROPOSED
    match existing with
    | none => .fail .replacementUnresolved
    | some v => return v.id

structure AmendedRuleTransition where
  oldRuleVersionId : ℕ
  deprecatedRuleVersionId : ℕ
  replacementRuleVersionId : Option ℕ
  deriving DecidableEq

def amendmentRationale (amendmentId : ℕ) (impact : ClauseImpact) : String :=
  "Contract amendment " ++ toString amendmentId ++ ": clause " ++ impact.clauseReference ++ " " ++
    impact.change.lowerCase

/-- The `k`-th version that an amendment retires. -/
def retireVersion (tx amendmentId : ℕ) (entry : (ClauseImpact × ℕ) × ℕ) : Statement AmendedRuleTransition := do
  let ((impact, oldRuleVersionId), k) := entry
  let (deprecatedId, _) ← transitionRuleLifecycle (newId tx (2 * k))
    ⟨oldRuleVersionId, .DEPRECATED, amendmentRationale amendmentId impact, none, none⟩
  match impact.change, impact.newClauseId with
  | .CHANGED, some clauseId =>
    let replacementId ← proposeReplacement (newId tx (2 * k + 1)) amendmentId clauseId deprecatedId
    return ⟨oldRuleVersionId, deprecatedId, some replacementId⟩
  | _, _ => return ⟨oldRuleVersionId, deprecatedId, none⟩

def retireVersions (tx amendmentId : ℕ) : List ((ClauseImpact × ℕ) × ℕ) → Statement (List AmendedRuleTransition)
  | [] => return []
  | entry :: rest => do
    let transition ← retireVersion tx amendmentId entry
    let transitions ← retireVersions tx amendmentId rest
    return transition :: transitions

/-- The versions an amendment retires, each with the impact it is retired for. -/
def retirements (impacts : List ClauseImpact) : List (ClauseImpact × ℕ) :=
  impacts.flatMap fun impact => impact.affectedRuleVersionIds.map fun id => (impact, id)

def retireAmendedRules (tx : ℕ) (input : AmendmentInput) : Statement (List AmendedRuleTransition) := do
  let impacts ← analyzeAmendmentImpact collation input
  retireVersions tx input.amendmentId (retirements impacts).zipIdx

/-! ## Calls -/

inductive AmendmentCall where
  | proposals (call : ProposalCall)
  | retireAmendedRules (input : AmendmentInput)

inductive AmendmentResult where
  | proposals (result : ProposalResult)
  | retired (transitions : List AmendedRuleTransition)

variable (sha256 : String → ℕ)

def AmendmentCall.body (D : Type) [Decimal D] (unicode : Unicode) (tx startedAt : ℕ) :
    AmendmentCall → Statement AmendmentResult
  | .proposals call => do return .proposals (← call.body sha256 collation D unicode tx startedAt)
  | .retireAmendedRules input => do return .retired (← Contracts.retireAmendedRules collation tx input)

def amendmentsSystem (D : Type) [Decimal D] (unicode : Unicode) :
    System Db Row Key ContractsError AmendmentResult AmendmentCall :=
  ⟨append, fun call tx startedAt => call.body collation sha256 D unicode tx startedAt⟩

end

/-! ## What the analysis finds -/

section

variable {collation : String → String → Ordering} {db : Db} {supersedesVersionId newVersionId : ℕ}

/-- A left element alone, two that match, or a right element alone. -/
theorem mem_fullOuterJoin {α : Type} {l r : List α} {on : α → α → Bool} {pair : Option α × Option α} :
    pair ∈ fullOuterJoin l r on ↔
      (∃ o ∈ l, pair = (some o, none) ∧ ∀ n ∈ r, on o n = false) ∨
        (∃ o ∈ l, ∃ n ∈ r, pair = (some o, some n) ∧ on o n = true) ∨
        ∃ n ∈ r, pair = (none, some n) ∧ ∀ o ∈ l, on o n = false := by
  have hleft : ∀ o, (pair ∈ match r.filter (on o) with
      | [] => [(some o, none)]
      | found => found.map fun n => (some o, some n)) ↔
        pair = (some o, none) ∧ (∀ n ∈ r, on o n = false) ∨ ∃ n ∈ r, pair = (some o, some n) ∧ on o n = true := by
    intro o
    cases hfound : r.filter (on o) with
    | nil =>
      have hnone : ∀ n ∈ r, on o n = false := by simpa using List.filter_eq_nil_iff.mp hfound
      simp only [List.mem_singleton]
      refine ⟨fun h => .inl ⟨h, hnone⟩, ?_⟩
      rintro (⟨h, -⟩ | ⟨n, hn, -, hon⟩)
      · exact h
      · rw [hnone n hn] at hon
        cases hon
    | cons m found =>
      have hm : m ∈ r ∧ on o m = true := List.mem_filter.mp (hfound ▸ List.mem_cons_self)
      simp only [← hfound, List.mem_map, List.mem_filter]
      constructor
      · rintro ⟨n, ⟨hn, hon⟩, rfl⟩
        exact .inr ⟨n, hn, rfl, hon⟩
      · rintro (⟨-, hnone⟩ | ⟨n, hn, rfl, hon⟩)
        · rw [hnone m hm.1] at hm
          cases hm.2
        · exact ⟨n, ⟨hn, hon⟩, rfl⟩
  simp only [fullOuterJoin, List.mem_append, List.mem_flatMap, hleft, List.mem_map, List.mem_filter, Bool.not_eq_true',
    List.any_eq_false, Bool.not_eq_true]
  constructor
  · rintro (⟨o, ho, ⟨rfl, hnone⟩ | ⟨n, hn, rfl, hon⟩⟩ | ⟨n, ⟨hn, hnone⟩, rfl⟩)
    · exact .inl ⟨o, ho, rfl, hnone⟩
    · exact .inr (.inl ⟨o, ho, n, hn, rfl, hon⟩)
    · exact .inr (.inr ⟨n, hn, rfl, hnone⟩)
  · rintro (⟨o, ho, rfl, hnone⟩ | ⟨o, ho, n, hn, rfl, hon⟩ | ⟨n, hn, rfl, hnone⟩)
    · exact .inl ⟨o, ho, .inl ⟨rfl, hnone⟩⟩
    · exact .inl ⟨o, ho, .inr ⟨n, hn, rfl, hon⟩⟩
    · exact .inr ⟨n, ⟨hn, hnone⟩, rfl⟩

/-- The new clause that an old one joins. -/
def Joins (newVersionId : ℕ) (o n : ContractClause) : Prop := n.contractVersionId = newVersionId ∧ n.clauseRef = o.clauseRef

theorem mem_joinedClauses {pair : ClausePair} :
    pair ∈ joinedClauses collation db supersedesVersionId newVersionId ↔
      ∃ o ∈ contractClauses db, o.contractVersionId = supersedesVersionId ∧
        (pair = (some o, none) ∧ (∀ n ∈ contractClauses db, ¬ Joins newVersionId o n) ∨
          ∃ n ∈ contractClauses db, pair = (some o, some n) ∧ Joins newVersionId o n) := by
  have hon : ∀ o n : ContractClause, (n.contractVersionId == newVersionId && n.clauseRef == o.clauseRef) = true ↔
      Joins newVersionId o n := fun o n => by simp [Joins]
  have hoff : ∀ o n : ContractClause, (n.contractVersionId == newVersionId && n.clauseRef == o.clauseRef) = false ↔
      ¬ Joins newVersionId o n := fun o n => by rw [← hon, Bool.not_eq_true]
  simp only [joinedClauses, List.mem_mergeSort, List.mem_filter, mem_fullOuterJoin, hon, hoff]
  constructor
  · rintro ⟨⟨o, ho, rfl, hnone⟩ | ⟨o, ho, n, hn, rfl, hjoins⟩ | ⟨n, hn, rfl, hnone⟩, hkept⟩
    · exact ⟨o, ho, by simpa using hkept, .inl ⟨rfl, hnone⟩⟩
    · exact ⟨o, ho, by simpa using hkept, .inr ⟨n, hn, rfl, hjoins⟩⟩
    · -- a clause of the new version joins itself
      exact absurd ⟨by simpa using hkept, rfl⟩ (hnone n hn)
  · rintro ⟨o, ho, hversion, ⟨rfl, hnone⟩ | ⟨n, hn, rfl, hjoins⟩⟩
    · exact ⟨.inl ⟨o, ho, rfl, hnone⟩, by simpa using hversion⟩
    · exact ⟨.inr (.inl ⟨o, ho, n, hn, rfl, hjoins⟩), by simp [hversion]⟩

theorem mem_activeVersionsOf {clauseId id : ℕ} :
    id ∈ activeVersionsOf clauseId db ↔
      ∃ v ∈ ruleVersions db, (v.clauseId = some clauseId ∧ v.lifecycleState = .ACTIVE) ∧ v.id = id := by
  simp [activeVersionsOf, and_assoc]

/-- The impacts, where nothing comes between the statements. -/
def impactsOf (db : Db) (pairs : List ClausePair) : List ClauseImpact :=
  pairs.filterMap fun pair => pair.change.map fun change =>
    clauseImpact pair change (pair.1.elim [] fun o => activeVersionsOf o.id db)

theorem analyzeClauses_finds (pairs : List ClausePair) : Finds db (analyzeClauses pairs) (impactsOf db pairs) := by
  induction pairs with
  | nil => exact Finds.pure _
  | cons pair rest ih =>
    have haffected : Finds db (affectedBy pair.1) (pair.1.elim [] fun o => activeVersionsOf o.id db) := by
      cases pair.1 with
      | none => exact Finds.pure _
      | some o => exact Finds.query _
    rw [analyzeClauses, impactsOf, List.filterMap_cons]
    cases pair.change with
    | none => exact ih
    | some change => exact haffected.bind (ih.bind (Finds.pure _))

theorem analyzeAmendmentImpact_finds {input : AmendmentInput} {a : ContractAmendment}
    (ha : findAmendment db input = some a) (hold : a.supersedesVersionId = some supersedesVersionId)
    (hnew : a.newVersionId = some newVersionId) :
    Finds db (analyzeAmendmentImpact collation input)
      (impactsOf db (joinedClauses collation db supersedesVersionId newVersionId)) := by
  refine (Finds.query _).bind ?_
  rw [ha]
  dsimp only
  rw [hold, hnew]
  exact (Finds.query _).bind (analyzeClauses_finds _)

/-- A clause that the new version does not have with the same text. -/
def Amended (db : Db) (newVersionId : ℕ) (o : ContractClause) : Prop :=
  ∀ n ∈ contractClauses db, Joins newVersionId o n → n.textExcerpt ≠ o.textExcerpt

/-- Retired are the ACTIVE versions that cite an amended clause of the superseded version. -/
theorem mem_retirements (hunique : Unique Row.keys db) {id : ℕ} :
    (∃ impact, (impact, id) ∈
        retirements (impactsOf db (joinedClauses collation db supersedesVersionId newVersionId))) ↔
      ∃ o ∈ contractClauses db, o.contractVersionId = supersedesVersionId ∧ Amended db newVersionId o ∧
        ∃ v ∈ ruleVersions db, (v.clauseId = some o.id ∧ v.lifecycleState = .ACTIVE) ∧ v.id = id := by
  have hmem : ∀ impact, (impact, id) ∈
      retirements (impactsOf db (joinedClauses collation db supersedesVersionId newVersionId)) ↔
      ∃ pair ∈ joinedClauses collation db supersedesVersionId newVersionId, ∃ change, pair.change = some change ∧
        impact = clauseImpact pair change (pair.1.elim [] fun o => activeVersionsOf o.id db) ∧
          id ∈ pair.1.elim [] fun o => activeVersionsOf o.id db := by
    intro impact
    simp only [retirements, impactsOf, List.mem_flatMap, List.mem_filterMap, List.mem_map, Option.map_eq_some_iff,
      Prod.mk.injEq]
    constructor
    · rintro ⟨impact, ⟨pair, hpair, change, hchange, rfl⟩, _, hid, rfl, rfl⟩
      exact ⟨pair, hpair, change, hchange, rfl, hid⟩
    · rintro ⟨pair, hpair, change, hchange, rfl, hid⟩
      exact ⟨_, ⟨pair, hpair, change, hchange, rfl⟩, _, hid, rfl, rfl⟩
  simp only [hmem]
  constructor
  · rintro ⟨-, pair, hpair, change, hchange, -, hid⟩
    obtain ⟨o, ho, hversion, ⟨rfl, hnone⟩ | ⟨n, hn, rfl, hjoins⟩⟩ := mem_joinedClauses.mp hpair
    · exact ⟨o, ho, hversion, fun n hn hjoins => absurd hjoins (hnone n hn), mem_activeVersionsOf.mp hid⟩
    · refine ⟨o, ho, hversion, fun n' hn' hjoins' => ?_, mem_activeVersionsOf.mp hid⟩
      -- a version has one clause of a reference
      have hsame : Row.contractClause n' = Row.contractClause n :=
        hunique.eq_of_key (k := .clauseRef newVersionId o.clauseRef) (mem_contractClauses.mp hn')
          (mem_contractClauses.mp hn) (by simp [Row.keys, hjoins'.1, hjoins'.2]) (by simp [Row.keys, hjoins.1, hjoins.2])
      obtain rfl := Row.contractClause.inj hsame
      rw [ClausePair.change] at hchange
      split at hchange
      · rename_i htext
        exact fun h => htext h.symm
      · cases hchange
  · rintro ⟨o, ho, hversion, hamended, hv⟩
    by_cases hjoins : ∃ n ∈ contractClauses db, Joins newVersionId o n
    · obtain ⟨n, hn, hjoins⟩ := hjoins
      refine ⟨_, (some o, some n), mem_joinedClauses.mpr ⟨o, ho, hversion, .inr ⟨n, hn, rfl, hjoins⟩⟩, .CHANGED, ?_,
        rfl, mem_activeVersionsOf.mpr hv⟩
      exact if_pos fun h => hamended n hn hjoins h.symm
    · refine ⟨_, (some o, none), mem_joinedClauses.mpr ⟨o, ho, hversion, .inl ⟨rfl, fun n hn h => hjoins ⟨n, hn, h⟩⟩⟩,
        .REMOVED, rfl, rfl, mem_activeVersionsOf.mpr hv⟩

end

end Contracts
