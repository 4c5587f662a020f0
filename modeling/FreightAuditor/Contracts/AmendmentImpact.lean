import FreightAuditor.Contracts.CurrentText
import FreightAuditor.Contracts.Extractions

/- When the impact of an amendment is the difference of its versions.

   The outer join takes every clause there is on its left side, so a clause of the new version joins itself,
   and one that only the new version has is never reported. Of the rules that cite a clause all ACTIVE
   versions are listed, also those that have been deprecated or quarantined since. Whatever else the tables
   hold, the rest is exact: `analyzes_iff` says that the impacts are those of the claim exactly if there is no
   such clause and no such rule. -/
namespace Contracts

open AppendOnly DecimalJs JsText ReadCommitted
open RuleEngine (ClauseChange)

/-! ## The difference of two versions -/

/-- The clause of a version with this reference. -/
def ClauseOf (db : Db) (versionId : ℕ) (clauseRef : String) (clause : ContractClause) : Prop :=
  clause ∈ contractClauses db ∧ clause.contractVersionId = versionId ∧ clause.clauseRef = clauseRef

/-- How the clauses of a reference differ. -/
def Differs (db : Db) (oldVersionId newVersionId : ℕ) (clauseRef : String) : ClauseChange → Prop
  | .ADDED => (∃ n, ClauseOf db newVersionId clauseRef n) ∧ ∀ o, ¬ ClauseOf db oldVersionId clauseRef o
  | .REMOVED => (∃ o, ClauseOf db oldVersionId clauseRef o) ∧ ∀ n, ¬ ClauseOf db newVersionId clauseRef n
  | .CHANGED => ∃ o n, ClauseOf db oldVersionId clauseRef o ∧ ClauseOf db newVersionId clauseRef n ∧
      o.textExcerpt ≠ n.textExcerpt

/-- One impact for each reference that differs, in the order of the references, and with each old clause the rules
    in force that cite it. -/
structure ImpactsExact (cmp : String → String → Ordering) (db : Db) (oldVersionId newVersionId : ℕ)
    (impacts : List ClauseImpact) : Prop where
  ordered : impacts.Pairwise fun x y => cmp x.clauseReference y.clauseReference ≠ .gt
  once : (impacts.map fun impact => impact.clauseReference).Nodup
  differs : ∀ clauseRef change, (∃ impact ∈ impacts, impact.clauseReference = clauseRef ∧ impact.change = change) ↔
    Differs db oldVersionId newVersionId clauseRef change
  affected : ∀ impact ∈ impacts, ∀ o, ClauseOf db oldVersionId impact.clauseReference o → ∀ id,
    id ∈ impact.affectedRuleVersionIds ↔ ∃ v ∈ ruleVersions db, v.clauseId = some o.id ∧ InForce db v ∧ v.id = id

/-- Both versions have each reference of the new one, and the ACTIVE rules of clauses that are amended are in
    force. -/
def NoneAddedNorLapsed (db : Db) (oldVersionId newVersionId : ℕ) : Prop :=
  (∀ n ∈ contractClauses db, n.contractVersionId = newVersionId →
    ∃ o ∈ contractClauses db, o.contractVersionId = oldVersionId ∧ o.clauseRef = n.clauseRef) ∧
  ∀ o ∈ contractClauses db, o.contractVersionId = oldVersionId → Amended db newVersionId o →
    ∀ v ∈ ruleVersions db, v.clauseId = some o.id → v.lifecycleState = .ACTIVE → InForce db v

instance (o n : ContractClause) (newVersionId : ℕ) : Decidable (Joins newVersionId o n → n.textExcerpt ≠ o.textExcerpt) :=
  inferInstanceAs (Decidable (n.contractVersionId = newVersionId ∧ n.clauseRef = o.clauseRef → n.textExcerpt ≠ o.textExcerpt))

instance (db : Db) (o : ContractClause) (newVersionId : ℕ) : Decidable (Amended db newVersionId o) :=
  inferInstanceAs (Decidable (∀ n ∈ contractClauses db, Joins newVersionId o n → n.textExcerpt ≠ o.textExcerpt))

instance (db : Db) (oldVersionId newVersionId : ℕ) : Decidable (NoneAddedNorLapsed db oldVersionId newVersionId) :=
  inferInstanceAs (Decidable ((∀ n ∈ contractClauses db, n.contractVersionId = newVersionId →
    ∃ o ∈ contractClauses db, o.contractVersionId = oldVersionId ∧ o.clauseRef = n.clauseRef) ∧
    ∀ o ∈ contractClauses db, o.contractVersionId = oldVersionId → Amended db newVersionId o →
      ∀ v ∈ ruleVersions db, v.clauseId = some o.id → v.lifecycleState = .ACTIVE → InForce db v))

/-! ## The rows of the join -/

variable {cmp : String → String → Ordering} {db : Db} {oldVersionId newVersionId : ℕ}

/-- Two clauses are of two versions, or of two references. -/
theorem contractClauses_pairwise (hunique : Unique Row.keys db) : (contractClauses db).Pairwise fun c d =>
    ¬ (c.contractVersionId = d.contractVersionId ∧ c.clauseRef = d.clauseRef) := by
  rw [contractClauses, List.pairwise_filterMap]
  refine hunique.imp fun {a b} hkeys c hc d hd hsame => ?_
  cases a with
  | contractClause c' =>
    cases b with
    | contractClause d' =>
      obtain rfl := Option.some.inj hc
      obtain rfl := Option.some.inj hd
      refine hkeys (.clauseRef c'.contractVersionId c'.clauseRef) (by simp [Row.keys]) ?_
      simp [Row.keys, hsame.1, hsame.2]
    | _ => cases hd
  | _ => cases hc

theorem ClauseOf.eq (hunique : Unique Row.keys db) {versionId : ℕ} {clauseRef : String} {c d : ContractClause}
    (hc : ClauseOf db versionId clauseRef c) (hd : ClauseOf db versionId clauseRef d) : c = d := by
  have hsame : Row.contractClause c = Row.contractClause d :=
    hunique.eq_of_key (k := .clauseRef versionId clauseRef) (mem_contractClauses.mp hc.1) (mem_contractClauses.mp hd.1)
      (by simp [Row.keys, hc.2.1, hc.2.2]) (by simp [Row.keys, hd.2.1, hd.2.2])
  exact Row.contractClause.inj hsame

theorem nullsLast_trans (hcmp : Std.TransCmp cmp) (a b c : Option String) (hab : (nullsLast cmp a b != .gt) = true)
    (hbc : (nullsLast cmp b c != .gt) = true) : (nullsLast cmp a c != .gt) = true := by
  cases a with
  | none =>
    cases b with
    | none => exact hbc
    | some b => cases hab
  | some a =>
    cases c with
    | none => rfl
    | some c =>
      cases b with
      | none => cases hbc
      | some b =>
        have hab' : (cmp a b).isLE = true := Ordering.ne_gt_iff_isLE.mp (bne_iff_ne.mp hab)
        have hbc' : (cmp b c).isLE = true := Ordering.ne_gt_iff_isLE.mp (bne_iff_ne.mp hbc)
        have hac : (cmp a c).isLE = true := Std.TransCmp.isLE_trans hab' hbc'
        exact bne_iff_ne.mpr (Ordering.ne_gt_iff_isLE.mpr hac)

theorem nullsLast_total (hcmp : Std.TransCmp cmp) (a b : Option String) :
    (nullsLast cmp a b != .gt || nullsLast cmp b a != .gt) = true := by
  cases a with
  | none => cases b <;> rfl
  | some a =>
    cases b with
    | none => rfl
    | some b =>
      by_cases hab : cmp a b = .gt
      · have hba : cmp b a = .lt := Std.OrientedCmp.gt_iff_lt.mp hab
        simp [nullsLast, hba]
      · simp [nullsLast, hab]

theorem joinedClauses_ordered (hcmp : Std.TransCmp cmp) :
    (joinedClauses cmp db oldVersionId newVersionId).Pairwise fun x y => nullsLast cmp x.clauseRef y.clauseRef ≠ .gt := by
  refine (List.pairwise_mergeSort (fun x y z => ?_) (fun x y => ?_) _).imp fun h => bne_iff_ne.mp h
  · exact nullsLast_trans hcmp x.clauseRef y.clauseRef z.clauseRef
  · exact nullsLast_total hcmp x.clauseRef y.clauseRef

/-- The clauses of the new version that an old one joins: one at most. -/
theorem joined_pairwise (hunique : Unique Row.keys db) (o : ContractClause) :
    ((contractClauses db).filter fun n => n.contractVersionId == newVersionId && n.clauseRef == o.clauseRef).Pairwise
      fun _ _ => False := by
  rw [List.pairwise_filter]
  refine (contractClauses_pairwise hunique).imp fun hdiffer hc hd => hdiffer ?_
  rw [Bool.and_eq_true, beq_iff_eq, beq_iff_eq] at hc hd
  exact ⟨hc.1.trans hd.1.symm, hc.2.trans hd.2.symm⟩

/-- The rows of the join that an old clause begins. -/
def joinsOf (clauses : List ContractClause) (on : ContractClause → ContractClause → Bool) (o : ContractClause) : List ClausePair :=
  match clauses.filter (on o) with
  | [] => [(some o, none)]
  | found => found.map fun n => (some o, some n)

theorem fullOuterJoin_eq (l r : List ContractClause) (on : ContractClause → ContractClause → Bool) :
    fullOuterJoin l r on = l.flatMap (joinsOf r on) ++ (r.filter fun n => !l.any (on · n)).map fun n => (none, some n) := by
  rw [fullOuterJoin]
  congr 2
  funext o
  rw [joinsOf]
  cases r.filter (on o) <;> rfl

theorem joinsOf_left {clauses : List ContractClause} {on : ContractClause → ContractClause → Bool} {o : ContractClause}
    {x : ClausePair} (hx : x ∈ joinsOf clauses on o) : ∃ n, x = (some o, n) := by
  rw [joinsOf] at hx
  split at hx
  · exact ⟨none, List.mem_singleton.mp hx⟩
  · obtain ⟨n, -, rfl⟩ := List.mem_map.mp hx
    exact ⟨some n, rfl⟩

theorem joinsOf_pairwise {clauses : List ContractClause} {on : ContractClause → ContractClause → Bool} {o : ContractClause}
    (hone : (clauses.filter (on o)).Pairwise fun _ _ => False) : (joinsOf clauses on o).Pairwise fun _ _ => False := by
  rw [joinsOf]
  split
  · exact List.pairwise_singleton _ _
  · exact List.pairwise_map.mpr hone

/-- A clause of the new version that joins nothing would join itself. -/
theorem none_added : ∀ pair ∈ ((contractClauses db).filter fun n => !(contractClauses db).any fun o =>
      n.contractVersionId == newVersionId && n.clauseRef == o.clauseRef).map fun n => ((none, some n) : ClausePair),
    ¬ (pair.1.any (·.contractVersionId == oldVersionId) ||
      (pair.1.isNone && pair.2.any (·.contractVersionId == newVersionId))) = true := by
  intro pair hpair hkept
  obtain ⟨n, hn, rfl⟩ := List.mem_map.mp hpair
  obtain ⟨hmem, hnone⟩ := List.mem_filter.mp hn
  have hversion : n.contractVersionId = newVersionId := by simpa using hkept
  simp only [Bool.not_eq_true', List.any_eq_false] at hnone
  exact hnone n hmem (by simp [hversion])

/-- Of each reference there is one row at most. -/
theorem joinedClauses_pairwise (hunique : Unique Row.keys db) :
    (joinedClauses cmp db oldVersionId newVersionId).Pairwise fun x y => x.clauseRef ≠ y.clauseRef := by
  refine List.Perm.pairwise (List.mergeSort_perm _ _).symm ?_ Ne.symm
  rw [fullOuterJoin_eq, List.filter_append, List.filter_eq_nil_iff.mpr none_added, List.append_nil, List.pairwise_filter,
    List.pairwise_flatMap]
  refine ⟨fun o _ => (joinsOf_pairwise (joined_pairwise hunique o)).imp False.elim, ?_⟩
  refine (contractClauses_pairwise hunique).imp fun {o o'} hdiffer x hx y hy hkeptx hkepty hsame => ?_
  obtain ⟨n, rfl⟩ := joinsOf_left hx
  obtain ⟨n', rfl⟩ := joinsOf_left hy
  have hversion : o.contractVersionId = oldVersionId := by simpa using hkeptx
  have hversion' : o'.contractVersionId = oldVersionId := by simpa using hkepty
  exact hdiffer ⟨hversion.trans hversion'.symm, by simpa [ClausePair.clauseRef] using hsame⟩

/-! ## The impacts -/

/-- The impacts are those of the old clauses that the new version lacks or changes. -/
theorem mem_impactsOf {impact : ClauseImpact} :
    impact ∈ impactsOf db (joinedClauses cmp db oldVersionId newVersionId) ↔
      ∃ o ∈ contractClauses db, o.contractVersionId = oldVersionId ∧
        (impact = clauseImpact (some o, none) .REMOVED (activeVersionsOf o.id db) ∧
            (∀ n ∈ contractClauses db, ¬ Joins newVersionId o n) ∨
          ∃ n ∈ contractClauses db, impact = clauseImpact (some o, some n) .CHANGED (activeVersionsOf o.id db) ∧
            Joins newVersionId o n ∧ o.textExcerpt ≠ n.textExcerpt) := by
  simp only [impactsOf, List.mem_filterMap, Option.map_eq_some_iff, mem_joinedClauses]
  constructor
  · rintro ⟨pair, ⟨o, ho, hversion, ⟨rfl, hnone⟩ | ⟨n, hn, rfl, hjoins⟩⟩, change, hchange, rfl⟩
    · obtain rfl := Option.some.inj hchange
      exact ⟨o, ho, hversion, .inl ⟨rfl, hnone⟩⟩
    · rw [ClausePair.change] at hchange
      split at hchange
      · rename_i htext
        obtain rfl := Option.some.inj hchange
        exact ⟨o, ho, hversion, .inr ⟨n, hn, rfl, hjoins, htext⟩⟩
      · cases hchange
  · rintro ⟨o, ho, hversion, ⟨rfl, hnone⟩ | ⟨n, hn, rfl, hjoins, htext⟩⟩
    · exact ⟨(some o, none), ⟨o, ho, hversion, .inl ⟨rfl, hnone⟩⟩, .REMOVED, rfl, rfl⟩
    · exact ⟨(some o, some n), ⟨o, ho, hversion, .inr ⟨n, hn, rfl, hjoins⟩⟩, .CHANGED, if_pos htext, rfl⟩

/-- Two impacts in a row are of two rows in a row, and each shows the reference of an old clause. -/
theorem impactsOf_pairwise {R : Option String → Option String → Prop}
    (hpairs : (joinedClauses cmp db oldVersionId newVersionId).Pairwise fun x y => R x.clauseRef y.clauseRef) :
    (impactsOf db (joinedClauses cmp db oldVersionId newVersionId)).Pairwise fun x y =>
      R (some x.clauseReference) (some y.clauseReference) := by
  rw [impactsOf, List.pairwise_filterMap]
  refine hpairs.imp_of_mem fun {x y} hx hy hrefs i hi j hj => ?_
  obtain ⟨change, -, rfl⟩ := Option.map_eq_some_iff.mp hi
  obtain ⟨change', -, rfl⟩ := Option.map_eq_some_iff.mp hj
  have href {pair : ClausePair} (hpair : pair ∈ joinedClauses cmp db oldVersionId newVersionId) :
      some (pair.clauseRef.getD "") = pair.clauseRef := by
    obtain ⟨o, -, -, ⟨rfl, -⟩ | ⟨n, -, rfl, -⟩⟩ := mem_joinedClauses.mp hpair <;> rfl
  simpa only [clauseImpact, href hx, href hy] using hrefs

/-- What the join finds removed or changed is just that. -/
theorem differs_iff (clauseRef : String) {change : ClauseChange} (hadded : change ≠ .ADDED) :
    (∃ impact ∈ impactsOf db (joinedClauses cmp db oldVersionId newVersionId),
      impact.clauseReference = clauseRef ∧ impact.change = change) ↔
      Differs db oldVersionId newVersionId clauseRef change := by
  constructor
  · rintro ⟨impact, hmem, rfl, rfl⟩
    obtain ⟨o, ho, hversion, ⟨rfl, hnone⟩ | ⟨n, hn, rfl, hjoins, htext⟩⟩ := mem_impactsOf.mp hmem
    · exact ⟨⟨o, ho, hversion, rfl⟩, fun n hn => hnone n hn.1 ⟨hn.2.1, hn.2.2⟩⟩
    · exact ⟨o, n, ⟨ho, hversion, rfl⟩, ⟨hn, hjoins.1, hjoins.2⟩, htext⟩
  · intro h
    cases change with
    | ADDED => exact absurd rfl hadded
    | REMOVED =>
      obtain ⟨⟨o, ho, hversion, rfl⟩, hnone⟩ := h
      exact ⟨_, mem_impactsOf.mpr ⟨o, ho, hversion, .inl ⟨rfl, fun n hn hjoins => hnone n ⟨hn, hjoins.1, hjoins.2⟩⟩⟩, rfl, rfl⟩
    | CHANGED =>
      obtain ⟨o, n, ⟨ho, hversion, rfl⟩, ⟨hn, hnew, href⟩, htext⟩ := h
      exact ⟨_, mem_impactsOf.mpr ⟨o, ho, hversion, .inr ⟨n, hn, rfl, ⟨hnew, href⟩, htext⟩⟩, rfl, rfl⟩

theorem not_added (impact : ClauseImpact) (hmem : impact ∈ impactsOf db (joinedClauses cmp db oldVersionId newVersionId)) :
    impact.change ≠ .ADDED := by
  obtain ⟨o, -, -, ⟨rfl, -⟩ | ⟨n, -, rfl, -⟩⟩ := mem_impactsOf.mp hmem <;> exact nofun

/-- Each impact is that of an amended clause, -/
theorem amended_of_impact (hunique : Unique Row.keys db) {impact : ClauseImpact}
    (hmem : impact ∈ impactsOf db (joinedClauses cmp db oldVersionId newVersionId)) :
    ∃ o, ClauseOf db oldVersionId impact.clauseReference o ∧ Amended db newVersionId o ∧
      impact.affectedRuleVersionIds = activeVersionsOf o.id db := by
  obtain ⟨o, ho, hversion, ⟨rfl, hnone⟩ | ⟨n, hn, rfl, hjoins, htext⟩⟩ := mem_impactsOf.mp hmem
  · exact ⟨o, ⟨ho, hversion, rfl⟩, fun n hn hjoins => absurd hjoins (hnone n hn), rfl⟩
  · refine ⟨o, ⟨ho, hversion, rfl⟩, fun n' hn' hjoins' => ?_, rfl⟩
    have hsame : n' = n := ClauseOf.eq hunique ⟨hn', hjoins'⟩ ⟨hn, hjoins⟩
    exact hsame ▸ htext.symm

/-- and each amended clause has one. -/
theorem impact_of_amended {o : ContractClause} (ho : o ∈ contractClauses db) (hversion : o.contractVersionId = oldVersionId)
    (hamended : Amended db newVersionId o) :
    ∃ impact ∈ impactsOf db (joinedClauses cmp db oldVersionId newVersionId),
      impact.clauseReference = o.clauseRef ∧ impact.affectedRuleVersionIds = activeVersionsOf o.id db := by
  by_cases hjoins : ∃ n ∈ contractClauses db, Joins newVersionId o n
  · obtain ⟨n, hn, hjoins⟩ := hjoins
    exact ⟨_, mem_impactsOf.mpr ⟨o, ho, hversion, .inr ⟨n, hn, rfl, hjoins, (hamended n hn hjoins).symm⟩⟩, rfl, rfl⟩
  · exact ⟨_, mem_impactsOf.mpr ⟨o, ho, hversion, .inl ⟨rfl, fun n hn h => hjoins ⟨n, hn, h⟩⟩⟩, rfl, rfl⟩

/-! ## Exactness -/

theorem impactsExact_iff (hcmp : Std.TransCmp cmp) (hunique : Unique Row.keys db) :
    ImpactsExact cmp db oldVersionId newVersionId (impactsOf db (joinedClauses cmp db oldVersionId newVersionId)) ↔
      NoneAddedNorLapsed db oldVersionId newVersionId := by
  constructor
  · intro h
    constructor
    · intro n hn hversion
      by_contra hnone
      obtain ⟨impact, hmem, -, hadded⟩ := (h.differs n.clauseRef .ADDED).mpr
        ⟨⟨n, hn, hversion, rfl⟩, fun o ho => hnone ⟨o, ho⟩⟩
      exact not_added impact hmem hadded
    · intro o ho hversion hamended v hv hcites hactive
      obtain ⟨impact, hmem, href, haffected⟩ := impact_of_amended ho hversion hamended
      have hlisted : v.id ∈ impact.affectedRuleVersionIds := by
        rw [haffected]
        exact mem_activeVersionsOf.mpr ⟨v, hv, ⟨hcites, hactive⟩, rfl⟩
      obtain ⟨v', hv', -, hforce, hid⟩ := (h.affected impact hmem o ⟨ho, hversion, href.symm⟩ v.id).mp hlisted
      have hsame : v' = v := Unique.version_eq hunique (mem_ruleVersions.mp hv') (mem_ruleVersions.mp hv) hid
      exact hsame ▸ hforce
  · rintro ⟨hnone, hlapsed⟩
    refine ⟨?_, ?_, ?_, ?_⟩
    · exact impactsOf_pairwise (R := fun r r' => nullsLast cmp r r' ≠ .gt) (joinedClauses_ordered hcmp)
    · refine List.pairwise_map.mpr ((impactsOf_pairwise (joinedClauses_pairwise hunique)).imp fun hne heq => hne ?_)
      exact congrArg some heq
    · intro clauseRef change
      by_cases hadded : change = .ADDED
      · subst hadded
        refine iff_of_false (fun h => ?_) fun h => ?_
        · obtain ⟨impact, hmem, -, hadded⟩ := h
          exact not_added impact hmem hadded
        · obtain ⟨⟨n, hn, hversion, rfl⟩, hold⟩ := h
          obtain ⟨o, ho⟩ := hnone n hn hversion
          exact hold o ho
      · exact differs_iff clauseRef hadded
    · intro impact hmem o ho id
      obtain ⟨o', ho', hamended, haffected⟩ := amended_of_impact hunique hmem
      obtain rfl : o' = o := ClauseOf.eq hunique ho' ho
      rw [haffected, mem_activeVersionsOf]
      constructor
      · rintro ⟨v, hv, ⟨hcites, hactive⟩, rfl⟩
        exact ⟨v, hv, hcites, hlapsed o' ho.1 ho.2.1 hamended v hv hcites hactive, rfl⟩
      · rintro ⟨v, hv, hcites, hforce, rfl⟩
        exact ⟨v, hv, ⟨hcites, hforce.1⟩, rfl⟩

/-- What `analyzeAmendmentImpact` answers on these rows is exact. -/
def AnalyzesExactly (cmp : String → String → Ordering) (db : Db) (input : AmendmentInput) (oldVersionId newVersionId : ℕ) : Prop :=
  ∃ impacts log, alone append db (analyzeAmendmentImpact cmp input) .empty = .ok (impacts, log) ∧
    ImpactsExact cmp db oldVersionId newVersionId impacts

theorem analyzesExactly_iff (hcmp : Std.TransCmp cmp) (hunique : Unique Row.keys db) {input : AmendmentInput}
    {a : ContractAmendment} (ha : findAmendment db input = some a) (hold : a.supersedesVersionId = some oldVersionId)
    (hnew : a.newVersionId = some newVersionId) :
    AnalyzesExactly cmp db input oldVersionId newVersionId ↔ NoneAddedNorLapsed db oldVersionId newVersionId := by
  have hfinds : Finds db (analyzeAmendmentImpact cmp input) _ := analyzeAmendmentImpact_finds ha hold hnew
  obtain ⟨log, hrun, -⟩ := hfinds .empty rfl
  rw [← impactsExact_iff hcmp hunique]
  constructor
  · rintro ⟨impacts, log', hrun', hexact⟩
    rw [hrun] at hrun'
    obtain ⟨rfl, -⟩ := Prod.mk.inj (Except.ok.inj hrun')
    exact hexact
  · exact fun hexact => ⟨_, log, hrun, hexact⟩

/-- The impacts of an amendment are exact exactly if no clause is only in the new version and no ACTIVE rule of an
    amended clause has been deprecated or quarantined. -/
theorem analyzes_iff (collation : Extractions.Collation) (db : Db) (hunique : Unique Row.keys db) (input : AmendmentInput)
    (a : ContractAmendment) (oldVersionId newVersionId : ℕ) (ha : findAmendment db input = some a)
    (hold : a.supersedesVersionId = some oldVersionId) (hnew : a.newVersionId = some newVersionId) :
    AnalyzesExactly collation.cmp db input oldVersionId newVersionId ↔ NoneAddedNorLapsed db oldVersionId newVersionId :=
  analyzesExactly_iff collation.trans hunique ha hold hnew

/-- A rule that cites a clause, and its successor in a state. -/
def citingRule (id clauseId : ℕ) (state : RuleEngine.RuleLifecycle) (predecessor : Option ℕ) : Row :=
  .ruleVersion ⟨⟨1, .FIRM_RULE, .null, "h", .arr [], .PASS_FAIL, [], some clauseId, 0, none⟩, id, state, predecessor, none, none,
    none, none⟩

/-- A clause is changed and one removed, and the rule of the first is in force. -/
def amendedRows : Db :=
  [.contractClause ⟨1, 10, "4.1", some "a"⟩, .contractClause ⟨2, 10, "4.2", some "x"⟩,
    .contractClause ⟨3, 20, "4.1", some "b"⟩, .contractAmendment ⟨1, 1, some 10, some 20⟩, citingRule 5 1 .ACTIVE none]

/-- A clause is added besides. -/
def addedRows : Db := amendedRows ++ [.contractClause ⟨4, 20, "5.1", some "y"⟩]

/-- The rule has been deprecated. -/
def lapsedRows : Db := amendedRows ++ [citingRule 6 1 .DEPRECATED (some 5)]

theorem amendedRows_unique : AppendOnly.Unique Row.keys amendedRows := by
  simp [amendedRows, citingRule, AppendOnly.Unique, Row.keys]

theorem addedRows_unique : AppendOnly.Unique Row.keys addedRows := by
  simp [addedRows, amendedRows, citingRule, AppendOnly.Unique, Row.keys]

theorem lapsedRows_unique : AppendOnly.Unique Row.keys lapsedRows := by
  simp [lapsedRows, amendedRows, citingRule, AppendOnly.Unique, Row.keys]

theorem compare_trans : Std.TransCmp (compare : String → String → Ordering) := inferInstance

def byCode : Extractions.Collation := ⟨compare, compare_trans⟩

theorem amendedRows_exact : AnalyzesExactly byCode.cmp amendedRows ⟨1, 1⟩ 10 20 :=
  (analyzes_iff byCode amendedRows amendedRows_unique ⟨1, 1⟩ ⟨1, 1, some 10, some 20⟩ 10 20 (by decide) rfl rfl).mpr
    (by decide)

/-- The added clause is missed, and the deprecated rule is listed. -/
theorem addedRows_inexact : ¬ AnalyzesExactly byCode.cmp addedRows ⟨1, 1⟩ 10 20 ∧
    ¬ AnalyzesExactly byCode.cmp lapsedRows ⟨1, 1⟩ 10 20 := by
  have hadded : findAmendment addedRows ⟨1, 1⟩ = some ⟨1, 1, some 10, some 20⟩ := by decide
  have hlapsed : findAmendment lapsedRows ⟨1, 1⟩ = some ⟨1, 1, some 10, some 20⟩ := by decide
  rw [analyzesExactly_iff byCode.trans addedRows_unique hadded rfl rfl,
    analyzesExactly_iff byCode.trans lapsedRows_unique hlapsed rfl rfl]
  decide

end Contracts
