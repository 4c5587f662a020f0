import FreightAuditor.Contracts.Retirements
import FreightAuditor.Library.DecimalRef

/- No rule outlives the text of the clause it was derived from.

   A chain of amendments takes a contract through its versions, each with clauses of its
   own. A rule cites the clause of the version it was derived from, and an amendment looks
   at rules citing the version before it only: a rule derived from an older version is not
   seen, even where its clause is unchanged up to there. `textCurrent_iff` says that every
   rule in force has the text of all versions since, along exactly those runs in which no
   amendment changes such a clause, and no version of an amended clause is made ACTIVE. -/
namespace Contracts

open AppendOnly DecimalJs JsText ReadCommitted
open Claims (textNumber)
open RuleEngine (RuleLifecycle TransitionInput allowedTransitions)

/-! ## Contracts with amendments -/

/-- The rows there are, among them a contract of `last + 1` versions with the amendments from each to the
next. -/
structure AmendedContract where
  rows : Db
  unique : Unique Row.keys rows
  linked : ∀ v, .ruleVersion v ∈ rows → ∀ p, v.predecessorRuleVersionId = some p →
    ∃ u, .ruleVersion u ∈ rows ∧ u.id = p
  accountId : ℕ
  last : ℕ
  version : ℕ → ℕ
  amendment : ℕ → ℕ
  distinct : ∀ i ≤ last, ∀ j ≤ last, version i = version j → i = j
  amended : ∀ k < last,
    .contractAmendment ⟨amendment k, accountId, some (version k), some (version (k + 1))⟩ ∈ rows

variable (c : AmendedContract)

/-- The version has a clause of this reference with the same text. -/
def AmendedContract.Keeps (j : ℕ) (clause : ContractClause) : Prop :=
  ∃ n ∈ contractClauses c.rows, Joins (c.version j) clause n ∧ n.textExcerpt = clause.textExcerpt

/-- The clause cited, if it is one of the contract's, has the same text up to version `k`. -/
def AmendedContract.Current (k : ℕ) (clauseId : Option ℕ) : Prop :=
  ∀ i ≤ k, ∀ clause ∈ contractClauses c.rows, clauseId = some clause.id →
    clause.contractVersionId = c.version i → ∀ j ≤ k, i ≤ j → c.Keeps j clause

/-- ACTIVE, and neither deprecated nor quarantined since. -/
def InForce (db : Db) (v : RuleVersion) : Prop :=
  v.lifecycleState = .ACTIVE ∧ ∀ w ∈ ruleVersions db, w.predecessorRuleVersionId = some v.id →
    w.lifecycleState ≠ .DEPRECATED ∧ w.lifecycleState ≠ .QUARANTINED

instance (j : ℕ) (clause : ContractClause) : Decidable (c.Keeps j clause) :=
  inferInstanceAs (Decidable (∃ n ∈ contractClauses c.rows,
    (n.contractVersionId = c.version j ∧ n.clauseRef = clause.clauseRef) ∧ n.textExcerpt = clause.textExcerpt))

instance (i k : ℕ) (clauseId : Option ℕ) (clause : ContractClause) : Decidable (clauseId = some clause.id →
    clause.contractVersionId = c.version i → ∀ j ∈ List.range (k + 1), i ≤ j → c.Keeps j clause) := inferInstance

instance (k : ℕ) (clauseId : Option ℕ) : Decidable (c.Current k clauseId) :=
  decidable_of_iff (∀ i ∈ List.range (k + 1), ∀ clause ∈ contractClauses c.rows, clauseId = some clause.id →
      clause.contractVersionId = c.version i → ∀ j ∈ List.range (k + 1), i ≤ j → c.Keeps j clause)
    (by simp only [List.mem_range, Nat.lt_succ_iff, AmendedContract.Current])

instance (db : Db) (v : RuleVersion) : Decidable (InForce db v) :=
  inferInstanceAs (Decidable (v.lifecycleState = .ACTIVE ∧ ∀ w ∈ ruleVersions db,
    w.predecessorRuleVersionId = some v.id → w.lifecycleState ≠ .DEPRECATED ∧ w.lifecycleState ≠ .QUARANTINED))

/-- The rows, and the number of amendments that have retired their rules. -/
structure Amending where
  serial : Serial Db
  retired : ℕ

inductive AmendingEvent where
  | call (call : ProposalCall)
  /-- `retireAmendedRules` for the next amendment. -/
  | retire

section

variable (sha256 : String → ℕ) (collation : String → String → Ordering) (D : Type) [Decimal D] (unicode : Unicode)

/-- One call after the other, the amendments in their order. -/
def amendingStep (s : Amending) : AmendingEvent → Option Amending
  | .call call => (serialStep (amendmentsSystem collation sha256 D unicode) s.serial (.proposals call)).map
      fun serial => ⟨serial, s.retired⟩
  | .retire =>
    if s.retired < c.last then
      (serialStep (amendmentsSystem collation sha256 D unicode) s.serial
        (.retireAmendedRules ⟨c.accountId, c.amendment s.retired⟩)).map fun serial => ⟨serial, s.retired + 1⟩
    else none

end

def AmendedContract.initial (next : ℕ) : Amending := ⟨⟨c.rows, next⟩, 0⟩

/-- The rules in force have the text of all versions since the one they were derived from. -/
def TextCurrent (s : Amending) : Prop :=
  ∀ v ∈ ruleVersions s.serial.db, InForce s.serial.db v → c.Current s.retired v.clauseId

instance (s : Amending) : Decidable (TextCurrent c s) :=
  inferInstanceAs (Decidable (∀ v ∈ ruleVersions s.serial.db, InForce s.serial.db v → c.Current s.retired v.clauseId))

/-- The versions that a call makes an ACTIVE successor of. -/
def promotes (db : Db) : ProposalCall → List RuleVersion
  | .transitionRuleLifecycle input =>
    if input.toState = .ACTIVE then (ruleVersions db).filter fun v => v.id = input.ruleVersionId else []
  | .ratifyContractRuleProposal input =>
    ((acceptances db).filter fun a => a.accountId = input.clientId ∧ a.id = input.acceptanceId).flatMap fun a =>
      (ruleVersions db).filter fun v => v.id = a.shadowRuleVersionId
  | .backtestContractRuleProposals _ | .acceptContractRuleProposal _ => []

/-- An amendment leaves alone the clauses of older versions that rules in force cite; and only versions
whose text is current become ACTIVE, or have before. -/
def StepKeepsText (s : Amending) : AmendingEvent → Prop
  | .retire => ∀ v ∈ ruleVersions s.serial.db, InForce s.serial.db v → ∀ i < s.retired,
      ∀ clause ∈ contractClauses c.rows, v.clauseId = some clause.id →
        clause.contractVersionId = c.version i → c.Keeps (s.retired + 1) clause
  | .call call => ∀ u ∈ promotes s.serial.db call,
      (∃ v ∈ ruleVersions s.serial.db, v.predecessorRuleVersionId = some u.id ∧ v.lifecycleState = .ACTIVE) ∨
        c.Current s.retired u.clauseId

/-! ## What a call inserts -/

section

variable {c : AmendedContract} {sha256 : String → ℕ} {collation : String → String → Ordering} {D : Type} [Decimal D]
  {unicode : Unicode} {tx startedAt : ℕ} {db : Db} {log : Log Db Row Key}

/-- No new version is ACTIVE, and each follows one that is there. -/
def Quiet (rows : Db) (ws : List Row) : Prop :=
  ∀ v, .ruleVersion v ∈ ws → v.lifecycleState ≠ .ACTIVE ∧
    ∀ p, v.predecessorRuleVersionId = some p → ∃ u, .ruleVersion u ∈ rows ∧ u.id = p

/-- The first new row is an ACTIVE successor, under the same clause, of the one version that the call promotes. -/
def Promotes (db : Db) (call : ProposalCall) (ws : List Row) : Prop :=
  ∃ u v rest, ws = .ruleVersion v :: rest ∧ (∀ w, .ruleVersion w ∉ rest) ∧ .ruleVersion u ∈ db ∧
    (∀ u', u' ∈ promotes db call ↔ u' = u) ∧ v.lifecycleState = .ACTIVE ∧
    v.predecessorRuleVersionId = some u.id ∧ v.clauseId = u.clauseId

/-- The versions that the call promotes were promoted before. -/
def Promoted (db : Db) (call : ProposalCall) : Prop :=
  ∀ u ∈ promotes db call, ∃ v ∈ ruleVersions db, v.predecessorRuleVersionId = some u.id ∧ v.lifecycleState = .ACTIVE

theorem Unique.version_eq (hunique : Unique Row.keys db) {u v : RuleVersion} (hu : .ruleVersion u ∈ db)
    (hv : .ruleVersion v ∈ db) (hid : u.id = v.id) : u = v :=
  Row.ruleVersion.inj (hunique.eq_of_key (k := .ruleVersionId u.id) hu hv (by simp [Row.keys]) (by simp [Row.keys, hid]))

/-- The version with an id. -/
theorem mem_withId (hunique : Unique Row.keys db) {u u' : RuleVersion} (hu : .ruleVersion u ∈ db) {id : ℕ}
    (hid : u.id = id) : (u' ∈ (ruleVersions db).filter fun v => v.id = id) ↔ u' = u := by
  simp only [List.mem_filter, mem_ruleVersions, decide_eq_true_eq]
  constructor
  · rintro ⟨hmem, hid'⟩
    exact Unique.version_eq hunique hmem hu (hid'.trans hid.symm)
  · rintro rfl
    exact ⟨hu, hid⟩

theorem transition_promotes (hunique : Unique Row.keys db) {id : ℕ} {input : TransitionInput} {r : ℕ × Bool}
    (h : alone append db (transitionRuleLifecycle id input) .empty = .ok (r, log)) :
    Quiet db log.writes ∧ Promoted db (.transitionRuleLifecycle input) ∨
      Promotes db (.transitionRuleLifecycle input) log.writes := by
  obtain ⟨current, hcurrent, hid, -, promotions, ⟨-, -, hwrites⟩ | ⟨⟨v, hv, hpred, hstate, -⟩, hwrites⟩⟩ :=
    transition_effect h
  · simp only [Log.empty, List.append_nil, List.nil_append] at hcurrent hwrites
    by_cases hactive : input.toState = .ACTIVE
    · refine .inr ⟨current, _, _, hwrites, by simp, hcurrent, fun u' => ?_, hactive, rfl, rfl⟩
      rw [promotes, if_pos hactive]
      exact mem_withId hunique hcurrent hid
    · refine .inl ⟨fun v hv => ?_, fun u hu => ?_⟩
      · rw [hwrites] at hv
        simp only [List.mem_cons, Row.ruleVersion.injEq, List.mem_map, reduceCtorEq, and_false, exists_false,
          or_false] at hv
        subst hv
        exact ⟨hactive, fun p hp => ⟨current, hcurrent, Option.some.inj hp⟩⟩
      · rw [promotes, if_neg hactive] at hu
        exact absurd hu List.not_mem_nil
  · simp only [Log.empty, List.append_nil, List.nil_append] at hcurrent hv hwrites
    refine .inl ⟨fun v hv => by simp [hwrites] at hv, fun u hu => ⟨v, mem_ruleVersions.mpr hv, ?_⟩⟩
    rw [promotes] at hu
    split at hu
    · rename_i hactive
      obtain rfl := (mem_withId hunique hcurrent hid).mp hu
      exact ⟨hpred, hstate.trans hactive⟩
    · exact absurd hu List.not_mem_nil

theorem ratify_promotes (hunique : Unique Row.keys db) {input : RatifyInput} {activeId : ℕ} {ws : List Row}
    (run : Ratification sha256 tx input db (db ++ ws) ws activeId) :
    Quiet db ws ∧ Promoted db (.ratifyContractRuleProposal input) ∨
      Promotes db (.ratifyContractRuleProposal input) ws := by
  have hshadow : run.shadow.id = run.a.shadowRuleVersionId := run.ratifiable.accepted.1
  have hpromotes : ∀ u, u ∈ promotes db (.ratifyContractRuleProposal input) ↔ u = run.shadow := by
    intro u
    simp only [promotes, List.mem_flatMap, List.mem_filter, mem_acceptances, decide_eq_true_eq]
    rw [← mem_withId hunique run.ratifiable.shadowVersion hshadow]
    simp only [List.mem_filter, decide_eq_true_eq]
    constructor
    · rintro ⟨a, ⟨ha, -, hid⟩, hu⟩
      obtain rfl := Row.acceptance.inj (hunique.eq_of_key (k := .acceptanceId a.id) ha run.ratifiable.acceptance
        (by simp [Row.keys]) (by simp [Row.keys, run.named.2, hid]))
      exact hu
    · exact fun hu => ⟨run.a, ⟨run.ratifiable.acceptance, run.named⟩, hu⟩
  rcases run.writes_eq with ⟨hwrites, -⟩ | ⟨hwrites, htaken⟩
  · exact .inr ⟨run.shadow, _, _, hwrites, fun w hw => run.noVersion _ hw w rfl, run.ratifiable.shadowVersion,
      hpromotes, rfl, rfl, rfl⟩
  · refine .inl ⟨fun v hv => absurd rfl (run.noVersion _ (hwrites ▸ hv) v), fun u hu => ?_⟩
    obtain rfl := (hpromotes u).mp hu
    obtain ⟨row, hrow, hkey⟩ := taken_eq_true.mp htaken
    obtain ⟨v, rfl, hpred, hstate⟩ := successor_mem_keys hkey
    exact ⟨v, mem_ruleVersions.mpr hrow, hpred, hstate⟩

/-- What a call inserts alone: rows with free keys that promote a version, or no version anew. -/
structure Inserted (db : Db) (ws : List Row) : Prop where
  written : ∀ w ∈ ws, w.Written
  fresh : ∀ w ∈ ws, ∀ k ∈ w.keys, taken Row.keys db k = false
  unique : Unique Row.keys (db ++ ws)

theorem inserted_of_alone (hunique : Unique Row.keys db) {call : AmendmentCall} {r : AmendmentResult}
    (h : alone append db ((amendmentsSystem collation sha256 D unicode).body call tx startedAt) .empty = .ok (r, log)) :
    Inserted db log.writes := by
  have hcommit : Commit (amendmentsSystem collation sha256 D unicode) (AppendOnly.Unique Row.keys) (Since Row.keys)
      db call tx startedAt r log := (alone_commit append_parts.kept_refl hunique h).1
  have hinserts : Inserts Row.keys Row.Written ((amendmentsSystem collation sha256 D unicode).body call tx startedAt) :=
    amendment_inserts call
  obtain ⟨hfresh, hunique'⟩ := unique_commit rfl hinserts hcommit hunique
  exact ⟨hinserts.writes hcommit.ends (fun w hw => absurd hw List.not_mem_nil), hfresh, hunique'⟩

theorem call_promotes (hunique : Unique Row.keys db) {call : ProposalCall} {r : ProposalResult}
    (h : alone append db (call.body sha256 collation D unicode tx startedAt) .empty = .ok (r, log)) :
    Quiet db log.writes ∧ Promoted db call ∨ Promotes db call log.writes := by
  obtain ⟨hends, hseen⟩ := alone_ends h (by simp [Log.empty])
  have hsub : ∀ s ∈ log.seen, s.1 ⊆ db := fun s hs => (hseen s hs).symm ▸ List.Subset.refl db
  have hin : Within (db ++ log.writes) log :=
    ⟨fun s hs => List.Subset.trans (hsub s hs) (List.subset_append_left _ _), List.subset_append_right _ _⟩
  have hnone : ∀ u : RuleVersion, u ∉ ([] : List RuleVersion) := fun _ => List.not_mem_nil
  cases call with
  | backtestContractRuleProposals input =>
    simp only [ProposalCall.body, ends_bind, ends_pure] at hends
    obtain ⟨result, _, hends, -, rfl⟩ := hends
    have hbacked := backtest_backed hends hin
    exact .inl ⟨fun v hv => absurd rfl ((hbacked _ hv).2 v), fun u hu => absurd hu (hnone u)⟩
  | acceptContractRuleProposal input =>
    simp only [ProposalCall.body, ends_bind, ends_pure] at hends
    obtain ⟨result, _, hends, -, rfl⟩ := hends
    refine .inl ⟨fun v hv => ?_, fun u hu => absurd hu (hnone u)⟩
    rcases accept_writes hends hin _ hv with hplain | ⟨v', p, b, hv', -, -, hpred, hstate⟩
    · exact absurd rfl (hplain.2 v)
    · obtain rfl := Row.ruleVersion.inj hv'
      rw [hpred, hstate]
      exact ⟨by decide, fun p hp => by cases hp⟩
  | ratifyContractRuleProposal input =>
    simp only [ProposalCall.body, ends_bind, ends_pure] at hends
    obtain ⟨result, _, hends, -, rfl⟩ := hends
    obtain ⟨run⟩ := ratify_ends hends hin hsub (List.subset_append_left _ _)
    exact ratify_promotes hunique run
  | transitionRuleLifecycle input =>
    simp only [ProposalCall.body, alone_bind, ExceptOk.bind_eq_ok] at h
    obtain ⟨⟨result, last⟩, htransition, h⟩ := h
    cases h
    exact transition_promotes hunique htransition

/-! ## The law, and what keeps it -/

/-- The rows are those of the contract and what the calls have inserted. -/
structure Chained (c : AmendedContract) (db : Db) : Prop where
  unique : Unique Row.keys db
  linked : ∀ v, .ruleVersion v ∈ db → ∀ p, v.predecessorRuleVersionId = some p → ∃ u, .ruleVersion u ∈ db ∧ u.id = p
  rows : c.rows ⊆ db
  clauses : contractClauses db = contractClauses c.rows

/-- `TextCurrent`, up to version `k`. -/
def TextCurrentTo (c : AmendedContract) (k : ℕ) (db : Db) : Prop :=
  ∀ v ∈ ruleVersions db, InForce db v → c.Current k v.clauseId

theorem InForce.before {ws : List Row} {v : RuleVersion} (h : InForce (db ++ ws) v) : InForce db v :=
  ⟨h.1, fun w hw => h.2 w (mem_ruleVersions.mpr (List.mem_append_left _ (mem_ruleVersions.mp hw)))⟩

theorem Chained.insert {ws : List Row} (h : Chained c db) (hws : Inserted db ws)
    (hlinked : ∀ v, .ruleVersion v ∈ ws → ∀ p, v.predecessorRuleVersionId = some p →
      ∃ u, .ruleVersion u ∈ db ++ ws ∧ u.id = p) : Chained c (db ++ ws) := by
  refine ⟨hws.unique, fun v hv p hp => ?_, fun _ hw => List.mem_append_left _ (h.rows hw), ?_⟩
  · rcases List.mem_append.mp hv with hv | hv
    · obtain ⟨u, hu, hid⟩ := h.linked v hv p hp
      exact ⟨u, List.mem_append_left _ hu, hid⟩
    · exact hlinked v hv p hp
  · -- no call writes clauses
    have hnone : contractClauses ws = [] := by
      refine List.filterMap_eq_nil_iff.mpr fun w hw => ?_
      have hwritten := hws.written w hw
      cases w with
      | contractClause clause => exact hwritten.elim
      | _ => rfl
    rw [← h.clauses, contractClauses, List.filterMap_append]
    exact (congrArg _ hnone).trans (List.append_nil _)

theorem textCurrent_quiet {k : ℕ} {ws : List Row} (hlaw : TextCurrentTo c k db) (hquiet : Quiet db ws) :
    TextCurrentTo c k (db ++ ws) := by
  intro v hv hforce
  rcases List.mem_append.mp (mem_ruleVersions.mp hv) with hold | hnew
  · exact hlaw v (mem_ruleVersions.mpr hold) hforce.before
  · exact absurd hforce.1 (hquiet v hnew).1

/-- A promotion keeps the law exactly if the text is current. -/
theorem textCurrent_promotes {k : ℕ} {call : ProposalCall} {ws : List Row} (h : Chained c db) (hws : Inserted db ws)
    (hlaw : TextCurrentTo c k db) (hpromotes : Promotes db call ws) :
    TextCurrentTo c k (db ++ ws) ↔ ∀ u ∈ promotes db call,
      (∃ v ∈ ruleVersions db, v.predecessorRuleVersionId = some u.id ∧ v.lifecycleState = .ACTIVE) ∨
        c.Current k u.clauseId := by
  obtain ⟨u, v, rest, rfl, hrest, hu, hcall, hactive, hpred, hclause⟩ := hpromotes
  have hfresh : ∀ k ∈ (Row.ruleVersion v).keys, taken Row.keys db k = false := hws.fresh _ List.mem_cons_self
  -- the new version has no successor
  have hforce : InForce (db ++ .ruleVersion v :: rest) v := by
    refine ⟨hactive, fun w hw hwv => ?_⟩
    have hid : ∀ u', .ruleVersion u' ∈ db → u'.id ≠ v.id := fun u' hu' hid =>
      not_taken (hfresh (.ruleVersionId v.id) (by simp [Row.keys])) hu' (by simp [Row.keys, hid])
    rcases List.mem_append.mp (mem_ruleVersions.mp hw) with hold | hnew
    · obtain ⟨u', hu', hid'⟩ := h.linked w hold v.id hwv
      exact absurd hid' (hid u' hu')
    · rcases List.mem_cons.mp hnew with hw | hw
      · obtain rfl := Row.ruleVersion.inj hw
        rw [hpred] at hwv
        exact absurd (Option.some.inj hwv) (hid u hu)
      · exact absurd hw (hrest w)
  constructor
  · intro hlaw' u' hu'
    obtain rfl := (hcall u').mp hu'
    exact .inr (hclause ▸ hlaw' v (by simp) hforce)
  · intro hcurrent w hw hwforce
    rcases List.mem_append.mp (mem_ruleVersions.mp hw) with hold | hnew
    · exact hlaw w (mem_ruleVersions.mpr hold) hwforce.before
    rcases List.mem_cons.mp hnew with hw | hw
    · obtain rfl := Row.ruleVersion.inj hw
      rcases hcurrent u ((hcall u).mpr rfl) with ⟨v', hv', hpred', hactive'⟩ | hcurrent
      · exact absurd (by simp [Row.keys, hpred', hactive'])
          (not_taken (hfresh (.successor u.id .ACTIVE) (by simp [Row.keys, hpred, hactive])) (mem_ruleVersions.mp hv'))
      · exact hclause ▸ hcurrent
    · exact absurd hw (hrest w)

/-- An amendment of an unbroken chain keeps the law exactly if it leaves alone the clauses of older versions
that rules in force cite. -/
theorem textCurrent_retire {k : ℕ} {ids : List ℕ} {ws : List Row} (h : Chained c db) (hk : k < c.last)
    (hlaw : TextCurrentTo c k db) (hretires : Retires ids db (db ++ ws))
    (hids : ∀ id, id ∈ ids ↔ ∃ o ∈ contractClauses db, o.contractVersionId = c.version k ∧
      Amended db (c.version (k + 1)) o ∧ ∃ v ∈ ruleVersions db,
        (v.clauseId = some o.id ∧ v.lifecycleState = .ACTIVE) ∧ v.id = id) :
    TextCurrentTo c (k + 1) (db ++ ws) ↔ ∀ v ∈ ruleVersions db, InForce db v → ∀ i < k,
      ∀ clause ∈ contractClauses c.rows, v.clauseId = some clause.id →
        clause.contractVersionId = c.version i → c.Keeps (k + 1) clause := by
  obtain ⟨new, happend, hnew⟩ := hretires.new
  obtain rfl := List.append_cancel_left happend
  rw [h.clauses] at hids
  have hamended : ∀ o, Amended db (c.version (k + 1)) o ↔ ¬ c.Keeps (k + 1) o := by
    intro o
    simp only [Amended, AmendedContract.Keeps, h.clauses, not_exists, not_and]
  constructor
  · intro hlaw' v hv hforce i hi clause hclause hcites hversion
    by_contra hkeeps
    -- a version that cites an older clause is not retired, so the law holds of it
    have hforce' : InForce (db ++ ws) v := by
      refine ⟨hforce.1, fun w hw hpred => ?_⟩
      rcases List.mem_append.mp (mem_ruleVersions.mp hw) with hold | hw
      · exact hforce.2 w (mem_ruleVersions.mpr hold) hpred
      rcases (hnew w hw).2 with hproposed | ⟨-, id, hid, hpred'⟩
      · rw [hproposed]
        decide
      obtain ⟨o, ho, hoversion, -, v', hv', ⟨hcites', -⟩, rfl⟩ := (hids id).mp hid
      obtain rfl : v' = v := Unique.version_eq h.unique (mem_ruleVersions.mp hv') (mem_ruleVersions.mp hv)
        (Option.some.inj (hpred'.symm.trans hpred))
      have hclauseId : o.id = clause.id := Option.some.inj (hcites'.symm.trans hcites)
      obtain rfl : o = clause := Row.contractClause.inj (c.unique.eq_of_key (k := .contractClauseId o.id)
        (mem_contractClauses.mp ho) (mem_contractClauses.mp hclause) (by simp [Row.keys])
        (by simp [Row.keys, hclauseId]))
      have hik : i = k := c.distinct i (by omega) k (by omega) (hversion.symm.trans hoversion)
      omega
    exact hkeeps (hlaw' v (mem_ruleVersions.mpr (List.mem_append_left _ (mem_ruleVersions.mp hv))) hforce' i (by omega)
      clause hclause hcites hversion (k + 1) (Nat.le_refl _) (by omega))
  · intro hold v hv hforce i hi clause hclause hcites hversion j hj hij
    rcases List.mem_append.mp (mem_ruleVersions.mp hv) with hmem | hmem
    swap
    · -- a new version is not ACTIVE
      rcases (hnew v hmem).2 with hstate | ⟨hstate, -⟩ <;> rw [InForce, hstate] at hforce <;> cases hforce.1
    have hmem' : v ∈ ruleVersions db := mem_ruleVersions.mpr hmem
    rcases Nat.lt_or_ge k j with hkj | hjk
    swap
    · exact hlaw v hmem' hforce.before i (by omega) clause hclause hcites hversion j hjk hij
    obtain rfl : j = k + 1 := by omega
    rcases Nat.lt_trichotomy i k with hik | rfl | hik
    · exact hold v hmem' hforce.before i hik clause hclause hcites hversion
    · -- the clause is of the superseded version: were it amended, the version would be retired
      by_contra hkeeps
      obtain ⟨w, hw, hpred, hstate⟩ := hretires.deprecated v.id ((hids v.id).mpr
        ⟨clause, hclause, hversion, (hamended clause).mpr hkeeps, v, hmem', ⟨hcites, hforce.1⟩, rfl⟩)
      exact (hforce.2 w (mem_ruleVersions.mpr hw) hpred).1 hstate
    · obtain rfl : i = k + 1 := by omega
      exact ⟨clause, hclause, ⟨hversion, rfl⟩, rfl⟩

/-! ## Runs -/

/-- What every state of a run is. -/
structure AmendingInv (c : AmendedContract) (s : Amending) : Prop where
  chained : Chained c s.serial.db
  retired : s.retired ≤ c.last

/-- What an accepted event inserts, and that it keeps the law exactly under its condition. -/
theorem amending_step {s s' : Amending} {e : AmendingEvent} (h : AmendingInv c s)
    (hs : amendingStep c sha256 collation D unicode s e = some s') :
    AmendingInv c s' ∧ (TextCurrent c s → (TextCurrent c s' ↔ StepKeepsText c s e)) := by
  cases e with
  | call call =>
    obtain ⟨serial, hserial, rfl⟩ := Option.map_eq_some_iff.mp hs
    obtain ⟨r, log, halone, rfl⟩ := serialStep_alone hserial
    have hws := inserted_of_alone h.chained.unique halone
    simp only [amendmentsSystem, AmendmentCall.body, alone_bind, ExceptOk.bind_eq_ok] at halone
    obtain ⟨⟨result, last⟩, hcall, hlast⟩ := halone
    cases hlast
    have hview : view (amendmentsSystem collation sha256 D unicode).apply s.serial.db last.writes =
        s.serial.db ++ last.writes := view_eq _ _
    rw [hview]
    rcases call_promotes h.chained.unique hcall with ⟨hquiet, hpromoted⟩ | hpromotes
    · refine ⟨⟨h.chained.insert hws fun v hv p hp => ?_, h.retired⟩, fun hlaw => ?_⟩
      · obtain ⟨u, hu, hid⟩ := (hquiet v hv).2 p hp
        exact ⟨u, List.mem_append_left _ hu, hid⟩
      · exact iff_of_true (textCurrent_quiet hlaw hquiet) fun u hu => .inl (hpromoted u hu)
    · refine ⟨⟨h.chained.insert hws fun v hv p hp => ?_, h.retired⟩, fun hlaw => ?_⟩
      · obtain ⟨u, w, rest, hw, hrest, hu, -, -, hpred, -⟩ := hpromotes
        rcases List.mem_cons.mp (hw ▸ hv) with hv | hv
        · obtain rfl := Row.ruleVersion.inj hv
          exact ⟨u, List.mem_append_left _ hu, Option.some.inj (hpred.symm.trans hp)⟩
        · exact absurd hv (hrest v)
      · exact textCurrent_promotes h.chained hws hlaw hpromotes
  | retire =>
    simp only [amendingStep] at hs
    split at hs
    swap
    · cases hs
    rename_i hlt
    obtain ⟨serial, hserial, rfl⟩ := Option.map_eq_some_iff.mp hs
    obtain ⟨r, log, halone, rfl⟩ := serialStep_alone hserial
    have hws := inserted_of_alone h.chained.unique halone
    simp only [amendmentsSystem, AmendmentCall.body, alone_bind, ExceptOk.bind_eq_ok] at halone
    obtain ⟨⟨result, last⟩, hcall, hlast⟩ := halone
    cases hlast
    have hview : view (amendmentsSystem collation sha256 D unicode).apply s.serial.db last.writes =
        s.serial.db ++ last.writes := view_eq _ _
    rw [hview]
    -- the amendment is the one that the contract has here
    have hfound : findAmendment s.serial.db ⟨c.accountId, c.amendment s.retired⟩ =
        some ⟨c.amendment s.retired, c.accountId, some (c.version s.retired), some (c.version (s.retired + 1))⟩ := by
      have hmem := h.chained.rows (c.amended s.retired hlt)
      refine find?_unique (mem_contractAmendments.mpr hmem) (by simp) fun a ha hid => ?_
      rw [decide_eq_true_eq] at hid
      exact Row.contractAmendment.inj (h.chained.unique.eq_of_key (k := .contractAmendmentId (c.amendment s.retired))
        (mem_contractAmendments.mp ha) hmem (by simp [Row.keys, hid.1]) (by simp [Row.keys]))
    have hretires := retireAmendedRules_effect hcall hfound rfl rfl
    refine ⟨⟨h.chained.insert hws fun v hv p hp => ?_, hlt⟩, fun hlaw => ?_⟩
    · obtain ⟨new, happend, hnew⟩ := hretires.new
      obtain rfl := List.append_cancel_left happend
      obtain ⟨u, hu, hpred⟩ := (hnew v hv).1
      exact ⟨u, hu, Option.some.inj (hpred.symm.trans hp)⟩
    · refine textCurrent_retire h.chained hlt hlaw hretires fun id => ?_
      have hretired : (∃ impact, (impact, id) ∈ retirements (impactsOf s.serial.db
          (joinedClauses collation s.serial.db (c.version s.retired) (c.version (s.retired + 1))))) ↔ _ :=
        mem_retirements h.chained.unique
      rw [← hretired, List.mem_map]
      constructor
      · rintro ⟨p, hp, hid⟩
        exact ⟨p.1, hid ▸ hp⟩
      · rintro ⟨impact, hmem⟩
        exact ⟨(impact, id), hmem, rfl⟩

end

section

variable (sha256 : String → ℕ) (collation : String → String → Ordering) (D : Type) [Decimal D] (unicode : Unicode)

/-- Rules in force have the text of all versions since their own throughout a run exactly if every amendment
leaves alone what rules in force cite of older versions, and only versions with current text are promoted. -/
theorem textCurrent_iff (next : ℕ) (events : List AmendingEvent) :
    Runs.AllStates (amendingStep c sha256 collation D unicode) (TextCurrent c) (c.initial next) events ↔
      Runs.AllSteps (amendingStep c sha256 collation D unicode) (StepKeepsText c) (c.initial next) events := by
  refine Runs.allStates_iff_allSteps (AmendingInv c) (fun s e s' h hs => (amending_step h hs).1)
    (fun s e s' h hlaw hs => (amending_step h hs).2 hlaw) events _
    ⟨⟨c.unique, c.linked, List.Subset.refl _, rfl⟩, Nat.zero_le _⟩ ?_
  -- a version is current in itself
  intro v hv hforce i hi clause hclause hcites hversion j hj hij
  have hi0 : i = 0 := Nat.le_zero.mp hi
  have hj0 : j = 0 := Nat.le_zero.mp hj
  exact ⟨clause, hclause, ⟨by rw [hversion, hi0, hj0], rfl⟩, rfl⟩

end

/-- Three versions: the clause is unchanged in the second, and changed in the third. -/
def changedRows : Db :=
  [.contractClause ⟨1, 10, "4.1", some "a"⟩, .contractClause ⟨2, 20, "4.1", some "a"⟩,
    .contractClause ⟨3, 30, "4.1", some "b"⟩, .contractAmendment ⟨1, 1, some 10, some 20⟩,
    .contractAmendment ⟨2, 1, some 20, some 30⟩,
    .ruleVersion ⟨⟨1, .FIRM_RULE, .null, "h", .arr [], .PASS_FAIL, [], some 1, 0, none⟩, 5, .ACTIVE, none, none, none,
      none, none⟩]

theorem changedRows_unique : AppendOnly.Unique Row.keys changedRows := by
  simp [changedRows, AppendOnly.Unique, Row.keys]

theorem changedRows_linked (v : RuleVersion) (hv : .ruleVersion v ∈ changedRows) (p : ℕ)
    (hp : v.predecessorRuleVersionId = some p) : ∃ u, .ruleVersion u ∈ changedRows ∧ u.id = p := by
  simp [changedRows] at hv
  subst hv
  cases hp

theorem changedRows_amended (k : ℕ) (hk : k < 2) :
    .contractAmendment ⟨k + 1, 1, some (10 * (k + 1)), some (10 * (k + 1 + 1))⟩ ∈ changedRows := by
  rcases Nat.le_one_iff_eq_zero_or_eq_one.mp (Nat.le_of_lt_succ hk) with rfl | rfl
  · simp [changedRows]
  · simp [changedRows]

def changedLater : AmendedContract where
  rows := changedRows
  unique := changedRows_unique
  linked := changedRows_linked
  accountId := 1
  last := 2
  version := fun i => 10 * (i + 1)
  amendment := fun k => k + 1
  distinct := fun _ _ _ _ h => Nat.succ_injective (Nat.eq_of_mul_eq_mul_left (Nat.succ_pos 9) h)
  amended := changedRows_amended

/-- Both amendments retire their rules, and the rule of the first version stays in force. -/
theorem changedLater_outlived :
    ¬ Runs.AllStates (amendingStep changedLater textNumber compare Ref Unicode.ascii) (TextCurrent changedLater)
      (changedLater.initial 1) [.retire, .retire] := by
  decide +kernel

end Contracts
