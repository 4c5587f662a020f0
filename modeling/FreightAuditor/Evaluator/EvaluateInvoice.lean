import FreightAuditor.Evaluator.FactBundle
import FreightAuditor.RubricResolver.Rubrics

/- The deterministic gate and score evaluator.

   Every GATING criterion is evaluated; if one does not pass, the invoice is rejected
   with all the failures and nothing is scored. Otherwise every SCORING criterion
   yields a finding. `scored_iff` says when that is: exactly if every gate's value is
   true. -/
namespace Evaluator

open DecimalJs Ingestion JsText RuleEngine RubricResolver

inductive Outcome where
  | REJECTED_REWORK | SCORED
  deriving DecidableEq

structure GateFailure where
  criterionKey : String
  defect : String
  citation : Option String
  evaluatedExpr : EvalNode

inductive FindingResult where
  | CONFORMED | VARIANCE | UNASSESSABLE
  deriving DecidableEq

inductive Direction where
  | OVERCHARGE | UNDERCHARGE | INTEGRITY_ONLY
  deriving DecidableEq

structure ChargeFinding where
  criterionKey : String
  result : FindingResult
  evaluatedExpr : EvalNode
  /-- Billed minus expected, for a variance. -/
  varianceAmount : Option String
  currency : Option String
  direction : Direction

structure Scorecard where
  conformedCount : ℕ
  varianceCount : ℕ
  unassessableCount : ℕ
  totalOvercharge : String
  totalUndercharge : String

structure Pins where
  parserVersion : String
  engineSpecVersion : String
  rubricContentHash : String

structure AuditResult where
  outcome : Outcome
  gateFailures : List GateFailure
  findings : List ChargeFinding
  scorecard : Option Scorecard
  coverageMarkers : List CoverageMarker
  pins : Pins

/-- In the order they are evaluated. -/
def orderedCriteria (unicode : Unicode) (rubric : ComposedRubric) (kind : CriterionKind) :
    List StandardCriterion :=
  (rubric.criteria.filter (fun c => c.kind == kind)).insertionSort (fun a b =>
    a.evalOrder < b.evalOrder ∨ a.evalOrder = b.evalOrder ∧
      unicode.localeCompare a.criterionKey b.criterionKey ≠ .gt)

/-- An unassessable gate fails closed. -/
def gateFailure (c : StandardCriterion) (ev : EvalNode) : Option GateFailure :=
  match verdict ev with
  | .PASS => none
  | .FAIL => some ⟨c.criterionKey, c.description, c.citation, ev⟩
  | .UNASSESSABLE => some ⟨c.criterionKey, c.description ++ " (unassessable)", c.citation, ev⟩

section

variable (D : Type) [Decimal D]

/-- Billed minus expected of the money comparison under the `require` wrappers, with the currency. -/
def moneyVarianceDelta : EvalNode → Except DecimalError (Option (D × String))
  | .branch (.require _ _) _ (child :: _) => moneyVarianceDelta child
  | .branch (.compare _ _ _ _) _ (left :: right :: _) =>
    match left.value, right.value with
    | .money billed currency, .money expected _ => do
      let b ← newDecimal D billed
      let e ← newDecimal D expected
      return some (Decimal.minus b e, currency)
    | _, _ => return none
  | _ => return none

def isPositive (d : D) : Bool := Decimal.val d != .nan && !Decimal.isNegative d

def findingResult : Verdict → FindingResult
  | .PASS => .CONFORMED
  | .FAIL => .VARIANCE
  | .UNASSESSABLE => .UNASSESSABLE

/-- What the score phase has added up. -/
structure Tally where
  findings : List ChargeFinding
  conformed : ℕ
  variance : ℕ
  unassessable : ℕ
  totalOvercharge : D
  totalUndercharge : D

/-- A variance with a money comparison counts as overcharge or undercharge. -/
def scoreStep (tally : Tally D) (scored : StandardCriterion × EvalNode) : Except DecimalError (Tally D) := do
  let (c, ev) := scored
  let moneyDelta ← moneyVarianceDelta D ev
  let observed := findingResult (verdict ev)
  let finding : ChargeFinding := ⟨c.criterionKey, observed, ev, none, none, .INTEGRITY_ONLY⟩
  match observed, moneyDelta with
  | .CONFORMED, _ =>
    return { tally with findings := tally.findings ++ [finding], conformed := tally.conformed + 1 }
  | .UNASSESSABLE, _ =>
    return { tally with findings := tally.findings ++ [finding], unassessable := tally.unassessable + 1 }
  | .VARIANCE, none =>
    return { tally with findings := tally.findings ++ [finding], variance := tally.variance + 1 }
  | .VARIANCE, some (delta, currency) =>
    let direction := if Decimal.isNegative delta then Direction.UNDERCHARGE else .OVERCHARGE
    let varied : ChargeFinding :=
      { finding with varianceAmount := some (Decimal.toFixed 4 delta), currency := some currency, direction }
    let tally := { tally with findings := tally.findings ++ [varied], variance := tally.variance + 1 }
    if isPositive D delta then
      return { tally with totalOvercharge := Decimal.plus tally.totalOvercharge delta }
    else
      return { tally with totalUndercharge := Decimal.plus tally.totalUndercharge (Decimal.abs delta) }

/-- Each criterion with its evaluated tree. -/
def evaluateCriteria (facts : FactBundle) (criteria : List StandardCriterion) :
    Except DecimalError (List (StandardCriterion × EvalNode)) :=
  criteria.mapM (fun c => do
    let ev ← evaluate D facts c.ast
    return (c, ev))

def evaluateInvoice (unicode : Unicode) (sha256 : String → String) (invoice : ParsedInvoice)
    (rubric : ComposedRubric) (contract : Option ContractFacts) : Except DecimalError AuditResult := do
  let facts ← buildFactBundle D unicode invoice contract
  let coverageMarkers := findCoverageMarkers invoice
  let pins : Pins := ⟨invoice.parserVersion, ENGINE_SPEC_VERSION, rubricContentHash sha256 rubric⟩
  -- all gates, not the first that fails
  let gates ← evaluateCriteria D facts (orderedCriteria unicode rubric .GATING)
  let gateFailures := gates.filterMap (fun g => gateFailure g.1 g.2)
  if gateFailures.isEmpty then
    let scored ← evaluateCriteria D facts (orderedCriteria unicode rubric .SCORING)
    let zero : D := Decimal.ofNumber (.ofNat 0)
    let tally ← scored.foldlM (scoreStep D) ⟨[], 0, 0, 0, zero, zero⟩
    let scorecard : Scorecard := ⟨tally.conformed, tally.variance, tally.unassessable,
      Decimal.toFixed 4 tally.totalOvercharge, Decimal.toFixed 4 tally.totalUndercharge⟩
    return ⟨.SCORED, [], tally.findings, some scorecard, coverageMarkers, pins⟩
  else return ⟨.REJECTED_REWORK, gateFailures, [], none, coverageMarkers, pins⟩

end

/-! ## When an invoice is scored -/

section

variable {D : Type} [Decimal D] {unicode : Unicode} {sha256 : String → String} {invoice : ParsedInvoice}
  {rubric : ComposedRubric} {contract : Option ContractFacts} {result : AuditResult} {facts : FactBundle}

@[simp] theorem mem_orderedCriteria {kind : CriterionKind} {c : StandardCriterion} :
    c ∈ orderedCriteria unicode rubric kind ↔ c ∈ rubric.criteria ∧ c.kind = kind := by
  simp [orderedCriteria, List.mem_insertionSort]

theorem mem_evaluateCriteria {criteria : List StandardCriterion} {out : List (StandardCriterion × EvalNode)}
    (h : evaluateCriteria D facts criteria = .ok out) {c : StandardCriterion} {ev : EvalNode} :
    (c, ev) ∈ out ↔ c ∈ criteria ∧ evaluate D facts c.ast = .ok ev := by
  induction criteria generalizing out with
  | nil => cases h; simp
  | cons d rest ih =>
    simp only [evaluateCriteria, List.mapM_cons, ExceptOk.bind_eq_ok, ExceptOk.pure_eq_ok] at h
    obtain ⟨_, ⟨dev, hdev, rfl⟩, out', hrest, rfl⟩ := h
    rw [List.mem_cons, List.mem_cons, ih hrest]
    constructor
    · rintro (h | ⟨hc, hev⟩)
      · obtain ⟨rfl, rfl⟩ := Prod.mk.inj h
        exact ⟨.inl rfl, hdev⟩
      · exact ⟨.inr hc, hev⟩
    · rintro ⟨rfl | hc, hev⟩
      · exact .inl (by rw [Except.ok.inj (hdev.symm.trans hev)])
      · exact .inr ⟨hc, hev⟩

/-- A criterion list that is evaluated has a tree for each criterion. -/
theorem evaluateCriteria_tree {criteria : List StandardCriterion} {out : List (StandardCriterion × EvalNode)}
    (h : evaluateCriteria D facts criteria = .ok out) {c : StandardCriterion} (hc : c ∈ criteria) :
    ∃ ev, evaluate D facts c.ast = .ok ev := by
  induction criteria generalizing out with
  | nil => cases hc
  | cons d rest ih =>
    simp only [evaluateCriteria, List.mapM_cons, ExceptOk.bind_eq_ok, ExceptOk.pure_eq_ok] at h
    obtain ⟨_, ⟨dev, hdev, rfl⟩, out', hrest, rfl⟩ := h
    rcases List.mem_cons.mp hc with rfl | hc
    · exact ⟨dev, hdev⟩
    · exact ih hrest hc

theorem gateFailure_eq_none {c : StandardCriterion} {ev : EvalNode} :
    gateFailure c ev = none ↔ ev.value = .bool true := by
  unfold gateFailure verdict EvalValue.verdict
  split <;> rename_i h <;> split at h <;> simp_all

/-- A gate passes if its value is true. -/
def GatePasses (D : Type) [Decimal D] (facts : FactBundle) (c : StandardCriterion) : Prop :=
  value D facts c.ast = .ok (.bool true)

/-- What evaluation of an invoice does. -/
structure EvaluationRun (D : Type) [Decimal D] (unicode : Unicode) (invoice : ParsedInvoice)
    (rubric : ComposedRubric) (contract : Option ContractFacts) (result : AuditResult) (facts : FactBundle) :
    Prop where
  bundle : buildFactBundle D unicode invoice contract = .ok facts
  gate : ∀ c ∈ rubric.criteria, c.kind = .GATING → ∃ ev, evaluate D facts c.ast = .ok ev
  scored : result.outcome = .SCORED ↔ ∀ c ∈ rubric.criteria, c.kind = .GATING → GatePasses D facts c

/-- No gate fails exactly if every gate's value is true. -/
theorem gateFailures_isEmpty {gates : List (StandardCriterion × EvalNode)}
    (hgates : evaluateCriteria D facts (orderedCriteria unicode rubric .GATING) = .ok gates) :
    (gates.filterMap (fun g => gateFailure g.1 g.2)).isEmpty = true ↔
      ∀ c ∈ rubric.criteria, c.kind = .GATING → GatePasses D facts c := by
  rw [List.isEmpty_iff, List.filterMap_eq_nil_iff]
  constructor
  · intro hnone c hc hk
    obtain ⟨ev, hev⟩ := evaluateCriteria_tree hgates (mem_orderedCriteria.mpr ⟨hc, hk⟩)
    have hmem := (mem_evaluateCriteria hgates).mpr ⟨mem_orderedCriteria.mpr ⟨hc, hk⟩, hev⟩
    rw [GatePasses, value, hev, ← gateFailure_eq_none.mp (hnone _ hmem)]
    rfl
  · rintro hpass ⟨c, ev⟩ hmem
    obtain ⟨hc, hev⟩ := (mem_evaluateCriteria hgates).mp hmem
    have hval := hpass c (mem_orderedCriteria.mp hc).1 (mem_orderedCriteria.mp hc).2
    rw [GatePasses, value, hev] at hval
    exact gateFailure_eq_none.mpr (Except.ok.inj hval)

theorem evaluateInvoice_run (h : evaluateInvoice D unicode sha256 invoice rubric contract = .ok result) :
    ∃ facts, EvaluationRun D unicode invoice rubric contract result facts := by
  simp only [evaluateInvoice, ExceptOk.bind_eq_ok] at h
  obtain ⟨facts, hfacts, gates, hgates, h⟩ := h
  have htree : ∀ c ∈ rubric.criteria, c.kind = .GATING → ∃ ev, evaluate D facts c.ast = .ok ev :=
    fun c hc hk => evaluateCriteria_tree hgates (mem_orderedCriteria.mpr ⟨hc, hk⟩)
  refine ⟨facts, hfacts, htree, ?_⟩
  rw [← gateFailures_isEmpty hgates]
  split at h
  · rename_i hempty
    simp only [ExceptOk.bind_eq_ok, ExceptOk.pure_eq_ok] at h
    obtain ⟨scored, -, tally, -, rfl⟩ := h
    simp [hempty]
  · rename_i hne
    obtain rfl := ExceptOk.pure_eq_ok.mp h
    simp [hne]

theorem evaluateInvoice_pins (h : evaluateInvoice D unicode sha256 invoice rubric contract = .ok result) :
    result.pins = ⟨invoice.parserVersion, ENGINE_SPEC_VERSION, rubricContentHash sha256 rubric⟩ := by
  simp only [evaluateInvoice, ExceptOk.bind_eq_ok] at h
  obtain ⟨facts, hfacts, gates, hgates, h⟩ := h
  split at h
  · simp only [ExceptOk.bind_eq_ok, ExceptOk.pure_eq_ok] at h
    obtain ⟨scored, -, tally, -, rfl⟩ := h
    rfl
  · obtain rfl := ExceptOk.pure_eq_ok.mp h
    rfl

/-! ## Which criteria judged -/

theorem gateFailure_some {c : StandardCriterion} {ev : EvalNode} {g : GateFailure} (h : gateFailure c ev = some g) :
    g.criterionKey = c.criterionKey ∧ g.evaluatedExpr = ev := by
  unfold gateFailure at h
  split at h <;> cases h <;> exact ⟨rfl, rfl⟩

theorem scoreStep_findings {t t' : Tally D} {c : StandardCriterion} {ev : EvalNode}
    (h : scoreStep D t (c, ev) = .ok t') :
    ∃ f, t'.findings = t.findings ++ [f] ∧ f.criterionKey = c.criterionKey ∧ f.evaluatedExpr = ev := by
  simp only [scoreStep, ExceptOk.bind_eq_ok] at h
  obtain ⟨delta, -, h⟩ := h
  split at h
  · cases h; exact ⟨_, rfl, rfl, rfl⟩
  · cases h; exact ⟨_, rfl, rfl, rfl⟩
  · cases h; exact ⟨_, rfl, rfl, rfl⟩
  · split at h <;> cases h <;> exact ⟨_, rfl, rfl, rfl⟩

theorem foldlM_scoreStep_findings {scored : List (StandardCriterion × EvalNode)} {t t' : Tally D}
    (h : scored.foldlM (scoreStep D) t = .ok t') {f : ChargeFinding} (hf : f ∈ t'.findings) :
    f ∈ t.findings ∨ ∃ p ∈ scored, f.criterionKey = p.1.criterionKey ∧ f.evaluatedExpr = p.2 := by
  induction scored generalizing t with
  | nil =>
    obtain rfl := ExceptOk.pure_eq_ok.mp h
    exact .inl hf
  | cons p rest ih =>
    rw [List.foldlM_cons] at h
    obtain ⟨mid, hmid, h⟩ := ExceptOk.bind_eq_ok.mp h
    obtain ⟨first, hfirst, hkey, hev⟩ := scoreStep_findings hmid
    rcases ih h with hold | ⟨q, hq, hjudged⟩
    · rw [hfirst] at hold
      rcases List.mem_append.mp hold with hold | hnew
      · exact .inl hold
      · rw [List.mem_singleton.mp hnew]
        exact .inr ⟨p, List.mem_cons_self, hkey, hev⟩
    · exact .inr ⟨q, List.mem_cons_of_mem _ hq, hjudged⟩

/-- A criterion of the rubric with this key was evaluated to this tree. -/
def JudgedBy (D : Type) [Decimal D] (facts : FactBundle) (rubric : ComposedRubric) (criterionKey : String)
    (ev : EvalNode) : Prop :=
  ∃ c ∈ rubric.criteria, c.criterionKey = criterionKey ∧ evaluate D facts c.ast = .ok ev

theorem evaluateInvoice_judged (h : evaluateInvoice D unicode sha256 invoice rubric contract = .ok result) :
    ∃ facts, buildFactBundle D unicode invoice contract = .ok facts ∧
      (∀ g ∈ result.gateFailures, JudgedBy D facts rubric g.criterionKey g.evaluatedExpr) ∧
      ∀ f ∈ result.findings, JudgedBy D facts rubric f.criterionKey f.evaluatedExpr := by
  simp only [evaluateInvoice, ExceptOk.bind_eq_ok] at h
  obtain ⟨facts, hfacts, gates, hgates, h⟩ := h
  refine ⟨facts, hfacts, ?_⟩
  split at h
  · simp only [ExceptOk.bind_eq_ok, ExceptOk.pure_eq_ok] at h
    obtain ⟨scored, hscored, tally, htally, rfl⟩ := h
    refine ⟨fun g hg => absurd hg List.not_mem_nil, fun f hf => ?_⟩
    rcases foldlM_scoreStep_findings htally hf with hnone | ⟨p, hp, hkey, hev⟩
    · exact absurd hnone List.not_mem_nil
    · obtain ⟨hc, hpev⟩ := (mem_evaluateCriteria hscored).mp hp
      exact ⟨p.1, (mem_orderedCriteria.mp hc).1, hkey.symm, hev ▸ hpev⟩
  · obtain rfl := ExceptOk.pure_eq_ok.mp h
    refine ⟨fun g hg => ?_, fun f hf => absurd hf List.not_mem_nil⟩
    obtain ⟨p, hp, hpg⟩ := List.mem_filterMap.mp hg
    obtain ⟨hkey, hev⟩ := gateFailure_some hpg
    obtain ⟨hc, hpev⟩ := (mem_evaluateCriteria hgates).mp hp
    exact ⟨p.1, (mem_orderedCriteria.mp hc).1, hkey.symm, hev ▸ hpev⟩

/-! ## When evaluation does not throw -/

theorem evaluateCriteria_of_trees {criteria : List StandardCriterion}
    (h : ∀ c ∈ criteria, ∃ ev, evaluate D facts c.ast = .ok ev) : ∃ out, evaluateCriteria D facts criteria = .ok out := by
  induction criteria with
  | nil => exact ⟨[], rfl⟩
  | cons c rest ih =>
    obtain ⟨ev, hev⟩ := h c List.mem_cons_self
    obtain ⟨out, hout⟩ := ih fun d hd => h d (List.mem_cons_of_mem _ hd)
    refine ⟨(c, ev) :: out, ?_⟩
    simp only [evaluateCriteria, List.mapM_cons, ExceptOk.bind_eq_ok, ExceptOk.pure_eq_ok]
    exact ⟨_, ⟨ev, hev, rfl⟩, out, hout, rfl⟩

/-- The score step throws only where the delta does. -/
theorem scoreStep_ok {t : Tally D} {c : StandardCriterion} {ev : EvalNode} :
    (∃ tally', scoreStep D t (c, ev) = .ok tally') ↔ ∃ delta, moneyVarianceDelta D ev = .ok delta := by
  constructor
  · rintro ⟨tally', h⟩
    simp only [scoreStep, ExceptOk.bind_eq_ok] at h
    obtain ⟨delta, hdelta, -⟩ := h
    exact ⟨delta, hdelta⟩
  · rintro ⟨delta, hdelta⟩
    simp only [scoreStep, hdelta, ExceptOk.ok_bind]
    split
    · exact ⟨_, rfl⟩
    · exact ⟨_, rfl⟩
    · exact ⟨_, rfl⟩
    · split <;> exact ⟨_, rfl⟩

theorem foldlM_scoreStep_ok {scored : List (StandardCriterion × EvalNode)} (tally : Tally D) :
    (∃ tally', scored.foldlM (scoreStep D) tally = .ok tally') ↔
      ∀ p ∈ scored, ∃ delta, moneyVarianceDelta D p.2 = .ok delta := by
  induction scored generalizing tally with
  | nil => exact iff_of_true ⟨tally, rfl⟩ (by simp)
  | cons p rest ih =>
    have hstep : _ ↔ ∃ delta, moneyVarianceDelta D p.2 = .ok delta := scoreStep_ok (t := tally) (c := p.1)
    rw [List.forall_mem_cons, ← hstep]
    simp only [List.foldlM_cons, ExceptOk.bind_eq_ok]
    constructor
    · rintro ⟨tally', mid, hmid, hrest⟩
      exact ⟨⟨mid, hmid⟩, (ih mid).mp ⟨tally', hrest⟩⟩
    · rintro ⟨⟨mid, hmid⟩, hrest⟩
      obtain ⟨tally', htally⟩ := (ih mid).mpr hrest
      exact ⟨tally', mid, hmid, htally⟩

/-- Evaluation returns if the facts can be built, every gate can be evaluated and, once all of them
pass, every observation with its delta. -/
theorem evaluateInvoice_returns : (∃ result, evaluateInvoice D unicode sha256 invoice rubric contract = .ok result) ↔
    ∃ facts, buildFactBundle D unicode invoice contract = .ok facts ∧
      (∀ c ∈ rubric.criteria, c.kind = .GATING → ∃ ev, evaluate D facts c.ast = .ok ev) ∧
      ((∀ c ∈ rubric.criteria, c.kind = .GATING → GatePasses D facts c) →
        ∀ c ∈ rubric.criteria, c.kind = .SCORING →
          ∃ ev, evaluate D facts c.ast = .ok ev ∧ ∃ delta, moneyVarianceDelta D ev = .ok delta) := by
  constructor
  · rintro ⟨result, h⟩
    simp only [evaluateInvoice, ExceptOk.bind_eq_ok] at h
    obtain ⟨facts, hfacts, gates, hgates, h⟩ := h
    refine ⟨facts, hfacts, fun c hc hk => evaluateCriteria_tree hgates (mem_orderedCriteria.mpr ⟨hc, hk⟩),
      fun hpass c hc hk => ?_⟩
    rw [if_pos ((gateFailures_isEmpty hgates).mpr hpass)] at h
    simp only [ExceptOk.bind_eq_ok] at h
    obtain ⟨scored, hscored, tally, htally, -⟩ := h
    obtain ⟨ev, hev⟩ := evaluateCriteria_tree hscored (mem_orderedCriteria.mpr ⟨hc, hk⟩)
    exact ⟨ev, hev, (foldlM_scoreStep_ok _).mp ⟨tally, htally⟩ (c, ev)
      ((mem_evaluateCriteria hscored).mpr ⟨mem_orderedCriteria.mpr ⟨hc, hk⟩, hev⟩)⟩
  · rintro ⟨facts, hfacts, htrees, hscoring⟩
    obtain ⟨gates, hgates⟩ : ∃ gates, evaluateCriteria D facts (orderedCriteria unicode rubric .GATING) = .ok gates :=
      evaluateCriteria_of_trees fun c hc => htrees c (mem_orderedCriteria.mp hc).1 (mem_orderedCriteria.mp hc).2
    simp only [evaluateInvoice, hfacts, hgates, ExceptOk.ok_bind]
    split
    · rename_i hempty
      have hscore := hscoring ((gateFailures_isEmpty hgates).mp hempty)
      obtain ⟨scored, hscored⟩ :
          ∃ scored, evaluateCriteria D facts (orderedCriteria unicode rubric .SCORING) = .ok scored :=
        evaluateCriteria_of_trees fun c hc =>
          (hscore c (mem_orderedCriteria.mp hc).1 (mem_orderedCriteria.mp hc).2).imp fun _ h => h.1
      obtain ⟨tally, htally⟩ : ∃ tally, scored.foldlM (scoreStep D)
          ⟨[], 0, 0, 0, Decimal.ofNumber (.ofNat 0), Decimal.ofNumber (.ofNat 0)⟩ = .ok tally :=
        (foldlM_scoreStep_ok _).mpr fun p hp => by
          obtain ⟨hc, hev⟩ := (mem_evaluateCriteria hscored).mp hp
          obtain ⟨ev, hev', hdelta⟩ := hscore p.1 (mem_orderedCriteria.mp hc).1 (mem_orderedCriteria.mp hc).2
          rw [Except.ok.inj (hev.symm.trans hev')]
          exact hdelta
      simp only [hscored, htally, ExceptOk.ok_bind]
      exact ⟨_, rfl⟩
    · exact ⟨_, rfl⟩

end

end Evaluator
