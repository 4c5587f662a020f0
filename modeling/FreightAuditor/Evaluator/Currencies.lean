import FreightAuditor.Evaluator.GateSoundness

/- Whether a verdict on two amounts of money was reached within one currency.

   The interpreter compares magnitudes. `CONTRACT.RATE_VARIANCE` stands behind a
   `require` on a fact that is only there when both sides state one currency, and so it
   never compares across currencies (`rateVariance_agrees`). `STD.FOOTING` has no such
   guard: it compares the declared total, in the currency of the header, with the sum
   over all charges. `moneyVerdicts_agree_iff` says when that is harmless. -/
namespace Evaluator

open DecimalJs Ingestion JsText RuleEngine RubricResolver

/-! ## Verdicts on money -/

mutual

/-- The nodes of an evaluated tree. -/
def nodes : EvalNode → List EvalNode
  | .leaf n v => [.leaf n v]
  | .branch n v children => .branch n v children :: nodesOf children

def nodesOf : List EvalNode → List EvalNode
  | [] => []
  | n :: rest => nodes n ++ nodesOf rest

end

/-- A comparison of two money values that came out true or false. -/
inductive MoneyVerdict : EvalNode → AstNode → AstNode → Prop
  | intro (op : CompareOp) (left right : AstNode) (tolerance : Option String) (b : Bool) (l r : EvalNode)
      (la lc ra rc : String) (hl : l.value = .money la lc) (hr : r.value = .money ra rc) :
      MoneyVerdict (.branch (.compare op left right tolerance) (.bool b) [l, r]) left right

/-- The comparisons of money facts in a criterion, under its `require` wrappers. -/
def moneyComparisons : AstNode → List (AstNode × AstNode)
  | .require _ thenNode => moneyComparisons thenNode
  | .compare _ (.fact left) (.fact right) _ => [(.fact left, .fact right)]
  | _ => []

section

variable (inv : ParsedInvoice) (contract : Option ContractFacts)

/-- The currency of the contract's rate. -/
def rateCurrency : Option String :=
  (contract.bind ContractFacts.linehaulRate).join.map ContractRate.currency

/-- The currencies of the amounts behind a money fact. -/
def currenciesBehind : AstNode → List String
  | .fact "declared_total" => [inv.headerCurrency.getD ""]
  | .fact "line_sum" => (inv.charges.filter (fun c => c.amount.isSome)).map NormalizedCharge.currency
  | .fact "billed_linehaul" => (linehaulCharges inv).map NormalizedCharge.currency
  | .fact "contract_linehaul_rate" => (rateCurrency contract).toList
  | _ => []

/-- One stated currency throughout. -/
def OneCurrency (currencies : List String) : Prop := ∃ currency ≠ "", ∀ c ∈ currencies, c = currency

/-- Every verdict on money in the tree is within one currency; where a comparison would not be, the
criterion is unassessable. -/
structure MoneyVerdictsAgree (c : StandardCriterion) (ev : EvalNode) : Prop where
  verdicts : ∀ n ∈ nodes ev, ∀ left right, MoneyVerdict n left right →
    OneCurrency (currenciesBehind inv contract left ++ currenciesBehind inv contract right)
  otherwise : ∀ p ∈ moneyComparisons c.ast,
    ¬ OneCurrency (currenciesBehind inv contract p.1 ++ currenciesBehind inv contract p.2) →
      verdict ev = .UNASSESSABLE

/-- The criterion is evaluated for the result, with this tree: every gate, and the others where the
invoice is scored. -/
def Evaluated (D : Type) [Decimal D] (unicode : Unicode) (rubric : ComposedRubric) (result : AuditResult)
    (c : StandardCriterion) (ev : EvalNode) : Prop :=
  c ∈ rubric.criteria ∧ (c.kind = .SCORING → result.outcome = .SCORED) ∧
    ∃ facts, buildFactBundle D unicode inv contract = .ok facts ∧ evaluate D facts c.ast = .ok ev

/-- The footing gate has two finite figures to compare. -/
def FootingCompared (D : Type) [Decimal D] : Prop :=
  ∃ total ∈ inv.footing.bind Footing.declaredTotal, (safeDecimal D total).isSome ∧
    ((safeDecimal D ((inv.footing.map Footing.lineSum).getD "0.0000")).bind
      (fun d => safeDecimal D (Decimal.toFixed 4 d))).isSome

/-- The header states a currency, and every charge that counts has it. -/
def HeaderCurrencyShared : Prop :=
  inv.headerCurrency.getD "" ≠ "" ∧
    ∀ c ∈ inv.charges, c.amount.isSome → c.currency = inv.headerCurrency.getD ""

end

/-! ## Shapes of evaluated trees -/

section

variable {D : Type} [Decimal D] {facts : FactBundle}

theorem evaluate_fact (key : String) :
    ∃ v, evaluate D facts (.fact key) = .ok (.leaf (.fact key) v) ∧ value D facts (.fact key) = .ok v := by
  simp only [value, evaluate]
  split
  · exact ⟨_, rfl, rfl⟩
  · split
    · exact ⟨_, rfl, rfl⟩
    · exact ⟨_, rfl, rfl⟩

theorem evaluate_require {key : String} {thenNode : AstNode} {ev : EvalNode}
    (h : evaluate D facts (.require key thenNode) = .ok ev) :
    (facts.absent key = true ∧ verdict ev = .UNASSESSABLE ∧ ∃ v, nodes ev = [.leaf (.require key thenNode) v]) ∨
      facts.absent key = false ∧ ∃ child, evaluate D facts thenNode = .ok child ∧ verdict ev = verdict child ∧
        nodes ev = .branch (.require key thenNode) child.value [child] :: nodes child := by
  simp only [evaluate] at h
  split at h
  · rename_i habsent
    cases h
    exact .inl ⟨habsent, rfl, _, by rw [nodes]⟩
  · rename_i hpresent
    simp only [ExceptOk.bind_eq_ok, ExceptOk.pure_eq_ok] at h
    obtain ⟨child, hchild, rfl⟩ := h
    exact .inr ⟨by simpa using hpresent, child, hchild, rfl, by rw [nodes, nodesOf, nodesOf, List.append_nil]⟩

theorem not_moneyVerdict_leaf {n left right : AstNode} {v : EvalValue} : ¬ MoneyVerdict (.leaf n v) left right :=
  fun h => by cases h

theorem not_moneyVerdict_require {key : String} {thenNode left right : AstNode} {v : EvalValue}
    {children : List EvalNode} : ¬ MoneyVerdict (.branch (.require key thenNode) v children) left right :=
  fun h => by cases h

/-- A comparison of two facts. -/
theorem evaluate_factCompare {op : CompareOp} {left right : String} {tolerance : Option String} {ev : EvalNode}
    (h : evaluate D facts (.compare op (.fact left) (.fact right) tolerance) = .ok ev) :
    ∃ lv rv v, value D facts (.fact left) = .ok lv ∧ value D facts (.fact right) = .ok rv ∧
      value D facts (.compare op (.fact left) (.fact right) tolerance) = .ok v ∧ ev.value = v ∧
      nodes ev = [.branch (.compare op (.fact left) (.fact right) tolerance) v
        [.leaf (.fact left) lv, .leaf (.fact right) rv], .leaf (.fact left) lv, .leaf (.fact right) rv] := by
  obtain ⟨lv, hl, hlv⟩ := evaluate_fact (D := D) left
  obtain ⟨rv, hr, hrv⟩ := evaluate_fact (D := D) right
  have hval : value D facts (.compare op (.fact left) (.fact right) tolerance) = .ok ev.value := by
    rw [value, h]
    rfl
  rw [evaluate, hl, hr] at h
  simp only [ExceptOk.ok_bind, ExceptOk.bind_eq_ok, ExceptOk.pure_eq_ok] at h
  obtain ⟨v, -, rfl⟩ := h
  exact ⟨lv, rv, v, hlv, hrv, hval, rfl, by simp [nodes, nodesOf]⟩

/-- A literal is never money. -/
theorem litValue_ne_money (x : LitValue) {amount currency : String} : litValue D x ≠ .money amount currency := by
  cases x with
  | number n =>
    rw [litValue]
    split <;> simp
  | _ => simp [litValue]

theorem factIs_agrees {op : CompareOp} {key : String} {x : LitValue} {ev : EvalNode}
    (h : evaluate D facts (factIs op key x) = .ok ev) : ∀ n ∈ nodes ev, ∀ left right, ¬ MoneyVerdict n left right := by
  obtain ⟨lv, hl, -⟩ := evaluate_fact (D := D) key
  rw [factIs, evaluate, hl] at h
  simp only [evaluate, ExceptOk.ok_bind, ExceptOk.bind_eq_ok, ExceptOk.pure_eq_ok] at h
  obtain ⟨v, -, rfl⟩ := h
  intro n hn left right hverdict
  simp only [nodes, nodesOf, List.append_nil, List.cons_append, List.nil_append, List.mem_cons,
    List.not_mem_nil, or_false] at hn
  rcases hn with rfl | rfl | rfl
  · cases hverdict with
    | intro _ _ _ _ _ _ _ _ _ _ _ _ hr => exact litValue_ne_money x hr
  · exact not_moneyVerdict_leaf hverdict
  · exact not_moneyVerdict_leaf hverdict

end

/-! ## The criteria one by one -/

section

variable {D : Type} [Decimal D] {unicode : Unicode} {sha256 : String → String} {inv : ParsedInvoice}
  {contract : Option ContractFacts} {facts : FactBundle} {c : StandardCriterion} {ev : EvalNode}

theorem oneCurrency_footing :
    OneCurrency (currenciesBehind inv contract (.fact "declared_total") ++
      currenciesBehind inv contract (.fact "line_sum")) ↔ HeaderCurrencyShared inv := by
  simp only [currenciesBehind, OneCurrency, HeaderCurrencyShared, List.singleton_append, List.mem_cons,
    forall_eq_or_imp, List.forall_mem_map, List.mem_filter, and_imp]
  constructor
  · rintro ⟨currency, hne, hheader, hcharges⟩
    exact ⟨hheader ▸ hne, fun c hc ha => (hcharges c hc ha).trans hheader.symm⟩
  · rintro ⟨hne, hcharges⟩
    exact ⟨_, hne, rfl, hcharges⟩

/-- A comparison with a literal says nothing about money. -/
theorem literalCriterion_agrees (hast : (∃ op key x, c.ast = factIs op key x) ∨ ∃ key x, c.ast = requiredFactIs key x)
    (h : evaluate D facts c.ast = .ok ev) : MoneyVerdictsAgree inv contract c ev := by
  rcases hast with ⟨op, key, x, hast⟩ | ⟨key, x, hast⟩
  · rw [hast] at h
    exact ⟨fun n hn left right hv => absurd hv (factIs_agrees h n hn left right), by simp [hast, factIs, moneyComparisons]⟩
  · rw [hast, requiredFactIs] at h
    refine ⟨fun n hn left right hv => ?_, by simp [hast, requiredFactIs, factIs, moneyComparisons]⟩
    rcases evaluate_require h with ⟨-, -, v, hnodes⟩ | ⟨-, child, hchild, -, hnodes⟩
    · rw [hnodes, List.mem_singleton] at hn
      exact absurd (hn ▸ hv) not_moneyVerdict_leaf
    · rw [hnodes, List.mem_cons] at hn
      rcases hn with rfl | hn
      · exact absurd hv not_moneyVerdict_require
      · exact absurd hv (factIs_agrees hchild n hn left right)

/-- The line sum is compared as the fact text it is put into. -/
theorem lineSum_compared {text : String} {d : D} (h : newDecimal D text = .ok d) :
    ((safeDecimal D text).bind (fun d => safeDecimal D (Decimal.toFixed 4 d))).isSome =
      (safeDecimal D (Decimal.toFixed 4 d)).isSome := by
  have hd := newDecimal_eq_ok.mp h
  cases hf : (Decimal.val d).isFinite
  · obtain ⟨d', hd', hv⟩ := Decimal.toFixed_reads_nonFinite (k := 4) hf
    simp [safeDecimal, hd, hd', Decimal.isFinite, hv, hf]
  · rw [safeDecimal_some.mpr ⟨hd, Val.isFinite_iff.mp hf⟩, Option.bind_some]

/-- The footing gate is unassessable exactly unless it has two figures to compare, and these are what
its only verdict on money is about. -/
theorem footing_verdict (hfacts : buildFactBundle D unicode inv contract = .ok facts)
    (h : evaluate D facts footingCriterion.ast = .ok ev) :
    (verdict ev = .UNASSESSABLE ↔ ¬ FootingCompared inv D) ∧
      ∀ n ∈ nodes ev, ∀ left right, MoneyVerdict n left right →
        left = .fact "declared_total" ∧ right = .fact "line_sum" ∧ FootingCompared inv D := by
  obtain ⟨rateBasis, lineSum, hline, hmem⟩ := buildFactBundle_invoice hfacts
  have hdeclared := hmem "declared_total" _ List.mem_cons_self
  have hsum := hmem "line_sum" _ (List.mem_cons_of_mem _ List.mem_cons_self)
  rcases evaluate_require h with ⟨habsent, hverdict, v, hnodes⟩ | ⟨hpresent, child, hchild, hverdict, hnodes⟩
  · have hnot : ¬ FootingCompared inv D := by
      rintro ⟨total, htotal, -⟩
      rw [Option.mem_def.mp htotal] at hdeclared
      simp [FactBundle.absent, hdeclared] at habsent
    refine ⟨by simp [hverdict, hnot], fun n hn left right hv => ?_⟩
    rw [hnodes, List.mem_singleton] at hn
    exact absurd (hn ▸ hv) not_moneyVerdict_leaf
  · obtain ⟨total, htotal⟩ : ∃ total, inv.footing.bind Footing.declaredTotal = some total := by
      cases ht : inv.footing.bind Footing.declaredTotal with
      | none => rw [ht] at hdeclared; simp [FactBundle.absent, hdeclared] at hpresent
      | some total => exact ⟨total, rfl⟩
    rw [htotal] at hdeclared
    have hcompared : FootingCompared inv D ↔
        (safeDecimal D total).isSome ∧ (safeDecimal D (Decimal.toFixed 4 lineSum)).isSome := by
      rw [FootingCompared, htotal, lineSum_compared hline]
      simp
    obtain ⟨lv, rv, v, -, -, hval, hv, hchildNodes⟩ := evaluate_factCompare hchild
    have hcases : (FootingCompared inv D ∧ ∃ b, v = .bool b) ∨ (¬ FootingCompared inv D ∧ ∃ r, v = .unassessable r) := by
      rw [hcompared]
      cases ha : safeDecimal D total with
      | none =>
        rw [value_moneyApprox_unassessable hdeclared hsum (.inl ha)] at hval
        exact .inr ⟨by simp, _, (Except.ok.inj hval).symm⟩
      | some da =>
        cases hb : safeDecimal D (Decimal.toFixed 4 lineSum) with
        | none =>
          rw [value_moneyApprox_unassessable hdeclared hsum (.inr hb)] at hval
          exact .inr ⟨by simp, _, (Except.ok.inj hval).symm⟩
        | some db =>
          obtain ⟨within, hwithin, -⟩ := value_moneyApprox hdeclared hsum ha hb
          exact .inl ⟨by simp, within, Except.ok.inj (hval.symm.trans hwithin)⟩
    refine ⟨?_, fun n hn left right hmoney => ?_⟩
    · rw [hverdict, verdict, hv]
      rcases hcases with ⟨hyes, b, rfl⟩ | ⟨hno, r, rfl⟩
      · cases b <;> simp [EvalValue.verdict, hyes]
      · simp [EvalValue.verdict, hno]
    · rw [hnodes, hchildNodes] at hn
      simp only [List.mem_cons, List.not_mem_nil, or_false] at hn
      rcases hn with rfl | rfl | rfl | rfl
      · exact absurd hmoney not_moneyVerdict_require
      · cases hmoney with
        | intro =>
          rcases hcases with ⟨hyes, -⟩ | ⟨-, r, hr⟩
          · exact ⟨rfl, rfl, hyes⟩
          · cases hr
      · exact absurd hmoney not_moneyVerdict_leaf
      · exact absurd hmoney not_moneyVerdict_leaf

/-- The fact behind the contract criterion's guard is only there where one currency is. -/
theorem oneCurrency_linehaul (hfacts : buildFactBundle D unicode inv contract = .ok facts)
    (h : facts.absent "linehaul_currencies_match" = false) :
    OneCurrency (currenciesBehind inv contract (.fact "billed_linehaul") ++
      currenciesBehind inv contract (.fact "contract_linehaul_rate")) := by
  cases hrate : contract.bind ContractFacts.linehaulRate with
  | none =>
    have hnone := buildFactBundle_noLinehaul hfacts hrate
      (by decide : "linehaul_currencies_match" ∈ linehaulKeys)
    simp [FactBundle.absent, hnone] at h
  | some rate =>
    obtain ⟨billed, -, hmem⟩ := buildFactBundle_linehaul hfacts hrate
    have hmatch := hmem "linehaul_currencies_match" _
      (List.mem_cons_of_mem _ (List.mem_cons_of_mem _ List.mem_cons_self))
    simp only [FactBundle.absent, hmatch] at h
    have hequal : currenciesStatedAndEqual (billedCurrency inv) (rate.map ContractRate.currency) = true := by
      by_contra hne
      simp [hne] at h
    unfold currenciesStatedAndEqual at hequal
    split at hequal
    · rename_i b r hb hr
      simp only [Bool.and_eq_true, bne_iff_ne, beq_iff_eq] at hequal
      obtain ⟨⟨hne, -⟩, rfl⟩ := hequal
      refine ⟨b, hne, fun x hx => ?_⟩
      rcases List.mem_append.mp hx with hx | hx
      · obtain ⟨c, hc, rfl⟩ := List.mem_map.mp hx
        unfold billedCurrency at hb
        split at hb
        · cases hb
        · rename_i first rest hl
          split at hb
          · rename_i hall
            obtain rfl := Option.some.inj hb
            rw [List.all_eq_true] at hall
            exact beq_iff_eq.mp (hall c (hl ▸ hc))
          · cases hb
      · rw [currenciesBehind, rateCurrency, hrate] at hx
        simp only [Option.join_some, hr, Option.mem_toList] at hx
        exact (Option.some.inj hx).symm
    · cases hequal

/-- The contract criterion never compares across currencies. -/
theorem rateVariance_agrees (hfacts : buildFactBundle D unicode inv contract = .ok facts)
    (h : evaluate D facts RATE_VARIANCE_CRITERION.ast = .ok ev) :
    MoneyVerdictsAgree inv contract RATE_VARIANCE_CRITERION ev := by
  -- a missing fact, at whichever `require`, leaves no verdict
  have hmissing : verdict ev = .UNASSESSABLE → (∀ n ∈ nodes ev, ∀ left right, ¬ MoneyVerdict n left right) →
      MoneyVerdictsAgree inv contract RATE_VARIANCE_CRITERION ev :=
    fun hv hn => ⟨fun n hmem left right hm => absurd hm (hn n hmem left right), fun _ _ _ => hv⟩
  have hleaf : ∀ {n : EvalNode} {a : AstNode} {v : EvalValue}, n = .leaf a v → ∀ left right, ¬ MoneyVerdict n left right :=
    fun hn left right hm => not_moneyVerdict_leaf (hn ▸ hm)
  rcases evaluate_require h with ⟨-, hv, v, hn⟩ | ⟨-, c₁, h₁, hv₁, hn₁⟩
  · exact hmissing hv (by rw [hn]; simpa using hleaf rfl)
  rcases evaluate_require h₁ with ⟨-, hv, v, hn⟩ | ⟨-, c₂, h₂, hv₂, hn₂⟩
  · refine hmissing (hv₁.trans hv) ?_
    rw [hn₁, hn]
    simp only [List.mem_cons, List.not_mem_nil, or_false, forall_eq_or_imp, forall_eq]
    exact ⟨fun _ _ => not_moneyVerdict_require, fun _ _ => not_moneyVerdict_leaf⟩
  rcases evaluate_require h₂ with ⟨-, hv, v, hn⟩ | ⟨hmatch, c₃, h₃, hv₃, hn₃⟩
  · refine hmissing (hv₁.trans (hv₂.trans hv)) ?_
    rw [hn₁, hn₂, hn]
    simp only [List.mem_cons, List.not_mem_nil, or_false, forall_eq_or_imp, forall_eq]
    exact ⟨fun _ _ => not_moneyVerdict_require, fun _ _ => not_moneyVerdict_require, fun _ _ => not_moneyVerdict_leaf⟩
  have hone := oneCurrency_linehaul hfacts hmatch
  obtain ⟨lv, rv, v, -, -, -, -, hn⟩ := evaluate_factCompare h₃
  refine ⟨fun n hmem left right hm => ?_, fun p hp hnot => ?_⟩
  · rw [hn₁, hn₂, hn₃, hn] at hmem
    simp only [List.mem_cons, List.not_mem_nil, or_false] at hmem
    rcases hmem with rfl | rfl | rfl | rfl | rfl | rfl
    · exact absurd hm not_moneyVerdict_require
    · exact absurd hm not_moneyVerdict_require
    · exact absurd hm not_moneyVerdict_require
    · cases hm with
      | intro => exact hone
    · exact absurd hm not_moneyVerdict_leaf
    · exact absurd hm not_moneyVerdict_leaf
  · obtain rfl := List.mem_singleton.mp hp
    exact absurd hone hnot

/-! ## Both rubrics -/

/-- Every criterion but the two that compare money compares a fact with a literal. -/
theorem criterion_cases {rubric : ComposedRubric} (hrubric : rubric = STANDARD_RUBRIC ∨ rubric = CONTRACT_RUBRIC)
    (hc : c ∈ rubric.criteria) :
    c = footingCriterion ∨ c = RATE_VARIANCE_CRITERION ∨
      (∃ op key x, c.ast = factIs op key x) ∨ ∃ key x, c.ast = requiredFactIs key x := by
  have hstandard : c ∈ STANDARD_RUBRIC.criteria → c = footingCriterion ∨ c = RATE_VARIANCE_CRITERION ∨
      (∃ op key x, c.ast = factIs op key x) ∨ ∃ key x, c.ast = requiredFactIs key x := by
    intro hc
    simp only [STANDARD_RUBRIC, List.mem_cons, List.not_mem_nil, or_false] at hc
    rcases hc with rfl | hc
    · exact .inl rfl
    · rcases hc with rfl | rfl | rfl | rfl | rfl | rfl | rfl | rfl | rfl | rfl | rfl | rfl | rfl | rfl | rfl |
        rfl | rfl | rfl | rfl | rfl
      all_goals first
        | exact .inr (.inr (.inl ⟨_, _, _, rfl⟩))
        | exact .inr (.inr (.inr ⟨_, _, rfl⟩))
  rcases hrubric with rfl | rfl
  · exact hstandard hc
  · rcases List.mem_append.mp hc with hc | hc
    · exact hstandard hc
    · exact .inr (.inl (List.mem_singleton.mp hc))

theorem footing_mem {rubric : ComposedRubric} (hrubric : rubric = STANDARD_RUBRIC ∨ rubric = CONTRACT_RUBRIC) :
    footingCriterion ∈ rubric.criteria := by
  rcases hrubric with rfl | rfl
  · exact List.mem_cons_self
  · exact List.mem_append_left _ List.mem_cons_self

/-- Every verdict on money is within one currency exactly if the header's currency is stated and shared
by all charges that count, or the footing gate has no two figures to compare. -/
theorem moneyVerdicts_agree_iff (D : Type) [Decimal D] (unicode : Unicode) (sha256 : String → String)
    (inv : ParsedInvoice) (rubric : ComposedRubric)
    (hrubric : rubric = STANDARD_RUBRIC ∨ rubric = CONTRACT_RUBRIC) (contract : Option ContractFacts)
    (result : AuditResult) (h : evaluateInvoice D unicode sha256 inv rubric contract = .ok result) :
    (∀ c ev, Evaluated inv contract D unicode rubric result c ev → MoneyVerdictsAgree inv contract c ev) ↔
      (FootingCompared inv D → HeaderCurrencyShared inv) := by
  obtain ⟨facts, run⟩ := evaluateInvoice_run h
  constructor
  · intro hagree hcompared
    by_contra hnot
    obtain ⟨ev, hev⟩ := run.gate footingCriterion (footing_mem hrubric) rfl
    have hgate : footingCriterion.kind = .SCORING → result.outcome = .SCORED := fun hk => by cases hk
    have hfooting := hagree _ ev ⟨footing_mem hrubric, hgate, facts, run.bundle, hev⟩
    have hverdict := hfooting.otherwise _ (List.mem_singleton_self _) (oneCurrency_footing.not.mpr hnot)
    exact (footing_verdict run.bundle hev).1.mp hverdict hcompared
  · rintro hshared c ev ⟨hc, -, facts', hfacts, hev⟩
    rcases criterion_cases hrubric hc with rfl | rfl | hliteral
    · obtain ⟨hverdict, hverdicts⟩ := footing_verdict hfacts hev
      refine ⟨fun n hn left right hm => ?_, fun p hp hnot => ?_⟩
      · obtain ⟨rfl, rfl, hcompared⟩ := hverdicts n hn left right hm
        exact oneCurrency_footing.mpr (hshared hcompared)
      · obtain rfl := List.mem_singleton.mp hp
        exact hverdict.mpr (fun hcompared => hnot (oneCurrency_footing.mpr (hshared hcompared)))
    · exact rateVariance_agrees hfacts hev
    · exact literalCriterion_agrees hliteral hev

end

/-- A draft in dollars with a charge in euros. -/
def mixedDraft (chargeCurrency : String) : ParsedInvoice :=
  { draftOf "500.00" "100.00" with
    charges := [⟨none, none, some "LINEHAUL", false, some "60.00", "USD", none, none, none, none⟩,
      ⟨none, none, some "FUEL", false, some "40.00", chargeCurrency, none, none, none, none⟩] }

theorem dollarDraft_agrees :
    ∃ result, evaluateInvoice Ref Unicode.ascii id (mixedDraft "USD") CONTRACT_RUBRIC none = .ok result ∧
      ∀ c ev, Evaluated (mixedDraft "USD") none Ref Unicode.ascii CONTRACT_RUBRIC result c ev →
        MoneyVerdictsAgree (mixedDraft "USD") none c ev := by
  obtain ⟨result, h⟩ := exists_ok
    (x := evaluateInvoice Ref Unicode.ascii id (mixedDraft "USD") CONTRACT_RUBRIC none) (by decide +kernel)
  exact ⟨result, h, (moneyVerdicts_agree_iff Ref Unicode.ascii id _ _ (.inr rfl) none result h).mpr
    (fun _ => ⟨by decide, by decide⟩)⟩

/-- The footing of dollars and euros is judged, and the kickback states the verdict. -/
theorem mixedDraft_judged :
    ∃ result, evaluateInvoice Ref Unicode.ascii id (mixedDraft "EUR") STANDARD_RUBRIC none = .ok result ∧
      (∃ g ∈ result.gateFailures, g.criterionKey = "STD.FOOTING" ∧ verdict g.evaluatedExpr = .FAIL) ∧
      ¬ ∀ c ev, Evaluated (mixedDraft "EUR") none Ref Unicode.ascii STANDARD_RUBRIC result c ev →
        MoneyVerdictsAgree (mixedDraft "EUR") none c ev := by
  obtain ⟨result, h⟩ := exists_ok
    (x := evaluateInvoice Ref Unicode.ascii id (mixedDraft "EUR") STANDARD_RUBRIC none) (by decide +kernel)
  have hkickback : (evaluateInvoice Ref Unicode.ascii id (mixedDraft "EUR") STANDARD_RUBRIC none).toOption.any
      (fun r => r.gateFailures.any (fun g => g.criterionKey == "STD.FOOTING" && verdict g.evaluatedExpr == .FAIL)) =
        true := by decide +kernel
  rw [h] at hkickback
  refine ⟨result, h, by simpa [Except.toOption] using hkickback, fun hagree => ?_⟩
  obtain ⟨facts, run⟩ := evaluateInvoice_run h
  obtain ⟨ev, hev⟩ := run.gate footingCriterion (footing_mem (.inl rfl)) rfl
  have hgate : footingCriterion.kind = .SCORING → result.outcome = .SCORED := fun hk => by cases hk
  have hfooting := hagree _ ev ⟨footing_mem (.inl rfl), hgate, facts, run.bundle, hev⟩
  have hshared : ¬ HeaderCurrencyShared (mixedDraft "EUR") := by
    rintro ⟨-, hcharges⟩
    exact absurd (hcharges ⟨none, none, some "FUEL", false, some "40.00", "EUR", none, none, none, none⟩
      (by decide) rfl) (by decide)
  have hverdict := hfooting.otherwise _ (List.mem_singleton_self _) (oneCurrency_footing.not.mpr hshared)
  refine (footing_verdict run.bundle hev).1.mp hverdict ⟨"500.00", rfl, ?_, ?_⟩ <;> decide +kernel

end Evaluator
