import FreightAuditor.Evaluator.StoredOutcomes

/- The scorecard and the findings of one invoice agree.

   Money has four decimals wherever it is compared, so a variance is its own text, its sign the
   direction, and a total the sum of the variances of one direction, as long as the sums keep within
   the digits of decimal.js (`evaluateInvoice_agrees`). The order of the criteria in the rubric matters
   only where two tie, and `localeCompare` lets keys tie that are not equal. -/
namespace Evaluator

open DecimalJs DecimalRounding ExceptOk Ingestion JsText PgNumeric RuleEngine RubricResolver

/-! ## What is claimed -/

section

variable (D : Type) [Decimal D]

/-- The number a text is read as, if it is finite. -/
def amount? (text : String) : Option ℚ :=
  match (Decimal.ofString text : Option D).map Decimal.val with
  | some (.fin q) => some q
  | _ => none

/-- The tree under its `require` nodes. -/
def unwrapRequire : EvalNode → EvalNode
  | .branch (.require _ _) _ (child :: _) => unwrapRequire child
  | ev => ev

def IsMoney (ev : EvalNode) : Prop := ∃ amount currency, ev.value = .money amount currency

/-- A comparison of two amounts of money. -/
def MoneyCompare (ev : EvalNode) : Prop :=
  ∃ op l r tolerance value left right rest,
    ev = .branch (.compare op l r tolerance) value (left :: right :: rest) ∧ IsMoney left ∧ IsMoney right

/-- The variances of one direction. -/
def variances (direction : Direction) (findings : List ChargeFinding) : List ℚ :=
  findings.filterMap fun f => if f.direction = direction then f.varianceAmount.bind (amount? D) else none

/-- A number of at most 20 significant digits. -/
def Representable (x : ℚ) : Prop := Val.ofExact (roundSig precision x) = .fin x

/-- So are the sums of the first ones. -/
def SumsRepresentable (xs : List ℚ) : Prop := ∀ l, l <+: xs → Representable l.sum

/-- The criteria of a kind by their order and key. -/
structure InOrder (unicode : Unicode) (rubric : ComposedRubric) (kind : CriterionKind) (criteria : List StandardCriterion) :
    Prop where
  perm : criteria.Perm (rubric.criteria.filter fun c => c.kind = kind)
  ordered : criteria.Pairwise fun a b => a.evalOrder < b.evalOrder ∨
    a.evalOrder = b.evalOrder ∧ unicode.localeCompare a.criterionKey b.criterionKey ≠ .gt

def verdictOf (facts : FactBundle) (c : StandardCriterion) : Option Verdict :=
  (evaluate D facts c.ast).toOption.map verdict

/-- A finding for each criterion, and the scorecard that goes with them. -/
structure Agrees (facts : FactBundle) (criteria : List StandardCriterion) (findings : List ChargeFinding)
    (sc : Scorecard) : Prop where
  observed : List.Forall₂ (fun c f => f.criterionKey = c.criterionKey ∧ evaluate D facts c.ast = .ok f.evaluatedExpr ∧
    f.result = findingResult (verdict f.evaluatedExpr)) criteria findings
  conformed : sc.conformedCount = findings.countP fun f => f.result = .CONFORMED
  variance : sc.varianceCount = findings.countP fun f => f.result = .VARIANCE
  unassessable : sc.unassessableCount = findings.countP fun f => f.result = .UNASSESSABLE
  counts : sc.conformedCount + sc.varianceCount + sc.unassessableCount = criteria.length
  amounts : ∀ f ∈ findings, (f.varianceAmount.isSome ↔ f.result = .VARIANCE ∧ MoneyCompare (unwrapRequire f.evaluatedExpr)) ∧
    (f.varianceAmount = none → f.direction = .INTEGRITY_ONLY)
  signs : ∀ f ∈ findings, ∀ x ∈ f.varianceAmount.bind (amount? D),
    (0 < x → f.direction = .OVERCHARGE) ∧ (x < 0 → f.direction = .UNDERCHARGE)
  totals : (∀ f ∈ findings, ∀ text ∈ f.varianceAmount, (amount? D text).isSome) →
    (SumsRepresentable (variances D .OVERCHARGE findings) →
      amount? D sc.totalOvercharge = some (variances D .OVERCHARGE findings).sum) ∧
    (SumsRepresentable ((variances D .UNDERCHARGE findings).map abs) →
      amount? D sc.totalUndercharge = some ((variances D .UNDERCHARGE findings).map abs).sum)

end

/-- A collation orders texts totally, ties among them. -/
structure Collates (unicode : Unicode) : Prop where
  trans : Std.TransCmp unicode.localeCompare

/-! ## Four decimals -/

section

variable {D : Type} [Decimal D] {facts : FactBundle}

/-- Units of the k-th decimal stay units when rounded to 20 digits. -/
theorem roundSig_units (n : ℤ) : ∃ m : ℤ, roundSig precision ((n : ℚ) / 10 ^ 4) = m / 10 ^ 4 := by
  have hscaled : (n : ℚ) / 10 ^ 4 = n * (10 : ℚ) ^ (-4 : ℤ) := by
    rw [div_eq_mul_inv, zpow_neg]
    rfl
  by_cases hn : |n| < 10 ^ precision
  · exact ⟨n, by rw [hscaled, roundSig_scaled hn]⟩
  · -- the last place of so large a number is no decimal
    have h10 : (0 : ℚ) < 10 := by norm_num
    have hlarge : (10 : ℚ) ^ (16 : ℤ) ≤ |(n : ℚ) / 10 ^ 4| := by
      have hcast : (10 : ℚ) ^ 20 ≤ |(n : ℚ)| := by exact_mod_cast not_lt.mp hn
      rw [abs_div, abs_of_pos (by positivity : (0 : ℚ) < 10 ^ 4), le_div_iff₀ (by positivity)]
      refine le_trans (le_of_eq ?_) hcast
      norm_num
    have hne : (n : ℚ) / 10 ^ 4 ≠ 0 := abs_pos.mp ((zpow_pos h10 _).trans_le hlarge)
    have hlog : 16 ≤ Int.log 10 |(n : ℚ) / 10 ^ 4| :=
      (Int.zpow_le_iff_le_log (by norm_num) (abs_pos.mpr hne)).mp (by exact_mod_cast hlarge)
    obtain ⟨j, hj⟩ := Int.eq_ofNat_of_zero_le (show 0 ≤ Int.log 10 |(n : ℚ) / 10 ^ 4| + 1 - precision + 4 by
      have hprecision : (precision : ℤ) = 20 := rfl
      omega)
    have hulp : ulp precision ((n : ℚ) / 10 ^ 4) = 10 ^ j / 10 ^ 4 := by
      have hexponent : Int.log 10 |(n : ℚ) / 10 ^ 4| + 1 - precision = (j : ℤ) - (4 : ℕ) := by
        push_cast
        omega
      rw [ulp, hexponent, zpow_sub₀ h10.ne', zpow_natCast, zpow_natCast]
    refine ⟨roundHalfUp ((n : ℚ) / 10 ^ 4 / ulp precision ((n : ℚ) / 10 ^ 4)) * 10 ^ j, ?_⟩
    rw [roundSig, if_neg hne, hulp]
    push_cast
    ring

/-- If it is finite, it has four decimals at most. -/
def FourDecimals (v : Val) : Prop := ∀ q, v = .fin q → ∃ n : ℤ, q = n / 10 ^ 4

theorem fourDecimals_ofExact {x : ℚ} (h : ∃ n : ℤ, x = n / 10 ^ 4) : FourDecimals (Val.ofExact x) := by
  rintro q hq
  obtain ⟨n, rfl⟩ := h
  exact ⟨n, Val.ofExact_units (by decide) hq⟩

theorem FourDecimals.sub {a b : Val} (ha : FourDecimals a) (hb : FourDecimals b) : FourDecimals (a.sub b) := by
  intro q hq
  obtain ⟨x, y, rfl, hy⟩ := Val.add_finite hq
  cases b with
  | nan => cases hy
  | inf neg => cases hy
  | fin z =>
    obtain ⟨m, rfl⟩ := ha x rfl
    obtain ⟨n, rfl⟩ := hb z rfl
    have hunits : (m : ℚ) / 10 ^ 4 - n / 10 ^ 4 = ((m - n : ℤ) : ℚ) / 10 ^ 4 := by
      push_cast
      ring
    rw [Val.sub_fin, hunits] at hq
    exact fourDecimals_ofExact (roundSig_units (m - n)) q hq

/-- Four decimals are read back as they are. -/
theorem amount?_toFixed {d : D} {q : ℚ} (h : Decimal.val d = .fin q) (hfour : FourDecimals (Decimal.val d)) :
    amount? D (Decimal.toFixed 4 d) = some q := by
  obtain ⟨n, rfl⟩ := hfour q h
  obtain ⟨d', hread, hval⟩ := Decimal.toFixed_reads (k := 4) h
  rw [roundDp_scaled, Decimal.val_inRange d _ h] at hval
  rw [amount?, hread, Option.map_some, hval]

/-! ## The difference of a comparison -/

/-- An amount that an evaluated tree holds. -/
def Fixed (D : Type) [Decimal D] (amount : String) : Prop :=
  ∃ (d : D) (q : ℚ), Decimal.val d = .fin q ∧ amount = Decimal.toFixed 4 d

theorem moneyValue_fixed {text currency amount currency' : String}
    (h : moneyValue D text currency = .money amount currency') : Fixed D amount := by
  unfold moneyValue at h
  split at h
  · cases h
  · rename_i d hd
    obtain ⟨-, q, hq⟩ := safeDecimal_some.mp hd
    obtain ⟨rfl, -⟩ := EvalValue.money.inj h
    exact ⟨d, q, hq, rfl⟩

theorem factValue_fixed {key : String} {raw : FactValue} {amount currency : String}
    (h : factValue D key raw = .money amount currency) : Fixed D amount := by
  unfold factValue at h
  split at h
  · cases h
  · split at h <;> cases h
  · split at h <;> cases h
  · split at h
    · cases h
    · rename_i d hd
      obtain ⟨-, q, hq⟩ := safeDecimal_some.mp hd
      obtain ⟨rfl, -⟩ := EvalValue.money.inj h
      exact ⟨d, q, hq, rfl⟩
  · cases h

theorem arithValue_ne_money {op : ArithOp} {values : List EvalValue} {v : EvalValue} (h : arithValue D op values = .ok v)
    (amount currency : String) : v ≠ .money amount currency := by
  rintro rfl
  unfold arithValue at h
  split at h
  · cases h
  · simp only [bind_eq_ok] at h
    obtain ⟨decs, -, h⟩ := h
    split at h
    · cases h
    split at h
    · cases h
    split at h
    · cases h
    split at h <;> cases h

theorem compareValue_ne_money {op : CompareOp} {tolerance : Option String} {left right v : EvalValue}
    (h : compareValue D op tolerance left right = .ok v) (amount currency : String) : v ≠ .money amount currency := by
  rintro rfl
  unfold compareValue at h
  split at h
  · cases h
  · simp only [bind_eq_ok] at h
    obtain ⟨a, -, b, -, h⟩ := h
    split at h
    · obtain ⟨c, -, h⟩ := bind_eq_ok.mp h
      cases h
    · have hscalars := pure_eq_ok.mp h
      unfold compareScalars at hscalars
      split at hscalars <;> cases hscalars

theorem logicValue_ne_money (op : LogicOp) (values : List EvalValue) (amount currency : String) :
    logicValue op values ≠ .money amount currency := by
  intro h
  unfold logicValue at h
  split at h
  · split at h <;> cases h
  · dsimp only at h
    split at h <;> cases h

/-- Money that a tree evaluates to has four decimals. -/
theorem evaluate_fixed (ast : AstNode) : ∀ {ev : EvalNode}, evaluate D facts ast = .ok ev →
    ∀ amount currency, ev.value = .money amount currency → Fixed D amount := by
  induction ast using AstNode.induction with
  | lit v =>
    intro ev h amount currency hvalue
    cases h
    exact absurd hvalue (litValue_ne_money v)
  | money text currency =>
    intro ev h amount currency' hvalue
    cases h
    exact moneyValue_fixed hvalue
  | fact key =>
    intro ev h amount currency hvalue
    simp only [evaluate] at h
    split at h
    · cases h
      cases hvalue
    · split at h
      · cases h
        cases hvalue
      · cases h
        exact factValue_fixed hvalue
  | arith op args =>
    intro ev h amount currency hvalue
    simp only [evaluate, bind_eq_ok, pure_eq_ok] at h
    obtain ⟨children, -, value, harith, rfl⟩ := h
    exact absurd hvalue (arithValue_ne_money harith amount currency)
  | compare op left right tolerance =>
    intro ev h amount currency hvalue
    simp only [evaluate, bind_eq_ok, pure_eq_ok] at h
    obtain ⟨l, -, r, -, value, hcompare, rfl⟩ := h
    exact absurd hvalue (compareValue_ne_money hcompare amount currency)
  | logic op args =>
    intro ev h amount currency hvalue
    simp only [evaluate, bind_eq_ok, pure_eq_ok] at h
    obtain ⟨children, -, rfl⟩ := h
    exact absurd hvalue (logicValue_ne_money op _ amount currency)
  | require key thenNode ih =>
    intro ev h amount currency hvalue
    simp only [evaluate] at h
    split at h
    · cases h
      cases hvalue
    · simp only [bind_eq_ok, pure_eq_ok] at h
      obtain ⟨child, hchild, rfl⟩ := h
      exact ih hchild amount currency hvalue

/-- The difference is that of a money comparison under the `require` nodes, and has four decimals. -/
structure DeltaOf (ev : EvalNode) (delta : Option (D × String)) : Prop where
  isSome : delta.isSome ↔ MoneyCompare (unwrapRequire ev)
  fixed : ∀ d ∈ delta, FourDecimals (Decimal.val d.1)

theorem fourDecimals_fixed {amount : String} {d : D} (h : Fixed D amount) (hd : newDecimal D amount = .ok d) :
    FourDecimals (Decimal.val d) := by
  obtain ⟨d₀, q, hq, rfl⟩ := h
  obtain ⟨d', hread, hval⟩ := Decimal.toFixed_reads (k := 4) hq
  rw [newDecimal_some D hread] at hd
  rw [← Except.ok.inj hd, hval]
  exact fourDecimals_ofExact (roundDp_units 4 q)

/-- Where the tree is no comparison and no `require`, there is no difference. -/
theorem deltaOf_none {ev : EvalNode} {delta : Option (D × String)} (hunwrap : unwrapRequire ev = ev)
    (hcompare : ∀ op l r tolerance value children, ev ≠ .branch (.compare op l r tolerance) value children)
    (hnone : moneyVarianceDelta D ev = .ok none) (h : moneyVarianceDelta D ev = .ok delta) : DeltaOf ev delta := by
  obtain rfl := Except.ok.inj (hnone.symm.trans h)
  refine ⟨iff_of_false (by simp) ?_, by simp⟩
  rw [hunwrap]
  rintro ⟨op, l, r, tolerance, value, left, right, rest, heq, -, -⟩
  exact hcompare op l r tolerance value _ heq

theorem moneyVarianceDelta_of (ast : AstNode) : ∀ {ev : EvalNode}, evaluate D facts ast = .ok ev →
    ∀ {delta}, moneyVarianceDelta D ev = .ok delta → DeltaOf ev delta := by
  induction ast using AstNode.induction with
  | lit v =>
    intro ev h delta hdelta
    cases h
    exact deltaOf_none rfl (fun _ _ _ _ _ _ heq => by cases heq) rfl hdelta
  | money text currency =>
    intro ev h delta hdelta
    cases h
    exact deltaOf_none rfl (fun _ _ _ _ _ _ heq => by cases heq) rfl hdelta
  | fact key =>
    intro ev h delta hdelta
    simp only [evaluate] at h
    split at h
    · cases h
      exact deltaOf_none rfl (fun _ _ _ _ _ _ heq => by cases heq) rfl hdelta
    · split at h <;> cases h <;> exact deltaOf_none rfl (fun _ _ _ _ _ _ heq => by cases heq) rfl hdelta
  | arith op args =>
    intro ev h delta hdelta
    simp only [evaluate, bind_eq_ok, pure_eq_ok] at h
    obtain ⟨children, -, value, -, rfl⟩ := h
    exact deltaOf_none rfl (fun _ _ _ _ _ _ heq => by cases heq) rfl hdelta
  | compare op left right tolerance =>
    intro ev h delta hdelta
    simp only [evaluate, bind_eq_ok, pure_eq_ok] at h
    obtain ⟨l, hl, r, hr, value, -, rfl⟩ := h
    simp only [moneyVarianceDelta] at hdelta
    split at hdelta
    · rename_i billed currency expected currency' hbilled hexpected
      simp only [bind_eq_ok, pure_eq_ok] at hdelta
      obtain ⟨b, hb, e, he, rfl⟩ := hdelta
      refine ⟨iff_of_true rfl ⟨op, left, right, tolerance, value, l, r, [], rfl, ⟨_, _, hbilled⟩, ⟨_, _, hexpected⟩⟩, ?_⟩
      rintro _ ⟨⟩
      rw [Decimal.val_minus]
      exact (fourDecimals_fixed (evaluate_fixed left hl _ _ hbilled) hb).sub
        (fourDecimals_fixed (evaluate_fixed right hr _ _ hexpected) he)
    · rename_i hnot
      obtain rfl := pure_eq_ok.mp hdelta
      refine ⟨iff_of_false (by simp) ?_, by simp⟩
      rintro ⟨_, _, _, _, _, _, _, _, heq, ⟨a, c, hl'⟩, a', c', hr'⟩
      simp only [unwrapRequire, EvalNode.branch.injEq, List.cons.injEq] at heq
      obtain ⟨-, -, rfl, rfl, -⟩ := heq
      exact hnot a c a' c' hl' hr'
  | logic op args =>
    intro ev h delta hdelta
    simp only [evaluate, bind_eq_ok, pure_eq_ok] at h
    obtain ⟨children, -, rfl⟩ := h
    exact deltaOf_none rfl (fun _ _ _ _ _ _ heq => by cases heq) rfl hdelta
  | require key thenNode ih =>
    intro ev h delta hdelta
    simp only [evaluate] at h
    split at h
    · cases h
      exact deltaOf_none rfl (fun _ _ _ _ _ _ heq => by cases heq) rfl hdelta
    · simp only [bind_eq_ok, pure_eq_ok] at h
      obtain ⟨child, hchild, rfl⟩ := h
      obtain ⟨hsome, hfixed⟩ := ih hchild hdelta
      exact ⟨hsome, hfixed⟩

/-! ## One criterion -/

theorem amount?_toFixed_nonFinite {d : D} (h : (Decimal.val d).isFinite = false) : amount? D (Decimal.toFixed 4 d) = none := by
  obtain ⟨d', hread, hval⟩ := Decimal.toFixed_reads_nonFinite (k := 4) h
  rw [amount?, hread, Option.map_some, hval]
  cases hv : Decimal.val d with
  | fin q =>
    rw [hv] at h
    cases h
  | _ => rfl

theorem amount?_eq_some {d : D} (hfour : FourDecimals (Decimal.val d)) {q : ℚ} :
    amount? D (Decimal.toFixed 4 d) = some q ↔ Decimal.val d = .fin q := by
  cases hv : Decimal.val d with
  | fin x =>
    rw [amount?_toFixed hv hfour]
    simp
  | nan => simp [amount?_toFixed_nonFinite (show (Decimal.val d).isFinite = false by rw [hv]; rfl)]
  | inf neg => simp [amount?_toFixed_nonFinite (show (Decimal.val d).isFinite = false by rw [hv]; rfl)]

/-- A variance and what it adds to the totals. -/
structure Varied (ev : EvalNode) (f : ChargeFinding) (t t' : Tally D) (delta : D) : Prop where
  result : f.result = .VARIANCE
  compared : MoneyCompare (unwrapRequire ev)
  fixed : FourDecimals (Decimal.val delta)
  amount : f.varianceAmount = some (Decimal.toFixed 4 delta)
  direction : f.direction = if Decimal.isNegative delta then .UNDERCHARGE else .OVERCHARGE
  totals : isPositive D delta = true ∧ t'.totalOvercharge = Decimal.plus t.totalOvercharge delta ∧
      t'.totalUndercharge = t.totalUndercharge ∨
    isPositive D delta = false ∧ t'.totalOvercharge = t.totalOvercharge ∧
      t'.totalUndercharge = Decimal.plus t.totalUndercharge (Decimal.abs delta)

/-- A finding without an amount. -/
structure Plain (ev : EvalNode) (f : ChargeFinding) (t t' : Tally D) : Prop where
  not_varied : ¬ (f.result = .VARIANCE ∧ MoneyCompare (unwrapRequire ev))
  amount : f.varianceAmount = none
  direction : f.direction = .INTEGRITY_ONLY
  overcharge : t'.totalOvercharge = t.totalOvercharge
  undercharge : t'.totalUndercharge = t.totalUndercharge

structure Scored (c : StandardCriterion) (ev : EvalNode) (t t' : Tally D) (f : ChargeFinding) : Prop where
  findings : t'.findings = t.findings ++ [f]
  key : f.criterionKey = c.criterionKey
  evaluated : f.evaluatedExpr = ev
  result : f.result = findingResult (verdict ev)
  conformed : t'.conformed = t.conformed + if f.result = .CONFORMED then 1 else 0
  variance : t'.variance = t.variance + if f.result = .VARIANCE then 1 else 0
  unassessable : t'.unassessable = t.unassessable + if f.result = .UNASSESSABLE then 1 else 0
  amount : Plain ev f t t' ∨ ∃ delta, Varied ev f t t' delta

theorem scoreStep_scored {c : StandardCriterion} {ev : EvalNode} {t t' : Tally D} (hev : evaluate D facts c.ast = .ok ev)
    (h : scoreStep D t (c, ev) = .ok t') : ∃ f, Scored c ev t t' f := by
  simp only [scoreStep, bind_eq_ok] at h
  obtain ⟨delta, hdelta, h⟩ := h
  obtain ⟨hsome, hfixed⟩ := moneyVarianceDelta_of c.ast hev hdelta
  cases hresult : findingResult (verdict ev) with
  | CONFORMED =>
    rw [hresult] at h
    cases h
    exact ⟨_, rfl, rfl, rfl, hresult.symm, by simp, by simp, by simp, .inl ⟨by simp, rfl, rfl, rfl, rfl⟩⟩
  | UNASSESSABLE =>
    rw [hresult] at h
    cases h
    exact ⟨_, rfl, rfl, rfl, hresult.symm, by simp, by simp, by simp, .inl ⟨by simp, rfl, rfl, rfl, rfl⟩⟩
  | VARIANCE =>
    rw [hresult] at h
    cases delta with
    | none =>
      cases h
      have hnot : ¬ MoneyCompare (unwrapRequire ev) := fun hcompare => by cases hsome.mpr hcompare
      exact ⟨_, rfl, rfl, rfl, hresult.symm, by simp, by simp, by simp, .inl ⟨fun hboth => hnot hboth.2, rfl, rfl, rfl, rfl⟩⟩
    | some p =>
      obtain ⟨delta, currency⟩ := p
      have hcompare := hsome.mp rfl
      have hfour := hfixed _ rfl
      simp only at h
      split at h
      · rename_i hpositive
        cases h
        exact ⟨_, rfl, rfl, rfl, hresult.symm, by simp, by simp, by simp,
          .inr ⟨delta, rfl, hcompare, hfour, rfl, rfl, .inl ⟨hpositive, rfl, rfl⟩⟩⟩
      · rename_i hpositive
        cases h
        exact ⟨_, rfl, rfl, rfl, hresult.symm, by simp, by simp, by simp,
          .inr ⟨delta, rfl, hcompare, hfour, rfl, rfl, .inr ⟨by simpa using hpositive, rfl, rfl⟩⟩⟩

/-! ## All criteria -/

/-- The totals are the sums of the amounts, if these are read and the sums keep within 20 digits. -/
def TotalsAgree (D : Type) [Decimal D] (findings : List ChargeFinding) (totalOvercharge totalUndercharge : D) : Prop :=
  (∀ f ∈ findings, ∀ text ∈ f.varianceAmount, (amount? D text).isSome) →
    (SumsRepresentable (variances D .OVERCHARGE findings) →
      Decimal.val totalOvercharge = .fin (variances D .OVERCHARGE findings).sum) ∧
    (SumsRepresentable ((variances D .UNDERCHARGE findings).map abs) →
      Decimal.val totalUndercharge = .fin ((variances D .UNDERCHARGE findings).map abs).sum)

theorem variances_append (direction : Direction) (l r : List ChargeFinding) :
    variances D direction (l ++ r) = variances D direction l ++ variances D direction r := List.filterMap_append

theorem SumsRepresentable.left {xs ys : List ℚ} (h : SumsRepresentable (xs ++ ys)) : SumsRepresentable xs :=
  fun l hl => h l (hl.trans (List.prefix_append xs ys))

theorem SumsRepresentable.whole {xs : List ℚ} (h : SumsRepresentable xs) : Representable xs.sum := h xs (List.prefix_refl xs)

theorem TotalsAgree.step {c : StandardCriterion} {ev : EvalNode} {t t' : Tally D} {f : ChargeFinding}
    (h : Scored c ev t t' f) (hinv : TotalsAgree D t.findings t.totalOvercharge t.totalUndercharge) :
    TotalsAgree D t'.findings t'.totalOvercharge t'.totalUndercharge := by
  intro hread
  rw [h.findings] at hread ⊢
  obtain ⟨hover, hunder⟩ := hinv fun g hg => hread g (List.mem_append_left _ hg)
  have hlast := hread f (List.mem_append_right _ (List.mem_singleton_self f))
  rw [variances_append, variances_append]
  rcases h.amount with hplain | ⟨delta, hvaried⟩
  · have hnone (direction : Direction) : variances D direction [f] = [] := by
      simp [variances, hplain.amount]
    rw [hnone, hnone, List.append_nil, List.append_nil, hplain.overcharge, hplain.undercharge]
    exact ⟨hover, hunder⟩
  · -- the amount is the difference itself, and its sign the direction
    obtain ⟨q, hq⟩ := Option.isSome_iff_exists.mp (hlast _ hvaried.amount)
    have hval : Decimal.val delta = .fin q := (amount?_eq_some hvaried.fixed).mp hq
    have hpositive : isPositive D delta = !Decimal.isNegative delta := by
      simp [isPositive, hval]
    rcases hvaried.totals with ⟨hsign, hover', hunder'⟩ | ⟨hsign, hover', hunder'⟩
    · have hdirection : f.direction = .OVERCHARGE := by
        rw [hvaried.direction, if_neg]
        rw [hpositive] at hsign
        simpa using hsign
      have hone : variances D .OVERCHARGE [f] = [q] := by simp [variances, hdirection, hvaried.amount, hq]
      have hnone : variances D .UNDERCHARGE [f] = [] := by simp [variances, hdirection]
      rw [hone, hnone, List.append_nil, hover', hunder']
      refine ⟨fun hsums => ?_, hunder⟩
      have hwhole := hsums.whole
      rw [List.sum_append, List.sum_singleton] at hwhole ⊢
      rw [Decimal.val_plus, hover hsums.left, hval, Val.add_fin, hwhole]
    · have hdirection : f.direction = .UNDERCHARGE := by
        rw [hvaried.direction, if_pos]
        rw [hpositive] at hsign
        simpa using hsign
      have hnone : variances D .OVERCHARGE [f] = [] := by simp [variances, hdirection]
      have hone : variances D .UNDERCHARGE [f] = [q] := by simp [variances, hdirection, hvaried.amount, hq]
      rw [hone, hnone, List.append_nil, hover', hunder', List.map_append, List.map_singleton]
      refine ⟨hover, fun hsums => ?_⟩
      have hwhole := hsums.whole
      rw [List.sum_append, List.sum_singleton] at hwhole ⊢
      rw [Decimal.val_plus, hunder hsums.left, Decimal.val_abs, hval, Val.abs_fin, Val.add_fin, hwhole]

/-- What holds of the findings and counts after some of the criteria. -/
structure Tallied (D : Type) [Decimal D] (facts : FactBundle) (criteria : List StandardCriterion) (t : Tally D) : Prop where
  observed : List.Forall₂ (fun c (f : ChargeFinding) => f.criterionKey = c.criterionKey ∧
    evaluate D facts c.ast = .ok f.evaluatedExpr ∧ f.result = findingResult (verdict f.evaluatedExpr)) criteria t.findings
  conformed : t.conformed = t.findings.countP fun f => f.result = .CONFORMED
  variance : t.variance = t.findings.countP fun f => f.result = .VARIANCE
  unassessable : t.unassessable = t.findings.countP fun f => f.result = .UNASSESSABLE
  amounts : ∀ f ∈ t.findings, (f.varianceAmount.isSome ↔ f.result = .VARIANCE ∧ MoneyCompare (unwrapRequire f.evaluatedExpr)) ∧
    (f.varianceAmount = none → f.direction = .INTEGRITY_ONLY)
  signs : ∀ f ∈ t.findings, ∀ x ∈ f.varianceAmount.bind (amount? D),
    (∃ n : ℤ, x = n / 10 ^ 4) ∧ (0 < x → f.direction = .OVERCHARGE) ∧ (x < 0 → f.direction = .UNDERCHARGE)
  totals : TotalsAgree D t.findings t.totalOvercharge t.totalUndercharge

theorem Tallied.empty : Tallied D facts [] ⟨[], 0, 0, 0, Decimal.ofNumber (.ofNat 0), Decimal.ofNumber (.ofNat 0)⟩ where
  observed := .nil
  conformed := rfl
  variance := rfl
  unassessable := rfl
  amounts := nofun
  signs := nofun
  totals := fun _ => ⟨fun _ => val_zero, fun _ => val_zero⟩

theorem Scored.amounts {c : StandardCriterion} {ev : EvalNode} {t t' : Tally D} {f : ChargeFinding} (h : Scored c ev t t' f) :
    (f.varianceAmount.isSome ↔ f.result = .VARIANCE ∧ MoneyCompare (unwrapRequire f.evaluatedExpr)) ∧
      (f.varianceAmount = none → f.direction = .INTEGRITY_ONLY) := by
  rw [h.evaluated]
  rcases h.amount with hplain | ⟨delta, hvaried⟩
  · exact ⟨iff_of_false (by simp [hplain.amount]) hplain.not_varied, fun _ => hplain.direction⟩
  · exact ⟨iff_of_true (by simp [hvaried.amount]) ⟨hvaried.result, hvaried.compared⟩, fun hnone => by
      rw [hvaried.amount] at hnone
      cases hnone⟩

theorem Scored.signs {c : StandardCriterion} {ev : EvalNode} {t t' : Tally D} {f : ChargeFinding} (h : Scored c ev t t' f)
    (x : ℚ) (hx : x ∈ f.varianceAmount.bind (amount? D)) :
    (∃ n : ℤ, x = n / 10 ^ 4) ∧ (0 < x → f.direction = .OVERCHARGE) ∧ (x < 0 → f.direction = .UNDERCHARGE) := by
  rcases h.amount with hplain | ⟨delta, hvaried⟩
  · rw [hplain.amount] at hx
    cases hx
  · rw [hvaried.amount] at hx
    have hval : Decimal.val delta = .fin x := (amount?_eq_some hvaried.fixed).mp hx
    rw [hvaried.direction]
    refine ⟨hvaried.fixed x hval, fun hpos => ?_, fun hneg => ?_⟩
    · rw [Decimal.isNegative_finite delta x hval hpos.ne', decide_eq_false hpos.not_gt]
      rfl
    · rw [Decimal.isNegative_finite delta x hval hneg.ne, decide_eq_true hneg]
      rfl

theorem Tallied.step {criteria : List StandardCriterion} {c : StandardCriterion} {ev : EvalNode} {t t' : Tally D}
    (hinv : Tallied D facts criteria t) (hev : evaluate D facts c.ast = .ok ev) (h : scoreStep D t (c, ev) = .ok t') :
    Tallied D facts (criteria ++ [c]) t' := by
  obtain ⟨f, hscored⟩ := scoreStep_scored hev h
  have hmem {P : ChargeFinding → Prop} (hold : ∀ g ∈ t.findings, P g) (hnew : P f) : ∀ g ∈ t'.findings, P g := by
    rw [hscored.findings]
    intro g hg
    rcases List.mem_append.mp hg with hg | hg
    · exact hold g hg
    · exact List.mem_singleton.mp hg ▸ hnew
  have hcount {p : ChargeFinding → Bool} {n n' : ℕ} (hold : n = t.findings.countP p) (hstep : n' = n + if p f then 1 else 0) :
      n' = t'.findings.countP p := by
    rw [hscored.findings, List.countP_append, List.countP_singleton, hstep, hold]
  refine ⟨?_, hcount hinv.conformed ?_, hcount hinv.variance ?_, hcount hinv.unassessable ?_,
    hmem hinv.amounts hscored.amounts, hmem hinv.signs hscored.signs, hinv.totals.step hscored⟩
  · rw [hscored.findings]
    refine List.rel_append hinv.observed (.cons ⟨hscored.key, ?_, ?_⟩ .nil)
    · rw [hscored.evaluated, hev]
    · rw [hscored.evaluated, hscored.result]
  · simpa using hscored.conformed
  · simpa using hscored.variance
  · simpa using hscored.unassessable

theorem Tallied.run {scored : List (StandardCriterion × EvalNode)} {criteria : List StandardCriterion} {t t' : Tally D}
    (hinv : Tallied D facts criteria t) (hev : ∀ p ∈ scored, evaluate D facts p.1.ast = .ok p.2)
    (h : scored.foldlM (scoreStep D) t = .ok t') : Tallied D facts (criteria ++ scored.map Prod.fst) t' := by
  induction scored generalizing criteria t with
  | nil =>
    obtain rfl := pure_eq_ok.mp h
    rwa [List.map_nil, List.append_nil]
  | cons p rest ih =>
    rw [List.foldlM_cons] at h
    obtain ⟨mid, hmid, hrest⟩ := bind_eq_ok.mp h
    obtain ⟨hp, hothers⟩ := List.forall_mem_cons.mp hev
    have hstep := hinv.step (c := p.1) hp hmid
    have hrun := ih hstep hothers hrest
    rwa [List.append_assoc] at hrun

/-! ## The whole evaluation -/

theorem evaluateCriteria_map {criteria : List StandardCriterion} {out : List (StandardCriterion × EvalNode)}
    (h : evaluateCriteria D facts criteria = .ok out) : out.map Prod.fst = criteria := by
  induction criteria generalizing out with
  | nil => cases h; rfl
  | cons d rest ih =>
    simp only [evaluateCriteria, List.mapM_cons, bind_eq_ok, pure_eq_ok] at h
    obtain ⟨_, ⟨dev, hdev, rfl⟩, out', hrest, rfl⟩ := h
    rw [List.map_cons, ih hrest]

/-- Sums of amounts are read back from the text of a total. -/
theorem amount?_total {total : D} {xs : List ℚ} (hval : Decimal.val total = .fin xs.sum)
    (hunits : ∀ x ∈ xs, ∃ n : ℤ, x = n / 10 ^ 4) : amount? D (Decimal.toFixed 4 total) = some xs.sum := by
  have hsum : ∃ n : ℤ, xs.sum = n / 10 ^ 4 := by
    clear hval
    induction xs with
    | nil => exact ⟨0, by simp⟩
    | cons x xs ih =>
      obtain ⟨hx, hrest⟩ := List.forall_mem_cons.mp hunits
      obtain ⟨m, rfl⟩ := hx
      obtain ⟨n, hn⟩ := ih hrest
      refine ⟨m + n, ?_⟩
      rw [List.sum_cons, hn]
      push_cast
      ring
  refine amount?_toFixed hval ?_
  rw [hval]
  rintro q ⟨⟩
  exact hsum

theorem mem_variances {direction : Direction} {findings : List ChargeFinding} {x : ℚ}
    (hx : x ∈ variances D direction findings) : ∃ f ∈ findings, x ∈ f.varianceAmount.bind (amount? D) := by
  obtain ⟨f, hf, hif⟩ := List.mem_filterMap.mp hx
  split at hif
  · exact ⟨f, hf, hif⟩
  · cases hif

/-- Each finding is counted once. -/
theorem counts_eq_length (findings : List ChargeFinding) :
    (findings.countP fun f => f.result = .CONFORMED) + (findings.countP fun f => f.result = .VARIANCE) +
      (findings.countP fun f => f.result = .UNASSESSABLE) = findings.length := by
  induction findings with
  | nil => rfl
  | cons f rest ih =>
    simp only [List.countP_cons, List.length_cons]
    cases f.result <;> simp <;> omega

theorem Tallied.agrees {criteria : List StandardCriterion} {t : Tally D} (h : Tallied D facts criteria t) :
    Agrees D facts criteria t.findings ⟨t.conformed, t.variance, t.unassessable,
      Decimal.toFixed 4 t.totalOvercharge, Decimal.toFixed 4 t.totalUndercharge⟩ := by
  have hunits (direction : Direction) : ∀ x ∈ variances D direction t.findings, ∃ n : ℤ, x = n / 10 ^ 4 := by
    intro x hx
    obtain ⟨f, hf, hamount⟩ := mem_variances hx
    exact (h.signs f hf x hamount).1
  refine ⟨h.observed, h.conformed, h.variance, h.unassessable, ?_, h.amounts, fun f hf x hx => (h.signs f hf x hx).2, ?_⟩
  · show t.conformed + t.variance + t.unassessable = criteria.length
    rw [h.conformed, h.variance, h.unassessable, counts_eq_length, h.observed.length_eq]
  · intro hread
    obtain ⟨hover, hunder⟩ := h.totals hread
    refine ⟨fun hsums => amount?_total (hover hsums) (hunits .OVERCHARGE), fun hsums => amount?_total (hunder hsums) ?_⟩
    intro y hy
    obtain ⟨x, hx, rfl⟩ := List.mem_map.mp hy
    obtain ⟨n, rfl⟩ := hunits .UNDERCHARGE x hx
    refine ⟨|n|, ?_⟩
    rw [abs_div, abs_of_pos (by positivity : (0 : ℚ) < 10 ^ 4)]
    push_cast
    rfl

end

/-! ## The order of the criteria -/

section

variable {unicode : Unicode} {rubric : ComposedRubric} {kind : CriterionKind}

/-- The order of two criteria. -/
def Before (unicode : Unicode) (a b : StandardCriterion) : Prop :=
  a.evalOrder < b.evalOrder ∨ a.evalOrder = b.evalOrder ∧ unicode.localeCompare a.criterionKey b.criterionKey ≠ .gt

instance : DecidableRel (Before unicode) := fun _ _ => inferInstanceAs (Decidable (_ ∨ _))

theorem before_trans (h : Collates unicode) {a b c : StandardCriterion} (hab : Before unicode a b) (hbc : Before unicode b c) :
    Before unicode a c := by
  have := h.trans
  rcases hab with hlt | ⟨heq, hkey⟩
  · rcases hbc with hlt' | ⟨heq', -⟩
    · exact .inl (hlt.trans hlt')
    · exact .inl (heq' ▸ hlt)
  · rcases hbc with hlt' | ⟨heq', hkey'⟩
    · exact .inl (heq ▸ hlt')
    · have hac := Std.TransCmp.isLE_trans (Ordering.ne_gt_iff_isLE.mp hkey) (Ordering.ne_gt_iff_isLE.mp hkey')
      exact .inr ⟨heq.trans heq', Ordering.ne_gt_iff_isLE.mpr hac⟩

theorem before_total (h : Collates unicode) (a b : StandardCriterion) : Before unicode a b ∨ Before unicode b a := by
  have := h.trans
  rcases Nat.lt_trichotomy a.evalOrder b.evalOrder with hlt | heq | hgt
  · exact .inl (.inl hlt)
  · by_cases hkey : unicode.localeCompare a.criterionKey b.criterionKey = .gt
    · have hflip : unicode.localeCompare b.criterionKey a.criterionKey = .lt := Std.OrientedCmp.gt_iff_lt.mp hkey
      exact .inr (.inr ⟨heq.symm, by simp [hflip]⟩)
    · exact .inl (.inr ⟨heq, hkey⟩)
  · exact .inr (.inl hgt)

theorem orderedCriteria_inOrder (h : Collates unicode) : InOrder unicode rubric kind (orderedCriteria unicode rubric kind) := by
  have : IsTrans StandardCriterion (Before unicode) := ⟨fun _ _ _ => before_trans h⟩
  have : Std.Total (Before unicode) := ⟨before_total h⟩
  exact ⟨List.perm_insertionSort _ _, List.pairwise_insertionSort (Before unicode) _⟩

/-- No two criteria of a kind tie. -/
def Untied (unicode : Unicode) (criteria : List StandardCriterion) : Prop :=
  criteria.Pairwise fun a b => a.kind = b.kind → a.evalOrder = b.evalOrder →
    unicode.localeCompare a.criterionKey b.criterionKey ≠ .eq

instance (criteria : List StandardCriterion) : Decidable (Untied unicode criteria) :=
  inferInstanceAs (Decidable (criteria.Pairwise _))

/-- Where none tie, the order in the rubric does not matter. -/
theorem orderedCriteria_perm (h : Collates unicode) {rubric' : ComposedRubric} (hperm : rubric'.criteria.Perm rubric.criteria)
    (huntied : Untied unicode rubric.criteria) :
    orderedCriteria unicode rubric' kind = orderedCriteria unicode rubric kind := by
  have := h.trans
  obtain ⟨hp', ho'⟩ : InOrder unicode rubric' kind _ := orderedCriteria_inOrder h
  obtain ⟨hp, ho⟩ : InOrder unicode rubric kind _ := orderedCriteria_inOrder h
  have hsame : (orderedCriteria unicode rubric' kind).Perm (orderedCriteria unicode rubric kind) :=
    hp'.trans ((hperm.filter _).trans hp.symm)
  refine hsame.eq_of_pairwise (fun a b ha hb hab hba => ?_) ho' ho
  by_contra hne
  obtain ⟨ha, hka⟩ := mem_orderedCriteria.mp ha
  obtain ⟨hb, hkb⟩ := mem_orderedCriteria.mp hb
  have hsymm : Std.Symm fun a b : StandardCriterion => a.kind = b.kind → a.evalOrder = b.evalOrder →
      unicode.localeCompare a.criterionKey b.criterionKey ≠ .eq :=
    ⟨fun a b hab hkind heq htie => hab hkind.symm heq.symm (Std.OrientedCmp.eq_comm.mp htie)⟩
  have htie := List.Pairwise.forall huntied (hperm.mem_iff.mp ha) hb hne (hka.trans hkb.symm)
  rcases hab with hlt | ⟨heq, hkey⟩
  · rcases hba with hlt' | ⟨heq', -⟩ <;> omega
  · rcases hba with hlt' | ⟨-, hkey'⟩
    · omega
    · exact htie heq (Std.OrientedCmp.isLE_antisymm (Ordering.ne_gt_iff_isLE.mp hkey) (Ordering.ne_gt_iff_isLE.mp hkey'))

end

/-! ## Agreement -/

/-- A result without the hash of the rubric. -/
def withoutRubricHash (result : AuditResult) : AuditResult :=
  { result with pins := { result.pins with rubricContentHash := "" } }

/-- The failures are the gating criteria that do not pass. -/
def FailuresOf (D : Type) [Decimal D] (facts : FactBundle) (criteria : List StandardCriterion) (failures : List GateFailure) : Prop :=
  List.Forall₂ (fun c (g : GateFailure) => g.criterionKey = c.criterionKey ∧ evaluate D facts c.ast = .ok g.evaluatedExpr)
    (criteria.filter fun c => verdictOf D facts c ≠ some .PASS) failures

/-- What holds of a result. -/
structure ResultAgrees (D : Type) [Decimal D] (unicode : Unicode) (rubric : ComposedRubric) (facts : FactBundle)
    (result : AuditResult) : Prop where
  rejected : result.outcome = .REJECTED_REWORK ↔
    ∃ c ∈ rubric.criteria, c.kind = .GATING ∧ verdictOf D facts c ≠ some .PASS
  failures : result.outcome = .REJECTED_REWORK → ∃ gating, InOrder unicode rubric .GATING gating ∧
    FailuresOf D facts gating result.gateFailures ∧ result.findings = [] ∧ result.scorecard = none
  scored : result.outcome = .SCORED → ∃ scoring sc, InOrder unicode rubric .SCORING scoring ∧ result.gateFailures = [] ∧
    result.scorecard = some sc ∧ Agrees D facts scoring result.findings sc

section

variable {D : Type} [Decimal D] {unicode : Unicode} {sha256 : String → String} {invoice : ParsedInvoice}
  {rubric : ComposedRubric} {contract : Option ContractFacts} {facts : FactBundle} {result : AuditResult}

theorem verdictOf_eq {c : StandardCriterion} {ev : EvalNode} (h : evaluate D facts c.ast = .ok ev) :
    verdictOf D facts c = some (verdict ev) := by
  rw [verdictOf, h]
  rfl

theorem gateFailure_isSome {c : StandardCriterion} {ev : EvalNode} : (gateFailure c ev).isSome ↔ verdict ev ≠ .PASS := by
  unfold gateFailure
  split <;> simp_all

theorem failuresOf_filterMap {criteria : List StandardCriterion} {gates : List (StandardCriterion × EvalNode)}
    (h : evaluateCriteria D facts criteria = .ok gates) :
    FailuresOf D facts criteria (gates.filterMap fun g => gateFailure g.1 g.2) := by
  induction criteria generalizing gates with
  | nil =>
    cases h
    exact .nil
  | cons c rest ih =>
    simp only [evaluateCriteria, List.mapM_cons, bind_eq_ok, pure_eq_ok] at h
    obtain ⟨_, ⟨ev, hev, rfl⟩, out, hrest, rfl⟩ := h
    have hothers := ih hrest
    rw [FailuresOf, List.filter_cons]
    cases hfailure : gateFailure c ev with
    | none =>
      have hpass : verdictOf D facts c = some .PASS := by
        rw [verdictOf_eq hev]
        by_contra hnot
        have hfail : verdict ev ≠ .PASS := fun hpass => hnot (congrArg some hpass)
        have hsome : (gateFailure c ev).isSome := gateFailure_isSome.mpr hfail
        rw [hfailure] at hsome
        cases hsome
      have hcons : ((c, ev) :: out).filterMap (fun g => gateFailure g.1 g.2) =
          out.filterMap fun g => gateFailure g.1 g.2 := List.filterMap_cons_none hfailure
      rw [hcons, if_neg (by simp [hpass])]
      exact hothers
    | some g =>
      obtain ⟨hkey, hexpr⟩ := gateFailure_some hfailure
      have hnot : verdictOf D facts c ≠ some .PASS := by
        rw [verdictOf_eq hev]
        have hsome : (gateFailure c ev).isSome := by rw [hfailure]; rfl
        exact fun hpass => gateFailure_isSome.mp hsome (Option.some.inj hpass)
      have hcons : ((c, ev) :: out).filterMap (fun g => gateFailure g.1 g.2) =
          g :: out.filterMap fun g => gateFailure g.1 g.2 := List.filterMap_cons_some hfailure
      rw [hcons, if_pos (by simpa using hnot)]
      exact .cons ⟨hkey, by rw [hexpr, hev]⟩ hothers

theorem verdictOf_pass {c : StandardCriterion} {ev : EvalNode} (h : evaluate D facts c.ast = .ok ev) :
    verdictOf D facts c = some .PASS ↔ GatePasses D facts c := by
  have hvalue : GatePasses D facts c ↔ ev.value = .bool true := by
    rw [GatePasses, value, h]
    exact ⟨Except.ok.inj, congrArg Except.ok⟩
  have hnone : gateFailure c ev = none ↔ verdict ev = .PASS := by
    rw [← Option.not_isSome_iff_eq_none, gateFailure_isSome, not_not]
  rw [verdictOf_eq h, hvalue, ← gateFailure_eq_none (c := c), hnone, Option.some_inj]

theorem evaluateInvoice_resultAgrees (hcollates : Collates unicode)
    (h : evaluateInvoice D unicode sha256 invoice rubric contract = .ok result) :
    ∃ facts, buildFactBundle D unicode invoice contract = .ok facts ∧ ResultAgrees D unicode rubric facts result := by
  simp only [evaluateInvoice, bind_eq_ok] at h
  obtain ⟨facts, hfacts, gates, hgates, h⟩ := h
  refine ⟨facts, hfacts, ?_⟩
  have hempty := gateFailures_isEmpty hgates
  have hfails : (∃ c ∈ rubric.criteria, c.kind = .GATING ∧ verdictOf D facts c ≠ some .PASS) ↔
      ¬ ∀ c ∈ rubric.criteria, c.kind = .GATING → GatePasses D facts c := by
    push Not
    refine exists_congr fun c => and_congr_right fun hc => and_congr_right fun hkind => ?_
    obtain ⟨ev, hev⟩ := evaluateCriteria_tree hgates (mem_orderedCriteria.mpr ⟨hc, hkind⟩)
    exact not_congr (verdictOf_pass hev)
  split at h
  · rename_i hnone
    simp only [bind_eq_ok, pure_eq_ok] at h
    obtain ⟨scored, hscored, tally, htally, rfl⟩ := h
    refine ⟨iff_of_false (fun hrework => by cases hrework) fun hex => hfails.mp hex (hempty.mp hnone),
      (fun hrework => by cases hrework), fun _ => ?_⟩
    have hrun := Tallied.empty.run (fun p hp => ((mem_evaluateCriteria hscored).mp hp).2) htally
    rw [List.nil_append, evaluateCriteria_map hscored] at hrun
    exact ⟨_, _, orderedCriteria_inOrder hcollates, rfl, rfl, hrun.agrees⟩
  · rename_i hsome
    obtain rfl := pure_eq_ok.mp h
    refine ⟨iff_of_true rfl (hfails.mpr fun hall => hsome (hempty.mpr hall)), fun _ => ?_, fun hscored => by cases hscored⟩
    exact ⟨_, orderedCriteria_inOrder hcollates, failuresOf_filterMap hgates, rfl, rfl⟩

/-- Two rubrics whose criteria come in the same order differ in the hash only. -/
theorem evaluateInvoice_same {rubric' : ComposedRubric}
    (hgating : orderedCriteria unicode rubric' .GATING = orderedCriteria unicode rubric .GATING)
    (hscoring : orderedCriteria unicode rubric' .SCORING = orderedCriteria unicode rubric .SCORING) :
    (evaluateInvoice D unicode sha256 invoice rubric' contract).map withoutRubricHash =
      (evaluateInvoice D unicode sha256 invoice rubric contract).map withoutRubricHash := by
  rw [evaluateInvoice, evaluateInvoice, hgating, hscoring]
  cases buildFactBundle D unicode invoice contract with
  | error e => rfl
  | ok facts =>
    cases hgates : evaluateCriteria D facts (orderedCriteria unicode rubric .GATING) with
    | error e =>
      simp only [bind, Except.bind, hgates]
    | ok gates =>
      simp only [bind, Except.bind, hgates]
      split
      · cases hscored : evaluateCriteria D facts (orderedCriteria unicode rubric .SCORING) with
        | error e => rfl
        | ok scored =>
          cases htally : scored.foldlM (scoreStep D)
            ⟨[], 0, 0, 0, Decimal.ofNumber (.ofNat 0), Decimal.ofNumber (.ofNat 0)⟩ with
          | error e => simp only [htally]
          | ok tally =>
            simp only [htally]
            rfl
      · rfl

/-- The findings and the scorecard of every result agree, and where none tie no order of the rubric shows. -/
theorem evaluateInvoice_agrees (hcollates : Collates unicode) :
    (∀ result, evaluateInvoice D unicode sha256 invoice rubric contract = .ok result →
      ∃ facts, buildFactBundle D unicode invoice contract = .ok facts ∧ ResultAgrees D unicode rubric facts result) ∧
    (Untied unicode rubric.criteria → ∀ rubric' : ComposedRubric, rubric'.criteria.Perm rubric.criteria →
      (evaluateInvoice D unicode sha256 invoice rubric' contract).map withoutRubricHash =
        (evaluateInvoice D unicode sha256 invoice rubric contract).map withoutRubricHash) := by
  refine ⟨fun result h => evaluateInvoice_resultAgrees hcollates h, fun huntied rubric' hperm => ?_⟩
  exact evaluateInvoice_same (orderedCriteria_perm hcollates hperm huntied) (orderedCriteria_perm hcollates hperm huntied)

end

/-- An invoice under the standard rubric and under its reverse. -/
theorem footedDraft_agrees :
    (∀ result, evaluateInvoice Ref Unicode.ascii id (draftOf "100.01" "100.00") STANDARD_RUBRIC none = .ok result →
      ∃ facts, buildFactBundle Ref Unicode.ascii (draftOf "100.01" "100.00") none = .ok facts ∧
        ResultAgrees Ref Unicode.ascii STANDARD_RUBRIC facts result) ∧
    (evaluateInvoice Ref Unicode.ascii id (draftOf "100.01" "100.00")
        { STANDARD_RUBRIC with criteria := STANDARD_RUBRIC.criteria.reverse } none).map withoutRubricHash =
      (evaluateInvoice Ref Unicode.ascii id (draftOf "100.01" "100.00") STANDARD_RUBRIC none).map withoutRubricHash := by
  have hcollates : Collates Unicode.ascii := ⟨inferInstanceAs (Std.TransOrd String)⟩
  obtain ⟨hresults, horder⟩ :=
    @evaluateInvoice_agrees Ref _ Unicode.ascii id (draftOf "100.01" "100.00") STANDARD_RUBRIC none hcollates
  exact ⟨hresults, horder (by decide +kernel) _ (List.reverse_perm _)⟩

/-- A collation to which a letter with an acute accent is the letter and the combining accent. -/
def decomposing : Unicode where
  toLowerCase := Unicode.ascii.toLowerCase
  localeCompare := compareOn fun s => String.ofList (s.toList.flatMap fun c => if c = 'é' then ['e', '\u0301'] else [c])
  lower := Unicode.ascii.lower

/-- A scoring criterion that asks for the invoice's currency. -/
def currencyCriterion (criterionKey : String) : StandardCriterion :=
  ⟨criterionKey, .SCORING, "Currency known", 1, factIs .eq "currency_known" (.boolean true), none⟩

/-- Two keys that differ and tie: the findings come in the order of the rubric. -/
theorem tiedCriteria_ordered :
    Collates decomposing ∧ ∃ a b : StandardCriterion, a.criterionKey ≠ b.criterionKey ∧
      (evaluateInvoice Ref decomposing id (draftOf "100.01" "100.00") ⟨RESOLVER_VERSION, [a, b]⟩ none).map withoutRubricHash ≠
        (evaluateInvoice Ref decomposing id (draftOf "100.01" "100.00") ⟨RESOLVER_VERSION, [b, a]⟩ none).map
          withoutRubricHash := by
  refine ⟨⟨inferInstanceAs (Std.TransCmp (compareOn _))⟩, currencyCriterion "contract:caf\u00e9", currencyCriterion "contract:cafe\u0301",
    by decide, fun hsame => ?_⟩
  have hkeys := congrArg (fun r => r.toOption.map fun result => result.findings.map ChargeFinding.criterionKey) hsame
  exact absurd hkeys (by decide +kernel)

end Evaluator
