import FreightAuditor.Evaluator.StoredRun

/- When an accepted invoice is judged and stored.

   Evaluation throws only where a rate or a basis cannot be read (`returns_evaluateInvoice`).
   What it computes and a column may refuse is one amount, the variance of the linehaul: the
   other criteria compare no money, so the findings and the totals are those of
   `CountedAmounts`. The rest of a run is the invoice's own texts. -/
namespace Evaluator

open DecimalJs DecimalRounding ExceptOk Ingestion JsText PgNumeric RuleEngine RubricResolver

section

variable {D : Type} [Decimal D] {unicode : Unicode} {sha256 : String → String} {inv : ParsedInvoice}
  {contract : Option ContractFacts} {facts : FactBundle} {rubric : ComposedRubric} {result : AuditResult}
  {input : NumericInput 18 4}

/-! ## The one variance -/

/-- A comparison with a literal has no difference of money. -/
theorem moneyVarianceDelta_factIs {op : CompareOp} {key : String} {x : LitValue} {ev : EvalNode}
    (h : evaluate D facts (factIs op key x) = .ok ev) : moneyVarianceDelta D ev = .ok none := by
  simp only [factIs, evaluate, ok_bind, bind_eq_ok, pure_eq_ok] at h
  obtain ⟨l, -, v, -, rfl⟩ := h
  simp only [moneyVarianceDelta, EvalNode.value_leaf]
  split
  · rename_i hright
    exact absurd hright (litValue_ne_money x)
  · rfl

theorem moneyVarianceDelta_require {key : String} {thenNode : AstNode} {ev : EvalNode}
    (h : evaluate D facts (.require key thenNode) = .ok ev) :
    (facts.absent key = true ∧ moneyVarianceDelta D ev = .ok none ∧ verdict ev = .UNASSESSABLE) ∨
      facts.absent key = false ∧ ∃ child, evaluate D facts thenNode = .ok child ∧ verdict ev = verdict child ∧
        moneyVarianceDelta D ev = moneyVarianceDelta D child := by
  simp only [evaluate] at h
  split at h
  · rename_i habsent
    cases h
    exact .inl ⟨habsent, rfl, rfl⟩
  · rename_i hpresent
    simp only [bind_eq_ok, pure_eq_ok] at h
    obtain ⟨child, hchild, rfl⟩ := h
    exact .inr ⟨by simpa using hpresent, child, hchild, rfl, rfl⟩

/-- Only the contract's criterion compares money among those that score. -/
theorem moneyVarianceDelta_scoring (hrubric : rubric = STANDARD_RUBRIC ∨ rubric = CONTRACT_RUBRIC)
    {c : StandardCriterion} (hc : c ∈ rubric.criteria) (hkind : c.kind = .SCORING) (hne : c ≠ RATE_VARIANCE_CRITERION)
    {ev : EvalNode} (h : evaluate D facts c.ast = .ok ev) : moneyVarianceDelta D ev = .ok none := by
  rcases criterion_cases hrubric hc with rfl | rfl | ⟨op, key, x, hast⟩ | ⟨key, x, hast⟩
  · cases hkind
  · exact absurd rfl hne
  · rw [hast] at h
    exact moneyVarianceDelta_factIs h
  · rw [hast, requiredFactIs] at h
    rcases moneyVarianceDelta_require h with ⟨-, hnone, -⟩ | ⟨-, child, hchild, -, hdelta⟩
    · exact hnone
    · rw [hdelta, moneyVarianceDelta_factIs hchild]

/-- The billed linehaul and the contract's rate stand in one currency. -/
structure LinehaulCompared (D : Type) [Decimal D] (inv : ParsedInvoice) (contract : Option ContractFacts)
    (billed : String) (rate : ContractRate) : Prop where
  contracted : contract.bind ContractFacts.linehaulRate = some (some rate)
  summed : billedLinehaul D inv = .ok (some (.money billed rate.currency))
  stated : rate.currency ≠ ""

/-- Billed and contracted, at four decimals, are less than 10^14 apart. -/
def VarianceFits (D : Type) [Decimal D] (inv : ParsedInvoice) (contract : Option ContractFacts) : Prop :=
  ∀ billed rate, LinehaulCompared D inv contract billed rate →
    (safeDecimal D billed).isSome → (safeDecimal D rate.amount).isSome →
      ∃ x ∈ comparedValue D billed, ∃ y ∈ comparedValue D rate.amount, |x - y| < 10 ^ 14

/-- The difference of two amounts, each read and rounded to four decimals. -/
def DifferenceOf (D : Type) [Decimal D] (billed expected : String) (delta : D) : Prop :=
  ∃ b e rb re : D, safeDecimal D billed = some b ∧ safeDecimal D expected = some e ∧
    Decimal.ofString (Decimal.toFixed 4 b) = some rb ∧ Decimal.ofString (Decimal.toFixed 4 e) = some re ∧
    delta = Decimal.minus rb re

/-- Two money facts: their difference, if both are finite. -/
theorem moneyVarianceDelta_facts {op : CompareOp} {left right a b aCurrency bCurrency : String}
    {tolerance : Option String} {ev : EvalNode} (hl : facts left = some (.money a aCurrency))
    (hr : facts right = some (.money b bCurrency))
    (h : evaluate D facts (.compare op (.fact left) (.fact right) tolerance) = .ok ev) :
    (∃ delta, DifferenceOf D a b delta ∧ moneyVarianceDelta D ev = .ok (some (delta, aCurrency))) ∨
      (safeDecimal D a = none ∨ safeDecimal D b = none) ∧ moneyVarianceDelta D ev = .ok none := by
  have hleft : evaluate D facts (.fact left) = .ok (.leaf (.fact left) (factValue D left (.money a aCurrency))) := by
    simp [evaluate, hl]
  have hright : evaluate D facts (.fact right) = .ok (.leaf (.fact right) (factValue D right (.money b bCurrency))) := by
    simp [evaluate, hr]
  rw [evaluate, hleft, hright] at h
  simp only [ok_bind, bind_eq_ok, pure_eq_ok] at h
  obtain ⟨v, -, rfl⟩ := h
  cases ha : safeDecimal D a with
  | none => exact .inr ⟨.inl rfl, by simp [moneyVarianceDelta, factValue, ha]⟩
  | some da =>
    cases hb : safeDecimal D b with
    | none => exact .inr ⟨.inr rfl, by simp [moneyVarianceDelta, factValue, ha, hb]⟩
    | some db =>
      obtain ⟨p, hp⟩ := (safeDecimal_some.mp ha).2
      obtain ⟨q, hq⟩ := (safeDecimal_some.mp hb).2
      obtain ⟨ra, hra, -⟩ := Decimal.toFixed_reads (k := 4) hp
      obtain ⟨rb, hrb, -⟩ := Decimal.toFixed_reads (k := 4) hq
      refine .inl ⟨Decimal.minus ra rb, ⟨da, db, ra, rb, ha, hb, hra, hrb, rfl⟩, ?_⟩
      simp [moneyVarianceDelta, factValue, ha, hb, newDecimal_some D hra, newDecimal_some D hrb]

/-- What the linehaul is billed at carries the currency its charges share. -/
theorem billedLinehaul_some {billed : FactValue} (h : billedLinehaul D inv = .ok (some billed)) :
    ∃ (currency : String) (sum : D), billedCurrency inv = some currency ∧
      billed = .money (Decimal.toFixed 4 sum) currency := by
  unfold billedLinehaul at h
  split at h
  · cases h
  · rename_i currency hcurrency
    simp only [bind_eq_ok, pure_eq_ok, Option.some.injEq] at h
    obtain ⟨sum, -, rfl⟩ := h
    exact ⟨currency, sum, hcurrency, rfl⟩

/-- The criterion formed the variance; unless it failed, the figures are within one cent. -/
def DeltaFormed (D : Type) [Decimal D] (inv : ParsedInvoice) (contract : Option ContractFacts) (ev : EvalNode) : Prop :=
  ∃ billed rate delta, LinehaulCompared D inv contract billed rate ∧ DifferenceOf D billed rate.amount delta ∧
    moneyVarianceDelta D ev = .ok (some (delta, rate.currency)) ∧
      (verdict ev = .FAIL ∨ ∃ x ∈ comparedValue D billed, ∃ y ∈ comparedValue D rate.amount, |x - y| ≤ 1 / 100)

/-- The variance of the linehaul is formed exactly where its figures are compared and finite. -/
theorem rateVariance_delta (hfacts : buildFactBundle D unicode inv contract = .ok facts) {ev : EvalNode}
    (h : evaluate D facts RATE_VARIANCE_CRITERION.ast = .ok ev) :
    DeltaFormed D inv contract ev ∨
    moneyVarianceDelta D ev = .ok none ∧ ∀ billed rate, LinehaulCompared D inv contract billed rate →
      safeDecimal D billed = none ∨ safeDecimal D rate.amount = none := by
  cases hrate : contract.bind ContractFacts.linehaulRate with
  | none =>
    have hnone := buildFactBundle_noLinehaul hfacts hrate (by decide : "billed_linehaul" ∈ linehaulKeys)
    rcases moneyVarianceDelta_require h with ⟨-, hdelta, -⟩ | ⟨hpresent, -⟩
    · exact .inr ⟨hdelta, fun billed rate hc => by rw [hc.contracted] at hrate; cases hrate⟩
    · simp [FactBundle.absent, hnone] at hpresent
  | some rate =>
    obtain ⟨billed, hbilled, hmem⟩ := buildFactBundle_linehaul hfacts hrate
    have hb := hmem "billed_linehaul" _ List.mem_cons_self
    have hr := hmem "contract_linehaul_rate" _ (List.mem_cons_of_mem _ List.mem_cons_self)
    have hm := hmem "linehaul_currencies_match" _
      (List.mem_cons_of_mem _ (List.mem_cons_of_mem _ List.mem_cons_self))
    -- where a guard stops, the figures are not compared
    have hstops : ∀ {ev}, moneyVarianceDelta D ev = .ok none →
        (∀ text r, LinehaulCompared D inv contract text r → False) →
        DeltaFormed D inv contract ev ∨ moneyVarianceDelta D ev = .ok none ∧ ∀ billed rate, LinehaulCompared D inv contract billed rate →
          safeDecimal D billed = none ∨ safeDecimal D rate.amount = none :=
      fun hnone hnot => .inr ⟨hnone, fun text r hc => (hnot text r hc).elim⟩
    rcases moneyVarianceDelta_require h with ⟨habsent, hdelta, -⟩ | ⟨hpresent, child, hchild, hverdict, hdelta⟩
    · refine hstops hdelta fun text r hc => ?_
      rw [Except.ok.inj (hbilled.symm.trans hc.summed)] at hb
      simp [FactBundle.absent, hb] at habsent
    obtain ⟨value, rfl⟩ : ∃ value, billed = some value := by
      cases billed with
      | none => simp [FactBundle.absent, hb] at hpresent
      | some value => exact ⟨value, rfl⟩
    obtain ⟨currency, sum, hcurrency, rfl⟩ := billedLinehaul_some hbilled
    rcases moneyVarianceDelta_require hchild with ⟨habsent, hnone, -⟩ | ⟨hpresent, child', hchild', hverdict', hdelta'⟩
    · refine hstops (hdelta.trans hnone) fun text r hc => ?_
      have hsome := Option.some.inj (hrate.symm.trans hc.contracted)
      rw [hsome] at hr
      simp [FactBundle.absent, hr] at habsent
    obtain ⟨r, rfl⟩ : ∃ r, rate = some r := by
      cases rate with
      | none => simp [FactBundle.absent, hr] at hpresent
      | some r => exact ⟨r, rfl⟩
    have hmatch : currenciesStatedAndEqual (billedCurrency inv) ((some r).map ContractRate.currency) = true ↔
        r.currency ≠ "" ∧ currency = r.currency := by
      simp only [hcurrency, Option.map_some, currenciesStatedAndEqual, Bool.and_eq_true, bne_iff_ne, beq_iff_eq]
      constructor
      · rintro ⟨⟨-, hne⟩, heq⟩
        exact ⟨hne, heq⟩
      · rintro ⟨hne, rfl⟩
        exact ⟨⟨hne, hne⟩, rfl⟩
    rcases moneyVarianceDelta_require hchild' with ⟨habsent, hnone, -⟩ |
      ⟨hpresent, child'', hchild'', hverdict'', hdelta''⟩
    · refine hstops ((hdelta.trans hdelta').trans hnone) fun text r' hc => ?_
      obtain rfl := Option.some.inj (Option.some.inj (hrate.symm.trans hc.contracted))
      have hmoney := Option.some.inj (Except.ok.inj (hbilled.symm.trans hc.summed))
      have hequal : currency = r.currency := by
        injection hmoney
      rw [if_pos (hmatch.mpr ⟨hc.stated, hequal⟩)] at hm
      simp [FactBundle.absent, hm] at habsent
    have hstated : r.currency ≠ "" ∧ currency = r.currency := by
      rw [← hmatch]
      by_contra hnot
      rw [if_neg hnot] at hm
      simp [FactBundle.absent, hm] at hpresent
    obtain ⟨hne, rfl⟩ := hstated
    have hcompared : LinehaulCompared D inv contract (Decimal.toFixed 4 sum) r := ⟨hrate, hbilled, hne⟩
    have hsame := (hdelta.trans hdelta').trans hdelta''
    rcases moneyVarianceDelta_facts hb hr hchild'' with ⟨delta, hdifference, hvalue⟩ | ⟨hunread, hvalue⟩
    · refine .inl ⟨_, r, delta, hcompared, hdifference, hsame.trans hvalue, ?_⟩
      obtain ⟨b, e, -, -, hbread, heread, -⟩ := hdifference
      obtain ⟨within, hwithin, hnear⟩ := value_moneyApprox hb hr hbread heread
      rw [value, show evaluate D facts (.compare .approx (.fact "billed_linehaul") (.fact "contract_linehaul_rate")
        (some "0.01")) = .ok child'' from hchild''] at hwithin
      have hchildValue : child''.value = .bool within := Except.ok.inj hwithin
      rw [hverdict, hverdict', hverdict'', verdict, hchildValue]
      cases within with
      | false => exact .inl rfl
      | true => exact .inr (hnear.mp rfl)
    · refine .inr ⟨hsame.trans hvalue, fun text r' hc => ?_⟩
      obtain rfl := Option.some.inj (Option.some.inj (hrate.symm.trans hc.contracted))
      have hmoney := Option.some.inj (Except.ok.inj (hbilled.symm.trans hc.summed))
      have htext : Decimal.toFixed 4 sum = text := by
        injection hmoney
      rw [← htext]
      exact hunread

/-! ## What the column takes of it -/

/-- The text of a sum is compared as the value it was rounded to. -/
theorem comparedValue_sum {sum : D} (h : (safeDecimal D (Decimal.toFixed 4 sum)).isSome) :
    (comparedValue D (Decimal.toFixed 4 sum)).isSome := by
  obtain ⟨d, hd⟩ := Option.isSome_iff_exists.mp h
  obtain ⟨hread, x, hx⟩ := safeDecimal_some.mp hd
  have hfinite : (Decimal.val sum).isFinite = true := by
    by_contra hnot
    obtain ⟨d', hd', hv⟩ := Decimal.toFixed_reads_nonFinite (k := 4) (Bool.not_eq_true _ ▸ hnot)
    rw [Option.some.inj (hread.symm.trans hd'), hv] at hx
    rw [hx] at hnot
    exact hnot rfl
  obtain ⟨q, hq⟩ := Val.isFinite_iff.mp hfinite
  obtain ⟨d', hd', hv⟩ := Decimal.toFixed_reads (k := 4) hq
  rw [← Option.some.inj (hread.symm.trans hd'), hx] at hv
  obtain rfl := ofExact_roundDp hv.symm
  rw [comparedValue_some hd hx, roundDp_idem, if_pos hv.symm]
  rfl

/-- How a difference is rounded: not at all if it is out of range, else to 20 digits. -/
def IsDifference (v : Val) : Prop := (∃ neg, v = .inf neg) ∨ ∃ x, v = Val.ofExact (roundSig precision x)

/-- The column takes the difference exactly if the figures are near enough. -/
theorem takes_difference {billed expected : String} {delta : D} (h : DifferenceOf D billed expected delta)
    (hbilled : (comparedValue D billed).isSome) :
    IsDifference (Decimal.val delta) ∧ (input.Takes (Decimal.val delta) ↔
      ∃ x ∈ comparedValue D billed, ∃ y ∈ comparedValue D expected, |x - y| < 10 ^ 14) := by
  obtain ⟨b, e, rb, re, hb, he, hrb, hre, rfl⟩ := h
  obtain ⟨p, hp⟩ := (safeDecimal_some.mp hb).2
  obtain ⟨q, hq⟩ := (safeDecimal_some.mp he).2
  obtain ⟨rb', hrb', hvb⟩ := Decimal.toFixed_reads (k := 4) hp
  obtain ⟨re', hre', hve⟩ := Decimal.toFixed_reads (k := 4) hq
  obtain rfl := Option.some.inj (hrb.symm.trans hrb')
  obtain rfl := Option.some.inj (hre.symm.trans hre')
  rw [comparedValue_some hb hp] at hbilled ⊢
  rw [comparedValue_some he hq]
  have hin : Val.ofExact (roundDp 4 p) = .fin (roundDp 4 p) := by
    by_contra hnot
    rw [if_neg hnot] at hbilled
    cases hbilled
  rw [if_pos hin, Decimal.val_minus, hvb, hve, hin]
  by_cases hexp : Val.ofExact (roundDp 4 q) = .fin (roundDp 4 q)
  · obtain ⟨m, hm⟩ := roundDp_units 4 p
    obtain ⟨n, hn⟩ := roundDp_units 4 q
    have hdiff : roundDp 4 p - roundDp 4 q = ((m - n : ℤ) : ℚ) / 10 ^ 4 := by
      rw [hm, hn]
      push_cast
      ring
    have hscale : |((m - n : ℤ) : ℚ) / 10 ^ 4| < 10 ^ 14 ↔ |m - n| < 10 ^ 18 := by
      rw [abs_div, abs_of_pos (by positivity : (0 : ℚ) < 10 ^ 4), div_lt_iff₀ (by positivity)]
      norm_num
      exact_mod_cast Iff.rfl
    rw [hexp, if_pos rfl, Val.sub_fin, hdiff, takes_roundSig (by decide) (by decide)]
    refine ⟨.inr ⟨_, rfl⟩, ?_⟩
    simp only [Option.mem_some, exists_eq_left', hdiff, hscale]
  · rw [if_neg hexp]
    cases hv : Val.ofExact (roundDp 4 q) with
    | nan => exact absurd hv (by unfold Val.ofExact; split_ifs <;> simp)
    | fin x => rw [ofExact_roundDp hv] at hv; exact absurd hv hexp
    | inf neg => exact ⟨.inl ⟨_, rfl⟩, iff_of_false id (by simp)⟩

theorem val_zero : Decimal.val (Decimal.ofNumber (.ofNat 0) : D) = .fin 0 := by
  rw [Decimal.val_ofNumber, ofNat_zero]

/-- A total that starts with the difference is taken as the difference is. -/
theorem accepts_total {d : D} (h : IsDifference (Decimal.val d)) :
    input.accepts (Decimal.toFixed 4 (Decimal.plus (Decimal.ofNumber (.ofNat 0)) d)) = true ↔
      input.Takes (Decimal.val d) := by
  have hsame : Decimal.val (Decimal.plus (Decimal.ofNumber (.ofNat 0)) d) = Decimal.val d := by
    rw [Decimal.val_plus, val_zero]
    rcases h with ⟨neg, hv⟩ | ⟨x, hv⟩
    · rw [hv]
      rfl
    · rw [hv, zero_add_roundSig]
  rw [accepts_toFixed (by decide), hsame]

theorem isDifference_abs {d : D} (h : IsDifference (Decimal.val d)) : IsDifference (Decimal.val (Decimal.abs d)) := by
  rw [Decimal.val_abs]
  rcases h with ⟨neg, hv⟩ | ⟨x, hv⟩
  · exact .inl ⟨false, by rw [hv]; rfl⟩
  · exact .inr ⟨|x|, by rw [hv, Val.abs_ofExact, abs_roundSig (by decide)]⟩

theorem accepts_zero : input.accepts (Decimal.toFixed 4 (Decimal.ofNumber (.ofNat 0) : D)) = true := by
  rw [accepts_toFixed (by decide), val_zero]
  have h : input.Takes (.fin ((0 : ℤ) / 10 ^ 4)) ↔ |(0 : ℤ)| < 10 ^ 18 := takes_fin_units 0
  rw [Int.cast_zero, zero_div] at h
  exact h.mpr (by norm_num)

/-! ## Findings and totals -/

/-- The amounts a scored invoice is stored with, where one variance at most is counted. -/
structure CountedAmounts (result : AuditResult) (counted : Option (D × String)) : Prop where
  findings : ∀ f ∈ result.findings, (f.varianceAmount = none ∧ f.currency = none) ∨
    ∃ p ∈ counted, f.varianceAmount = some (Decimal.toFixed 4 p.1) ∧ f.currency = some p.2
  reported : ∀ p ∈ counted, ∃ f ∈ result.findings, f.result ≠ .CONFORMED ∧
    f.varianceAmount = some (Decimal.toFixed 4 p.1)
  totals : ∃ sc, result.scorecard = some sc ∧
    ((sc.totalOvercharge = Decimal.toFixed 4 (Decimal.ofNumber (.ofNat 0) : D) ∨ ∃ p ∈ counted,
        sc.totalOvercharge = Decimal.toFixed 4 (Decimal.plus (Decimal.ofNumber (.ofNat 0)) p.1)) ∧
      (sc.totalUndercharge = Decimal.toFixed 4 (Decimal.ofNumber (.ofNat 0) : D) ∨ ∃ p ∈ counted,
        sc.totalUndercharge = Decimal.toFixed 4 (Decimal.plus (Decimal.ofNumber (.ofNat 0)) (Decimal.abs p.1))))

/-- Criteria that compare no money leave the totals as they are. -/
theorem foldlM_scoreStep_noMoney {scored : List (StandardCriterion × EvalNode)}
    (h : ∀ p ∈ scored, moneyVarianceDelta D p.2 = .ok none) {t t' : Tally D}
    (hfold : scored.foldlM (scoreStep D) t = .ok t') :
    t'.totalOvercharge = t.totalOvercharge ∧ t'.totalUndercharge = t.totalUndercharge ∧
      ∀ f ∈ t'.findings, f ∈ t.findings ∨ f.varianceAmount = none ∧ f.currency = none := by
  induction scored generalizing t with
  | nil =>
    obtain rfl := pure_eq_ok.mp hfold
    exact ⟨rfl, rfl, fun f hf => .inl hf⟩
  | cons p rest ih =>
    rw [List.foldlM_cons] at hfold
    obtain ⟨mid, hmid, hrest⟩ := bind_eq_ok.mp hfold
    obtain ⟨hover, hunder, hfindings⟩ := ih (fun q hq => h q (List.mem_cons_of_mem _ hq)) hrest
    obtain ⟨c, ev⟩ := p
    have hnone : moneyVarianceDelta D ev = .ok none := h (c, ev) List.mem_cons_self
    simp only [scoreStep, hnone, ok_bind] at hmid
    -- the step appends a finding without an amount
    have hstep : mid.totalOvercharge = t.totalOvercharge ∧ mid.totalUndercharge = t.totalUndercharge ∧
        ∀ f ∈ mid.findings, f ∈ t.findings ∨ f.varianceAmount = none ∧ f.currency = none := by
      cases hobserved : findingResult (verdict ev) <;> rw [hobserved] at hmid <;> cases hmid <;>
        exact ⟨rfl, rfl, by simp +contextual [List.mem_append, or_imp]⟩
    refine ⟨hover.trans hstep.1, hunder.trans hstep.2.1, fun f hf => ?_⟩
    rcases hfindings f hf with hmem | hamount
    · exact hstep.2.2 f hmem
    · exact .inr hamount

/-- What of a difference is counted: it, if the criterion found a variance. -/
def countedOf (ev : EvalNode) (delta : Option (D × String)) : Option (D × String) :=
  if verdict ev = .FAIL then delta else none

/-- One more criterion. -/
theorem scoreStep_counted {t t' : Tally D} {c : StandardCriterion} {ev : EvalNode} {delta : Option (D × String)}
    (hdelta : moneyVarianceDelta D ev = .ok delta) (hstep : scoreStep D t (c, ev) = .ok t') :
    ∃ f, t'.findings = t.findings ++ [f] ∧
      match countedOf ev delta with
      | none => f.varianceAmount = none ∧ f.currency = none ∧ t'.totalOvercharge = t.totalOvercharge ∧
          t'.totalUndercharge = t.totalUndercharge
      | some p => f.result ≠ .CONFORMED ∧ f.varianceAmount = some (Decimal.toFixed 4 p.1) ∧ f.currency = some p.2 ∧
          (t'.totalOvercharge = Decimal.plus t.totalOvercharge p.1 ∧ t'.totalUndercharge = t.totalUndercharge ∨
            t'.totalOvercharge = t.totalOvercharge ∧
              t'.totalUndercharge = Decimal.plus t.totalUndercharge (Decimal.abs p.1)) := by
  simp only [scoreStep, hdelta, ok_bind] at hstep
  cases hverdict : verdict ev <;> rw [hverdict] at hstep
  · cases hstep
    rw [countedOf, hverdict, if_neg (by simp)]
    exact ⟨_, rfl, rfl, rfl, rfl, rfl⟩
  · rw [countedOf, hverdict, if_pos rfl]
    cases delta with
    | none =>
      cases hstep
      exact ⟨_, rfl, rfl, rfl, rfl, rfl⟩
    | some p =>
      simp only [findingResult] at hstep
      split at hstep
      · cases hstep
        exact ⟨_, rfl, by simp, rfl, rfl, .inl ⟨rfl, rfl⟩⟩
      · cases hstep
        exact ⟨_, rfl, by simp, rfl, rfl, .inr ⟨rfl, rfl⟩⟩
  · cases hstep
    rw [countedOf, hverdict, if_neg (by simp)]
    exact ⟨_, rfl, rfl, rfl, rfl, rfl⟩

/-- The criteria that score, in their order. -/
def standardScoring : List StandardCriterion := STANDARD_RUBRIC.criteria.drop 14

theorem orderedCriteria_scoring (unicode : Unicode) :
    orderedCriteria unicode STANDARD_RUBRIC .SCORING = standardScoring ∧
      orderedCriteria unicode CONTRACT_RUBRIC .SCORING = standardScoring ++ [RATE_VARIANCE_CRITERION] := by
  have hsorted : (standardScoring ++ [RATE_VARIANCE_CRITERION]).Pairwise (fun a b => a.evalOrder < b.evalOrder) := by
    simp [standardScoring, STANDARD_RUBRIC, RATE_VARIANCE_CRITERION, scoring]
  have hsort : ∀ {l : List StandardCriterion}, l.Pairwise (fun a b => a.evalOrder < b.evalOrder) →
      l.insertionSort (fun a b => a.evalOrder < b.evalOrder ∨ a.evalOrder = b.evalOrder ∧
        unicode.localeCompare a.criterionKey b.criterionKey ≠ .gt) = l :=
    fun hl => List.Pairwise.insertionSort_eq (hl.imp fun h => .inl h)
  exact ⟨hsort (List.pairwise_append.mp hsorted).1, hsort hsorted⟩

theorem standardScoring_noMoney {scored : List (StandardCriterion × EvalNode)}
    (h : evaluateCriteria D facts standardScoring = .ok scored) :
    ∀ p ∈ scored, moneyVarianceDelta D p.2 = .ok none := by
  intro p hp
  obtain ⟨c, ev⟩ := p
  obtain ⟨hc, hev⟩ := (mem_evaluateCriteria h).mp hp
  rw [← (orderedCriteria_scoring Unicode.ascii).1] at hc
  obtain ⟨hmem, hkind⟩ := mem_orderedCriteria.mp hc
  refine moneyVarianceDelta_scoring (.inl rfl) hmem hkind ?_ hev
  rintro rfl
  have hkey : ∀ d ∈ STANDARD_RUBRIC.criteria, d.evalOrder ≠ 200 := by
    simp [STANDARD_RUBRIC, footingCriterion, booleanGate, oceanGate, scoring]
  exact hkey _ hmem rfl

/-- A scored invoice counts no variance under the standard rubric, and under the contract's the one of
its criterion. -/
theorem scored_counted (hrubric : rubric = STANDARD_RUBRIC ∨ rubric = CONTRACT_RUBRIC)
    (h : evaluateInvoice D unicode sha256 inv rubric contract = .ok result) (hscored : result.outcome = .SCORED) :
    (rubric = STANDARD_RUBRIC ∧ CountedAmounts (D := D) result none) ∨
      rubric = CONTRACT_RUBRIC ∧ ∃ facts ev delta, buildFactBundle D unicode inv contract = .ok facts ∧
        evaluate D facts RATE_VARIANCE_CRITERION.ast = .ok ev ∧ moneyVarianceDelta D ev = .ok delta ∧
          CountedAmounts result (countedOf ev delta) := by
  simp only [evaluateInvoice, bind_eq_ok] at h
  obtain ⟨facts, hfacts, gates, -, h⟩ := h
  split at h
  swap
  · obtain rfl := pure_eq_ok.mp h
    cases hscored
  simp only [bind_eq_ok, pure_eq_ok] at h
  obtain ⟨scored, hevaluated, tally, htally, rfl⟩ := h
  rcases hrubric with rfl | rfl
  · rw [(orderedCriteria_scoring unicode).1] at hevaluated
    obtain ⟨hover, hunder, hfindings⟩ := foldlM_scoreStep_noMoney (standardScoring_noMoney hevaluated) htally
    refine .inl ⟨rfl, fun f hf => .inl ((hfindings f hf).resolve_left List.not_mem_nil), by simp, _, rfl,
      .inl (by rw [hover]), .inl (by rw [hunder])⟩
  · rw [(orderedCriteria_scoring unicode).2, evaluateCriteria, List.mapM_append] at hevaluated
    simp only [List.mapM_cons, List.mapM_nil, bind_eq_ok, pure_eq_ok] at hevaluated
    obtain ⟨first, hfirst, last, ⟨p, ⟨ev, hev, rfl⟩, rest, rfl, rfl⟩, rfl⟩ := hevaluated
    obtain ⟨delta, hdelta⟩ := returns_moneyVarianceDelta _ ev hev
    rw [List.foldlM_append] at htally
    obtain ⟨mid, hmid, hlast⟩ := bind_eq_ok.mp htally
    simp only [List.foldlM_cons, List.foldlM_nil, bind_eq_ok, pure_eq_ok] at hlast
    obtain ⟨t', hstep, rfl⟩ := hlast
    obtain ⟨hover, hunder, hfindings⟩ := foldlM_scoreStep_noMoney (standardScoring_noMoney hfirst) hmid
    obtain ⟨f, happend, hcounted⟩ := scoreStep_counted hdelta hstep
    refine .inr ⟨rfl, facts, ev, delta, hfacts, hev, hdelta, ?_⟩
    have hearlier : ∀ g ∈ mid.findings, g.varianceAmount = none ∧ g.currency = none :=
      fun g hg => (hfindings g hg).resolve_left List.not_mem_nil
    cases hp : countedOf ev delta with
    | none =>
      rw [hp] at hcounted
      obtain ⟨hamount, hcurrency, hover', hunder'⟩ := hcounted
      refine ⟨fun g hg => .inl ?_, by simp, _, rfl, .inl ?_, .inl ?_⟩
      · rw [happend] at hg
        rcases List.mem_append.mp hg with hg | hg
        · exact hearlier g hg
        · rw [List.mem_singleton.mp hg]
          exact ⟨hamount, hcurrency⟩
      · rw [hover', hover]
      · rw [hunder', hunder]
    | some p =>
      rw [hp] at hcounted
      obtain ⟨hresult, hamount, hcurrency, htotals⟩ := hcounted
      have hf : f ∈ t'.findings := by
        rw [happend]
        exact List.mem_append_right _ (List.mem_singleton_self f)
      refine ⟨fun g hg => ?_, ?_, _, rfl, ?_⟩
      · rw [happend] at hg
        rcases List.mem_append.mp hg with hg | hg
        · exact .inl (hearlier g hg)
        · rw [List.mem_singleton.mp hg]
          exact .inr ⟨p, rfl, hamount, hcurrency⟩
      · rintro _ ⟨⟩
        exact ⟨f, hf, hresult, hamount⟩
      · rcases htotals with ⟨hover', hunder'⟩ | ⟨hover', hunder'⟩
        · exact ⟨.inr ⟨p, rfl, by rw [hover', hover]⟩, .inl (by rw [hunder', hunder])⟩
        · exact ⟨.inl (by rw [hover', hover]), .inr ⟨p, rfl, by rw [hunder', hunder]⟩⟩

/-! ## The run as a whole -/

/-- A rejected invoice has failures and nothing else. -/
theorem evaluateInvoice_rejected (h : evaluateInvoice D unicode sha256 inv rubric contract = .ok result)
    (hrejected : result.outcome ≠ .SCORED) :
    result.outcome = .REJECTED_REWORK ∧ result.gateFailures ≠ [] ∧ result.findings = [] ∧ result.scorecard = none := by
  simp only [evaluateInvoice, bind_eq_ok] at h
  obtain ⟨facts, -, gates, -, h⟩ := h
  split at h
  · simp only [bind_eq_ok, pure_eq_ok] at h
    obtain ⟨scored, -, tally, -, rfl⟩ := h
    exact absurd rfl hrejected
  · rename_i hfailed
    obtain rfl := pure_eq_ok.mp h
    exact ⟨rfl, fun hnone => hfailed (List.isEmpty_iff.mpr hnone), rfl, rfl⟩

theorem billedCurrency_mem {currency : String} (h : billedCurrency inv = some currency) :
    ∃ c ∈ inv.charges, c.currency = currency := by
  unfold billedCurrency at h
  split at h
  · cases h
  · rename_i first rest hcharges
    split at h
    · obtain rfl := Option.some.inj h
      have hmem : first ∈ linehaulCharges inv := by
        rw [hcharges]
        exact List.mem_cons_self
      exact ⟨first, (List.mem_filter.mp hmem).1, rfl⟩
    · cases h

theorem returns_materiality {d : D} : Returns (materiality D input (Decimal.toFixed 4 d)) ↔
    input.accepts (Decimal.toFixed 4 d) = true := by
  obtain ⟨r, hr⟩ : ∃ r : D, Decimal.ofString (Decimal.toFixed 4 d) = some r := by
    have hmoney : IsMoneyText D (Decimal.toFixed 4 d) := ⟨d, rfl⟩
    obtain ⟨r, hr, -⟩ := hmoney.reads
    exact ⟨r, hr⟩
  have hread : (newDecimal D (Decimal.toFixed 4 d)).mapError StoreError.decimal = .ok r := by
    rw [newDecimal_some D hr]
    rfl
  rw [materiality, hread, ok_bind, returns_numericColumn, accepts_abs_toFixed (by decide) (by decide) hr]

theorem returns_varianceFindingRow {f : ChargeFinding} :
    Returns (varianceFindingRow D input inv f) ↔ (∀ a ∈ f.varianceAmount, Returns (materiality D input a)) ∧
      (∀ a ∈ f.varianceAmount, input.accepts a = true) ∧ ∀ t ∈ f.currency, CurrencyText t := by
  simp only [varianceFindingRow, returns_bind, exists_and_right, exists_ok_iff, returns_pure, and_true,
    returns_nullable, returns_charColumn, returns_numericColumn]

theorem returns_scorecardRow {sc : Scorecard} :
    Returns (scorecardRow input inv sc) ↔ input.accepts sc.totalOvercharge = true ∧
      input.accepts sc.totalUndercharge = true ∧ ∀ t ∈ inv.headerCurrency, CurrencyText t := by
  simp only [scorecardRow, returns_bind, exists_and_right, exists_ok_iff, returns_pure, and_true,
    returns_nullable, returns_charColumn, returns_numericColumn]

theorem returns_persistAuditRun : Returns (persistAuditRun D input inv result) ↔ Returns (invoiceRow inv) ∧
    (result.outcome = .SCORED → ∀ c ∈ inv.charges, Returns (chargeFactRow input c)) ∧
    (∀ f ∈ result.findings, f.result ≠ .CONFORMED → Returns (varianceFindingRow D input inv f)) ∧
    (∀ sc ∈ result.scorecard, Returns (scorecardRow input inv sc)) ∧
    ∀ t ∈ invoiceTexts inv, '\x00' ∉ t.toList := by
  have hcharges : Returns (chargeFactRows input inv result.outcome) ↔
      (result.outcome = .SCORED → ∀ c ∈ inv.charges, Returns (chargeFactRow input c)) := by
    unfold chargeFactRows
    split
    · rename_i hscored
      rw [returns_mapM, forall_prop_of_true hscored]
    · rename_i hnot
      exact iff_of_true returns_pure fun h => absurd h hnot
  have hscorecard : Returns (scorecardRows input inv result.scorecard) ↔
      ∀ sc ∈ result.scorecard, Returns (scorecardRow input inv sc) := by
    cases result.scorecard with
    | none => exact iff_of_true returns_pure (by simp)
    | some sc => simp [scorecardRows, returns_map]
  have hvariances : Returns (varianceFindingRows D input inv result.findings) ↔
      ∀ f ∈ result.findings, f.result ≠ .CONFORMED → Returns (varianceFindingRow D input inv f) := by
    rw [varianceFindingRows, returns_mapM]
    simp only [List.mem_filter, decide_eq_true_eq, and_imp]
  rw [← hcharges, ← hvariances, ← hscorecard, ← @returns_jsonbColumn "audit_replay_manifest.manifest"]
  simp only [persistAuditRun, returns_bind, exists_and_right, exists_ok_iff, returns_pure, and_true]

/-- What the columns ask of an invoice. -/
structure Storable (D : Type) [Decimal D] (input : NumericInput 18 4) (inv : ParsedInvoice) (rubric : ComposedRubric)
    (contract : Option ContractFacts) : Prop where
  texts : ∀ t ∈ invoiceTexts inv, '\x00' ∉ t.toList
  header : ∀ t ∈ inv.headerCurrency, CurrencyText t
  rateBasis : RateBasisReads D inv
  charges : FormMet inv → WithinTolerance D inv → ∀ c ∈ inv.charges,
    CurrencyText c.currency ∧ ∀ t ∈ figures c, input.accepts t = true
  variance : FormMet inv → WithinTolerance D inv → rubric = CONTRACT_RUBRIC → VarianceFits D inv contract

/-- The run is stored, as scored or as rejected with its gate failures. -/
def JudgedAndStored (D : Type) [Decimal D] (input : NumericInput 18 4) (unicode : Unicode) (sha256 : String → String)
    (inv : ParsedInvoice) (rubric : ComposedRubric) (contract : Option ContractFacts) : Prop :=
  ∃ stored, judgeAndStore D input unicode sha256 inv rubric contract = .ok stored ∧
    (stored.outcome = .SCORED ∨ stored.outcome = .REJECTED_REWORK ∧ stored.gateFailures ≠ [])

theorem mem_invoiceTexts_of_charge {c : NormalizedCharge} (hc : c ∈ inv.charges) {t : String} (ht : t ∈ chargeTexts c) :
    t ∈ invoiceTexts inv :=
  List.mem_append_left _ (List.mem_append_right _ (List.mem_flatMap.mpr ⟨c, hc, ht⟩))

/-- The invoice's own row. -/
theorem returns_invoiceRow_iff (htexts : ∀ t ∈ invoiceTexts inv, '\x00' ∉ t.toList) :
    Returns (invoiceRow inv) ↔ ∀ t ∈ inv.headerCurrency, CurrencyText t := by
  have hnumber : ∀ t ∈ inv.invoiceNumber, '\x00' ∉ t.toList := fun t ht =>
    htexts t (by simp [invoiceTexts, Option.mem_def.mp ht])
  have hparser : '\x00' ∉ inv.parserVersion.toList := htexts _ (by simp [invoiceTexts])
  rw [returns_invoiceRow]
  exact ⟨fun h => h.2.1, fun h => ⟨hnumber, h, hparser⟩⟩

/-- The rows of the findings and of the scorecard: whatever is counted has to be taken. -/
theorem returns_counted_iff {counted : Option (D × String)} (h : CountedAmounts result counted)
    (hdifference : ∀ p ∈ counted, IsDifference (Decimal.val p.1)) (hcurrency : ∀ p ∈ counted, CurrencyText p.2)
    (hheader : ∀ t ∈ inv.headerCurrency, CurrencyText t) :
    ((∀ f ∈ result.findings, f.result ≠ .CONFORMED → Returns (varianceFindingRow D input inv f)) ∧
        ∀ sc ∈ result.scorecard, Returns (scorecardRow input inv sc)) ↔
      ∀ p ∈ counted, input.Takes (Decimal.val p.1) := by
  constructor
  · rintro ⟨hfindings, -⟩ p hp
    obtain ⟨f, hf, hresult, hamount⟩ := h.reported p hp
    have haccepted := (returns_varianceFindingRow.mp (hfindings f hf hresult)).2.1 _ hamount
    exact (accepts_toFixed (by decide) p.1).mp haccepted
  · intro htakes
    refine ⟨fun f hf _ => ?_, fun sc hsc => ?_⟩
    · rw [returns_varianceFindingRow]
      rcases h.findings f hf with ⟨hnone, hcur⟩ | ⟨p, hp, hamount, hcur⟩
      · rw [hnone, hcur]
        exact ⟨by simp, by simp, by simp⟩
      · have haccepted : input.accepts (Decimal.toFixed 4 p.1) = true :=
          (accepts_toFixed (by decide) p.1).mpr (htakes p hp)
        simp only [hamount, hcur, Option.mem_some, forall_eq']
        exact ⟨returns_materiality.mpr haccepted, haccepted, hcurrency p hp⟩
    · obtain ⟨sc', hsc', hover, hunder⟩ := h.totals
      obtain rfl := Option.some.inj (hsc'.symm.trans hsc)
      rw [returns_scorecardRow]
      refine ⟨?_, ?_, hheader⟩
      · rcases hover with hzero | ⟨p, hp, htotal⟩
        · rw [hzero]
          exact accepts_zero
        · rw [htotal]
          exact (accepts_total (hdifference p hp)).mpr (htakes p hp)
      · rcases hunder with hzero | ⟨p, hp, htotal⟩
        · rw [hzero]
          exact accepts_zero
        · rw [htotal, accepts_total (isDifference_abs (hdifference p hp)), Decimal.val_abs, takes_abs]
          exact htakes p hp

/-- What the contract's criterion counts is taken exactly if the variance fits. -/
theorem counted_takes_iff (hfacts : buildFactBundle D unicode inv contract = .ok facts) {ev : EvalNode}
    (hev : evaluate D facts RATE_VARIANCE_CRITERION.ast = .ok ev) {delta : Option (D × String)}
    (hdelta : moneyVarianceDelta D ev = .ok delta) :
    (∀ p ∈ countedOf ev delta, IsDifference (Decimal.val p.1) ∧ ∃ c ∈ inv.charges, c.currency = p.2) ∧
      ((∀ p ∈ countedOf ev delta, input.Takes (Decimal.val p.1)) ↔ VarianceFits D inv contract) := by
  rcases rateVariance_delta hfacts hev with ⟨billed, rate, d, hcompared, hdifference, hformed, hnear⟩ | ⟨hnone, hunread⟩
  · obtain rfl := Except.ok.inj (hformed.symm.trans hdelta)
    obtain ⟨currency, sum, hcurrency, hmoney⟩ := billedLinehaul_some hcompared.summed
    have htext : billed = Decimal.toFixed 4 sum ∧ rate.currency = currency := by
      injection hmoney with h1 h2
      exact ⟨h1, h2⟩
    obtain ⟨b, e, -, -, hb, he, -⟩ := id hdifference
    have hsome : (comparedValue D billed).isSome := by
      rw [htext.1]
      exact comparedValue_sum (by rw [← htext.1, hb]; rfl)
    obtain ⟨hrounded, htakes⟩ := @takes_difference D _ input _ _ _ hdifference hsome
    have hfits : VarianceFits D inv contract ↔ input.Takes (Decimal.val d) := by
      rw [htakes]
      constructor
      · exact fun hfits => hfits billed rate hcompared (by rw [hb]; rfl) (by rw [he]; rfl)
      · intro hclose billed' rate' hcompared' _ _
        obtain rfl := Option.some.inj (Option.some.inj (hcompared.contracted.symm.trans hcompared'.contracted))
        have hsame := Option.some.inj (Except.ok.inj (hcompared.summed.symm.trans hcompared'.summed))
        have hbilled : billed = billed' := by
          injection hsame
        rw [← hbilled]
        exact hclose
    rw [hfits]
    rcases hnear with hfail | ⟨x, hx, y, hy, hxy⟩
    · rw [countedOf, if_pos hfail]
      refine ⟨?_, by simp⟩
      rintro _ ⟨⟩
      rw [htext.2]
      exact ⟨hrounded, billedCurrency_mem hcurrency⟩
    · -- within a cent, so it fits whether it is counted or not
      have hclose : input.Takes (Decimal.val d) :=
        htakes.mpr ⟨x, hx, y, hy, hxy.trans_lt (by norm_num)⟩
      unfold countedOf
      split
      · refine ⟨?_, by simp⟩
        rintro _ ⟨⟩
        rw [htext.2]
        exact ⟨hrounded, billedCurrency_mem hcurrency⟩
      · exact ⟨by simp, iff_of_true (by simp) hclose⟩
  · obtain rfl := Except.ok.inj (hnone.symm.trans hdelta)
    have hcounted : countedOf ev (none : Option (D × String)) = none := by simp [countedOf]
    rw [hcounted]
    refine ⟨by simp, iff_of_true (by simp) fun billed rate hcompared hb he => ?_⟩
    rcases hunread billed rate hcompared with h | h
    · rw [h] at hb
      cases hb
    · rw [h] at he
      cases he

theorem standard_ne_contract : STANDARD_RUBRIC ≠ CONTRACT_RUBRIC := fun h =>
  absurd (congrArg ComposedRubric.resolverVersion h) (by decide)

/-- An evaluated invoice is stored exactly if its columns take it. -/
theorem returns_persist_iff (hrubric : rubric = STANDARD_RUBRIC ∨ rubric = CONTRACT_RUBRIC)
    (h : evaluateInvoice D unicode sha256 inv rubric contract = .ok result) (hrate : RateBasisReads D inv) :
    Returns (persistAuditRun D input inv result) ↔ Storable D input inv rubric contract := by
  have hgates := scored_iff_gates hrubric h
  rw [returns_persistAuditRun]
  by_cases hscored : result.outcome = .SCORED
  · obtain ⟨hform, htolerance⟩ := hgates.mp hscored
    -- the charges, once the texts are free of NUL
    have hcharges : (∀ t ∈ invoiceTexts inv, '\x00' ∉ t.toList) →
        ((∀ c ∈ inv.charges, Returns (chargeFactRow input c)) ↔
          ∀ c ∈ inv.charges, CurrencyText c.currency ∧ ∀ t ∈ figures c, input.accepts t = true) := fun htexts =>
      forall₂_congr fun c hc => returns_chargeFactRow (hform.amounts c hc)
        fun t ht => htexts t (mem_invoiceTexts_of_charge hc ht)
    -- the variance, once the currencies of the charges are taken
    have hvariance : (∀ c ∈ inv.charges, CurrencyText c.currency) → (∀ t ∈ inv.headerCurrency, CurrencyText t) →
        (((∀ f ∈ result.findings, f.result ≠ .CONFORMED → Returns (varianceFindingRow D input inv f)) ∧
          ∀ sc ∈ result.scorecard, Returns (scorecardRow input inv sc)) ↔
          (rubric = CONTRACT_RUBRIC → VarianceFits D inv contract)) := by
      intro hcurrencies hheader
      rcases scored_counted hrubric h hscored with ⟨rfl, hcounted⟩ |
        ⟨rfl, facts, ev, delta, hfacts, hev, hdelta, hcounted⟩
      · rw [returns_counted_iff hcounted (by simp) (by simp) hheader]
        exact iff_of_true (by simp) fun h => absurd h standard_ne_contract
      · obtain ⟨hparts, htakes⟩ := @counted_takes_iff D _ unicode inv contract facts input hfacts ev hev delta hdelta
        have hcurrency : ∀ p ∈ countedOf ev delta, CurrencyText p.2 := by
          intro p hp
          obtain ⟨-, c, hc, hsame⟩ := hparts p hp
          rw [← hsame]
          exact hcurrencies c hc
        rw [returns_counted_iff hcounted (fun p hp => (hparts p hp).1) hcurrency hheader, htakes,
          forall_prop_of_true rfl]
    constructor
    · rintro ⟨hinvoice, hchargeRows, hfindings, hscorecard, htexts⟩
      have hheader := (returns_invoiceRow_iff htexts).mp hinvoice
      have hcols := (hcharges htexts).mp (hchargeRows hscored)
      exact ⟨htexts, hheader, hrate, fun _ _ => hcols,
        fun _ _ => (hvariance (fun c hc => (hcols c hc).1) hheader).mp ⟨hfindings, hscorecard⟩⟩
    · intro hs
      have hcols := hs.charges hform htolerance
      obtain ⟨hfindings, hscorecard⟩ := (hvariance (fun c hc => (hcols c hc).1) hs.header).mpr
        (hs.variance hform htolerance)
      exact ⟨(returns_invoiceRow_iff hs.texts).mpr hs.header, fun _ => (hcharges hs.texts).mpr hcols, hfindings,
        hscorecard, hs.texts⟩
  · have hnot : FormMet inv → WithinTolerance D inv → False := fun hform htolerance =>
      hscored (hgates.mpr ⟨hform, htolerance⟩)
    obtain ⟨-, -, hfindings, hscorecard⟩ := evaluateInvoice_rejected h hscored
    constructor
    · rintro ⟨hinvoice, -, -, -, htexts⟩
      exact ⟨htexts, (returns_invoiceRow_iff htexts).mp hinvoice, hrate, fun hf ht => (hnot hf ht).elim,
        fun hf ht => (hnot hf ht).elim⟩
    · intro hs
      refine ⟨(returns_invoiceRow_iff hs.texts).mpr hs.header, fun h => absurd h hscored, ?_, ?_, hs.texts⟩
      · rw [hfindings]
        exact fun f hf => absurd hf List.not_mem_nil
      · rw [hscorecard]
        exact fun sc hsc => by cases hsc

/-- An accepted invoice is judged and stored exactly if: no text of it holds NUL; its header states no
currency or three capital letters; the rates and bases compared with an amount are decimals; and, where
the gates pass, every charge states its currency so and figures the column takes, and the linehaul is
less than 10^14 away from the contract's rate. -/
theorem judgedAndStored_iff (D : Type) [Decimal D] (input : NumericInput 18 4) (unicode : Unicode)
    (sha256 : String → String) (inv : ParsedInvoice) (hinv : Produced D unicode inv) (rubric : ComposedRubric)
    (hrubric : rubric = STANDARD_RUBRIC ∨ rubric = CONTRACT_RUBRIC) (contract : Option ContractFacts) :
    JudgedAndStored D input unicode sha256 inv rubric contract ↔ Storable D input inv rubric contract := by
  have hreturns := @returns_evaluateInvoice D _ unicode sha256 inv contract
    hinv.figuresRead rubric hrubric
  constructor
  · rintro ⟨stored, hstored, -⟩
    simp only [judgeAndStore, bind_eq_ok, mapError_eq_ok] at hstored
    obtain ⟨result, hresult, hstored⟩ := hstored
    exact (returns_persist_iff hrubric hresult (hreturns.mp ⟨result, hresult⟩)).mp ⟨stored, hstored⟩
  · intro hs
    obtain ⟨result, hresult⟩ := hreturns.mpr hs.rateBasis
    have hpersist : Returns (persistAuditRun D input inv result) :=
      (returns_persist_iff hrubric hresult hs.rateBasis).mpr hs
    obtain ⟨stored, hstored⟩ := hpersist
    refine ⟨stored, ?_, ?_⟩
    · simp only [judgeAndStore, bind_eq_ok, mapError_eq_ok]
      exact ⟨result, hresult, hstored⟩
    · have hrow : stored.outcome = result.outcome ∧ stored.gateFailures = result.gateFailures := by
        simp only [persistAuditRun, bind_eq_ok, pure_eq_ok] at hstored
        obtain ⟨_, -, _, -, _, -, _, -, _, -, rfl⟩ := hstored
        exact ⟨rfl, rfl⟩
      rw [hrow.1, hrow.2]
      by_cases hscored : result.outcome = .SCORED
      · exact .inl hscored
      · obtain ⟨hrejected, hfailures, -⟩ := evaluateInvoice_rejected hresult hscored
        exact .inr ⟨hrejected, hfailures⟩

end

/-- A draft in dollars is stored. -/
theorem dollarDraft_stored :
    JudgedAndStored Ref (plainInput 18 4) Unicode.ascii id (draftOf "100.01" "100.00") STANDARD_RUBRIC none := by
  refine (judgedAndStored_iff Ref (plainInput 18 4) Unicode.ascii id (draftOf "100.01" "100.00")
    (.corrected (by decide +kernel)) STANDARD_RUBRIC (.inl rfl) none).mpr ⟨?_, ?_, fun _ => trivial, fun _ _ => ?_, ?_⟩
  · decide +kernel
  · decide +kernel
  · decide +kernel
  · exact fun _ _ h => absurd h standard_ne_contract

/-- The same draft, its footing off and its header currency in lower case. -/
def lowercaseDraft : ParsedInvoice := { draftOf "500.00" "100.00" with headerCurrency := some "usd" }

/-- The same draft, with a rate that is no number. -/
def unreadableDraft : ParsedInvoice :=
  { draftOf "100.00" "100.00" with
    charges := [⟨none, none, some "LINEHAUL", false, some "100.00", "USD", some "2", some "n/a", none, none⟩] }

/-- The schema accepts both. The first is rejected, and its rejection cannot be stored; the second is
not judged at all. -/
theorem acceptedDrafts_unstored :
    Produced Ref Unicode.ascii lowercaseDraft ∧ Produced Ref Unicode.ascii unreadableDraft ∧
      (evaluateInvoice Ref Unicode.ascii id lowercaseDraft STANDARD_RUBRIC none).toOption.map AuditResult.outcome =
        some .REJECTED_REWORK ∧
      ¬ JudgedAndStored Ref (plainInput 18 4) Unicode.ascii id lowercaseDraft STANDARD_RUBRIC none ∧
      (evaluateInvoice Ref Unicode.ascii id unreadableDraft STANDARD_RUBRIC none).isOk = false ∧
      ¬ JudgedAndStored Ref (plainInput 18 4) Unicode.ascii id unreadableDraft STANDARD_RUBRIC none := by
  have hunstored : ∀ inv, (judgeAndStore Ref (plainInput 18 4) Unicode.ascii id inv STANDARD_RUBRIC none).isOk = false →
      ¬ JudgedAndStored Ref (plainInput 18 4) Unicode.ascii id inv STANDARD_RUBRIC none := by
    rintro inv hfails ⟨stored, hstored, -⟩
    rw [hstored] at hfails
    cases hfails
  exact ⟨.corrected (by decide +kernel), .corrected (by decide +kernel), by decide +kernel,
    hunstored _ (by decide +kernel), by decide +kernel, hunstored _ (by decide +kernel)⟩

end Evaluator
