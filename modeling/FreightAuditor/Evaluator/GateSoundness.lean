import FreightAuditor.Evaluator.EvaluateInvoice
import FreightAuditor.Ingestion.InvoiceDraft
import FreightAuditor.Library.DecimalRef

/- Whether an invoice that is scored adds up.

   `AddsUp` is about the charges themselves: the declared total is within a cent of
   their exact sum. The gates look at precomputed facts (`gates_pass_iff`): the footing
   gate compares the declared total with the line sum the producer of the invoice
   filled in, both rounded to 4 decimals (`WithinTolerance`). So an invoice that is
   scored adds up exactly if these figures agree with the charges
   (`scored_addsUp_iff`). The adapters for EDI sum the charges themselves, and there
   they do as long as the amounts fit 20 digits (`parsed_addsUp`); a corrected draft
   states its line sum. -/
namespace Evaluator

open DecimalJs DecimalText DecimalRounding Ingestion JsText PgNumeric RuleEngine RubricResolver

/-! ## What adding up means -/

/-- The exact sum of the amounts that state a decimal. -/
def exactSum (inv : ParsedInvoice) : ℚ :=
  (inv.charges.filterMap (fun c => c.amount.bind exactValue)).sum

/-- The declared total is within one cent of the exact sum. -/
def Foots (inv : ParsedInvoice) : Prop :=
  ∃ declared ∈ (inv.footing.bind Footing.declaredTotal).bind exactValue, |declared - exactSum inv| ≤ 1 / 100

instance (inv : ParsedInvoice) : Decidable (Foots inv) :=
  inferInstanceAs (Decidable (∃ d ∈ (inv.footing.bind Footing.declaredTotal).bind exactValue, _))

structure AddsUp (inv : ParsedInvoice) : Prop where
  hasCharges : inv.charges ≠ []
  charges : ∀ c ∈ inv.charges, (c.amount.bind exactValue).isSome ∧ c.currency ≠ ""
  foots : Foots inv

/-! ## What the gates look at -/

/-- What the gates other than the footing ask of an invoice. -/
structure FormMet (inv : ParsedInvoice) : Prop where
  currencies : ∀ c ∈ inv.charges, c.currency ≠ ""
  amounts : ∀ c ∈ inv.charges, c.amount.isSome
  hasCharges : inv.charges ≠ []
  /-- The count is a finite number, as every length of an array is. -/
  countable : (JsNumber.ofNat inv.charges.length).val.isFinite
  motor : inv.transactionSet = .edi210 →
    stated inv.invoiceNumber ∧ count inv.shipmentReferences ≠ 0 ∧ stated inv.carrierCode
  ocean : inv.transactionSet = .edi310 →
    stated inv.invoiceNumber ∧ count inv.shipmentReferences ≠ 0 ∧ count inv.containerNumbers ≠ 0 ∧
      stated inv.vesselVoyage ∧ 2 ≤ count inv.portCodes ∧
      (∀ c ∈ inv.charges, stated c.code ∨ stated c.rawDescription) ∧
      ∀ c ∈ inv.charges, isCurrencyCode c.currency

section

variable (D : Type) [Decimal D]

/-- The finite value a money text is compared as: read, then rounded to 4 decimals. -/
def comparedValue (text : String) : Option ℚ :=
  match safeDecimal D text with
  | none => none
  | some d =>
    match Decimal.val d with
    | .fin q => if Val.ofExact (roundDp 4 q) = .fin (roundDp 4 q) then some (roundDp 4 q) else none
    | _ => none

/-- The declared total and the stated line sum, as they are compared, are within one cent. -/
def WithinTolerance (inv : ParsedInvoice) : Prop :=
  ∃ total ∈ inv.footing.bind Footing.declaredTotal, ∃ x ∈ comparedValue D total,
    ∃ y ∈ comparedValue D ((inv.footing.map Footing.lineSum).getD "0.0000"), |x - y| ≤ 1 / 100

instance (inv : ParsedInvoice) : Decidable (WithinTolerance D inv) :=
  inferInstanceAs (Decidable (∃ total ∈ inv.footing.bind Footing.declaredTotal, ∃ x ∈ comparedValue D total,
    ∃ y ∈ comparedValue D ((inv.footing.map Footing.lineSum).getD "0.0000"), |x - y| ≤ 1 / 100))

end

section

variable {D : Type} [Decimal D] {facts : FactBundle} {key : String}

theorem safeDecimal_some {text : String} {d : D} :
    safeDecimal D text = some d ↔ Decimal.ofString text = some d ∧ ∃ q, Decimal.val d = .fin q := by
  unfold safeDecimal
  split
  · rename_i d' hd
    rw [hd, Decimal.isFinite]
    cases hv : Decimal.val d' <;> simp [Val.isFinite]
    · rintro rfl; simp [hv]
    · rintro rfl; simp [hv]
    · rintro rfl; simp [hv]
  · rename_i hd
    simp [hd]

theorem comparedValue_some {text : String} {d : D} {q : ℚ} (h : safeDecimal D text = some d)
    (hq : Decimal.val d = .fin q) :
    comparedValue D text =
      if Val.ofExact (roundDp 4 q) = .fin (roundDp 4 q) then some (roundDp 4 q) else none := by
  simp [comparedValue, h, hq]

/-- A value of 4 decimals that is in range stays as it is. -/
theorem ofExact_roundDp {q x : ℚ} (h : Val.ofExact (roundDp 4 q) = .fin x) : x = roundDp 4 q := by
  obtain ⟨n, hn⟩ := roundDp_units 4 q
  rw [hn] at h ⊢
  exact Val.ofExact_units (by decide) h

/-- The text of a value at 4 decimals is compared as the value is. -/
theorem comparedValue_toFixed {text : String} {d : D} (h : newDecimal D text = .ok d) :
    comparedValue D (Decimal.toFixed 4 d) = comparedValue D text := by
  have hd := newDecimal_eq_ok.mp h
  cases hf : (Decimal.val d).isFinite
  · obtain ⟨d', hd', hv⟩ := Decimal.toFixed_reads_nonFinite (k := 4) hf
    have hnone : ∀ {t : String} {e : D}, Decimal.ofString t = some e → (Decimal.val e).isFinite = false →
        comparedValue D t = none := by
      intro t e he hne
      simp [comparedValue, safeDecimal, he, Decimal.isFinite, hne]
    rw [hnone hd' (hv ▸ hf), hnone hd hf]
  · obtain ⟨q, hq⟩ := Val.isFinite_iff.mp hf
    obtain ⟨d', hd', hv⟩ := Decimal.toFixed_reads (k := 4) hq
    rw [comparedValue_some (safeDecimal_some.mpr ⟨hd, q, hq⟩) hq]
    cases hr : Decimal.val d' with
    | fin x =>
      obtain rfl := ofExact_roundDp (hv.symm.trans hr)
      rw [comparedValue_some (safeDecimal_some.mpr ⟨hd', _, hr⟩) hr, roundDp_idem]
    | _ => simp [comparedValue, safeDecimal, hd', Decimal.isFinite, hr, Val.isFinite, ← hv]

/-! ## Values of the gates -/

theorem value_fact {raw : FactValue} (h : facts key = some raw) (hne : raw ≠ .string "") :
    value D facts (.fact key) = .ok (factValue D key raw) := by
  simp [value, evaluate, h, hne]

theorem value_factIs_boolean {b x : Bool} (h : facts key = some (.boolean b)) :
    value D facts (factIs .eq key (.boolean x)) = .ok (.bool (b == x)) := by
  rw [factIs, value_compare, value_fact h (by simp), value_lit]
  cases b <;> cases x <;> rfl

/-- A count is a number, unless it is out of range. -/
theorem safeDecimalNumber_ofNat (n : ℕ) : safeDecimalNumber D (.ofNat n) =
    if (JsNumber.ofNat n).val.isFinite then some (Decimal.ofNumber (.ofNat n)) else none := by
  have h : safeDecimalNumber D (.ofNat n) =
      if Decimal.isFinite (Decimal.ofNumber (.ofNat n) : D) then some (Decimal.ofNumber (.ofNat n)) else none := rfl
  rw [h, Decimal.isFinite, Decimal.val_ofNumber]

theorem ofNat_zero : (JsNumber.ofNat 0).val = .fin 0 := by
  rw [JsNumber.ofNat, JsNumber.val, NumberText.value_ofNat, Nat.cast_zero, Val.ofExact_zero]

/-- The count of charges passes its gate if it is positive and finite. -/
theorem value_count_gt {n : ℕ} (h : facts key = some (.number (.ofNat n))) :
    value D facts (factIs .gt key (.number (.ofNat 0))) = .ok (.bool true) ↔
      n ≠ 0 ∧ (JsNumber.ofNat n).val.isFinite = true := by
  have hlit : litValue D (.number (.ofNat 0)) = .number (Decimal.toString (Decimal.ofNumber (.ofNat 0) : D)) := by
    simp only [litValue, safeDecimalNumber_ofNat, ofNat_zero, Val.isFinite, if_true]
  rw [factIs, value_compare, value_fact h (by simp), value_lit, hlit]
  simp only [factValue, safeDecimalNumber_ofNat]
  by_cases hfin : (JsNumber.ofNat n).val.isFinite = true
  · obtain ⟨a, ha, hva⟩ := Decimal.toString_reads (Decimal.ofNumber (.ofNat n) : D)
    obtain ⟨z, hz, hvz⟩ := Decimal.toString_reads (Decimal.ofNumber (.ofNat 0) : D)
    obtain ⟨q, hq⟩ := Val.isFinite_iff.mp hfin
    have hexact : Val.ofExact (((n : ℤ) : ℚ) / 10 ^ 0) = .fin q := by
      rw [pow_zero, div_one, Int.cast_natCast, ← NumberText.value_ofNat]
      exact hq
    have hn : q = n := by
      rw [Val.ofExact_units (by decide) hexact, pow_zero, div_one, Int.cast_natCast]
    rw [Decimal.val_ofNumber, hq] at hva
    rw [Decimal.val_ofNumber, ofNat_zero] at hvz
    have hgt : Decimal.greaterThan a z = decide (n ≠ 0) := by
      rw [Decimal.greaterThan, hva, hvz, Val.lt_fin, decide_eq_decide, hn, Nat.cast_pos, Nat.pos_iff_ne_zero]
    have hcompare : compareValue D .gt none (.number (Decimal.toString (Decimal.ofNumber (.ofNat n) : D)))
        (.number (Decimal.toString (Decimal.ofNumber (.ofNat 0) : D))) = .ok (.bool (decide (n ≠ 0))) := by
      rw [compareValue_reads .gt none (reads_toString _) (reads_toString _)]
      simp [numeral, ha, hz, compareNumbers, hgt]
    simp only [hfin, if_true, and_true, ExceptOk.ok_bind, hcompare]
    simp
  · simp [hfin, compareValue]

theorem cent (D : Type) [Decimal D] : ∃ t : D, Decimal.ofString "0.01" = some t ∧
    Decimal.val t = .fin (((100 : ℤ) : ℚ) / 10 ^ 4) := by
  have hexact : exactValue "0.01" = some (((100 : ℤ) : ℚ) / 10 ^ 4) := by decide +kernel
  obtain ⟨t, ht, hv⟩ := ofString_exactValue (D := D) hexact
  exact ⟨t, ht, by rw [hv, Val.ofExact_inRange (units_log (by decide) _) (units_small (p := 3) (by decide) (by decide))]⟩

/-- A difference that is not finite is not within a bound. -/
theorem not_le_of_nonFinite {v : Val} {c : ℚ} (h : v.isFinite = false) : v.abs.le (.fin c) = false := by
  cases v <;> simp_all [Val.isFinite, Val.abs, Val.le]

theorem sub_nonFinite {a b : Val} (h : a.isFinite = false ∨ b.isFinite = false) : (a.sub b).isFinite = false := by
  cases hs : (a.sub b).isFinite
  · rfl
  · obtain ⟨q, hq⟩ := Val.isFinite_iff.mp hs
    obtain ⟨x, y, rfl, hy⟩ := Val.add_finite hq
    rcases h with h | h
    · cases h
    · rw [← Val.isFinite_neg, hy] at h
      cases h

/-- Two money facts whose texts are finite compare as a boolean: within one cent or not. -/
theorem value_moneyApprox {left right a b aCurrency bCurrency : String} {da db : D}
    (hl : facts left = some (.money a aCurrency)) (hr : facts right = some (.money b bCurrency))
    (hda : safeDecimal D a = some da) (hdb : safeDecimal D b = some db) :
    ∃ within : Bool, value D facts (.compare .approx (.fact left) (.fact right) (some "0.01")) =
        .ok (.bool within) ∧
      (within = true ↔ ∃ x ∈ comparedValue D a, ∃ y ∈ comparedValue D b, |x - y| ≤ 1 / 100) := by
  obtain ⟨-, p, hp⟩ := safeDecimal_some.mp hda
  obtain ⟨-, q, hq⟩ := safeDecimal_some.mp hdb
  obtain ⟨ra, hra, hva⟩ := Decimal.toFixed_reads (k := 4) hp
  obtain ⟨rb, hrb, hvb⟩ := Decimal.toFixed_reads (k := 4) hq
  obtain ⟨t, ht, hvt⟩ := cent D
  refine ⟨Decimal.lessThanOrEqualTo (Decimal.abs (Decimal.minus ra rb)) t, ?_, ?_⟩
  · rw [value_compare, value_fact hl (by simp), value_fact hr (by simp)]
    simp only [factValue, hda, hdb, ExceptOk.ok_bind]
    rw [compareValue_reads .approx _ (reads_toFixed da aCurrency) (reads_toFixed db bCurrency)]
    simp [numeral, hra, hrb, compareNumbers, newDecimal, ht]
  · rw [comparedValue_some hda hp, comparedValue_some hdb hq]
    by_cases hfin : (Decimal.val ra).isFinite = true ∧ (Decimal.val rb).isFinite = true
    · obtain ⟨⟨x, hx⟩, ⟨y, hy⟩⟩ := hfin.imp Val.isFinite_iff.mp Val.isFinite_iff.mp
      have hxp := ofExact_roundDp (hva.symm.trans hx)
      have hyq := ofExact_roundDp (hvb.symm.trans hy)
      obtain ⟨m, hm⟩ := roundDp_units 4 p
      obtain ⟨n, hn⟩ := roundDp_units 4 q
      rw [if_pos (by rw [← hva, hx, hxp]), if_pos (by rw [← hvb, hy, hyq]),
        abs_minus_lessThanOrEqualTo (p := 20) (s := 4) (by decide) (by decide) (hx.trans (by rw [hxp, hm]))
          (hy.trans (by rw [hyq, hn])) hvt (by decide)]
      have hdiff : roundDp 4 p - roundDp 4 q = ((m - n : ℤ) : ℚ) / 10 ^ 4 := by
        rw [hm, hn]
        push_cast
        ring
      have hscale : |((m - n : ℤ) : ℚ) / 10 ^ 4| ≤ 1 / 100 ↔ |m - n| ≤ 100 := by
        rw [abs_div, abs_of_pos (by positivity : (0 : ℚ) < 10 ^ 4), div_le_iff₀ (by positivity)]
        norm_num
        exact_mod_cast Iff.rfl
      simp only [decide_eq_true_eq, Option.mem_some, exists_eq_left', hdiff, hscale]
    · have hnone : Decimal.lessThanOrEqualTo (Decimal.abs (Decimal.minus ra rb)) t = false := by
        rw [Decimal.lessThanOrEqualTo, Decimal.val_abs, Decimal.val_minus, hvt]
        refine not_le_of_nonFinite (sub_nonFinite ?_)
        by_contra hcon
        push Not at hcon
        exact hfin (by simpa using hcon)
      rw [hnone]
      constructor
      · exact fun h => by cases h
      · rintro ⟨x, hx, y, hy, -⟩
        refine absurd ⟨?_, ?_⟩ hfin
        · split_ifs at hx with h
          · rw [hva, h]; rfl
          · cases hx
        · split_ifs at hy with h
          · rw [hvb, h]; rfl
          · cases hy

/-- A comparison with a money text that is not finite is unassessable. -/
theorem value_moneyApprox_unassessable {op : CompareOp} {left right a b aCurrency bCurrency : String}
    {tolerance : Option String}
    (hl : facts left = some (.money a aCurrency)) (hr : facts right = some (.money b bCurrency))
    (h : safeDecimal D a = none ∨ safeDecimal D b = none) :
    value D facts (.compare op (.fact left) (.fact right) tolerance) =
      .ok (.unassessable "comparand unassessable") := by
  rw [value_compare, value_fact hl (by simp), value_fact hr (by simp)]
  rcases h with h | h <;> simp [factValue, h, compareValue]

end

/-! ## The gates of an invoice -/

section

variable {D : Type} [Decimal D] {unicode : Unicode} {sha256 : String → String} {inv : ParsedInvoice}
  {contract : Option ContractFacts} {facts : FactBundle}

theorem booleanGate_passes {criterionKey key description citation : String} {evalOrder : ℕ} {b : Bool}
    (h : facts key = some (.boolean b)) :
    GatePasses D facts (booleanGate criterionKey evalOrder key description citation) ↔ b = true := by
  rw [GatePasses, booleanGate, value_factIs_boolean h]
  simp

theorem footingCriterion_passes (h : buildFactBundle D unicode inv contract = .ok facts) :
    GatePasses D facts footingCriterion ↔ WithinTolerance D inv := by
  obtain ⟨rateBasis, lineSum, hline, hfacts⟩ := buildFactBundle_invoice h
  have hdeclared := hfacts "declared_total" _ List.mem_cons_self
  have hsum := hfacts "line_sum" _ (List.mem_cons_of_mem _ List.mem_cons_self)
  rw [GatePasses, footingCriterion, value_require, WithinTolerance]
  cases htotal : inv.footing.bind Footing.declaredTotal with
  | none =>
    rw [htotal] at hdeclared
    simp [FactBundle.absent, hdeclared]
  | some total =>
    rw [htotal] at hdeclared
    rw [if_neg (by simp [FactBundle.absent, hdeclared]), FOOTING_TOLERANCE]
    simp only [Option.mem_some, exists_eq_left', ← comparedValue_toFixed hline]
    cases ha : safeDecimal D total with
    | none =>
      rw [value_moneyApprox_unassessable hdeclared hsum (.inl ha)]
      simp [comparedValue, ha]
    | some da =>
      cases hb : safeDecimal D (Decimal.toFixed 4 lineSum) with
      | none =>
        rw [value_moneyApprox_unassessable hdeclared hsum (.inr hb)]
        simp [comparedValue, hb]
      | some db =>
        obtain ⟨within, hval, hiff⟩ := value_moneyApprox hdeclared hsum ha hb
        rw [hval, ← hiff]
        simp

/-- The criteria of the rubric that gate are its first fourteen. -/
theorem gating_iff {P : StandardCriterion → Prop} :
    (∀ c ∈ STANDARD_RUBRIC.criteria, c.kind = .GATING → P c) ↔ ∀ c ∈ STANDARD_RUBRIC.criteria.take 14, P c := by
  have hfilter : STANDARD_RUBRIC.criteria.filter (fun c => c.kind == .GATING) = STANDARD_RUBRIC.criteria.take 14 := rfl
  rw [← hfilter]
  simp

/-- All gates pass exactly if the form is met and the stated figures are within a cent. -/
theorem gates_pass_iff (h : buildFactBundle D unicode inv contract = .ok facts) :
    (∀ c ∈ STANDARD_RUBRIC.criteria, c.kind = .GATING → GatePasses D facts c) ↔
      FormMet inv ∧ WithinTolerance D inv := by
  obtain ⟨rateBasis, lineSum, hline, hfacts⟩ := buildFactBundle_invoice h
  -- the gate whose fact is the `i`-th of the invoice
  have hgate : ∀ (i : ℕ) {criterionKey key description citation : String} {evalOrder : ℕ} {b : Bool},
      (invoiceFacts inv contract (Decimal.toFixed 4 lineSum) rateBasis)[i]? = some (key, some (.boolean b)) →
        (GatePasses D facts (booleanGate criterionKey evalOrder key description citation) ↔ b = true) :=
    fun _ {_ _ _ _ _ _} hat => booleanGate_passes (hfacts _ _ (List.mem_of_getElem? hat))
  have hcount := value_count_gt (D := D)
    (hfacts "charge_count" (some (.number (.ofNat inv.charges.length))) (by simp [invoiceFacts]))
  rw [gating_iff]
  simp only [STANDARD_RUBRIC, List.take, List.forall_mem_cons, oceanGate]
  rw [footingCriterion_passes h, hgate 2 rfl, hgate 3 rfl, GatePasses, hcount, hgate 10 rfl, hgate 11 rfl,
    hgate 12 rfl, hgate 13 rfl, hgate 14 rfl, hgate 15 rfl, hgate 16 rfl, hgate 17 rfl, hgate 18 rfl, hgate 19 rfl]
  simp only [Bool.or_eq_true, bne_iff_ne, List.all_eq_true, decide_eq_true_eq, or_iff_not_imp_left,
    ne_eq, not_not]
  constructor
  · rintro ⟨htol, hcur, hamt, ⟨hne, hfin⟩, hnum, hship, hscac, onum, oref, ocont, oves, oports, oident, ocur, -⟩
    refine ⟨⟨hcur, hamt, by simpa using hne, hfin, fun hm => ⟨hnum hm, hship hm, hscac hm⟩, fun ho => ?_⟩, htol⟩
    refine ⟨onum ho, oref ho, ocont ho, oves ho, oports ho, fun c hc => ?_, ocur ho⟩
    exact or_iff_not_imp_left.mpr (oident ho c hc)
  · rintro ⟨form, htol⟩
    refine ⟨htol, form.currencies, form.amounts, ⟨by simpa using form.hasCharges, form.countable⟩,
      fun hm => (form.motor hm).1, fun hm => (form.motor hm).2.1, fun hm => (form.motor hm).2.2,
      fun ho => (form.ocean ho).1, fun ho => (form.ocean ho).2.1, fun ho => (form.ocean ho).2.2.1,
      fun ho => (form.ocean ho).2.2.2.1, fun ho => (form.ocean ho).2.2.2.2.1, fun ho c hc => ?_,
      fun ho => (form.ocean ho).2.2.2.2.2.2, by simp⟩
    exact or_iff_not_imp_left.mp ((form.ocean ho).2.2.2.2.2.1 c hc)

/-- The producers of invoices. -/
inductive Produced (D : Type) [Decimal D] (unicode : Unicode) (inv : ParsedInvoice) : Prop
  | parsed210 (raw : String) (categorize : Categorize) (h : parse210 D unicode raw categorize = .ok inv)
  | parsed310 (raw : String) (categorize : Categorize) (h : parse310 D unicode raw categorize = .ok inv)
  | corrected (h : CorrectedInvoiceSchema inv = true)

/-- A value that is compared comes from a finite one. -/
theorem finite_of_comparedValue {d : D} {x : ℚ} (h : comparedValue D (Decimal.toFixed 4 d) = some x) :
    (Decimal.val d).isFinite = true := by
  by_contra hnot
  obtain ⟨d', hd', hv⟩ := Decimal.toFixed_reads_nonFinite (k := 4) (Bool.not_eq_true _ ▸ hnot)
  simp [comparedValue, safeDecimal, hd', Decimal.isFinite, hv, hnot] at h

/-- The text of a value at 4 decimals is compared as the value rounded to them. -/
theorem comparedValue_eq {d : D} {q x : ℚ} (hq : Decimal.val d = .fin q)
    (h : comparedValue D (Decimal.toFixed 4 d) = some x) : x = roundDp 4 q := by
  obtain ⟨d', hd', hv⟩ := Decimal.toFixed_reads (k := 4) hq
  cases hr : Decimal.val d' with
  | fin r =>
    obtain rfl := ofExact_roundDp (hv.symm.trans hr)
    rw [comparedValue_some (safeDecimal_some.mpr ⟨hd', _, hr⟩) hr, roundDp_idem] at h
    split_ifs at h
    exact (Option.some.inj h).symm
  | _ => simp [comparedValue, safeDecimal, hd', Decimal.isFinite, hr, Val.isFinite] at h

theorem mem_amounts {inv : ParsedInvoice} {c : NormalizedCharge} {t : String} (hc : c ∈ inv.charges)
    (ht : c.amount = some t) : t ∈ (inv.charges.map NormalizedCharge.amount).filterMap id :=
  List.mem_filterMap.mpr ⟨_, List.mem_map_of_mem hc, ht⟩

/-- A line sum that can be compared is the sum of decimals. -/
theorem amounts_stated_of_totalled {footing : Footing} (h : Totalled D inv footing) (hform : FormMet inv)
    (htol : WithinTolerance D inv) : ∀ c ∈ inv.charges, (c.amount.bind exactValue).isSome := by
  obtain ⟨-, -, -, -, y, hy, -⟩ := htol
  have hsum := h.sum
  simp only [sumMoney, ExceptOk.bind_eq_ok, ExceptOk.pure_eq_ok] at hsum
  obtain ⟨sum, hfold, hline⟩ := hsum
  rw [h.stated, Option.map_some, Option.getD_some, ← hline] at hy
  obtain ⟨-, hterms⟩ := foldlM_addMoney_finite hfold (finite_of_comparedValue hy)
  intro c hc
  obtain ⟨t, ht⟩ := Option.isSome_iff_exists.mp (hform.amounts c hc)
  obtain ⟨d, hd, hfin⟩ := hterms t (mem_amounts hc ht)
  obtain ⟨d', hd', hstates⟩ := (h.amounts c hc t ht).reads
  rw [ht, Option.bind_some]
  exact hstates (by rw [Option.some.inj (hd'.symm.trans hd)]; exact hfin)

theorem Produced.amounts_stated (h : Produced D unicode inv) (hform : FormMet inv)
    (htol : WithinTolerance D inv) : ∀ c ∈ inv.charges, (c.amount.bind exactValue).isSome := by
  cases h with
  | parsed210 raw categorize h =>
    obtain ⟨footing, htotal⟩ := totalled_parse210 h
    exact amounts_stated_of_totalled htotal hform htol
  | parsed310 raw categorize h =>
    obtain ⟨footing, htotal⟩ := totalled_parse310 h
    exact amounts_stated_of_totalled htotal hform htol
  | corrected h =>
    intro c hc
    simp only [CorrectedInvoiceSchema, Bool.and_eq_true, List.all_eq_true] at h
    obtain ⟨t, ht⟩ := Option.isSome_iff_exists.mp (hform.amounts c hc)
    have hcharge := h.1.2 c hc
    rw [correctedCharge, Bool.and_eq_true, ht] at hcharge
    rw [ht, Option.bind_some]
    exact exactValue_isDecimalText hcharge.1

theorem scored_iff_gates {rubric : ComposedRubric} (hrubric : rubric = STANDARD_RUBRIC ∨ rubric = CONTRACT_RUBRIC)
    {result : AuditResult} (h : evaluateInvoice D unicode sha256 inv rubric contract = .ok result) :
    result.outcome = .SCORED ↔ FormMet inv ∧ WithinTolerance D inv := by
  obtain ⟨facts, run⟩ := evaluateInvoice_run h
  rw [run.scored, ← gates_pass_iff run.bundle]
  rcases hrubric with rfl | rfl
  · rfl
  · -- the criterion the contract appends does not gate
    simp [CONTRACT_RUBRIC, RATE_VARIANCE_CRITERION, scoring, or_imp, forall_and]

/-- An invoice from any producer is scored only if it adds up, exactly if: whenever the form is met and
the declared total is within a cent of the stated line sum, both at 4 decimals, it is within a cent of
the exact sum of the charges. -/
theorem scored_addsUp_iff (D : Type) [Decimal D] (unicode : Unicode) (sha256 : String → String)
    (inv : ParsedInvoice) (hinv : Produced D unicode inv) (rubric : ComposedRubric)
    (hrubric : rubric = STANDARD_RUBRIC ∨ rubric = CONTRACT_RUBRIC) (contract : Option ContractFacts)
    (result : AuditResult) (h : evaluateInvoice D unicode sha256 inv rubric contract = .ok result) :
    (result.outcome = .SCORED → AddsUp inv) ↔ (FormMet inv → WithinTolerance D inv → Foots inv) := by
  rw [scored_iff_gates hrubric h]
  constructor
  · exact fun hadds hform htol => (hadds ⟨hform, htol⟩).foots
  · rintro hfoots ⟨hform, htol⟩
    exact ⟨hform.hasCharges, fun c hc => ⟨hinv.amounts_stated hform htol c hc, hform.currencies c hc⟩,
      hfoots hform htol⟩

end

/-! ## Parsed invoices -/

section

variable {D : Type} [Decimal D] {unicode : Unicode} {sha256 : String → String} {inv : ParsedInvoice}
  {contract : Option ContractFacts}

/-- Money texts that state decimals state whole units of the fourth one. -/
theorem units_of_moneyTexts {texts : List String}
    (h : ∀ t ∈ texts, IsMoneyText D t ∧ (exactValue t).isSome) :
    ∃ ns : List ℤ, List.Forall₂ (ReadsAs 4) texts ns ∧
      texts.filterMap exactValue = ns.map (fun n : ℤ => (n : ℚ) / 10 ^ 4) := by
  induction texts with
  | nil => exact ⟨[], .nil, rfl⟩
  | cons t rest ih =>
    obtain ⟨ns, hreads, hvalues⟩ := ih (fun t ht => h t (List.mem_cons_of_mem _ ht))
    obtain ⟨⟨d, rfl⟩, hstates⟩ := h t List.mem_cons_self
    obtain ⟨x, hx⟩ := Option.isSome_iff_exists.mp hstates
    obtain ⟨l, hl, rfl⟩ := Option.map_eq_some_iff.mp hx
    have hfin : (Decimal.val d).isFinite = true := by
      by_contra hnot
      rw [Decimal.toFixed_nonFinite 4 d (Bool.not_eq_true _ ▸ hnot),
        exactValue_nonFinite (Bool.not_eq_true _ ▸ hnot)] at hx
      cases hx
    obtain ⟨q, hq⟩ := Val.isFinite_iff.mp hfin
    obtain ⟨n, hn⟩ := roundDp_units 4 q
    have hvalue : exactValue (Decimal.toFixed 4 d) = some ((n : ℚ) / 10 ^ 4) := by rw [exactValue_toFixed hq, hn]
    refine ⟨n :: ns, .cons ⟨l, hl, Option.some.inj (hx.symm.trans hvalue)⟩ hreads, ?_⟩
    rw [List.filterMap_cons_some hvalue, hvalues, List.map_cons]

theorem sum_units (ns : List ℤ) : (ns.map (fun n : ℤ => (n : ℚ) / 10 ^ 4)).sum = ((ns.sum : ℤ) : ℚ) / 10 ^ 4 := by
  induction ns with
  | nil => simp
  | cons n rest ih =>
    rw [List.map_cons, List.sum_cons, List.sum_cons, ih, Int.cast_add, add_div]

theorem filterMap_amounts (charges : List NormalizedCharge) :
    charges.filterMap (fun c => c.amount.bind exactValue) =
      ((charges.map NormalizedCharge.amount).filterMap id).filterMap exactValue := by
  rw [List.filterMap_filterMap, List.filterMap_map]
  rfl

/-- A parsed invoice whose amounts come to less than 10^16 is scored only if it adds up. -/
theorem parsed_addsUp {footing : Footing} (htotal : Totalled D inv footing)
    (hsmall : ((inv.charges.filterMap (fun c => c.amount.bind exactValue)).map abs).sum < 10 ^ 16)
    {rubric : ComposedRubric} (hrubric : rubric = STANDARD_RUBRIC ∨ rubric = CONTRACT_RUBRIC)
    {result : AuditResult} (h : evaluateInvoice D unicode sha256 inv rubric contract = .ok result)
    (hscored : result.outcome = .SCORED) : AddsUp inv := by
  obtain ⟨hform, htol⟩ := (scored_iff_gates hrubric h).mp hscored
  have hstated := amounts_stated_of_totalled htotal hform htol
  refine ⟨hform.hasCharges, fun c hc => ⟨hstated c hc, hform.currencies c hc⟩, ?_⟩
  have htexts : ∀ t ∈ (inv.charges.map NormalizedCharge.amount).filterMap id,
      IsMoneyText D t ∧ (exactValue t).isSome := by
    intro t ht
    obtain ⟨a, ha, rfl⟩ := List.mem_filterMap.mp ht
    obtain ⟨c, hc, hamount⟩ := List.mem_map.mp ha
    have hsome := hstated c hc
    rw [hamount] at hsome
    exact ⟨htotal.amounts c hc t hamount, hsome⟩
  obtain ⟨ns, hreads, hvalues⟩ := units_of_moneyTexts htexts
  have hexact : exactSum inv = ((ns.sum : ℤ) : ℚ) / 10 ^ 4 := by
    rw [exactSum, filterMap_amounts, hvalues, sum_units]
  have hunits : |(0 : ℤ)| + (ns.map abs).sum < 10 ^ precision := by
    have habs : (ns.map (fun n : ℤ => (n : ℚ) / 10 ^ 4)).map abs =
        (ns.map abs).map (fun n : ℤ => (n : ℚ) / 10 ^ 4) := by
      rw [List.map_map, List.map_map]
      refine List.map_congr_left (fun n _ => ?_)
      simp [abs_div]
    rw [filterMap_amounts, hvalues, habs, sum_units, div_lt_iff₀ (by positivity)] at hsmall
    have hcast : (((ns.map abs).sum : ℤ) : ℚ) < ((10 ^ 20 : ℤ) : ℚ) :=
      hsmall.trans_eq (by norm_num)
    rw [abs_zero, zero_add, precision]
    exact Int.cast_lt.mp hcast
  -- the line sum is the exact sum, and is compared as it is
  have hzero : Decimal.val (Decimal.ofNumber (.ofNat 0) : D) = .fin (((0 : ℤ) : ℚ) / 10 ^ 4) := by
    rw [Decimal.val_ofNumber, ofNat_zero]
    simp
  obtain ⟨sum, hfold, hsum⟩ := foldlM_addMoney_exact hreads hzero hunits
  have hline : footing.lineSum = Decimal.toFixed 4 sum := by
    have hs := htotal.sum
    rw [sumMoney, hfold] at hs
    exact (Except.ok.inj hs).symm
  obtain ⟨total, htotalText, x, hx, y, hy, hxy⟩ := htol
  rw [htotal.stated, Option.map_some, Option.getD_some, hline] at hy
  rw [htotal.stated, Option.bind_some] at htotalText
  have hyval : y = ((ns.sum : ℤ) : ℚ) / 10 ^ 4 := by rw [comparedValue_eq hsum hy, roundDp_scaled, zero_add]
  obtain ⟨d, rfl⟩ := htotal.declared total htotalText
  obtain ⟨q, hq⟩ := Val.isFinite_iff.mp (finite_of_comparedValue hx)
  refine ⟨roundDp 4 q, ?_, ?_⟩
  · rw [htotal.stated, Option.bind_some, htotalText, Option.bind_some, exactValue_toFixed hq]
    rfl
  · rwa [hexact, ← hyval, ← comparedValue_eq hq hx]

end

/-- A draft with one charge of 100.00, whose other figures are stated by the analyst. -/
def draftOf (declaredTotal lineSum : String) : ParsedInvoice where
  transactionSet := .pdf
  parserVersion := "pdf-llm-v1"
  invoiceNumber := some "INV-1"
  shipmentReferences := none
  carrierCode := none
  containerNumbers := none
  vesselVoyage := none
  portCodes := none
  headerCurrency := some "USD"
  charges := [⟨none, none, some "LINEHAUL", false, some "100.00", "USD", none, none, none, none⟩]
  footing := some ⟨some declaredTotal, lineSum⟩
  quarantinedCodes := []

theorem exists_ok {ε α : Type} {x : Except ε α} (h : x.isOk = true) : ∃ a, x = .ok a := by
  cases x with
  | ok a => exact ⟨a, rfl⟩
  | error e => cases h

/-- One whose line sum is the sum of its charges. -/
theorem footedDraft_addsUp :
    ∃ result, evaluateInvoice Ref Unicode.ascii id (draftOf "100.01" "100.00") STANDARD_RUBRIC none = .ok result ∧
      (result.outcome = .SCORED → AddsUp (draftOf "100.01" "100.00")) := by
  obtain ⟨result, h⟩ := exists_ok
    (x := evaluateInvoice Ref Unicode.ascii id (draftOf "100.01" "100.00") STANDARD_RUBRIC none) (by decide +kernel)
  exact ⟨result, h, (scored_addsUp_iff Ref Unicode.ascii id _ (.corrected (by decide +kernel)) _ (.inl rfl) none
    result h).mpr (fun _ _ => by decide +kernel)⟩

/-- A draft is scored although its declared total is 400.00 above its one charge. -/
theorem unfootedDraft_scored :
    Produced Ref Unicode.ascii (draftOf "500.00" "500.00") ∧
      ∃ result, evaluateInvoice Ref Unicode.ascii id (draftOf "500.00" "500.00") STANDARD_RUBRIC none = .ok result ∧
        result.outcome = .SCORED ∧ ¬ AddsUp (draftOf "500.00" "500.00") := by
  refine ⟨.corrected (by decide +kernel), ?_⟩
  obtain ⟨result, h⟩ := exists_ok
    (x := evaluateInvoice Ref Unicode.ascii id (draftOf "500.00" "500.00") STANDARD_RUBRIC none) (by decide +kernel)
  have houtcome : (evaluateInvoice Ref Unicode.ascii id (draftOf "500.00" "500.00") STANDARD_RUBRIC none).toOption.map
      AuditResult.outcome = some .SCORED := by decide +kernel
  rw [h] at houtcome
  refine ⟨result, h, Option.some.inj houtcome, fun hadds => ?_⟩
  exact absurd hadds.foots (by decide +kernel)

end Evaluator
