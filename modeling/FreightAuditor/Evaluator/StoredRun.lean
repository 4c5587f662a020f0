import FreightAuditor.Evaluator.Currencies
import FreightAuditor.Library.NumericInput

/- The judgement of an invoice and the rows it is stored as.

   `judgeAndStore` evaluates an invoice and writes the run: the invoice itself whatever the
   outcome, its charges, the variances and the scorecard once it is scored, the gate
   failures if it is not. A row is built from columns that take what their type and check
   allow, so a value that came through the parsers, or through the schema of a corrected
   draft, can still be refused here, and the whole run with it. -/
namespace Evaluator

open DecimalJs DecimalRounding Ingestion JsText PgNumeric RuleEngine RubricResolver

/-! ## Columns -/

inductive StoreError where
  | decimal (e : DecimalError)
  /-- The column does not take the value. -/
  | column (name : String)
  /-- A charge without an amount on a scored invoice. -/
  | invariant (code : Option String)

/-- `char(3)` with the check `^[A-Z]{3}$`. -/
structure CurrencyCode where
  text : String
  format : isCurrencyCode text = true

/-- A text, which may hold any character but NUL. -/
structure PgText where
  text : String
  noNul : '\x00' ∉ text.toList

/-- An amount as the column took it. -/
structure StoredAmount (input : NumericInput 18 4) where
  text : String
  accepted : input.accepts text = true

def textColumn (name text : String) : Except StoreError PgText :=
  if h : '\x00' ∉ text.toList then return ⟨text, h⟩ else throw (.column name)

/-- Blanks beyond the third character are cut off; anything else there is too long. -/
def charColumn (name text : String) : Except StoreError CurrencyCode :=
  if (text.toList.drop 3).all (· == ' ') then
    if h : isCurrencyCode (String.ofList (text.toList.take 3)) then return ⟨_, h⟩ else throw (.column name)
  else throw (.column name)

def numericColumn (input : NumericInput 18 4) (name text : String) : Except StoreError (StoredAmount input) :=
  if h : input.accepts text = true then return ⟨text, h⟩ else throw (.column name)

/-- A column that may be `NULL`. -/
def nullable {α : Type} (column : String → Except StoreError α) : Option String → Except StoreError (Option α)
  | none => return none
  | some text => some <$> column text

/-- A jsonb document takes no NUL in any of its texts. -/
def jsonbColumn (name : String) (texts : List String) : Except StoreError Unit :=
  if texts.all (fun t => !t.toList.contains '\x00') then return () else throw (.column name)

/-! ## Rows -/

structure InvoiceRow where
  transactionSet : TransactionSet
  invoiceNumber : Option PgText
  currency : Option CurrencyCode
  parserVersion : PgText

structure ChargeFactRow (input : NumericInput 18 4) where
  code : Option PgText
  x12Element : Option PgText
  category : Option PgText
  amount : StoredAmount input
  currency : CurrencyCode
  basis : Option (StoredAmount input)
  rate : Option (StoredAmount input)
  rawDescription : Option PgText
  sourceLoop : Option PgText

structure VarianceFindingRow (input : NumericInput 18 4) where
  criterionKey : String
  /-- The one charge the finding is about, by its place in the invoice. -/
  chargeFact : Option ℕ
  direction : Option Direction
  materiality : Option (StoredAmount input)
  varianceAmount : Option (StoredAmount input)
  currency : Option CurrencyCode
  classification : String
  evaluatedExpr : EvalNode

structure ScorecardRow (input : NumericInput 18 4) where
  conformedCount : ℕ
  varianceCount : ℕ
  unassessableCount : ℕ
  totalOvercharge : StoredAmount input
  totalUndercharge : StoredAmount input
  currency : Option CurrencyCode

structure StoredRun (input : NumericInput 18 4) where
  invoice : InvoiceRow
  outcome : Outcome
  chargeFacts : List (ChargeFactRow input)
  gateFailures : List GateFailure
  varianceFindings : List (VarianceFindingRow input)
  scorecard : Option (ScorecardRow input)

/-- Every text of a charge. -/
def chargeTexts (c : NormalizedCharge) : List String :=
  [c.code, c.x12Element, c.category, c.amount, some c.currency, c.basis, c.rate, c.rawDescription,
    c.sourceLoop].filterMap id

/-- Every text of the invoice, as the replay manifest holds it. -/
def invoiceTexts (inv : ParsedInvoice) : List String :=
  [some inv.parserVersion, inv.invoiceNumber, inv.carrierCode, inv.vesselVoyage, inv.headerCurrency,
    inv.footing.bind Footing.declaredTotal, inv.footing.map Footing.lineSum].filterMap id ++
  inv.shipmentReferences.getD [] ++ inv.containerNumbers.getD [] ++ inv.portCodes.getD [] ++
  inv.charges.flatMap chargeTexts ++ inv.quarantinedCodes

section

variable (D : Type) [Decimal D] (input : NumericInput 18 4)

def invoiceRow (inv : ParsedInvoice) : Except StoreError InvoiceRow := do
  let invoiceNumber ← nullable (textColumn "invoice.invoice_number") inv.invoiceNumber
  let currency ← nullable (charColumn "invoice.currency") inv.headerCurrency
  let parserVersion ← textColumn "invoice.parser_version" inv.parserVersion
  return ⟨inv.transactionSet, invoiceNumber, currency, parserVersion⟩

def chargeFactRow (c : NormalizedCharge) : Except StoreError (ChargeFactRow input) :=
  match c.amount with
  | none => throw (.invariant c.code)
  | some stated => do
    let code ← nullable (textColumn "charge_fact.code") c.code
    let x12Element ← nullable (textColumn "charge_fact.x12_element") c.x12Element
    let category ← nullable (textColumn "charge_fact.category") c.category
    let amount ← numericColumn input "charge_fact.amount" stated
    let currency ← charColumn "charge_fact.currency" c.currency
    let basis ← nullable (numericColumn input "charge_fact.basis") c.basis
    let rate ← nullable (numericColumn input "charge_fact.rate") c.rate
    let rawDescription ← nullable (textColumn "charge_fact.raw_description") c.rawDescription
    let sourceLoop ← nullable (textColumn "charge_fact.source_loop") c.sourceLoop
    return ⟨code, x12Element, category, amount, currency, basis, rate, rawDescription, sourceLoop⟩

/-- Where the stored charges of a category stand. -/
def chargeFactsOf (inv : ParsedInvoice) (category : String) : List ℕ :=
  inv.charges.zipIdx.filterMap (fun c => if c.1.category = some category && !c.1.quarantined then some c.2 else none)

/-- Attributed to a charge only where exactly one contributed. -/
def attributedCharge (inv : ParsedInvoice) (f : ChargeFinding) : Option ℕ :=
  if f.criterionKey = "CONTRACT.RATE_VARIANCE" then
    match chargeFactsOf inv "LINEHAUL" with
    | [only] => some only
    | _ => none
  else none

/-- The magnitude of a variance, at four decimals. -/
def materiality (amount : String) : Except StoreError (StoredAmount input) := do
  let d ← (newDecimal D amount).mapError .decimal
  numericColumn input "variance_finding.materiality" (Decimal.toFixed 4 (Decimal.abs d))

def varianceFindingRow (inv : ParsedInvoice) (f : ChargeFinding) : Except StoreError (VarianceFindingRow input) := do
  let materiality ← nullable (materiality D input) f.varianceAmount
  let varianceAmount ← nullable (numericColumn input "variance_finding.variance_amount") f.varianceAmount
  let currency ← nullable (charColumn "variance_finding.currency") f.currency
  let direction := if f.direction = .INTEGRITY_ONLY then none else some f.direction
  let classification := if f.result = .UNASSESSABLE then "unassessable" else "variance"
  return ⟨f.criterionKey, attributedCharge inv f, direction, materiality, varianceAmount, currency, classification,
    f.evaluatedExpr⟩

def scorecardRow (inv : ParsedInvoice) (sc : Scorecard) : Except StoreError (ScorecardRow input) := do
  let totalOvercharge ← numericColumn input "scorecard.total_overcharge" sc.totalOvercharge
  let totalUndercharge ← numericColumn input "scorecard.total_undercharge" sc.totalUndercharge
  let currency ← nullable (charColumn "scorecard.currency") inv.headerCurrency
  return ⟨sc.conformedCount, sc.varianceCount, sc.unassessableCount, totalOvercharge, totalUndercharge, currency⟩

/-- The billed side is only stored once the invoice is scored. -/
def chargeFactRows (inv : ParsedInvoice) (outcome : Outcome) : Except StoreError (List (ChargeFactRow input)) :=
  if outcome = .SCORED then inv.charges.mapM (chargeFactRow input) else return []

/-- Every finding but a conforming one. -/
def varianceFindingRows (inv : ParsedInvoice) (findings : List ChargeFinding) :
    Except StoreError (List (VarianceFindingRow input)) :=
  (findings.filter (fun f => f.result ≠ .CONFORMED)).mapM (varianceFindingRow D input inv)

def scorecardRows (inv : ParsedInvoice) : Option Scorecard → Except StoreError (Option (ScorecardRow input))
  | none => return none
  | some sc => some <$> scorecardRow input inv sc

def persistAuditRun (inv : ParsedInvoice) (result : AuditResult) : Except StoreError (StoredRun input) := do
  let invoice ← invoiceRow inv
  let chargeFacts ← chargeFactRows input inv result.outcome
  let varianceFindings ← varianceFindingRows D input inv result.findings
  let scorecard ← scorecardRows input inv result.scorecard
  jsonbColumn "audit_replay_manifest.manifest" (invoiceTexts inv)
  return ⟨invoice, result.outcome, chargeFacts, result.gateFailures, varianceFindings, scorecard⟩

def judgeAndStore (unicode : Unicode) (sha256 : String → String) (inv : ParsedInvoice) (rubric : ComposedRubric)
    (contract : Option ContractFacts) : Except StoreError (StoredRun input) := do
  let result ← (evaluateInvoice D unicode sha256 inv rubric contract).mapError .decimal
  persistAuditRun D input inv result

end

/-! ## What the columns take -/

/-- Three capital letters, and blanks. -/
def CurrencyText (text : String) : Prop :=
  (∀ c ∈ text.toList.drop 3, c = ' ') ∧ isCurrencyCode (String.ofList (text.toList.take 3)) = true

instance (text : String) : Decidable (CurrencyText text) :=
  have : Decidable (∀ c ∈ text.toList.drop 3, c = ' ') := List.decidableBAll (fun c => c = ' ') _
  inferInstanceAs (Decidable (_ ∧ _))

section

open ExceptOk

variable {input : NumericInput 18 4} {name text : String}

@[simp] theorem returns_textColumn : Returns (textColumn name text) ↔ '\x00' ∉ text.toList := by
  unfold textColumn
  split <;> simp [*]

@[simp] theorem returns_charColumn : Returns (charColumn name text) ↔ CurrencyText text := by
  unfold charColumn CurrencyText
  by_cases hblank : (text.toList.drop 3).all (· == ' ') = true
  · have hall : ∀ c ∈ text.toList.drop 3, c = ' ' := by simpa using hblank
    rw [if_pos hblank]
    split
    · rename_i hcode
      exact iff_of_true returns_pure ⟨hall, hcode⟩
    · rename_i hcode
      exact iff_of_false not_returns_throw fun h => hcode h.2
  · rw [if_neg hblank]
    exact iff_of_false not_returns_throw fun h => hblank (by simpa using h.1)

@[simp] theorem returns_numericColumn : Returns (numericColumn input name text) ↔ input.accepts text = true := by
  unfold numericColumn
  split <;> simp [*]

@[simp] theorem returns_nullable {α : Type} {column : String → Except StoreError α} {value : Option String} :
    Returns (nullable column value) ↔ ∀ text ∈ value, Returns (column text) := by
  cases value with
  | none => simp [nullable]
  | some text => simp [nullable, returns_map]

@[simp] theorem returns_jsonbColumn {texts : List String} :
    Returns (jsonbColumn name texts) ↔ ∀ text ∈ texts, '\x00' ∉ text.toList := by
  unfold jsonbColumn
  rw [returns_ite]
  simp

theorem exists_ok_iff {ε α : Type} {x : Except ε α} : (∃ a, x = .ok a) ↔ Returns x := Iff.rfl

theorem returns_invoiceRow {inv : ParsedInvoice} :
    Returns (invoiceRow inv) ↔ (∀ t ∈ inv.invoiceNumber, '\x00' ∉ t.toList) ∧
      (∀ t ∈ inv.headerCurrency, CurrencyText t) ∧ '\x00' ∉ inv.parserVersion.toList := by
  simp only [invoiceRow, returns_bind, exists_and_right, exists_ok_iff, returns_pure, and_true, returns_nullable,
    returns_textColumn, returns_charColumn]

/-- The figures of a charge. -/
def figures (c : NormalizedCharge) : List String := c.amount.toList ++ (c.basis.toList ++ c.rate.toList)

theorem returns_chargeFactRow {c : NormalizedCharge} (hamount : c.amount.isSome)
    (htexts : ∀ t ∈ chargeTexts c, '\x00' ∉ t.toList) :
    Returns (chargeFactRow input c) ↔ CurrencyText c.currency ∧ ∀ t ∈ figures c, input.accepts t = true := by
  obtain ⟨amount, hamount⟩ := Option.isSome_iff_exists.mp hamount
  have hfree : ∀ value ∈ [c.code, c.x12Element, c.category, c.rawDescription, c.sourceLoop], ∀ t ∈ value,
      '\x00' ∉ t.toList := by
    intro value hvalue t ht
    refine htexts t (List.mem_filterMap.mpr ⟨value, ?_, ht⟩)
    simp only [List.mem_cons, List.not_mem_nil, or_false] at hvalue ⊢
    tauto
  have hfigures : (∀ t ∈ figures c, input.accepts t = true) ↔ input.accepts amount = true ∧
      (∀ t ∈ c.basis, input.accepts t = true) ∧ ∀ t ∈ c.rate, input.accepts t = true := by
    simp only [figures, hamount, List.forall_mem_append, Option.mem_toList, Option.mem_def, Option.some.injEq,
      forall_eq']
  simp only [List.forall_mem_cons, List.not_mem_nil, false_implies, implies_true, and_true] at hfree
  obtain ⟨hcode, helement, hcategory, hdescription, hloop⟩ := hfree
  rw [hfigures]
  simp only [chargeFactRow, hamount, returns_bind, exists_and_right, exists_ok_iff, returns_pure, and_true,
    returns_nullable, returns_textColumn, returns_charColumn, returns_numericColumn]
  tauto

end

/-! ## Evaluation does not throw on its own -/

section

variable (D : Type) [Decimal D]

/-- The figures of the charges are decimals, up to the first charge whose amount they do not give. -/
def ReadsUntilMismatch : List NormalizedCharge → Prop
  | [] => True
  | c :: rest =>
    (Decimal.ofString (c.rate.getD "") : Option D).isSome ∧ (Decimal.ofString (c.basis.getD "") : Option D).isSome ∧
      (rateBasisMatches D (c.rate.getD "") (c.basis.getD "") (c.amount.getD "") = .ok true → ReadsUntilMismatch rest)

/-- The charges that state a rate or a basis. -/
def rateBasisCharges (inv : ParsedInvoice) : List NormalizedCharge :=
  inv.charges.filter (fun c => c.rate.isSome || c.basis.isSome)

/-- If each of them states both, and an amount, they read as decimals as far as they are compared. -/
def RateBasisReads (inv : ParsedInvoice) : Prop :=
  (∀ c ∈ rateBasisCharges inv, c.rate.isSome ∧ c.basis.isSome ∧ c.amount.isSome) →
    ReadsUntilMismatch D (rateBasisCharges inv)

end

section

open ExceptOk

variable {D : Type} [Decimal D] {unicode : Unicode} {sha256 : String → String} {inv : ParsedInvoice}
  {contract : Option ContractFacts} {facts : FactBundle}

theorem returns_newDecimal {text : String} : Returns (newDecimal D text) ↔ (Decimal.ofString text : Option D).isSome := by
  rw [Option.isSome_iff_exists, Returns]
  exact exists_congr fun d => newDecimal_eq_ok

theorem returns_rateBasisMatches {rate basis amount : String} (hamount : (Decimal.ofString amount : Option D).isSome) :
    Returns (rateBasisMatches D rate basis amount) ↔
      (Decimal.ofString rate : Option D).isSome ∧ (Decimal.ofString basis : Option D).isSome := by
  obtain ⟨t, ht, -⟩ := cent D
  have hcent : Returns (newDecimal D "0.01") := returns_newDecimal.mpr (by rw [ht]; rfl)
  simp only [rateBasisMatches, returns_bind, exists_and_right, exists_ok_iff, returns_pure, and_true,
    returns_newDecimal, hamount, returns_newDecimal.mp hcent]

/-- A conjunction over a list throws where it reads a charge that is no decimal. -/
theorem returns_allM {charges : List NormalizedCharge}
    (hamounts : ∀ c ∈ charges, (Decimal.ofString (c.amount.getD "") : Option D).isSome) :
    Returns (charges.allM fun c => rateBasisMatches D (c.rate.getD "") (c.basis.getD "") (c.amount.getD "")) ↔
      ReadsUntilMismatch D charges := by
  induction charges with
  | nil => exact iff_of_true ⟨true, rfl⟩ trivial
  | cons c rest ih =>
    have hreturns := @returns_rateBasisMatches D _ (c.rate.getD "") (c.basis.getD "") _
      (hamounts c List.mem_cons_self)
    rw [List.allM, ReadsUntilMismatch, ← and_assoc, ← hreturns, returns_bind,
      ← ih fun d hd => hamounts d (List.mem_cons_of_mem _ hd)]
    constructor
    · rintro ⟨b, hb, hrest⟩
      refine ⟨⟨b, hb⟩, fun htrue => ?_⟩
      obtain rfl := Except.ok.inj (hb.symm.trans htrue)
      exact hrest
    · rintro ⟨⟨b, hb⟩, hrest⟩
      cases b with
      | true => exact ⟨true, hb, hrest hb⟩
      | false => exact ⟨false, hb, returns_pure⟩

theorem returns_rateBasisArithmeticMatches
    (hamounts : ∀ c ∈ inv.charges, ∀ t ∈ c.amount, (Decimal.ofString t : Option D).isSome) :
    Returns (rateBasisArithmeticMatches D inv) ↔ RateBasisReads D inv := by
  unfold rateBasisArithmeticMatches RateBasisReads
  change Returns (if ((rateBasisCharges inv).isEmpty || (rateBasisCharges inv).any fun c =>
    c.rate.isNone || c.basis.isNone || c.amount.isNone) = true then _ else _) ↔ _
  split
  · rename_i hskip
    refine iff_of_true returns_pure fun hall => ?_
    rcases Bool.or_eq_true _ _ |>.mp hskip with hnone | hany
    · rw [List.isEmpty_iff.mp hnone]
      trivial
    · obtain ⟨c, hc, hlacks⟩ := List.any_eq_true.mp hany
      obtain ⟨hrate, hbasis, hamount⟩ := hall c hc
      simp [Option.isSome_iff_ne_none.mp hrate, Option.isSome_iff_ne_none.mp hbasis,
        Option.isSome_iff_ne_none.mp hamount] at hlacks
  · rename_i hgo
    have hall : ∀ c ∈ rateBasisCharges inv, c.rate.isSome ∧ c.basis.isSome ∧ c.amount.isSome := by
      intro c hc
      by_contra hnot
      refine hgo (Bool.or_eq_true _ _ |>.mpr (.inr (List.any_eq_true.mpr ⟨c, hc, ?_⟩)))
      simp only [Option.isSome_iff_ne_none, ne_eq, not_and_or, not_not] at hnot
      simpa [or_assoc] using hnot
    have hread : ∀ c ∈ rateBasisCharges inv, (Decimal.ofString (c.amount.getD "") : Option D).isSome := by
      intro c hc
      obtain ⟨t, ht⟩ := Option.isSome_iff_exists.mp (hall c hc).2.2
      rw [ht, Option.getD_some]
      exact hamounts c (List.mem_filter.mp hc).1 t ht
    rw [forall_prop_of_true hall, ← returns_allM hread, returns_bind_of_forall fun _ _ => iff_of_true returns_pure trivial,
      and_true]
    rfl

/-- The figures every producer guarantees: the amounts and the line sum read as decimals. -/
structure FiguresRead (D : Type) [Decimal D] (inv : ParsedInvoice) : Prop where
  amounts : ∀ c ∈ inv.charges, ∀ t ∈ c.amount, (Decimal.ofString t : Option D).isSome
  lineSum : (Decimal.ofString ((inv.footing.map Footing.lineSum).getD "0.0000") : Option D).isSome

theorem figuresRead_of_totalled {footing : Footing} (h : Totalled D inv footing) : FiguresRead D inv := by
  refine ⟨fun c hc t ht => ?_, ?_⟩
  · obtain ⟨d, hd, -⟩ := (h.amounts c hc t ht).reads
    rw [hd]
    rfl
  · have hsum := h.sum
    simp only [sumMoney, bind_eq_ok, pure_eq_ok] at hsum
    obtain ⟨sum, -, hline⟩ := hsum
    have hmoney : IsMoneyText D footing.lineSum := ⟨sum, hline.symm⟩
    obtain ⟨d, hd, -⟩ := hmoney.reads
    rw [h.stated, Option.map_some, Option.getD_some, hd]
    rfl

theorem ofString_isDecimalText {text : String} (h : isDecimalText text = true) :
    (Decimal.ofString text : Option D).isSome := by
  obtain ⟨x, hx⟩ := Option.isSome_iff_exists.mp (exactValue_isDecimalText h)
  obtain ⟨d, hd, -⟩ := ofString_exactValue (D := D) hx
  rw [hd]
  rfl

theorem Produced.figuresRead (h : Produced D unicode inv) : FiguresRead D inv := by
  cases h with
  | parsed210 raw categorize h =>
    obtain ⟨footing, htotal⟩ := totalled_parse210 h
    exact figuresRead_of_totalled htotal
  | parsed310 raw categorize h =>
    obtain ⟨footing, htotal⟩ := totalled_parse310 h
    exact figuresRead_of_totalled htotal
  | corrected h =>
    simp only [CorrectedInvoiceSchema, Bool.and_eq_true, List.all_eq_true] at h
    obtain ⟨⟨-, hcharges⟩, hfooting⟩ := h
    refine ⟨fun c hc t ht => ?_, ?_⟩
    · have hcharge := hcharges c hc
      rw [correctedCharge, Bool.and_eq_true, Option.mem_def.mp ht] at hcharge
      exact ofString_isDecimalText hcharge.1
    · cases hf : inv.footing with
      | none =>
        obtain ⟨d, hd, -⟩ := @ofString_exactValue D _ "0.0000" 0 (by decide +kernel)
        rw [Option.map_none, Option.getD_none, hd]
        rfl
      | some footing =>
        rw [hf, Option.all_some, correctedFooting, Bool.and_eq_true] at hfooting
        exact ofString_isDecimalText hfooting.2

theorem returns_billedLinehaul (h : FiguresRead D inv) : Returns (billedLinehaul D inv) := by
  unfold billedLinehaul
  split
  · exact returns_pure
  · refine returns_bind.mpr ?_
    have hread : ∀ t ∈ (linehaulCharges inv).filterMap NormalizedCharge.amount, ∃ d : D, Decimal.ofString t = some d := by
      intro t ht
      obtain ⟨c, hc, hamount⟩ := List.mem_filterMap.mp ht
      exact Option.isSome_iff_exists.mp (h.amounts c (List.mem_filter.mp hc).1 t hamount)
    obtain ⟨sum, hsum⟩ := foldlM_addMoney_total hread (Decimal.ofNumber (.ofNat 0))
    exact ⟨sum, hsum, returns_pure⟩

/-- The facts of an invoice from any producer can be built if its rates and bases can be read. -/
theorem returns_buildFactBundle (h : FiguresRead D inv) :
    Returns (buildFactBundle D unicode inv contract) ↔ RateBasisReads D inv := by
  rw [buildFactBundle, returns_bind_of_forall (p := True), and_true, returns_rateBasisArithmeticMatches h.amounts]
  intro rateBasis _
  refine iff_of_true (returns_bind.mpr ?_) trivial
  obtain ⟨lineSum, hline⟩ := returns_newDecimal.mpr h.lineSum
  refine ⟨lineSum, hline, ?_⟩
  split
  · exact returns_pure
  · obtain ⟨billed, hbilled⟩ := returns_billedLinehaul h
    exact returns_bind.mpr ⟨billed, hbilled, returns_pure⟩

theorem returns_evaluate {n : AstNode} (h : ¬ ReachesMalformedTolerance D facts n) : Returns (evaluate D facts n) := by
  rw [← throws_iff] at h
  cases hev : evaluate D facts n with
  | ok ev => exact returns_ok
  | error e => exact absurd ⟨e, hev⟩ h

/-- A comparison of a fact with a fact or a literal. -/
theorem not_reaches_compare {op : CompareOp} {left right : AstNode} {tolerance : Option String}
    (hleft : ¬ ReachesMalformedTolerance D facts left) (hright : ¬ ReachesMalformedTolerance D facts right)
    (htolerance : (Decimal.ofString (tolerance.getD "0") : Option D).isSome) :
    ¬ ReachesMalformedTolerance D facts (.compare op left right tolerance) := by
  intro h
  cases h with
  | here _ _ _ _ _ _ _ _ hmalformed => rw [hmalformed] at htolerance; cases htolerance
  | left _ _ _ _ h => exact hleft h
  | right _ _ _ _ h => exact hright h

theorem not_reaches_require {key : String} {thenNode : AstNode}
    (h : ¬ ReachesMalformedTolerance D facts thenNode) : ¬ ReachesMalformedTolerance D facts (.require key thenNode) :=
  fun hreach => by
    cases hreach with
    | require _ _ _ hthen => exact h hthen

theorem not_reaches_fact (key : String) : ¬ ReachesMalformedTolerance D facts (.fact key) := fun h => by cases h

/-- Both rubrics are evaluated whatever the facts. -/
theorem returns_evaluate_criterion {rubric : ComposedRubric}
    (hrubric : rubric = STANDARD_RUBRIC ∨ rubric = CONTRACT_RUBRIC) {c : StandardCriterion} (hc : c ∈ rubric.criteria) :
    Returns (evaluate D facts c.ast) := by
  obtain ⟨t, ht, -⟩ := cent D
  have hcent : (Decimal.ofString ((some "0.01").getD "0") : Option D).isSome := by
    rw [Option.getD_some, ht]
    rfl
  have hzero : (Decimal.ofString ((none : Option String).getD "0") : Option D).isSome := by
    obtain ⟨z, hz, -⟩ := @ofString_exactValue D _ "0" 0 (by decide +kernel)
    rw [Option.getD_none, hz]
    rfl
  have hliteral : ∀ op key x, ¬ ReachesMalformedTolerance D facts (factIs op key x) := fun op key x =>
    not_reaches_compare (not_reaches_fact key) (fun h => by cases h) hzero
  refine returns_evaluate ?_
  rcases criterion_cases hrubric hc with rfl | rfl | ⟨op, key, x, hast⟩ | ⟨key, x, hast⟩
  · exact not_reaches_require (not_reaches_compare (not_reaches_fact _) (not_reaches_fact _) hcent)
  · exact not_reaches_require (not_reaches_require (not_reaches_require
      (not_reaches_compare (not_reaches_fact _) (not_reaches_fact _) hcent)))
  · rw [hast]
    exact hliteral op key x
  · rw [hast]
    exact not_reaches_require (hliteral .eq key x)

/-- Evaluated amounts read back, so their difference is formed. -/
theorem returns_moneyVarianceDelta (n : AstNode) :
    ∀ ev, evaluate D facts n = .ok ev → Returns (moneyVarianceDelta D ev) := by
  induction n using AstNode.induction with
  | lit v =>
    intro ev h
    cases h
    exact ⟨none, rfl⟩
  | money amount currency =>
    intro ev h
    cases h
    exact ⟨none, rfl⟩
  | fact key =>
    intro ev h
    obtain ⟨v, hv, -⟩ := @evaluate_fact D _ facts key
    obtain rfl := Except.ok.inj (h.symm.trans hv)
    exact ⟨none, rfl⟩
  | arith op args ih =>
    intro ev h
    simp only [evaluate, bind_eq_ok, pure_eq_ok] at h
    obtain ⟨children, -, v, -, rfl⟩ := h
    exact ⟨none, by simp [moneyVarianceDelta]⟩
  | logic op args ih =>
    intro ev h
    simp only [evaluate, bind_eq_ok, pure_eq_ok] at h
    obtain ⟨children, -, rfl⟩ := h
    exact ⟨none, by simp [moneyVarianceDelta]⟩
  | compare op left right tolerance ihl ihr =>
    intro ev h
    simp only [evaluate, bind_eq_ok, pure_eq_ok] at h
    obtain ⟨l, hl, r, hr, v, -, rfl⟩ := h
    have hlv := @value_reads D _ facts left l.value (by rw [value, hl]; rfl)
    have hrv := @value_reads D _ facts right r.value (by rw [value, hr]; rfl)
    simp only [moneyVarianceDelta]
    split
    · rename_i billed currency expected _ hb he
      rw [hb] at hlv
      rw [he] at hrv
      simp only [returns_bind, exists_and_right, exists_ok_iff, returns_pure, and_true, returns_newDecimal]
      exact ⟨hlv, hrv⟩
    · exact returns_pure
  | require key thenNode ih =>
    intro ev h
    simp only [evaluate] at h
    split at h
    · cases h
      exact ⟨none, by simp [moneyVarianceDelta]⟩
    · simp only [bind_eq_ok, pure_eq_ok] at h
      obtain ⟨child, hchild, rfl⟩ := h
      exact ih child hchild

/-- An invoice from any producer is evaluated exactly if its rates and bases can be read. -/
theorem returns_evaluateInvoice (h : FiguresRead D inv) {rubric : ComposedRubric}
    (hrubric : rubric = STANDARD_RUBRIC ∨ rubric = CONTRACT_RUBRIC) :
    Returns (evaluateInvoice D unicode sha256 inv rubric contract) ↔ RateBasisReads D inv := by
  rw [Returns, evaluateInvoice_returns, ← @returns_buildFactBundle D _ unicode inv contract h]
  constructor
  · rintro ⟨facts, hfacts, -⟩
    exact ⟨facts, hfacts⟩
  · rintro ⟨facts, hfacts⟩
    refine ⟨facts, hfacts, fun c hc _ => returns_evaluate_criterion hrubric hc, fun _ c hc _ => ?_⟩
    obtain ⟨ev, hev⟩ := @returns_evaluate_criterion D _ facts rubric hrubric c hc
    exact ⟨ev, hev, returns_moneyVarianceDelta c.ast ev hev⟩

end

end Evaluator
