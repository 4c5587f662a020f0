import FreightAuditor.Ingestion.ChargeFact
import FreightAuditor.Ingestion.X12

/- The adapters for EDI 210 (motor) and EDI 310 (ocean): a shared envelope and charge
   loop, with the currency of a charge resolved in each adapter's own way.

   Both fill the footing in one way, and that is what the gate relies on: `Totalled`
   says that the line sum is the sum of the charges' amounts, all of them money texts
   (`totalled_parse210`, `totalled_parse310`). The sum is of money texts, so it never
   throws (`buildFooting_total`). -/
namespace Ingestion

open DecimalJs JsText

/-- What the adapters throw. -/
inductive EdiError where
  | x12 (e : X12ParseError)
  | group (message : String)
  | decimal (e : DecimalError)
  deriving DecidableEq

/-- Parse the envelope and check its functional group code, if it has one. -/
def parseEdiEnvelope (raw expectedGroup : String) : Except EdiError X12Interchange := do
  let ix ← (parseX12 raw).mapError EdiError.x12
  match el (firstSegment ix "GS") 1 with
  | none => return ix
  | some gs01 =>
    if gs01 != expectedGroup then
      throw (.group ("expected GS01=" ++ expectedGroup ++ " for this transaction set, got " ++ gs01))
    return ix

/-- B3-02 and B3-07. -/
structure B3Header where
  invoiceNumber : Option String
  declaredTotal : Option String

def readB3Header (ix : X12Interchange) : B3Header :=
  let b3 := firstSegment ix "B3"
  { invoiceNumber := el b3 2, declaredTotal := el b3 7 }

section

variable (unicode : Unicode)

/-- Trimmed, without blanks, and without those `seen` in another casing. -/
def uniqueReferences (seen : List String) : List (Option String) → List String
  | [] => []
  | value :: rest =>
    match value.map trim with
    | none => uniqueReferences seen rest
    | some normalized =>
      if normalized == "" || seen.contains (unicode.toLowerCase normalized) then uniqueReferences seen rest
      else normalized :: uniqueReferences (unicode.toLowerCase normalized :: seen) rest

def normalizeReferences (values : List (Option String)) : List String := uniqueReferences unicode [] values

end

section

variable (D : Type) [Decimal D] (categorize : Categorize) (resolveCurrency : X12Segment → Option String)
  (sourceLoop : String)

/-- One L1 line. It is quarantined if its code has no category, or its amount is no money text. -/
def buildCharge (l1 : X12Segment) : NormalizedCharge :=
  let amount := money D (el (some l1) 4)
  let code := el (some l1) 8
  let category := categorize code
  { code
    x12Element := some "L1"
    category
    quarantined := (code.isSome && category.isNone) || amount.isNone
    amount
    currency := (resolveCurrency l1).getD ""
    basis := money D (el (some l1) 17)
    rate := money D (el (some l1) 2)
    rawDescription := el (some l1) 12
    sourceLoop := some sourceLoop }

def buildCharges (ix : X12Interchange) : List NormalizedCharge :=
  (segmentsByTag ix "L1").map (buildCharge D categorize resolveCurrency sourceLoop)

/-- The codes seen that have no category. -/
def quarantinedCodes (ix : X12Interchange) : List String :=
  (segmentsByTag ix "L1").filterMap (fun l1 =>
    let code := el (some l1) 8
    if (categorize code).isNone then code else none)

/-- The declared total, and the sum of the charges. -/
def buildFooting (declaredTotal : Option String) (charges : List NormalizedCharge) :
    Except DecimalError Footing := do
  let lineSum ← sumMoney D (charges.map NormalizedCharge.amount)
  return { declaredTotal := money D declaredTotal, lineSum }

end

def PARSER_210_VERSION : String := "210-v1"
def PARSER_310_VERSION : String := "310-v1"

/-- Motor: one currency, `USD`, for every line. -/
def parse210 (D : Type) [Decimal D] (unicode : Unicode) (raw : String) (categorize : Categorize) :
    Except EdiError ParsedInvoice := do
  let ix ← parseEdiEnvelope raw "IM"
  let header := readB3Header ix
  let b3 := firstSegment ix "B3"
  let headerCurrency := "USD"
  let charges := buildCharges D categorize (fun _ => some headerCurrency) "L0/L1" ix
  let footing ← (buildFooting D header.declaredTotal charges).mapError EdiError.decimal
  return {
    transactionSet := .edi210
    parserVersion := PARSER_210_VERSION
    invoiceNumber := header.invoiceNumber
    shipmentReferences := some (normalizeReferences unicode [el b3 3])
    carrierCode := el b3 11
    containerNumbers := none
    vesselVoyage := none
    portCodes := none
    headerCurrency := some headerCurrency
    charges
    footing := some footing
    quarantinedCodes := quarantinedCodes categorize ix }

/-- Ocean: the currency of a line is its L1-20, else the interchange's C3-01, else not stated. -/
def parse310 (D : Type) [Decimal D] (unicode : Unicode) (raw : String) (categorize : Categorize) :
    Except EdiError ParsedInvoice := do
  let ix ← parseEdiEnvelope raw "IO"
  let header := readB3Header ix
  let container := fun segment : X12Segment => do
    let owner ← el (some segment) 1
    let number ← el (some segment) 2
    return owner ++ number
  let vessel := firstSegment ix "V1"
  let interchangeCurrency := el (firstSegment ix "C3") 1
  let charges := buildCharges D categorize (fun l1 => el (some l1) 20 <|> interchangeCurrency) "L1" ix
  let footing ← (buildFooting D header.declaredTotal charges).mapError EdiError.decimal
  return {
    transactionSet := .edi310
    parserVersion := PARSER_310_VERSION
    invoiceNumber := header.invoiceNumber
    shipmentReferences := some (normalizeReferences unicode
      ((segmentsByTag ix "N9").map (fun segment => el (some segment) 2)))
    carrierCode := none
    containerNumbers := some (normalizeReferences unicode ((segmentsByTag ix "N7").map container))
    vesselVoyage := (normalizeReferences unicode [el vessel 4 <|> el vessel 2 <|> el vessel 1]).head?
    portCodes := some (normalizeReferences unicode
      ((segmentsByTag ix "R4").map (fun segment => el (some segment) 2 <|> el (some segment) 3)))
    headerCurrency := interchangeCurrency
    charges
    footing := some footing
    quarantinedCodes := quarantinedCodes categorize ix }

/-! ## The footing the adapters fill in -/

section

variable {D : Type} [Decimal D]

/-- The figures are money texts, and the line sum is the sum of the amounts. -/
structure Totalled (D : Type) [Decimal D] (inv : ParsedInvoice) (footing : Footing) : Prop where
  stated : inv.footing = some footing
  amounts : ∀ c ∈ inv.charges, ∀ text, c.amount = some text → IsMoneyText D text
  declared : ∀ text, footing.declaredTotal = some text → IsMoneyText D text
  sum : sumMoney D (inv.charges.map NormalizedCharge.amount) = .ok footing.lineSum

theorem isMoneyText_buildCharges {categorize : Categorize} {resolveCurrency : X12Segment → Option String}
    {sourceLoop : String} {ix : X12Interchange} :
    ∀ c ∈ buildCharges D categorize resolveCurrency sourceLoop ix, ∀ text, c.amount = some text →
      IsMoneyText D text := by
  intro c hc text ht
  obtain ⟨l1, -, rfl⟩ := List.mem_map.mp hc
  exact isMoneyText_of_money ht

/-- The sum of a parsed invoice does not throw. -/
theorem buildFooting_total {declaredTotal : Option String} {charges : List NormalizedCharge}
    (h : ∀ c ∈ charges, ∀ text, c.amount = some text → IsMoneyText D text) :
    ∃ footing, buildFooting D declaredTotal charges = .ok footing := by
  have hreads : ∀ t ∈ (charges.map NormalizedCharge.amount).filterMap id, ∃ d : D, Decimal.ofString t = some d := by
    intro t ht
    obtain ⟨a, ha, rfl⟩ := List.mem_filterMap.mp ht
    obtain ⟨c, hc, hamount⟩ := List.mem_map.mp ha
    obtain ⟨d, hd, -⟩ := (h c hc t hamount).reads
    exact ⟨d, hd⟩
  obtain ⟨sum, hsum⟩ := foldlM_addMoney_total hreads (Decimal.ofNumber (.ofNat 0))
  exact ⟨_, by rw [buildFooting, sumMoney, hsum]; rfl⟩

theorem totalled_buildFooting {inv : ParsedInvoice} {declaredTotal : Option String} {footing : Footing}
    (hfooting : inv.footing = some footing) (h : buildFooting D declaredTotal inv.charges = .ok footing)
    (hamounts : ∀ c ∈ inv.charges, ∀ text, c.amount = some text → IsMoneyText D text) :
    Totalled D inv footing := by
  simp only [buildFooting, ExceptOk.bind_eq_ok, ExceptOk.pure_eq_ok] at h
  obtain ⟨lineSum, hsum, rfl⟩ := h
  exact ⟨hfooting, hamounts, fun _ ht => isMoneyText_of_money ht, hsum⟩

theorem totalled_parse210 {unicode : Unicode} {raw : String} {categorize : Categorize} {inv : ParsedInvoice}
    (h : parse210 D unicode raw categorize = .ok inv) : ∃ footing, Totalled D inv footing := by
  simp only [parse210, ExceptOk.bind_eq_ok, ExceptOk.pure_eq_ok, ExceptOk.mapError_eq_ok] at h
  obtain ⟨ix, -, footing, hfooting, rfl⟩ := h
  exact ⟨footing, totalled_buildFooting rfl hfooting isMoneyText_buildCharges⟩

theorem totalled_parse310 {unicode : Unicode} {raw : String} {categorize : Categorize} {inv : ParsedInvoice}
    (h : parse310 D unicode raw categorize = .ok inv) : ∃ footing, Totalled D inv footing := by
  simp only [parse310, ExceptOk.bind_eq_ok, ExceptOk.pure_eq_ok, ExceptOk.mapError_eq_ok] at h
  obtain ⟨ix, -, footing, hfooting, rfl⟩ := h
  exact ⟨footing, totalled_buildFooting rfl hfooting isMoneyText_buildCharges⟩

end

end Ingestion
