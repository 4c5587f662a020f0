import FreightAuditor.RuleEngine.Interpreter

/- The hand-authored STANDARD rubric, and the CONTRACT rubric that appends one criterion.

   A GATING criterion rejects the invoice, a SCORING criterion observes. Most of
   them compare one fact with a literal (`factIs`); two compare money:
   `STD.FOOTING` and `CONTRACT.RATE_VARIANCE`. -/
namespace RubricResolver

open RuleEngine DecimalJs

inductive CriterionKind where
  | GATING | SCORING
  deriving DecidableEq

def CriterionKind.text : CriterionKind → String
  | .GATING => "GATING" | .SCORING => "SCORING"

structure StandardCriterion where
  criterionKey : String
  kind : CriterionKind
  description : String
  evalOrder : ℕ
  ast : AstNode
  /-- The kickback text of a failed gate. -/
  citation : Option String

structure ComposedRubric where
  resolverVersion : String
  criteria : List StandardCriterion

def RESOLVER_VERSION : String := "standard-resolver-v2"
def ENGINE_SPEC_VERSION : String := "engine-v1"
def FOOTING_TOLERANCE : String := "0.01"

/-- The fact compared with a literal. -/
def factIs (op : CompareOp) (key : String) (value : LitValue) : AstNode :=
  .compare op (.fact key) (.lit value) none

/-- The same, for a fact that may be absent. -/
def requiredFactIs (key : String) (value : LitValue) : AstNode :=
  .require key (factIs .eq key value)

def footingCriterion : StandardCriterion where
  criterionKey := "STD.FOOTING"
  kind := .GATING
  evalOrder := 10
  description := "Declared invoice total foots to the sum of line charges within tolerance."
  citation := some "Invoice total (B3-07) must equal the sum of billed line items (ΣL1-04)."
  ast := .require "declared_total"
    (.compare .approx (.fact "declared_total") (.fact "line_sum") (some FOOTING_TOLERANCE))

/-- A gate on a fact that is precomputed as a boolean. -/
def booleanGate (criterionKey : String) (evalOrder : ℕ) (key description citation : String) :
    StandardCriterion where
  criterionKey := criterionKey
  kind := .GATING
  evalOrder := evalOrder
  description := description
  citation := some citation
  ast := factIs .eq key (.boolean true)

/-- A gate on a field an EDI 310 must state. -/
def oceanGate (criterionKey : String) (evalOrder : ℕ) (key field : String) : StandardCriterion :=
  booleanGate criterionKey evalOrder key ("EDI 310 states its " ++ field ++ ".")
    ("Ocean freight invoice must state " ++ field ++ ".")

def scoring (criterionKey : String) (evalOrder : ℕ) (description : String) (ast : AstNode) :
    StandardCriterion where
  criterionKey := criterionKey
  kind := .SCORING
  evalOrder := evalOrder
  description := description
  citation := none
  ast := ast

def STANDARD_RUBRIC : ComposedRubric where
  resolverVersion := RESOLVER_VERSION
  criteria := [
    -- hard gates
    footingCriterion,
    booleanGate "STD.CURRENCY_STATED" 20 "all_currencies_stated"
      "Every charge states a currency (never defaulted — critical for ocean/310)."
      "Each charge must state its currency (C3 / L1-20); defaulting is not permitted.",
    booleanGate "STD.AMOUNT_STATED" 25 "all_amounts_stated"
      "Every charge has a parseable amount (never guessed — a malformed L1-04 is a structural defect)."
      "Each charge line must state a numeric amount (L1-04); an unparseable value cannot be certified.",
    { criterionKey := "STD.HAS_CHARGES"
      kind := .GATING
      evalOrder := 30
      description := "Invoice carries at least one charge line (required segment presence)."
      citation := some "Invoice must contain at least one billable charge line (L1)."
      ast := factIs .gt "charge_count" (.number (.ofNat 0)) },
    booleanGate "STD.210.INVOICE_NUMBER_REQUIRED" 32 "required_210_invoice_number"
      "EDI 210 states its invoice number in B3-02." "Motor-carrier invoice must state B3-02 invoice number.",
    booleanGate "STD.210.SHIPMENT_ID_REQUIRED" 34 "required_210_shipment_id"
      "EDI 210 states its shipment identification in B3-03."
      "Motor-carrier invoice must state B3-03 shipment identification.",
    booleanGate "STD.210.SCAC_REQUIRED" 36 "required_210_scac" "EDI 210 states its carrier SCAC in B3-11."
      "Motor-carrier invoice must state B3-11 Standard Carrier Alpha Code.",
    oceanGate "STD.310.INVOICE_NUMBER_REQUIRED" 38 "required_310_invoice_number" "B3-02 invoice number",
    oceanGate "STD.310.REFERENCE_REQUIRED" 40 "required_310_reference" "N9 shipment reference",
    oceanGate "STD.310.CONTAINER_REQUIRED" 42 "required_310_container" "N7 container identity",
    oceanGate "STD.310.VESSEL_VOYAGE_REQUIRED" 44 "required_310_vessel_voyage" "V1 vessel/voyage",
    oceanGate "STD.310.PORTS_REQUIRED" 46 "required_310_ports" "origin and destination R4 ports",
    booleanGate "STD.310.CHARGE_IDENTITY_REQUIRED" 48 "required_310_charge_identity"
      "Every EDI 310 charge has a charge code or source description."
      "Each ocean charge must be identifiable from L1-08 or L1-12.",
    booleanGate "STD.310.CURRENCY_CODE_VALID" 50 "valid_310_currency_codes"
      "Every EDI 310 charge currency is a normalized three-letter ISO code."
      "Ocean charge currencies from C3/L1-20 must be normalized ISO-4217 codes.",
    -- observations on a valid invoice
    scoring "STD.NO_QUARANTINED_CODES" 100
      "All charge codes resolved to a canonical category via the crosswalk."
      (factIs .eq "quarantined_count" (.number (.ofNat 0))),
    scoring "STD.FUEL_PRESENT" 110
      "A fuel surcharge is present (categorized FUEL via crosswalk, never by raw code)."
      (factIs .eq "has_fuel_category" (.boolean true)),
    scoring "STD.DUPLICATE_INVOICE" 120
      "Invoice number has not already been billed for this tenant and transaction set."
      (requiredFactIs "duplicate_invoice" (.boolean false)),
    scoring "STD.SHIPMENT_REFERENCE_MATCH" 130
      "At least one stated shipment reference matches a shipment belonging to this tenant."
      (requiredFactIs "shipment_reference_match" (.boolean true)),
    scoring "STD.RATE_BASIS_ARITHMETIC" 140
      "Every charge stating rate/basis has amount equal to rate × basis within one cent."
      (requiredFactIs "rate_basis_arithmetic_matches" (.boolean true)),
    scoring "STD.310.CURRENCY_CONSISTENCY" 150
      "EDI 310 charge currencies are consistent for invoice-level aggregation."
      (factIs .eq "consistent_310_charge_currencies" (.boolean true)),
    scoring "STD.SUSPICIOUS_MISSING_DATA" 160
      "No otherwise-valid charge carries a suspicious verification-data gap."
      (factIs .eq "suspicious_missing_data_count" (.number (.ofNat 0)))]

def CONTRACT_RESOLVER_VERSION : String := "contract-resolver-v1"
def RATE_VARIANCE_TOLERANCE : String := "0.01"

def RATE_VARIANCE_CRITERION : StandardCriterion :=
  scoring "CONTRACT.RATE_VARIANCE" 200
    "Billed linehaul charge matches the contracted rate within tolerance, in the same currency."
    (.require "billed_linehaul" (.require "contract_linehaul_rate" (.require "linehaul_currencies_match"
      (.compare .approx (.fact "billed_linehaul") (.fact "contract_linehaul_rate")
        (some RATE_VARIANCE_TOLERANCE)))))

def CONTRACT_RUBRIC : ComposedRubric where
  resolverVersion := CONTRACT_RESOLVER_VERSION
  criteria := STANDARD_RUBRIC.criteria ++ [RATE_VARIANCE_CRITERION]

/-! ## The content hash -/

def StandardCriterion.toJson (c : StandardCriterion) : Json.Value :=
  .obj ([("criterionKey", .str c.criterionKey), ("kind", .str c.kind.text),
    ("evalOrder", .ofNumber (.ofNat c.evalOrder)), ("description", .str c.description)] ++
    (c.citation.map (fun t => ("citation", Json.Value.str t))).toList ++ [("ast", c.ast.toJson)])

def ComposedRubric.toJson (rubric : ComposedRubric) : Json.Value :=
  .obj [("resolverVersion", .str rubric.resolverVersion),
    ("criteria", .arr (rubric.criteria.map StandardCriterion.toJson))]

/-- The hash pins a run to the exact rubric it ran against. -/
def rubricContentHash (sha256 : String → String) (rubric : ComposedRubric) : String :=
  sha256 (String.ofList (Json.canonicalText rubric.toJson))

/-- Rubrics with different resolver versions have different hashes. -/
theorem rubricContentHash_ne {sha256 : String → String} (hsha : Function.Injective sha256)
    {a b : ComposedRubric} (h : a.resolverVersion ≠ b.resolverVersion) :
    rubricContentHash sha256 a ≠ rubricContentHash sha256 b := by
  intro heq
  have htext := String.ofList_injective (hsha heq)
  have hsorted := Json.canonicalText_inj.mp htext
  have hfield := congrArg (Json.Value.get? "resolverVersion") hsorted
  simp only [Json.get?_sortKeys] at hfield
  simp [ComposedRubric.toJson, Json.Value.get?, Json.sortKeys] at hfield
  exact h hfield

end RubricResolver
