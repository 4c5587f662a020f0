import FreightAuditor.Evaluator.EvaluateInvoice
import FreightAuditor.Library.JsonSchema

/- An audited invoice, its resolved inputs and its result as JSON.

   The invoice and the inputs are read back with the fields a replay reads; whatever the order of the
   fields, the value that was written comes back (`ParsedInvoice.ofJson_toJson`,
   `ContractFacts.ofJson_toJson`). -/
namespace Ingestion

open Json

def TransactionSet.ofText? (text : String) : Option TransactionSet :=
  if text = "210" then some .edi210 else if text = "310" then some .edi310 else if text = "PDF" then some .pdf else none

/-- A list of texts, if it is there. -/
def texts (l : Option (List String)) : Option Value := l.map fun l => .arr (l.map .str)

def NormalizedCharge.toJson (c : NormalizedCharge) : Value :=
  object [("code", c.code.map .str), ("x12Element", c.x12Element.map .str), ("category", c.category.map .str),
    ("quarantined", some (.bool c.quarantined)), ("amount", c.amount.map .str), ("currency", some (.str c.currency)),
    ("basis", c.basis.map .str), ("rate", c.rate.map .str), ("rawDescription", c.rawDescription.map .str),
    ("sourceLoop", c.sourceLoop.map .str)]

def NormalizedCharge.ofJson (v : Value) : Option NormalizedCharge := do
  let code ← field? "code" Value.text? v
  let x12Element ← field? "x12Element" Value.text? v
  let category ← field? "category" Value.text? v
  let quarantined ← field "quarantined" boolean? v
  let amount ← field? "amount" Value.text? v
  let currency ← field "currency" Value.text? v
  let basis ← field? "basis" Value.text? v
  let rate ← field? "rate" Value.text? v
  let rawDescription ← field? "rawDescription" Value.text? v
  let sourceLoop ← field? "sourceLoop" Value.text? v
  return ⟨code, x12Element, category, quarantined, amount, currency, basis, rate, rawDescription, sourceLoop⟩

def Footing.toJson (footing : Footing) : Value :=
  object [("declaredTotal", footing.declaredTotal.map .str), ("lineSum", some (.str footing.lineSum))]

def Footing.ofJson (v : Value) : Option Footing := do
  let declaredTotal ← field? "declaredTotal" Value.text? v
  let lineSum ← field "lineSum" Value.text? v
  return ⟨declaredTotal, lineSum⟩

def ParsedInvoice.toJson (inv : ParsedInvoice) : Value :=
  object [("transactionSet", some (.str inv.transactionSet.text)), ("parserVersion", some (.str inv.parserVersion)),
    ("invoiceNumber", inv.invoiceNumber.map .str), ("shipmentReferences", texts inv.shipmentReferences),
    ("carrierCode", inv.carrierCode.map .str), ("containerNumbers", texts inv.containerNumbers),
    ("vesselVoyage", inv.vesselVoyage.map .str), ("portCodes", texts inv.portCodes),
    ("headerCurrency", inv.headerCurrency.map .str), ("charges", some (.arr (inv.charges.map NormalizedCharge.toJson))),
    ("footing", inv.footing.map Footing.toJson),
    ("quarantinedCodes", some (.arr (inv.quarantinedCodes.map .str)))]

def ParsedInvoice.ofJson (v : Value) : Option ParsedInvoice := do
  let transactionSet ← field "transactionSet" (fun t => t.text?.bind TransactionSet.ofText?) v
  let parserVersion ← field "parserVersion" Value.text? v
  let invoiceNumber ← field? "invoiceNumber" Value.text? v
  let shipmentReferences ← field? "shipmentReferences" (array Value.text?) v
  let carrierCode ← field? "carrierCode" Value.text? v
  let containerNumbers ← field? "containerNumbers" (array Value.text?) v
  let vesselVoyage ← field? "vesselVoyage" Value.text? v
  let portCodes ← field? "portCodes" (array Value.text?) v
  let headerCurrency ← field? "headerCurrency" Value.text? v
  let charges ← field "charges" (array NormalizedCharge.ofJson) v
  let footing ← field? "footing" Footing.ofJson v
  let quarantinedCodes ← field "quarantinedCodes" (array Value.text?) v
  return ⟨transactionSet, parserVersion, invoiceNumber, shipmentReferences, carrierCode, containerNumbers,
    vesselVoyage, portCodes, headerCurrency, charges, footing, quarantinedCodes⟩

theorem TransactionSet.ofText?_text (set : TransactionSet) : TransactionSet.ofText? set.text = some set := by
  cases set <;> rfl

section

variable {f : Value → Value} (hf : Fieldwise f)

include hf

theorem NormalizedCharge.ofJson_toJson (c : NormalizedCharge) : NormalizedCharge.ofJson (f c.toJson) = some c := by
  rw [ofJson, hf.field?_str (show c.toJson.get? "code" = c.code.map .str by simp [toJson]),
    hf.field?_str (show c.toJson.get? "x12Element" = c.x12Element.map .str by simp [toJson]),
    hf.field?_str (show c.toJson.get? "category" = c.category.map .str by simp [toJson]),
    hf.field_bool (show c.toJson.get? "quarantined" = some (.bool c.quarantined) by simp [toJson]),
    hf.field?_str (show c.toJson.get? "amount" = c.amount.map .str by simp [toJson]),
    hf.field_str (show c.toJson.get? "currency" = some (.str c.currency) by simp [toJson]),
    hf.field?_str (show c.toJson.get? "basis" = c.basis.map .str by simp [toJson]),
    hf.field?_str (show c.toJson.get? "rate" = c.rate.map .str by simp [toJson]),
    hf.field?_str (show c.toJson.get? "rawDescription" = c.rawDescription.map .str by simp [toJson]),
    hf.field?_str (show c.toJson.get? "sourceLoop" = c.sourceLoop.map .str by simp [toJson])]
  rfl

theorem Footing.ofJson_toJson (footing : Footing) : Footing.ofJson (f footing.toJson) = some footing := by
  rw [ofJson, hf.field?_str (show footing.toJson.get? "declaredTotal" = footing.declaredTotal.map .str by simp [toJson]),
    hf.field_str (show footing.toJson.get? "lineSum" = some (.str footing.lineSum) by simp [toJson])]
  rfl

/-- Written and read back, an invoice is as it was. -/
theorem ParsedInvoice.ofJson_toJson (inv : ParsedInvoice) : ParsedInvoice.ofJson (f inv.toJson) = some inv := by
  have hset : field "transactionSet" (fun t => t.text?.bind TransactionSet.ofText?) (f inv.toJson) =
      some inv.transactionSet := by
    rw [hf.field (show inv.toJson.get? "transactionSet" = some (.str inv.transactionSet.text) by simp [toJson]), hf.str]
    exact inv.transactionSet.ofText?_text
  have hcharges : field "charges" (array NormalizedCharge.ofJson) (f inv.toJson) = some inv.charges := by
    rw [hf.field (show inv.toJson.get? "charges" = some (.arr (inv.charges.map NormalizedCharge.toJson)) by simp [toJson]),
      hf.array (h := id) fun c _ => c.ofJson_toJson hf, List.map_id]
  have hcodes : field "quarantinedCodes" (array Value.text?) (f inv.toJson) = some inv.quarantinedCodes := by
    rw [hf.field (show inv.toJson.get? "quarantinedCodes" = some (.arr (inv.quarantinedCodes.map .str)) by
      simp [toJson]), hf.strings]
  rw [ofJson, hset, hcharges, hcodes,
    hf.field_str (show inv.toJson.get? "parserVersion" = some (.str inv.parserVersion) by simp [toJson]),
    hf.field?_str (show inv.toJson.get? "invoiceNumber" = inv.invoiceNumber.map .str by simp [toJson]),
    hf.field?_strings (show inv.toJson.get? "shipmentReferences" = texts inv.shipmentReferences by simp [toJson]),
    hf.field?_str (show inv.toJson.get? "carrierCode" = inv.carrierCode.map .str by simp [toJson]),
    hf.field?_strings (show inv.toJson.get? "containerNumbers" = texts inv.containerNumbers by simp [toJson]),
    hf.field?_str (show inv.toJson.get? "vesselVoyage" = inv.vesselVoyage.map .str by simp [toJson]),
    hf.field?_strings (show inv.toJson.get? "portCodes" = texts inv.portCodes by simp [toJson]),
    hf.field?_str (show inv.toJson.get? "headerCurrency" = inv.headerCurrency.map .str by simp [toJson]),
    hf.field? (show inv.toJson.get? "footing" = inv.footing.map Footing.toJson by simp [toJson])
      fun footing _ => footing.ofJson_toJson hf]
  rfl

end

end Ingestion

namespace Evaluator

open Json Ingestion RuleEngine

/-! ## Resolved inputs -/

def ContractRate.toJson (rate : ContractRate) : Value :=
  object [("amount", some (.str rate.amount)), ("currency", some (.str rate.currency)),
    ("clauseId", some ((rate.clauseId.map .str).getD .null))]

def ContractRate.ofJson (v : Value) : Option ContractRate := do
  let amount ← field "amount" Value.text? v
  let currency ← field "currency" Value.text? v
  let clauseId ← field "clauseId" (nullable Value.text?) v
  return ⟨amount, currency, clauseId⟩

/-- `null` where the contract states no rate. -/
def rateToJson (rate : Option ContractRate) : Value := (rate.map ContractRate.toJson).getD .null

/-- No caller resolves external values. -/
def ContractFacts.toJson (contract : ContractFacts) : Value :=
  object [("duplicateInvoice", contract.duplicateInvoice.map .bool),
    ("shipmentReferenceMatch", contract.shipmentReferenceMatch.map .bool),
    ("linehaulRate", contract.linehaulRate.map rateToJson)]

def ContractFacts.ofJson (v : Value) : Option ContractFacts := do
  let linehaulRate ← field? "linehaulRate" (nullable ContractRate.ofJson) v
  let duplicateInvoice ← field? "duplicateInvoice" boolean? v
  let shipmentReferenceMatch ← field? "shipmentReferenceMatch" boolean? v
  return ⟨linehaulRate, duplicateInvoice, shipmentReferenceMatch, []⟩

section

variable {f : Value → Value} (hf : Fieldwise f)

include hf

theorem ContractRate.ofJson_toJson (rate : ContractRate) : ContractRate.ofJson (f rate.toJson) = some rate := by
  rw [ofJson, hf.field_str (show rate.toJson.get? "amount" = some (.str rate.amount) by simp [toJson]),
    hf.field_str (show rate.toJson.get? "currency" = some (.str rate.currency) by simp [toJson]),
    hf.field (show rate.toJson.get? "clauseId" = some ((rate.clauseId.map .str).getD .null) by simp [toJson]),
    hf.nullable_str]
  rfl

theorem rate_ofJson_toJson (rate : Option ContractRate) :
    nullable ContractRate.ofJson (f (rateToJson rate)) = some rate := by
  cases rate with
  | none =>
    rw [rateToJson, Option.map_none, Option.getD_none, hf.null]
    rfl
  | some rate =>
    have hread := rate.ofJson_toJson hf
    rw [rateToJson, Option.map_some, Option.getD_some, nullable]
    · rw [hread, Option.map_some]
    · intro hnull
      rw [hnull] at hread
      cases hread

/-- Written and read back, resolved inputs are as they were. -/
theorem ContractFacts.ofJson_toJson {contract : ContractFacts} (h : contract.externalResolutions = []) :
    ContractFacts.ofJson (f contract.toJson) = some contract := by
  rw [ofJson, hf.field? (show contract.toJson.get? "linehaulRate" = contract.linehaulRate.map rateToJson by simp [toJson])
      fun rate _ => rate_ofJson_toJson hf rate,
    hf.field?_bool (show contract.toJson.get? "duplicateInvoice" = contract.duplicateInvoice.map .bool by simp [toJson]),
    hf.field?_bool (show contract.toJson.get? "shipmentReferenceMatch" = contract.shipmentReferenceMatch.map .bool by
      simp [toJson])]
  cases contract
  cases h
  rfl

end

/-! ## Results -/

def EvalValue.toJson : EvalValue → Value
  | .number value => object [("kind", some (.str "number")), ("value", some (.str value))]
  | .money amount currency =>
    object [("kind", some (.str "money")), ("amount", some (.str amount)), ("currency", some (.str currency))]
  | .bool value => object [("kind", some (.str "bool")), ("value", some (.bool value))]
  | .string value => object [("kind", some (.str "string")), ("value", some (.str value))]
  | .unassessable reason => object [("kind", some (.str "unassessable")), ("reason", some (.str reason))]

mutual

def nodeToJson : EvalNode → Value
  | .leaf node value => object [("node", some node.toJson), ("value", some (EvalValue.toJson value))]
  | .branch node value children =>
    object [("node", some node.toJson), ("value", some (EvalValue.toJson value)),
      ("children", some (.arr (nodesToJson children)))]

def nodesToJson : List EvalNode → List Value
  | [] => []
  | n :: rest => nodeToJson n :: nodesToJson rest

end

def Outcome.text : Outcome → String
  | .REJECTED_REWORK => "REJECTED_REWORK" | .SCORED => "SCORED"

def FindingResult.text : FindingResult → String
  | .CONFORMED => "CONFORMED" | .VARIANCE => "VARIANCE" | .UNASSESSABLE => "UNASSESSABLE"

def Direction.text : Direction → String
  | .OVERCHARGE => "OVERCHARGE" | .UNDERCHARGE => "UNDERCHARGE" | .INTEGRITY_ONLY => "INTEGRITY_ONLY"

def CoverageCode.text : CoverageCode → String
  | .INCOMPLETE_RATE_BASIS => "INCOMPLETE_RATE_BASIS"
  | .FUEL_WITHOUT_RATE_BASIS => "FUEL_WITHOUT_RATE_BASIS"
  | .MISSING_CHARGE_IDENTITY => "MISSING_CHARGE_IDENTITY"

def GateFailure.toJson (g : GateFailure) : Value :=
  object [("criterionKey", some (.str g.criterionKey)), ("defect", some (.str g.defect)),
    ("citation", g.citation.map .str), ("evaluatedExpr", some (nodeToJson g.evaluatedExpr))]

def ChargeFinding.toJson (finding : ChargeFinding) : Value :=
  object [("criterionKey", some (.str finding.criterionKey)), ("result", some (.str finding.result.text)),
    ("evaluatedExpr", some (nodeToJson finding.evaluatedExpr)),
    ("varianceAmount", some ((finding.varianceAmount.map .str).getD .null)),
    ("currency", some ((finding.currency.map .str).getD .null)), ("direction", some (.str finding.direction.text))]

def Scorecard.toJson (s : Scorecard) : Value :=
  object [("conformedCount", some (.ofNumber (.ofNat s.conformedCount))),
    ("varianceCount", some (.ofNumber (.ofNat s.varianceCount))),
    ("unassessableCount", some (.ofNumber (.ofNat s.unassessableCount))),
    ("totalOvercharge", some (.str s.totalOvercharge)), ("totalUndercharge", some (.str s.totalUndercharge))]

def CoverageMarker.toJson (marker : CoverageMarker) : Value :=
  object [("chargeIndex", some (.ofNumber (.ofNat marker.chargeIndex))), ("code", some (.str marker.code.text)),
    ("missingFields", some (.arr (marker.missingFields.map .str)))]

def Pins.toJson (pins : Pins) : Value :=
  object [("parserVersion", some (.str pins.parserVersion)), ("engineSpecVersion", some (.str pins.engineSpecVersion)),
    ("rubricContentHash", some (.str pins.rubricContentHash))]

def AuditResult.toJson (result : AuditResult) : Value :=
  object [("outcome", some (.str result.outcome.text)),
    ("gateFailures", some (.arr (result.gateFailures.map GateFailure.toJson))),
    ("findings", some (.arr (result.findings.map ChargeFinding.toJson))),
    ("scorecard", some ((result.scorecard.map Scorecard.toJson).getD .null)),
    ("coverageMarkers", some (.arr (result.coverageMarkers.map CoverageMarker.toJson))),
    ("pins", some result.pins.toJson)]

/-- Results under different rubric hashes have different canonical texts. -/
theorem AuditResult.canonicalText_ne {a b : AuditResult} (h : a.pins.rubricContentHash ≠ b.pins.rubricContentHash) :
    canonicalText a.toJson ≠ canonicalText b.toJson := by
  intro heq
  have hash (result : AuditResult) : ((sortKeys result.toJson).get? "pins").bind
      (fun pins => (pins.get? "rubricContentHash").bind Value.text?) = some result.pins.rubricContentHash := by
    rw [get?_sortKeys, show result.toJson.get? "pins" = some result.pins.toJson by simp [toJson], Option.map_some,
      Option.bind_some, get?_sortKeys,
      show result.pins.toJson.get? "rubricContentHash" = some (.str result.pins.rubricContentHash) by
        simp [Pins.toJson]]
    rfl
  have hread := hash a
  rw [canonicalText_inj.mp heq, hash b] at hread
  exact h (Option.some.inj hread).symm

end Evaluator
