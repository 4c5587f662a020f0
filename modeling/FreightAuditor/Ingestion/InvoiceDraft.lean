import FreightAuditor.Ingestion.ChargeFact

/- What an analyst may submit as the corrected invoice of a draft. -/
namespace Ingestion

open DecimalText

/-- `/^-?\d+(\.\d+)?$/` -/
def isDecimalText (text : String) : Bool :=
  match text.toList with
  | '-' :: cs => isPlainDecimal cs
  | cs => isPlainDecimal cs

def correctedCharge (c : NormalizedCharge) : Bool :=
  c.amount.all isDecimalText && c.currency != ""

def correctedFooting (f : Footing) : Bool :=
  f.declaredTotal.all isDecimalText && isDecimalText f.lineSum

/-- Listed references are not empty. -/
def nonEmptyReferences (references : Option (List String)) : Bool :=
  references.all (fun l => l.all (fun r => r != ""))

/-- The line sum is whatever the analyst states. -/
def CorrectedInvoiceSchema (inv : ParsedInvoice) : Bool :=
  inv.transactionSet == .pdf && inv.parserVersion == "pdf-llm-v1" &&
    nonEmptyReferences inv.shipmentReferences && nonEmptyReferences inv.containerNumbers &&
    nonEmptyReferences inv.portCodes && !inv.charges.isEmpty && inv.charges.all correctedCharge &&
    inv.footing.all correctedFooting

theorem exactValue_isDecimalText {text : String} (h : isDecimalText text = true) : (exactValue text).isSome := by
  unfold isDecimalText at h
  unfold exactValue
  split at h
  · rename_i cs hcs
    obtain ⟨d, -, hneg⟩ := literal?_plain h
    rw [hcs, hneg]
    rfl
  · obtain ⟨d, hpos, -⟩ := literal?_plain h
    rw [hpos]
    rfl

end Ingestion
