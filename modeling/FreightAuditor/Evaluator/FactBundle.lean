import FreightAuditor.Ingestion.Parse
import FreightAuditor.RuleEngine.Interpreter

/- A parsed invoice resolved into the flat fact bundle the interpreter reads.

   The bundle is filled by assignments, a later one over an earlier one: the facts of
   the invoice, the external values, the linehaul comparison. The keys of the three
   groups are apart (`buildFactBundle_invoice`, `buildFactBundle_linehaul`), so each fact
   is the one its group assigned. -/
namespace Evaluator

open DecimalJs Ingestion JsText RuleEngine

structure ContractRate where
  amount : String
  currency : String
  clauseId : Option String
  deriving DecidableEq

/-- What a resolver of an external value answers. -/
inductive ExternalValueResolution where
  | FOUND (value externalValueId resolverVersion : String)
  | UNAVAILABLE (reason resolverVersion : String)
  deriving DecidableEq

/-- Facts the caller resolved. `linehaulRate` is absent without a contract, and `some none` where the
contract states no rate. -/
structure ContractFacts where
  linehaulRate : Option (Option ContractRate)
  duplicateInvoice : Option Bool
  shipmentReferenceMatch : Option Bool
  externalResolutions : List (String × ExternalValueResolution)
  deriving DecidableEq

inductive CoverageCode where
  | INCOMPLETE_RATE_BASIS | FUEL_WITHOUT_RATE_BASIS | MISSING_CHARGE_IDENTITY
  deriving DecidableEq

structure CoverageMarker where
  chargeIndex : ℕ
  code : CoverageCode
  missingFields : List String
  deriving DecidableEq

/-- A text that is there and not blank. -/
def stated (text : Option String) : Bool := text.any (fun t => trim t != "")

/-- The gaps of one charge. -/
def chargeMarkers (charge : NormalizedCharge) (chargeIndex : ℕ) : List CoverageMarker :=
  (if charge.rate.isSome != charge.basis.isSome then
    [⟨chargeIndex, .INCOMPLETE_RATE_BASIS, [if charge.rate.isSome then "basis" else "rate"]⟩]
  else if charge.category == some "FUEL" && !charge.rate.isSome && !charge.basis.isSome then
    [⟨chargeIndex, .FUEL_WITHOUT_RATE_BASIS, ["rate", "basis"]⟩]
  else []) ++
  if !stated charge.code && !stated charge.rawDescription then
    [⟨chargeIndex, .MISSING_CHARGE_IDENTITY, ["code", "rawDescription"]⟩]
  else []

/-- Gaps on charges that otherwise passed structural validation. -/
def findCoverageMarkers (inv : ParsedInvoice) : List CoverageMarker :=
  inv.charges.zipIdx.flatMap (fun c => chargeMarkers c.1 c.2)

/-! ## External values -/

/-- Every run of other characters becomes one underscore. -/
def underscored (inRun : Bool) : List Char → List Char
  | [] => []
  | c :: rest =>
    if ('a' ≤ c && c ≤ 'z') || ('0' ≤ c && c ≤ '9') then c :: underscored false rest
    else if inRun then underscored true rest
    else '_' :: underscored true rest

def externalValueFactKey (unicode : Unicode) (sourceCode : String) : String :=
  let chars := underscored false (unicode.toLowerCase (trim sourceCode)).toList
  "external_" ++ String.ofList ((chars.dropWhile (· == '_')).rdropWhile (· == '_'))

/-- The assignments of one resolution. Unavailable, the value stays absent, with its cause beside it. -/
def externalFacts (unicode : Unicode) (resolution : String × ExternalValueResolution) :
    List (String × Option FactValue) :=
  let key := externalValueFactKey unicode resolution.1
  match resolution.2 with
  | .FOUND value externalValueId resolverVersion =>
    [(key, some (.decimal value)), (key ++ "_resolver_version", some (.string resolverVersion)),
      (key ++ "_external_value_id", some (.string externalValueId))]
  | .UNAVAILABLE reason resolverVersion =>
    [(key ++ "_unavailable_reason", some (.string reason)),
      (key ++ "_resolver_version", some (.string resolverVersion))]

/-- Resolutions in the order of their source codes. -/
def sortedResolutions (unicode : Unicode) (contract : Option ContractFacts) :
    List (String × ExternalValueResolution) :=
  ((contract.map ContractFacts.externalResolutions).getD []).insertionSort
    (fun a b => unicode.localeCompare a.1 b.1 ≠ .gt)

/-! ## The linehaul comparison -/

/-- The charges the billed linehaul is summed over. -/
def linehaulCharges (inv : ParsedInvoice) : List NormalizedCharge :=
  inv.charges.filter (fun c => c.category == some "LINEHAUL" && !c.quarantined && c.amount.isSome)

/-- Their one currency, if they share one. -/
def billedCurrency (inv : ParsedInvoice) : Option String :=
  match linehaulCharges inv with
  | [] => none
  | first :: rest => if (first :: rest).all (fun c => c.currency == first.currency) then some first.currency else none

/-- Both sides state a currency, and the same. -/
def currenciesStatedAndEqual (billed rate : Option String) : Bool :=
  match billed, rate with
  | some b, some r => b != "" && r != "" && b == r
  | _, _ => false

section

variable (D : Type) [Decimal D]

/-- The billed linehaul: the amounts added up, if they share a currency. -/
def billedLinehaul (inv : ParsedInvoice) : Except DecimalError (Option FactValue) :=
  match billedCurrency inv with
  | none => return none
  | some currency => do
    let sum ← ((linehaulCharges inv).filterMap NormalizedCharge.amount).foldlM (addMoney D)
      (Decimal.ofNumber (.ofNat 0))
    return some (.money (Decimal.toFixed 4 sum) currency)

/-- `false` is never assigned: `require` does not stop at it. -/
def linehaulFacts (inv : ParsedInvoice) (billed : Option FactValue) (rate : Option ContractRate) :
    List (String × Option FactValue) :=
  [("billed_linehaul", billed),
    ("contract_linehaul_rate", rate.map (fun r => .money r.amount r.currency)),
    ("linehaul_currencies_match",
      if currenciesStatedAndEqual (billedCurrency inv) (rate.map ContractRate.currency) then some (.boolean true)
      else none)]

/-! ## The invoice's own facts -/

/-- A charge whose amount is its rate times its basis, within one cent. -/
def rateBasisMatches (rate basis amount : String) : Except DecimalError Bool := do
  let r ← newDecimal D rate
  let b ← newDecimal D basis
  let a ← newDecimal D amount
  let cent ← newDecimal D "0.01"
  return Decimal.lessThanOrEqualTo (Decimal.abs (Decimal.minus (Decimal.times r b) a)) cent

/-- Whether every charge that states a rate or a basis has the amount they give; absent where no charge
does, or one of them lacks a figure. -/
def rateBasisArithmeticMatches (inv : ParsedInvoice) : Except DecimalError (Option Bool) :=
  let charges := inv.charges.filter (fun c => c.rate.isSome || c.basis.isSome)
  if charges.isEmpty || charges.any (fun c => c.rate.isNone || c.basis.isNone || c.amount.isNone) then
    return none
  else do
    let ok ← charges.allM (fun c => rateBasisMatches D (c.rate.getD "") (c.basis.getD "") (c.amount.getD ""))
    return some ok

end

/-- `/^[A-Z]{3}$/` -/
def isCurrencyCode (currency : String) : Bool :=
  currency.toList.length == 3 && currency.toList.all (fun c => 'A' ≤ c && c ≤ 'Z')

/-- A field an invoice of the transaction set must state. -/
def requiredIn (set : TransactionSet) (inv : ParsedInvoice) (test : Bool) : FactValue :=
  .boolean (inv.transactionSet != set || test)

/-- How many references are listed. -/
def count (references : Option (List String)) : ℕ := (references.getD []).length

def invoiceFacts (inv : ParsedInvoice) (contract : Option ContractFacts) (lineSum : String)
    (rateBasis : Option Bool) : List (String × Option FactValue) :=
  [("declared_total", (inv.footing.bind Footing.declaredTotal).map
      (fun total => .money total (inv.headerCurrency.getD ""))),
    ("line_sum", some (.money lineSum (inv.headerCurrency.getD ""))),
    ("all_currencies_stated", some (.boolean (inv.charges.all (fun c => c.currency != "")))),
    ("all_amounts_stated", some (.boolean (inv.charges.all (fun c => c.amount.isSome)))),
    ("charge_count", some (.number (.ofNat inv.charges.length))),
    ("quarantined_count", some (.number (.ofNat (inv.charges.filter NormalizedCharge.quarantined).length))),
    ("has_fuel_category", some (.boolean (inv.charges.any (fun c => c.category == some "FUEL")))),
    ("duplicate_invoice", (contract.bind ContractFacts.duplicateInvoice).map .boolean),
    ("shipment_reference_match", (contract.bind ContractFacts.shipmentReferenceMatch).map .boolean),
    ("rate_basis_arithmetic_matches", rateBasis.map .boolean),
    ("required_210_invoice_number", some (requiredIn .edi210 inv (stated inv.invoiceNumber))),
    ("required_210_shipment_id", some (requiredIn .edi210 inv (count inv.shipmentReferences != 0))),
    ("required_210_scac", some (requiredIn .edi210 inv (stated inv.carrierCode))),
    ("required_310_invoice_number", some (requiredIn .edi310 inv (stated inv.invoiceNumber))),
    ("required_310_reference", some (requiredIn .edi310 inv (count inv.shipmentReferences != 0))),
    ("required_310_container", some (requiredIn .edi310 inv (count inv.containerNumbers != 0))),
    ("required_310_vessel_voyage", some (requiredIn .edi310 inv (stated inv.vesselVoyage))),
    ("required_310_ports", some (requiredIn .edi310 inv (2 ≤ count inv.portCodes))),
    ("required_310_charge_identity", some (requiredIn .edi310 inv
      (inv.charges.all (fun c => stated c.code || stated c.rawDescription)))),
    ("valid_310_currency_codes", some (requiredIn .edi310 inv
      (inv.charges.all (fun c => isCurrencyCode c.currency)))),
    ("consistent_310_charge_currencies",
      if inv.transactionSet != .edi310 then none
      else some (.boolean (inv.charges.all (fun c => some c.currency == inv.charges.head?.map NormalizedCharge.currency)))),
    ("suspicious_missing_data_count", some (.number (.ofNat (findCoverageMarkers inv).length)))]

/-! ## The bundle -/

/-- `bundle[key] = value`. -/
def assign (facts : FactBundle) (entry : String × Option FactValue) : FactBundle :=
  fun key => if key = entry.1 then entry.2 else facts key

def assignAll (facts : FactBundle) (entries : List (String × Option FactValue)) : FactBundle :=
  entries.foldl assign facts

def buildFactBundle (D : Type) [Decimal D] (unicode : Unicode) (inv : ParsedInvoice)
    (contract : Option ContractFacts) : Except DecimalError FactBundle := do
  let rateBasis ← rateBasisArithmeticMatches D inv
  let lineSum ← newDecimal D ((inv.footing.map Footing.lineSum).getD "0.0000")
  let bundle := assignAll (fun _ => none) (invoiceFacts inv contract (Decimal.toFixed 4 lineSum) rateBasis)
  let bundle := assignAll bundle ((sortedResolutions unicode contract).flatMap (externalFacts unicode))
  match contract.bind ContractFacts.linehaulRate with
  | none => return bundle
  | some rate =>
    let billed ← billedLinehaul D inv
    return assignAll bundle (linehaulFacts inv billed rate)

theorem assignAll_other {entries : List (String × Option FactValue)} {key : String}
    (h : ∀ e ∈ entries, e.1 ≠ key) : ∀ facts : FactBundle, assignAll facts entries key = facts key := by
  induction entries with
  | nil => exact fun _ => rfl
  | cons e rest ih =>
    intro facts
    rw [assignAll, List.foldl_cons, ← assignAll, ih (fun e he => h e (List.mem_cons_of_mem _ he)), assign,
      if_neg (h e List.mem_cons_self).symm]

/-- The keys of external values begin alike. -/
theorem externalFacts_key {unicode : Unicode} {resolution : String × ExternalValueResolution} :
    ∀ e ∈ externalFacts unicode resolution, "external_".toList <+: e.1.toList := by
  have hkey : ∀ suffix, "external_".toList <+: (externalValueFactKey unicode resolution.1 ++ suffix).toList := by
    intro suffix
    simp only [externalValueFactKey, String.toList_append, List.append_assoc]
    exact List.prefix_append _ _
  have hbare : "external_".toList <+: (externalValueFactKey unicode resolution.1).toList := by
    have h := hkey ""
    rwa [String.append_empty] at h
  intro e he
  unfold externalFacts at he
  split at he <;> simp only [List.mem_cons, List.not_mem_nil, or_false] at he
  · rcases he with rfl | rfl | rfl
    · exact hbare
    · exact hkey _
    · exact hkey _
  · rcases he with rfl | rfl <;> exact hkey _

/-! ## Which facts the bundle holds -/

theorem assignAll_mem {entries : List (String × Option FactValue)} (hkeys : (entries.map Prod.fst).Nodup) :
    ∀ (facts : FactBundle) {key : String} {v : Option FactValue}, (key, v) ∈ entries →
      assignAll facts entries key = v := by
  induction entries with
  | nil => simp
  | cons e rest ih =>
    intro facts key v hmem
    obtain ⟨hnot, hrest⟩ := List.nodup_cons.mp hkeys
    rw [assignAll, List.foldl_cons, ← assignAll]
    rcases List.mem_cons.mp hmem with rfl | hmem
    · have hother : ∀ e ∈ rest, e.1 ≠ key := by
        rintro e he rfl
        exact hnot (List.mem_map.mpr ⟨e, he, rfl⟩)
      rw [assignAll_other hother, assign, if_pos rfl]
    · exact ih hrest _ hmem

def invoiceKeys : List String :=
  ["declared_total", "line_sum", "all_currencies_stated", "all_amounts_stated", "charge_count",
    "quarantined_count", "has_fuel_category", "duplicate_invoice", "shipment_reference_match",
    "rate_basis_arithmetic_matches", "required_210_invoice_number", "required_210_shipment_id",
    "required_210_scac", "required_310_invoice_number", "required_310_reference", "required_310_container",
    "required_310_vessel_voyage", "required_310_ports", "required_310_charge_identity",
    "valid_310_currency_codes", "consistent_310_charge_currencies", "suspicious_missing_data_count"]

def linehaulKeys : List String := ["billed_linehaul", "contract_linehaul_rate", "linehaul_currencies_match"]

theorem keys_apart : (invoiceKeys ++ linehaulKeys).Nodup ∧
    ∀ key ∈ invoiceKeys ++ linehaulKeys, ¬ "external_".toList <+: key.toList := by decide +kernel

variable {D : Type} [Decimal D] {unicode : Unicode} {inv : ParsedInvoice} {contract : Option ContractFacts}
  {facts : FactBundle}

theorem assignAll_external {key : String} (hkey : key ∈ invoiceKeys ++ linehaulKeys)
    (resolutions : List (String × ExternalValueResolution)) (bundle : FactBundle) :
    assignAll bundle (resolutions.flatMap (externalFacts unicode)) key = bundle key := by
  refine assignAll_other (fun e he heq => ?_) bundle
  obtain ⟨r, -, hr⟩ := List.mem_flatMap.mp he
  exact keys_apart.2 key hkey (heq ▸ externalFacts_key e hr)

/-- The facts of the invoice are in the bundle as they were assigned. -/
theorem buildFactBundle_invoice (h : buildFactBundle D unicode inv contract = .ok facts) :
    ∃ (rateBasis : Option Bool) (lineSum : D),
      newDecimal D ((inv.footing.map Footing.lineSum).getD "0.0000") = .ok lineSum ∧
      ∀ key v, (key, v) ∈ invoiceFacts inv contract (Decimal.toFixed 4 lineSum) rateBasis → facts key = v := by
  simp only [buildFactBundle, ExceptOk.bind_eq_ok] at h
  obtain ⟨rateBasis, -, lineSum, hline, h⟩ := h
  refine ⟨rateBasis, lineSum, hline, fun key v hmem => ?_⟩
  have hkey : key ∈ invoiceKeys := List.mem_map_of_mem (f := Prod.fst) hmem
  have hkeys : ((invoiceFacts inv contract (Decimal.toFixed 4 lineSum) rateBasis).map Prod.fst).Nodup :=
    (List.nodup_append.mp keys_apart.1).1
  have hbase := fun bundle : FactBundle => assignAll_mem hkeys bundle hmem
  split at h
  · obtain rfl := ExceptOk.pure_eq_ok.mp h
    rw [assignAll_external (List.mem_append_left _ hkey), hbase]
  · simp only [ExceptOk.bind_eq_ok, ExceptOk.pure_eq_ok] at h
    obtain ⟨billed, -, rfl⟩ := h
    rw [assignAll_other, assignAll_external (List.mem_append_left _ hkey), hbase]
    rintro e he rfl
    exact (List.nodup_append.mp keys_apart.1).2.2 e.1 hkey e.1
      (List.mem_map_of_mem (f := Prod.fst) he) rfl

/-- The facts of the linehaul comparison are in the bundle as they were assigned. -/
theorem buildFactBundle_linehaul (h : buildFactBundle D unicode inv contract = .ok facts)
    {rate : Option ContractRate} (hrate : contract.bind ContractFacts.linehaulRate = some rate) :
    ∃ billed, billedLinehaul D inv = .ok billed ∧
      ∀ key v, (key, v) ∈ linehaulFacts inv billed rate → facts key = v := by
  simp only [buildFactBundle, ExceptOk.bind_eq_ok, hrate, ExceptOk.pure_eq_ok] at h
  obtain ⟨rateBasis, -, lineSum, -, billed, hbilled, rfl⟩ := h
  have hkeys : ((linehaulFacts inv billed rate).map Prod.fst).Nodup := (List.nodup_append.mp keys_apart.1).2.1
  exact ⟨billed, hbilled, fun key v hmem => assignAll_mem hkeys _ hmem⟩

/-- Without a contract there is no linehaul comparison. -/
theorem buildFactBundle_noLinehaul (h : buildFactBundle D unicode inv contract = .ok facts)
    (hrate : contract.bind ContractFacts.linehaulRate = none) {key : String} (hkey : key ∈ linehaulKeys) :
    facts key = none := by
  simp only [buildFactBundle, ExceptOk.bind_eq_ok, hrate, ExceptOk.pure_eq_ok] at h
  obtain ⟨rateBasis, -, lineSum, -, rfl⟩ := h
  rw [assignAll_external (List.mem_append_right _ hkey), assignAll_other]
  rintro e he rfl
  exact (List.nodup_append.mp keys_apart.1).2.2 e.1 (List.mem_map_of_mem (f := Prod.fst) he) e.1 hkey rfl

end Evaluator
