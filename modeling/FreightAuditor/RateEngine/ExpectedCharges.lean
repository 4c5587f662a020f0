import FreightAuditor.Library.Collation
import FreightAuditor.RateEngine.GroupedVariance

/- Generation of the expected charges.

   Each specification states a flat amount, or a rate and a basis. What is stored beside the
   amount is what it was computed from, at four decimals; the amount itself is computed
   from the figures as they were given. Whether the stored figures give the stored amount therefore
   depends on what the roundings drop (`Reproducible`). -/
namespace RateEngine

open DecimalJs DecimalRounding DecimalText ExceptOk JsText
open Evaluator (isCurrencyCode)

inductive ExpectedChargeCalculation where
  | FLAT (amount : String)
  | RATE_TIMES_BASIS (rate basis : String)
  deriving DecidableEq

structure ExpectedChargeSpec where
  sourceKey : String
  category : String
  currency : String
  chargeFactId : Option String
  clauseId : Option String
  rateCellId : Option String
  sourceDocumentId : Option String
  calculation : ExpectedChargeCalculation
  deriving DecidableEq

structure GeneratedExpectedCharge where
  idempotencyKey : String
  sourceKey : String
  category : String
  currency : String
  expectedAmount : String
  chargeFactId : Option String
  clauseId : Option String
  rateCellId : Option String
  sourceDocumentId : Option String
  calculation : ExpectedChargeCalculation
  deriving DecidableEq

section

variable (D : Type) [Decimal D]

/-- A non-negative finite decimal. -/
def decimal (value field : String) : Except RateEngineError D :=
  match (Decimal.ofString value : Option D) with
  | none => throw ⟨field ++ " must be a decimal"⟩
  | some parsed =>
    if Decimal.isFinite parsed = false ∨ Decimal.isNegative parsed = true then
      throw ⟨field ++ " must be a non-negative finite decimal"⟩
    else return parsed

/-- The amount, and the figures as they are stored. -/
def calculate (sourceKey : String) : ExpectedChargeCalculation → Except RateEngineError (D × ExpectedChargeCalculation)
  | .FLAT amount => do
    let flatAmount ← decimal D amount (sourceKey ++ ".amount")
    return (flatAmount, .FLAT (Decimal.toFixed 4 flatAmount))
  | .RATE_TIMES_BASIS rate basis => do
    let rate ← decimal D rate (sourceKey ++ ".rate")
    let basis ← decimal D basis (sourceKey ++ ".basis")
    return (Decimal.times rate basis, .RATE_TIMES_BASIS (Decimal.toFixed 4 rate) (Decimal.toFixed 4 basis))

variable [DecimalPlaces D] (sha256 : String → String) (toUpperCase : String → String)

def idempotencyKey (sourceKey : String) : String :=
  sha256 (String.ofList (Json.render (.obj [("sourceKey", .str sourceKey)])))

/-- One specification, after those with the keys `seen`. -/
def generateCharge (seen : List String) (spec : ExpectedChargeSpec) : Except RateEngineError GeneratedExpectedCharge := do
  let sourceKey := trim spec.sourceKey
  let category := toUpperCase (trim spec.category)
  let currency := toUpperCase (trim spec.currency)
  if sourceKey = "" then throw ⟨"sourceKey is required"⟩
  if category = "" then throw ⟨"category is required"⟩
  if isCurrencyCode currency = false then throw ⟨"invalid currency for " ++ sourceKey⟩
  if sourceKey ∈ seen then throw ⟨"duplicate expected-charge sourceKey: " ++ sourceKey⟩
  let (amount, calculation) ← calculate D sourceKey spec.calculation
  return {
    idempotencyKey := idempotencyKey sha256 sourceKey
    sourceKey := sourceKey
    category := category
    currency := currency
    expectedAmount := Decimal.toFixed 4 (DecimalPlaces.toDecimalPlaces 4 amount)
    chargeFactId := spec.chargeFactId
    clauseId := spec.clauseId
    rateCellId := spec.rateCellId
    sourceDocumentId := spec.sourceDocumentId
    calculation := calculation }

def addGenerated (generated : List GeneratedExpectedCharge) (spec : ExpectedChargeSpec) :
    Except RateEngineError (List GeneratedExpectedCharge) := do
  let charge ← generateCharge D sha256 toUpperCase (generated.map GeneratedExpectedCharge.sourceKey) spec
  return generated ++ [charge]

variable (localeCompare : String → String → Ordering)

def compareCharges : GeneratedExpectedCharge → GeneratedExpectedCharge → Ordering :=
  compareLex (fun a b => localeCompare a.category b.category) (fun a b => localeCompare a.sourceKey b.sourceKey)

def generateExpectedCharges (specs : List ExpectedChargeSpec) : Except RateEngineError (List GeneratedExpectedCharge) := do
  let generated ← specs.foldlM (addGenerated D sha256 toUpperCase) []
  return StableSort.sort (compareCharges localeCompare) generated

end

/-! ## What is claimed -/

/-- The number a text is read as. -/
def Reads (D : Type) [Decimal D] (text : String) (q : ℚ) : Prop :=
  ∃ d : D, Decimal.ofString text = some d ∧ Decimal.val d = .fin q

/-- The exact amount of a calculation. -/
def ExactAmount (D : Type) [Decimal D] : ExpectedChargeCalculation → ℚ → Prop
  | .FLAT amount, q => Reads D amount q
  | .RATE_TIMES_BASIS rate basis, q => ∃ r b, Reads D rate r ∧ Reads D basis b ∧ q = r * b

/-- The amount computed once more from the stored figures. -/
def storedAmount (D : Type) [Decimal D] : ExpectedChargeCalculation → Option D
  | .FLAT amount => Decimal.ofString amount
  | .RATE_TIMES_BASIS rate basis => do
    let r ← Decimal.ofString rate
    let b ← Decimal.ofString basis
    return Decimal.times r b

def recomputed (D : Type) [Decimal D] [DecimalPlaces D] (calculation : ExpectedChargeCalculation) : Option String :=
  (storedAmount D calculation).map fun amount => Decimal.toFixed 4 (DecimalPlaces.toDecimalPlaces 4 amount)

/-- The charge is that of the specification, but for its amount and the stored figures. -/
structure GeneratedExpectedCharge.Of (toUpperCase : String → String) (charge : GeneratedExpectedCharge) (spec : ExpectedChargeSpec) :
    Prop where
  sourceKey : charge.sourceKey = trim spec.sourceKey
  category : charge.category = toUpperCase (trim spec.category)
  currency : charge.currency = toUpperCase (trim spec.currency)
  chargeFactId : charge.chargeFactId = spec.chargeFactId
  clauseId : charge.clauseId = spec.clauseId
  rateCellId : charge.rateCellId = spec.rateCellId
  sourceDocumentId : charge.sourceDocumentId = spec.sourceDocumentId

/-- The amount is the exact one at four decimals, and the stored figures give it again. -/
structure Evidenced (D : Type) [Decimal D] [DecimalPlaces D] (spec : ExpectedChargeSpec) (charge : GeneratedExpectedCharge) : Prop where
  exact : ∃ q, ExactAmount D spec.calculation q ∧ exactValue charge.expectedAmount = some (roundDp 4 q)
  again : recomputed D charge.calculation = some charge.expectedAmount

/-- One charge for each specification, each with its evidence, and their order does not show. -/
structure Generates (D : Type) [Decimal D] [DecimalPlaces D] (sha256 toUpperCase : String → String)
    (localeCompare : String → String → Ordering) (specs : List ExpectedChargeSpec) (charges : List GeneratedExpectedCharge) : Prop where
  permuted : ∃ generated, charges.Perm generated ∧
    List.Forall₂ (fun spec charge => charge.Of toUpperCase spec ∧ Evidenced D spec charge) specs generated
  sourceKeys : (charges.map GeneratedExpectedCharge.sourceKey).Nodup
  idempotencyKeys : (charges.map GeneratedExpectedCharge.idempotencyKey).Nodup
  unordered : ∀ specs', specs'.Perm specs → generateExpectedCharges D sha256 toUpperCase localeCompare specs' = .ok charges

/-! ## When it is so -/

/-- What decimal.js makes of an exact value is no infinity. -/
def InRange (q : ℚ) : Prop := (Val.ofExact q).isFinite = true

/-- In 20 digits, the number is nearest to the units that the exact amount is nearest to. -/
structure Near (amount computed : ℚ) : Prop where
  low : (units amount : ℚ) - 1 / 2 ≤ roundSig precision computed * 10 ^ 4
  high : roundSig precision computed * 10 ^ 4 < units amount + 1 / 2
  range : InRange (roundSig precision computed)

/-- The product of the figures, and the product of the figures at four decimals, are nearest to one number of units. -/
structure Reproducible (rate basis : ℚ) : Prop where
  rateRange : InRange (roundDp 4 rate)
  basisRange : InRange (roundDp 4 basis)
  product : Near (rate * basis) (rate * basis)
  stored : Near (rate * basis) (roundDp 4 rate * roundDp 4 basis)

/-- A flat amount only has to be in range. -/
def Faithful (D : Type) [Decimal D] : ExpectedChargeCalculation → Prop
  | .FLAT amount => ∃ q, Reads D amount q ∧ InRange (roundDp 4 q)
  | .RATE_TIMES_BASIS rate basis => ∃ r b, Reads D rate r ∧ Reads D basis b ∧ Reproducible r b

/-- No two have categories and keys that the collation does not tell apart. -/
def Collated (toUpperCase : String → String) (localeCompare : String → String → Ordering) (specs : List ExpectedChargeSpec) : Prop :=
  specs.Pairwise fun a b =>
    ¬ (localeCompare (toUpperCase (trim a.category)) (toUpperCase (trim b.category)) = .eq ∧
      localeCompare (trim a.sourceKey) (trim b.sourceKey) = .eq)

/-! ## One amount -/

section

variable {D : Type} [Decimal D]

theorem decimal_eq_ok {value field : String} {d : D} : decimal D value field = .ok d ↔
    Decimal.ofString value = some d ∧ Decimal.isFinite d = true ∧ Decimal.isNegative d = false := by
  unfold decimal
  cases h : (Decimal.ofString value : Option D) with
  | none => exact iff_of_false throw_ne_ok fun h => by cases h.1
  | some parsed =>
    simp only [ite_throw_eq_ok, pure_eq_ok, Option.some.injEq, not_or, Bool.not_eq_false, Bool.not_eq_true]
    constructor
    · rintro ⟨⟨hfinite, hsign⟩, rfl⟩
      exact ⟨rfl, hfinite, hsign⟩
    · rintro ⟨rfl, hfinite, hsign⟩
      exact ⟨⟨hfinite, hsign⟩, rfl⟩

/-- The number of an accepted figure. -/
theorem decimal_reads {value field : String} {d : D} (h : decimal D value field = .ok d) :
    ∃ q, Reads D value q ∧ Decimal.val d = .fin q ∧ 0 ≤ q := by
  obtain ⟨hread, hfinite, hsign⟩ := decimal_eq_ok.mp h
  obtain ⟨q, hq⟩ := Val.isFinite_iff.mp hfinite
  refine ⟨q, ⟨d, hread, hq⟩, hq, ?_⟩
  by_contra hneg
  have hne : q ≠ 0 := fun heq => hneg (heq ▸ le_refl _)
  rw [Decimal.isNegative_finite d q hq hne, decide_eq_false_iff_not] at hsign
  exact hneg (not_lt.mp hsign)

theorem Reads.unique {text : String} {q q' : ℚ} (h : Reads D text q) (h' : Reads D text q') : q = q' := by
  obtain ⟨d, hd, hval⟩ := h
  obtain ⟨d', hd', hval'⟩ := h'
  obtain rfl := Option.some.inj (hd.symm.trans hd')
  exact Val.fin.inj (hval.symm.trans hval')

theorem inRange_iff {q : ℚ} : InRange q ↔ ∃ x, Val.ofExact q = .fin x := Val.isFinite_iff

/-- A whole number of units that is in range is itself there. -/
theorem inRange_units {q : ℚ} (h : InRange (roundDp 4 q)) : Val.ofExact (roundDp 4 q) = .fin (roundDp 4 q) := by
  obtain ⟨x, hx⟩ := inRange_iff.mp h
  obtain ⟨n, hn⟩ := roundDp_units 4 q
  have hsame : x = roundDp 4 q := by
    rw [hn] at hx ⊢
    exact Val.ofExact_units (by decide) hx
  rw [hx, hsame]

theorem units_eq_iff {y : ℚ} (hy : 0 ≤ y) {n : ℤ} : units y = n ↔ (n : ℚ) - 1 / 2 ≤ y * 10 ^ 4 ∧ y * 10 ^ 4 < n + 1 / 2 := by
  rw [units, roundHalfUp, if_pos (by positivity), Int.floor_eq_iff]
  constructor
  · exact fun h => ⟨by linarith [h.1], by linarith [h.2]⟩
  · exact fun h => ⟨by linarith [h.1], by linarith [h.2]⟩

theorem near_iff {amount computed : ℚ} (hpos : 0 ≤ computed) :
    Near amount computed ↔ InRange (roundSig precision computed) ∧ units (roundSig precision computed) = units amount := by
  rw [units_eq_iff (roundSig_nonneg (by decide) hpos)]
  exact ⟨fun h => ⟨h.range, h.low, h.high⟩, fun h => ⟨h.2.1, h.2.2, h.1⟩⟩

variable [DecimalPlaces D]

omit [Decimal D] [DecimalPlaces D] in
theorem roundDp_nonneg {q : ℚ} (h : 0 ≤ q) : 0 ≤ roundDp 4 q := by
  have hunits : 0 ≤ units q := roundHalfUp_nonneg (mul_nonneg h (by positivity))
  rw [roundDp_units_eq]
  exact div_nonneg (by exact_mod_cast hunits) (by positivity)

/-- What becomes of a product at four decimals. -/
theorem product_places {d : D} {x : ℚ} (hval : Decimal.val d = Val.ofExact (roundSig precision x)) :
    (InRange (roundSig precision x) →
      Decimal.val (DecimalPlaces.toDecimalPlaces 4 d) = .fin ((units (roundSig precision x) : ℚ) / 10 ^ 4)) ∧
    (¬ InRange (roundSig precision x) → (Decimal.val (DecimalPlaces.toDecimalPlaces 4 d)).isFinite = false) := by
  constructor
  · intro hin
    obtain ⟨q, hq⟩ := inRange_iff.mp hin
    rw [hq] at hval
    rw [DecimalPlaces.val_toDecimalPlaces 4 d q hval]
    rcases Val.ofExact_fin hq with hfull | hzero
    · rw [ofExact_roundDp_roundSig hfull (Decimal.val_inRange _ _ hval), roundDp_units_eq, hfull]
    · rw [hzero] at hq ⊢
      have hscaled := roundDp_scaled 4 0
      rw [units_underflow hq, Int.cast_zero, zero_div, show roundDp 4 0 = 0 by simpa using hscaled, Val.ofExact_zero]
  · intro hnot
    have hinfinite : (Decimal.val d).isFinite = false := by
      rw [hval]
      exact Bool.eq_false_iff.mpr hnot
    rw [DecimalPlaces.val_nonFinite 4 d hinfinite, hinfinite]

omit [DecimalPlaces D] in
theorem exactValue_infinite {d : D} (h : (Decimal.val d).isFinite = false) : exactValue (Decimal.toFixed 4 d) = none := by
  rw [Decimal.toFixed_nonFinite 4 d h]
  exact Ingestion.exactValue_nonFinite h

/-- The amount of a product, where it is exact. -/
theorem product_exact {d : D} {x : ℚ} (hval : Decimal.val d = Val.ofExact (roundSig precision x)) (hpos : 0 ≤ x) {amount : ℚ} :
    exactValue (Decimal.toFixed 4 (DecimalPlaces.toDecimalPlaces 4 d)) = some (roundDp 4 amount) ↔ Near amount x := by
  rw [near_iff hpos]
  obtain ⟨hinside, houtside⟩ := product_places hval
  by_cases hin : InRange (roundSig precision x)
  · rw [Ingestion.exactValue_toFixed (hinside hin), ← roundDp_units_eq, roundDp_idem, Option.some.injEq, roundDp_units_eq,
      roundDp_units_eq, div_left_inj' (by norm_num), Int.cast_inj]
    exact (and_iff_right hin).symm
  · rw [exactValue_infinite (houtside hin)]
    exact iff_of_false (fun h => by cases h) fun h => hin h.1

/-- The text of a product, where it is near some units. -/
theorem product_text {d d' : D} {x x' amount : ℚ} (hval : Decimal.val d = Val.ofExact (roundSig precision x)) (hpos : 0 ≤ x)
    (hval' : Decimal.val d' = Val.ofExact (roundSig precision x')) (hpos' : 0 ≤ x') (h : Near amount x) :
    Decimal.toFixed 4 (DecimalPlaces.toDecimalPlaces 4 d') = Decimal.toFixed 4 (DecimalPlaces.toDecimalPlaces 4 d) ↔ Near amount x' := by
  constructor
  · intro htext
    rw [← product_exact hval' hpos', htext]
    exact (product_exact hval hpos).mpr h
  · intro h'
    obtain ⟨hin, hunits⟩ := (near_iff hpos).mp h
    obtain ⟨hin', hunits'⟩ := (near_iff hpos').mp h'
    refine Decimal.toFixed_congr ?_
    rw [(product_places hval').1 hin', (product_places hval).1 hin, hunits, hunits']

omit [DecimalPlaces D] in
/-- A figure at four decimals is read back so, or as an infinity. -/
theorem toFixed_read {d : D} {q : ℚ} (hval : Decimal.val d = .fin q) :
    ∃ d' : D, Decimal.ofString (Decimal.toFixed 4 d) = some d' ∧ Decimal.val d' = Val.ofExact (roundDp 4 q) :=
  Decimal.toFixed_reads hval

/-- The evidence of a flat amount. -/
theorem flat_evidenced {d : D} {q : ℚ} (hval : Decimal.val d = .fin q) :
    (exactValue (Decimal.toFixed 4 (DecimalPlaces.toDecimalPlaces 4 d)) = some (roundDp 4 q) ↔ InRange (roundDp 4 q)) ∧
    (InRange (roundDp 4 q) → recomputed D (.FLAT (Decimal.toFixed 4 d)) =
      some (Decimal.toFixed 4 (DecimalPlaces.toDecimalPlaces 4 d))) := by
  have hplaces := DecimalPlaces.val_toDecimalPlaces 4 d q hval
  constructor
  · constructor
    · intro htext
      by_contra hnot
      have hinfinite : (Decimal.val (DecimalPlaces.toDecimalPlaces 4 d)).isFinite = false := by
        rw [hplaces]
        exact Bool.eq_false_iff.mpr hnot
      rw [exactValue_infinite hinfinite] at htext
      cases htext
    · intro hin
      rw [inRange_units hin] at hplaces
      rw [Ingestion.exactValue_toFixed hplaces, roundDp_idem]
  · intro hin
    rw [inRange_units hin] at hplaces
    obtain ⟨d', hd', hval'⟩ := toFixed_read hval
    rw [inRange_units hin] at hval'
    rw [recomputed, storedAmount, hd', Option.map_some, Option.some.injEq]
    refine Decimal.toFixed_congr ?_
    rw [DecimalPlaces.val_toDecimalPlaces 4 d' _ hval', roundDp_idem, inRange_units hin, hplaces]

theorem mul_finite {a b : Val} {q : ℚ} (h : a.mul b = .fin q) : ∃ x y, a = .fin x ∧ b = .fin y := by
  cases a <;> cases b <;> simp only [Val.mul] at h <;> first | exact ⟨_, _, rfl, rfl⟩ | (split at h <;> cases h) | cases h

/-- The evidence of a rate and a basis. -/
theorem product_evidenced {rate basis : D} {r b : ℚ} (hr : Decimal.val rate = .fin r) (hb : Decimal.val basis = .fin b)
    (hrpos : 0 ≤ r) (hbpos : 0 ≤ b) :
    (exactValue (Decimal.toFixed 4 (DecimalPlaces.toDecimalPlaces 4 (Decimal.times rate basis))) = some (roundDp 4 (r * b)) ∧
      recomputed D (.RATE_TIMES_BASIS (Decimal.toFixed 4 rate) (Decimal.toFixed 4 basis)) =
        some (Decimal.toFixed 4 (DecimalPlaces.toDecimalPlaces 4 (Decimal.times rate basis)))) ↔ Reproducible r b := by
  have hval : Decimal.val (Decimal.times rate basis) = Val.ofExact (roundSig precision (r * b)) := by
    rw [Decimal.val_times, hr, hb, Val.mul_fin]
  have hpos : 0 ≤ r * b := mul_nonneg hrpos hbpos
  obtain ⟨rate', hrate', hr'⟩ := toFixed_read hr
  obtain ⟨basis', hbasis', hb'⟩ := toFixed_read hb
  have hpos' : 0 ≤ roundDp 4 r * roundDp 4 b := mul_nonneg (roundDp_nonneg hrpos) (roundDp_nonneg hbpos)
  have hstored : InRange (roundDp 4 r) → InRange (roundDp 4 b) →
      Decimal.val (Decimal.times rate' basis') = Val.ofExact (roundSig precision (roundDp 4 r * roundDp 4 b)) := by
    intro hrin hbin
    rw [Decimal.val_times, hr', hb', inRange_units hrin, inRange_units hbin, Val.mul_fin]
  have hagain : recomputed D (.RATE_TIMES_BASIS (Decimal.toFixed 4 rate) (Decimal.toFixed 4 basis)) =
      some (Decimal.toFixed 4 (DecimalPlaces.toDecimalPlaces 4 (Decimal.times rate' basis'))) := by
    rw [recomputed, storedAmount, hrate', hbasis']
    rfl
  rw [hagain, product_exact hval hpos, Option.some.injEq]
  constructor
  · rintro ⟨hnear, htext⟩
    -- the text of the amount is that of a number, so that neither figure was read as an infinity
    have hexact := (product_exact hval hpos).mpr hnear
    have hfinite : (Decimal.val (Decimal.times rate' basis')).isFinite = true := by
      by_contra hnot
      rw [Bool.not_eq_true] at hnot
      have hplaces : (Decimal.val (DecimalPlaces.toDecimalPlaces 4 (Decimal.times rate' basis'))).isFinite = false := by
        rw [DecimalPlaces.val_nonFinite 4 _ hnot, hnot]
      rw [← htext, exactValue_infinite hplaces] at hexact
      cases hexact
    obtain ⟨q, hq⟩ := Val.isFinite_iff.mp hfinite
    rw [Decimal.val_times] at hq
    obtain ⟨x, y, hx, hy⟩ := mul_finite hq
    have hrin : InRange (roundDp 4 r) := inRange_iff.mpr ⟨x, hr'.symm.trans hx⟩
    have hbin : InRange (roundDp 4 b) := inRange_iff.mpr ⟨y, hb'.symm.trans hy⟩
    exact ⟨hrin, hbin, hnear, (product_text hval hpos (hstored hrin hbin) hpos' hnear).mp htext⟩
  · intro h
    exact ⟨h.product, (product_text hval hpos (hstored h.rateRange h.basisRange) hpos' h.product).mpr h.stored⟩

/-! ## All specifications -/

variable {sha256 toUpperCase : String → String} {localeCompare : String → String → Ordering}
  {specs : List ExpectedChargeSpec} {spec : ExpectedChargeSpec} {generated charges : List GeneratedExpectedCharge}
  {charge : GeneratedExpectedCharge} {seen : List String}

theorem generateCharge_eq_ok : generateCharge D sha256 toUpperCase seen spec = .ok charge ↔
    trim spec.sourceKey ≠ "" ∧ toUpperCase (trim spec.category) ≠ "" ∧ isCurrencyCode (toUpperCase (trim spec.currency)) ≠ false ∧
      trim spec.sourceKey ∉ seen ∧ ∃ amount calculation, calculate D (trim spec.sourceKey) spec.calculation = .ok (amount, calculation) ∧
        charge = ⟨idempotencyKey sha256 (trim spec.sourceKey), trim spec.sourceKey, toUpperCase (trim spec.category),
          toUpperCase (trim spec.currency), Decimal.toFixed 4 (DecimalPlaces.toDecimalPlaces 4 amount), spec.chargeFactId,
          spec.clauseId, spec.rateCellId, spec.sourceDocumentId, calculation⟩ := by
  simp only [generateCharge, throw_bind, ite_throw_eq_ok, bind_eq_ok, pure_eq_ok, Prod.exists]
  exact and_congr_right fun _ => and_congr_right fun _ => and_congr_right fun _ => and_congr_right fun _ =>
    exists_congr fun _ => exists_congr fun _ => and_congr_right fun _ => eq_comm

theorem generateCharge_key (h : generateCharge D sha256 toUpperCase seen spec = .ok charge) :
    charge.sourceKey = trim spec.sourceKey := by
  obtain ⟨-, -, -, -, _, _, -, rfl⟩ := generateCharge_eq_ok.mp h
  rfl

/-- What came before matters for the key only. -/
theorem generateCharge_seen : generateCharge D sha256 toUpperCase seen spec = .ok charge ↔
    generateCharge D sha256 toUpperCase [] spec = .ok charge ∧ charge.sourceKey ∉ seen := by
  constructor
  · intro h
    have hkey := generateCharge_key h
    obtain ⟨hsource, hcategory, hcurrency, hnew, hrest⟩ := generateCharge_eq_ok.mp h
    exact ⟨generateCharge_eq_ok.mpr ⟨hsource, hcategory, hcurrency, List.not_mem_nil, hrest⟩, hkey ▸ hnew⟩
  · rintro ⟨h, hnew⟩
    have hkey := generateCharge_key h
    obtain ⟨hsource, hcategory, hcurrency, -, hrest⟩ := generateCharge_eq_ok.mp h
    exact generateCharge_eq_ok.mpr ⟨hsource, hcategory, hcurrency, hkey ▸ hnew, hrest⟩

/-- What is computed is evidence exactly if the figures are faithful. -/
theorem calculate_evidenced {key : String} {calculation stored : ExpectedChargeCalculation} {amount : D}
    (h : calculate D key calculation = .ok (amount, stored)) :
    ((∃ q, ExactAmount D calculation q ∧
      exactValue (Decimal.toFixed 4 (DecimalPlaces.toDecimalPlaces 4 amount)) = some (roundDp 4 q)) ∧
      recomputed D stored = some (Decimal.toFixed 4 (DecimalPlaces.toDecimalPlaces 4 amount))) ↔ Faithful D calculation := by
  cases calculation with
  | FLAT text =>
    obtain ⟨d, hd, h⟩ := bind_eq_ok.mp h
    obtain ⟨rfl, rfl⟩ := Prod.mk.inj (pure_eq_ok.mp h)
    obtain ⟨q, hq, hval, -⟩ := decimal_reads hd
    obtain ⟨hexact, hagain⟩ := flat_evidenced hval
    constructor
    · rintro ⟨⟨q', hq', htext⟩, -⟩
      obtain rfl := Reads.unique hq hq'
      exact ⟨q, hq, hexact.mp htext⟩
    · rintro ⟨q', hq', hin⟩
      obtain rfl := Reads.unique hq hq'
      exact ⟨⟨q, hq, hexact.mpr hin⟩, hagain hin⟩
  | RATE_TIMES_BASIS rate basis =>
    obtain ⟨rated, hrated, h⟩ := bind_eq_ok.mp h
    obtain ⟨based, hbased, h⟩ := bind_eq_ok.mp h
    obtain ⟨rfl, rfl⟩ := Prod.mk.inj (pure_eq_ok.mp h)
    obtain ⟨r, hr, hrval, hrpos⟩ := decimal_reads hrated
    obtain ⟨b, hb, hbval, hbpos⟩ := decimal_reads hbased
    have hiff := product_evidenced hrval hbval hrpos hbpos
    constructor
    · rintro ⟨⟨q, ⟨r', b', hr', hb', rfl⟩, htext⟩, hagain⟩
      obtain rfl := Reads.unique hr hr'
      obtain rfl := Reads.unique hb hb'
      exact ⟨r, b, hr, hb, hiff.mp ⟨htext, hagain⟩⟩
    · rintro ⟨r', b', hr', hb', hreproducible⟩
      obtain rfl := Reads.unique hr hr'
      obtain rfl := Reads.unique hb hb'
      obtain ⟨htext, hagain⟩ := hiff.mpr hreproducible
      exact ⟨⟨r * b, ⟨r, b, hr, hb, rfl⟩, htext⟩, hagain⟩

/-- The charge of a specification, and its evidence. -/
theorem generateCharge_ok (h : generateCharge D sha256 toUpperCase [] spec = .ok charge) :
    charge.Of toUpperCase spec ∧ charge.idempotencyKey = idempotencyKey sha256 charge.sourceKey ∧
      (Evidenced D spec charge ↔ Faithful D spec.calculation) := by
  obtain ⟨-, -, -, -, amount, stored, hcalculate, rfl⟩ := generateCharge_eq_ok.mp h
  refine ⟨⟨rfl, rfl, rfl, rfl, rfl, rfl, rfl⟩, rfl, ?_⟩
  rw [← calculate_evidenced hcalculate]
  exact ⟨fun h => ⟨h.exact, h.again⟩, fun h => ⟨h.1, h.2⟩⟩

theorem addGenerated_from (hnodup : (generated.map GeneratedExpectedCharge.sourceKey).Nodup) :
    specs.foldlM (addGenerated D sha256 toUpperCase) generated = .ok charges ↔ ∃ more, charges = generated ++ more ∧
      List.Forall₂ (fun spec charge => generateCharge D sha256 toUpperCase [] spec = .ok charge) specs more ∧
        (charges.map GeneratedExpectedCharge.sourceKey).Nodup := by
  induction specs generalizing generated with
  | nil =>
    rw [List.foldlM_nil, pure_eq_ok]
    constructor
    · rintro rfl
      exact ⟨[], (List.append_nil _).symm, .nil, hnodup⟩
    · rintro ⟨more, rfl, hmore, -⟩
      cases hmore
      exact (List.append_nil _).symm
  | cons spec rest ih =>
    have hstep (charge : GeneratedExpectedCharge) : generateCharge D sha256 toUpperCase
        (generated.map GeneratedExpectedCharge.sourceKey) spec = .ok charge ↔
        generateCharge D sha256 toUpperCase [] spec = .ok charge ∧
          ((generated ++ [charge]).map GeneratedExpectedCharge.sourceKey).Nodup := by
      rw [generateCharge_seen, List.map_append, List.map_singleton, List.nodup_append]
      refine and_congr_right fun _ => ⟨fun hnew => ⟨hnodup, List.nodup_singleton _, fun x hx y hy hxy => hnew ?_⟩, fun h hmem => ?_⟩
      · exact List.mem_singleton.mp hy ▸ hxy ▸ hx
      · exact h.2.2 _ hmem _ (List.mem_singleton_self _) rfl
    rw [List.foldlM_cons, bind_eq_ok]
    constructor
    · rintro ⟨mid, hmid, h⟩
      obtain ⟨charge, hcharge, hmid⟩ := bind_eq_ok.mp hmid
      obtain rfl := pure_eq_ok.mp hmid
      obtain ⟨hcharge, hmidnodup⟩ := (hstep charge).mp hcharge
      obtain ⟨more, rfl, hmore, hall⟩ := (ih hmidnodup).mp h
      exact ⟨charge :: more, by rw [List.append_assoc, List.singleton_append], .cons hcharge hmore, hall⟩
    · rintro ⟨more, rfl, hmore, hall⟩
      cases hmore with
      | cons hcharge hrest =>
        rename_i charge others
        have hmidnodup : ((generated ++ [charge]).map GeneratedExpectedCharge.sourceKey).Nodup := by
          rw [← List.singleton_append, ← List.append_assoc, List.map_append] at hall
          exact (List.nodup_append.mp hall).1
        refine ⟨generated ++ [charge], bind_eq_ok.mpr ⟨charge, (hstep charge).mpr ⟨hcharge, hmidnodup⟩, rfl⟩, ?_⟩
        refine (ih hmidnodup).mpr ⟨others, by rw [List.append_assoc, List.singleton_append], hrest, hall⟩

/-- The charges are generated one by one, and no key comes twice. -/
theorem addGenerated_iff : specs.foldlM (addGenerated D sha256 toUpperCase) [] = .ok generated ↔
    List.Forall₂ (fun spec charge => generateCharge D sha256 toUpperCase [] spec = .ok charge) specs generated ∧
      (generated.map GeneratedExpectedCharge.sourceKey).Nodup := by
  have hempty : (([] : List GeneratedExpectedCharge).map GeneratedExpectedCharge.sourceKey).Nodup := List.nodup_nil
  rw [addGenerated_from hempty]
  constructor
  · rintro ⟨more, rfl, h⟩
    exact h
  · exact fun h => ⟨generated, rfl, h⟩

theorem compareCharges_eq {a b : GeneratedExpectedCharge} : compareCharges localeCompare a b = .eq ↔
    localeCompare a.category b.category = .eq ∧ localeCompare a.sourceKey b.sourceKey = .eq := by
  rw [compareCharges, compareLex, Ordering.then_eq_eq]

theorem untied_collated {specs : List ExpectedChargeSpec}
    (h : List.Forall₂ (fun spec charge => generateCharge D sha256 toUpperCase [] spec = .ok charge) specs generated) :
    StableSort.Untied (compareCharges localeCompare) generated ↔ Collated toUpperCase localeCompare specs := by
  have hkeys : generated.map (fun charge => (charge.category, charge.sourceKey)) =
      specs.map fun spec => (toUpperCase (trim spec.category), trim spec.sourceKey) := by
    induction h with
    | nil => rfl
    | cons hcharge _ ih =>
      have hof := (generateCharge_ok hcharge).1
      rw [List.map_cons, List.map_cons, ih, hof.category, hof.sourceKey]
  have huntied : StableSort.Untied (compareCharges localeCompare) generated ↔
      (generated.map fun charge => (charge.category, charge.sourceKey)).Pairwise fun a b =>
        ¬ (localeCompare a.1 b.1 = .eq ∧ localeCompare a.2 b.2 = .eq) := by
    rw [List.pairwise_map, StableSort.Untied]
    refine iff_of_eq (congrArg (List.Pairwise · generated) (funext fun a => funext fun b => ?_))
    rw [ne_eq, compareCharges_eq]
  rw [huntied, hkeys, List.pairwise_map]
  rfl

theorem compareCharges_trans (hcmp : Std.TransCmp localeCompare) : Std.TransCmp (compareCharges localeCompare) := by
  have hcategory : Std.TransCmp fun a b : GeneratedExpectedCharge => localeCompare a.category b.category :=
    StableSort.transCmp_key GeneratedExpectedCharge.category
  have hkey : Std.TransCmp fun a b : GeneratedExpectedCharge => localeCompare a.sourceKey b.sourceKey :=
    StableSort.transCmp_key GeneratedExpectedCharge.sourceKey
  exact inferInstanceAs (Std.TransCmp (compareLex _ _))

/-- In another order the specifications give the same charges, in that order; and each order of the charges is one of
the specifications. -/
theorem addGenerated_perm (h : specs.foldlM (addGenerated D sha256 toUpperCase) [] = .ok generated) :
    (∀ specs' : List ExpectedChargeSpec, specs'.Perm specs → ∃ generated' : List GeneratedExpectedCharge, generated'.Perm generated ∧
      specs'.foldlM (addGenerated D sha256 toUpperCase) [] = .ok generated') ∧
    ∀ generated' : List GeneratedExpectedCharge, generated'.Perm generated → ∃ specs' : List ExpectedChargeSpec, specs'.Perm specs ∧
      specs'.foldlM (addGenerated D sha256 toUpperCase) [] = .ok generated' := by
  obtain ⟨hcharges, hnodup⟩ := addGenerated_iff.mp h
  constructor
  · intro specs' hperm
    obtain ⟨generated', hcharges', hperm'⟩ := List.perm_comp_forall₂ hperm hcharges
    exact ⟨generated', hperm', addGenerated_iff.mpr ⟨hcharges', ((hperm'.map _).nodup_iff).mpr hnodup⟩⟩
  · intro generated' hperm
    obtain ⟨specs', hspecs', hperm'⟩ := List.perm_comp_forall₂ hperm hcharges.flip
    exact ⟨specs', hperm', addGenerated_iff.mpr ⟨hspecs'.flip, ((hperm.map _).nodup_iff).mpr hnodup⟩⟩

/-- The order of the specifications does not show exactly if the collation tells the charges apart. -/
theorem unordered_iff (hcmp : Std.TransCmp localeCompare)
    (h : specs.foldlM (addGenerated D sha256 toUpperCase) [] = .ok generated) :
    (∀ specs', specs'.Perm specs → generateExpectedCharges D sha256 toUpperCase localeCompare specs' =
      .ok (StableSort.sort (compareCharges localeCompare) generated)) ↔ Collated toUpperCase localeCompare specs := by
  have htrans := compareCharges_trans hcmp
  obtain ⟨hcharges, hnodup⟩ := addGenerated_iff.mp h
  obtain ⟨hforward, hbackward⟩ := addGenerated_perm h
  rw [← untied_collated hcharges, ← StableSort.sort_canonical_iff hnodup.of_map]
  constructor
  · intro hsame generated' hperm
    obtain ⟨specs', hspecs', hgenerated'⟩ := hbackward generated' hperm
    have hsorted := hsame specs' hspecs'
    rw [generateExpectedCharges, hgenerated'] at hsorted
    exact Except.ok.inj hsorted
  · intro hsame specs' hperm
    obtain ⟨generated', hgenerated', hfold⟩ := hforward specs' hperm
    rw [generateExpectedCharges, hfold, ok_bind, hsame generated' hgenerated']
    rfl

theorem idempotencyKey_injective (hsha : Function.Injective sha256) : Function.Injective (idempotencyKey sha256) := by
  intro key key' h
  have htext := Json.render_injective (String.ofList_inj.mp (hsha h))
  simpa using htext

/-- The charges are evidence exactly if every amount is faithful to the figures that are stored, and the collation tells
the charges apart. -/
theorem inputs_reproduce_iff (hsha : Function.Injective sha256) (hcmp : Std.TransCmp localeCompare)
    (h : generateExpectedCharges D sha256 toUpperCase localeCompare specs = .ok charges) :
    Generates D sha256 toUpperCase localeCompare specs charges ↔
      (∀ spec ∈ specs, Faithful D spec.calculation) ∧ Collated toUpperCase localeCompare specs := by
  obtain ⟨generated, hgenerated, hsorted⟩ := bind_eq_ok.mp h
  obtain rfl := pure_eq_ok.mp hsorted
  obtain ⟨hcharges, hnodup⟩ := addGenerated_iff.mp hgenerated
  have hperm := @StableSort.sort_perm _ (compareCharges localeCompare) generated
  constructor
  · intro hright
    refine ⟨fun spec hspec => ?_, (unordered_iff hcmp hgenerated).mp hright.unordered⟩
    obtain ⟨permuted, hpermuted, hevidence⟩ := hright.permuted
    obtain ⟨charge', hcharge', hof', hevidenced⟩ := (exists_of_forall₂ hevidence).1 spec hspec
    obtain ⟨charge, hcharge, hmade⟩ := (exists_of_forall₂ hcharges).1 spec hspec
    have hsame : charge' = charge := by
      refine List.inj_on_of_nodup_map hnodup ((hpermuted.symm.trans hperm).mem_iff.mp hcharge') hcharge ?_
      rw [hof'.sourceKey, (generateCharge_ok hmade).1.sourceKey]
    exact (generateCharge_ok hmade).2.2.mp (hsame ▸ hevidenced)
  · rintro ⟨hfaithful, hcollated⟩
    refine ⟨⟨generated, hperm, ?_⟩, (hperm.map _).nodup_iff.mpr hnodup, ?_, (unordered_iff hcmp hgenerated).mpr hcollated⟩
    · exact ((List.forall₂_and_left _ _).mpr ⟨hfaithful, hcharges⟩).imp fun spec charge hboth =>
        ⟨(generateCharge_ok hboth.2).1, (generateCharge_ok hboth.2).2.2.mpr hboth.1⟩
    · refine (hperm.map _).nodup_iff.mpr ?_
      have hkeys : generated.map GeneratedExpectedCharge.idempotencyKey =
          (generated.map GeneratedExpectedCharge.sourceKey).map (idempotencyKey sha256) := by
        rw [List.map_map]
        refine List.map_congr_left fun charge hcharge => ?_
        obtain ⟨spec, -, hmade⟩ := (exists_of_forall₂ hcharges).2 charge hcharge
        exact (generateCharge_ok hmade).2.1
      rw [hkeys]
      exact hnodup.map (idempotencyKey_injective hsha)

end

/-! ## Figures -/

/-- A specification without references. -/
def specOf (sourceKey category : String) (calculation : ExpectedChargeCalculation) : ExpectedChargeSpec :=
  ⟨sourceKey, category, "usd", none, none, none, none, calculation⟩

def chargeOf (sourceKey category expectedAmount : String) (calculation : ExpectedChargeCalculation) : GeneratedExpectedCharge :=
  ⟨idempotencyKey id sourceKey, sourceKey, category, "USD", expectedAmount, none, none, none, none, calculation⟩

/-- Figures of four decimals at most. -/
def roundSpecs : List ExpectedChargeSpec :=
  [specOf "linehaul-1" "linehaul" (.FLAT "100"), specOf "fuel-1" "fuel" (.RATE_TIMES_BASIS "0.3333" "3.5")]

def roundCharges : List GeneratedExpectedCharge :=
  [chargeOf "fuel-1" "FUEL" "1.1666" (.RATE_TIMES_BASIS "0.3333" "3.5000"),
    chargeOf "linehaul-1" "LINEHAUL" "100.0000" (.FLAT "100.0000")]

theorem reads_ref {text : String} {q : ℚ} (h : (Decimal.ofString text : Option Ref).map Decimal.val = some (.fin q)) :
    Reads Ref text q := Option.map_eq_some_iff.mp h

theorem roundSpecs_generate : Generates Ref id asciiUpper compare roundSpecs roundCharges := by
  have hcharges : generateExpectedCharges Ref id asciiUpper compare roundSpecs = .ok roundCharges := by decide +kernel
  refine (inputs_reproduce_iff Function.injective_id inferInstance hcharges).mpr ⟨List.forall_mem_cons.mpr ⟨?_,
    List.forall_mem_singleton.mpr ?_⟩, by unfold Collated; decide +kernel⟩
  · exact ⟨100, reads_ref (by decide +kernel), by unfold InRange; decide +kernel⟩
  · have hnear : Near (3333 / 10000 * (7 / 2)) (3333 / 10000 * (7 / 2)) :=
      ⟨by decide +kernel, by decide +kernel, by unfold InRange; decide +kernel⟩
    have hstored : Near (3333 / 10000 * (7 / 2)) (roundDp 4 (3333 / 10000) * roundDp 4 (7 / 2)) :=
      ⟨by decide +kernel, by decide +kernel, by unfold InRange; decide +kernel⟩
    exact ⟨3333 / 10000, 7 / 2, reads_ref (by decide +kernel), reads_ref (by decide +kernel),
      by unfold InRange; decide +kernel, by unfold InRange; decide +kernel, hnear, hstored⟩

/-- A rate of five decimals. -/
def thirdSpec : ExpectedChargeSpec := specOf "fuel-1" "fuel" (.RATE_TIMES_BASIS "0.33333" "3")

/-- Two keys that differ by a soft hyphen. -/
def hyphenSpecs : List ExpectedChargeSpec :=
  [specOf "fuel1" "fuel" (.FLAT "1"), specOf "fuel\u00ad1" "fuel" (.FLAT "2")]

theorem thirdSpec_fails :
    (∃ charges, generateExpectedCharges Ref id asciiUpper compare [thirdSpec] = .ok charges ∧
      ¬ Generates Ref id asciiUpper compare [thirdSpec] charges) ∧
    ∃ charges, generateExpectedCharges Ref id asciiUpper hyphenless hyphenSpecs = .ok charges ∧
      ¬ Generates Ref id asciiUpper hyphenless hyphenSpecs charges := by
  refine ⟨⟨[chargeOf "fuel-1" "FUEL" "1.0000" (.RATE_TIMES_BASIS "0.3333" "3.0000")], by decide +kernel, fun h => ?_⟩,
    ⟨[chargeOf "fuel1" "FUEL" "1.0000" (.FLAT "1.0000"), chargeOf "fuel\u00ad1" "FUEL" "2.0000" (.FLAT "2.0000")],
      by decide +kernel, fun h => ?_⟩⟩
  · obtain ⟨generated, hperm, hevidence⟩ := h.permuted
    obtain ⟨spec, -, -, hevidenced⟩ := (exists_of_forall₂ hevidence).2 _ (hperm.mem_iff.mp (List.mem_singleton_self _))
    have hagain : recomputed Ref (.RATE_TIMES_BASIS "0.3333" "3.0000") = some "0.9999" := by decide +kernel
    have hsame := hagain.symm.trans hevidenced.again
    exact absurd hsame (by decide +kernel)
  · have hreversed := h.unordered hyphenSpecs.reverse (List.reverse_perm _)
    exact absurd hreversed (by decide +kernel)

end RateEngine
