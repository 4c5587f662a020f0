import FreightAuditor.Library.DecimalPlaces
import FreightAuditor.RateEngine.Tier1Alignment

/- Attribution of a variance to a group of charges, or to an invoice.

   Each request names the charges billed and the charges expected. Their totals, and the difference of the
   totals, are rounded to four decimals one by one, and the direction is read off the
   sign of the difference. Two things go wrong there: a zero has a sign, so that equal totals
   never conform, and what the three roundings drop need not cancel out. -/
namespace RateEngine

open DecimalJs DecimalRounding DecimalText ExceptOk JsText
open Evaluator (isCurrencyCode)

structure VarianceMember where
  id : String
  amount : String
  currency : String
  deriving DecidableEq

inductive VarianceLevel where
  | GROUP | INVOICE
  deriving DecidableEq

def VarianceLevel.text : VarianceLevel → String
  | .GROUP => "GROUP"
  | .INVOICE => "INVOICE"

structure VarianceAttributionRequest where
  level : VarianceLevel
  key : String
  billed : List VarianceMember
  expected : List VarianceMember
  deriving DecidableEq

inductive VarianceDirection where
  | OVERCHARGE | UNDERCHARGE | CONFORMED
  deriving DecidableEq

structure VarianceAttribution where
  level : VarianceLevel
  key : String
  currency : String
  billedIds : List String
  expectedIds : List String
  billedTotal : String
  expectedTotal : String
  varianceAmount : String
  direction : VarianceDirection
  deriving DecidableEq

inductive VarianceIssueReason where
  | MISSING_SIDE | CURRENCY_MISMATCH
  deriving DecidableEq

structure VarianceAttributionIssue where
  level : VarianceLevel
  key : String
  reason : VarianceIssueReason
  deriving DecidableEq

structure VarianceResult where
  attributed : List VarianceAttribution
  unassessable : List VarianceAttributionIssue
  deriving DecidableEq

/-- What the loop over the requests carries. -/
structure Attributing where
  keys : List String
  memberIds : List String
  attributed : List VarianceAttribution
  unassessable : List VarianceAttributionIssue

def scopedKey (level : VarianceLevel) (key : String) : String := level.text ++ "|" ++ key

def VarianceMember.cleanId (member : VarianceMember) : String := trim member.id

def claimMember (scopedKey : String) (memberIds : List String) (member : VarianceMember) :
    Except RateEngineError (List String) := do
  let id := member.cleanId
  if id = "" then throw ⟨"member id is required for " ++ scopedKey⟩
  if id ∈ memberIds then throw ⟨"member appears in multiple attributions: " ++ id⟩
  return id :: memberIds

/-- The one currency of the members. -/
def onlyCurrency (toUpperCase : String → String) (members : List VarianceMember) : Option String :=
  match members.map fun member => toUpperCase (trim member.currency) with
  | [] => none
  | currency :: rest => if (∀ other ∈ rest, other = currency) ∧ isCurrencyCode currency = true then some currency else none

section

variable (D : Type) [Decimal D]

def VarianceMember.parse (member : VarianceMember) : Except RateEngineError D :=
  match (Decimal.ofString member.amount : Option D) with
  | none => throw ⟨"invalid member amount: " ++ member.id⟩
  | some value =>
    if Decimal.isFinite value = false ∨ Decimal.isNegative value = true then throw ⟨"invalid member amount: " ++ member.id⟩
    else return value

def total (members : List VarianceMember) : Except RateEngineError D :=
  members.foldlM (fun sum member => do return Decimal.plus sum (← member.parse D)) (Decimal.ofNumber (JsNumber.ofNat 0))

variable {D}

def direction (variance : D) : VarianceDirection :=
  if Decimal.isPositive variance = true then .OVERCHARGE
  else if Decimal.isNegative variance = true then .UNDERCHARGE else .CONFORMED

variable [DecimalPlaces D]

def attribution (request : VarianceAttributionRequest) (key currency : String) (billedTotal expectedTotal : D) :
    VarianceAttribution :=
  let variance := DecimalPlaces.toDecimalPlaces 4 (Decimal.minus billedTotal expectedTotal)
  { level := request.level
    key := key
    currency := currency
    billedIds := sortTexts (request.billed.map VarianceMember.cleanId)
    expectedIds := sortTexts (request.expected.map VarianceMember.cleanId)
    billedTotal := Decimal.toFixed 4 (DecimalPlaces.toDecimalPlaces 4 billedTotal)
    expectedTotal := Decimal.toFixed 4 (DecimalPlaces.toDecimalPlaces 4 expectedTotal)
    varianceAmount := Decimal.toFixed 4 variance
    direction := direction variance }

variable (D) (toUpperCase : String → String) (localeCompare : String → String → Ordering)

def attributeRequest (state : Attributing) (request : VarianceAttributionRequest) : Except RateEngineError Attributing := do
  let key := trim request.key
  if key = "" then throw ⟨"attribution key is required"⟩
  if scopedKey request.level key ∈ state.keys then
    throw ⟨"duplicate attribution key: " ++ scopedKey request.level key⟩
  let state := { state with keys := scopedKey request.level key :: state.keys }
  if request.billed = [] ∨ request.expected = [] then
    return { state with unassessable := state.unassessable ++ [⟨request.level, key, .MISSING_SIDE⟩] }
  else
    match onlyCurrency toUpperCase (request.billed ++ request.expected) with
    | none => return { state with unassessable := state.unassessable ++ [⟨request.level, key, .CURRENCY_MISMATCH⟩] }
    | some currency =>
      let memberIds ← (request.billed ++ request.expected).foldlM (claimMember (scopedKey request.level key)) state.memberIds
      let billedTotal ← total D request.billed
      let expectedTotal ← total D request.expected
      return { state with
        memberIds := memberIds
        attributed := state.attributed ++ [attribution request key currency billedTotal expectedTotal] }

def attributeGroupedVariance (requests : List VarianceAttributionRequest) : Except RateEngineError VarianceResult := do
  let sorted := StableSort.sort (fun a b => localeCompare (scopedKey a.level a.key) (scopedKey b.level b.key)) requests
  let state ← sorted.foldlM (attributeRequest D toUpperCase) ⟨[], [], [], []⟩
  return ⟨state.attributed, state.unassessable⟩

end

/-! ## What is claimed -/

/-- The three texts are decimals, the third is the difference of the first two, and the direction is its sign. -/
def VarianceAttribution.Right (a : VarianceAttribution) : Prop :=
  ∃ billed expected variance : ℚ, exactValue a.billedTotal = some billed ∧ exactValue a.expectedTotal = some expected ∧
    exactValue a.varianceAmount = some variance ∧ variance = billed - expected ∧
    (a.direction = .OVERCHARGE ↔ 0 < variance) ∧ (a.direction = .UNDERCHARGE ↔ variance < 0) ∧
    (a.direction = .CONFORMED ↔ variance = 0)

def VarianceAttribution.scope (a : VarianceAttribution) : VarianceLevel × String := (a.level, a.key)

def VarianceAttributionIssue.scope (issue : VarianceAttributionIssue) : VarianceLevel × String := (issue.level, issue.key)

def VarianceAttributionRequest.scope (request : VarianceAttributionRequest) : VarianceLevel × String :=
  (request.level, trim request.key)

/-- The entry is about the request and its members. -/
structure VarianceAttribution.About (a : VarianceAttribution) (request : VarianceAttributionRequest) : Prop where
  scope : a.scope = request.scope
  billed : a.billedIds.Perm (request.billed.map VarianceMember.cleanId)
  expected : a.expectedIds.Perm (request.expected.map VarianceMember.cleanId)

/-- Every request once, no member twice, and the arithmetic right. -/
structure Attributes (requests : List VarianceAttributionRequest) (result : VarianceResult) : Prop where
  once : (result.attributed.map VarianceAttribution.scope ++ result.unassessable.map VarianceAttributionIssue.scope).Perm
    (requests.map VarianceAttributionRequest.scope)
  distinct : (requests.map VarianceAttributionRequest.scope).Nodup
  about : ∀ a ∈ result.attributed, ∃ request ∈ requests, a.About request
  members : (result.attributed.flatMap fun a => a.billedIds ++ a.expectedIds).Nodup
  right : ∀ a ∈ result.attributed, a.Right

/-! ## When it is so -/

/-- Both sides are there, in one currency. -/
def VarianceAttributionRequest.Assessable (toUpperCase : String → String) (request : VarianceAttributionRequest) : Prop :=
  request.billed ≠ [] ∧ request.expected ≠ [] ∧ (onlyCurrency toUpperCase (request.billed ++ request.expected)).isSome = true

def VarianceMember.value (D : Type) [Decimal D] (member : VarianceMember) : D :=
  (Decimal.ofString member.amount).getD (Decimal.ofNumber (JsNumber.ofNat 0))

/-- The amounts added up one by one, each sum to 20 digits. -/
def runningTotal (D : Type) [Decimal D] (members : List VarianceMember) : D :=
  members.foldl (fun sum member => Decimal.plus sum (member.value D)) (Decimal.ofNumber (JsNumber.ofNat 0))

/-- A total in units of the fourth decimal. -/
def units (q : ℚ) : ℤ := roundHalfUp (q * 10 ^ 4)

/-- What lies beyond the fourth decimal, in units of it. -/
def remainder (q : ℚ) : ℚ := q * 10 ^ 4 - units q

/-- By how much the parts beyond the fourth decimal differ, and what the difference loses beyond 20 digits. -/
def gap (billed expected : ℚ) : ℚ :=
  remainder billed - remainder expected + (roundSig precision (billed - expected) - (billed - expected)) * 10 ^ 4

/-- The totals differ at four decimals, and by more or less than that beyond them by half a unit at most. -/
structure Separated (billed expected : ℚ) : Prop where
  apart : units billed ≠ units expected
  low : -1 / 2 ≤ gap billed expected
  high : gap billed expected ≤ 1 / 2
  tieUp : gap billed expected = 1 / 2 → units billed < units expected
  tieDown : gap billed expected = -1 / 2 → units expected < units billed

def VarianceAttributionRequest.Exact (D : Type) [Decimal D] (request : VarianceAttributionRequest) : Prop :=
  ∃ billed expected, Decimal.val (runningTotal D request.billed) = .fin billed ∧
    Decimal.val (runningTotal D request.expected) = .fin expected ∧ Separated billed expected

/-! ## Totals -/

section

variable {D : Type} [Decimal D]

theorem parse_eq_ok {member : VarianceMember} {value : D} : member.parse D = .ok value ↔
    Decimal.ofString member.amount = some value ∧ Decimal.isFinite value = true ∧ Decimal.isNegative value = false := by
  unfold VarianceMember.parse
  cases h : (Decimal.ofString member.amount : Option D) with
  | none => exact iff_of_false throw_ne_ok fun h => by cases h.1
  | some d =>
    simp only [ite_throw_eq_ok, pure_eq_ok, Option.some.injEq, not_or, Bool.not_eq_false, Bool.not_eq_true]
    constructor
    · rintro ⟨⟨hfinite, hsign⟩, rfl⟩
      exact ⟨rfl, hfinite, hsign⟩
    · rintro ⟨rfl, hfinite, hsign⟩
      exact ⟨⟨hfinite, hsign⟩, rfl⟩

/-- What a total can be: infinite, or a number of 20 digits that is not negative. -/
def TotalValue (v : Val) : Prop := v = .inf false ∨ ∃ q x, v = .fin q ∧ q = roundSig precision x ∧ 0 ≤ q

/-- One more amount. -/
theorem TotalValue.plus {sum value : D} (hsum : TotalValue (Decimal.val sum)) (hfinite : Decimal.isFinite value = true)
    (hsign : Decimal.isNegative value = false) : TotalValue (Decimal.val (Decimal.plus sum value)) := by
  obtain ⟨y, hy⟩ := Val.isFinite_iff.mp hfinite
  have hpos : 0 ≤ y := by
    by_contra hneg
    have hne : y ≠ 0 := fun h => hneg (h ▸ le_refl _)
    rw [Decimal.isNegative_finite value y hy hne, decide_eq_false_iff_not] at hsign
    exact hneg (not_lt.mp hsign)
  rw [Decimal.val_plus, hy]
  rcases hsum with hinf | ⟨q, x, hq, -, hqpos⟩
  · rw [hinf]
    exact .inl rfl
  · rw [hq, Val.add_fin]
    have hsumpos : 0 ≤ roundSig precision (q + y) := roundSig_nonneg (by decide) (by linarith)
    cases hval : Val.ofExact (roundSig precision (q + y)) with
    | nan => exact absurd hval (Ref.ofExact_ne_nan _)
    | inf neg =>
      have hneg : neg = false := by
        unfold Val.ofExact at hval
        split at hval
        · cases hval
        · split at hval
          · rw [← Val.inf.inj hval]
            exact decide_eq_false (not_lt.mpr hsumpos)
          · split at hval <;> cases hval
      exact .inl (hneg ▸ rfl)
    | fin z =>
      rcases Val.ofExact_fin hval with hz | hz
      · exact .inr ⟨z, q + y, rfl, hz, hz ▸ hsumpos⟩
      · exact .inr ⟨z, 0, rfl, hz.trans (roundSig_zero precision).symm, le_of_eq hz.symm⟩

theorem totalValue_zero : TotalValue (Decimal.val (Decimal.ofNumber (JsNumber.ofNat 0) : D)) := by
  refine .inr ⟨0, 0, ?_, (roundSig_zero precision).symm, le_refl _⟩
  have hzero := PgNumeric.exactly_zero (s := 0) (D := D)
  rw [PgNumeric.Exactly] at hzero
  rw [hzero]
  norm_num

theorem foldlM_total {members : List VarianceMember} {start sum : D} (hstart : TotalValue (Decimal.val start))
    (h : members.foldlM (fun sum member => do return Decimal.plus sum (← member.parse D)) start = .ok sum) :
    sum = members.foldl (fun sum member => Decimal.plus sum (member.value D)) start ∧ TotalValue (Decimal.val sum) := by
  induction members generalizing start with
  | nil => exact ⟨(pure_eq_ok.mp h).symm, pure_eq_ok.mp h ▸ hstart⟩
  | cons member rest ih =>
    rw [List.foldlM_cons, bind_eq_ok] at h
    obtain ⟨next, hnext, h⟩ := h
    obtain ⟨value, hvalue, hplus⟩ := bind_eq_ok.mp hnext
    obtain rfl := pure_eq_ok.mp hplus
    obtain ⟨hread, hfinite, hsign⟩ := parse_eq_ok.mp hvalue
    have hmember : member.value D = value := by
      rw [VarianceMember.value, hread]
      rfl
    rw [List.foldl_cons, hmember]
    exact ih (hstart.plus hfinite hsign) h

/-- A total that is computed is the running total. -/
theorem total_eq_ok {members : List VarianceMember} {sum : D} (h : total D members = .ok sum) :
    sum = runningTotal D members ∧ TotalValue (Decimal.val sum) := foldlM_total totalValue_zero h

/-! ## Three roundings -/

theorem roundDp_units_eq (q : ℚ) : roundDp 4 q = (units q : ℚ) / 10 ^ 4 := rfl

/-- A total is in range at four decimals, and is reported so. -/
theorem total_reported [DecimalPlaces D] {sum : D} {q x : ℚ} (hval : Decimal.val sum = .fin q) (hq : q = roundSig precision x) :
    exactValue (Decimal.toFixed 4 (DecimalPlaces.toDecimalPlaces 4 sum)) = some ((units q : ℚ) / 10 ^ 4) := by
  have hplaces : Decimal.val (DecimalPlaces.toDecimalPlaces 4 sum) = .fin (roundDp 4 q) := by
    rw [DecimalPlaces.val_toDecimalPlaces 4 sum q hval]
    exact ofExact_roundDp_roundSig hq (Decimal.val_inRange sum q hval)
  rw [Ingestion.exactValue_toFixed hplaces, roundDp_idem, roundDp_units_eq]

/-- The difference of two totals does not overflow. -/
theorem difference_small {billed expected x y : ℚ} (hbilled : billed = roundSig precision x) (hexpected : expected = roundSig precision y)
    (hb : 0 ≤ billed) (he : 0 ≤ expected) (hbin : Val.ofExact billed = .fin billed) (hein : Val.ofExact expected = .fin expected) :
    ∃ q, Val.ofExact (roundSig precision (billed - expected)) = .fin q := by
  have hmax : ∀ {larger z : ℚ}, larger = roundSig precision z → 0 ≤ larger → Val.ofExact larger = .fin larger →
      |billed - expected| ≤ larger → ∃ q, Val.ofExact (roundSig precision (billed - expected)) = .fin q := by
    intro larger z hz hpos hin hle
    have hbound : |roundSig precision (billed - expected)| ≤ larger := by
      have hmono := roundSig_mono (p := precision) (by decide) hle
      rw [hz, roundSig_idem (by decide), ← hz] at hmono
      rwa [abs_roundSig (by decide)]
    unfold Val.ofExact
    split
    · exact ⟨_, rfl⟩
    · rename_i hne
      rw [if_neg]
      · split <;> exact ⟨_, rfl⟩
      · intro hover
        have habs : 0 < |roundSig precision (billed - expected)| := abs_pos.mpr hne
        have hlog := Int.log_mono_right (b := 10) habs hbound
        rw [Val.ofExact, if_neg (by linarith), if_pos (by rw [abs_of_nonneg hpos]; omega)] at hin
        cases hin
  rcases le_total expected billed with hle | hle
  · exact hmax hbilled hb hbin (by rw [abs_of_nonneg (by linarith)]; linarith)
  · exact hmax hexpected he hein (by rw [abs_of_nonpos (by linarith)]; linarith)

/-- What is too small for the range is no unit of the fourth decimal. -/
theorem units_underflow {x : ℚ} (h : Val.ofExact x = .fin 0) : units x = 0 := by
  by_cases hx : x = 0
  · rw [hx, units, zero_mul, roundHalfUp_zero]
  have hlog : Int.log 10 |x| < -maxE := by
    by_contra hnot
    rw [Val.ofExact, if_neg hx, if_neg hnot] at h
    split at h
    · cases h
    · exact hx (Val.fin.inj h)
  have hsmall : |x| < (10 : ℚ) ^ (-maxE) :=
    (Int.lt_zpow_iff_log_lt (b := 10) (by norm_num) (abs_pos.mpr hx)).mpr (by exact_mod_cast hlog)
  have htiny : (10 : ℚ) ^ (-maxE) ≤ (10 : ℚ) ^ (-5 : ℤ) := zpow_le_zpow_right₀ (by norm_num) (by decide)
  have hfive : (10 : ℚ) ^ (-5 : ℤ) = 1 / 100000 := by norm_num
  obtain ⟨hlow, hhigh⟩ := abs_lt.mp (hsmall.trans_le (htiny.trans (le_of_eq hfive)))
  refine roundHalfUp_eq_iff.mpr ⟨?_, ?_, fun heq => ?_, fun heq => ?_⟩ <;> norm_num at * <;> linarith

/-- The difference is reported as rounded to 20 digits and then to four decimals. -/
theorem difference_reported [DecimalPlaces D] {billedTotal expectedTotal : D} {billed expected x y : ℚ}
    (hbval : Decimal.val billedTotal = .fin billed) (heval : Decimal.val expectedTotal = .fin expected)
    (hbilled : billed = roundSig precision x) (hexpected : expected = roundSig precision y)
    (hb : 0 ≤ billed) (he : 0 ≤ expected) :
    Decimal.val (DecimalPlaces.toDecimalPlaces 4 (Decimal.minus billedTotal expectedTotal)) =
      .fin ((units (roundSig precision (billed - expected)) : ℚ) / 10 ^ 4) := by
  obtain ⟨q, hq⟩ := difference_small hbilled hexpected hb he (Decimal.val_inRange _ _ hbval) (Decimal.val_inRange _ _ heval)
  have hminus : Decimal.val (Decimal.minus billedTotal expectedTotal) = .fin q := by
    rw [Decimal.val_minus, hbval, heval, Val.sub_fin, hq]
  rw [DecimalPlaces.val_toDecimalPlaces 4 _ q hminus]
  rcases Val.ofExact_fin hq with hfull | hzero
  · rw [ofExact_roundDp_roundSig hfull (Decimal.val_inRange _ _ hminus), roundDp_units_eq, hfull]
  · rw [hzero] at hq ⊢
    have hscaled := roundDp_scaled 4 0
    rw [units_underflow hq, Int.cast_zero, zero_div, show roundDp 4 0 = 0 by simpa using hscaled, Val.ofExact_zero]

theorem gap_eq (billed expected : ℚ) :
    gap billed expected = roundSig precision (billed - expected) * 10 ^ 4 - ((units billed - units expected : ℤ) : ℚ) := by
  rw [gap, remainder, remainder]
  push_cast
  ring

theorem separated_iff {billed expected : ℚ} : Separated billed expected ↔
    units billed ≠ units expected ∧ units (roundSig precision (billed - expected)) = units billed - units expected := by
  have hrounded : units (roundSig precision (billed - expected)) = units billed - units expected ↔ _ := roundHalfUp_eq_iff
  rw [hrounded, ← gap_eq]
  constructor
  · exact fun h => ⟨h.apart, h.low, h.high, fun heq => by have := h.tieUp heq; omega, fun heq => by have := h.tieDown heq; omega⟩
  · rintro ⟨hapart, hlow, hhigh, hup, hdown⟩
    exact ⟨hapart, hlow, hhigh, fun heq => by have := hup heq; omega, fun heq => by have := hdown heq; omega⟩

/-- The sign decides, but for a zero, which has one as well. -/
theorem direction_iff {variance : D} {q : ℚ} (hval : Decimal.val variance = .fin q) :
    ((direction variance = .OVERCHARGE ↔ 0 < q) ∧ (direction variance = .UNDERCHARGE ↔ q < 0) ∧
      (direction variance = .CONFORMED ↔ q = 0)) ↔ q ≠ 0 := by
  have hpositive : Decimal.isPositive variance = !Decimal.isNegative variance := by
    rw [Decimal.isPositive, hval]
    rfl
  have hnever : direction variance ≠ .CONFORMED := by
    rw [direction, hpositive]
    cases Decimal.isNegative variance <;> decide
  constructor
  · rintro ⟨-, -, hconformed⟩ hzero
    exact hnever (hconformed.mpr hzero)
  · intro hne
    have hsign := Decimal.isNegative_finite variance q hval hne
    refine ⟨?_, ?_, iff_of_false hnever hne⟩
    · rw [direction, hpositive, hsign]
      rcases lt_or_gt_of_ne hne with hneg | hpos
      · rw [decide_eq_true hneg]
        exact iff_of_false (by decide) (not_lt.mpr hneg.le)
      · rw [decide_eq_false (not_lt.mpr hpos.le)]
        exact iff_of_true rfl hpos
    · rw [direction, hpositive, hsign]
      rcases lt_or_gt_of_ne hne with hneg | hpos
      · rw [decide_eq_true hneg]
        exact iff_of_true rfl hneg
      · rw [decide_eq_false (not_lt.mpr hpos.le)]
        exact iff_of_false (by decide) (not_lt.mpr hpos.le)

variable [DecimalPlaces D]

theorem total_unreported {sum : D} (h : Decimal.val sum = .inf false) :
    exactValue (Decimal.toFixed 4 (DecimalPlaces.toDecimalPlaces 4 sum)) = none := by
  have hnot : (Decimal.val sum).isFinite = false := by rw [h]; rfl
  have hplaces : (Decimal.val (DecimalPlaces.toDecimalPlaces 4 sum)).isFinite = false := by
    rw [DecimalPlaces.val_nonFinite 4 sum hnot, hnot]
  rw [Decimal.toFixed_nonFinite 4 _ hplaces]
  exact Ingestion.exactValue_nonFinite hplaces

/-- When what is reported of two totals is right. -/
theorem attribution_right {request : VarianceAttributionRequest} {key currency : String} {billedTotal expectedTotal : D}
    (hbilled : TotalValue (Decimal.val billedTotal)) (hexpected : TotalValue (Decimal.val expectedTotal)) :
    (attribution request key currency billedTotal expectedTotal).Right ↔ ∃ billed expected,
      Decimal.val billedTotal = .fin billed ∧ Decimal.val expectedTotal = .fin expected ∧ Separated billed expected := by
  rcases hbilled with hinf | ⟨billed, x, hbval, hbx, hbpos⟩
  · refine iff_of_false (fun h => ?_) fun h => ?_
    · obtain ⟨_, _, _, hread, -⟩ := h
      rw [attribution, total_unreported hinf] at hread
      cases hread
    · obtain ⟨_, _, hfinite, -⟩ := h
      rw [hinf] at hfinite
      cases hfinite
  rcases hexpected with hinf | ⟨expected, y, heval, hey, hepos⟩
  · refine iff_of_false (fun h => ?_) fun h => ?_
    · obtain ⟨_, _, _, -, hread, -⟩ := h
      rw [attribution, total_unreported hinf] at hread
      cases hread
    · obtain ⟨_, _, -, hfinite, -⟩ := h
      rw [hinf] at hfinite
      cases hfinite
  have hvariance := difference_reported hbval heval hbx hey hbpos hepos
  have htext := @Ingestion.exactValue_toFixed _ _ 4 _ _ hvariance
  rw [← roundDp_units_eq, roundDp_idem, roundDp_units_eq] at htext
  have hten : (10 : ℚ) ^ 4 ≠ 0 := by norm_num
  constructor
  · rintro ⟨b, e, v, hb, he, hv, hdifference, hdirection⟩
    obtain rfl := Option.some.inj ((total_reported hbval hbx).symm.trans hb)
    obtain rfl := Option.some.inj ((total_reported heval hey).symm.trans he)
    obtain rfl := Option.some.inj (htext.symm.trans hv)
    have hne := (direction_iff hvariance).mp hdirection
    rw [← sub_div, div_left_inj' hten, ← Int.cast_sub, Int.cast_inj] at hdifference
    refine ⟨billed, expected, hbval, heval, separated_iff.mpr ⟨fun heq => hne ?_, hdifference⟩⟩
    rw [hdifference, heq, sub_self, Int.cast_zero, zero_div]
  · rintro ⟨b, e, hb, he, hseparated⟩
    obtain rfl := Val.fin.inj (hbval.symm.trans hb)
    obtain rfl := Val.fin.inj (heval.symm.trans he)
    obtain ⟨hapart, hunits⟩ := separated_iff.mp hseparated
    refine ⟨_, _, _, total_reported hbval hbx, total_reported heval hey, htext, ?_, (direction_iff hvariance).mpr ?_⟩
    · rw [hunits, Int.cast_sub, sub_div]
    · rw [hunits]
      exact div_ne_zero (Int.cast_ne_zero.mpr (sub_ne_zero.mpr hapart)) hten

/-! ## The requests -/

variable {toUpperCase : String → String} {localeCompare : String → String → Ordering} {state state' : Attributing}
  {request : VarianceAttributionRequest} {requests : List VarianceAttributionRequest}

def VarianceAttributionRequest.scopedKey (request : VarianceAttributionRequest) : String :=
  RateEngine.scopedKey request.level (trim request.key)

/-- One member. -/
theorem claimMember_eq_ok {scopedKey : String} {memberIds memberIds' : List String} {member : VarianceMember} :
    claimMember scopedKey memberIds member = .ok memberIds' ↔
      member.cleanId ≠ "" ∧ member.cleanId ∉ memberIds ∧ memberIds' = member.cleanId :: memberIds := by
  simp only [claimMember, throw_bind, ite_throw_eq_ok, pure_eq_ok]
  exact and_congr_right fun _ => and_congr_right fun _ => eq_comm

/-- All members of a request: they are different, and none was there before. -/
theorem claimMembers {scopedKey : String} {members : List VarianceMember} {memberIds memberIds' : List String}
    (h : members.foldlM (claimMember scopedKey) memberIds = .ok memberIds') :
    (∀ id, id ∈ memberIds' ↔ id ∈ members.map VarianceMember.cleanId ∨ id ∈ memberIds) ∧
      (members.map VarianceMember.cleanId).Nodup ∧ ∀ id ∈ members.map VarianceMember.cleanId, id ∉ memberIds := by
  induction members generalizing memberIds with
  | nil =>
    obtain rfl := pure_eq_ok.mp h
    exact ⟨fun id => ⟨.inr, fun h => h.resolve_left List.not_mem_nil⟩, List.nodup_nil, List.forall_mem_nil _⟩
  | cons member rest ih =>
    rw [List.foldlM_cons, bind_eq_ok] at h
    obtain ⟨mid, hmid, h⟩ := h
    obtain ⟨-, hnew, rfl⟩ := claimMember_eq_ok.mp hmid
    obtain ⟨hids, hnodup, hapart⟩ := ih h
    refine ⟨fun id => ?_, ?_, ?_⟩
    · rw [hids, List.map_cons, List.mem_cons, List.mem_cons]
      exact ⟨fun h => h.elim (fun h => .inl (.inr h)) fun h => h.elim (fun h => .inl (.inl h)) .inr,
        fun h => h.elim (fun h => h.elim (fun h => .inr (.inl h)) .inl) fun h => .inr (.inr h)⟩
    · exact List.nodup_cons.mpr ⟨fun hmem => hapart _ hmem List.mem_cons_self, hnodup⟩
    · exact List.forall_mem_cons.mpr ⟨hnew, fun id hid hmem => hapart id hid (List.mem_cons_of_mem _ hmem)⟩

/-- What the entry of a request is. -/
structure Entry (D : Type) [Decimal D] [DecimalPlaces D] (toUpperCase : String → String)
    (request : VarianceAttributionRequest) (a : VarianceAttribution) : Prop where
  assessable : request.Assessable toUpperCase
  made : ∃ currency billedTotal expectedTotal, total D request.billed = .ok billedTotal ∧
    total D request.expected = .ok expectedTotal ∧ a = attribution request (trim request.key) currency billedTotal expectedTotal

/-- What one turn of the loop does. -/
theorem attributeRequest_cases (h : attributeRequest D toUpperCase state request = .ok state') :
    request.scopedKey ∉ state.keys ∧ state'.keys = request.scopedKey :: state.keys ∧
      ((¬ request.Assessable toUpperCase ∧ state'.memberIds = state.memberIds ∧ state'.attributed = state.attributed ∧
          ∃ issue, issue.scope = request.scope ∧ state'.unassessable = state.unassessable ++ [issue]) ∨
        (state'.unassessable = state.unassessable ∧
          (request.billed ++ request.expected).foldlM (claimMember request.scopedKey) state.memberIds = .ok state'.memberIds ∧
          ∃ a, Entry D toUpperCase request a ∧ state'.attributed = state.attributed ++ [a])) := by
  simp only [attributeRequest, throw_bind, ite_throw_eq_ok] at h
  obtain ⟨-, hnew, h⟩ := h
  refine ⟨hnew, ?_⟩
  split at h
  · rename_i hmissing
    obtain rfl := pure_eq_ok.mp h
    refine ⟨rfl, .inl ⟨fun hassessable => ?_, rfl, rfl, _, ?_, rfl⟩⟩
    · exact hmissing.elim hassessable.1 hassessable.2.1
    · rfl
  · rename_i hsides
    split at h
    · rename_i hnone
      obtain rfl := pure_eq_ok.mp h
      refine ⟨rfl, .inl ⟨fun hassessable => ?_, rfl, rfl, _, ?_, rfl⟩⟩
      · have hsome := hassessable.2.2
        rw [hnone] at hsome
        cases hsome
      · rfl
    · rename_i currency hcurrency
      obtain ⟨memberIds, hmembers, h⟩ := bind_eq_ok.mp h
      obtain ⟨billedTotal, hbilled, h⟩ := bind_eq_ok.mp h
      obtain ⟨expectedTotal, hexpected, h⟩ := bind_eq_ok.mp h
      obtain rfl := pure_eq_ok.mp h
      have hassessable : request.Assessable toUpperCase :=
        ⟨fun hnil => hsides (.inl hnil), fun hnil => hsides (.inr hnil), by rw [hcurrency]; rfl⟩
      exact ⟨rfl, .inr ⟨rfl, hmembers, _, ⟨hassessable, currency, billedTotal, expectedTotal, hbilled, hexpected, rfl⟩, rfl⟩⟩

/-- After the requests. -/
structure Attributed (D : Type) [Decimal D] [DecimalPlaces D] (toUpperCase : String → String)
    (requests : List VarianceAttributionRequest) (state : Attributing) : Prop where
  keys : state.keys.Perm (requests.map VarianceAttributionRequest.scopedKey)
  nodup : (requests.map VarianceAttributionRequest.scopedKey).Nodup
  once : (state.attributed.map VarianceAttribution.scope ++ state.unassessable.map VarianceAttributionIssue.scope).Perm
    (requests.map VarianceAttributionRequest.scope)
  claimed : ∀ a ∈ state.attributed, ∀ id ∈ a.billedIds ++ a.expectedIds, id ∈ state.memberIds
  members : (state.attributed.flatMap fun a => a.billedIds ++ a.expectedIds).Nodup
  entries : ∀ a ∈ state.attributed, ∃ request ∈ requests, Entry D toUpperCase request a
  complete : ∀ request ∈ requests, request.Assessable toUpperCase → ∃ a ∈ state.attributed, Entry D toUpperCase request a

theorem Entry.about {a : VarianceAttribution} (h : Entry D toUpperCase request a) : a.About request := by
  obtain ⟨currency, billedTotal, expectedTotal, -, -, rfl⟩ := h.made
  exact ⟨rfl, sortTexts_perm _, sortTexts_perm _⟩

theorem Entry.ids {a : VarianceAttribution} (h : Entry D toUpperCase request a) :
    (a.billedIds ++ a.expectedIds).Perm ((request.billed ++ request.expected).map VarianceMember.cleanId) := by
  rw [List.map_append]
  exact h.about.billed.append h.about.expected

theorem Entry.right_iff {a : VarianceAttribution} (h : Entry D toUpperCase request a) : a.Right ↔ request.Exact D := by
  obtain ⟨currency, billedTotal, expectedTotal, hbilled, hexpected, rfl⟩ := h.made
  obtain ⟨rfl, hb⟩ := total_eq_ok hbilled
  obtain ⟨rfl, he⟩ := total_eq_ok hexpected
  exact attribution_right hb he

theorem attributed_nil : Attributed D toUpperCase [] ⟨[], [], [], []⟩ where
  keys := .refl _
  nodup := List.nodup_nil
  once := .refl _
  claimed := List.forall_mem_nil _
  members := List.nodup_nil
  entries := List.forall_mem_nil _
  complete := List.forall_mem_nil _

/-- One more request. -/
theorem Attributed.step (h : Attributed D toUpperCase requests state)
    (hstep : attributeRequest D toUpperCase state request = .ok state') :
    Attributed D toUpperCase (requests ++ [request]) state' := by
  obtain ⟨hnew, hkeys, hcases⟩ := attributeRequest_cases hstep
  have hkeys' : state'.keys.Perm ((requests ++ [request]).map VarianceAttributionRequest.scopedKey) := by
    rw [hkeys, List.map_append, List.map_singleton]
    exact (h.keys.cons _).trans (List.perm_append_singleton _ _).symm
  have hnodup : ((requests ++ [request]).map VarianceAttributionRequest.scopedKey).Nodup := by
    refine hkeys'.nodup_iff.mp ?_
    rw [hkeys]
    exact List.nodup_cons.mpr ⟨hnew, h.keys.nodup_iff.mpr h.nodup⟩
  rcases hcases with ⟨hnot, hids, hattributed, issue, hissue, hunassessable⟩ | ⟨hunassessable, hclaim, a, ha, hattributed⟩
  · refine ⟨hkeys', hnodup, ?_, ?_, ?_, fun a ha => ?_, fun r hr hassessable => ?_⟩
    · rw [hattributed, hunassessable, List.map_append, List.map_append, ← List.append_assoc, List.map_singleton,
        List.map_singleton, hissue]
      exact h.once.append_right _
    · rw [hattributed, hids]
      exact h.claimed
    · rw [hattributed]
      exact h.members
    · rw [hattributed] at ha
      obtain ⟨r, hr, hentry⟩ := h.entries a ha
      exact ⟨r, List.mem_append_left _ hr, hentry⟩
    · rw [hattributed]
      rcases List.mem_append.mp hr with hr | hr
      · exact h.complete r hr hassessable
      · exact absurd (List.mem_singleton.mp hr ▸ hassessable) hnot
  · obtain ⟨hmembers, hdifferent, hapart⟩ := claimMembers hclaim
    have hids : ∀ id ∈ a.billedIds ++ a.expectedIds, id ∈ (request.billed ++ request.expected).map VarianceMember.cleanId :=
      fun id hid => ha.ids.mem_iff.mp hid
    refine ⟨hkeys', hnodup, ?_, fun b hb id hid => ?_, ?_, fun b hb => ?_, fun r hr hassessable => ?_⟩
    · rw [hattributed, hunassessable, List.map_append, List.map_append, List.map_singleton, List.map_singleton, ha.about.scope]
      refine List.Perm.trans ?_ (h.once.append_right _)
      rw [List.append_assoc, List.append_assoc]
      exact List.perm_append_comm.append_left _
    · rw [hmembers]
      rw [hattributed] at hb
      rcases List.mem_append.mp hb with hb | hb
      · exact .inr (h.claimed b hb id hid)
      · exact .inl (hids id (List.mem_singleton.mp hb ▸ hid))
    · rw [hattributed, List.flatMap_append, List.flatMap_singleton, List.nodup_append]
      refine ⟨h.members, ha.ids.nodup_iff.mpr hdifferent, fun x hx y hy hxy => ?_⟩
      obtain ⟨b, hb, hxb⟩ := List.mem_flatMap.mp hx
      exact hapart y (hids y hy) (hxy ▸ h.claimed b hb x hxb)
    · rw [hattributed] at hb
      rcases List.mem_append.mp hb with hb | hb
      · obtain ⟨r, hr, hentry⟩ := h.entries b hb
        exact ⟨r, List.mem_append_left _ hr, hentry⟩
      · exact ⟨request, List.mem_append_right _ (List.mem_singleton_self _), List.mem_singleton.mp hb ▸ ha⟩
    · rw [hattributed]
      rcases List.mem_append.mp hr with hr | hr
      · obtain ⟨b, hb, hentry⟩ := h.complete r hr hassessable
        exact ⟨b, List.mem_append_left _ hb, hentry⟩
      · exact ⟨a, List.mem_append_right _ (List.mem_singleton_self _), List.mem_singleton.mp hr ▸ ha⟩

theorem attributed_of_foldlM (h : requests.foldlM (attributeRequest D toUpperCase) ⟨[], [], [], []⟩ = .ok state) :
    Attributed D toUpperCase requests state := by
  induction requests using List.reverseRecOn generalizing state with
  | nil => exact pure_eq_ok.mp h ▸ attributed_nil
  | append_singleton front request ih =>
    rw [List.foldlM_append, bind_eq_ok] at h
    obtain ⟨mid, hmid, hlast⟩ := h
    simp only [List.foldlM_cons, List.foldlM_nil, bind_pure] at hlast
    exact (ih hmid).step hlast

theorem Attributed.scopes (h : Attributed D toUpperCase requests state) :
    (requests.map VarianceAttributionRequest.scope).Nodup := by
  refine List.Nodup.of_map (fun scope => RateEngine.scopedKey scope.1 scope.2) ?_
  rw [List.map_map]
  exact h.nodup

variable {result : VarianceResult}

/-- The attribution is right exactly if for every request that is assessed the totals, in 20 digits, differ at four decimals
and what lies beyond these does not show in the difference. -/
theorem attributes_iff (h : attributeGroupedVariance D toUpperCase localeCompare requests = .ok result) :
    Attributes requests result ↔ ∀ request ∈ requests, request.Assessable toUpperCase → request.Exact D := by
  obtain ⟨state, hstate, hresult⟩ := bind_eq_ok.mp h
  obtain rfl := pure_eq_ok.mp hresult
  have hattributed := attributed_of_foldlM hstate
  have hsorted := @StableSort.sort_perm _ (fun a b : VarianceAttributionRequest =>
    localeCompare (RateEngine.scopedKey a.level a.key) (RateEngine.scopedKey b.level b.key)) requests
  constructor
  · intro hright request hrequest hassessable
    obtain ⟨a, ha, hentry⟩ := hattributed.complete request (hsorted.mem_iff.mpr hrequest) hassessable
    exact hentry.right_iff.mp (hright.right a ha)
  · intro hexact
    refine ⟨hattributed.once.trans (hsorted.map _), (hsorted.map _).nodup_iff.mp hattributed.scopes, fun a ha => ?_,
      hattributed.members, fun a ha => ?_⟩
    · obtain ⟨request, hrequest, hentry⟩ := hattributed.entries a ha
      exact ⟨request, hsorted.mem_iff.mp hrequest, hentry.about⟩
    · obtain ⟨request, hrequest, hentry⟩ := hattributed.entries a ha
      exact hentry.right_iff.mpr (hexact request (hsorted.mem_iff.mp hrequest) hentry.assessable)

end

/-- Eleven dollars and half a cent against ten. -/
def fuelRequest : VarianceAttributionRequest :=
  ⟨.GROUP, "fuel", [⟨"b2", "6.005", "usd"⟩, ⟨"b1", "5", "USD"⟩], [⟨"e1", "10", "USD"⟩]⟩

def fuelAttribution : VarianceAttribution :=
  ⟨.GROUP, "fuel", "USD", ["b1", "b2"], ["e1"], "11.0050", "10.0000", "1.0050", .OVERCHARGE⟩

theorem fuelRequest_attributes : Attributes [fuelRequest] ⟨[fuelAttribution], []⟩ := by
  have hresult : attributeGroupedVariance Ref asciiUpper compare [fuelRequest] = .ok ⟨[fuelAttribution], []⟩ := by
    decide +kernel
  refine (attributes_iff hresult).mpr (List.forall_mem_singleton.mpr fun _ => ⟨11005 / 1000, 10, ?_, ?_, ?_⟩)
  · decide +kernel
  · decide +kernel
  · exact ⟨by decide +kernel, by decide +kernel, by decide +kernel, fun h => absurd h (by decide +kernel),
      fun h => absurd h (by decide +kernel)⟩

/-- Billed as expected. -/
def equalTotals : VarianceAttributionRequest := ⟨.INVOICE, "invoice-1", [⟨"b", "10.00", "USD"⟩], [⟨"e", "10", "USD"⟩]⟩

/-- The first total is rounded up and the second down, the difference of the two is not. -/
def roundedApart : VarianceAttributionRequest := ⟨.GROUP, "fuel", [⟨"b", "1.00005", "USD"⟩], [⟨"e", "0.00004", "USD"⟩]⟩

theorem equalTotals_fails :
    (∃ result, attributeGroupedVariance Ref asciiUpper compare [equalTotals] = .ok result ∧ ¬ Attributes [equalTotals] result) ∧
      ∃ result, attributeGroupedVariance Ref asciiUpper compare [roundedApart] = .ok result ∧ ¬ Attributes [roundedApart] result := by
  refine ⟨⟨⟨[⟨.INVOICE, "invoice-1", "USD", ["b"], ["e"], "10.0000", "10.0000", "0.0000", .OVERCHARGE⟩], []⟩,
    by decide +kernel, fun h => ?_⟩, ⟨[⟨.GROUP, "fuel", "USD", ["b"], ["e"], "1.0001", "0.0000", "1.0000", .OVERCHARGE⟩], []⟩,
    by decide +kernel, fun h => ?_⟩
  · obtain ⟨_, _, v, -, -, hv, -, hover, -⟩ := h.right _ (List.mem_singleton_self _)
    have hread : exactValue "0.0000" = some 0 := by decide +kernel
    obtain rfl := Option.some.inj (hread.symm.trans hv)
    exact absurd (hover.mp rfl) (lt_irrefl _)
  · obtain ⟨b, e, v, hb, he, hv, hdifference, -⟩ := h.right _ (List.mem_singleton_self _)
    have hbilled : exactValue "1.0001" = some (10001 / 10000) := by decide +kernel
    have hexpected : exactValue "0.0000" = some 0 := by decide +kernel
    have hvariance : exactValue "1.0000" = some 1 := by decide +kernel
    obtain rfl := Option.some.inj (hbilled.symm.trans hb)
    obtain rfl := Option.some.inj (hexpected.symm.trans he)
    obtain rfl := Option.some.inj (hvariance.symm.trans hv)
    norm_num at hdifference

end RateEngine
