import FreightAuditor.Library.ExceptOk
import FreightAuditor.Library.JsText
import FreightAuditor.Library.PgNumeric

/- What claims check before they write: the amount and currency of a recovery, a partial
   recovery against the claimed amount, the three ways a claim is resolved, and whether a
   dispute can be claimed. Amounts are text, as the database driver and the request give
   them, and are compared in decimal.js.

   Each validation has one theorem that says, in whole units of the fourth decimal, when
   it accepts (`validatePartialRecovery_ok`, `validateClaimResolution_ok`,
   `validateClaimableDispute_ok`). -/
namespace Claims

open DecimalJs DecimalText PgNumeric ExceptOk

inductive ClaimStatus where
  | open | recovered | denied | written_off
  deriving DecidableEq

def ClaimStatus.text : ClaimStatus → String
  | .open => "open" | .recovered => "recovered" | .denied => "denied" | .written_off => "written_off"

def isClaimTerminalStatus (status : ClaimStatus) : Bool := status != .open

inductive ClaimResolutionKind where
  | FULL_RECOVERY | DENIAL | WRITE_OFF
  deriving DecidableEq

def ClaimResolutionKind.text : ClaimResolutionKind → String
  | .FULL_RECOVERY => "FULL_RECOVERY" | .DENIAL => "DENIAL" | .WRITE_OFF => "WRITE_OFF"

inductive DisputeStatus where
  | draft | sent | in_progress | accepted | rejected | closed
  deriving DecidableEq

inductive PartialRecoveryCode where
  | NON_POSITIVE_AMOUNT | MISSING_CURRENCY | MIXED_CURRENCY | EXCEEDS_CLAIMED_AMOUNT
  deriving DecidableEq

inductive ClaimResolutionCode where
  | ALREADY_TERMINAL | NON_POSITIVE_AMOUNT | MISSING_CURRENCY | MIXED_CURRENCY
  | FULL_RECOVERY_AMOUNT_MISMATCH | WRITE_OFF_EXCEEDS_CLAIMED_AMOUNT | DENIAL_MUST_NOT_INCLUDE_AMOUNT
  deriving DecidableEq

inductive ClaimableDisputeCode where
  | NOT_ACCEPTED | MISSING_AMOUNT | MISSING_CURRENCY | NON_POSITIVE_AMOUNT
  deriving DecidableEq

/-- What the claim operations throw. -/
inductive ClaimsError where
  | schema
  | decimal (error : DecimalError)
  | partialRecovery (code : PartialRecoveryCode)
  | claimResolution (code : ClaimResolutionCode)
  | claimableDispute (code : ClaimableDisputeCode)
  | claimNotFound
  | disputeNotFound
  | duplicateClaimedFinding (conflictingFindingIds : List ℕ)
  | auditEventConflict
  /-- A statement the database refuses. -/
  | database (constraint : String)
  | unexpected (message : String)
  deriving DecidableEq

/-- The error each caller of `validateRecoveryAmountAndCurrency` raises. -/
structure RecoveryAmountAndCurrencyErrors where
  onNonPositiveAmount : ClaimsError
  onMissingCurrency : ClaimsError
  onMixedCurrency : ClaimsError

section

variable (D : Type) [Decimal D]

/-- `new Decimal(text)`. -/
def decimal (text : String) : Except ClaimsError D := (newDecimal D text).mapError .decimal

/-- Amount and currency as they came, once checked. -/
def validateRecoveryAmountAndCurrency (amount : String) (currency existingCurrency : Option String)
    (errors : RecoveryAmountAndCurrencyErrors) : Except ClaimsError (String × String) := do
  let value ← decimal D amount
  if Decimal.lessThanOrEqualTo value (Decimal.ofNumber (JsNumber.ofNat 0)) then
    throw errors.onNonPositiveAmount
  match currency with
  | none => throw errors.onMissingCurrency
  | some currency =>
    if existingCurrency.any (· != currency) then throw errors.onMixedCurrency
    return (amount, currency)

structure ValidatedPartialRecovery where
  claimId : ℕ
  amountRecovered : String
  currency : String
  cumulativeRecovered : String
  isFinal : Bool
  deriving DecidableEq

def partialRecoveryErrors : RecoveryAmountAndCurrencyErrors :=
  ⟨.partialRecovery .NON_POSITIVE_AMOUNT, .partialRecovery .MISSING_CURRENCY,
    .partialRecovery .MIXED_CURRENCY⟩

/-- A claim as a partial recovery sees it. -/
structure ClaimRow where
  id : ℕ
  amountClaimed : String
  currency : Option String

def validatePartialRecovery (claim : ClaimRow) (amountRecovered : String) (currency : Option String)
    (priorRecoveredTotal : String) : Except ClaimsError ValidatedPartialRecovery := do
  let (amount, currency) ←
    validateRecoveryAmountAndCurrency D amountRecovered currency claim.currency partialRecoveryErrors
  let cumulative := Decimal.plus (← decimal D priorRecoveredTotal) (← decimal D amount)
  let claimed ← decimal D claim.amountClaimed
  if Decimal.greaterThan cumulative claimed then throw (.partialRecovery .EXCEEDS_CLAIMED_AMOUNT)
  return ⟨claim.id, amount, currency, Decimal.toFixed 4 cumulative, Decimal.equals cumulative claimed⟩

/-- A claim as its resolution sees it. -/
structure ResolvableClaimRow extends ClaimRow where
  status : ClaimStatus

structure ValidatedClaimResolution where
  claimId : ℕ
  kind : ClaimResolutionKind
  amountRecovered : Option String
  currency : Option String
  newStatus : ClaimStatus
  deriving DecidableEq

def claimResolutionErrors : RecoveryAmountAndCurrencyErrors :=
  ⟨.claimResolution .NON_POSITIVE_AMOUNT, .claimResolution .MISSING_CURRENCY,
    .claimResolution .MIXED_CURRENCY⟩

def validateClaimResolution (claim : ResolvableClaimRow) (kind : ClaimResolutionKind)
    (priorRecoveredTotal : String) (amountRecovered currency : Option String) :
    Except ClaimsError ValidatedClaimResolution := do
  if isClaimTerminalStatus claim.status then throw (.claimResolution .ALREADY_TERMINAL)
  match kind, amountRecovered with
  | .DENIAL, some _ => throw (.claimResolution .DENIAL_MUST_NOT_INCLUDE_AMOUNT)
  | .DENIAL, none => return ⟨claim.id, kind, none, none, .denied⟩
  | .WRITE_OFF, none => return ⟨claim.id, kind, none, none, .written_off⟩
  | .FULL_RECOVERY, none => throw (.claimResolution .NON_POSITIVE_AMOUNT)
  | kind, some amountRecovered =>
    let (amount, currency) ←
      validateRecoveryAmountAndCurrency D amountRecovered currency claim.currency claimResolutionErrors
    let cumulative := Decimal.plus (← decimal D priorRecoveredTotal) (← decimal D amount)
    let claimed ← decimal D claim.amountClaimed
    if kind = .FULL_RECOVERY then
      if !Decimal.equals cumulative claimed then throw (.claimResolution .FULL_RECOVERY_AMOUNT_MISMATCH)
      return ⟨claim.id, kind, some amount, some currency, .recovered⟩
    -- WRITE_OFF with a nonzero final recovery
    if Decimal.greaterThanOrEqualTo cumulative claimed then
      throw (.claimResolution .WRITE_OFF_EXCEEDS_CLAIMED_AMOUNT)
    return ⟨claim.id, kind, some amount, some currency, .written_off⟩

structure ClaimableDisputeRow where
  id : ℕ
  status : DisputeStatus
  amountClaimed : Option String
  currency : Option String

structure ValidatedClaimableDispute where
  disputeId : ℕ
  amountClaimed : String
  currency : String
  deriving DecidableEq

def claimableDisputeErrors : RecoveryAmountAndCurrencyErrors :=
  ⟨.claimableDispute .NON_POSITIVE_AMOUNT, .unexpected "unreachable: currency already checked non-null",
    .unexpected "unreachable: no existingCurrency provided"⟩

def validateClaimableDispute (row : ClaimableDisputeRow) : Except ClaimsError ValidatedClaimableDispute := do
  if row.status ≠ .accepted then throw (.claimableDispute .NOT_ACCEPTED)
  match row.amountClaimed, row.currency with
  | none, _ => throw (.claimableDispute .MISSING_AMOUNT)
  | some _, none => throw (.claimableDispute .MISSING_CURRENCY)
  | some amountClaimed, some currency =>
    let (amount, currency) ←
      validateRecoveryAmountAndCurrency D amountClaimed (some currency) none claimableDisputeErrors
    return ⟨row.id, amount, currency⟩

end

/-! ## When they accept -/

section

variable {D : Type} [Decimal D]

/-- Reading a text of whole units does not throw. -/
theorem decimal_readsAs {text : String} {n : ℤ} (h : ReadsAs 4 text n) :
    ∃ d : D, decimal D text = .ok d ∧ Denotes 4 d n := by
  obtain ⟨d, hd, hden⟩ := newDecimal_readsAs (D := D) h
  exact ⟨d, by rw [decimal, hd]; rfl, hden⟩

theorem denotes_of_decimal {text : String} {n : ℤ} {d : D} (h : ReadsAs 4 text n)
    (hd : decimal D text = .ok d) : Denotes 4 d n := by
  obtain ⟨d', hd', hden⟩ := decimal_readsAs (D := D) h
  rw [hd] at hd'
  exact Except.ok.inj hd' ▸ hden

theorem fourth_inRange : ((4 : ℕ) : ℤ) ≤ maxE := by unfold maxE; norm_num

/-- What comes out is what went in. -/
theorem validateRecoveryAmountAndCurrency_out {amount : String} {currency existingCurrency : Option String}
    {errors : RecoveryAmountAndCurrencyErrors} {out : String × String}
    (hok : validateRecoveryAmountAndCurrency D amount currency existingCurrency errors = .ok out) :
    out.1 = amount ∧ currency = some out.2 := by
  simp only [validateRecoveryAmountAndCurrency, bind_eq_ok, throw_bind, ite_throw_eq_ok] at hok
  obtain ⟨d, -, -, hok⟩ := hok
  cases currency with
  | none => simp at hok
  | some currency =>
    simp only [ite_throw_eq_ok, pure_eq_ok] at hok
    obtain ⟨-, rfl⟩ := hok
    exact ⟨rfl, rfl⟩

theorem validateRecoveryAmountAndCurrency_pos {amount : String} {n : ℤ} (h : ReadsAs 4 amount n)
    {currency existingCurrency : Option String} {errors : RecoveryAmountAndCurrencyErrors}
    {out : String × String}
    (hok : validateRecoveryAmountAndCurrency D amount currency existingCurrency errors = .ok out) :
    0 < n := by
  obtain ⟨d, hd, hden⟩ := decimal_readsAs (D := D) h
  simp only [validateRecoveryAmountAndCurrency, bind_eq_ok, hd, Except.ok.injEq, exists_eq_left',
    throw_bind, ite_throw_eq_ok, lessThanOrEqualTo_zero fourth_inRange hden, decide_eq_true_eq,
    not_le] at hok
  exact hok.1

/-- A partial recovery is accepted only if it is positive and fits into what is left. -/
theorem validatePartialRecovery_ok {claim : ClaimRow} {amount : String} {currency : Option String}
    {priorTotal : String} {v : ValidatedPartialRecovery}
    (hok : validatePartialRecovery D claim amount currency priorTotal = .ok v) :
    v.amountRecovered = amount ∧ currency = some v.currency ∧
      ∀ {c p : ℤ} {n : Numeric 18 4}, |c| < 10 ^ 18 → ReadsAs 4 claim.amountClaimed c →
        ReadsAs 4 priorTotal p → ReadsAs 4 amount n.units → 0 < n.units ∧ p + n.units ≤ c := by
  simp only [validatePartialRecovery, bind_eq_ok, throw_bind, ite_throw_eq_ok, pure_eq_ok] at hok
  obtain ⟨⟨out, cur⟩, hvalid, dp, hdp, da, hda, dc, hdc, hle, rfl⟩ := hok
  obtain ⟨rfl, hcur⟩ := validateRecoveryAmountAndCurrency_out hvalid
  refine ⟨rfl, hcur, fun {c p n} hc hclaim hprior hamount => ?_⟩
  have hdenp := denotes_of_decimal hprior hdp
  have hdena := denotes_of_decimal hamount hda
  have hdenc := denotes_of_decimal hclaim hdc
  refine ⟨validateRecoveryAmountAndCurrency_pos hamount hvalid, ?_⟩
  simpa [sum_greaterThan (by decide) fourth_inRange hdenp hdena n.inRange hdenc hc] using hle

/-- What each way of resolving a claim has checked: nothing about the amounts without one. -/
theorem validateClaimResolution_ok {claim : ResolvableClaimRow} {kind : ClaimResolutionKind}
    {priorTotal : String} {amount currency : Option String} {v : ValidatedClaimResolution}
    (hok : validateClaimResolution D claim kind priorTotal amount currency = .ok v) :
    claim.status = .open ∧ v.amountRecovered = amount ∧ v.kind = kind ∧
      (kind = .DENIAL ∧ amount = none ∧ v.newStatus = .denied ∨
        kind = .WRITE_OFF ∧ v.newStatus = .written_off ∨
        kind = .FULL_RECOVERY ∧ amount.isSome ∧ v.newStatus = .recovered) ∧
      ∀ {text : String} {c p : ℤ} {n : Numeric 18 4}, amount = some text → |c| < 10 ^ 18 →
        ReadsAs 4 claim.amountClaimed c → ReadsAs 4 priorTotal p → ReadsAs 4 text n.units →
        0 < n.units ∧ (kind = .FULL_RECOVERY → p + n.units = c) ∧ (kind = .WRITE_OFF → p + n.units < c) := by
  simp only [validateClaimResolution, throw_bind, ite_throw_eq_ok, isClaimTerminalStatus, bne_iff_ne,
    ne_eq, Decidable.not_not] at hok
  obtain ⟨hopen, hok⟩ := hok
  refine ⟨hopen, ?_⟩
  cases amount with
  | none =>
    cases kind with
    | FULL_RECOVERY => simp at hok
    | DENIAL => obtain rfl := pure_eq_ok.mp hok; simp
    | WRITE_OFF => obtain rfl := pure_eq_ok.mp hok; simp
  | some text =>
    cases kind with
    | DENIAL => simp at hok
    | FULL_RECOVERY =>
      simp only [bind_eq_ok, if_true, ite_throw_eq_ok, pure_eq_ok, Bool.not_eq_true', Bool.not_eq_false] at hok
      obtain ⟨⟨out, cur⟩, hvalid, dp, hdp, da, hda, dc, hdc, heq, rfl⟩ := hok
      obtain ⟨rfl, -⟩ := validateRecoveryAmountAndCurrency_out hvalid
      refine ⟨rfl, rfl, by simp, fun {text c p n} ht hc hclaim hprior hamount => ?_⟩
      obtain rfl := Option.some.inj ht
      refine ⟨validateRecoveryAmountAndCurrency_pos hamount hvalid, fun _ => ?_, by simp⟩
      have hdena := denotes_of_decimal hamount hda
      rw [sum_equals (by decide) fourth_inRange (denotes_of_decimal hprior hdp) hdena n.inRange
        (denotes_of_decimal hclaim hdc) hc] at heq
      exact of_decide_eq_true heq
    | WRITE_OFF =>
      simp only [bind_eq_ok, reduceCtorEq, if_false, ite_throw_eq_ok, pure_eq_ok] at hok
      obtain ⟨⟨out, cur⟩, hvalid, dp, hdp, da, hda, dc, hdc, hlt, rfl⟩ := hok
      obtain ⟨rfl, -⟩ := validateRecoveryAmountAndCurrency_out hvalid
      refine ⟨rfl, rfl, by simp, fun {text c p n} ht hc hclaim hprior hamount => ?_⟩
      obtain rfl := Option.some.inj ht
      refine ⟨validateRecoveryAmountAndCurrency_pos hamount hvalid, by simp, fun _ => ?_⟩
      have hdena := denotes_of_decimal hamount hda
      rw [sum_greaterThanOrEqualTo (by decide) fourth_inRange (denotes_of_decimal hprior hdp) hdena
        n.inRange (denotes_of_decimal hclaim hdc) hc] at hlt
      simpa using hlt

/-- A dispute is claimable only with an amount, which is then claimed. -/
theorem validateClaimableDispute_ok {row : ClaimableDisputeRow} {v : ValidatedClaimableDispute}
    (hok : validateClaimableDispute D row = .ok v) :
    v.disputeId = row.id ∧ row.status = .accepted ∧ row.amountClaimed = some v.amountClaimed ∧
      row.currency = some v.currency ∧ ∀ n, ReadsAs 4 v.amountClaimed n → 0 < n := by
  simp only [validateClaimableDispute, throw_bind, ite_throw_eq_ok, ne_eq, Decidable.not_not] at hok
  obtain ⟨hacc, hok⟩ := hok
  cases hamount : row.amountClaimed with
  | none => simp [hamount] at hok
  | some amount =>
    cases hcurrency : row.currency with
    | none => simp [hamount, hcurrency] at hok
    | some currency =>
      simp only [hamount, hcurrency, bind_eq_ok, pure_eq_ok] at hok
      obtain ⟨⟨out, cur⟩, hvalid, rfl⟩ := hok
      obtain ⟨rfl, hcur⟩ := validateRecoveryAmountAndCurrency_out hvalid
      exact ⟨rfl, hacc, rfl, hcur, fun n hn => validateRecoveryAmountAndCurrency_pos hn hvalid⟩

end

end Claims
