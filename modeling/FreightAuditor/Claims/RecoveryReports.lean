import FreightAuditor.Claims.Validation
import FreightAuditor.Library.Buckets

/- The three recovery reports: a tenant's portfolio by currency, its carriers by carrier
   and currency, and all accounts by client and currency.

   They share `accumulateClaimReconciliation`, which adds a claim and its recovery events
   to a bucket, and differ in the key. In whole units of the fourth decimal a claim adds
   `claimUnits` to the columns; `accumulate_sums` says that the Decimals are these sums
   exactly, as long as they fit 20 digits. -/
namespace Claims

open DecimalJs DecimalText PgNumeric ExceptOk

/-! ## Rows and buckets -/

structure ReconcilableClaimRow where
  claimId : String
  amountClaimed : String
  currency : Option String
  status : String

structure ReconcilableRecoveryEventRow where
  claimId : String
  amountRecovered : String
  currency : Option String
  deriving DecidableEq

structure CarrierClaimRow extends ReconcilableClaimRow where
  carrierId : Option String

structure AccountPortfolioClaimRow extends ReconcilableClaimRow where
  clientId : String
  clientName : Option String

/-- The columns of a bucket: sums in a Decimal while it is filled, texts in the report. -/
structure ClaimReconciliation (α : Type) where
  claimed : α
  recovered : α
  outstanding : α
  writtenOff : α
  denied : α
  nullCurrencyRecovered : α
  mismatchedCurrencyRecovered : α

inductive Column where
  | claimed | recovered | outstanding | writtenOff | denied | nullCurrencyRecovered
  | mismatchedCurrencyRecovered
  deriving DecidableEq

def ClaimReconciliation.get {α : Type} (bucket : ClaimReconciliation α) : Column → α
  | .claimed => bucket.claimed
  | .recovered => bucket.recovered
  | .outstanding => bucket.outstanding
  | .writtenOff => bucket.writtenOff
  | .denied => bucket.denied
  | .nullCurrencyRecovered => bucket.nullCurrencyRecovered
  | .mismatchedCurrencyRecovered => bucket.mismatchedCurrencyRecovered

theorem ClaimReconciliation.ext_get {α : Type} {a b : ClaimReconciliation α} (h : ∀ col, a.get col = b.get col) :
    a = b := by
  obtain ⟨_, _, _, _, _, _, _⟩ := a
  obtain ⟨_, _, _, _, _, _, _⟩ := b
  obtain rfl := h .claimed
  obtain rfl := h .recovered
  obtain rfl := h .outstanding
  obtain rfl := h .writtenOff
  obtain rfl := h .denied
  obtain rfl := h .nullCurrencyRecovered
  obtain rfl := h .mismatchedCurrencyRecovered
  rfl

/-- The column an event of a claim is counted in. -/
def recoveredColumn (claimCurrency : Option String) (event : ReconcilableRecoveryEventRow) : Column :=
  match event.currency with
  | none => .nullCurrencyRecovered
  | some currency =>
    -- a claim without a currency has no other currencies
    if claimCurrency ≠ none ∧ some currency ≠ claimCurrency then .mismatchedCurrencyRecovered else .recovered

/-- `isClaimTerminalStatus`, of the text in the column. -/
def isClaimTerminalStatusText (status : String) : Bool :=
  status ∈ [ClaimStatus.recovered, .denied, .written_off].map ClaimStatus.text

/-- `eventsByClaim.get(claimId) ?? []`. -/
def eventsOf (events : List ReconcilableRecoveryEventRow) (claimId : String) :
    List ReconcilableRecoveryEventRow :=
  events.filter (fun event => event.claimId = claimId)

section accumulate

variable {D : Type} [Decimal D]

def emptyClaimReconciliationAccumulator : ClaimReconciliation D :=
  let zero := Decimal.ofNumber (JsNumber.ofNat 0)
  ⟨zero, zero, zero, zero, zero, zero, zero⟩

/-- One event: the bucket and the claim's `sameCurrencyRecovered`. -/
def accumulateEvent (claimCurrency : Option String) :
    ClaimReconciliation D × D → ReconcilableRecoveryEventRow → Except DecimalError (ClaimReconciliation D × D)
  | (bucket, sameCurrencyRecovered), event => do
    let amount ← newDecimal D event.amountRecovered
    match recoveredColumn claimCurrency event with
    | .nullCurrencyRecovered =>
      return ({ bucket with nullCurrencyRecovered := Decimal.plus bucket.nullCurrencyRecovered amount },
        sameCurrencyRecovered)
    | .mismatchedCurrencyRecovered =>
      return ({ bucket with
          mismatchedCurrencyRecovered := Decimal.plus bucket.mismatchedCurrencyRecovered amount },
        sameCurrencyRecovered)
    | _ => return (bucket, Decimal.plus sameCurrencyRecovered amount)

def accumulateClaimReconciliation (bucket : ClaimReconciliation D) (claim : ReconcilableClaimRow)
    (events : List ReconcilableRecoveryEventRow) : Except DecimalError (ClaimReconciliation D) := do
  let claimed ← newDecimal D claim.amountClaimed
  let bucket := { bucket with claimed := Decimal.plus bucket.claimed claimed }
  let (bucket, sameCurrencyRecovered) ← events.foldlM (accumulateEvent claim.currency)
    (bucket, Decimal.ofNumber (JsNumber.ofNat 0))
  let bucket := { bucket with recovered := Decimal.plus bucket.recovered sameCurrencyRecovered }
  if isClaimTerminalStatusText claim.status then
    if claim.status = ClaimStatus.denied.text then
      return { bucket with denied := Decimal.minus (Decimal.plus bucket.denied claimed) sameCurrencyRecovered }
    else if claim.status = ClaimStatus.written_off.text then
      return { bucket with
        writtenOff := Decimal.minus (Decimal.plus bucket.writtenOff claimed) sameCurrencyRecovered }
    else return bucket
  else
    return { bucket with
      outstanding := Decimal.minus (Decimal.plus bucket.outstanding claimed) sameCurrencyRecovered }

def finalizeClaimReconciliationTotals (bucket : ClaimReconciliation D) : ClaimReconciliation String where
  claimed := Decimal.toFixed 4 bucket.claimed
  recovered := Decimal.toFixed 4 bucket.recovered
  outstanding := Decimal.toFixed 4 bucket.outstanding
  writtenOff := Decimal.toFixed 4 bucket.writtenOff
  denied := Decimal.toFixed 4 bucket.denied
  nullCurrencyRecovered := Decimal.toFixed 4 bucket.nullCurrencyRecovered
  mismatchedCurrencyRecovered := Decimal.toFixed 4 bucket.mismatchedCurrencyRecovered

def claimReconciliationReconciles (bucket : ClaimReconciliation D) : Bool :=
  Decimal.equals bucket.claimed
    (Decimal.plus (Decimal.plus (Decimal.plus bucket.recovered bucket.outstanding) bucket.writtenOff) bucket.denied)

end accumulate

/-! ## Reports -/

structure PortfolioReconciliationBucket extends ClaimReconciliation String where
  currency : Option String
  reconciles : Bool

structure CarrierRecoveryBucket extends ClaimReconciliation String where
  carrierId : Option String
  currency : Option String

structure AccountPortfolioBucket extends ClaimReconciliation String where
  clientId : String
  clientName : Option String
  currency : Option String
  reconciles : Bool

section reports

variable (D : Type) [Decimal D] {ρ κ : Type}

/-- The buckets of claims by a text key; the first claim of a bucket labels it. -/
def bucketsBy (key : ρ → String) (label : ρ → κ) (row : ρ → ReconcilableClaimRow) (claims : List ρ)
    (recoveryEvents : List ReconcilableRecoveryEventRow) :
    Except DecimalError (List (κ × ClaimReconciliation D)) := do
  let buckets ← Buckets.group key (fun claim => (label claim, emptyClaimReconciliationAccumulator))
    (fun bucket claim => do
      return (bucket.1, ← accumulateClaimReconciliation bucket.2 (row claim)
        (eventsOf recoveryEvents (row claim).claimId)))
    claims
  return buckets.map Prod.snd

def reconcilePortfolioTotals (claims : List ReconcilableClaimRow)
    (recoveryEvents : List ReconcilableRecoveryEventRow) :
    Except DecimalError (List PortfolioReconciliationBucket) := do
  let buckets ← bucketsBy D (fun claim => claim.currency.getD " ") ReconcilableClaimRow.currency id claims
    recoveryEvents
  return buckets.map fun (currency, b) =>
    { finalizeClaimReconciliationTotals b with currency, reconciles := claimReconciliationReconciles b }

def aggregateCarrierRecovery (claims : List CarrierClaimRow)
    (recoveryEvents : List ReconcilableRecoveryEventRow) : Except DecimalError (List CarrierRecoveryBucket) := do
  let buckets ← bucketsBy D (fun claim => claim.carrierId.getD " " ++ "::" ++ claim.currency.getD " ")
    (fun claim => (claim.carrierId, claim.currency)) CarrierClaimRow.toReconcilableClaimRow claims recoveryEvents
  return buckets.map fun ((carrierId, currency), b) =>
    { finalizeClaimReconciliationTotals b with carrierId, currency }

def aggregateCrossAccountPortfolio (claims : List AccountPortfolioClaimRow)
    (recoveryEvents : List ReconcilableRecoveryEventRow) : Except DecimalError (List AccountPortfolioBucket) := do
  let buckets ← bucketsBy D (fun claim => claim.clientId ++ "::" ++ claim.currency.getD " ")
    (fun claim => (claim.clientId, claim.clientName, claim.currency))
    AccountPortfolioClaimRow.toReconcilableClaimRow claims recoveryEvents
  return buckets.map fun ((clientId, clientName, currency), b) =>
    { finalizeClaimReconciliationTotals b with
      clientId, clientName, currency, reconciles := claimReconciliationReconciles b }

end reports

/-! ## In whole units -/

/-- The units of the fourth decimal an amount stands for. -/
def amountUnits (text : String) : ℤ := (literal? text.toList).elim 0 fun l => DecimalRounding.roundHalfUp (l.value * 10 ^ 4)

/-- The text with four decimals. -/
def unitsText (n : ℤ) : String := String.ofList (fixedText 4 n)

/-- What the events of a claim add to a recovered column. -/
def countedUnits (claimCurrency : Option String) (events : List ReconcilableRecoveryEventRow) (col : Column) : ℤ :=
  ((events.filter fun event => recoveredColumn claimCurrency event = col).map
    fun event => amountUnits event.amountRecovered).sum

/-- The column that takes what is not recovered of a claim; a recovered claim has none. -/
def unrecoveredColumn (status : String) : Option Column :=
  if isClaimTerminalStatusText status then
    if status = ClaimStatus.denied.text then some .denied
    else if status = ClaimStatus.written_off.text then some .writtenOff
    else none
  else some .outstanding

/-- What a claim and its events add to each column. -/
def claimUnits (claim : ReconcilableClaimRow) (events : List ReconcilableRecoveryEventRow) : Column → ℤ
  | .claimed => amountUnits claim.amountClaimed
  | .recovered => countedUnits claim.currency events .recovered
  | .nullCurrencyRecovered => countedUnits claim.currency events .nullCurrencyRecovered
  | .mismatchedCurrencyRecovered => countedUnits claim.currency events .mismatchedCurrencyRecovered
  | col =>
    if unrecoveredColumn claim.status = some col then
      amountUnits claim.amountClaimed - countedUnits claim.currency events .recovered
    else 0

/-- The text is an amount of a `numeric(_, 4)` column. -/
def IsAmount (text : String) : Prop := ∃ n, ReadsAs 4 text n

/-- The sum of the amounts of some events, without their signs. -/
def eventsWeight (events : List ReconcilableRecoveryEventRow) : ℤ :=
  (events.map fun event => |amountUnits event.amountRecovered|).sum

theorem IsAmount.reads {text : String} (h : IsAmount text) : ReadsAs 4 text (amountUnits text) := by
  obtain ⟨n, l, hl, hv⟩ := h
  have hn : amountUnits text = n := by
    rw [amountUnits, hl, Option.elim_some, hv, div_mul_cancel₀ _ (by positivity), DecimalRounding.roundHalfUp_intCast]
  exact ⟨l, hl, by rw [hv, hn]⟩

theorem amountUnits_unitsText (n : ℤ) : amountUnits (unitsText n) = n :=
  (IsAmount.reads ⟨n, readsAs_fixedText 4 n⟩).unique (readsAs_fixedText 4 n)

theorem recoveredColumn_cases (claimCurrency : Option String) (event : ReconcilableRecoveryEventRow) :
    recoveredColumn claimCurrency event = .nullCurrencyRecovered ∨
      recoveredColumn claimCurrency event = .mismatchedCurrencyRecovered ∨
      recoveredColumn claimCurrency event = .recovered := by
  unfold recoveredColumn
  split
  · exact .inl rfl
  · split
    · exact .inr (.inl rfl)
    · exact .inr (.inr rfl)

theorem countedUnits_cons (claimCurrency : Option String) (event : ReconcilableRecoveryEventRow)
    (events : List ReconcilableRecoveryEventRow) (col : Column) :
    countedUnits claimCurrency (event :: events) col =
      (if recoveredColumn claimCurrency event = col then amountUnits event.amountRecovered else 0) +
        countedUnits claimCurrency events col := by
  by_cases h : recoveredColumn claimCurrency event = col <;> simp [countedUnits, h]

theorem eventsWeight_nonneg (events : List ReconcilableRecoveryEventRow) : 0 ≤ eventsWeight events :=
  List.sum_nonneg (fun n hn => by
    obtain ⟨e, -, rfl⟩ := List.mem_map.mp hn
    exact abs_nonneg _)

theorem eventsWeight_cons (event : ReconcilableRecoveryEventRow) (events : List ReconcilableRecoveryEventRow) :
    eventsWeight (event :: events) = |amountUnits event.amountRecovered| + eventsWeight events := rfl

theorem abs_countedUnits_le (claimCurrency : Option String) (events : List ReconcilableRecoveryEventRow)
    (col : Column) : |countedUnits claimCurrency events col| ≤ eventsWeight events := by
  induction events with
  | nil => simp [countedUnits, eventsWeight]
  | cons event events ih =>
    rw [countedUnits_cons, eventsWeight_cons]
    refine (abs_add_le _ _).trans (add_le_add ?_ ih)
    split
    · exact le_rfl
    · rw [abs_zero]
      exact abs_nonneg _

/-! ## Exact sums -/

section exactly

variable {D : Type} [Decimal D]

/-- The columns of a bucket are exactly these units. -/
def Sums (bucket : ClaimReconciliation D) (units : Column → ℤ) : Prop :=
  ∀ col, Exactly 4 (bucket.get col) (units col)

/-- One column put in place of another. -/
def ClaimReconciliation.set {α : Type} (bucket : ClaimReconciliation α) (x : α) : Column → ClaimReconciliation α
  | .claimed => { bucket with claimed := x }
  | .recovered => { bucket with recovered := x }
  | .outstanding => { bucket with outstanding := x }
  | .writtenOff => { bucket with writtenOff := x }
  | .denied => { bucket with denied := x }
  | .nullCurrencyRecovered => { bucket with nullCurrencyRecovered := x }
  | .mismatchedCurrencyRecovered => { bucket with mismatchedCurrencyRecovered := x }

theorem ClaimReconciliation.get_set {α : Type} (bucket : ClaimReconciliation α) (x : α) (col col' : Column) :
    (bucket.set x col).get col' = if col' = col then x else bucket.get col' := by
  cases col <;> cases col' <;> rfl

variable {bucket : ClaimReconciliation D} {units : Column → ℤ} {W : ℤ}

/-- Adding an amount to a column adds its units. -/
theorem Sums.add (h : Sums bucket units) (col : Column) {x : D} {n : ℤ} (hx : Exactly 4 x n)
    (hfit : |units col + n| < 10 ^ precision) :
    Sums (bucket.set (Decimal.plus (bucket.get col) x) col)
      (fun col' => units col' + if col' = col then n else 0) := by
  intro col'
  rw [ClaimReconciliation.get_set]
  by_cases hcol : col' = col
  · subst hcol
    simpa using (h col').plus (by decide) hx hfit
  · simpa [hcol] using h col'

/-- Adding the events of a claim. -/
theorem accumulateEvents_sums (claimCurrency : Option String) {events : List ReconcilableRecoveryEventRow}
    (hamount : ∀ event ∈ events, IsAmount event.amountRecovered) {same : D} {r : ℤ} (h : Sums bucket units)
    (hsame : Exactly 4 same r) (hunits : ∀ col, |units col| ≤ W) (hr : |r| ≤ W)
    (hfit : W + eventsWeight events < 10 ^ precision) :
    ∃ bucket' same', events.foldlM (accumulateEvent claimCurrency) (bucket, same) = .ok (bucket', same') ∧
      Sums bucket' (fun col => units col +
        if col = .nullCurrencyRecovered ∨ col = .mismatchedCurrencyRecovered then
          countedUnits claimCurrency events col else 0) ∧
      Exactly 4 same' (r + countedUnits claimCurrency events .recovered) := by
  induction events generalizing bucket same units r W with
  | nil => exact ⟨bucket, same, rfl, by simpa [countedUnits] using h, by simpa [countedUnits] using hsame⟩
  | cons event events ih =>
    obtain ⟨hevent, hrest⟩ := List.forall_mem_cons.mp hamount
    rw [eventsWeight_cons] at hfit
    have hnonneg := eventsWeight_nonneg events
    have hW : 0 ≤ W := (abs_nonneg r).trans hr
    obtain ⟨amount, hnew, hexact⟩ := newDecimal_exactly (D := D) (by decide) hevent.reads (by omega)
    set n := amountUnits event.amountRecovered with hn
    have hadd : ∀ m : ℤ, |m| ≤ W → |m + n| ≤ W + |n| := fun m hm => (abs_add_le m n).trans (by omega)
    -- a column of the bucket grows by the event
    have hside : ∀ col, (col = .nullCurrencyRecovered ∨ col = .mismatchedCurrencyRecovered) →
        recoveredColumn claimCurrency event = col →
        accumulateEvent claimCurrency (bucket, same) event =
          .ok (bucket.set (Decimal.plus (bucket.get col) amount) col, same) →
        ∃ bucket' same', (event :: events).foldlM (accumulateEvent claimCurrency) (bucket, same) =
            .ok (bucket', same') ∧
          Sums bucket' (fun col => units col +
            if col = .nullCurrencyRecovered ∨ col = .mismatchedCurrencyRecovered then
              countedUnits claimCurrency (event :: events) col else 0) ∧
          Exactly 4 same' (r + countedUnits claimCurrency (event :: events) .recovered) := by
      intro col hcol hrec hacc
      obtain ⟨bucket', same', hfold, hsums, hsame'⟩ := ih hrest (W := W + |n|)
        (h.add col hexact ((hadd _ (hunits col)).trans_lt (by omega))) hsame
        (fun col' => by
          split
          · exact hadd _ (hunits col')
          · rw [add_zero]
            exact (hunits col').trans (by simp))
        (hr.trans (by simp)) (by omega)
      refine ⟨bucket', same', by rw [List.foldlM_cons, hacc]; exact hfold, ?_, ?_⟩
      · intro col'
        have hs := hsums col'
        simp only [countedUnits_cons, hrec, ← hn] at hs ⊢
        by_cases hc : col' = col
        · subst hc
          simp only [hcol, if_true] at hs ⊢
          rwa [← add_assoc]
        · simpa [hc, Ne.symm hc] using hs
      · have hcol' : col ≠ .recovered := by
          rintro rfl
          obtain hcol | hcol := hcol <;> cases hcol
        simpa [countedUnits_cons, hrec, hcol'] using hsame'
    obtain hrec | hrec | hrec := recoveredColumn_cases claimCurrency event
    · exact hside _ (.inl rfl) hrec (by simp only [accumulateEvent, hnew, hrec, ok_bind]; rfl)
    · exact hside _ (.inr rfl) hrec (by simp only [accumulateEvent, hnew, hrec, ok_bind]; rfl)
    · -- the claim's own sum grows
      obtain ⟨bucket', same', hfold, hsums, hsame'⟩ := ih hrest (W := W + |n|) h
        (hsame.plus (by decide) hexact ((hadd r hr).trans_lt (by omega)))
        (fun col => (hunits col).trans (by simp)) (hadd r hr) (by omega)
      refine ⟨bucket', same', ?_, ?_, ?_⟩
      · rw [List.foldlM_cons]
        simp only [accumulateEvent, hnew, hrec, ok_bind]
        exact hfold
      · intro col
        have hs := hsums col
        by_cases hcol : col = .nullCurrencyRecovered ∨ col = .mismatchedCurrencyRecovered
        · have hne : Column.recovered ≠ col := by
            rintro rfl
            obtain hcol | hcol := hcol <;> cases hcol
          simpa [countedUnits_cons, hrec, hcol, hne] using hs
        · simpa [hcol] using hs
      · simpa [countedUnits_cons, hrec, ← hn, add_assoc] using hsame'

/-- The sum of a claim's amount and its events', without their signs. -/
def claimWeight (events : List ReconcilableRecoveryEventRow) (claim : ReconcilableClaimRow) : ℤ :=
  |amountUnits claim.amountClaimed| + eventsWeight events

theorem claimWeight_nonneg (events : List ReconcilableRecoveryEventRow) (claim : ReconcilableClaimRow) :
    0 ≤ claimWeight events claim :=
  add_nonneg (abs_nonneg _) (eventsWeight_nonneg events)

theorem unrecoveredColumn_eq {status : String} {col : Column} (h : unrecoveredColumn status = some col) :
    col = .denied ∨ col = .writtenOff ∨ col = .outstanding := by
  unfold unrecoveredColumn at h
  split_ifs at h <;> cases h <;> simp

/-- What a claim adds to a column is at most its weight. -/
theorem abs_claimUnits_le (claim : ReconcilableClaimRow) (events : List ReconcilableRecoveryEventRow)
    (col : Column) : |claimUnits claim events col| ≤ claimWeight events claim := by
  have hcounted := abs_countedUnits_le claim.currency events
  have hnonneg := claimWeight_nonneg events claim
  have hamount := abs_nonneg (amountUnits claim.amountClaimed)
  have hweight := eventsWeight_nonneg events
  have hunrecovered : |amountUnits claim.amountClaimed - countedUnits claim.currency events .recovered| ≤
      claimWeight events claim :=
    (abs_sub _ _).trans (by have := hcounted .recovered; unfold claimWeight; omega)
  have hzero : |(0 : ℤ)| ≤ claimWeight events claim := by rwa [abs_zero]
  have hrec : ∀ c, |countedUnits claim.currency events c| ≤ claimWeight events claim := fun c =>
    (hcounted c).trans (by unfold claimWeight; omega)
  cases col with
  | claimed => exact le_add_of_nonneg_right hweight
  | outstanding => simp only [claimUnits]; split <;> assumption
  | denied => simp only [claimUnits]; split <;> assumption
  | writtenOff => simp only [claimUnits]; split <;> assumption
  | recovered => exact hrec _
  | nullCurrencyRecovered => exact hrec _
  | mismatchedCurrencyRecovered => exact hrec _

/-- Adding a claim with its events adds its units to every column. -/
theorem accumulateClaimReconciliation_sums {claim : ReconcilableClaimRow}
    {events : List ReconcilableRecoveryEventRow} (hclaim : IsAmount claim.amountClaimed)
    (hamount : ∀ event ∈ events, IsAmount event.amountRecovered) (h : Sums bucket units)
    (hunits : ∀ col, |units col| ≤ W) (hfit : W + claimWeight events claim < 10 ^ precision) :
    ∃ bucket', accumulateClaimReconciliation bucket claim events = .ok bucket' ∧
      Sums bucket' (fun col => units col + claimUnits claim events col) := by
  have hW : 0 ≤ W := (abs_nonneg _).trans (hunits .claimed)
  have hnonneg := eventsWeight_nonneg events
  have hrecovered := abs_countedUnits_le claim.currency events .recovered
  unfold claimWeight at hfit
  obtain ⟨claimed, hnew, hexact⟩ := newDecimal_exactly (D := D) (by decide) hclaim.reads (by omega)
  set n := amountUnits claim.amountClaimed with hn
  set r := countedUnits claim.currency events .recovered with hr
  have hadd : ∀ col, |units col + n| ≤ W + |n| := fun col => (abs_add_le _ _).trans (by have := hunits col; omega)
  -- the claimed amount
  have hsums₁ := h.add .claimed hexact ((hadd _).trans_lt (by omega))
  -- the events
  obtain ⟨bucket₂, same, hfold, hsums₂, hsame⟩ := accumulateEvents_sums claim.currency hamount (W := W + |n|)
    hsums₁ exactly_zero (fun col => by
      split
      · exact hadd col
      · rw [add_zero]
        exact (hunits col).trans (by simp))
    (by rw [abs_zero]; positivity) (by omega)
  rw [zero_add, ← hr] at hsame
  -- the claim's own recoveries
  have hsums₃ := hsums₂.add .recovered hsame (by
    simp only [reduceCtorEq, if_false, or_self, add_zero]
    exact (abs_add_le _ _).trans_lt (by have := hunits .recovered; have := abs_nonneg n; omega))
  have hbody : accumulateClaimReconciliation bucket claim events =
      .ok (match unrecoveredColumn claim.status with
        | some col => (bucket₂.set (Decimal.plus (bucket₂.get .recovered) same) .recovered).set
            (Decimal.minus (Decimal.plus (bucket₂.get col) claimed) same) col
        | none => bucket₂.set (Decimal.plus (bucket₂.get .recovered) same) .recovered) := by
    have hfold' : events.foldlM (accumulateEvent claim.currency)
        ({ bucket with claimed := Decimal.plus bucket.claimed claimed }, Decimal.ofNumber (JsNumber.ofNat 0)) =
          .ok (bucket₂, same) := hfold
    simp only [accumulateClaimReconciliation, hnew, ok_bind, hfold', unrecoveredColumn]
    split_ifs <;> rfl
  refine ⟨_, hbody, fun col => ?_⟩
  cases hcol : unrecoveredColumn claim.status with
  | none =>
    have hs := hsums₃ col
    cases col <;> simpa [claimUnits, hcol, ← hn, ← hr] using hs
  | some c =>
    -- what is left of the claim goes to a column that has not changed yet
    have hc : ((bucket₂.set (Decimal.plus (bucket₂.get .recovered) same) .recovered).get c) = bucket₂.get c ∧
        Exactly 4 (bucket₂.get c) (units c) := by
      have hs := hsums₃ c
      rw [ClaimReconciliation.get_set] at hs ⊢
      obtain rfl | rfl | rfl := unrecoveredColumn_eq hcol <;> exact ⟨rfl, by simpa using hs⟩
    have hleft : Exactly 4 (Decimal.minus (Decimal.plus (bucket₂.get c) claimed) same) (units c + n - r) := by
      refine (hc.2.plus (by decide) hexact ((hadd c).trans_lt (by omega))).minus (by decide) hsame ?_
      exact (abs_sub _ _).trans_lt (by have := hadd c; omega)
    have hs := hsums₃ col
    simp only [ClaimReconciliation.get_set] at hs ⊢
    obtain rfl | rfl | rfl := unrecoveredColumn_eq hcol <;> cases col <;>
      simp [claimUnits, hcol, ← hn, ← hr, ← add_sub_assoc] at hs ⊢ <;> assumption

/-- Amounts that can be read can be added, whatever is in the bucket. -/
theorem accumulateClaimReconciliation_total {claim : ReconcilableClaimRow}
    {events : List ReconcilableRecoveryEventRow} (hclaim : IsAmount claim.amountClaimed)
    (hamount : ∀ event ∈ events, IsAmount event.amountRecovered) (bucket : ClaimReconciliation D) :
    ∃ bucket', accumulateClaimReconciliation bucket claim events = .ok bucket' := by
  obtain ⟨claimed, hclaimed, -⟩ := newDecimal_readsAs (D := D) hclaim.reads
  have hevents : ∀ acc : ClaimReconciliation D × D,
      ∃ acc', events.foldlM (accumulateEvent claim.currency) acc = .ok acc' := by
    induction events with
    | nil => exact fun acc => ⟨acc, rfl⟩
    | cons event events ih =>
      intro acc
      obtain ⟨hevent, hrest⟩ := List.forall_mem_cons.mp hamount
      obtain ⟨amount, hnew, -⟩ := newDecimal_readsAs (D := D) hevent.reads
      have hone : ∃ mid, accumulateEvent claim.currency acc event = .ok mid := by
        simp only [accumulateEvent, hnew, ok_bind]
        split <;> exact ⟨_, rfl⟩
      obtain ⟨mid, hmid⟩ := hone
      obtain ⟨acc', hacc'⟩ := ih hrest mid
      exact ⟨acc', by rw [List.foldlM_cons, hmid]; exact hacc'⟩
  obtain ⟨⟨bucket₂, same⟩, hfold⟩ :=
    hevents ({ bucket with claimed := Decimal.plus bucket.claimed claimed }, Decimal.ofNumber (JsNumber.ofNat 0))
  simp only [accumulateClaimReconciliation, hclaimed, hfold, ok_bind]
  split_ifs <;> exact ⟨_, rfl⟩

/-- What a claim adds to each column, with its events found among all. -/
def rowUnits (events : List ReconcilableRecoveryEventRow) (claim : ReconcilableClaimRow) : Column → ℤ :=
  claimUnits claim (eventsOf events claim.claimId)

def rowWeight (events : List ReconcilableRecoveryEventRow) (claim : ReconcilableClaimRow) : ℤ :=
  claimWeight (eventsOf events claim.claimId) claim

/-- Every amount is one of a `numeric(_, 4)` column. -/
structure Amounts (claims : List ReconcilableClaimRow) (events : List ReconcilableRecoveryEventRow) : Prop where
  claimed : ∀ claim ∈ claims, IsAmount claim.amountClaimed
  recovered : ∀ event ∈ events, IsAmount event.amountRecovered

theorem Amounts.eventsOf {claims : List ReconcilableClaimRow} {events : List ReconcilableRecoveryEventRow}
    (h : Amounts claims events) (claimId : String) :
    ∀ event ∈ eventsOf events claimId, IsAmount event.amountRecovered :=
  fun event he => h.recovered event (List.mem_of_mem_filter he)

/-- Adding up some claims. -/
theorem accumulate_sums {claims : List ReconcilableClaimRow} {events : List ReconcilableRecoveryEventRow}
    (hamounts : Amounts claims events) (h : Sums bucket units) (hunits : ∀ col, |units col| ≤ W)
    (hfit : W + (claims.map (rowWeight events)).sum < 10 ^ precision) :
    ∃ bucket', claims.foldlM (fun b claim => accumulateClaimReconciliation b claim (eventsOf events claim.claimId))
        bucket = .ok bucket' ∧
      Sums bucket' (fun col => units col + (claims.map fun claim => rowUnits events claim col).sum) := by
  induction claims generalizing bucket units W with
  | nil => exact ⟨bucket, rfl, by simpa using h⟩
  | cons claim claims ih =>
    obtain ⟨hclaim, hrest⟩ := List.forall_mem_cons.mp hamounts.claimed
    rw [List.map_cons, List.sum_cons] at hfit
    have hnonneg : 0 ≤ (claims.map (rowWeight events)).sum := List.sum_nonneg (fun n hn => by
      obtain ⟨c, -, rfl⟩ := List.mem_map.mp hn
      exact claimWeight_nonneg _ _)
    have hfirst : W + claimWeight (eventsOf events claim.claimId) claim < 10 ^ precision := by
      rw [rowWeight] at hfit
      omega
    obtain ⟨mid, hmid, hsums⟩ := accumulateClaimReconciliation_sums hclaim
      (hamounts.eventsOf claim.claimId) h hunits hfirst
    obtain ⟨bucket', hfold, hsums'⟩ := ih ⟨hrest, hamounts.recovered⟩ hsums
      (fun col => (abs_add_le _ _).trans
        (add_le_add (hunits col) (abs_claimUnits_le claim (eventsOf events claim.claimId) col)))
      (by rw [add_assoc]; exact hfit)
    refine ⟨bucket', by rw [List.foldlM_cons, hmid]; exact hfold, fun col => ?_⟩
    have hs := hsums' col
    simp only [List.map_cons, List.sum_cons, rowUnits] at hs ⊢
    rwa [← add_assoc]

end exactly

end Claims
