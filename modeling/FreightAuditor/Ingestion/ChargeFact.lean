import FreightAuditor.Library.ExceptOk
import FreightAuditor.Library.PgNumeric

/- The normalized billed-charge model, and the money helpers the adapters share.

   Amounts are texts. `exactValue` is what a text states; `sumMoney` adds them up in
   decimal arithmetic of 20 digits, which is exact while the running totals fit
   (`sumMoney_exact`) and is finite only if every amount is (`sumMoney_finite`). -/
namespace Ingestion

open DecimalJs DecimalText DecimalRounding PgNumeric

/-- `PDF`: extracted by a language model and confirmed from a draft. -/
inductive TransactionSet where
  | edi210 | edi310 | pdf
  deriving DecidableEq

def TransactionSet.text : TransactionSet → String
  | .edi210 => "210" | .edi310 => "310" | .pdf => "PDF"

structure NormalizedCharge where
  /-- The carrier's charge code. -/
  code : Option String
  x12Element : Option String
  /-- Canonical, through the crosswalk; absent if unresolved. -/
  category : Option String
  quarantined : Bool
  /-- A decimal text; absent where the source's could not be read as money. -/
  amount : Option String
  /-- Per charge, never defaulted. -/
  currency : String
  basis : Option String
  rate : Option String
  rawDescription : Option String
  sourceLoop : Option String
  deriving DecidableEq

/-- The footing triple of the gate. -/
structure Footing where
  declaredTotal : Option String
  lineSum : String
  deriving DecidableEq

structure ParsedInvoice where
  transactionSet : TransactionSet
  parserVersion : String
  invoiceNumber : Option String
  shipmentReferences : Option (List String)
  carrierCode : Option String
  containerNumbers : Option (List String)
  vesselVoyage : Option String
  portCodes : Option (List String)
  headerCurrency : Option String
  charges : List NormalizedCharge
  footing : Option Footing
  quarantinedCodes : List String
  deriving DecidableEq

/-- A crosswalk categorizer. -/
abbrev Categorize := Option String → Option String

section

variable (D : Type) [Decimal D]

/-- A money text at 4 decimals; absent where the source's is absent, empty or no number. -/
def money (raw : Option String) : Option String :=
  match raw with
  | none => none
  | some text => if text == "" then none else (Decimal.ofString text : Option D).map (Decimal.toFixed 4)

/-- One step of the sum. -/
def addMoney (acc : D) (text : String) : Except DecimalError D := do
  let d ← newDecimal D text
  return Decimal.plus acc d

/-- The sum of the amounts that are stated. -/
def sumMoney (values : List (Option String)) : Except DecimalError String := do
  let sum ← (values.filterMap id).foldlM (addMoney D) (Decimal.ofNumber (.ofNat 0))
  return Decimal.toFixed 4 sum

end

/-! ## Money texts -/

section

variable {D : Type} [Decimal D]

theorem newDecimal_eq_ok {text : String} {d : D} : newDecimal D text = .ok d ↔ Decimal.ofString text = some d := by
  unfold newDecimal
  cases (Decimal.ofString text : Option D) <;> simp

/-- The text of a finite value at `k` decimals states the value rounded to them. -/
theorem exactValue_toFixed {k : ℕ} {d : D} {q : ℚ} (h : Decimal.val d = .fin q) :
    exactValue (Decimal.toFixed k d) = some (roundDp k q) := by
  obtain ⟨l, hl, hval⟩ := literal?_fixedTextOf k q
  rw [exactValue, Decimal.toFixed_finite k d q h, String.toList_ofList, hl, Option.map_some, hval]

/-- The texts of `NaN` and the infinities state no decimal. -/
theorem exactValue_nonFinite {v : Val} (h : v.isFinite = false) : exactValue (nonFiniteText v) = none := by
  rcases v with _ | (_ | _) | q
  · decide
  · decide
  · decide
  · cases h

/-- `new Decimal(text)` of a decimal text. -/
theorem ofString_exactValue {text : String} {x : ℚ} (h : exactValue text = some x) :
    ∃ d : D, Decimal.ofString text = some d ∧ Decimal.val d = Val.ofExact x := by
  obtain ⟨l, hl, rfl⟩ := Option.map_eq_some_iff.mp h
  exact Decimal.ofString_literal text l hl

/-- A text that `money` returns. -/
def IsMoneyText (D : Type) [Decimal D] (text : String) : Prop := ∃ d : D, text = Decimal.toFixed 4 d

theorem isMoneyText_of_money {raw : Option String} {text : String} (h : money D raw = some text) :
    IsMoneyText D text := by
  unfold money at h
  split at h
  · cases h
  · split at h
    · cases h
    · obtain ⟨d, -, rfl⟩ := Option.map_eq_some_iff.mp h
      exact ⟨d, rfl⟩

/-- A money text reads back; if as a finite value, it states one. -/
theorem IsMoneyText.reads {text : String} (h : IsMoneyText D text) :
    ∃ d : D, Decimal.ofString text = some d ∧ ((Decimal.val d).isFinite = true → (exactValue text).isSome) := by
  obtain ⟨d, rfl⟩ := h
  cases hf : (Decimal.val d).isFinite
  · obtain ⟨d', hd', hv⟩ := Decimal.toFixed_reads_nonFinite (k := 4) hf
    exact ⟨d', hd', fun hfin => by rw [hv, hf] at hfin; cases hfin⟩
  · obtain ⟨q, hq⟩ := Val.isFinite_iff.mp hf
    obtain ⟨d', hd', -⟩ := Decimal.toFixed_reads (k := 4) hq
    exact ⟨d', hd', fun _ => by rw [exactValue_toFixed hq]; rfl⟩

/-! ## Sums -/

/-- A sum of texts that read back does not throw. -/
theorem foldlM_addMoney_total {texts : List String} (h : ∀ t ∈ texts, ∃ d : D, Decimal.ofString t = some d) :
    ∀ acc : D, ∃ sum, texts.foldlM (addMoney D) acc = .ok sum := by
  induction texts with
  | nil => exact fun acc => ⟨acc, rfl⟩
  | cons t rest ih =>
    intro acc
    obtain ⟨d, hd⟩ := h t List.mem_cons_self
    obtain ⟨sum, hsum⟩ := ih (fun t ht => h t (List.mem_cons_of_mem _ ht)) (Decimal.plus acc d)
    exact ⟨sum, by rw [List.foldlM_cons, addMoney, newDecimal_eq_ok.mpr hd]; exact hsum⟩

/-- A finite sum has finite terms. -/
theorem foldlM_addMoney_finite {texts : List String} {sum : D} :
    ∀ {acc : D}, texts.foldlM (addMoney D) acc = .ok sum → (Decimal.val sum).isFinite = true →
      (Decimal.val acc).isFinite = true ∧
        ∀ t ∈ texts, ∃ d : D, Decimal.ofString t = some d ∧ (Decimal.val d).isFinite = true := by
  induction texts with
  | nil =>
    intro acc h hfin
    cases h
    exact ⟨hfin, by simp⟩
  | cons t rest ih =>
    intro acc h hfin
    simp only [List.foldlM_cons, addMoney, ExceptOk.bind_eq_ok, ExceptOk.pure_eq_ok] at h
    obtain ⟨next, ⟨d, hd, rfl⟩, hrest⟩ := h
    obtain ⟨hplus, hterms⟩ := ih hrest hfin
    obtain ⟨q, hq⟩ := Val.isFinite_iff.mp hplus
    obtain ⟨x, y, hx, hy⟩ := Val.add_finite ((Decimal.val_plus acc d).symm.trans hq)
    refine ⟨Val.isFinite_iff.mpr ⟨x, hx⟩, fun u hu => ?_⟩
    rcases List.mem_cons.mp hu with rfl | hu
    · exact ⟨d, newDecimal_eq_ok.mp hd, Val.isFinite_iff.mpr ⟨y, hy⟩⟩
    · exact hterms u hu

/-- While the amounts, in units of the fourth decimal, come to less than 20 digits, their sum is
exact. -/
theorem foldlM_addMoney_exact {texts : List String} {ns : List ℤ} (h : List.Forall₂ (ReadsAs 4) texts ns) :
    ∀ {acc : D} {a : ℤ}, Decimal.val acc = .fin (a / 10 ^ 4) → |a| + (ns.map abs).sum < 10 ^ precision →
      ∃ sum, texts.foldlM (addMoney D) acc = .ok sum ∧ Decimal.val sum = .fin ((a + ns.sum : ℤ) / 10 ^ 4) := by
  induction h with
  | nil => exact fun hacc _ => ⟨_, rfl, by rw [hacc]; simp⟩
  | @cons t n texts ns ht _ ih =>
    intro acc a hacc hbound
    rw [List.map_cons, List.sum_cons] at hbound
    have hrest : 0 ≤ (ns.map abs).sum := List.sum_nonneg (by simp)
    have htri := abs_add_le a n
    have hn : |n| < 10 ^ precision := by have := abs_nonneg a; omega
    have hsum : |a + n| < 10 ^ precision := by omega
    have hroom : |a + n| < 2 * 10 ^ precision := by have := abs_nonneg (a + n); omega
    obtain ⟨d, hd, hden⟩ := newDecimal_readsAs (D := D) ht
    have hval : Decimal.val d = .fin (n / 10 ^ 4) :=
      denotes_fin (p := precision) (by decide) (by decide) hden hn
    have hplus : Decimal.val (Decimal.plus acc d) = .fin ((a + n : ℤ) / 10 ^ 4) := by
      have hexact : (a : ℚ) / 10 ^ 4 + n / 10 ^ 4 = ((a + n : ℤ) : ℚ) * (10 : ℚ) ^ (-4 : ℤ) := by
        push_cast
        norm_num
        ring
      have hunits : ((a + n : ℤ) : ℚ) * (10 : ℚ) ^ (-4 : ℤ) = ((a + n : ℤ) : ℚ) / 10 ^ 4 := by
        norm_num
        ring
      rw [Decimal.val_plus, hacc, hval, Val.add_fin, hexact, roundSig_scaled hsum, hunits,
        Val.ofExact_inRange (units_log (by decide) _) (units_small (p := precision) (by decide) hroom)]
    obtain ⟨sum, hfold, hres⟩ := ih hplus (by omega)
    refine ⟨sum, ?_, ?_⟩
    · rw [List.foldlM_cons, addMoney, hd]
      exact hfold
    · rw [hres, List.sum_cons, add_assoc]

end

end Ingestion
