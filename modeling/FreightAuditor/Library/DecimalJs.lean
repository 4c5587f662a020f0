import FreightAuditor.Library.Rounding
import FreightAuditor.Library.DecimalText

/- decimal.js at its default configuration (20 significant digits, half-up,
   exponents within ±9e15), as its documentation states it.

   `Val` is what a Decimal denotes and carries the arithmetic: exact, then rounded
   to 20 digits, then brought into the exponent range. `Decimal D` is the interface
   of the library over an arbitrary carrier: its operations, and the documented
   facts about them as fields. Everything above is stated over `Decimal D`; `Ref`
   is one carrier that satisfies all of them, used where something is computed.

   The text of a Decimal is only pinned down by reading it back (`toString_reads`),
   except for `toFixed`, whose text is given exactly. -/
namespace DecimalJs

open DecimalRounding DecimalText

/-- What a Decimal denotes. -/
inductive Val where
  | nan
  | inf (neg : Bool)
  | fin (q : ℚ)
  deriving DecidableEq

/-- Significant digits of an arithmetic result. -/
def precision : ℕ := 20

/-- The largest exponent; its negative is the smallest. -/
def maxE : ℤ := 9000000000000000

namespace Val

/-- An exact value brought into the exponent range: too large overflows to an infinity,
too small underflows to zero. -/
def ofExact (q : ℚ) : Val :=
  if q = 0 then fin 0
  else if maxE < Int.log 10 |q| then inf (decide (q < 0))
  else if Int.log 10 |q| < -maxE then fin 0
  else fin q

def isFinite : Val → Bool
  | fin _ => true
  | _ => false

def neg : Val → Val
  | nan => nan
  | inf s => inf (!s)
  | fin q => fin (-q)

def abs : Val → Val
  | nan => nan
  | inf _ => inf false
  | fin q => fin |q|

def add : Val → Val → Val
  | nan, _ => nan
  | _, nan => nan
  | inf s, inf t => if s = t then inf s else nan
  | inf s, fin _ => inf s
  | fin _, inf t => inf t
  | fin x, fin y => ofExact (roundSig precision (x + y))

def sub (a b : Val) : Val := a.add b.neg

def mul : Val → Val → Val
  | nan, _ => nan
  | _, nan => nan
  | inf s, inf t => inf (s != t)
  | inf s, fin y => if y = 0 then nan else inf (s != decide (y < 0))
  | fin x, inf t => if x = 0 then nan else inf (decide (x < 0) != t)
  | fin x, fin y => ofExact (roundSig precision (x * y))

/-- `eq`: `NaN` equals nothing. -/
def eq : Val → Val → Bool
  | inf s, inf t => s == t
  | fin x, fin y => decide (x = y)
  | _, _ => false

/-- `lte`: `NaN` compares with nothing. -/
def le : Val → Val → Bool
  | nan, _ => false
  | _, nan => false
  | inf true, _ => true
  | _, inf false => true
  | inf false, _ => false
  | _, inf true => false
  | fin x, fin y => decide (x ≤ y)

def lt (a b : Val) : Bool := a.le b && !a.eq b

@[simp] theorem le_fin (x y : ℚ) : (fin x).le (fin y) = decide (x ≤ y) := rfl
@[simp] theorem eq_fin (x y : ℚ) : (fin x).eq (fin y) = decide (x = y) := rfl
@[simp] theorem add_fin (x y : ℚ) : (fin x).add (fin y) = ofExact (roundSig precision (x + y)) := rfl
@[simp] theorem sub_fin (x y : ℚ) : (fin x).sub (fin y) = ofExact (roundSig precision (x - y)) := by
  simp [sub, neg, sub_eq_add_neg]
@[simp] theorem mul_fin (x y : ℚ) : (fin x).mul (fin y) = ofExact (roundSig precision (x * y)) := rfl
@[simp] theorem abs_fin (x : ℚ) : (fin x).abs = fin |x| := rfl

@[simp] theorem lt_fin (x y : ℚ) : (fin x).lt (fin y) = decide (x < y) := by
  by_cases h : x < y
  · simp [lt, h.le, h.ne, h]
  · by_cases h' : x ≤ y
    · simp [lt, le_antisymm h' (not_lt.mp h)]
    · simp [lt, h', h]

theorem eq_iff {a b : Val} : a.eq b = true ↔ a = b ∧ a ≠ nan := by
  cases a <;> cases b <;> simp [eq]

theorem le_trans {a b c : Val} (hab : a.le b = true) (hbc : b.le c = true) : a.le c = true := by
  cases a with
  | nan => cases hab
  | inf s =>
    cases s <;> cases b with
    | nan => cases hab
    | inf t => cases t <;> rcases c with _ | (_ | _) | z <;> simp_all [le]
    | fin y => rcases c with _ | (_ | _) | z <;> simp_all [le]
  | fin x =>
    cases b with
    | nan => cases hab
    | inf t => cases t <;> rcases c with _ | (_ | _) | z <;> simp_all [le]
    | fin y =>
      cases c with
      | nan => cases hbc
      | inf u => cases u <;> simp_all [le]
      | fin z =>
        simp only [le_fin, decide_eq_true_eq] at *
        exact hab.trans hbc

theorem le_antisymm {a b : Val} (hab : a.le b = true) (hba : b.le a = true) : a.eq b = true := by
  cases a with
  | nan => cases hab
  | inf s => cases s <;> cases b with
    | nan => cases hab
    | inf t => cases t <;> simp_all [le, eq]
    | fin y => simp_all [le]
  | fin x =>
    cases b with
    | nan => cases hab
    | inf t => cases t <;> simp_all [le]
    | fin y =>
      simp only [le_fin, eq_fin, decide_eq_true_eq] at *
      exact hab.antisymm hba

theorem lt_iff {a b : Val} : a.lt b = true ↔ a.le b = true ∧ a.eq b = false := by
  simp [lt]

theorem lt_of_lt_of_le {a b c : Val} (hab : a.lt b = true) (hbc : b.le c = true) :
    a.lt c = true := by
  rw [lt_iff] at *
  refine ⟨le_trans hab.1 hbc, ?_⟩
  -- were they equal, the two bounds of `b` would meet
  by_contra hac
  obtain ⟨rfl, -⟩ := eq_iff.mp (by simpa using hac : a.eq c = true)
  rw [le_antisymm hab.1 hbc] at hab
  exact absurd hab.2 (by simp)

theorem lt_of_le_of_lt {a b c : Val} (hab : a.le b = true) (hbc : b.lt c = true) :
    a.lt c = true := by
  rw [lt_iff] at *
  refine ⟨le_trans hab hbc.1, ?_⟩
  by_contra hac
  obtain ⟨rfl, -⟩ := eq_iff.mp (by simpa using hac : a.eq c = true)
  rw [le_antisymm hbc.1 hab] at hbc
  exact absurd hbc.2 (by simp)

theorem isFinite_iff {v : Val} : v.isFinite = true ↔ ∃ q, v = fin q := by
  cases v <;> simp [isFinite]

@[simp] theorem isFinite_neg (v : Val) : v.neg.isFinite = v.isFinite := by cases v <;> rfl

/-- A finite sum has finite summands. -/
theorem add_finite {a b : Val} {q : ℚ} (h : a.add b = fin q) : ∃ x y, a = fin x ∧ b = fin y := by
  cases a <;> cases b <;> simp only [add] at h <;> first | exact ⟨_, _, rfl, rfl⟩ | (split at h <;> cases h) | cases h

@[simp] theorem ofExact_zero : ofExact 0 = fin 0 := by simp [ofExact]

theorem abs_ofExact (x : ℚ) : (ofExact x).abs = ofExact |x| := by
  have hsign : ¬ |x| < 0 := not_lt.mpr (abs_nonneg x)
  simp only [ofExact, abs_eq_zero, abs_abs, hsign, decide_false]
  split_ifs <;> simp [abs]

/-- In range, or flushed to zero. -/
theorem ofExact_fin {x q : ℚ} (h : ofExact x = fin q) : q = x ∨ q = 0 := by
  unfold ofExact at h
  split at h
  · right; exact (fin.inj h).symm
  · split at h
    · cases h
    · split at h
      · right; exact (fin.inj h).symm
      · left; exact (fin.inj h).symm

/-- Whole units of the `k`-th decimal do not underflow. -/
theorem ofExact_units {k : ℕ} (hk : (k : ℤ) ≤ maxE) {n : ℤ} {q : ℚ}
    (h : ofExact (n / 10 ^ k) = fin q) : q = n / 10 ^ k := by
  by_cases hn : n = 0
  · subst hn
    simp only [Int.cast_zero, zero_div, ofExact_zero, fin.injEq] at h ⊢
    exact h.symm
  unfold ofExact at h
  have hx : (n : ℚ) / 10 ^ k ≠ 0 := div_ne_zero (by exact_mod_cast hn) (by positivity)
  rw [if_neg hx] at h
  split at h
  · cases h
  · split at h
    · rename_i hlow
      exfalso
      have hone : (1 : ℚ) ≤ |(n : ℚ)| := by exact_mod_cast Int.one_le_abs hn
      have hge : (10 : ℚ) ^ (-(k : ℤ)) ≤ |(n : ℚ) / 10 ^ k| := by
        rw [abs_div, abs_of_pos (by positivity : (0 : ℚ) < 10 ^ k), zpow_neg, zpow_natCast,
          div_eq_mul_inv]
        exact le_mul_of_one_le_left (by positivity) hone
      have := (Int.zpow_le_iff_le_log (b := 10) (by norm_num) (abs_pos.mpr hx)).mp
        (by exact_mod_cast hge)
      omega
    · exact (fin.inj h).symm

/-- A value that does not underflow compares with a bound in range as it does before the range
is applied. -/
theorem ofExact_le {x y : ℚ} (hx : x = 0 ∨ -maxE ≤ Int.log 10 |x|) (hy : |y| < (10 : ℚ) ^ maxE) :
    (ofExact x).le (fin y) = decide (x ≤ y) ∧ (fin y).le (ofExact x) = decide (y ≤ x) := by
  by_cases h0 : x = 0
  · simp [h0]
  have hlow : ¬ Int.log 10 |x| < -maxE := not_lt.mpr (hx.resolve_left h0)
  unfold ofExact
  rw [if_neg h0]
  split
  · -- overflow: the exact value is beyond the bound, on the side of its sign
    rename_i hover
    have hbig : |y| < |x| := by
      have h10 : (10 : ℚ) ^ maxE ≤ |x| :=
        (Int.zpow_le_iff_le_log (b := 10) (by norm_num) (abs_pos.mpr h0)).mpr hover.le
      exact hy.trans_le (by exact_mod_cast h10)
    by_cases hneg : x < 0
    · rw [abs_of_neg hneg] at hbig
      have hxy : x < y := by have := neg_abs_le y; linarith
      simp [hneg, le, hxy.le, hxy.not_ge]
    · rw [abs_of_nonneg (not_lt.mp hneg)] at hbig
      have hyx : y < x := (le_abs_self y).trans_lt hbig
      simp [hneg, le, hyx.le, hyx.not_ge]
  · exact ⟨rfl, rfl⟩

/-- A small value is in range. -/
theorem ofExact_inRange {x : ℚ} (hx : x = 0 ∨ -maxE ≤ Int.log 10 |x|) (hsmall : |x| < (10 : ℚ) ^ maxE) :
    ofExact x = fin x := by
  by_cases h0 : x = 0
  · simp [h0]
  have hlt : Int.log 10 |x| < maxE :=
    (Int.lt_zpow_iff_log_lt (b := 10) (by norm_num) (abs_pos.mpr h0)).mp (by exact_mod_cast hsmall)
  rw [ofExact, if_neg h0, if_neg (not_lt.mpr hlt.le), if_neg (not_lt.mpr (hx.resolve_left h0))]

theorem eq_eq_le (a b : Val) : a.eq b = (a.le b && b.le a) := by
  rw [Bool.eq_iff_iff, Bool.and_eq_true]
  constructor
  · intro h
    obtain ⟨rfl, hnan⟩ := eq_iff.mp h
    rcases a with _ | (_ | _) | q <;> simp_all [le]
  · exact fun h => le_antisymm h.1 h.2

end Val

/-- A JavaScript number. A finite one is given by the text it prints as, which determines it. -/
inductive JsNumber where
  | nan
  | inf (neg : Bool)
  | fin (t : NumberText)
  deriving DecidableEq

def JsNumber.ofNat (n : ℕ) : JsNumber := .fin (NumberText.ofNat n)

def JsNumber.val : JsNumber → Val
  | .nan => .nan
  | .inf s => .inf s
  | .fin t => Val.ofExact t.value

/-- The text of `toFixed(k)` of a finite value: rounded half-up to `k` decimals, with the
sign the value had before rounding. -/
def fixedTextOf (k : ℕ) (q : ℚ) : List Char :=
  (if q < 0 then ['-'] else []) ++ fixedText k |roundHalfUp (q * 10 ^ k)|

/-- The text of `toFixed(k)` is a literal of the rounded value, with `k` decimals. -/
theorem literal?_fixedTextOf_exp (k : ℕ) (q : ℚ) :
    ∃ l, literal? (fixedTextOf k q) = some l ∧ l.exp = -k ∧ l.value = roundDp k q := by
  have hn : ¬ |roundHalfUp (q * 10 ^ k)| < 0 := not_lt.mpr (abs_nonneg _)
  have hlit := literal?_fixedText k |roundHalfUp (q * 10 ^ k)|
  by_cases hq : q < 0
  · -- the minus sign in front of the digits of the absolute value
    have hr : roundHalfUp (q * 10 ^ k) ≤ 0 := by
      have hm := roundHalfUp_mono (mul_nonpos_of_nonpos_of_nonneg hq.le (by positivity : (0:ℚ) ≤ 10 ^ k))
      rwa [roundHalfUp_zero] at hm
    have hd : takeSign (fixedText k |roundHalfUp (q * 10 ^ k)|) =
        (false, fixedText k |roundHalfUp (q * 10 ^ k)|) := by
      refine takeSign_digit (fun c hc => ?_)
      simp only [fixedText, hn, if_false, List.nil_append] at hc
      rw [List.head?_append_of_ne_nil _ Nat.toDigits_ne_nil] at hc
      exact toDigits_isDigit _ c (List.mem_of_mem_head? hc)
    refine ⟨⟨true, |roundHalfUp (q * 10 ^ k)|.natAbs, -k⟩, ?_, rfl, ?_⟩
    · simp only [literal?, hd, hn, decide_false] at hlit
      simp only [fixedTextOf, hq, if_true, List.singleton_append, literal?, takeSign]
      revert hlit
      cases mantissa? (fixedText k |roundHalfUp (q * 10 ^ k)|) with
      | none => simp
      | some m =>
        obtain ⟨d, k', r⟩ := m
        cases exponent? r <;> simp
    · have habs : -((|roundHalfUp (q * 10 ^ k)|.natAbs : ℤ)) = roundHalfUp (q * 10 ^ k) := by
        rw [abs_of_nonpos hr]
        omega
      simp only [Literal.value, Literal.coef, if_true, zpow_neg, zpow_natCast, roundDp, div_eq_mul_inv, habs]
  · have hr : 0 ≤ roundHalfUp (q * 10 ^ k) :=
      roundHalfUp_nonneg (mul_nonneg (not_lt.mp hq) (by positivity))
    refine ⟨_, by rw [fixedTextOf, if_neg hq, List.nil_append]; exact hlit, rfl, ?_⟩
    rw [value_fixedText, abs_of_nonneg hr, roundDp]

theorem literal?_fixedTextOf (k : ℕ) (q : ℚ) :
    ∃ l, literal? (fixedTextOf k q) = some l ∧ l.value = roundDp k q := by
  obtain ⟨l, hl, -, hval⟩ := literal?_fixedTextOf_exp k q
  exact ⟨l, hl, hval⟩

/-- The text of an infinity or of `NaN`. -/
def nonFiniteText : Val → String
  | .inf true => "-Infinity"
  | .inf false => "Infinity"
  | _ => "NaN"

/-- The library: its operations over a carrier `D`, and what is documented about them. -/
class Decimal (D : Type) where
  val : D → Val
  /-- `new Decimal(text)`; `none` where the constructor throws. -/
  ofString : String → Option D
  /-- `new Decimal(number)`. -/
  ofNumber : JsNumber → D
  toString : D → String
  toFixed : ℕ → D → String
  plus : D → D → D
  minus : D → D → D
  times : D → D → D
  dividedBy : D → D → D
  abs : D → D
  isNegative : D → Bool
  ofString_literal : ∀ s l, literal? s.toList = some l →
    ∃ d, ofString s = some d ∧ val d = Val.ofExact l.value
  ofString_nonFinite : ∀ v, Val.isFinite v = false →
    ∃ d, ofString (nonFiniteText v) = some d ∧ val d = v
  val_ofNumber : ∀ n, val (ofNumber n) = n.val
  val_inRange : ∀ d q, val d = .fin q → Val.ofExact q = .fin q
  toString_reads : ∀ d, ∃ d', ofString (toString d) = some d' ∧ val d' = val d
  toString_congr : ∀ a b, val a = val b → toString a = toString b
  toFixed_finite : ∀ k d q, val d = .fin q → toFixed k d = String.ofList (fixedTextOf k q)
  toFixed_nonFinite : ∀ k d, (val d).isFinite = false → toFixed k d = nonFiniteText (val d)
  val_plus : ∀ a b, val (plus a b) = (val a).add (val b)
  val_minus : ∀ a b, val (minus a b) = (val a).sub (val b)
  val_times : ∀ a b, val (times a b) = (val a).mul (val b)
  val_dividedBy : ∀ a b x y, val a = .fin x → val b = .fin y → y ≠ 0 →
    val (dividedBy a b) = Val.ofExact (roundSig precision (x / y))
  val_abs : ∀ a, val (abs a) = (val a).abs
  isNegative_finite : ∀ a q, val a = .fin q → q ≠ 0 → isNegative a = decide (q < 0)

/-- What `new Decimal(text)` throws. -/
structure DecimalError where
  argument : String
  deriving DecidableEq

/-- `new Decimal(text)`. -/
def newDecimal (D : Type) [Decimal D] (text : String) : Except DecimalError D :=
  match Decimal.ofString text with
  | some d => .ok d
  | none => .error ⟨text⟩

namespace Decimal

variable {D : Type} [Decimal D]

def isFinite (d : D) : Bool := (val d).isFinite
def isZero (d : D) : Bool := (val d).eq (.fin 0)
def equals (a b : D) : Bool := (val a).eq (val b)
def lessThanOrEqualTo (a b : D) : Bool := (val a).le (val b)
def lessThan (a b : D) : Bool := (val a).lt (val b)
def greaterThanOrEqualTo (a b : D) : Bool := (val b).le (val a)
def greaterThan (a b : D) : Bool := (val b).lt (val a)

/-- Reading back the text of a value rounded to `k` decimals. -/
theorem toFixed_reads {k : ℕ} {d : D} {q : ℚ} (h : val d = .fin q) :
    ∃ d' : D, ofString (toFixed k d) = some d' ∧ val d' = Val.ofExact (roundDp k q) := by
  obtain ⟨l, hl, hval⟩ := literal?_fixedTextOf k q
  obtain ⟨d', hd', hv⟩ := ofString_literal (D := D) (String.ofList (fixedTextOf k q)) l
    (by rw [String.toList_ofList]; exact hl)
  exact ⟨d', by rw [toFixed_finite k d q h, hd'], by rw [hv, hval]⟩

theorem toFixed_reads_nonFinite {k : ℕ} {d : D} (h : (val d).isFinite = false) :
    ∃ d' : D, ofString (toFixed k d) = some d' ∧ val d' = val d := by
  rw [toFixed_nonFinite k d h]
  exact ofString_nonFinite _ h

theorem toFixed_congr {k : ℕ} {a b : D} (h : val a = val b) : toFixed k a = toFixed k b := by
  cases hf : (val a).isFinite
  · rw [toFixed_nonFinite k a hf, toFixed_nonFinite k b (h ▸ hf), h]
  · obtain ⟨q, hq⟩ := Val.isFinite_iff.mp hf
    rw [toFixed_finite k a q hq, toFixed_finite k b q (h ▸ hq)]

end Decimal

end DecimalJs
