import FreightAuditor.Library.DecimalJs

/- PostgreSQL's `numeric(p, s)`: a whole number of units of the `s`-th decimal, of at
   most `p` digits.

   Such a column reaches JavaScript as text (`text`, `sumText`) and comes back as text
   (`ofText`). `ReadsAs s t n` says that the text `t` stands for `n` units exactly;
   `compare_sum` says that decimal.js, adding two such texts at 20 digits, compares
   their sum with a third one as the exact units do. -/
namespace PgNumeric

open DecimalText DecimalRounding DecimalJs

structure Numeric (p s : ℕ) where
  units : ℤ
  inRange : |units| < 10 ^ p
  deriving DecidableEq

variable {p s : ℕ}

def Numeric.text (n : Numeric p s) : String := String.ofList (fixedText s n.units)

def total (ns : List (Numeric p s)) : ℤ := (ns.map Numeric.units).sum

/-- `COALESCE(SUM(column), 0)::text`. -/
def sumText (ns : List (Numeric p s)) : String :=
  if ns = [] then "0" else String.ofList (fixedText s (total ns))

/-- Input of a text: rounded half away from zero to `s` decimals; `none` where it is no number
or has too many digits. -/
def ofText (p s : ℕ) (text : String) : Option (Numeric p s) :=
  match literal? text.toList with
  | none => none
  | some l =>
    if h : |roundHalfUp (l.value * 10 ^ s)| < 10 ^ p then some ⟨roundHalfUp (l.value * 10 ^ s), h⟩
    else none

@[simp] theorem total_nil : total ([] : List (Numeric p s)) = 0 := rfl
@[simp] theorem total_cons (n : Numeric p s) (ns : List (Numeric p s)) :
    total (n :: ns) = n.units + total ns := rfl
@[simp] theorem total_append (ns ms : List (Numeric p s)) : total (ns ++ ms) = total ns + total ms := by
  simp [total]

/-- The text stands for exactly `n` units of the `s`-th decimal. -/
def ReadsAs (s : ℕ) (text : String) (n : ℤ) : Prop :=
  ∃ l, literal? text.toList = some l ∧ l.value = n / 10 ^ s

theorem readsAs_fixedText (s : ℕ) (n : ℤ) : ReadsAs s (String.ofList (fixedText s n)) n :=
  ⟨_, by rw [String.toList_ofList]; exact literal?_fixedText s n, value_fixedText s n⟩

theorem readsAs_text (n : Numeric p s) : ReadsAs s n.text n.units := readsAs_fixedText s n.units

theorem readsAs_sumText (ns : List (Numeric p s)) : ReadsAs s (sumText ns) (total ns) := by
  unfold sumText
  split
  · rename_i h
    refine ⟨⟨false, 0, 0⟩, by decide, ?_⟩
    simp [h, Literal.value, Literal.coef]
  · exact readsAs_fixedText s (total ns)

theorem readsAs_plain {text : String} (h : isPlainDecimal text.toList = true)
    (hk : decimals text.toList ≤ s) : ∃ n : ℕ, ReadsAs s text n := by
  obtain ⟨n, l, hl, hv⟩ := value_plain h hk
  exact ⟨n, l, hl, by rw [hv, Int.cast_natCast]⟩

theorem ReadsAs.unique {text : String} {n m : ℤ} (h : ReadsAs s text n) (h' : ReadsAs s text m) :
    n = m := by
  obtain ⟨l, hl, hv⟩ := h
  obtain ⟨l', hl', hv'⟩ := h'
  rw [hl] at hl'
  obtain rfl := Option.some.inj hl'
  rw [hv] at hv'
  have h10 : (10 : ℚ) ^ s ≠ 0 := by positivity
  exact_mod_cast (div_left_inj' h10).mp hv'

/-- Reading a text of `n` units stores `n` units, unless they are too many. -/
theorem ofText_eq {text : String} {n : ℤ} (h : ReadsAs s text n) {m : Numeric p s} :
    ofText p s text = some m ↔ m.units = n := by
  obtain ⟨l, hl, hv⟩ := h
  have h10 : (10 : ℚ) ^ s ≠ 0 := by positivity
  have hround : roundHalfUp (l.value * 10 ^ s) = n := by
    rw [hv, div_mul_cancel₀ _ h10, roundHalfUp_intCast]
  simp only [ofText, hl, hround]
  constructor
  · intro hm
    split at hm
    · rw [← Option.some.inj hm]
    · cases hm
  · intro hm
    have hin : |n| < 10 ^ p := hm ▸ m.inRange
    rw [dif_pos hin]
    obtain ⟨u, hu⟩ := m
    simp only at hm
    subst hm
    rfl

@[simp] theorem ofText_text (n : Numeric p s) : ofText p s n.text = some n :=
  (ofText_eq (readsAs_text n)).mpr rfl

/-! ## In decimal.js -/

variable {D : Type} [Decimal D]

/-- A decimal.js value of `n` units, up to overflow. -/
def Denotes (s : ℕ) (d : D) (n : ℤ) : Prop := Decimal.val d = Val.ofExact (n / 10 ^ s)

theorem newDecimal_readsAs {text : String} {n : ℤ} (h : ReadsAs s text n) :
    ∃ d : D, newDecimal D text = .ok d ∧ Denotes s d n := by
  obtain ⟨l, hl, hv⟩ := h
  obtain ⟨d, hd, hval⟩ := Decimal.ofString_literal (D := D) text l hl
  exact ⟨d, by simp [newDecimal, hd], by rw [Denotes, hval, hv]⟩

/-- Units do not underflow. -/
theorem units_log (hs : (s : ℤ) ≤ maxE) (n : ℤ) :
    (n : ℚ) / 10 ^ s = 0 ∨ -maxE ≤ Int.log 10 |(n : ℚ) / 10 ^ s| := by
  by_cases hn : n = 0
  · simp [hn]
  right
  have hx : (n : ℚ) / 10 ^ s ≠ 0 := div_ne_zero (by exact_mod_cast hn) (by positivity)
  have hone : (1 : ℚ) ≤ |(n : ℚ)| := by exact_mod_cast Int.one_le_abs hn
  have hge : (10 : ℚ) ^ (-(s : ℤ)) ≤ |(n : ℚ) / 10 ^ s| := by
    rw [abs_div, abs_of_pos (by positivity : (0 : ℚ) < 10 ^ s), zpow_neg, zpow_natCast, div_eq_mul_inv]
    exact le_mul_of_one_le_left (by positivity) hone
  have := (Int.zpow_le_iff_le_log (b := 10) (by norm_num) (abs_pos.mpr hx)).mp (by exact_mod_cast hge)
  omega

/-- Neither do units rounded to 20 digits. -/
theorem units_log_roundSig (hs : (s : ℤ) ≤ maxE) (n : ℤ) :
    roundSig precision ((n : ℚ) / 10 ^ s) = 0 ∨
      -maxE ≤ Int.log 10 |roundSig precision ((n : ℚ) / 10 ^ s)| := by
  by_cases h0 : (n : ℚ) / 10 ^ s = 0
  · left
    rw [h0, roundSig_zero]
  right
  have hge := le_abs_roundSig (p := precision) (by decide) h0
  have hpos : 0 < |roundSig precision ((n : ℚ) / 10 ^ s)| := (zpow_pos (by norm_num) _).trans_le hge
  exact ((units_log hs n).resolve_left h0).trans
    ((Int.zpow_le_iff_le_log (b := 10) (by norm_num) hpos).mp (by exact_mod_cast hge))

/-- Room between the digits of a column and the largest exponent. -/
theorem units_small (hp : (p : ℤ) + 1 ≤ maxE) {n : ℤ} (hn : |n| < 2 * 10 ^ p) :
    |(n : ℚ) / 10 ^ s| < (10 : ℚ) ^ maxE := by
  have h10 : (1 : ℚ) ≤ 10 ^ s := one_le_pow₀ (by norm_num)
  have hnq : |(n : ℚ)| ≤ 2 * 10 ^ p := by exact_mod_cast hn.le
  calc |(n : ℚ) / 10 ^ s| = |(n : ℚ)| / 10 ^ s := by
        rw [abs_div, abs_of_pos (zero_lt_one.trans_le h10)]
    _ ≤ |(n : ℚ)| := div_le_self (abs_nonneg _) h10
    _ ≤ 2 * 10 ^ p := hnq
    _ < 10 ^ (p + 1) := by
        rw [pow_succ]
        have : (0 : ℚ) < 10 ^ p := by positivity
        linarith
    _ = (10 : ℚ) ^ ((p : ℤ) + 1) := by rw [← zpow_natCast]; push_cast; rfl
    _ ≤ (10 : ℚ) ^ maxE := zpow_le_zpow_right₀ (by norm_num) hp

theorem denotes_fin (hp : (p : ℤ) + 1 ≤ maxE) (hs : (s : ℤ) ≤ maxE) {d : D} {n : ℤ}
    (h : Denotes s d n) (hn : |n| < 10 ^ p) : Decimal.val d = .fin (n / 10 ^ s) := by
  have hn2 : |n| < 2 * 10 ^ p := by
    have := abs_nonneg n
    omega
  rw [h, Val.ofExact_inRange (units_log hs n) (units_small hp hn2)]

/-- decimal.js compares the sum of two amounts with a third as their units compare, though it
rounds the sum to 20 digits: the second and the third fit, and the first may be anything. -/
theorem compare_sum (hp : p ≤ precision) (hs : (s : ℤ) ≤ maxE) {x y d : D} {a b c : ℤ}
    (hx : Denotes s x a) (hy : Denotes s y b) (hb : |b| < 10 ^ p) (hd : Denotes s d c)
    (hc : |c| < 10 ^ p) :
    (Decimal.val (Decimal.plus x y)).le (Decimal.val d) = decide (a + b ≤ c) ∧
      (Decimal.val d).le (Decimal.val (Decimal.plus x y)) = decide (c ≤ a + b) := by
  have hpE : (p : ℤ) + 1 ≤ maxE := by
    have : (p : ℤ) ≤ 20 := by exact_mod_cast hp
    unfold maxE
    omega
  rw [Decimal.val_plus, denotes_fin hpE hs hy hb, denotes_fin hpE hs hd hc]
  cases hv : Decimal.val x with
  | nan => exact absurd (hx.symm.trans hv) (by unfold Val.ofExact; split_ifs <;> simp)
  | inf t =>
    -- the first amount is out of range, so it alone decides
    have hbc : |c - b| < 2 * 10 ^ p := by
      have := abs_sub c b
      omega
    have h := Val.ofExact_le (units_log hs a) (units_small (s := s) hpE hbc)
    rw [← hx, hv] at h
    have h10 : (0 : ℚ) < 10 ^ s := by positivity
    have hle : ∀ m n : ℤ, (m : ℚ) / 10 ^ s ≤ n / 10 ^ s ↔ m ≤ n := fun m n => by
      rw [div_le_div_iff_of_pos_right h10, Int.cast_le]
    simp only [hle] at h
    simp only [Val.add]
    cases t
    · simp only [Val.le, Bool.false_eq, decide_eq_false_iff_not, Bool.true_eq, decide_eq_true_eq] at h ⊢
      constructor <;> omega
    · simp only [Val.le, Bool.false_eq, decide_eq_false_iff_not, Bool.true_eq, decide_eq_true_eq] at h ⊢
      constructor <;> omega
  | fin q =>
    obtain rfl := Val.ofExact_units hs (hx.symm.trans hv)
    have hz : ∀ n : ℤ, (n : ℚ) / 10 ^ s = n * (10 : ℚ) ^ (-(s : ℤ)) := fun n => by
      rw [zpow_neg, zpow_natCast, div_eq_mul_inv]
    have hsum : (a : ℚ) / 10 ^ s + b / 10 ^ s = ((a + b : ℤ) : ℚ) / 10 ^ s := by push_cast; ring
    have hc' : |c| < 10 ^ precision :=
      hc.trans_le (pow_le_pow_right₀ (by norm_num) hp)
    have hc2 : |c| < 2 * 10 ^ p := by
      have := abs_nonneg c
      omega
    rw [Val.add_fin, hsum]
    obtain ⟨h1, h2⟩ := Val.ofExact_le (units_log_roundSig hs (a + b)) (units_small (s := s) hpE hc2)
    rw [h1, h2, decide_eq_decide, decide_eq_decide, hz, hz]
    exact ⟨roundSig_le_iff (by decide) hc', le_roundSig_iff (by decide) hc'⟩

section

variable (hp : p ≤ precision) (hs : (s : ℤ) ≤ maxE) {x y d : D} {a b c : ℤ}
  (hx : Denotes s x a) (hy : Denotes s y b) (hb : |b| < 10 ^ p) (hd : Denotes s d c) (hc : |c| < 10 ^ p)

include hp hs hx hy hb hd hc

theorem sum_greaterThanOrEqualTo : Decimal.greaterThanOrEqualTo (Decimal.plus x y) d = decide (c ≤ a + b) :=
  (compare_sum hp hs hx hy hb hd hc).2

theorem sum_equals : Decimal.equals (Decimal.plus x y) d = decide (a + b = c) := by
  obtain ⟨h1, h2⟩ := compare_sum hp hs hx hy hb hd hc
  rw [Decimal.equals, Val.eq_eq_le, h1, h2, ← Bool.decide_and, decide_eq_decide]
  omega

theorem sum_greaterThan : Decimal.greaterThan (Decimal.plus x y) d = decide (c < a + b) := by
  obtain ⟨h1, h2⟩ := compare_sum hp hs hx hy hb hd hc
  rw [Decimal.greaterThan, Val.lt, Val.eq_eq_le, h1, h2, ← Bool.decide_and, ← decide_not,
    ← Bool.decide_and, decide_eq_decide]
  omega

end

/-- `x.minus(y).abs().lte(t)` of values of whole units compares the units. -/
theorem abs_minus_lessThanOrEqualTo (hp : p ≤ precision) (hs : (s : ℤ) ≤ maxE) {x y t : D} {a b c : ℤ}
    (hx : Decimal.val x = .fin (a / 10 ^ s)) (hy : Decimal.val y = .fin (b / 10 ^ s))
    (ht : Decimal.val t = .fin (c / 10 ^ s)) (hc : |c| < 10 ^ p) :
    Decimal.lessThanOrEqualTo (Decimal.abs (Decimal.minus x y)) t = decide (|a - b| ≤ c) := by
  have hpE : (p : ℤ) + 1 ≤ maxE := by
    have : (p : ℤ) ≤ 20 := by exact_mod_cast hp
    unfold maxE
    omega
  have hc2 : |c| < 2 * 10 ^ p := by
    have := abs_nonneg c
    omega
  have hc' : |c| < 10 ^ precision := hc.trans_le (pow_le_pow_right₀ (by norm_num) hp)
  have hz : ∀ n : ℤ, (n : ℚ) / 10 ^ s = n * (10 : ℚ) ^ (-(s : ℤ)) := fun n => by
    rw [zpow_neg, zpow_natCast, div_eq_mul_inv]
  have hdiff : |(a : ℚ) / 10 ^ s - b / 10 ^ s| = ((|a - b| : ℤ) : ℚ) / 10 ^ s := by
    rw [← sub_div, abs_div, abs_of_pos (by positivity : (0 : ℚ) < 10 ^ s)]
    push_cast
    rfl
  rw [Decimal.lessThanOrEqualTo, Decimal.val_abs, Decimal.val_minus, hx, hy, ht, Val.sub_fin,
    Val.abs_ofExact, abs_roundSig (by decide), hdiff,
    (Val.ofExact_le (units_log_roundSig hs |a - b|) (units_small (s := s) hpE hc2)).1, decide_eq_decide, hz, hz]
  exact roundSig_le_iff (by decide) hc'

/-- `lte(0)`. -/
theorem lessThanOrEqualTo_zero (hs : (s : ℤ) ≤ maxE) {x : D} {a : ℤ} (hx : Denotes s x a) :
    Decimal.lessThanOrEqualTo x (Decimal.ofNumber (JsNumber.ofNat 0)) = decide (a ≤ 0) := by
  have h0 : (JsNumber.ofNat 0).val = .fin 0 := by
    rw [JsNumber.ofNat, JsNumber.val, NumberText.value_ofNat, Nat.cast_zero, Val.ofExact_zero]
  have h10 : (0 : ℚ) < 10 ^ s := by positivity
  have h := (Val.ofExact_le (y := 0) (units_log hs a) (by rw [abs_zero]; exact zpow_pos (by norm_num) _)).1
  rw [Decimal.lessThanOrEqualTo, Decimal.val_ofNumber, h0, hx, h, decide_eq_decide,
    div_le_iff₀ h10, zero_mul, Int.cast_nonpos]

/-! ### Sums that fit -/

/-- A decimal.js value of exactly `n` units. -/
def Exactly (s : ℕ) (d : D) (n : ℤ) : Prop := Decimal.val d = .fin (n / 10 ^ s)

section exactly

variable {x y : D} {a b n : ℤ}

/-- Units of at most 20 digits are neither rounded nor out of range. -/
theorem ofExact_roundSig_units (hs : (s : ℤ) ≤ maxE) (hn : |n| < 10 ^ precision) :
    Val.ofExact (roundSig precision ((n : ℚ) / 10 ^ s)) = .fin (n / 10 ^ s) := by
  have hn2 : |n| < 2 * 10 ^ precision := by
    have : (0 : ℤ) < 10 ^ precision := by positivity
    omega
  have hz : (n : ℚ) / 10 ^ s = n * (10 : ℚ) ^ (-(s : ℤ)) := by
    rw [zpow_neg, zpow_natCast, div_eq_mul_inv]
  have hround : roundSig precision ((n : ℚ) / 10 ^ s) = n / 10 ^ s := by
    rw [hz, roundSig_scaled hn]
  rw [hround, Val.ofExact_inRange (units_log hs n) (units_small (by decide) hn2)]

theorem Exactly.plus (hs : (s : ℤ) ≤ maxE) (hx : Exactly s x a) (hy : Exactly s y b)
    (hfit : |a + b| < 10 ^ precision) : Exactly s (Decimal.plus x y) (a + b) := by
  rw [Exactly, Decimal.val_plus, hx, hy, Val.add_fin, ← add_div, ← Int.cast_add, ofExact_roundSig_units hs hfit]

theorem Exactly.minus (hs : (s : ℤ) ≤ maxE) (hx : Exactly s x a) (hy : Exactly s y b)
    (hfit : |a - b| < 10 ^ precision) : Exactly s (Decimal.minus x y) (a - b) := by
  rw [Exactly, Decimal.val_minus, hx, hy, Val.sub_fin, ← sub_div, ← Int.cast_sub, ofExact_roundSig_units hs hfit]

theorem exactly_zero : Exactly s (Decimal.ofNumber (D := D) (JsNumber.ofNat 0)) 0 := by
  rw [Exactly, Decimal.val_ofNumber, JsNumber.ofNat, JsNumber.val, NumberText.value_ofNat, Nat.cast_zero,
    Val.ofExact_zero, Int.cast_zero, zero_div]

theorem newDecimal_exactly (hs : (s : ℤ) ≤ maxE) {text : String} (h : ReadsAs s text n)
    (hfit : |n| < 10 ^ precision) : ∃ d : D, newDecimal D text = .ok d ∧ Exactly s d n := by
  obtain ⟨d, hd, hval⟩ := newDecimal_readsAs (D := D) h
  exact ⟨d, hd, denotes_fin (by decide) hs hval hfit⟩

theorem Exactly.toFixed (hx : Exactly s x n) : Decimal.toFixed s x = String.ofList (fixedText s n) := by
  have h10 : (0 : ℚ) < 10 ^ s := by positivity
  have hneg : ((n : ℚ) / 10 ^ s < 0) = (n < 0) := by
    rw [div_lt_iff₀ h10, zero_mul, Int.cast_lt_zero]
  rw [Decimal.toFixed_finite s x _ hx, fixedTextOf, div_mul_cancel₀ _ h10.ne', roundHalfUp_intCast]
  simp only [hneg, fixedText, not_lt.mpr (abs_nonneg n), if_false, List.nil_append, Int.natAbs_abs,
    List.append_assoc]

end exactly

end PgNumeric
