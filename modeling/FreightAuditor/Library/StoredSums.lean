import FreightAuditor.Library.PgNumeric

/- Sums of decimal.js amounts that a `numeric(p, s)` column accepts.

   A long sum of amounts can outgrow the 20 digits of decimal.js, and is then rounded. It
   is then also too large for the column: whatever sum of amounts that are not negative
   the column stores, is exact. -/
namespace PgNumeric

open DecimalText DecimalRounding DecimalJs

variable {D : Type} [Decimal D] {p s : ℕ} {x y : D} {a b : ℤ}

/-- The value is `n` units exactly or, as `n` units, too large for the column. -/
def ExactlyOrOver (p s : ℕ) (x : D) (n : ℤ) : Prop :=
  Exactly s x n ∨ 10 ^ p ≤ n ∧ (Val.fin (10 ^ p / 10 ^ s)).le (Decimal.val x) = true

theorem ExactlyOrOver.over (hx : ExactlyOrOver p s x a) (ha : 10 ^ p ≤ a) :
    (Val.fin (10 ^ p / 10 ^ s)).le (Decimal.val x) = true := by
  rcases hx with hx | hx
  · have h10 : (0 : ℚ) < 10 ^ s := by positivity
    rw [hx, Val.le_fin, decide_eq_true_eq]
    exact div_le_div_of_nonneg_right (by exact_mod_cast ha) h10.le
  · exact hx.2

/-- Adding to a value that is too large leaves one that is. -/
theorem over_plus (hsp : s ≤ p) (hp : p < precision)
    (hx : (Val.fin (10 ^ p / 10 ^ s)).le (Decimal.val x) = true) (hy : Exactly s y b) (hb : 0 ≤ b) :
    (Val.fin (10 ^ p / 10 ^ s)).le (Decimal.val (Decimal.plus x y)) = true := by
  rw [Decimal.val_plus, hy]
  cases hv : Decimal.val x with
  | nan => rw [hv] at hx; cases hx
  | inf neg =>
    rw [hv] at hx
    cases neg with
    | true => cases hx
    | false => rfl
  | fin q =>
    rw [hv, Val.le_fin, decide_eq_true_eq] at hx
    have h10 : (0 : ℚ) < 10 ^ s := by positivity
    have hone : (1 : ℚ) ≤ 10 ^ p / 10 ^ s := by
      rw [one_le_div h10]
      exact pow_le_pow_right₀ (by norm_num) hsp
    have hround : roundSig precision ((10 : ℚ) ^ p / 10 ^ s) = 10 ^ p / 10 ^ s := by
      have hscaled : (10 : ℚ) ^ p / 10 ^ s = ((10 ^ p : ℤ) : ℚ) * (10 : ℚ) ^ (-(s : ℤ)) := by
        rw [zpow_neg, zpow_natCast, div_eq_mul_inv]
        push_cast
        rfl
      have hfits : |(10 : ℤ) ^ p| < 10 ^ precision := by
        rw [abs_of_nonneg (by positivity)]
        exact pow_lt_pow_right₀ (by norm_num) hp
      rw [hscaled, roundSig_scaled hfits]
    have hsum : (10 : ℚ) ^ p / 10 ^ s ≤ q + b / 10 ^ s :=
      le_add_of_le_of_nonneg hx (div_nonneg (by exact_mod_cast hb) h10.le)
    have hle : (10 : ℚ) ^ p / 10 ^ s ≤ roundSig precision (q + b / 10 ^ s) := by
      rw [← hround]
      exact roundSig_mono (by decide) hsum
    have hlog : -maxE ≤ Int.log 10 |roundSig precision (q + b / 10 ^ s)| := by
      have hpos := hone.trans hle
      rw [abs_of_nonneg (zero_le_one.trans hpos)]
      refine (Int.zpow_le_iff_le_log (b := 10) (by norm_num) (zero_lt_one.trans_le hpos)).mp ?_
      refine le_trans ?_ hpos
      rw [Nat.cast_ofNat, zpow_neg]
      exact inv_le_one_of_one_le₀ (one_le_zpow₀ (by norm_num) (by decide))
    have hbound : |(10 : ℚ) ^ p / 10 ^ s| < (10 : ℚ) ^ maxE := by
      rw [abs_of_nonneg (zero_le_one.trans hone), ← zpow_natCast, ← zpow_natCast, ← zpow_sub₀ (by norm_num)]
      refine zpow_lt_zpow_right₀ (by norm_num) ?_
      have : (p : ℤ) < 20 := by exact_mod_cast hp
      have : (20 : ℤ) ≤ maxE := by decide
      omega
    rw [Val.add_fin, (Val.ofExact_le (.inr hlog) hbound).2, decide_eq_true_eq]
    exact hle

theorem ExactlyOrOver.plus (hsp : s ≤ p) (hp : p < precision) (hx : ExactlyOrOver p s x a) (ha : 0 ≤ a)
    (hy : Exactly s y b) (hb : 0 ≤ b) (hfit : b < 10 ^ p) : ExactlyOrOver p s (Decimal.plus x y) (a + b) := by
  by_cases hover : 10 ^ p ≤ a
  · exact .inr ⟨by omega, over_plus hsp hp (hx.over hover) hy hb⟩
  · have hexact : Exactly s x a := hx.resolve_right fun h => hover h.1
    have hs : (s : ℤ) ≤ maxE := by
      have : (s : ℤ) ≤ 20 := by exact_mod_cast hsp.trans hp.le
      have : (20 : ℤ) ≤ maxE := by decide
      omega
    have hpos : (0 : ℤ) < 10 ^ p := by positivity
    have hroom : 2 * (10 : ℤ) ^ p ≤ 10 ^ precision := by
      calc 2 * (10 : ℤ) ^ p ≤ 10 * 10 ^ p := by omega
        _ = 10 ^ (p + 1) := by ring
        _ ≤ 10 ^ precision := pow_le_pow_right₀ (by norm_num) hp
    refine .inl (hexact.plus hs hy ?_)
    rw [abs_of_nonneg (by omega)]
    omega

/-- A sum of amounts that are not negative. -/
theorem exactlyOrOver_foldl (hsp : s ≤ p) (hp : p < precision) {ds : List D} {ns : List (Numeric p s)}
    (h : List.Forall₂ (fun d n => Exactly s d n.units) ds ns) (hsign : ∀ n ∈ ns, 0 ≤ n.units) :
    ∀ {x : D} {a : ℤ}, ExactlyOrOver p s x a → 0 ≤ a →
      ExactlyOrOver p s (ds.foldl Decimal.plus x) (a + total ns) := by
  induction h with
  | nil => intro x a hx _; simpa using hx
  | @cons d n ds ns hd _ ih =>
    intro x a hx ha
    have hn : 0 ≤ n.units := hsign n List.mem_cons_self
    have hfit : n.units < 10 ^ p := (abs_lt.mp n.inRange).2
    have hnext := ih (fun m hm => hsign m (List.mem_cons_of_mem _ hm)) (hx.plus hsp hp ha hd hn hfit) (by omega)
    rwa [List.foldl_cons, total_cons, ← add_assoc]

/-- What the column stores of such a value is exact. -/
theorem ExactlyOrOver.stored (hx : ExactlyOrOver p s x a) {m : Numeric p s}
    (hm : ofText p s (Decimal.toFixed s x) = some m) : m.units = a := by
  rcases hx with hx | ⟨-, hover⟩
  · rw [hx.toFixed] at hm
    exact (ofText_eq (readsAs_fixedText s a)).mp hm
  · exfalso
    cases hv : Decimal.val x with
    | nan => rw [hv] at hover; cases hover
    | inf neg =>
      rw [hv] at hover
      cases neg with
      | true => cases hover
      | false =>
        have htext : Decimal.toFixed s x = "Infinity" := by
          rw [Decimal.toFixed_nonFinite s x (by rw [hv]; rfl), hv]
          rfl
        have hnone : literal? "Infinity".toList = none := by decide
        rw [htext, ofText, hnone] at hm
        cases hm
    | fin q =>
      rw [hv, Val.le_fin, decide_eq_true_eq] at hover
      have h10 : (0 : ℚ) < 10 ^ s := by positivity
      obtain ⟨l, hl, hval⟩ := literal?_fixedTextOf s q
      have hbig : (10 : ℤ) ^ p ≤ roundHalfUp (l.value * 10 ^ s) := by
        rw [hval, roundDp, div_mul_cancel₀ _ h10.ne', roundHalfUp_intCast]
        have hmono := roundHalfUp_mono ((div_le_iff₀ h10).mp hover)
        have hcast : ((10 : ℚ) ^ p) = (((10 : ℤ) ^ p : ℤ) : ℚ) := by push_cast; rfl
        rwa [hcast, roundHalfUp_intCast] at hmono
      rw [Decimal.toFixed_finite s x q hv, ofText, String.toList_ofList, hl] at hm
      simp only at hm
      rw [dif_neg] at hm
      · cases hm
      · rw [abs_of_nonneg (le_trans (by positivity) hbig)]
        omega

end PgNumeric
