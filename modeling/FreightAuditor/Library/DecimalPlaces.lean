import FreightAuditor.Library.DecimalRef
import FreightAuditor.Library.PgNumeric

/- decimal.js: rounding a value to a number of decimals, and its sign.

   A sum is rounded to 20 digits before it is rounded to decimals. `roundHalfUp_eq_iff` says
   which values are rounded to a given number, so that two ways of rounding can be
   compared by what lies beyond the last decimal. -/
namespace DecimalJs

open DecimalRounding DecimalText

/-- `toDecimalPlaces(k, ROUND_HALF_UP)`. -/
class DecimalPlaces (D : Type) [Decimal D] where
  toDecimalPlaces : ℕ → D → D
  val_toDecimalPlaces : ∀ k d q, Decimal.val d = .fin q → Decimal.val (toDecimalPlaces k d) = Val.ofExact (roundDp k q)
  val_nonFinite : ∀ k d, (Decimal.val d).isFinite = false → Decimal.val (toDecimalPlaces k d) = Decimal.val d

def Ref.toDecimalPlaces (k : ℕ) (d : Ref) : Ref :=
  match d.val with
  | .fin q => Ref.ofUnits (roundHalfUp (q * 10 ^ k)) (-k)
  | _ => d

instance : DecimalPlaces Ref where
  toDecimalPlaces := Ref.toDecimalPlaces
  val_toDecimalPlaces k d q h := by
    have hval : d.val = .fin q := h
    have hunits : Ref.toDecimalPlaces k d = Ref.ofUnits (roundHalfUp (q * 10 ^ k)) (-k) := by
      rw [Ref.toDecimalPlaces, hval]
    show (Ref.toDecimalPlaces k d).val = _
    rw [hunits, Ref.val_ofUnits, roundDp, zpow_neg, zpow_natCast, div_eq_mul_inv]
  val_nonFinite k d h := by
    have hfinite : d.val.isFinite = false := h
    show (Ref.toDecimalPlaces k d).val = d.val
    unfold Ref.toDecimalPlaces
    split
    · rename_i q hq
      rw [hq] at hfinite
      cases hfinite
    · rfl

namespace Decimal

variable {D : Type} [Decimal D]

/-- `isPositive`: the sign is 1, as it is of `+0`. -/
def isPositive (d : D) : Bool := val d != .nan && !isNegative d

end Decimal

/-! ## Which values are rounded to a number -/

theorem roundHalfUp_eq_iff {y : ℚ} {n : ℤ} : roundHalfUp y = n ↔
    -1 / 2 ≤ y - n ∧ y - n ≤ 1 / 2 ∧ (y - n = 1 / 2 → n < 0) ∧ (y - n = -1 / 2 → 0 < n) := by
  unfold roundHalfUp
  split
  · rename_i hpos
    rw [Int.floor_eq_iff]
    constructor
    · rintro ⟨hlow, hhigh⟩
      refine ⟨by linarith, by linarith, fun heq => by linarith, fun heq => ?_⟩
      have hn : (0 : ℚ) < n := by linarith
      exact_mod_cast hn
    · rintro ⟨hlow, hhigh, htop, -⟩
      refine ⟨by linarith, lt_of_le_of_ne (by linarith) fun heq => ?_⟩
      have hn : n < 0 := htop (by linarith)
      have hn' : (n : ℚ) ≤ -1 := by exact_mod_cast Int.le_sub_one_of_lt hn
      linarith
  · rename_i hneg
    rw [neg_eq_iff_eq_neg, Int.floor_eq_iff]
    push_cast
    constructor
    · rintro ⟨hlow, hhigh⟩
      refine ⟨by linarith, by linarith, fun heq => ?_, fun heq => by linarith⟩
      have hn : (n : ℚ) < 0 := by linarith
      exact_mod_cast hn
    · rintro ⟨hlow, hhigh, -, hbottom⟩
      refine ⟨by linarith, lt_of_le_of_ne (by linarith) fun heq => ?_⟩
      have hn : 0 < n := hbottom (by linarith)
      have hn' : (1 : ℚ) ≤ n := by exact_mod_cast hn
      linarith

/-! ## Sums at a number of decimals -/

/-- Where the last of the digits kept is at the `k`-th decimal or before it, nothing is left beyond that decimal. -/
theorem roundSig_units_of_log {p k : ℕ} {x : ℚ} (hx : x ≠ 0) (hlast : -(k : ℤ) ≤ Int.log 10 |x| + 1 - p) :
    ∃ n : ℤ, roundSig p x = n / 10 ^ k := by
  obtain ⟨j, hj⟩ := Int.le.dest hlast
  refine ⟨roundHalfUp (x / ulp p x) * 10 ^ j, ?_⟩
  rw [roundSig, if_neg hx, ulp, ← hj, zpow_add₀ (by norm_num), zpow_natCast]
  push_cast
  rw [zpow_neg, zpow_natCast]
  ring

/-- So large a number of 20 digits has no decimals beyond the third. -/
theorem roundSig_large {x : ℚ} (h : (10 : ℚ) ^ (17 : ℤ) ≤ |x|) : ∃ n : ℤ, roundSig precision x = n / 10 ^ 4 := by
  have hx : x ≠ 0 := fun hzero => by
    rw [hzero, abs_zero] at h
    exact absurd h (not_le.mpr (by positivity))
  have hlog : 17 ≤ Int.log 10 |x| := (Int.zpow_le_iff_le_log (b := 10) (by norm_num) (abs_pos.mpr hx)).mp (by exact_mod_cast h)
  exact roundSig_units_of_log hx (by unfold precision; omega)

/-- A value rounded to 20 digits that is in range is in range at four decimals. -/
theorem ofExact_roundDp_roundSig {x q : ℚ} (hq : q = roundSig precision x) (hin : Val.ofExact q = .fin q) :
    Val.ofExact (roundDp 4 q) = .fin (roundDp 4 q) := by
  by_cases hlarge : (10 : ℚ) ^ (17 : ℤ) ≤ |x|
  · obtain ⟨n, hn⟩ := roundSig_large hlarge
    rw [← hq] at hn
    rw [hn, roundDp_scaled, ← hn, hin]
  · have hbound : roundSig precision ((10 : ℚ) ^ 17) = 10 ^ 17 := by
      have hscaled := @roundSig_scaled precision 1 17 (by decide)
      simpa using hscaled
    have hsmall : |q| ≤ 10 ^ 17 := by
      rw [hq, abs_roundSig (by decide), ← hbound]
      exact roundSig_mono (by decide) (by exact_mod_cast (not_le.mp hlarge).le)
    have hunits : (10 : ℚ) ^ 17 = (10 ^ 21 : ℤ) / 10 ^ 4 := by norm_num
    have hhigh : roundDp 4 q ≤ 10 ^ 17 := by
      have hmono := roundDp_mono 4 ((le_abs_self q).trans hsmall)
      rwa [hunits, roundDp_scaled, ← hunits] at hmono
    have hlow : -(10 ^ 17) ≤ roundDp 4 q := by
      have hneg : -(10 ^ 17 : ℚ) = (-(10 ^ 21) : ℤ) / 10 ^ 4 := by norm_num
      have hmono := roundDp_mono 4 (neg_le_of_abs_le hsmall)
      rwa [hneg, roundDp_scaled, ← hneg] at hmono
    obtain ⟨n, hn⟩ := roundDp_units 4 q
    refine Val.ofExact_inRange ?_ ((abs_le.mpr ⟨hlow, hhigh⟩).trans_lt ?_)
    · rw [hn]
      exact PgNumeric.units_log (by decide) n
    · calc (10 : ℚ) ^ 17 < 10 ^ (18 : ℤ) := by norm_num
        _ ≤ 10 ^ maxE := zpow_le_zpow_right₀ (by norm_num) (by decide)

end DecimalJs
