import FreightAuditor.Library.DecimalPlaces

/- decimal.js: which sums come out exact.

   A sum is rounded to 20 digits and brought into the exponent range. `Held q` says that neither changes
   `q`. Adding a value to an exact running sum gives the exact sum just if it is held (`add_exact_iff`), and
   values with a last decimal keep it (`roundSig_units`). -/
namespace DecimalJs

open DecimalRounding DecimalText

/-- The value has at most 20 digits and is in range. -/
def Held (q : ℚ) : Prop := Val.ofExact (roundSig precision q) = .fin q

instance (q : ℚ) : Decidable (Held q) := inferInstanceAs (Decidable (Val.ofExact _ = .fin q))

theorem held_zero : Held 0 := by
  rw [Held, roundSig_zero, Val.ofExact_zero]

theorem Held.roundSig_eq {q : ℚ} (h : Held q) : roundSig precision q = q := by
  rcases Val.ofExact_fin h with heq | rfl
  · exact heq.symm
  · exact roundSig_zero precision

/-- A value that is held is read as it is. -/
theorem Held.ofExact_eq {q : ℚ} (h : Held q) : Val.ofExact q = .fin q := by
  have hround := h.roundSig_eq
  rw [Held, hround] at h
  exact h

/-- The first value of a sum is there exactly just if it is held. -/
theorem zero_add_exact_iff {q : ℚ} : (Val.fin 0).add (Val.ofExact q) = .fin q ↔ Held q := by
  constructor
  · intro h
    obtain ⟨_, y, -, hy⟩ := Val.add_finite h
    rw [hy, Val.add_fin, zero_add] at h
    rcases Val.ofExact_fin hy with rfl | rfl
    · exact h
    · rw [roundSig_zero, Val.ofExact_zero] at h
      rw [← Val.fin.inj h]
      exact held_zero
  · intro h
    rw [h.ofExact_eq, Val.add_fin, zero_add]
    exact h

/-- A further one is added exactly just if the sum is held. -/
theorem add_exact_iff {s q : ℚ} (hq : Val.ofExact q = .fin q) : (Val.fin s).add (Val.ofExact q) = .fin (s + q) ↔ Held (s + q) := by
  rw [hq, Val.add_fin]
  exact Iff.rfl

/-- Units of the `k`-th decimal, rounded to `p` digits, are units of it. -/
theorem roundSig_units (p k : ℕ) (n : ℤ) : ∃ m : ℤ, roundSig p ((n : ℚ) / 10 ^ k) = m / 10 ^ k := by
  have hscale : (n : ℚ) / 10 ^ k = n * (10 : ℚ) ^ (-(k : ℤ)) := by rw [zpow_neg, zpow_natCast, div_eq_mul_inv]
  by_cases hsmall : |n| < 10 ^ p
  · exact ⟨n, by rw [hscale, roundSig_scaled hsmall]⟩
  · -- the last of the digits kept is at the `k`-th decimal or before it
    have hlarge : (10 : ℚ) ^ ((p : ℤ) - k) ≤ |(n : ℚ) / 10 ^ k| := by
      rw [abs_div, abs_of_pos (by positivity : (0 : ℚ) < 10 ^ k), zpow_sub₀ (by norm_num), zpow_natCast, zpow_natCast]
      exact div_le_div_of_nonneg_right (by exact_mod_cast not_lt.mp hsmall) (by positivity)
    have hpos : (0 : ℚ) < |(n : ℚ) / 10 ^ k| := (zpow_pos (by norm_num) _).trans_le hlarge
    have hlog : (p : ℤ) - k ≤ Int.log 10 |(n : ℚ) / 10 ^ k| :=
      (Int.zpow_le_iff_le_log (by norm_num) hpos).mp (by rw [Nat.cast_ofNat]; exact hlarge)
    exact roundSig_units_of_log (abs_pos.mp hpos) (by omega)

end DecimalJs
