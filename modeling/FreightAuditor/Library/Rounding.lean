import Mathlib.Algebra.Order.Floor.Ring
import Mathlib.Data.Int.Log
import Mathlib.Data.Rat.Floor
import Mathlib.Tactic.Linarith
import Mathlib.Tactic.FieldSimp
import Mathlib.Tactic.Ring
import Mathlib.Tactic.Positivity

/- Decimal rounding over the rationals: to the nearest integer with ties away
   from zero (`roundHalfUp`), to `k` decimals (`roundDp`) and to `p` significant
   digits (`roundSig`).

   What the modules above use is that each of the three is monotone, odd and the
   identity on what it can represent (`roundSig_scaled`, `roundDp_scaled`): a
   comparison against a representable bound therefore comes out the same before
   and after rounding (`roundSig_le_iff`). -/
namespace DecimalRounding

/-- Nearest integer, ties away from zero. -/
def roundHalfUp (x : ℚ) : ℤ :=
  if 0 ≤ x then ⌊x + 1 / 2⌋ else -⌊-x + 1 / 2⌋

/-- The unit in the last place of `x` at `p` significant digits. -/
def ulp (p : ℕ) (x : ℚ) : ℚ := (10 : ℚ) ^ (Int.log 10 |x| + 1 - p)

/-- Round to `p` significant digits. -/
def roundSig (p : ℕ) (x : ℚ) : ℚ :=
  if x = 0 then 0 else roundHalfUp (x / ulp p x) * ulp p x

/-- Round to `k` decimals. -/
def roundDp (k : ℕ) (x : ℚ) : ℚ := roundHalfUp (x * 10 ^ k) / 10 ^ k

/-! ## Rounding to an integer -/

@[simp] theorem roundHalfUp_intCast (n : ℤ) : roundHalfUp (n : ℚ) = n := by
  have hfloor : ∀ m : ℤ, ⌊(m : ℚ) + 1 / 2⌋ = m := by
    intro m
    rw [Int.floor_eq_iff]
    constructor <;> linarith
  unfold roundHalfUp
  split
  · exact hfloor n
  · have h := hfloor (-n)
    push_cast at h
    rw [h, neg_neg]

@[simp] theorem roundHalfUp_zero : roundHalfUp 0 = 0 := by
  have h := roundHalfUp_intCast 0
  simpa using h

theorem roundHalfUp_neg (x : ℚ) : roundHalfUp (-x) = -roundHalfUp x := by
  rcases lt_trichotomy x 0 with h | rfl | h
  · simp [roundHalfUp, h.le, h.not_ge]
  · simp
  · simp [roundHalfUp, h.le, h.not_ge]

theorem roundHalfUp_nonneg {x : ℚ} (h : 0 ≤ x) : 0 ≤ roundHalfUp x := by
  rw [roundHalfUp, if_pos h]
  exact Int.floor_nonneg.mpr (by linarith)

theorem roundHalfUp_mono {x y : ℚ} (h : x ≤ y) : roundHalfUp x ≤ roundHalfUp y := by
  rcases le_or_gt 0 x with hx | hx
  · have hy : 0 ≤ y := hx.trans h
    rw [roundHalfUp, roundHalfUp, if_pos hx, if_pos hy]
    exact Int.floor_mono (by linarith)
  · rcases le_or_gt 0 y with hy | hy
    · have h0 : 0 ≤ roundHalfUp (-x) := roundHalfUp_nonneg (by linarith)
      rw [roundHalfUp_neg] at h0
      exact (by omega : roundHalfUp x ≤ 0).trans (roundHalfUp_nonneg hy)
    · rw [roundHalfUp, roundHalfUp, if_neg hx.not_ge, if_neg hy.not_ge, neg_le_neg_iff]
      exact Int.floor_mono (by linarith)

/-! ## Rounding to a number of decimals -/

theorem roundDp_scaled (k : ℕ) (n : ℤ) : roundDp k (n / 10 ^ k) = n / 10 ^ k := by
  have h10 : (10 : ℚ) ^ k ≠ 0 := by positivity
  rw [roundDp, div_mul_cancel₀ _ h10, roundHalfUp_intCast]

theorem roundDp_mono (k : ℕ) {x y : ℚ} (h : x ≤ y) : roundDp k x ≤ roundDp k y := by
  unfold roundDp
  have hm : roundHalfUp (x * 10 ^ k) ≤ roundHalfUp (y * 10 ^ k) :=
    roundHalfUp_mono (mul_le_mul_of_nonneg_right h (by positivity))
  exact div_le_div_of_nonneg_right (by exact_mod_cast hm) (by positivity)

/-- A value rounded to `k` decimals is a whole number of units of the `k`-th decimal. -/
theorem roundDp_units (k : ℕ) (x : ℚ) : ∃ n : ℤ, roundDp k x = n / 10 ^ k :=
  ⟨roundHalfUp (x * 10 ^ k), rfl⟩

@[simp] theorem roundDp_idem (k : ℕ) (x : ℚ) : roundDp k (roundDp k x) = roundDp k x := by
  obtain ⟨n, hn⟩ := roundDp_units k x
  rw [hn, roundDp_scaled]

/-! ## Rounding to a number of significant digits -/

theorem ulp_pos (p : ℕ) (x : ℚ) : 0 < ulp p x := by
  unfold ulp; exact zpow_pos (by norm_num) _

@[simp] theorem roundSig_zero (p : ℕ) : roundSig p 0 = 0 := by simp [roundSig]

theorem roundSig_neg (p : ℕ) (x : ℚ) : roundSig p (-x) = -roundSig p x := by
  unfold roundSig ulp
  by_cases h : x = 0
  · simp [h]
  · simp [h, neg_div, roundHalfUp_neg]

/-- What has at most `p` significant digits is its own rounding. -/
theorem roundSig_scaled {p : ℕ} {n z : ℤ} (h : |n| < 10 ^ p) :
    roundSig p (n * (10 : ℚ) ^ z) = n * (10 : ℚ) ^ z := by
  by_cases hn : n = 0
  · simp [hn]
  have h10 : (0 : ℚ) < 10 := by norm_num
  have hx : (n : ℚ) * (10 : ℚ) ^ z ≠ 0 :=
    mul_ne_zero (by exact_mod_cast hn) (zpow_ne_zero _ h10.ne')
  have habs : |(n : ℚ) * (10 : ℚ) ^ z| < (10 : ℚ) ^ ((p : ℤ) + z) := by
    rw [abs_mul, abs_of_pos (zpow_pos h10 z), zpow_add₀ h10.ne']
    refine mul_lt_mul_of_pos_right ?_ (zpow_pos h10 z)
    rw [zpow_natCast]
    exact_mod_cast h
  have hlog : Int.log 10 |(n : ℚ) * (10 : ℚ) ^ z| < p + z :=
    (Int.lt_zpow_iff_log_lt (by norm_num) (abs_pos.mpr hx)).mp (by exact_mod_cast habs)
  -- the last place lies at or below `10 ^ z`, so the quotient is whole
  obtain ⟨j, hj⟩ : ∃ j : ℕ, z = Int.log 10 |(n : ℚ) * (10 : ℚ) ^ z| + 1 - p + j :=
    ⟨(z - (Int.log 10 |(n : ℚ) * (10 : ℚ) ^ z| + 1 - p)).toNat, by omega⟩
  have hu : ulp p ((n : ℚ) * (10 : ℚ) ^ z) ≠ 0 := (ulp_pos _ _).ne'
  have hz : (10 : ℚ) ^ z = ulp p ((n : ℚ) * (10 : ℚ) ^ z) * 10 ^ j := by
    unfold ulp
    rw [← zpow_natCast (10 : ℚ) j, ← zpow_add₀ h10.ne', ← hj]
  have hq : (n : ℚ) * (10 : ℚ) ^ z / ulp p ((n : ℚ) * (10 : ℚ) ^ z) = ((n * 10 ^ j : ℤ) : ℚ) := by
    rw [div_eq_iff hu]
    push_cast
    calc (n : ℚ) * (10 : ℚ) ^ z
        = n * (ulp p ((n : ℚ) * (10 : ℚ) ^ z) * 10 ^ j) := by rw [← hz]
      _ = n * 10 ^ j * ulp p ((n : ℚ) * (10 : ℚ) ^ z) := by ring
  rw [roundSig, if_neg hx, hq, roundHalfUp_intCast, ← hq, div_mul_cancel₀ _ hu]

/-- A rounded positive value stays between the powers of ten that enclose it. -/
theorem roundSig_between {p : ℕ} (hp : 1 ≤ p) {x : ℚ} (hx : 0 < x) :
    (10 : ℚ) ^ Int.log 10 x ≤ roundSig p x ∧ roundSig p x ≤ (10 : ℚ) ^ (Int.log 10 x + 1) := by
  have h10 : (0 : ℚ) < 10 := by norm_num
  have hu := ulp_pos p x
  have hlo : (10 : ℚ) ^ Int.log 10 x = ((10 ^ (p - 1) : ℤ) : ℚ) * ulp p x := by
    unfold ulp
    rw [abs_of_pos hx]
    push_cast
    rw [← zpow_natCast (10 : ℚ) (p - 1), ← zpow_add₀ h10.ne']
    congr 1
    push_cast [hp]
    ring
  have hhi : (10 : ℚ) ^ (Int.log 10 x + 1) = ((10 ^ p : ℤ) : ℚ) * ulp p x := by
    unfold ulp
    rw [abs_of_pos hx]
    push_cast
    rw [← zpow_natCast (10 : ℚ) p, ← zpow_add₀ h10.ne']
    congr 1
    ring
  have hle : ((10 ^ (p - 1) : ℤ) : ℚ) ≤ x / ulp p x := by
    rw [le_div_iff₀ hu, ← hlo]
    exact_mod_cast Int.zpow_log_le_self (b := 10) (by norm_num) hx
  have hge : x / ulp p x ≤ ((10 ^ p : ℤ) : ℚ) := by
    rw [div_le_iff₀ hu, ← hhi]
    exact_mod_cast (Int.lt_zpow_succ_log_self (b := 10) (by norm_num) x).le
  rw [roundSig, if_neg hx.ne', hlo, hhi]
  have h1 := roundHalfUp_mono hle
  have h2 := roundHalfUp_mono hge
  rw [roundHalfUp_intCast] at h1 h2
  exact ⟨mul_le_mul_of_nonneg_right (by exact_mod_cast h1) hu.le,
    mul_le_mul_of_nonneg_right (by exact_mod_cast h2) hu.le⟩

theorem le_abs_roundSig {p : ℕ} (hp : 1 ≤ p) {x : ℚ} (hx : x ≠ 0) :
    (10 : ℚ) ^ Int.log 10 |x| ≤ |roundSig p x| := by
  have h := (roundSig_between hp (abs_pos.mpr hx)).1
  rcases abs_choice x with habs | habs <;> rw [habs] at h ⊢
  · exact h.trans (le_abs_self _)
  · rw [roundSig_neg] at h
    exact h.trans (neg_le_abs _)

theorem roundSig_pos_mono {p : ℕ} (hp : 1 ≤ p) {x y : ℚ} (hx : 0 < x) (h : x ≤ y) :
    roundSig p x ≤ roundSig p y := by
  have hy : 0 < y := hx.trans_le h
  rcases (Int.log_mono_right (b := 10) hx h).eq_or_lt with he | hlt
  · -- the same last place on both sides
    have hu : ulp p x = ulp p y := by unfold ulp; rw [abs_of_pos hx, abs_of_pos hy, he]
    rw [roundSig, roundSig, if_neg hx.ne', if_neg hy.ne', hu]
    have hm := roundHalfUp_mono (div_le_div_of_nonneg_right h (ulp_pos p y).le)
    exact mul_le_mul_of_nonneg_right (by exact_mod_cast hm) (ulp_pos p y).le
  · -- a power of ten lies between
    calc roundSig p x ≤ (10 : ℚ) ^ (Int.log 10 x + 1) := (roundSig_between hp hx).2
      _ ≤ (10 : ℚ) ^ Int.log 10 y := zpow_le_zpow_right₀ (by norm_num) (by omega)
      _ ≤ roundSig p y := (roundSig_between hp hy).1

theorem roundSig_nonneg {p : ℕ} (hp : 1 ≤ p) {x : ℚ} (h : 0 ≤ x) : 0 ≤ roundSig p x := by
  rcases h.eq_or_lt with rfl | hx
  · simp
  · exact (zpow_pos (by norm_num) _).le.trans (roundSig_between hp hx).1

theorem abs_roundSig {p : ℕ} (hp : 1 ≤ p) (x : ℚ) : |roundSig p x| = roundSig p |x| := by
  rcases le_total 0 x with h | h
  · rw [abs_of_nonneg h, abs_of_nonneg (roundSig_nonneg hp h)]
  · have hneg := roundSig_nonneg hp (neg_nonneg.mpr h)
    rw [abs_of_nonpos h, roundSig_neg]
    rw [roundSig_neg] at hneg
    exact abs_of_nonpos (neg_nonneg.mp hneg)

theorem roundSig_mono {p : ℕ} (hp : 1 ≤ p) {x y : ℚ} (h : x ≤ y) :
    roundSig p x ≤ roundSig p y := by
  rcases lt_or_ge 0 x with hx | hx
  · exact roundSig_pos_mono hp hx h
  · rcases lt_or_ge y 0 with hy | hy
    · have hm := roundSig_pos_mono hp (by linarith : 0 < -y) (by linarith : -y ≤ -x)
      rw [roundSig_neg, roundSig_neg] at hm
      linarith
    · have h1 := roundSig_nonneg hp (by linarith : 0 ≤ -x)
      rw [roundSig_neg] at h1
      linarith [roundSig_nonneg hp hy]

/-- One unit more than `p` digits is a power of ten, and representable as well. -/
theorem roundSig_scaled_le {p : ℕ} (hp : 1 ≤ p) {n z : ℤ} (h : |n| ≤ 10 ^ p) :
    roundSig p (n * (10 : ℚ) ^ z) = n * (10 : ℚ) ^ z := by
  rcases h.lt_or_eq with hlt | htop
  · exact roundSig_scaled hlt
  · have hone : |(1 : ℤ)| < 10 ^ p := by
      simpa using one_lt_pow₀ (by norm_num : (1 : ℤ) < 10) (by omega : p ≠ 0)
    have hpow : (10 : ℚ) ^ ((p : ℤ) + z) = 10 ^ p * (10 : ℚ) ^ z := by
      rw [zpow_add₀ (by norm_num), zpow_natCast]
    have h1 := roundSig_scaled (z := (p : ℤ) + z) hone
    rw [Int.cast_one, one_mul, hpow] at h1
    rcases (abs_eq (by positivity)).mp htop with rfl | rfl
    · push_cast
      exact h1
    · push_cast
      rw [neg_mul, roundSig_neg, h1]

/-- Rounding again changes nothing. -/
theorem roundSig_idem {p : ℕ} (hp : 1 ≤ p) (x : ℚ) : roundSig p (roundSig p x) = roundSig p x := by
  have hpos : ∀ y : ℚ, 0 < y → roundSig p (roundSig p y) = roundSig p y := by
    intro y hy
    have hu := ulp_pos p y
    have htop : (10 : ℚ) ^ (Int.log 10 y + 1) = ((10 ^ p : ℤ) : ℚ) * ulp p y := by
      unfold ulp
      rw [abs_of_pos hy]
      push_cast
      rw [← zpow_natCast (10 : ℚ) p, ← zpow_add₀ (by norm_num)]
      congr 1
      ring
    have hround : roundSig p y = roundHalfUp (y / ulp p y) * ulp p y := by rw [roundSig, if_neg hy.ne']
    have hdigits : |roundHalfUp (y / ulp p y)| ≤ 10 ^ p := by
      have hle := (roundSig_between hp hy).2
      rw [hround, htop] at hle
      rw [abs_of_nonneg (roundHalfUp_nonneg (div_pos hy hu).le)]
      exact_mod_cast le_of_mul_le_mul_right hle hu
    have hscaled := roundSig_scaled_le hp (z := Int.log 10 |y| + 1 - p) hdigits
    rw [hround]
    exact hscaled
  rcases lt_trichotomy x 0 with h | rfl | h
  · have hneg := hpos (-x) (by linarith)
    rwa [roundSig_neg, roundSig_neg, neg_inj] at hneg
  · simp
  · exact hpos x h

/-- Against a bound of at most `p` significant digits, a value with the same last decimal
compares the same before and after rounding to `p` digits. -/
theorem roundSig_le_iff {p : ℕ} (hp : 1 ≤ p) {z n c : ℤ} (hc : |c| < 10 ^ p) :
    roundSig p (n * (10 : ℚ) ^ z) ≤ c * (10 : ℚ) ^ z ↔ n ≤ c := by
  have h10 : (0 : ℚ) < (10 : ℚ) ^ z := zpow_pos (by norm_num) z
  have scale {a b : ℤ} (h : a ≤ b) : (a : ℚ) * (10 : ℚ) ^ z ≤ b * (10 : ℚ) ^ z :=
    mul_le_mul_of_nonneg_right (by exact_mod_cast h) h10.le
  constructor
  · intro h
    by_contra hlt
    push Not at hlt
    -- one unit above the bound is representable, so rounding keeps the value above it
    have hfit : |c + 1| ≤ 10 ^ p := by rw [abs_lt] at hc; rw [abs_le]; omega
    have hup := roundSig_mono hp (scale (by omega : c + 1 ≤ n))
    rw [roundSig_scaled_le hp hfit] at hup
    have hle := le_of_mul_le_mul_right (hup.trans h) h10
    have : c + 1 ≤ c := by exact_mod_cast hle
    omega
  · intro h
    have hdown := roundSig_mono hp (scale h)
    rwa [roundSig_scaled hc] at hdown

theorem le_roundSig_iff {p : ℕ} (hp : 1 ≤ p) {z n c : ℤ} (hc : |c| < 10 ^ p) :
    c * (10 : ℚ) ^ z ≤ roundSig p (n * (10 : ℚ) ^ z) ↔ c ≤ n := by
  have h := roundSig_le_iff hp (z := z) (n := -n) (c := -c) (by rwa [abs_neg])
  push_cast at h
  rw [neg_mul, neg_mul, roundSig_neg, neg_le_neg_iff, neg_le_neg_iff] at h
  exact h

end DecimalRounding
