import FreightAuditor.Library.DecimalJs

/- A reference carrier for the `Decimal` interface: a signed coefficient and an
   exponent in range, or an infinity, or `NaN`. It has one zero, prints finite
   values in plain notation, and reads plain and exponent notation (no hexadecimal,
   binary or digit separators). All operations compute, so that a statement over
   `Decimal D` can be evaluated at it. -/
namespace DecimalJs

open DecimalRounding DecimalText

inductive Ref where
  | nan
  | inf (neg : Bool)
  | fin (m e : ℤ) (inRange : Val.ofExact (m * (10 : ℚ) ^ e) = .fin (m * (10 : ℚ) ^ e))
  deriving DecidableEq

namespace Ref

def val : Ref → Val
  | nan => .nan
  | inf s => .inf s
  | fin m e _ => .fin (m * (10 : ℚ) ^ e)

def zero : Ref := fin 0 0 (by simp)

def ofNonFinite : Val → Ref
  | .inf s => inf s
  | _ => nan

/-- `m * 10 ^ e`, brought into range. -/
def ofUnits (m e : ℤ) : Ref :=
  if h : Val.ofExact (m * (10 : ℚ) ^ e) = .fin (m * (10 : ℚ) ^ e) then fin m e h
  else match Val.ofExact (m * (10 : ℚ) ^ e) with
    | .inf s => inf s
    | _ => zero

/-- An exact value rounded to the precision. -/
def round (q : ℚ) : Ref :=
  if q = 0 then zero
  else ofUnits (roundHalfUp (q / ulp precision q)) (Int.log 10 |q| + 1 - precision)

/-- The least number of decimals, up to `bound`, at which `q` is whole. -/
def leastDecimals (bound : ℕ) (q : ℚ) : Option ℕ :=
  (List.range (bound + 1)).find? (fun k => decide ((q * 10 ^ k).den = 1))

/-- Plain notation without trailing zeros. -/
def plainText (bound : ℕ) (q : ℚ) : String :=
  match leastDecimals bound q with
  | some k => String.ofList (fixedText k (q * 10 ^ k).num)
  | none => ""

def toText : Ref → String
  | fin m e _ => plainText (-e).toNat (m * (10 : ℚ) ^ e)
  | d => nonFiniteText d.val

def ofText (s : String) : Option Ref :=
  match literal? s.toList with
  | some l => some (ofUnits l.coef l.exp)
  | none =>
    if s = "NaN" then some nan
    else if s = "Infinity" ∨ s = "+Infinity" then some (inf false)
    else if s = "-Infinity" then some (inf true)
    else none

def ofJsNumber : JsNumber → Ref
  | .nan => nan
  | .inf s => inf s
  | .fin t => let l := (literal? t.chars).get t.isLiteral; ofUnits l.coef l.exp

def toFixed (k : ℕ) (d : Ref) : String :=
  match d.val with
  | .fin q => String.ofList (fixedTextOf k q)
  | v => nonFiniteText v

def plus (a b : Ref) : Ref :=
  match a.val, b.val with
  | .fin x, .fin y => round (x + y)
  | v, w => ofNonFinite (v.add w)

def minus (a b : Ref) : Ref :=
  match a.val, b.val with
  | .fin x, .fin y => round (x - y)
  | v, w => ofNonFinite (v.sub w)

def times (a b : Ref) : Ref :=
  match a.val, b.val with
  | .fin x, .fin y => round (x * y)
  | v, w => ofNonFinite (v.mul w)

def dividedBy (a b : Ref) : Ref :=
  match a.val, b.val with
  | .fin x, .fin y => if y ≠ 0 then round (x / y) else if x = 0 then nan else inf (decide (x < 0))
  | .inf s, .fin y => inf (s != decide (y < 0))
  | .fin _, .inf _ => zero
  | _, _ => nan

def abs : Ref → Ref
  | nan => nan
  | inf _ => inf false
  | fin m e _ => ofUnits |m| e

def isNegative : Ref → Bool
  | nan => false
  | inf s => s
  | fin m _ _ => decide (m < 0)

/-! ## The documented facts -/

@[simp] theorem val_zero : zero.val = .fin 0 := by simp [zero, val]

theorem ofExact_ne_nan (x : ℚ) : Val.ofExact x ≠ .nan := by
  unfold Val.ofExact
  split
  · simp
  · split
    · simp
    · split <;> simp

@[simp] theorem val_ofUnits (m e : ℤ) : (ofUnits m e).val = Val.ofExact (m * (10 : ℚ) ^ e) := by
  unfold ofUnits
  split
  · rename_i h
    rw [h]; rfl
  · rename_i hne
    cases hx : Val.ofExact (m * (10 : ℚ) ^ e) with
    | nan => exact absurd hx (ofExact_ne_nan _)
    | inf s => rfl
    | fin q =>
      rcases Val.ofExact_fin hx with rfl | rfl
      · exact absurd hx hne
      · exact val_zero

@[simp] theorem val_round (q : ℚ) : (round q).val = Val.ofExact (roundSig precision q) := by
  unfold round roundSig
  split
  · simp
  · rw [val_ofUnits]; rfl

theorem nonFinite_of_not_both {v w : Val} (h : ∀ x y, v = .fin x → w = .fin y → False) :
    v.isFinite = false ∨ w.isFinite = false := by
  by_cases hv : v.isFinite = true
  · by_cases hw : w.isFinite = true
    · obtain ⟨x, hx⟩ := Val.isFinite_iff.mp hv
      obtain ⟨y, hy⟩ := Val.isFinite_iff.mp hw
      exact (h x y hx hy).elim
    · exact .inr (by simpa using hw)
  · exact .inl (by simpa using hv)

/-- An infinity or `NaN` is carried over as it is. -/
theorem val_ofNonFinite {v : Val} (h : v.isFinite = false) : (ofNonFinite v).val = v := by
  cases v with
  | nan => rfl
  | inf s => rfl
  | fin q => cases h

theorem add_nonFinite {v w : Val} (h : v.isFinite = false ∨ w.isFinite = false) :
    (v.add w).isFinite = false := by
  cases hs : v.add w with
  | nan => rfl
  | inf s => rfl
  | fin q =>
    obtain ⟨x, y, rfl, rfl⟩ := Val.add_finite hs
    rcases h with h | h <;> cases h

theorem mul_nonFinite {v w : Val} (h : v.isFinite = false ∨ w.isFinite = false) :
    (v.mul w).isFinite = false := by
  cases v <;> cases w <;> simp only [Val.isFinite, Bool.true_eq_false, or_self] at h <;>
    simp only [Val.mul] <;> first | rfl | (split <;> rfl)

theorem val_plus (a b : Ref) : (plus a b).val = a.val.add b.val := by
  unfold plus
  split
  · rename_i x y hx hy
    rw [hx, hy, val_round, Val.add_fin]
  · rename_i hne
    refine val_ofNonFinite (add_nonFinite ?_)
    exact nonFinite_of_not_both hne

theorem val_minus (a b : Ref) : (minus a b).val = a.val.sub b.val := by
  unfold minus
  split
  · rename_i x y hx hy
    rw [hx, hy, val_round, Val.sub_fin]
  · rename_i hne
    refine val_ofNonFinite (add_nonFinite ?_)
    rw [Val.isFinite_neg]
    exact nonFinite_of_not_both hne

theorem val_times (a b : Ref) : (times a b).val = a.val.mul b.val := by
  unfold times
  split
  · rename_i x y hx hy
    rw [hx, hy, val_round, Val.mul_fin]
  · rename_i hne
    refine val_ofNonFinite (mul_nonFinite ?_)
    exact nonFinite_of_not_both hne

theorem ofExact_neg (x : ℚ) : Val.ofExact (-x) = (Val.ofExact x).neg := by
  unfold Val.ofExact
  by_cases h : x = 0
  · simp [h, Val.neg]
  · simp only [neg_eq_zero, h, if_false, abs_neg]
    split
    · rcases lt_or_gt_of_ne h with hx | hx
      · simp [Val.neg, hx, hx.le]
      · simp [Val.neg, hx, hx.le]
    · split <;> simp [Val.neg]

theorem val_abs (a : Ref) : (abs a).val = a.val.abs := by
  cases a with
  | nan => rfl
  | inf s => rfl
  | fin m e h =>
    have habs : ((|m| : ℤ) : ℚ) * (10 : ℚ) ^ e = |m * (10 : ℚ) ^ e| := by
      rw [abs_mul, abs_of_pos (zpow_pos (by norm_num : (0 : ℚ) < 10) e), Int.cast_abs]
    rw [abs, val_ofUnits, habs]
    change _ = Val.fin |m * (10 : ℚ) ^ e|
    rcases abs_choice ((m : ℚ) * (10 : ℚ) ^ e) with hc | hc
    · rw [hc, h]
    · rw [hc, ofExact_neg, h]; rfl

theorem isNegative_finite (a : Ref) (q : ℚ) (h : a.val = .fin q) : a.isNegative = decide (q < 0) := by
  cases a with
  | nan => cases h
  | inf s => cases h
  | fin m e _ =>
    simp only [val, Val.fin.injEq] at h
    subst h
    have hpos : (0 : ℚ) < (10 : ℚ) ^ e := zpow_pos (by norm_num) e
    have hiff : (m : ℚ) * (10 : ℚ) ^ e < 0 ↔ m < 0 := by
      rw [mul_neg_iff]
      constructor
      · rintro (⟨-, h⟩ | ⟨h, -⟩)
        · exact absurd h hpos.le.not_gt
        · exact_mod_cast h
      · intro h
        exact Or.inr ⟨by exact_mod_cast h, hpos⟩
    simp [isNegative, hiff]

theorem val_inRange (d : Ref) (q : ℚ) (h : d.val = .fin q) : Val.ofExact q = .fin q := by
  cases d with
  | nan => cases h
  | inf s => cases h
  | fin m e hr =>
    simp only [val, Val.fin.injEq] at h
    exact h ▸ hr

theorem ofText_literal (s : String) (l : Literal) (h : literal? s.toList = some l) :
    ∃ d, ofText s = some d ∧ d.val = Val.ofExact l.value :=
  ⟨ofUnits l.coef l.exp, by simp [ofText, h], val_ofUnits _ _⟩

theorem ofText_nonFinite (v : Val) (h : v.isFinite = false) :
    ∃ d, ofText (nonFiniteText v) = some d ∧ d.val = v := by
  cases v with
  | nan => exact ⟨nan, by decide, rfl⟩
  | inf s =>
    cases s
    · exact ⟨inf false, by decide, rfl⟩
    · exact ⟨inf true, by decide, rfl⟩
  | fin q => cases h

/-- A value with exponent `e` is whole after `-e` decimals. -/
theorem whole_at (m e : ℤ) : ((m * (10 : ℚ) ^ e) * 10 ^ (-e).toNat).den = 1 := by
  have hz : (m * (10 : ℚ) ^ e) * 10 ^ (-e).toNat = ((m * 10 ^ (e + (-e).toNat).toNat : ℤ) : ℚ) := by
    have hnat : ((e + (-e).toNat).toNat : ℤ) = e + (-e).toNat := by omega
    push_cast
    rw [← zpow_natCast (10 : ℚ) (e + (-e).toNat).toNat, hnat, zpow_add₀ (by norm_num), zpow_natCast,
      mul_assoc]
  rw [hz, Rat.den_intCast]

theorem leastDecimals_spec {bound k : ℕ} {q : ℚ} (h : leastDecimals bound q = some k) :
    (q * 10 ^ k).den = 1 ∧ ∀ j < k, (q * 10 ^ j).den ≠ 1 := by
  simp only [leastDecimals, List.find?_range_eq_some] at h
  obtain ⟨hk, -, hlt⟩ := h
  exact ⟨by simpa using hk, fun j hj => by simpa using hlt j hj⟩

theorem leastDecimals_some (m e : ℤ) : ∃ k, leastDecimals (-e).toNat (m * (10 : ℚ) ^ e) = some k := by
  rw [← Option.isSome_iff_exists, leastDecimals, List.find?_isSome]
  exact ⟨(-e).toNat, by simp, by simpa using whole_at m e⟩

/-- The least number of decimals does not depend on the bound. -/
theorem leastDecimals_unique {b c k j : ℕ} {q : ℚ} (hk : leastDecimals b q = some k)
    (hj : leastDecimals c q = some j) : k = j := by
  obtain ⟨hk1, hk2⟩ := leastDecimals_spec hk
  obtain ⟨hj1, hj2⟩ := leastDecimals_spec hj
  rcases lt_trichotomy k j with h | h | h
  · exact absurd hk1 (hj2 k h)
  · exact h
  · exact absurd hj1 (hk2 j h)

theorem toText_reads (d : Ref) : ∃ d', ofText d.toText = some d' ∧ d'.val = d.val := by
  cases d with
  | nan => exact ofText_nonFinite .nan rfl
  | inf s => exact ofText_nonFinite (.inf s) rfl
  | fin m e hr =>
    obtain ⟨k, hk⟩ := leastDecimals_some m e
    have hnum : (((m * (10 : ℚ) ^ e) * 10 ^ k).num : ℚ) / 10 ^ k = m * (10 : ℚ) ^ e := by
      have hden := (leastDecimals_spec hk).1
      rw [div_eq_iff (by positivity)]
      exact Rat.den_eq_one_iff _ |>.mp hden
    obtain ⟨d', hd', hv⟩ := ofText_literal
      (String.ofList (fixedText k ((m * (10 : ℚ) ^ e) * 10 ^ k).num)) _
      (by rw [String.toList_ofList]; exact literal?_fixedText _ _)
    refine ⟨d', by simp only [toText, plainText, hk]; exact hd', ?_⟩
    rw [hv, value_fixedText, hnum]
    exact hr

theorem toText_congr (a b : Ref) (h : a.val = b.val) : a.toText = b.toText := by
  cases a with
  | nan => cases b <;> simp_all [val, toText]
  | inf s => cases b <;> simp_all [val, toText]
  | fin m e _ =>
    cases b with
    | nan => cases h
    | inf s => cases h
    | fin m' e' _ =>
      simp only [val, Val.fin.injEq] at h
      obtain ⟨k, hk⟩ := leastDecimals_some m e
      obtain ⟨j, hj⟩ := leastDecimals_some m' e'
      simp only [toText, plainText, hk, hj]
      rw [h] at hk
      rw [leastDecimals_unique hk hj, h]

end Ref

instance : Decimal Ref where
  val := Ref.val
  ofString := Ref.ofText
  ofNumber := Ref.ofJsNumber
  toString := Ref.toText
  toFixed := Ref.toFixed
  plus := Ref.plus
  minus := Ref.minus
  times := Ref.times
  dividedBy := Ref.dividedBy
  abs := Ref.abs
  isNegative := Ref.isNegative
  ofString_literal := Ref.ofText_literal
  ofString_nonFinite := Ref.ofText_nonFinite
  val_ofNumber := by
    intro n
    cases n with
    | nan => rfl
    | inf s => rfl
    | fin t => exact Ref.val_ofUnits _ _
  val_inRange := Ref.val_inRange
  toString_reads := Ref.toText_reads
  toString_congr := Ref.toText_congr
  toFixed_finite := by
    intro k d q h
    simp [Ref.toFixed, h]
  toFixed_nonFinite := by
    intro k d h
    unfold Ref.toFixed
    split
    · rename_i q hq
      rw [hq] at h
      cases h
    · rfl
  val_plus := Ref.val_plus
  val_minus := Ref.val_minus
  val_times := Ref.val_times
  val_dividedBy := by
    intro a b x y ha hb hy
    simp [Ref.dividedBy, ha, hb, hy]
  val_abs := Ref.val_abs
  isNegative_finite := fun a q h _ => Ref.isNegative_finite a q h

end DecimalJs
