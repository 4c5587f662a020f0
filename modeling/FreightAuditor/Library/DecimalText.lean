import Mathlib.Algebra.Order.Field.Basic
import Mathlib.Data.Rat.Defs
import Mathlib.Algebra.Order.Ring.Rat
import Mathlib.Tactic.Ring
import Mathlib.Tactic.NormNum
import Mathlib.Tactic.Positivity
import Mathlib.Tactic.FieldSimp

/- Decimal numbers as text.

   `literal?` reads the grammar `[+-]?(\d+(\.\d*)?|\.\d+)([eE][+-]?\d+)?` into a
   sign, a digit string and an exponent, exactly: no rounding, no range.
   `fixedText` prints a whole number of units of the `k`-th decimal in plain
   notation, and `literal?_fixedText` says that reading it back loses nothing.
   `isPlainDecimal` is the narrower grammar `\d+(\.\d+)?` of input checks. -/
namespace DecimalText

/-- A decimal literal: `±digits * 10 ^ exp`. -/
structure Literal where
  neg : Bool
  digits : ℕ
  exp : ℤ
  deriving DecidableEq, Repr

/-- The literal's digits with its sign. -/
def Literal.coef (l : Literal) : ℤ := if l.neg then -l.digits else l.digits

def Literal.value (l : Literal) : ℚ := l.coef * (10 : ℚ) ^ l.exp

/-- A leading sign (`-` recorded, `+` dropped), and what follows it. -/
def takeSign : List Char → Bool × List Char
  | '-' :: cs => (true, cs)
  | '+' :: cs => (false, cs)
  | cs => (false, cs)

/-- `\d+(\.\d*)?|\.\d+`: the digits read, how many of them stand after the point, and
the rest of the text. -/
def mantissa? (cs : List Char) : Option (ℕ × ℕ × List Char) :=
  let ip := cs.takeWhile Char.isDigit
  match cs.dropWhile Char.isDigit with
  | '.' :: r =>
    let fp := r.takeWhile Char.isDigit
    if ip.isEmpty && fp.isEmpty then none
    else some (Nat.ofDigitChars 10 (ip ++ fp) 0, fp.length, r.dropWhile Char.isDigit)
  | r => if ip.isEmpty then none else some (Nat.ofDigitChars 10 ip 0, 0, r)

/-- `([eE][+-]?\d+)?` up to the end of the text. -/
def exponent? : List Char → Option ℤ
  | [] => some 0
  | c :: r =>
    if c = 'e' ∨ c = 'E' then
      let (neg, ds) := takeSign r
      if ds.isEmpty || !ds.all Char.isDigit then none
      else some (if neg then -(Nat.ofDigitChars 10 ds 0 : ℤ) else Nat.ofDigitChars 10 ds 0)
    else none

def literal? (cs : List Char) : Option Literal :=
  let (neg, body) := takeSign cs
  match mantissa? body with
  | none => none
  | some (d, k, r) => (exponent? r).map (fun e => ⟨neg, d, e - k⟩)

/-- `\d+(\.\d+)?` -/
def isPlainDecimal (cs : List Char) : Bool :=
  !(cs.takeWhile Char.isDigit).isEmpty &&
  match cs.dropWhile Char.isDigit with
  | [] => true
  | '.' :: fp => !fp.isEmpty && fp.all Char.isDigit
  | _ => false

/-- The number of digits after the point of a plain decimal. -/
def decimals (cs : List Char) : ℕ := (cs.dropWhile Char.isDigit).length - 1

/-- `digits` zero-padded on the left to `k` places. -/
def padLeft (k : ℕ) (digits : List Char) : List Char :=
  List.replicate (k - digits.length) '0' ++ digits

/-- The text of `n / 10 ^ k` with exactly `k` decimals (no point when `k = 0`). -/
def fixedText (k : ℕ) (n : ℤ) : List Char :=
  let whole := Nat.toDigits 10 (n.natAbs / 10 ^ k)
  let frac := if k = 0 then [] else '.' :: padLeft k (Nat.toDigits 10 (n.natAbs % 10 ^ k))
  (if n < 0 then ['-'] else []) ++ whole ++ frac

/-! ## Digits -/

theorem toDigits_isDigit (n : ℕ) : ∀ c ∈ Nat.toDigits 10 n, c.isDigit = true :=
  fun _ hc => Nat.isDigit_of_mem_toDigits (by omega) (by omega) hc

theorem mem_takeDigits {c : Char} {cs : List Char} (h : c ∈ cs.takeWhile Char.isDigit) :
    c.isDigit = true :=
  List.all_eq_true.mp List.all_takeWhile c h

theorem padLeft_isDigit {k : ℕ} {ds : List Char} (h : ∀ c ∈ ds, c.isDigit = true) :
    ∀ c ∈ padLeft k ds, c.isDigit = true := by
  intro c hc
  rcases List.mem_append.mp hc with hz | hd
  · rw [List.eq_of_mem_replicate hz]; rfl
  · exact h c hd

theorem padLeft_length {k : ℕ} {ds : List Char} (h : ds.length ≤ k) : (padLeft k ds).length = k := by
  simp [padLeft]; omega

theorem ofDigitChars_padLeft (k : ℕ) (ds : List Char) :
    Nat.ofDigitChars 10 (padLeft k ds) 0 = Nat.ofDigitChars 10 ds 0 := by
  simp [padLeft, Nat.ofDigitChars_append, Nat.ofDigitChars_replicate_zero]

theorem takeWhile_digits {ds r : List Char} (h : ∀ c ∈ ds, c.isDigit = true)
    (hr : ∀ c ∈ r.head?, c.isDigit = false) :
    (ds ++ r).takeWhile Char.isDigit = ds ∧ (ds ++ r).dropWhile Char.isDigit = r := by
  induction ds with
  | nil =>
    cases r with
    | nil => simp
    | cons c r => simp [hr c (by simp)]
  | cons d ds ih =>
    have ih := ih (fun c hc => h c (List.mem_cons_of_mem _ hc))
    simp [h d List.mem_cons_self, ih]

theorem mantissa?_whole {ip : List Char} (hip : ∀ c ∈ ip, c.isDigit = true) (hne : ip ≠ []) :
    mantissa? ip = some (Nat.ofDigitChars 10 ip 0, 0, []) := by
  have h := takeWhile_digits (r := []) hip (by simp)
  rw [List.append_nil] at h
  simp [mantissa?, h, hne]

theorem mantissa?_point {ip fp : List Char} (hip : ∀ c ∈ ip, c.isDigit = true)
    (hfp : ∀ c ∈ fp, c.isDigit = true) (hne : ip ≠ []) :
    mantissa? (ip ++ '.' :: fp) = some (Nat.ofDigitChars 10 (ip ++ fp) 0, fp.length, []) := by
  have h := takeWhile_digits (r := '.' :: fp) hip (by simp)
  have h' := takeWhile_digits (r := []) hfp (by simp)
  rw [List.append_nil] at h'
  simp [mantissa?, h, h', hne]

theorem takeSign_digit {cs : List Char} (h : ∀ c ∈ cs.head?, c.isDigit = true) :
    takeSign cs = (false, cs) := by
  unfold takeSign
  split
  · exact absurd (h '-' (by simp)) (by decide)
  · exact absurd (h '+' (by simp)) (by decide)
  · rfl

/-! ## Printing and reading back -/

theorem literal?_fixedText (k : ℕ) (n : ℤ) :
    literal? (fixedText k n) = some ⟨decide (n < 0), n.natAbs, -k⟩ := by
  have hw := toDigits_isDigit (n.natAbs / 10 ^ k)
  have hwne : Nat.toDigits 10 (n.natAbs / 10 ^ k) ≠ [] := Nat.toDigits_ne_nil
  -- the text after the sign
  have hbody : mantissa? (Nat.toDigits 10 (n.natAbs / 10 ^ k) ++
      (if k = 0 then [] else '.' :: padLeft k (Nat.toDigits 10 (n.natAbs % 10 ^ k)))) =
      some (n.natAbs, k, []) := by
    by_cases hk : k = 0
    · subst hk
      simp only [if_true, List.append_nil, pow_zero, Nat.div_one]
      rw [mantissa?_whole (toDigits_isDigit _) Nat.toDigits_ne_nil,
        Nat.ofDigitChars_toDigits (by omega) (by omega)]
    · rw [if_neg hk, mantissa?_point hw (padLeft_isDigit (toDigits_isDigit _)) hwne]
      have hlen : (Nat.toDigits 10 (n.natAbs % 10 ^ k)).length ≤ k :=
        (Nat.length_toDigits_le_iff (by omega) (by omega)).mpr (Nat.mod_lt _ (by positivity))
      rw [padLeft_length hlen, Nat.ofDigitChars_append,
        Nat.ofDigitChars_eq_ofDigitChars_zero (l := padLeft k _), padLeft_length hlen,
        ofDigitChars_padLeft, Nat.ofDigitChars_toDigits (by omega) (by omega),
        Nat.ofDigitChars_toDigits (by omega) (by omega), Nat.div_add_mod]
  have hhead : ∀ c ∈ (Nat.toDigits 10 (n.natAbs / 10 ^ k) ++
      (if k = 0 then [] else '.' :: padLeft k (Nat.toDigits 10 (n.natAbs % 10 ^ k)))).head?,
      c.isDigit = true := by
    intro c hc
    rw [List.head?_append_of_ne_nil _ hwne] at hc
    exact hw c (List.mem_of_mem_head? hc)
  by_cases hn : n < 0
  · simp [literal?, fixedText, hn, takeSign, hbody, exponent?]
  · simp [literal?, fixedText, hn, takeSign_digit hhead, hbody, exponent?]

theorem value_fixedText (k : ℕ) (n : ℤ) :
    (⟨decide (n < 0), n.natAbs, -k⟩ : Literal).value = n / 10 ^ k := by
  have hcoef : (⟨decide (n < 0), n.natAbs, -k⟩ : Literal).coef = n := by
    by_cases hn : n < 0
    · simp only [Literal.coef, hn, decide_true, if_true]
      omega
    · simp only [Literal.coef, hn, decide_false, Bool.false_eq_true, if_false]
      omega
  rw [Literal.value, hcoef, zpow_neg, zpow_natCast, div_eq_mul_inv]

/-! ## Plain decimals -/

/-- A plain decimal is digits, or digits, a point and digits. -/
theorem isPlainDecimal_iff {cs : List Char} :
    isPlainDecimal cs = true ↔ ∃ ip fp, ip ≠ [] ∧ (∀ c ∈ ip, c.isDigit = true) ∧
      (∀ c ∈ fp, c.isDigit = true) ∧ (cs = ip ∧ fp = [] ∨ cs = ip ++ '.' :: fp ∧ fp ≠ []) := by
  constructor
  · intro h
    simp only [isPlainDecimal, Bool.and_eq_true, Bool.not_eq_eq_eq_not, Bool.not_true,
      List.isEmpty_eq_false_iff] at h
    obtain ⟨hne, hr⟩ := h
    have hcs := (List.takeWhile_append_dropWhile (p := Char.isDigit) (l := cs)).symm
    have hip : ∀ c ∈ cs.takeWhile Char.isDigit, c.isDigit = true :=
      fun _ hc => mem_takeDigits hc
    split at hr
    · rename_i hd
      rw [hd, List.append_nil] at hcs
      exact ⟨_, [], hne, hip, by simp, Or.inl ⟨hcs, rfl⟩⟩
    · rename_i fp hd
      rw [hd] at hcs
      simp only [Bool.and_eq_true, Bool.not_eq_eq_eq_not, Bool.not_true,
        List.isEmpty_eq_false_iff, List.all_eq_true] at hr
      exact ⟨_, fp, hne, hip, hr.2, Or.inr ⟨hcs, hr.1⟩⟩
    · cases hr
  · rintro ⟨ip, fp, hne, hip, hfp, ⟨rfl, rfl⟩ | ⟨rfl, hfne⟩⟩
    · have h := takeWhile_digits (r := []) hip (by simp)
      rw [List.append_nil] at h
      simp [isPlainDecimal, h, hne]
    · have h := takeWhile_digits (r := '.' :: fp) hip (by simp)
      simp [isPlainDecimal, h, hne, hfne]
      exact hfp

/-- A plain decimal reads as its digits over its number of decimals. -/
theorem literal?_plain {cs : List Char} (h : isPlainDecimal cs = true) :
    ∃ d, literal? cs = some ⟨false, d, -(decimals cs : ℤ)⟩ ∧
      literal? ('-' :: cs) = some ⟨true, d, -(decimals cs : ℤ)⟩ := by
  obtain ⟨ip, fp, hne, hip, hfp, hcs⟩ := isPlainDecimal_iff.mp h
  have hhead : ∀ c ∈ cs.head?, c.isDigit = true := by
    intro c hc
    rcases hcs with ⟨rfl, _⟩ | ⟨rfl, _⟩
    · exact hip c (List.mem_of_mem_head? hc)
    · rw [List.head?_append_of_ne_nil _ hne] at hc
      exact hip c (List.mem_of_mem_head? hc)
  obtain ⟨d, hm⟩ : ∃ d, mantissa? cs = some (d, decimals cs, []) := by
    rcases hcs with ⟨rfl, _⟩ | ⟨rfl, _⟩
    · have h' := takeWhile_digits (r := []) hip (by simp)
      rw [List.append_nil] at h'
      exact ⟨Nat.ofDigitChars 10 cs 0, by rw [mantissa?_whole hip hne]; simp [decimals, h'.2]⟩
    · have h' := takeWhile_digits (r := '.' :: fp) hip (by simp)
      exact ⟨Nat.ofDigitChars 10 (ip ++ fp) 0,
        by rw [mantissa?_point hip hfp hne]; simp [decimals, h'.2]⟩
  refine ⟨d, ?_, ?_⟩
  · simp [literal?, takeSign_digit hhead, hm, exponent?]
  · simp [literal?, takeSign, hm, exponent?]

/-- A plain decimal of at most `k` decimals is a whole number of units of the `k`-th. -/
theorem value_plain {k : ℕ} {cs : List Char} (h : isPlainDecimal cs = true) (hk : decimals cs ≤ k) :
    ∃ n : ℕ, ∃ l, literal? cs = some l ∧ l.value = n / 10 ^ k := by
  obtain ⟨d, hd, -⟩ := literal?_plain h
  refine ⟨d * 10 ^ (k - decimals cs), _, hd, ?_⟩
  have hpow : (10 : ℚ) ^ k = 10 ^ (k - decimals cs) * 10 ^ decimals cs := by
    rw [← pow_add, Nat.sub_add_cancel hk]
  simp only [Literal.value, Literal.coef, Bool.false_eq_true, if_false, zpow_neg, zpow_natCast]
  rw [hpow]
  push_cast
  field_simp

/-- The exact value of a decimal text, if it is one. -/
def exactValue (text : String) : Option ℚ := (literal? text.toList).map Literal.value

/-! ## Numbers by their text -/

/-- A number given by its text, which is a decimal literal. -/
structure NumberText where
  chars : List Char
  isLiteral : (literal? chars).isSome = true
  deriving DecidableEq

def NumberText.value (t : NumberText) : ℚ := ((literal? t.chars).get t.isLiteral).value

/-- The characters a decimal literal is made of. -/
def isLiteralChar (c : Char) : Bool :=
  c.isDigit || c == '.' || c == 'e' || c == 'E' || c == '+' || c == '-'

theorem isLiteralChar_of_isDigit {c : Char} (h : c.isDigit = true) : isLiteralChar c = true := by
  simp [isLiteralChar, h]

theorem takeSign_chars {cs : List Char} (h : ∀ c ∈ (takeSign cs).2, isLiteralChar c = true) :
    ∀ c ∈ cs, isLiteralChar c = true := by
  unfold takeSign at h
  split at h <;> intro c hc
  · rcases List.mem_cons.mp hc with rfl | hc
    · rfl
    · exact h c hc
  · rcases List.mem_cons.mp hc with rfl | hc
    · rfl
    · exact h c hc
  · exact h c hc

theorem exponent?_chars {cs : List Char} {e : ℤ} (h : exponent? cs = some e) :
    ∀ c ∈ cs, isLiteralChar c = true := by
  cases cs with
  | nil => simp
  | cons c r =>
    simp only [exponent?] at h
    split at h
    · rename_i hc
      split at h
      · cases h
      · rename_i hds
        simp only [Bool.or_eq_true, Bool.not_eq_eq_eq_not, Bool.not_true, not_or] at hds
        have hall : ∀ x ∈ (takeSign r).2, isLiteralChar x = true := by
          intro x hx
          have hd := List.all_eq_true.mp (by simpa using hds.2) x hx
          exact isLiteralChar_of_isDigit hd
        intro x hx
        rcases List.mem_cons.mp hx with rfl | hx
        · rcases hc with rfl | rfl <;> rfl
        · exact takeSign_chars hall x hx
    · cases h

theorem mantissa?_chars {cs : List Char} {d k : ℕ} {r : List Char} (h : mantissa? cs = some (d, k, r))
    (hr : ∀ c ∈ r, isLiteralChar c = true) : ∀ c ∈ cs, isLiteralChar c = true := by
  have hip : ∀ c ∈ cs.takeWhile Char.isDigit, isLiteralChar c = true :=
    fun _ hc => isLiteralChar_of_isDigit (mem_takeDigits hc)
  suffices hdrop : ∀ c ∈ cs.dropWhile Char.isDigit, isLiteralChar c = true by
    intro c hc
    rw [← List.takeWhile_append_dropWhile (p := Char.isDigit) (l := cs)] at hc
    exact (List.mem_append.mp hc).elim (hip c) (hdrop c)
  simp only [mantissa?] at h
  split at h
  · rename_i r' hd
    split at h
    · cases h
    · simp only [Option.some.injEq, Prod.mk.injEq] at h
      obtain ⟨-, -, rfl⟩ := h
      rw [hd]
      intro c hc
      rcases List.mem_cons.mp hc with rfl | hc
      · rfl
      · rw [← List.takeWhile_append_dropWhile (p := Char.isDigit) (l := r')] at hc
        rcases List.mem_append.mp hc with hc | hc
        · exact isLiteralChar_of_isDigit (mem_takeDigits hc)
        · exact hr c hc
  · split at h
    · cases h
    · simp only [Option.some.injEq, Prod.mk.injEq] at h
      obtain ⟨-, -, rfl⟩ := h
      exact hr

theorem literal?_chars {cs : List Char} (h : (literal? cs).isSome = true) :
    ∀ c ∈ cs, isLiteralChar c = true := by
  simp only [literal?] at h
  split at h
  · cases h
  · rename_i d k r hm
    rw [Option.isSome_map] at h
    obtain ⟨e, he⟩ := Option.isSome_iff_exists.mp h
    exact takeSign_chars (mantissa?_chars hm (exponent?_chars he))

/-- A natural number's own text. -/
def NumberText.ofNat (n : ℕ) : NumberText :=
  ⟨fixedText 0 n, by rw [literal?_fixedText]; rfl⟩

theorem NumberText.value_ofNat (n : ℕ) : (NumberText.ofNat n).value = n := by
  have h := literal?_fixedText 0 n
  have hv := value_fixedText 0 n
  simp only [NumberText.value, NumberText.ofNat, h, Option.get_some] at hv ⊢
  simpa using hv

end DecimalText
