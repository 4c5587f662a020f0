import FreightAuditor.Ingestion.ChargeFact
import FreightAuditor.Library.HeldSums

/- When money texts are canonical, and their sums exact.

   `money` gives a text at 4 decimals where the constructor of decimal.js accepts its input, and the
   constructor accepts more than decimals. `isCanonical_iff` says which inputs come out as a decimal that
   comes out of itself: not `NaN` and the infinities, and not an amount below zero that is rounded to zero,
   which keeps its minus sign once.

   `sumMoney` adds with 20 digits. `sumsOfParts_iff` says of which lists every part is added exactly, in every
   order: those of which no part has a sum of more digits. -/
namespace Ingestion

open DecimalJs DecimalText DecimalRounding ExceptOk

/-- Digits, a point and four digits, after a minus sign if there is one. -/
def hasFourDecimals (text : String) : Bool :=
  let body := if text.toList.head? = some '-' then text.toList.tail else text.toList
  isPlainDecimal body && decimals body == 4

/-- The sum of the amounts that are stated; `none` where one of them is no decimal. -/
def exactSum : List (Option String) → Option ℚ
  | [] => some 0
  | none :: rest => exactSum rest
  | some text :: rest => do
    let q ← exactValue text
    let sum ← exactSum rest
    return q + sum

/-- A value at 4 decimals. -/
def printed (q : ℚ) : String := String.ofList (fixedTextOf 4 q)

section

variable (D : Type) [Decimal D]

/-- What comes out is a decimal with 4 decimals, and comes out of itself. -/
structure IsCanonical (raw : String) : Prop where
  fourDecimals : ∀ text, money D (some raw) = some text → hasFourDecimals text = true
  itself : money D (money D (some raw)) = money D (some raw)

/-- The text is empty or no number, or is finite, not below zero where it is rounded to zero, and in range
at 4 decimals. -/
def ReadsCanonically (raw : String) : Prop :=
  raw = "" ∨ ∀ d : D, Decimal.ofString raw = some d →
    ∃ q, Decimal.val d = .fin q ∧ (roundDp 4 q = 0 → 0 ≤ q) ∧ Val.ofExact (roundDp 4 q) = .fin (roundDp 4 q)

/-- The sum is the exact one at 4 decimals. -/
def SumsExactly (values : List (Option String)) : Prop :=
  ∃ q, exactSum values = some q ∧ sumMoney D values = .ok (printed q)

/-- The sum of the values and of every part of them is the exact one, whatever their order, and is the sum
of the sums of two parts. -/
structure SumsOfParts (values : List (Option String)) : Prop where
  parts : ∀ part rest, (part ++ rest).Perm values → SumsExactly D part
  permuted : ∀ values', values'.Perm values → sumMoney D values' = sumMoney D values
  split : ∀ xs ys, (xs ++ ys).Perm values → ∃ sx sy, sumMoney D xs = .ok sx ∧ sumMoney D ys = .ok sy ∧
    sumMoney D (xs ++ ys) = sumMoney D [some sx, some sy]

end

/-- Every value is a decimal, and no part of them has a sum of more than 20 digits or out of range. -/
def PartsHeld (values : List (Option String)) : Prop :=
  ∀ part rest, (part ++ rest).Perm values → ∃ q, exactSum part = some q ∧ Held q

/-! ## Canonical texts -/

theorem hasFourDecimals_printed (q : ℚ) : hasFourDecimals (printed q) = true := by
  obtain ⟨n, hn⟩ := Int.eq_ofNat_of_zero_le (abs_nonneg (roundHalfUp (q * 10 ^ 4)))
  have hwhole := toDigits_isDigit (n / 10 ^ 4)
  have hfrac : ∀ c ∈ padLeft 4 (Nat.toDigits 10 (n % 10 ^ 4)), c.isDigit = true := padLeft_isDigit (toDigits_isDigit _)
  have hlength : (padLeft 4 (Nat.toDigits 10 (n % 10 ^ 4))).length = 4 :=
    padLeft_length ((Nat.length_toDigits_le_iff (by omega) (by omega)).mpr (Nat.mod_lt _ (by positivity)))
  have hbody : fixedText 4 |roundHalfUp (q * 10 ^ 4)| =
      Nat.toDigits 10 (n / 10 ^ 4) ++ '.' :: padLeft 4 (Nat.toDigits 10 (n % 10 ^ 4)) := by
    rw [hn, fixedText, if_neg (by omega), if_neg (by omega), List.nil_append, Int.natAbs_natCast]
  have hplain : isPlainDecimal (fixedText 4 |roundHalfUp (q * 10 ^ 4)|) = true := by
    refine isPlainDecimal_iff.mpr ⟨_, _, Nat.toDigits_ne_nil, hwhole, hfrac, .inr ⟨hbody, fun hnil => ?_⟩⟩
    rw [hnil] at hlength
    cases hlength
  have hdecimals : decimals (fixedText 4 |roundHalfUp (q * 10 ^ 4)|) = 4 := by
    rw [hbody, decimals, (takeWhile_digits hwhole (by simp)).2, List.length_cons, hlength]
  have hhead : (fixedText 4 |roundHalfUp (q * 10 ^ 4)|).head? ≠ some '-' := by
    intro hminus
    rw [hbody, List.head?_append_of_ne_nil _ Nat.toDigits_ne_nil] at hminus
    exact absurd (hwhole _ (List.mem_of_mem_head? hminus)) (by decide)
  unfold hasFourDecimals printed
  rw [String.toList_ofList, fixedTextOf]
  by_cases hneg : q < 0
  · simp [hneg, hplain, hdecimals]
  · simp [hneg, hhead, hplain, hdecimals]

/-- One value of the fourth decimal is behind a text. -/
theorem roundDp_of_printed {q r : ℚ} (h : printed q = printed r) : roundDp 4 q = roundDp 4 r := by
  have hexact (x : ℚ) : exactValue (printed x) = some (roundDp 4 x) := by
    obtain ⟨l, hl, hval⟩ := literal?_fixedTextOf 4 x
    rw [exactValue, printed, String.toList_ofList, hl, Option.map_some, hval]
  exact Option.some.inj ((hexact q).symm.trans (h ▸ hexact r))

/-- A rounded value prints as the value, but for the sign of one rounded to zero. -/
theorem printed_roundDp_iff {q : ℚ} : printed (roundDp 4 q) = printed q ↔ (roundDp 4 q = 0 → 0 ≤ q) := by
  have hpow : (10 : ℚ) ^ 4 ≠ 0 := by norm_num
  have hunits : roundHalfUp (roundDp 4 q * 10 ^ 4) = roundHalfUp (q * 10 ^ 4) := by
    rw [roundDp, div_mul_cancel₀ _ hpow, roundHalfUp_intCast]
  have hsign : roundDp 4 q < 0 → q < 0 := by
    intro hneg
    by_contra hpos
    exact absurd hneg (not_lt.mpr (div_nonneg (by exact_mod_cast roundHalfUp_nonneg (mul_nonneg (not_lt.mp hpos) (by positivity)))
      (by positivity)))
  rw [printed, printed, String.ofList_inj, fixedTextOf, fixedTextOf, hunits, List.append_left_inj]
  by_cases hq : q < 0
  · have hle : roundDp 4 q ≤ 0 := by
      have hmono := roundDp_mono 4 hq.le
      have hzero := roundDp_scaled 4 0
      rw [Int.cast_zero, zero_div] at hzero
      rwa [hzero] at hmono
    by_cases hzero : roundDp 4 q = 0
    · simp [hq, hzero]
    · simp [hq, hzero, lt_of_le_of_ne hle hzero]
  · have hnot : ¬ roundDp 4 q < 0 := fun hneg => hq (hsign hneg)
    simp [hq, hnot, not_lt.mp hq]

section

variable {D : Type} [Decimal D]

theorem toFixed_eq_printed {d : D} {q : ℚ} (h : Decimal.val d = .fin q) : Decimal.toFixed 4 d = printed q :=
  Decimal.toFixed_finite 4 d q h

theorem nonFinite_ne_printed {v : Val} (h : v.isFinite = false) (q : ℚ) : nonFiniteText v ≠ printed q := by
  intro heq
  have hfour := hasFourDecimals_printed q
  rw [← heq] at hfour
  rcases v with _ | (_ | _) | x
  · exact absurd hfour (by decide)
  · exact absurd hfour (by decide)
  · exact absurd hfour (by decide)
  · cases h

theorem printed_ne_empty (q : ℚ) : printed q ≠ "" := by
  intro heq
  have hfour := hasFourDecimals_printed q
  rw [heq] at hfour
  exact absurd hfour (by decide)

/-- Which decimal prints as a value at 4 decimals. -/
theorem toFixed_eq_printed_iff {d : D} {r : ℚ} :
    Decimal.toFixed 4 d = printed r ↔ ∃ q, Decimal.val d = .fin q ∧ printed q = printed r := by
  cases hfinite : (Decimal.val d).isFinite
  · rw [Decimal.toFixed_nonFinite 4 d hfinite]
    refine iff_of_false (nonFinite_ne_printed hfinite r) ?_
    rintro ⟨q, hq, -⟩
    rw [hq] at hfinite
    cases hfinite
  · obtain ⟨q, hq⟩ := Val.isFinite_iff.mp hfinite
    rw [toFixed_eq_printed hq]
    constructor
    · exact fun h => ⟨q, hq, h⟩
    · rintro ⟨q', hq', h⟩
      rw [hq] at hq'
      rw [Val.fin.inj hq']
      exact h

/-- What comes out of a money text. -/
theorem money_printed {q : ℚ} : ∃ d : D, Decimal.val d = Val.ofExact (roundDp 4 q) ∧
    money D (some (printed q)) = some (Decimal.toFixed 4 d) := by
  obtain ⟨l, hl, hval⟩ := literal?_fixedTextOf 4 q
  obtain ⟨d, hd, hv⟩ := Decimal.ofString_literal (D := D) (printed q) l (by rw [printed, String.toList_ofList]; exact hl)
  refine ⟨d, by rw [hv, hval], ?_⟩
  have hne : (printed q == "") = false := by simpa using printed_ne_empty q
  simp only [money, hne, Bool.false_eq_true, if_false, hd, Option.map_some]

theorem isCanonical_iff (raw : String) : IsCanonical D raw ↔ ReadsCanonically D raw := by
  by_cases hempty : raw = ""
  · refine iff_of_true ⟨fun text h => ?_, ?_⟩ (.inl hempty)
    · rw [hempty] at h
      cases h
    · rw [hempty]
      rfl
  have hmoney : money D (some raw) = (Decimal.ofString raw : Option D).map (Decimal.toFixed 4) := by
    have hne : (raw == "") = false := by simpa using hempty
    simp only [money, hne, Bool.false_eq_true, if_false]
  cases hread : (Decimal.ofString raw : Option D) with
  | none =>
    rw [hread, Option.map_none] at hmoney
    refine iff_of_true ⟨fun text h => ?_, ?_⟩ (.inr fun d hd => ?_)
    · rw [hmoney] at h
      cases h
    · rw [hmoney]
      rfl
    · rw [hread] at hd
      cases hd
  | some d =>
    rw [hread, Option.map_some] at hmoney
    cases hfinite : (Decimal.val d).isFinite
    · -- the text of `NaN` or of an infinity
      rw [Decimal.toFixed_nonFinite 4 d hfinite] at hmoney
      refine iff_of_false (fun h => ?_) ?_
      · have hfour := h.fourDecimals _ hmoney
        generalize Decimal.val d = v at hfinite hfour
        rcases v with _ | (_ | _) | x
        · exact absurd hfour (by decide)
        · exact absurd hfour (by decide)
        · exact absurd hfour (by decide)
        · cases hfinite
      · rintro (h | h)
        · exact hempty h
        · obtain ⟨q, hq, -⟩ := h d hread
          rw [hq] at hfinite
          cases hfinite
    · obtain ⟨q, hq⟩ := Val.isFinite_iff.mp hfinite
      rw [toFixed_eq_printed hq] at hmoney
      obtain ⟨again, hagain, hout⟩ := @money_printed D _ q
      have hitself : money D (money D (some raw)) = money D (some raw) ↔
          Val.ofExact (roundDp 4 q) = .fin (roundDp 4 q) ∧ (roundDp 4 q = 0 → 0 ≤ q) := by
        rw [hmoney, hout, Option.some.injEq, toFixed_eq_printed_iff, hagain, ← printed_roundDp_iff]
        constructor
        · rintro ⟨r, hr, hprinted⟩
          obtain ⟨n, hn⟩ := roundDp_units 4 q
          have hkept : r = roundDp 4 q := by
            rw [hn] at hr
            rw [hn]
            exact Val.ofExact_units (by decide) hr
          rw [hkept] at hr hprinted
          exact ⟨hr, hprinted⟩
        · exact fun ⟨hrange, hprinted⟩ => ⟨_, hrange, hprinted⟩
      constructor
      · intro h
        obtain ⟨hrange, hsign⟩ := hitself.mp h.itself
        refine .inr fun d' hd' => ?_
        rw [hread] at hd'
        rw [← Option.some.inj hd']
        exact ⟨q, hq, hsign, hrange⟩
      · intro h
        refine ⟨fun text htext => ?_, hitself.mpr ?_⟩
        · rw [hmoney] at htext
          rw [← Option.some.inj htext]
          exact hasFourDecimals_printed q
        · obtain ⟨q', hq', hsign, hrange⟩ := (h.resolve_left hempty) d hread
          rw [hq] at hq'
          rw [Val.fin.inj hq']
          exact ⟨hrange, hsign⟩

/-! ## The exact sum -/

theorem exactSum_append {a b : List (Option String)} {s : ℚ} :
    exactSum (a ++ b) = some s ↔ ∃ x y, exactSum a = some x ∧ exactSum b = some y ∧ x + y = s := by
  induction a generalizing s with
  | nil => simp [exactSum]
  | cons value rest ih =>
    cases value with
    | none => exact ih
    | some text =>
      simp only [List.cons_append, exactSum, Option.bind_eq_bind, Option.bind_eq_some_iff, Option.pure_def, Option.some.injEq, ih]
      constructor
      · rintro ⟨q, hq, _, ⟨x, y, hx, hy, rfl⟩, rfl⟩
        exact ⟨q + x, y, ⟨q, hq, x, hx, rfl⟩, hy, add_assoc _ _ _⟩
      · rintro ⟨_, y, ⟨q, hq, x, hx, rfl⟩, hy, rfl⟩
        exact ⟨q, hq, x + y, ⟨x, y, hx, hy, rfl⟩, (add_assoc _ _ _).symm⟩

theorem exactSum_one {text : String} {q : ℚ} : exactSum [some text] = some q ↔ exactValue text = some q := by
  simp [exactSum]

/-- The order of the values does not show in the exact sum. -/
theorem exactSum_perm {values values' : List (Option String)} (h : values'.Perm values) {s : ℚ} :
    exactSum values' = some s → exactSum values = some s := by
  induction h generalizing s with
  | nil => exact id
  | @cons value l l' _ ih =>
    have hsplit (rest : List (Option String)) : value :: rest = [value] ++ rest := rfl
    rw [hsplit l, hsplit l', exactSum_append, exactSum_append]
    rintro ⟨x, y, hx, hy, rfl⟩
    exact ⟨x, y, hx, ih hy, rfl⟩
  | swap a b l =>
    have hsplit (u v : Option String) : u :: v :: l = [u] ++ ([v] ++ l) := rfl
    simp only [hsplit, exactSum_append]
    rintro ⟨x, _, hx, ⟨y, z, hy, hz, rfl⟩, rfl⟩
    exact ⟨y, _, hy, ⟨x, z, hx, hz, rfl⟩, add_left_comm _ _ _⟩
  | trans _ _ ih ih' => exact fun h => ih' (ih h)

/-- Money texts state units of the fourth decimal. -/
theorem IsMoneyText.units {text : String} {q : ℚ} (h : IsMoneyText D text) (hq : exactValue text = some q) :
    ∃ n : ℤ, q = n / 10 ^ 4 := by
  obtain ⟨d, rfl⟩ := h
  cases hfinite : (Decimal.val d).isFinite
  · rw [Decimal.toFixed_nonFinite 4 d hfinite, exactValue_nonFinite hfinite] at hq
    cases hq
  · obtain ⟨x, hx⟩ := Val.isFinite_iff.mp hfinite
    rw [exactValue_toFixed hx] at hq
    rw [← Option.some.inj hq]
    exact roundDp_units 4 x

theorem exactSum_units {values : List (Option String)} (hmoney : ∀ text, some text ∈ values → IsMoneyText D text) :
    ∀ q, exactSum values = some q → ∃ n : ℤ, q = n / 10 ^ 4 := by
  induction values with
  | nil =>
    intro q hq
    exact ⟨0, by rw [← Option.some.inj hq, Int.cast_zero, zero_div]⟩
  | cons value rest ih =>
    intro q hq
    rw [← List.singleton_append, exactSum_append] at hq
    obtain ⟨x, y, hx, hy, rfl⟩ := hq
    obtain ⟨m, rfl⟩ := ih (fun text ht => hmoney text (List.mem_cons_of_mem _ ht)) y hy
    cases value with
    | none => exact ⟨m, by rw [← Option.some.inj hx, zero_add]⟩
    | some text =>
      obtain ⟨n, rfl⟩ := (hmoney text List.mem_cons_self).units (exactSum_one.mp hx)
      exact ⟨n + m, by push_cast; ring⟩

/-! ## The sum in decimal.js -/

/-- The sum before it is printed. -/
def sumDecimal (D : Type) [Decimal D] (values : List (Option String)) : Except DecimalError D :=
  (values.filterMap id).foldlM (addMoney D) (Decimal.ofNumber (.ofNat 0))

theorem sumMoney_eq_ok {values : List (Option String)} {text : String} :
    sumMoney D values = .ok text ↔ ∃ sum, sumDecimal D values = .ok sum ∧ Decimal.toFixed 4 sum = text := by
  simp only [sumMoney, sumDecimal, bind_eq_ok, pure_eq_ok]

theorem sumDecimal_nil : ∃ zero : D, sumDecimal D [] = .ok zero ∧ Decimal.val zero = .fin 0 := by
  refine ⟨_, rfl, ?_⟩
  rw [Decimal.val_ofNumber]
  decide +kernel

theorem sumDecimal_none {init : List (Option String)} : sumDecimal D (init ++ [none]) = sumDecimal D init := by
  rw [sumDecimal, List.filterMap_append]
  exact congrArg (fun texts => List.foldlM (addMoney D) _ texts) (List.append_nil _)

theorem sumDecimal_some {init : List (Option String)} {text : String} {sum : D} :
    sumDecimal D (init ++ [some text]) = .ok sum ↔ ∃ acc d, sumDecimal D init = .ok acc ∧
      Decimal.ofString text = some d ∧ Decimal.plus acc d = sum := by
  rw [sumDecimal, List.filterMap_append, List.foldlM_append]
  simp only [sumDecimal, List.filterMap_cons, List.filterMap_nil, id, List.foldlM_cons, List.foldlM_nil, addMoney, bind_eq_ok,
    pure_eq_ok, newDecimal_eq_ok]
  constructor
  · rintro ⟨acc, hacc, _, ⟨d, hd, rfl⟩, rfl⟩
    exact ⟨acc, d, hacc, hd, rfl⟩
  · rintro ⟨acc, d, hacc, hd, rfl⟩
    exact ⟨acc, hacc, _, ⟨d, hd, rfl⟩, rfl⟩

theorem sumDecimal_one {text : String} {sum : D} : sumDecimal D [some text] = .ok sum ↔ ∃ zero d,
    sumDecimal D [] = .ok zero ∧ Decimal.ofString text = some d ∧ Decimal.plus zero d = sum :=
  @sumDecimal_some D _ [] text sum

/-- A finite sum of money texts is units of the fourth decimal: rounding to 20 digits drops none of them. -/
theorem sumDecimal_units (values : List (Option String)) (hmoney : ∀ text, some text ∈ values → IsMoneyText D text) :
    ∀ (sum : D) (w : ℚ), sumDecimal D values = .ok sum → Decimal.val sum = .fin w → ∃ n : ℤ, w = n / 10 ^ 4 := by
  induction values using List.reverseRecOn with
  | nil =>
    intro sum w hsum hw
    obtain ⟨zero, hzero, hval⟩ := @sumDecimal_nil D _
    rw [hzero] at hsum
    rw [← Except.ok.inj hsum, hval] at hw
    exact ⟨0, by rw [← Val.fin.inj hw, Int.cast_zero, zero_div]⟩
  | append_singleton init value ih =>
    have ih := ih fun text ht => hmoney text (List.mem_append_left _ ht)
    intro sum w hsum hw
    cases value with
    | none => exact ih sum w (sumDecimal_none.symm.trans hsum) hw
    | some text =>
      obtain ⟨acc, d, hacc, hd, rfl⟩ := sumDecimal_some.mp hsum
      rw [Decimal.val_plus] at hw
      obtain ⟨x, y, hx, hy⟩ := Val.add_finite hw
      obtain ⟨m, rfl⟩ := ih acc x hacc hx
      -- the text read as a finite value states it in units
      have hmoneyText := hmoney text (List.mem_append_right _ List.mem_cons_self)
      obtain ⟨d', hd', hstates⟩ := hmoneyText.reads
      obtain rfl := Option.some.inj (hd.symm.trans hd')
      obtain ⟨q, hq⟩ := Option.isSome_iff_exists.mp (hstates (Val.isFinite_iff.mpr ⟨y, hy⟩))
      obtain ⟨n, rfl⟩ := hmoneyText.units hq
      obtain ⟨d'', hd'', hval⟩ := @ofString_exactValue D _ _ _ hq
      obtain rfl := Option.some.inj (hd.symm.trans hd'')
      obtain rfl := Val.ofExact_units (by decide) (hval.symm.trans hy)
      rw [hx, hy, Val.add_fin] at hw
      rcases Val.ofExact_fin hw with rfl | rfl
      · have hsum : (m : ℚ) / 10 ^ 4 + n / 10 ^ 4 = ((m + n : ℤ) : ℚ) / 10 ^ 4 := by push_cast; ring
        rw [hsum]
        exact roundSig_units precision 4 (m + n)
      · exact ⟨0, by rw [Int.cast_zero, zero_div]⟩

/-- The sum is printed as the exact one just if it is that. -/
theorem sumsExactly_iff {values : List (Option String)} (hmoney : ∀ text, some text ∈ values → IsMoneyText D text) :
    SumsExactly D values ↔ ∃ q sum, exactSum values = some q ∧ sumDecimal D values = .ok sum ∧ Decimal.val sum = .fin q := by
  constructor
  · rintro ⟨q, hq, hprints⟩
    obtain ⟨sum, hsum, htext⟩ := sumMoney_eq_ok.mp hprints
    obtain ⟨w, hw, hprinted⟩ := toFixed_eq_printed_iff.mp htext
    obtain ⟨n, rfl⟩ := sumDecimal_units values hmoney sum w hsum hw
    obtain ⟨m, rfl⟩ := exactSum_units hmoney q hq
    have hround := roundDp_of_printed hprinted
    rw [roundDp_scaled, roundDp_scaled] at hround
    exact ⟨_, sum, hq, hsum, hround ▸ hw⟩
  · rintro ⟨q, sum, hq, hsum, hval⟩
    exact ⟨q, hq, sumMoney_eq_ok.mpr ⟨sum, hsum, toFixed_eq_printed hval⟩⟩

/-! ## Which lists are added exactly -/

/-- Every part of a list is added exactly just if every part has a sum that is held. -/
theorem parts_exact_iff {values : List (Option String)} (hmoney : ∀ text, some text ∈ values → IsMoneyText D text) :
    (∀ part rest, (part ++ rest).Perm values → SumsExactly D part) ↔ PartsHeld values := by
  have hpart {part rest : List (Option String)} (h : (part ++ rest).Perm values) :
      ∀ text, some text ∈ part → IsMoneyText D text := fun text ht =>
    hmoney text (h.mem_iff.mp (List.mem_append_left _ ht))
  -- the part without its last value, and the last value alone
  have hinit {init rest : List (Option String)} {value : Option String} (h : (init ++ [value] ++ rest).Perm values) :
      (init ++ (value :: rest)).Perm values := by rwa [List.append_assoc, List.singleton_append] at h
  have hlast {init rest : List (Option String)} {value : Option String} (h : (init ++ [value] ++ rest).Perm values) :
      ([value] ++ (init ++ rest)).Perm values :=
    (@List.perm_middle _ value init rest).symm.trans (hinit h)
  constructor
  · intro hexact part
    induction part using List.reverseRecOn with
    | nil => exact fun _ _ => ⟨0, rfl, held_zero⟩
    | append_singleton init value ih =>
      intro rest h
      cases value with
      | none =>
        obtain ⟨q, hq, hheld⟩ := ih _ (hinit h)
        exact ⟨q, exactSum_append.mpr ⟨q, 0, hq, rfl, add_zero q⟩, hheld⟩
      | some text =>
        obtain ⟨s, acc, hs, hacc, hvalacc⟩ := (sumsExactly_iff (hpart (hinit h))).mp (hexact _ _ (hinit h))
        obtain ⟨x, first, hx, hfirst, hvalfirst⟩ := (sumsExactly_iff (hpart (hlast h))).mp (hexact _ _ (hlast h))
        obtain ⟨q, sum, hq, hsum, hvalsum⟩ := (sumsExactly_iff (hpart h)).mp (hexact _ _ h)
        obtain ⟨d, hd, hval⟩ := @ofString_exactValue D _ _ _ (exactSum_one.mp hx)
        -- the value is held, as it is the sum of itself
        obtain ⟨zero, hzero, hvalzero⟩ := @sumDecimal_nil D _
        obtain ⟨zero', d', hzero', hd', rfl⟩ := sumDecimal_one.mp hfirst
        obtain rfl := Except.ok.inj (hzero.symm.trans hzero')
        obtain rfl := Option.some.inj (hd.symm.trans hd')
        rw [Decimal.val_plus, hvalzero, hval, zero_add_exact_iff] at hvalfirst
        -- so the sum with it is exact only if it is held
        obtain ⟨acc', d', hacc', hd', rfl⟩ := sumDecimal_some.mp hsum
        obtain rfl := Except.ok.inj (hacc.symm.trans hacc')
        obtain rfl := Option.some.inj (hd.symm.trans hd')
        obtain ⟨s', x', hs', hx', rfl⟩ := exactSum_append.mp hq
        obtain rfl := Option.some.inj (hs.symm.trans hs')
        obtain rfl := Option.some.inj (hx.symm.trans hx')
        rw [Decimal.val_plus, hvalacc, hval, add_exact_iff hvalfirst.ofExact_eq] at hvalsum
        exact ⟨_, hq, hvalsum⟩
  · intro hheld part rest h
    refine (sumsExactly_iff (hpart h)).mpr ?_
    induction part using List.reverseRecOn generalizing rest with
    | nil =>
      obtain ⟨zero, hzero, hval⟩ := @sumDecimal_nil D _
      exact ⟨0, zero, rfl, hzero, hval⟩
    | append_singleton init value ih =>
      obtain ⟨s, acc, hs, hacc, hvalacc⟩ := ih _ (hinit h)
      cases value with
      | none => exact ⟨s, acc, exactSum_append.mpr ⟨s, 0, hs, rfl, add_zero s⟩, sumDecimal_none.trans hacc, hvalacc⟩
      | some text =>
        obtain ⟨x, hx, hxheld⟩ := hheld _ _ (hlast h)
        obtain ⟨d, hd, hval⟩ := @ofString_exactValue D _ _ _ (exactSum_one.mp hx)
        obtain ⟨q, hq, hqheld⟩ := hheld _ _ h
        obtain ⟨s', x', hs', hx', rfl⟩ := exactSum_append.mp hq
        obtain rfl := Option.some.inj (hs.symm.trans hs')
        obtain rfl := Option.some.inj (hx.symm.trans hx')
        refine ⟨_, Decimal.plus acc d, hq, sumDecimal_some.mpr ⟨acc, d, hacc, hd, rfl⟩, ?_⟩
        rw [Decimal.val_plus, hvalacc, hval, add_exact_iff hxheld.ofExact_eq]
        exact hqheld

/-- The sum of the sums of two parts. -/
theorem sumMoney_sums {x y : ℚ} (hunitsx : ∃ n : ℤ, x = n / 10 ^ 4) (hunitsy : ∃ n : ℤ, y = n / 10 ^ 4) (hx : Held x)
    (hy : Held y) (hsum : Held (x + y)) : sumMoney D [some (printed x), some (printed y)] = .ok (printed (x + y)) := by
  have hread {q : ℚ} (hunits : ∃ n : ℤ, q = n / 10 ^ 4) : exactValue (printed q) = some q := by
    obtain ⟨n, rfl⟩ := hunits
    obtain ⟨l, hl, hval⟩ := literal?_fixedTextOf 4 ((n : ℚ) / 10 ^ 4)
    rw [exactValue, printed, String.toList_ofList, hl, Option.map_some, hval, roundDp_scaled]
  obtain ⟨dx, hdx, hvalx⟩ := @ofString_exactValue D _ _ _ (hread hunitsx)
  obtain ⟨dy, hdy, hvaly⟩ := @ofString_exactValue D _ _ _ (hread hunitsy)
  obtain ⟨zero, hzero, hvalzero⟩ := @sumDecimal_nil D _
  have hfirst : sumDecimal D [some (printed x)] = .ok (Decimal.plus zero dx) :=
    sumDecimal_one.mpr ⟨zero, dx, hzero, hdx, rfl⟩
  refine sumMoney_eq_ok.mpr ⟨_, (@sumDecimal_some D _ [some (printed x)] _ _).mpr ⟨_, dy, hfirst, hdy, rfl⟩, ?_⟩
  refine toFixed_eq_printed ?_
  rw [Decimal.val_plus, Decimal.val_plus, hvalzero, hvalx, zero_add_exact_iff.mpr hx, hvaly, add_exact_iff hy.ofExact_eq]
  exact hsum

theorem sumsOfParts_iff {values : List (Option String)} (hmoney : ∀ text, some text ∈ values → IsMoneyText D text) :
    SumsOfParts D values ↔ PartsHeld values := by
  constructor
  · exact fun h => (parts_exact_iff hmoney).mp h.parts
  · intro hheld
    have hexact := (parts_exact_iff hmoney).mpr hheld
    refine ⟨hexact, fun values' hperm => ?_, fun xs ys hperm => ?_⟩
    · obtain ⟨q, hq, hsum⟩ := hexact values [] (by rw [List.append_nil])
      obtain ⟨q', hq', hsum'⟩ := hexact values' [] (by rwa [List.append_nil])
      obtain rfl := Option.some.inj (hq.symm.trans (exactSum_perm hperm hq'))
      rw [hsum, hsum']
    · have hmem {text : String} (ht : some text ∈ xs ++ ys) : IsMoneyText D text := hmoney text (hperm.mem_iff.mp ht)
      have hperm' : (ys ++ xs).Perm values := List.perm_append_comm.trans hperm
      obtain ⟨x, hx, hsumx⟩ := hexact xs ys hperm
      obtain ⟨y, hy, hsumy⟩ := hexact ys xs hperm'
      obtain ⟨q, hq, hsum⟩ := hexact (xs ++ ys) [] (by rwa [List.append_nil])
      obtain ⟨x', hx', hxheld⟩ := hheld xs ys hperm
      obtain ⟨y', hy', hyheld⟩ := hheld ys xs hperm'
      obtain ⟨q', hq', hqheld⟩ := hheld (xs ++ ys) [] (by rwa [List.append_nil])
      obtain rfl := Option.some.inj (hx.symm.trans hx')
      obtain rfl := Option.some.inj (hy.symm.trans hy')
      obtain rfl := Option.some.inj (hq.symm.trans hq')
      obtain ⟨x', y', hx', hy', rfl⟩ := exactSum_append.mp hq
      obtain rfl := Option.some.inj (hx.symm.trans hx')
      obtain rfl := Option.some.inj (hy.symm.trans hy')
      refine ⟨_, _, hsumx, hsumy, ?_⟩
      rw [hsum, sumMoney_sums (exactSum_units (fun text ht => hmem (List.mem_append_left _ ht)) x hx)
        (exactSum_units (fun text ht => hmem (List.mem_append_right _ ht)) y hy) hxheld hyheld hqheld]

/-- Which texts come out canonical, and which amounts are added exactly. -/
theorem moneyExact_iff (D : Type) [Decimal D] : (∀ raw, IsCanonical D raw ↔ ReadsCanonically D raw) ∧
    ∀ raws : List (Option String), SumsOfParts D (raws.map (money D)) ↔ PartsHeld (raws.map (money D)) := by
  refine ⟨isCanonical_iff, fun raws => sumsOfParts_iff fun text ht => ?_⟩
  obtain ⟨raw, -, hraw⟩ := List.mem_map.mp ht
  exact isMoneyText_of_money hraw

end

/-- An infinity is an amount, an amount rounded to zero loses its minus sign when it is read again, and of
two sums beyond 20 digits one drops a decimal and the other depends on the order. -/
theorem longSum_inexact :
    (money Ref (some "Infinity") = some "Infinity" ∧ hasFourDecimals "Infinity" = false) ∧
    (money Ref (some "-0.00001") = some "-0.0000" ∧ money Ref (some "-0.0000") = some "0.0000") ∧
    (sumMoney Ref (["99999999999999999999", "0.0001"].map fun raw => money Ref (some raw)) = .ok "99999999999999999999.0000" ∧
      (exactSum (["99999999999999999999", "0.0001"].map fun raw => money Ref (some raw))).map printed =
        some "99999999999999999999.0001") ∧
    sumMoney Ref (["100000000000000000000", "4", "4"].map fun raw => money Ref (some raw)) ≠
      sumMoney Ref (["4", "4", "100000000000000000000"].map fun raw => money Ref (some raw)) := by
  decide +kernel

end Ingestion
