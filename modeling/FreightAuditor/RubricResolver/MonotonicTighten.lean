import FreightAuditor.RuleEngine.Interpreter
import FreightAuditor.Library.DecimalRef

/- The prover that one rule only tightens another.

   `proveMonotonicTighten` compares two ASTs by their canonical text, by two literal
   bounds, by two tolerances, or by sets of conjuncts. Its comment promises that
   every fact bundle passing `tightened` also passes `base`.

   What is proved here: two nodes with one canonical text have one value
   (`value_canonical`), and, for a pair the prover accepts, on which facts the
   promise holds (`proveMonotonicTighten_sound_iff`). The prover reads a text bound
   as a number; the interpreter compares it as text (`boundsPart`). -/
namespace RubricResolver

open RuleEngine DecimalJs

/-- Canonical text: the stored form with the fields of every object in key order. -/
def canonical (n : AstNode) : List Char := Json.canonicalText n.toJson

inductive MonotonicProof where
  | IDENTICAL | NARROWER_BOUND | NARROWER_TOLERANCE | ADDED_CONJUNCTS
  deriving DecidableEq

inductive TightenReason where
  | UNSUPPORTED_SHAPE | OPERAND_CHANGED | BOUND_WEAKENED | CLAUSE_REMOVED
  deriving DecidableEq

inductive TightenProof where
  | monotonic (proof : MonotonicProof)
  | notMonotonic (reason : TightenReason)
  deriving DecidableEq

section

variable (D : Type) [Decimal D]

/-- The number in a literal, also in one that is a string. -/
def numericLiteral : AstNode → Option D
  | .lit (.number n) => some (Decimal.ofNumber n)
  | .lit (.string s) => Decimal.ofString s
  | _ => none

/-- Whether moving the bound from `before` to `after` narrows the comparison. -/
def narrower (op : CompareOp) (before after : D) : Bool :=
  match op with
  | .lt | .lte => Decimal.lessThanOrEqualTo after before
  | .gt | .gte => Decimal.greaterThanOrEqualTo after before
  | _ => Decimal.equals after before

/-- The proof for two comparisons, each given by its operator, operands and tolerance. -/
def proveCompare (op : CompareOp) (left right : AstNode) (tolerance : Option String)
    (op' : CompareOp) (left' right' : AstNode) (tolerance' : Option String) : TightenProof :=
  if op ≠ op' ∨ canonical left ≠ canonical left' then .notMonotonic .OPERAND_CHANGED
  else if op = .approx then
    if canonical right ≠ canonical right' then .notMonotonic .OPERAND_CHANGED
    else
      match (Decimal.ofString (tolerance.getD "0") : Option D),
        (Decimal.ofString (tolerance'.getD "0") : Option D) with
      | some before, some after =>
        if Decimal.lessThanOrEqualTo after before then
          .monotonic (if Decimal.equals after before then .IDENTICAL else .NARROWER_TOLERANCE)
        else .notMonotonic .BOUND_WEAKENED
      | _, _ => .notMonotonic .UNSUPPORTED_SHAPE
  else
    match numericLiteral D right, numericLiteral D right' with
    | some before, some after =>
      if narrower D op before after then
        .monotonic (if Decimal.equals after before then .IDENTICAL else .NARROWER_BOUND)
      else .notMonotonic .BOUND_WEAKENED
    | _, _ => .notMonotonic .UNSUPPORTED_SHAPE

/-- Prove that every passing result under `tightened` also passed under `base`. -/
def proveMonotonicTighten (base tightened : AstNode) : TightenProof :=
  if canonical base = canonical tightened then .monotonic .IDENTICAL
  else match base, tightened with
  | .compare op left right tolerance, .compare op' left' right' tolerance' =>
    proveCompare D op left right tolerance op' left' right' tolerance'
  | .logic .and baseArgs, .logic .and tightenedArgs =>
    if baseArgs.all (fun clause => (tightenedArgs.map canonical).contains (canonical clause)) then
      .monotonic .ADDED_CONJUNCTS
    else .notMonotonic .CLAUSE_REMOVED
  | _, _ => .notMonotonic .UNSUPPORTED_SHAPE

end

/-! ## One canonical text, one value -/

section

variable {D : Type} [Decimal D] {facts : FactBundle}

theorem litValue_canonical {a b : LitValue} (h : Json.sortKeys a.toJson = Json.sortKeys b.toJson) :
    litValue D a = litValue D b := by
  cases a with
  | number m =>
    cases b with
    | number n =>
      -- every number that is not finite is printed as `null`, and none of them is assessable
      cases m <;> cases n <;>
        simp_all [LitValue.toJson, Json.Value.ofNumber, Json.sortKeys, litValue, safeDecimalNumber]
    | string s => cases m <;> simp [LitValue.toJson, Json.Value.ofNumber, Json.sortKeys] at h
    | boolean b => cases m <;> simp [LitValue.toJson, Json.Value.ofNumber, Json.sortKeys] at h
  | string s =>
    cases b with
    | number n => cases n <;> simp [LitValue.toJson, Json.Value.ofNumber, Json.sortKeys] at h
    | string t => simp_all [LitValue.toJson, Json.sortKeys]
    | boolean b => simp [LitValue.toJson, Json.sortKeys] at h
  | boolean x =>
    cases b with
    | number n => cases n <;> simp [LitValue.toJson, Json.Value.ofNumber, Json.sortKeys] at h
    | string t => simp [LitValue.toJson, Json.sortKeys] at h
    | boolean y => simp_all [LitValue.toJson, Json.sortKeys]

theorem mapM_canonical {l m : List AstNode}
    (h : Json.sortElems (argsToJson l) = Json.sortElems (argsToJson m))
    (ih : ∀ a ∈ l, ∀ b, Json.sortKeys a.toJson = Json.sortKeys b.toJson →
      value D facts a = value D facts b) :
    l.mapM (value D facts) = m.mapM (value D facts) := by
  induction l generalizing m with
  | nil =>
    cases m with
    | nil => rfl
    | cons b m => simp [argsToJson, Json.sortElems] at h
  | cons a l ihl =>
    cases m with
    | nil => simp [argsToJson, Json.sortElems] at h
    | cons b m =>
      simp only [argsToJson, Json.sortElems, List.cons.injEq] at h
      rw [List.mapM_cons, List.mapM_cons, ih a (by simp) b h.1,
        ihl h.2 (fun a ha => ih a (List.mem_cons_of_mem _ ha))]

/-- Evaluation depends on a node's canonical text only. -/
theorem value_sortKeys (a : AstNode) : ∀ b, Json.sortKeys a.toJson = Json.sortKeys b.toJson →
    value D facts a = value D facts b := by
  induction a using AstNode.induction with
  | lit v =>
    intro b h
    have htype := Json.field_eq h "type"
    cases b with
    | lit w =>
      have hv := Json.field_eq h "value"
      simp [AstNode.toJson, Json.Value.get?, List.lookup_cons] at hv
      rw [value_lit, value_lit, litValue_canonical hv]
    | _ => simp [AstNode.toJson, Json.Value.get?, Json.sortKeys] at htype
  | money amount currency =>
    intro b h
    have htype := Json.field_eq h "type"
    cases b with
    | money amount' currency' =>
      have hamount := Json.field_eq h "amount"
      have hcurrency := Json.field_eq h "currency"
      simp [AstNode.toJson, Json.Value.get?, List.lookup_cons, Json.sortKeys] at hamount hcurrency
      rw [hamount, hcurrency]
    | _ => simp [AstNode.toJson, Json.Value.get?, Json.sortKeys] at htype
  | fact key =>
    intro b h
    have htype := Json.field_eq h "type"
    cases b with
    | fact key' =>
      have hkey := Json.field_eq h "key"
      simp [AstNode.toJson, Json.Value.get?, List.lookup_cons, Json.sortKeys] at hkey
      rw [hkey]
    | _ => simp [AstNode.toJson, Json.Value.get?, Json.sortKeys] at htype
  | arith op args ih =>
    intro b h
    have htype := Json.field_eq h "type"
    cases b with
    | arith op' args' =>
      have hop := Json.field_eq h "op"
      have hargs := Json.field_eq h "args"
      simp [AstNode.toJson, Json.Value.get?, List.lookup_cons, Json.sortKeys] at hop hargs
      rw [value_arith, value_arith, ArithOp.text_injective hop, mapM_canonical hargs ih]
    | _ => simp [AstNode.toJson, Json.Value.get?, Json.sortKeys] at htype
  | compare op left right tolerance ihl ihr =>
    intro b h
    have htype := Json.field_eq h "type"
    cases b with
    | compare op' left' right' tolerance' =>
      have hop := Json.field_eq h "op"
      have hleft := Json.field_eq h "left"
      have hright := Json.field_eq h "right"
      have htol := Json.field_eq h "tolerance"
      simp [AstNode.toJson, Json.Value.get?, List.lookup_cons, Json.sortKeys] at hop
      simp [AstNode.toJson, Json.Value.get?, List.lookup_cons] at hleft hright
      have htol' : tolerance = tolerance' := by
        cases tolerance <;> cases tolerance' <;>
          simp_all [AstNode.toJson, Json.Value.get?, List.lookup_cons, Json.sortKeys]
      rw [value_compare, value_compare, CompareOp.text_injective hop, ihl _ hleft, ihr _ hright, htol']
    | _ => simp [AstNode.toJson, Json.Value.get?, Json.sortKeys] at htype
  | logic op args ih =>
    intro b h
    have htype := Json.field_eq h "type"
    cases b with
    | logic op' args' =>
      have hop := Json.field_eq h "op"
      have hargs := Json.field_eq h "args"
      simp [AstNode.toJson, Json.Value.get?, List.lookup_cons, Json.sortKeys] at hop hargs
      rw [value_logic, value_logic, LogicOp.text_injective hop, mapM_canonical hargs ih]
    | _ => simp [AstNode.toJson, Json.Value.get?, Json.sortKeys] at htype
  | require key thenNode ih =>
    intro b h
    have htype := Json.field_eq h "type"
    cases b with
    | require key' thenNode' =>
      have hkey := Json.field_eq h "key"
      have hthen := Json.field_eq h "then"
      simp [AstNode.toJson, Json.Value.get?, List.lookup_cons, Json.sortKeys] at hkey hthen
      rw [value_require, value_require, hkey, ih _ hthen]
    | _ => simp [AstNode.toJson, Json.Value.get?, Json.sortKeys] at htype

/-- Two nodes with one canonical text have one value, and throw alike. -/
theorem value_canonical {a b : AstNode} (h : canonical a = canonical b) :
    value D facts a = value D facts b :=
  value_sortKeys a b (Json.canonicalText_inj.mp h)

theorem throws_canonical {a b : AstNode} (h : canonical a = canonical b) :
    Throws D facts a ↔ Throws D facts b := by
  rw [throws_iff_value, throws_iff_value, value_canonical h]

end

/-! ## The promise of the prover -/

section

variable (D : Type) [Decimal D] (facts : FactBundle)

/-- The rule passes on the facts. -/
def Passes (n : AstNode) : Prop := ∃ ev, evaluate D facts n = .ok ev ∧ verdict ev = .PASS

/-- What passes `tightened` passes `base`, and the two throw alike. -/
def Tightens (base tightened : AstNode) : Prop :=
  (Passes D facts tightened → Passes D facts base) ∧ (Throws D facts tightened ↔ Throws D facts base)

/-- Both values are numbers, and the comparison of the numbers holds. -/
def numbersCompare (op : CompareOp) (left right : EvalValue) : Prop :=
  ∃ x y : D, numeral D left = some x ∧ numeral D right = some y ∧ compareNumbers D op none x y = .ok true

/-- The left operand's value lies where a base bound and a narrower bound part: the narrower one
accepts it and the base bound does not. Two finite number literals never part; a string bound is
compared as text with `eq` and `ne` and with nothing by the other operators; a number literal that
is not finite is compared with nothing. -/
def boundsPart (op : CompareOp) (base tightened left : EvalValue) : Prop :=
  match op, base, tightened with
  | .eq, .number b, .string t => left = .string t ∧ t ≠ b
  | .eq, .string b, .number t =>
    (numbersCompare D .eq left (.number t) ∨ left = .string t) ∧ valueScalar left ≠ .string b
  | .eq, .string b, .string t => valueScalar left = .string t ∧ t ≠ b
  | .eq, .unassessable _, .string t => valueScalar left = .string t
  | .ne, .number b, .string t =>
    (numbersCompare D .eq left (.number b) ∨ left = .string b) ∧ valueScalar left ≠ .string t
  | .ne, .string b, .number t => left = .string b ∧ b ≠ t
  | .ne, .string b, .string t => valueScalar left = .string b ∧ b ≠ t
  | .ne, .unassessable _, .string t => left.isUnassessable = false ∧ valueScalar left ≠ .string t
  | .eq, _, _ => False
  | .ne, _, _ => False
  | _, .number _, _ => False
  | op, _, .number t => numbersCompare D op left (.number t)
  | _, _, _ => False

/-- On which facts an accepted pair keeps the promise: the left operand's value is not where the
two bounds part, and the added conjuncts reach no malformed tolerance unless the base does. -/
def keepsPromise (base tightened : AstNode) : Prop :=
  canonical base = canonical tightened ∨
    match base, tightened with
    | .compare op left (.lit b) _, .compare _ _ (.lit t) _ =>
      op = .approx ∨ ∀ v, value D facts left = .ok v → ¬ boundsPart D op (litValue D b) (litValue D t) v
    | .logic .and baseArgs, .logic .and tightenedArgs =>
      (∃ c ∈ tightenedArgs, ReachesMalformedTolerance D facts c) →
        ∃ c ∈ baseArgs, ReachesMalformedTolerance D facts c
    | _, _ => True

variable {D facts}

theorem passes_iff {n : AstNode} : Passes D facts n ↔ value D facts n = .ok (.bool true) := by
  have hv : ∀ v : EvalValue, v.verdict = .PASS ↔ v = .bool true := by
    intro v
    cases v with
    | bool b => cases b <;> simp [EvalValue.verdict]
    | _ => simp [EvalValue.verdict]
  unfold Passes value
  cases evaluate D facts n with
  | error e => simp
  | ok ev => simp [verdict, hv]

theorem tightens_canonical {base tightened : AstNode} (h : canonical base = canonical tightened) :
    Tightens D facts base tightened := by
  refine ⟨?_, (throws_canonical h).symm⟩
  rw [passes_iff, passes_iff, value_canonical h]
  exact id

/-! ## How a bound is read -/

/-- A literal the prover reads as `d`, as the interpreter reads it. -/
inductive Bound : EvalValue → D → Prop
  | number (d : D) (h : Decimal.isFinite d = true) : Bound (.number (Decimal.toString d)) d
  | string (s : String) (d : D) (h : Decimal.ofString s = some d) : Bound (.string s) d
  | nonFinite (r : String) (d : D) (h : Decimal.isFinite d = false) : Bound (.unassessable r) d

theorem bound_of_numericLiteral {l : LitValue} {d : D} (h : numericLiteral D (.lit l) = some d) :
    Bound (litValue D l) d := by
  cases l with
  | boolean b => cases h
  | string s => exact .string s d h
  | number n =>
    cases h
    have hval : ∀ m : JsNumber, m.val.isFinite = false →
        Bound (.unassessable "non-finite literal") (Decimal.ofNumber m : D) :=
      fun m hm => .nonFinite _ _ (by rw [Decimal.isFinite, Decimal.val_ofNumber, hm])
    cases n with
    | nan => exact hval .nan rfl
    | inf s => exact hval (.inf s) rfl
    | fin t =>
      by_cases hf : Decimal.isFinite (Decimal.ofNumber (.fin t) : D) = true
      · simp only [litValue, safeDecimalNumber, hf, if_true]
        exact .number _ hf
      · simp only [litValue, safeDecimalNumber, hf]
        exact .nonFinite _ _ (by simpa using hf)

/-- A comparison other than `approx` depends on the denoted values only. -/
theorem compareNumbers_congr {op : CompareOp} (hop : op ≠ .approx) {tolerance : Option String}
    {x y x' y' : D} (hx : Decimal.val x = Decimal.val x') (hy : Decimal.val y = Decimal.val y') :
    compareNumbers D op tolerance x y = compareNumbers D op none x' y' := by
  cases op
  case approx => exact absurd rfl hop
  all_goals
    simp [compareNumbers, Decimal.equals, Decimal.greaterThan, Decimal.greaterThanOrEqualTo,
      Decimal.lessThan, Decimal.lessThanOrEqualTo, hx, hy]

/-- A number within the narrower bound is within the base bound. -/
theorem narrower_sound {op : CompareOp} (hop : op ≠ .approx) {x before after : D} (h : narrower D op before after = true)
    (hx : compareNumbers D op none x after = .ok true) :
    compareNumbers D op none x before = .ok true := by
  cases op with
  | eq =>
    simp only [narrower, compareNumbers, Decimal.equals, Except.ok.injEq] at *
    rwa [← (Val.eq_iff.mp h).1]
  | ne =>
    simp only [narrower, compareNumbers, Decimal.equals, Except.ok.injEq] at *
    rwa [← (Val.eq_iff.mp h).1]
  | lt =>
    simp only [narrower, compareNumbers, Decimal.lessThan, Decimal.lessThanOrEqualTo,
      Except.ok.injEq] at *
    exact Val.lt_of_lt_of_le hx h
  | lte =>
    simp only [narrower, compareNumbers, Decimal.lessThanOrEqualTo, Except.ok.injEq] at *
    exact Val.le_trans hx h
  | gt =>
    simp only [narrower, compareNumbers, Decimal.greaterThan, Decimal.greaterThanOrEqualTo,
      Except.ok.injEq] at *
    exact Val.lt_of_le_of_lt h hx
  | gte =>
    simp only [narrower, compareNumbers, Decimal.greaterThanOrEqualTo, Except.ok.injEq] at *
    exact Val.le_trans h hx
  | approx => exact absurd rfl hop

/-- The comparison of a value with a bound is true. -/
def accepts (D : Type) [Decimal D] (op : CompareOp) (left bound : EvalValue) : Prop :=
  ∀ tolerance, compareValue D op tolerance left bound = .ok (.bool true)

section

variable {op : CompareOp} {left : EvalValue}

theorem accepts_unassessable (r : String) : ¬ accepts D op left (.unassessable r) := by
  intro h
  have := h none
  simp [compareValue, EvalValue.isUnassessable] at this

/-- Against a text, only equality of text is decided. -/
theorem accepts_string (hleft : left.Reads D) (s : String) :
    accepts D op left (.string s) ↔ left.isUnassessable = false ∧
      ((op = .eq ∧ valueScalar left = .string s) ∨ (op = .ne ∧ valueScalar left ≠ .string s)) := by
  have hval : ∀ tolerance, compareValue D op tolerance left (.string s) =
      if left.isUnassessable then .ok (.unassessable "comparand unassessable")
      else .ok (compareScalars op left (.string s)) := by
    intro tolerance
    have htext : (EvalValue.string s).Reads D := trivial
    rw [compareValue_reads op tolerance hleft htext]
    simp only [isUnassessable_string, Bool.or_false, numeral_string]
    split
    · rfl
    · cases numeral D left <;> rfl
  simp only [accepts, hval]
  cases left.isUnassessable
  · cases op <;> simp [compareScalars]
  · simp

/-- Against a number: the numbers are compared, and what is not numeric is compared as text. -/
theorem accepts_number (hop : op ≠ .approx) (hleft : left.Reads D) {t : String} {y : D}
    (hy : Decimal.ofString t = some y) :
    accepts D op left (.number t) ↔ numbersCompare D op left (.number t) ∨
      (numeral D left = none ∧ left.isUnassessable = false ∧
        ((op = .eq ∧ valueScalar left = .string t) ∨ (op = .ne ∧ valueScalar left ≠ .string t))) := by
  have hreads : (EvalValue.number t).Reads D := by simp [EvalValue.Reads, hy]
  have hnum : numeral D (.number t) = some y := hy
  simp only [accepts, compareValue_reads op _ hleft hreads, numbersCompare, hnum]
  cases hu : left.isUnassessable
  · cases hx : numeral D left with
    | none => cases op <;> simp [compareScalars]
    | some x =>
      have hc (tolerance : Option String) :
          compareNumbers D op tolerance x y = compareNumbers D op none x y :=
        compareNumbers_congr hop rfl rfl
      simp only [isUnassessable_number, Bool.or_self, hc]
      cases hres : compareNumbers D op none x y <;> simp [hres]
  · have hx : numeral D left = none := by
      cases left <;> first | rfl | cases hu
    simp [hx]

end

/-! ## Where the bounds part -/

section

variable {left base tightened : EvalValue} {before after : D}

/-- The text of a finite bound reads back as its value. -/
theorem toString_bound (d : D) : ∃ d' : D, Decimal.ofString (Decimal.toString d) = some d' ∧
    Decimal.val d' = Decimal.val d :=
  Decimal.toString_reads d

/-- A value that compares with the narrower of two number bounds compares with the base bound. -/
theorem numbersCompare_narrower {op : CompareOp} (hop : op ≠ .approx)
    (hn : narrower D op before after = true)
    (h : numbersCompare D op left (.number (Decimal.toString after))) :
    numbersCompare D op left (.number (Decimal.toString before)) := by
  obtain ⟨x, y, hx, hy, hc⟩ := h
  obtain ⟨b, hb, hbv⟩ := toString_bound before
  obtain ⟨a, ha, hav⟩ := toString_bound after
  rw [numeral_number, ha, Option.some.injEq] at hy
  subst hy
  refine ⟨x, b, hx, hb, ?_⟩
  rw [compareNumbers_congr hop rfl hav] at hc
  rw [compareNumbers_congr hop rfl hbv]
  exact narrower_sound hop hn hc

/-- `lt`, `lte`, `gt` and `gte`: a base bound that is no number accepts nothing. -/
theorem boundsPart_order {op : CompareOp} (hop : op = .lt ∨ op = .lte ∨ op = .gt ∨ op = .gte)
    (hb : Bound base before) (ht : Bound tightened after) (hn : narrower D op before after = true)
    (hleft : left.Reads D) :
    boundsPart D op base tightened left ↔ accepts D op left tightened ∧ ¬ accepts D op left base := by
  have hne : op ≠ .approx ∧ op ≠ .eq ∧ op ≠ .ne := by rcases hop with rfl | rfl | rfl | rfl <;> decide
  have hnum : ∀ d : D, accepts D op left (.number (Decimal.toString d)) ↔
      numbersCompare D op left (.number (Decimal.toString d)) := by
    intro d
    obtain ⟨d', hd', -⟩ := toString_bound d
    rw [accepts_number hne.1 hleft hd']
    simp [hne.2]
  have htext : ∀ s, ¬ accepts D op left (.string s) := by
    intro s
    rw [accepts_string hleft]
    simp [hne.2]
  cases ht with
  | string t _ _ =>
    have : ¬ boundsPart D op base (.string t) left := by
      cases base <;> rcases hop with rfl | rfl | rfl | rfl <;> exact id
    simp [this, htext]
  | nonFinite r _ _ =>
    have : ¬ boundsPart D op base (.unassessable r) left := by
      cases base <;> rcases hop with rfl | rfl | rfl | rfl <;> exact id
    simp [this, accepts_unassessable]
  | number _ _ =>
    cases hb with
    | number _ _ =>
      have : ¬ boundsPart D op (.number (Decimal.toString before)) (.number (Decimal.toString after)) left := by
        rcases hop with rfl | rfl | rfl | rfl <;> exact id
      simp only [this, hnum, false_iff, not_and, not_not]
      exact numbersCompare_narrower hne.1 hn
    | string b _ _ =>
      have : boundsPart D op (.string b) (.number (Decimal.toString after)) left ↔
          numbersCompare D op left (.number (Decimal.toString after)) := by
        rcases hop with rfl | rfl | rfl | rfl <;> exact Iff.rfl
      simp [this, hnum, htext]
    | nonFinite r _ _ =>
      have : boundsPart D op (.unassessable r) (.number (Decimal.toString after)) left ↔
          numbersCompare D op left (.number (Decimal.toString after)) := by
        rcases hop with rfl | rfl | rfl | rfl <;> exact Iff.rfl
      simp [this, hnum, accepts_unassessable]

theorem numeral_assessable {x : D} (h : numeral D left = some x) : left.isUnassessable = false := by
  cases left <;> simp_all

/-- The decimal of a numeric value is read from its text. -/
theorem numeral_of_scalar {s : String} {x : D} (hs : valueScalar left = .string s)
    (hx : numeral D left = some x) : Decimal.ofString s = some x := by
  cases left <;> simp_all

theorem numbersCompare_toString {op : CompareOp} (hop : op ≠ .approx) {x : D}
    (hx : numeral D left = some x) (d : D) :
    numbersCompare D op left (.number (Decimal.toString d)) ↔ compareNumbers D op none x d = .ok true := by
  obtain ⟨d', hd', hval⟩ := toString_bound d
  simp only [numbersCompare, hx, numeral_number, hd', Option.some.injEq, exists_and_left,
    exists_eq_left']
  rw [compareNumbers_congr hop rfl hval]

theorem numbersCompare_none {op : CompareOp} {right : EvalValue} (hx : numeral D left = none) :
    ¬ numbersCompare D op left right := by
  rintro ⟨x, y, h, -⟩
  rw [hx] at h
  cases h

/-- `eq` and `ne` accept a narrower bound of the same value only. -/
theorem narrower_eq {op : CompareOp} (hop : op = .eq ∨ op = .ne)
    (hn : narrower D op before after = true) :
    Decimal.val after = Decimal.val before ∧ Decimal.val after ≠ .nan := by
  rcases hop with rfl | rfl <;> exact Val.eq_iff.mp hn

/-- `eq`: bounds of one value are compared alike only when both are number literals, or when the
text is the number's own. -/
theorem boundsPart_eq (hb : Bound base before) (ht : Bound tightened after)
    (hn : narrower D .eq before after = true) (hleft : left.Reads D) :
    boundsPart D .eq base tightened left ↔ accepts D .eq left tightened ∧ ¬ accepts D .eq left base := by
  obtain ⟨hval, hnan⟩ := narrower_eq (.inl rfl) hn
  have hop : CompareOp.eq ≠ .approx := by decide
  cases ht with
  | nonFinite r _ _ =>
    have : ¬ boundsPart D .eq base (.unassessable r) left := by cases base <;> exact id
    simp [this, accepts_unassessable]
  | number _ hfin =>
    obtain ⟨after', hafter, -⟩ := toString_bound after
    cases hb with
    | number _ _ =>
      -- one value, one text
      rw [Decimal.toString_congr after before hval]
      simp [boundsPart]
    | string b _ hbs =>
      simp only [boundsPart, accepts_string hleft, accepts_number hop hleft hafter]
      cases hx : numeral D left with
      | some x => cases left <;> simp_all
      | none =>
        rcases numeral_none hleft hx with ⟨s, rfl⟩ | ⟨c, rfl⟩ | ⟨r, rfl⟩ <;>
          simp [numbersCompare_none hx]
    | nonFinite r _ hinf =>
      rw [Decimal.isFinite, hval] at hfin
      rw [Decimal.isFinite, hfin] at hinf
      cases hinf
  | string t _ hts =>
    cases hb with
    | number _ _ =>
      obtain ⟨before', hbefore, -⟩ := toString_bound before
      simp only [boundsPart, accepts_string hleft, accepts_number hop hleft hbefore]
      cases hx : numeral D left with
      | some x =>
        -- a number whose text is the tightened bound is equal to the base bound
        have heq : valueScalar left = .string t →
            numbersCompare D .eq left (.number (Decimal.toString before)) := by
          intro hs
          have hxt := numeral_of_scalar hs hx
          rw [hts, Option.some.injEq] at hxt
          rw [numbersCompare_toString hop hx, compareNumbers, Decimal.equals, ← hxt,
            Val.eq_iff.mpr ⟨hval, hnan⟩]
        have hne : left ≠ .string t := by rintro rfl; cases hx
        simp only [hne, false_and, false_iff, not_and, not_not]
        intro h
        rcases h.2 with ⟨-, hs⟩ | ⟨h, -⟩
        · exact .inl (heq hs)
        · cases h
      | none =>
        rcases numeral_none hleft hx with ⟨s, rfl⟩ | ⟨c, rfl⟩ | ⟨r, rfl⟩
        · simp only [numbersCompare_none hx, EvalValue.string.injEq]
          grind
        · simp
        · simp
    | string b _ _ =>
      simp only [boundsPart, accepts_string hleft]
      cases left <;> grind
    | nonFinite r _ _ =>
      simp only [boundsPart, accepts_string hleft, accepts_unassessable]
      cases left <;> simp

/-- `ne`: bounds of one value exclude alike only when both are number literals, or when the text is
the number's own. -/
theorem boundsPart_ne (hb : Bound base before) (ht : Bound tightened after)
    (hn : narrower D .ne before after = true) (hleft : left.Reads D) :
    boundsPart D .ne base tightened left ↔ accepts D .ne left tightened ∧ ¬ accepts D .ne left base := by
  obtain ⟨hval, hnan⟩ := narrower_eq (.inr rfl) hn
  have hop : CompareOp.ne ≠ .approx := by decide
  have hopeq : CompareOp.eq ≠ .approx := by decide
  -- on numbers, `ne` is the opposite of `eq`
  have hopp : ∀ {x : D}, numeral D left = some x → ∀ d : D,
      numbersCompare D .ne left (.number (Decimal.toString d)) ↔
        ¬ numbersCompare D .eq left (.number (Decimal.toString d)) := by
    intro x hx d
    rw [numbersCompare_toString hop hx, numbersCompare_toString hopeq hx]
    simp [compareNumbers]
  cases ht with
  | nonFinite r _ _ =>
    have : ¬ boundsPart D .ne base (.unassessable r) left := by cases base <;> exact id
    simp [this, accepts_unassessable]
  | number _ hfin =>
    obtain ⟨after', hafter, -⟩ := toString_bound after
    cases hb with
    | number _ _ =>
      rw [Decimal.toString_congr after before hval]
      simp [boundsPart]
    | string b _ hbs =>
      simp only [boundsPart, accepts_string hleft, accepts_number hop hleft hafter]
      cases hx : numeral D left with
      | some x =>
        -- a number whose text is the base bound is equal to the tightened bound
        have heq : valueScalar left = .string b →
            numbersCompare D .eq left (.number (Decimal.toString after)) := by
          intro hs
          have hxb := numeral_of_scalar hs hx
          rw [hbs, Option.some.injEq] at hxb
          rw [numbersCompare_toString hopeq hx, compareNumbers, Decimal.equals, ← hxb,
            Val.eq_iff.mpr ⟨hval.symm, hval ▸ hnan⟩]
        have hne : left ≠ .string b := by rintro rfl; cases hx
        simp only [hne, hopp hx, numeral_assessable hx]
        grind
      | none =>
        rcases numeral_none hleft hx with ⟨s, rfl⟩ | ⟨c, rfl⟩ | ⟨r, rfl⟩
        · simp only [numbersCompare_none hx]
          grind
        · simp
        · simp [numbersCompare_none hx]
    | nonFinite r _ hinf =>
      rw [Decimal.isFinite, hval] at hfin
      rw [Decimal.isFinite, hfin] at hinf
      cases hinf
  | string t _ hts =>
    cases hb with
    | number _ _ =>
      obtain ⟨before', hbefore, -⟩ := toString_bound before
      simp only [boundsPart, accepts_string hleft, accepts_number hop hleft hbefore]
      cases hx : numeral D left with
      | some x =>
        have hne : left ≠ .string (Decimal.toString before) := by rintro rfl; cases hx
        simp only [hne, hopp hx, numeral_assessable hx]
        grind
      | none =>
        rcases numeral_none hleft hx with ⟨s, rfl⟩ | ⟨c, rfl⟩ | ⟨r, rfl⟩
        · simp only [numbersCompare_none hx]
          grind
        · simp [numbersCompare_none hx]
        · simp [numbersCompare_none hx]
    | string b _ _ =>
      simp only [boundsPart, accepts_string hleft]
      cases left <;> grind
    | nonFinite r _ _ =>
      simp only [boundsPart, accepts_string hleft, accepts_unassessable]
      grind

/-- Two finite number literals never part, whatever the operator. -/
theorem boundsPart_numbers (op : CompareOp) {m n : JsNumber} (hm : (safeDecimalNumber D m).isSome)
    (hn : (safeDecimalNumber D n).isSome) :
    ¬ boundsPart D op (litValue D (.number m)) (litValue D (.number n)) left := by
  obtain ⟨b, hb⟩ := Option.isSome_iff_exists.mp hm
  obtain ⟨t, ht⟩ := Option.isSome_iff_exists.mp hn
  simp only [litValue, hb, ht]
  cases op <;> exact id

theorem boundsPart_iff {op : CompareOp} (hop : op ≠ .approx) (hb : Bound base before)
    (ht : Bound tightened after) (hn : narrower D op before after = true) (hleft : left.Reads D) :
    boundsPart D op base tightened left ↔ accepts D op left tightened ∧ ¬ accepts D op left base := by
  cases op with
  | eq => exact boundsPart_eq hb ht hn hleft
  | ne => exact boundsPart_ne hb ht hn hleft
  | lt => exact boundsPart_order (by simp) hb ht hn hleft
  | lte => exact boundsPart_order (by simp) hb ht hn hleft
  | gt => exact boundsPart_order (by simp) hb ht hn hleft
  | gte => exact boundsPart_order (by simp) hb ht hn hleft
  | approx => exact absurd rfl hop

end

/-! ## Shapes the prover accepts -/

/-- A comparison other than `approx` passes where the bound accepts the left operand's value. -/
theorem passes_compare_lit {op : CompareOp} (hop : op ≠ .approx) {left : AstNode} {l : LitValue}
    {tolerance : Option String} :
    Passes D facts (.compare op left (.lit l) tolerance) ↔
      ∃ v, value D facts left = .ok v ∧ accepts D op v (litValue D l) := by
  have htol : ∀ (v : EvalValue) (t : Option String),
      compareValue D op t v (litValue D l) = compareValue D op tolerance v (litValue D l) := by
    intro v t
    cases op <;> first | exact absurd rfl hop | rfl
  rw [passes_iff, value_compare, value_lit]
  cases value D facts left with
  | error e => simp [bind, Except.bind]
  | ok v => simp [bind, Except.bind, accepts, htol]

theorem throws_compare_lit {op : CompareOp} (hop : op ≠ .approx) {left : AstNode} {l : LitValue}
    {tolerance : Option String} :
    Throws D facts (.compare op left (.lit l) tolerance) ↔ Throws D facts left := by
  rw [throws_iff, throws_iff]
  constructor
  · intro h
    cases h with
    | here => exact absurd rfl hop
    | left _ _ _ _ h => exact h
    | right _ _ _ _ h => cases h
  · exact .left op left (.lit l) tolerance

/-- A conjunction passes where every conjunct does. -/
theorem passes_and {args : List AstNode} :
    Passes D facts (.logic .and args) ↔ ∀ c ∈ args, Passes D facts c := by
  simp only [passes_iff]
  rw [← mapM_constant_iff, value_logic]
  cases args.mapM (value D facts) <;> simp [logicValue_and]

/-- A narrower tolerance accepts fewer pairs. -/
theorem approx_sound {tolerance tolerance' : Option String} {before after : D} {l r : EvalValue}
    (hbefore : Decimal.ofString (tolerance.getD "0") = some before)
    (hafter : Decimal.ofString (tolerance'.getD "0") = some after)
    (hle : Decimal.lessThanOrEqualTo after before = true) (hl : l.Reads D) (hr : r.Reads D)
    (h : compareValue D .approx tolerance' l r = .ok (.bool true)) :
    compareValue D .approx tolerance l r = .ok (.bool true) := by
  rw [compareValue_reads _ _ hl hr] at h ⊢
  split at h
  · cases h
  · rename_i hu
    rw [if_neg hu]
    split at h
    · simp only [compareNumbers, newDecimal_some D hafter, newDecimal_some D hbefore] at h ⊢
      simp only [bind, Except.bind, pure, Except.pure, Except.map_ok, Except.ok.injEq,
        EvalValue.bool.injEq] at h ⊢
      exact Val.le_trans h hle
    · cases h

/-- With readable tolerances, `approx` throws only where an operand does. -/
theorem throws_approx {left right : AstNode} {tolerance : Option String} {d : D}
    (hd : Decimal.ofString (tolerance.getD "0") = some d) :
    Throws D facts (.compare .approx left right tolerance) ↔
      Throws D facts left ∨ Throws D facts right := by
  rw [throws_iff, throws_iff, throws_iff]
  constructor
  · intro h
    cases h with
    | here _ _ _ _ _ _ _ _ hmal => rw [hd] at hmal; cases hmal
    | left _ _ _ _ h => exact .inl h
    | right _ _ _ _ h => exact .inr h
  · rintro (h | h)
    · exact .left _ left right tolerance h
    · exact .right _ left right tolerance h

theorem tightens_approx {left right left' right' : AstNode} {tolerance tolerance' : Option String}
    {before after : D} (hl : canonical left = canonical left') (hr : canonical right = canonical right')
    (hbefore : Decimal.ofString (tolerance.getD "0") = some before)
    (hafter : Decimal.ofString (tolerance'.getD "0") = some after)
    (hle : Decimal.lessThanOrEqualTo after before = true) :
    Tightens D facts (.compare .approx left right tolerance) (.compare .approx left' right' tolerance') := by
  constructor
  · rw [passes_iff, passes_iff, value_compare, value_compare, ← value_canonical hl, ← value_canonical hr]
    cases hvl : value D facts left with
    | error e => simp [bind, Except.bind]
    | ok l =>
      cases hvr : value D facts right with
      | error e => simp [bind, Except.bind]
      | ok r =>
        exact approx_sound hbefore hafter hle (value_reads left l hvl) (value_reads right r hvr)
  · rw [throws_approx hafter, throws_approx hbefore, throws_canonical hl, throws_canonical hr]

/-- Two bounds of one left operand: the promise holds unless the operand's value lies where they
part. -/
theorem tightens_bound_iff {op : CompareOp} (hop : op ≠ .approx) {left left' : AstNode}
    {b t : LitValue} {tolerance tolerance' : Option String} {before after : D}
    (hl : canonical left = canonical left') (hb : numericLiteral D (.lit b) = some before)
    (ht : numericLiteral D (.lit t) = some after) (hn : narrower D op before after = true) :
    Tightens D facts (.compare op left (.lit b) tolerance) (.compare op left' (.lit t) tolerance') ↔
      ∀ v, value D facts left = .ok v → ¬ boundsPart D op (litValue D b) (litValue D t) v := by
  have hpart : ∀ v, value D facts left = .ok v → (boundsPart D op (litValue D b) (litValue D t) v ↔
      accepts D op v (litValue D t) ∧ ¬ accepts D op v (litValue D b)) := fun v hv =>
    boundsPart_iff hop (bound_of_numericLiteral hb) (bound_of_numericLiteral ht) hn (value_reads left v hv)
  have hthrows : Throws D facts (.compare op left' (.lit t) tolerance') ↔
      Throws D facts (.compare op left (.lit b) tolerance) := by
    rw [throws_compare_lit hop, throws_compare_lit hop, throws_canonical hl]
  rw [Tightens, passes_compare_lit hop, passes_compare_lit hop, ← value_canonical hl]
  constructor
  · rintro ⟨hpass, -⟩ v hv hpv
    obtain ⟨hacc, hnacc⟩ := (hpart v hv).mp hpv
    obtain ⟨w, hw, hwacc⟩ := hpass ⟨v, hv, hacc⟩
    rw [hv, Except.ok.injEq] at hw
    exact hnacc (hw ▸ hwacc)
  · intro hno
    refine ⟨?_, hthrows⟩
    rintro ⟨v, hv, hacc⟩
    refine ⟨v, hv, ?_⟩
    by_contra hnacc
    exact hno v hv ((hpart v hv).mpr ⟨hacc, hnacc⟩)

/-- More conjuncts: what passes passes, and what may throw besides is an added conjunct. -/
theorem tightens_conjuncts_iff {baseArgs tightenedArgs : List AstNode}
    (h : ∀ c ∈ baseArgs, ∃ d ∈ tightenedArgs, canonical d = canonical c) :
    Tightens D facts (.logic .and baseArgs) (.logic .and tightenedArgs) ↔
      ((∃ c ∈ tightenedArgs, ReachesMalformedTolerance D facts c) →
        ∃ c ∈ baseArgs, ReachesMalformedTolerance D facts c) := by
  have hpass : Passes D facts (.logic .and tightenedArgs) → Passes D facts (.logic .and baseArgs) := by
    rw [passes_and, passes_and]
    intro hall c hc
    obtain ⟨d, hd, hcan⟩ := h c hc
    rw [passes_iff, ← value_canonical hcan]
    exact passes_iff.mp (hall d hd)
  have hback : Throws D facts (.logic .and baseArgs) → Throws D facts (.logic .and tightenedArgs) := by
    rw [throws_logic, throws_logic]
    rintro ⟨c, hc, hthrow⟩
    obtain ⟨d, hd, hcan⟩ := h c hc
    exact ⟨d, hd, (throws_canonical hcan).mpr hthrow⟩
  simp only [← throws_iff]
  rw [← throws_logic, ← throws_logic]
  exact ⟨fun hs => hs.2.mp, fun hf => ⟨hpass, hf, hback⟩⟩

/-- For a pair the prover accepts, the promise holds on the facts that keep clear of the places
where prover and interpreter read a bound differently, and of malformed tolerances in added
conjuncts; and only on those. -/
theorem proveMonotonicTighten_sound_iff (D : Type) [Decimal D] (facts : FactBundle)
    (base tightened : AstNode) (proof : MonotonicProof)
    (h : proveMonotonicTighten D base tightened = .monotonic proof) :
    Tightens D facts base tightened ↔ keepsPromise D facts base tightened := by
  unfold proveMonotonicTighten at h
  split at h
  · -- one text
    rename_i hcan
    exact ⟨fun _ => .inl hcan, fun _ => tightens_canonical hcan⟩
  rename_i hcan
  split at h
  · -- two comparisons
    rename_i op left right tolerance op' left' right' tolerance'
    unfold proveCompare at h
    split at h
    · cases h
    rename_i hsame
    push Not at hsame
    obtain ⟨rfl, hleft⟩ := hsame
    split at h
    · -- two tolerances
      rename_i hop
      subst hop
      split at h
      · cases h
      rename_i hright
      split at h
      · rename_i before after hbefore hafter
        split at h
        · rename_i hle
          have hsound : Tightens D facts (.compare .approx left right tolerance)
              (.compare .approx left' right' tolerance') :=
            tightens_approx hleft (not_not.mp hright) hbefore hafter hle
          refine ⟨fun _ => .inr ?_, fun _ => hsound⟩
          cases right <;> cases right' <;> simp
        · cases h
      · cases h
    · -- two bounds
      rename_i hop
      split at h
      · rename_i before after hbefore hafter
        split at h
        · rename_i hn
          cases right
          case lit b =>
            cases right'
            case lit t =>
              rw [tightens_bound_iff hop hleft hbefore hafter hn]
              simp [keepsPromise, hcan, hop]
            all_goals cases hafter
          all_goals cases hbefore
        · cases h
      · cases h
  · -- two conjunctions
    rename_i baseArgs tightenedArgs
    split at h
    · rename_i hclauses
      have hmem : ∀ c ∈ baseArgs, ∃ d ∈ tightenedArgs, canonical d = canonical c := by
        simpa using hclauses
      rw [tightens_conjuncts_iff hmem]
      simp [keepsPromise, hcan]
    · cases h
  · cases h

end

/-- `variance <= bound`. -/
def upperBound (bound : LitValue) : AstNode := .compare .lte (.fact "variance") (.lit bound) none

/-- One fact. -/
def onlyFact (key : String) (v : FactValue) : FactBundle := fun k => if k = key then some v else none

/-- Two number literals: the promise holds on a variance of 3. -/
theorem narrower_upperBound : Tightens Ref (onlyFact "variance" (.number (.ofNat 3)))
      (upperBound (.number (.ofNat 10))) (upperBound (.number (.ofNat 5))) :=
  (proveMonotonicTighten_sound_iff Ref _ _ _ .NARROWER_BOUND (by decide +kernel)).mpr
    (.inr (.inr fun _ _ => boundsPart_numbers _ (by decide +kernel) (by decide +kernel)))

/-- The base bound is the string `"10"`: the pair is accepted, and a variance of 3 passes the
tightened rule while the base rule is unassessable on it. -/
theorem string_bound_unsound :
    proveMonotonicTighten Ref (upperBound (.string "10")) (upperBound (.number (.ofNat 5))) =
        .monotonic .NARROWER_BOUND ∧
      ¬ Tightens Ref (onlyFact "variance" (.number (.ofNat 3)))
        (upperBound (.string "10")) (upperBound (.number (.ofNat 5))) := by
  refine ⟨by decide +kernel, fun h => ?_⟩
  have hpass : Passes Ref (onlyFact "variance" (.number (.ofNat 3))) (upperBound (.number (.ofNat 5))) :=
    passes_iff.mpr (by decide +kernel)
  exact absurd (passes_iff.mp (h.1 hpass)) (by decide +kernel)

end RubricResolver
