import Mathlib.Data.List.Forall2
import FreightAuditor.Library.ExceptOk
import FreightAuditor.RuleEngine.Ast

/- The pure interpreter of the predicate AST.

   `evaluate` returns the evaluated tree, each node with its value, or throws: the
   one constructor call the source does not guard is the tolerance of an `approx`
   comparison. Each kind of node has its own function from the values of its
   children to its value, and `value` is the root's value alone.

   What is proved here: values that come out of evaluation read back as decimals
   (`value_reads`), so that reading them again never throws, and evaluation throws
   exactly where it reaches an `approx` comparison of two numbers with a malformed
   tolerance (`throws_iff`). -/
namespace RuleEngine

open DecimalJs

inductive EvalValue where
  | number (value : String)
  | money (amount currency : String)
  | bool (value : Bool)
  | string (value : String)
  | unassessable (reason : String)
  deriving DecidableEq

/-- A node annotated with its value; a `branch` lists the children it was computed from. -/
inductive EvalNode where
  | leaf (node : AstNode) (value : EvalValue)
  | branch (node : AstNode) (value : EvalValue) (children : List EvalNode)

def EvalNode.value : EvalNode → EvalValue
  | .leaf _ v => v
  | .branch _ v _ => v

@[simp] theorem EvalNode.value_leaf (n : AstNode) (v : EvalValue) : (leaf n v).value = v := rfl
@[simp] theorem EvalNode.value_branch (n : AstNode) (v : EvalValue) (c : List EvalNode) :
    (branch n v c).value = v := rfl

def EvalValue.isUnassessable : EvalValue → Bool
  | .unassessable _ => true
  | _ => false

/-- What `valueScalar` compares with `===`. -/
inductive Scalar where
  | string (s : String)
  | boolean (b : Bool)
  | null
  deriving DecidableEq

def valueScalar : EvalValue → Scalar
  | .string s => .string s
  | .bool b => .boolean b
  | .number s => .string s
  | .money amount _ => .string amount
  | .unassessable _ => .null

@[simp, grind =] theorem valueScalar_string (s : String) : valueScalar (.string s) = .string s := rfl
@[simp, grind =] theorem valueScalar_number (s : String) : valueScalar (.number s) = .string s := rfl
@[simp, grind =] theorem valueScalar_money (a c : String) : valueScalar (.money a c) = .string a := rfl
@[simp, grind =] theorem valueScalar_bool (b : Bool) : valueScalar (.bool b) = .boolean b := rfl
@[simp, grind =] theorem valueScalar_unassessable (r : String) : valueScalar (.unassessable r) = .null := rfl

@[simp, grind =] theorem isUnassessable_number (s : String) : (EvalValue.number s).isUnassessable = false := rfl
@[simp, grind =] theorem isUnassessable_money (a c : String) : (EvalValue.money a c).isUnassessable = false := rfl
@[simp, grind =] theorem isUnassessable_bool (b : Bool) : (EvalValue.bool b).isUnassessable = false := rfl
@[simp, grind =] theorem isUnassessable_string (s : String) : (EvalValue.string s).isUnassessable = false := rfl
@[simp, grind =] theorem isUnassessable_unassessable (r : String) :
    (EvalValue.unassessable r).isUnassessable = true := rfl

section

variable (D : Type) [Decimal D]

/-- A value as a Decimal, `none` if it is not numeric. -/
def toDecimal : EvalValue → Except DecimalError (Option D)
  | .number value => (newDecimal D value).map some
  | .money amount _ => (newDecimal D amount).map some
  | _ => .ok none

/-- `none` for text that is no number, and for `NaN` and the infinities. -/
def safeDecimal (raw : String) : Option D :=
  match (Decimal.ofString raw : Option D) with
  | some d => if Decimal.isFinite d then some d else none
  | none => none

/-- `safeDecimal` of a JavaScript number. -/
def safeDecimalNumber (raw : JsNumber) : Option D :=
  match raw with
  | .fin _ => if Decimal.isFinite (Decimal.ofNumber raw : D) then some (Decimal.ofNumber raw) else none
  | _ => none

def litValue : LitValue → EvalValue
  | .boolean b => .bool b
  | .number n =>
    match safeDecimalNumber D n with
    | none => .unassessable "non-finite literal"
    | some d => .number (Decimal.toString d)
  | .string s => .string s

def moneyValue (amount currency : String) : EvalValue :=
  match safeDecimal D amount with
  | none => .unassessable "non-numeric money amount"
  | some d => .money (Decimal.toFixed 4 d) currency

def factValue (key : String) (raw : FactValue) : EvalValue :=
  match raw with
  | .boolean b => .bool b
  | .number n =>
    match safeDecimalNumber D n with
    | none => .unassessable ("fact '" ++ key ++ "' is NaN/Infinity")
    | some d => .number (Decimal.toString d)
  | .decimal text =>
    match safeDecimal D text with
    | none => .unassessable ("fact '" ++ key ++ "' has a non-numeric decimal")
    | some d => .number (Decimal.toString d)
  | .money amount currency =>
    match safeDecimal D amount with
    | none => .unassessable ("fact '" ++ key ++ "' has a non-numeric money amount")
    | some d => .money (Decimal.toFixed 4 d) currency
  | .string s => .string s

/-- The fewest operands an operator takes. -/
def ArithOp.minArgs : ArithOp → ℕ
  | .abs => 1
  | _ => 2

/-- The result on enough operands; `none` is a division by zero. -/
def arithResult (op : ArithOp) (first : D) (rest : List D) : Option D :=
  match op with
  | .add => some ((first :: rest).foldl Decimal.plus (Decimal.ofNumber (.ofNat 0)))
  | .sub => some (rest.foldl Decimal.minus first)
  | .mul => some ((first :: rest).foldl Decimal.times (Decimal.ofNumber (.ofNat 1)))
  | .div =>
    if rest.any Decimal.isZero then none else some (rest.foldl Decimal.dividedBy first)
  | .abs => some (Decimal.abs first)

def arithValue (op : ArithOp) (values : List EvalValue) : Except DecimalError EvalValue :=
  if values.any EvalValue.isUnassessable then .ok (.unassessable "operand unassessable")
  else do
    let decs ← values.mapM (toDecimal D)
    if decs.any Option.isNone then return .unassessable "non-numeric operand"
    let nums := decs.filterMap id
    if nums.length < op.minArgs then return .unassessable (op.text ++ ": too few operands")
    match nums with
    | [] => return .unassessable (op.text ++ ": too few operands")
    | first :: rest =>
      match arithResult D op first rest with
      | none => return .unassessable "division by zero"
      | some result => return .number (Decimal.toString result)

/-- Comparison of two numbers. -/
def compareNumbers (op : CompareOp) (tolerance : Option String) (a b : D) : Except DecimalError Bool :=
  match op with
  | .eq => .ok (Decimal.equals a b)
  | .ne => .ok (!Decimal.equals a b)
  | .gt => .ok (Decimal.greaterThan a b)
  | .gte => .ok (Decimal.greaterThanOrEqualTo a b)
  | .lt => .ok (Decimal.lessThan a b)
  | .lte => .ok (Decimal.lessThanOrEqualTo a b)
  | .approx => do
    let tol ← newDecimal D (tolerance.getD "0")
    return Decimal.lessThanOrEqualTo (Decimal.abs (Decimal.minus a b)) tol

/-- Comparison where a side is not numeric: the scalars' text, for `eq` and `ne` only. -/
def compareScalars (op : CompareOp) (left right : EvalValue) : EvalValue :=
  match op with
  | .eq => .bool (valueScalar left == valueScalar right)
  | .ne => .bool (valueScalar left != valueScalar right)
  | _ => .unassessable "non-numeric comparison"

def compareValue (op : CompareOp) (tolerance : Option String) (left right : EvalValue) :
    Except DecimalError EvalValue :=
  if left.isUnassessable || right.isUnassessable then .ok (.unassessable "comparand unassessable")
  else do
    let a ← toDecimal D left
    let b ← toDecimal D right
    match a, b with
    | some a, some b => return .bool (← compareNumbers D op tolerance a b)
    | _, _ => return compareScalars op left right

def EvalValue.asBool : EvalValue → Option Bool
  | .bool b => some b
  | _ => none

def logicValue (op : LogicOp) (values : List EvalValue) : EvalValue :=
  match op with
  | .not =>
    match values.head?.bind EvalValue.asBool with
    | some b => .bool (!b)
    | none => .unassessable "not: non-bool"
  | op =>
    let bools := values.map EvalValue.asBool
    if bools.any Option.isNone then .unassessable (op.text ++ ": non-bool operand")
    else .bool (if op = .and then bools.all (· == some true) else bools.any (· == some true))

mutual

def evaluate (facts : FactBundle) : AstNode → Except DecimalError EvalNode
  | .lit v => .ok (.leaf (.lit v) (litValue D v))
  | .money amount currency => .ok (.leaf (.money amount currency) (moneyValue D amount currency))
  | .fact key =>
    match facts key with
    | none => .ok (.leaf (.fact key) (.unassessable ("fact '" ++ key ++ "' absent")))
    | some raw =>
      if raw = .string "" then .ok (.leaf (.fact key) (.unassessable ("fact '" ++ key ++ "' absent")))
      else .ok (.leaf (.fact key) (factValue D key raw))
  | .require key thenNode =>
    if facts.absent key then
      .ok (.leaf (.require key thenNode) (.unassessable ("required fact '" ++ key ++ "' absent")))
    else do
      let child ← evaluate facts thenNode
      return .branch (.require key thenNode) child.value [child]
  | .arith op args => do
    let children ← evaluateAll facts args
    let value ← arithValue D op (children.map EvalNode.value)
    return .branch (.arith op args) value children
  | .compare op left right tolerance => do
    let l ← evaluate facts left
    let r ← evaluate facts right
    let value ← compareValue D op tolerance l.value r.value
    return .branch (.compare op left right tolerance) value [l, r]
  | .logic op args => do
    let children ← evaluateAll facts args
    return .branch (.logic op args) (logicValue op (children.map EvalNode.value)) children

def evaluateAll (facts : FactBundle) : List AstNode → Except DecimalError (List EvalNode)
  | [] => .ok []
  | a :: rest => do
    let child ← evaluate facts a
    let children ← evaluateAll facts rest
    return child :: children

end

end

inductive Verdict where
  | PASS | FAIL | UNASSESSABLE
  deriving DecidableEq

def EvalValue.verdict : EvalValue → Verdict
  | .bool true => .PASS
  | .bool false => .FAIL
  | _ => .UNASSESSABLE

/-- A rule's top-level verdict. -/
def verdict (ev : EvalNode) : Verdict := ev.value.verdict

/-! ## Subexpressions -/

def EvalNode.node : EvalNode → AstNode
  | .leaf n _ => n
  | .branch n _ _ => n

/-- The node reached by taking the child at each index in turn. -/
def EvalNode.subnode? : EvalNode → List ℕ → Option EvalNode
  | ev, [] => some ev
  | .leaf _ _, _ :: _ => none
  | .branch _ _ children, i :: path =>
    match children[i]? with
    | none => none
    | some child => child.subnode? path

@[simp] theorem EvalNode.subnode?_nil (ev : EvalNode) : ev.subnode? [] = some ev := by
  cases ev <;> rfl

@[simp] theorem EvalNode.subnode?_leaf (n : AstNode) (v : EvalValue) (i : ℕ) (path : List ℕ) :
    (leaf n v).subnode? (i :: path) = none := rfl

@[simp] theorem EvalNode.subnode?_branch (n : AstNode) (v : EvalValue) (children : List EvalNode) (i : ℕ)
    (path : List ℕ) :
    (branch n v children).subnode? (i :: path) = children[i]?.bind (EvalNode.subnode? · path) := by
  rw [subnode?]
  cases children[i]? <;> rfl

/-- What holds of every subexpression, by the shape of the tree. -/
theorem EvalNode.forall_subnode_leaf {P : EvalNode → Prop} {n : AstNode} {v : EvalValue} :
    (∀ path sub, (leaf n v).subnode? path = some sub → P sub) ↔ P (leaf n v) := by
  refine ⟨fun h => h [] _ rfl, fun h path sub hsub => ?_⟩
  cases path with
  | nil => cases hsub; exact h
  | cons i path => cases hsub

theorem EvalNode.forall_subnode_branch {P : EvalNode → Prop} {n : AstNode} {v : EvalValue}
    {children : List EvalNode} :
    (∀ path sub, (branch n v children).subnode? path = some sub → P sub) ↔
      P (branch n v children) ∧
        ∀ child ∈ children, ∀ path sub, child.subnode? path = some sub → P sub := by
  constructor
  · intro h
    refine ⟨h [] _ rfl, fun child hchild path sub hsub => ?_⟩
    obtain ⟨i, hi⟩ := List.mem_iff_getElem?.mp hchild
    exact h (i :: path) sub (by rw [subnode?_branch, hi]; exact hsub)
  · rintro ⟨hroot, hchildren⟩ path sub hsub
    cases path with
    | nil => cases hsub; exact hroot
    | cons i path =>
      rw [subnode?_branch] at hsub
      obtain ⟨child, hchild, hsub⟩ := Option.bind_eq_some_iff.mp hsub
      exact hchildren child (List.mem_of_getElem? hchild) path sub hsub

section

variable {D : Type} [Decimal D] {facts : FactBundle}

/-- A list of nodes is evaluated node by node. -/
theorem evaluateAll_ok {args : List AstNode} {children : List EvalNode} :
    evaluateAll D facts args = .ok children ↔
      List.Forall₂ (fun a child => evaluate D facts a = .ok child) args children := by
  induction args generalizing children with
  | nil =>
    rw [List.forall₂_nil_left_iff, evaluateAll]
    exact ⟨fun h => (Except.ok.inj h).symm, fun h => by rw [h]⟩
  | cons a rest ih =>
    simp only [evaluateAll, ExceptOk.bind_eq_ok, ExceptOk.pure_eq_ok, List.forall₂_cons_left_iff, ← ih]
    constructor
    · rintro ⟨child, hchild, children', hrest, rfl⟩
      exact ⟨child, children', hchild, hrest, rfl⟩
    · rintro ⟨child, children', hchild, hrest, rfl⟩
      exact ⟨child, hchild, children', hrest, rfl⟩

end

/-! ## Reached nodes -/

/-- Evaluating the node evaluates the other. -/
inductive Reached (facts : FactBundle) : AstNode → AstNode → Prop
  | refl (n : AstNode) : Reached facts n n
  | arith (op : ArithOp) (args : List AstNode) (a m : AstNode) (ha : a ∈ args) (h : Reached facts a m) :
      Reached facts (.arith op args) m
  | left (op : CompareOp) (left right : AstNode) (tolerance : Option String) (m : AstNode)
      (h : Reached facts left m) : Reached facts (.compare op left right tolerance) m
  | right (op : CompareOp) (left right : AstNode) (tolerance : Option String) (m : AstNode)
      (h : Reached facts right m) : Reached facts (.compare op left right tolerance) m
  | logic (op : LogicOp) (args : List AstNode) (a m : AstNode) (ha : a ∈ args) (h : Reached facts a m) :
      Reached facts (.logic op args) m
  | require (key : String) (thenNode m : AstNode) (present : facts.absent key = false)
      (h : Reached facts thenNode m) : Reached facts (.require key thenNode) m

section

variable {D : Type} [Decimal D] {facts : FactBundle} {n m k : AstNode}

theorem Reached.trans (h : Reached facts n m) (h' : Reached facts m k) : Reached facts n k := by
  induction h with
  | refl => exact h'
  | arith op args a m ha _ ih => exact .arith op args a k ha (ih h')
  | left op left right tolerance m _ ih => exact .left op left right tolerance k (ih h')
  | right op left right tolerance m _ ih => exact .right op left right tolerance k (ih h')
  | logic op args a m ha _ ih => exact .logic op args a k ha (ih h')
  | require key thenNode m present _ ih => exact .require key thenNode k present (ih h')

theorem evaluateAll_mem {args : List AstNode} {children : List EvalNode}
    (h : evaluateAll D facts args = .ok children) :
    (∀ a ∈ args, ∃ child ∈ children, evaluate D facts a = .ok child) ∧
      ∀ child ∈ children, ∃ a ∈ args, evaluate D facts a = .ok child := by
  rw [evaluateAll_ok] at h
  induction h with
  | nil => simp
  | cons hhead _ ih =>
    obtain ⟨hargs, hchildren⟩ := ih
    constructor
    · intro a ha
      rcases List.mem_cons.mp ha with rfl | ha
      · exact ⟨_, by simp, hhead⟩
      · obtain ⟨child, hchild, heval⟩ := hargs a ha
        exact ⟨child, List.mem_cons_of_mem _ hchild, heval⟩
    · intro child hchild
      rcases List.mem_cons.mp hchild with rfl | hchild
      · exact ⟨_, by simp, hhead⟩
      · obtain ⟨a, ha, heval⟩ := hchildren child hchild
        exact ⟨a, List.mem_cons_of_mem _ ha, heval⟩

/-- A reached node is one of the evaluated tree. -/
theorem Reached.subnode (h : Reached facts n m) :
    ∀ {ev}, evaluate D facts n = .ok ev →
      ∃ path sub, ev.subnode? path = some sub ∧ evaluate D facts m = .ok sub := by
  -- from a child of a branch
  have hchild : ∀ {m : AstNode} {n : AstNode} {v : EvalValue} {children : List EvalNode} {child : EvalNode},
      child ∈ children → (∃ path sub, child.subnode? path = some sub ∧ evaluate D facts m = .ok sub) →
      ∃ path sub, (EvalNode.branch n v children).subnode? path = some sub ∧ evaluate D facts m = .ok sub := by
    rintro m n v children child hchild ⟨path, sub, hsub, heval⟩
    obtain ⟨i, hi⟩ := List.mem_iff_getElem?.mp hchild
    exact ⟨i :: path, sub, by rw [EvalNode.subnode?_branch, hi]; exact hsub, heval⟩
  induction h with
  | refl => exact fun h => ⟨[], _, by simp, h⟩
  | arith op args a m ha _ ih =>
    intro ev hev
    simp only [evaluate, ExceptOk.bind_eq_ok, ExceptOk.pure_eq_ok] at hev
    obtain ⟨children, hchildren, v, -, rfl⟩ := hev
    obtain ⟨child, hmem, heval⟩ := (evaluateAll_mem hchildren).1 a ha
    exact hchild hmem (ih heval)
  | left op left right tolerance m _ ih =>
    intro ev hev
    simp only [evaluate, ExceptOk.bind_eq_ok, ExceptOk.pure_eq_ok] at hev
    obtain ⟨l, hl, r, -, v, -, rfl⟩ := hev
    exact hchild (by simp) (ih hl)
  | right op left right tolerance m _ ih =>
    intro ev hev
    simp only [evaluate, ExceptOk.bind_eq_ok, ExceptOk.pure_eq_ok] at hev
    obtain ⟨l, -, r, hr, v, -, rfl⟩ := hev
    exact hchild (List.mem_cons_of_mem _ (by simp)) (ih hr)
  | logic op args a m ha _ ih =>
    intro ev hev
    simp only [evaluate, ExceptOk.bind_eq_ok, ExceptOk.pure_eq_ok] at hev
    obtain ⟨children, hchildren, rfl⟩ := hev
    obtain ⟨child, hmem, heval⟩ := (evaluateAll_mem hchildren).1 a ha
    exact hchild hmem (ih heval)
  | require key thenNode m present _ ih =>
    intro ev hev
    rw [evaluate, present] at hev
    simp only [Bool.false_eq_true, if_false, ExceptOk.bind_eq_ok, ExceptOk.pure_eq_ok] at hev
    obtain ⟨child, heval, rfl⟩ := hev
    exact hchild (by simp) (ih heval)

/-- A node of the evaluated tree was reached. -/
theorem reached_of_subnode (n : AstNode) : ∀ ev, evaluate D facts n = .ok ev →
    ∀ path sub, ev.subnode? path = some sub → ∃ m, Reached facts n m ∧ evaluate D facts m = .ok sub := by
  induction n using AstNode.induction with
  | lit v =>
    intro ev h path sub
    cases h
    revert path sub
    exact EvalNode.forall_subnode_leaf.mpr ⟨_, .refl _, rfl⟩
  | money amount currency =>
    intro ev h path sub
    cases h
    revert path sub
    exact EvalNode.forall_subnode_leaf.mpr ⟨_, .refl _, rfl⟩
  | fact key =>
    intro ev h path sub
    have heval := h
    rw [evaluate] at h
    revert path sub
    split at h
    · cases h
      exact EvalNode.forall_subnode_leaf.mpr ⟨_, .refl _, heval⟩
    · split at h <;> cases h <;> exact EvalNode.forall_subnode_leaf.mpr ⟨_, .refl _, heval⟩
  | arith op args ih =>
    intro ev h path sub
    have heval := h
    simp only [evaluate, ExceptOk.bind_eq_ok, ExceptOk.pure_eq_ok] at h
    obtain ⟨children, hchildren, v, -, rfl⟩ := h
    revert path sub
    refine EvalNode.forall_subnode_branch.mpr ⟨⟨_, .refl _, heval⟩, fun child hchild path sub hsub => ?_⟩
    obtain ⟨a, ha, hev⟩ := (evaluateAll_mem hchildren).2 child hchild
    obtain ⟨m, hm, hok⟩ := ih a ha child hev path sub hsub
    exact ⟨m, .arith op args a m ha hm, hok⟩
  | compare op left right tolerance ihl ihr =>
    intro ev h path sub
    have heval := h
    simp only [evaluate, ExceptOk.bind_eq_ok, ExceptOk.pure_eq_ok] at h
    obtain ⟨l, hl, r, hr, v, -, rfl⟩ := h
    revert path sub
    refine EvalNode.forall_subnode_branch.mpr ⟨⟨_, .refl _, heval⟩, fun child hchild path sub hsub => ?_⟩
    simp only [List.mem_cons, List.not_mem_nil, or_false] at hchild
    rcases hchild with rfl | rfl
    · obtain ⟨m, hm, hok⟩ := ihl child hl path sub hsub
      exact ⟨m, .left op left right tolerance m hm, hok⟩
    · obtain ⟨m, hm, hok⟩ := ihr child hr path sub hsub
      exact ⟨m, .right op left right tolerance m hm, hok⟩
  | logic op args ih =>
    intro ev h path sub
    have heval := h
    simp only [evaluate, ExceptOk.bind_eq_ok, ExceptOk.pure_eq_ok] at h
    obtain ⟨children, hchildren, rfl⟩ := h
    revert path sub
    refine EvalNode.forall_subnode_branch.mpr ⟨⟨_, .refl _, heval⟩, fun child hchild path sub hsub => ?_⟩
    obtain ⟨a, ha, hev⟩ := (evaluateAll_mem hchildren).2 child hchild
    obtain ⟨m, hm, hok⟩ := ih a ha child hev path sub hsub
    exact ⟨m, .logic op args a m ha hm, hok⟩
  | require key thenNode ih =>
    intro ev h path sub
    have heval := h
    rw [evaluate] at h
    revert path sub
    by_cases habsent : facts.absent key = true
    · rw [if_pos habsent] at h
      cases h
      exact EvalNode.forall_subnode_leaf.mpr ⟨_, .refl _, heval⟩
    · rw [if_neg habsent] at h
      simp only [ExceptOk.bind_eq_ok, ExceptOk.pure_eq_ok] at h
      obtain ⟨child, hchild, rfl⟩ := h
      refine EvalNode.forall_subnode_branch.mpr ⟨⟨_, .refl _, heval⟩, fun c hc path sub hsub => ?_⟩
      rw [List.mem_singleton] at hc
      subst hc
      obtain ⟨m, hm, hok⟩ := ih c hchild path sub hsub
      exact ⟨m, .require key thenNode m (by simpa using habsent) hm, hok⟩

/-- What holds of every subexpression holds of every evaluated node that is reached. -/
theorem forall_subnode_iff {P : EvalNode → Prop} {ev : EvalNode} (h : evaluate D facts n = .ok ev) :
    (∀ path sub, ev.subnode? path = some sub → P sub) ↔
      ∀ m, Reached facts n m → ∀ sub, evaluate D facts m = .ok sub → P sub := by
  constructor
  · intro hall m hm sub hsub
    obtain ⟨path, sub', hpath, heval⟩ := hm.subnode h
    rw [hsub, Except.ok.injEq] at heval
    exact hall path sub (heval ▸ hpath)
  · intro hall path sub hpath
    obtain ⟨m, hm, heval⟩ := reached_of_subnode n ev h path sub hpath
    exact hall m hm sub heval

end

/-! ## Values alone -/

section

variable (D : Type) [Decimal D] (facts : FactBundle)

/-- The value of the root. -/
def value (n : AstNode) : Except DecimalError EvalValue :=
  EvalNode.value <$> evaluate D facts n

theorem evaluateAll_values (args : List AstNode) :
    List.map EvalNode.value <$> evaluateAll D facts args = args.mapM (value D facts) := by
  induction args with
  | nil => rfl
  | cons a rest ih =>
    rw [List.mapM_cons, ← ih]
    simp [evaluateAll, value]

theorem value_lit (v : LitValue) : value D facts (.lit v) = .ok (litValue D v) := by
  simp [value, evaluate]

theorem value_arith (op : ArithOp) (args : List AstNode) :
    value D facts (.arith op args) = (do
      let values ← args.mapM (value D facts)
      arithValue D op values) := by
  rw [← evaluateAll_values]
  simp [value, evaluate]

theorem value_logic (op : LogicOp) (args : List AstNode) :
    value D facts (.logic op args) = logicValue op <$> args.mapM (value D facts) := by
  rw [← evaluateAll_values]
  simp [value, evaluate]

theorem value_compare (op : CompareOp) (left right : AstNode) (tolerance : Option String) :
    value D facts (.compare op left right tolerance) = (do
      let l ← value D facts left
      let r ← value D facts right
      compareValue D op tolerance l r) := by
  simp [value, evaluate]

theorem value_require (key : String) (thenNode : AstNode) :
    value D facts (.require key thenNode) =
      if facts.absent key then .ok (.unassessable ("required fact '" ++ key ++ "' absent"))
      else value D facts thenNode := by
  simp only [value, evaluate]
  split
  · rfl
  · simp

/-! ## Values read back -/

/-- The text of a numeric value is a decimal. -/
def EvalValue.Reads : EvalValue → Prop
  | .number text => (Decimal.ofString text : Option D).isSome
  | .money amount _ => (Decimal.ofString amount : Option D).isSome
  | _ => True

/-- The decimal a value stands for. -/
def numeral : EvalValue → Option D
  | .number text => Decimal.ofString text
  | .money amount _ => Decimal.ofString amount
  | _ => none

@[simp] theorem numeral_number (text : String) : numeral D (.number text) = Decimal.ofString text := rfl
@[simp] theorem numeral_money (amount currency : String) :
    numeral D (.money amount currency) = Decimal.ofString amount := rfl
@[simp] theorem numeral_string (s : String) : numeral D (.string s) = none := rfl
@[simp] theorem numeral_bool (b : Bool) : numeral D (.bool b) = none := rfl
@[simp] theorem numeral_unassessable (r : String) : numeral D (.unassessable r) = none := rfl

theorem newDecimal_some {text : String} {d : D} (h : Decimal.ofString text = some d) :
    newDecimal D text = .ok d := by
  simp [newDecimal, h]

theorem newDecimal_none {text : String} (h : (Decimal.ofString text : Option D) = none) :
    newDecimal D text = .error ⟨text⟩ := by
  simp [newDecimal, h]

variable {D facts}

/-- A value that reads back and has no decimal is not numeric. -/
theorem numeral_none {v : EvalValue} (h : v.Reads D) (hn : numeral D v = none) :
    (∃ s, v = .string s) ∨ (∃ b, v = .bool b) ∨ ∃ r, v = .unassessable r := by
  cases v with
  | number text =>
    rw [numeral_number] at hn
    simp [EvalValue.Reads, hn] at h
  | money amount currency =>
    rw [numeral_money] at hn
    simp [EvalValue.Reads, hn] at h
  | bool b => exact .inr (.inl ⟨b, rfl⟩)
  | string s => exact .inl ⟨s, rfl⟩
  | unassessable r => exact .inr (.inr ⟨r, rfl⟩)

/-- Reading a value that reads back does not throw. -/
theorem toDecimal_reads {v : EvalValue} (h : v.Reads D) : toDecimal D v = .ok (numeral D v) := by
  cases v with
  | number text =>
    obtain ⟨d, hd⟩ := Option.isSome_iff_exists.mp h
    simp only [toDecimal, newDecimal_some D hd, numeral, hd]; rfl
  | money amount currency =>
    obtain ⟨d, hd⟩ := Option.isSome_iff_exists.mp h
    simp only [toDecimal, newDecimal_some D hd, numeral, hd]; rfl
  | _ => rfl

theorem reads_toString (d : D) : (EvalValue.number (Decimal.toString d)).Reads D := by
  obtain ⟨d', h, -⟩ := Decimal.toString_reads d
  simp [EvalValue.Reads, h]

theorem reads_toFixed (d : D) (currency : String) : (EvalValue.money (Decimal.toFixed 4 d) currency).Reads D := by
  cases hf : (Decimal.val d).isFinite
  · obtain ⟨d', h, -⟩ := Decimal.toFixed_reads_nonFinite (k := 4) hf
    simp [EvalValue.Reads, h]
  · obtain ⟨q, hq⟩ := Val.isFinite_iff.mp hf
    obtain ⟨d', h, -⟩ := Decimal.toFixed_reads (k := 4) hq
    simp [EvalValue.Reads, h]

theorem litValue_reads (v : LitValue) : (litValue D v).Reads D := by
  unfold litValue
  split
  · trivial
  · split
    · trivial
    · exact reads_toString _
  · trivial

theorem moneyValue_reads (amount currency : String) : (moneyValue D amount currency).Reads D := by
  unfold moneyValue
  split
  · trivial
  · exact reads_toFixed _ _

theorem factValue_reads (key : String) (raw : FactValue) : (factValue D key raw).Reads D := by
  unfold factValue
  split
  · trivial
  · split
    · trivial
    · exact reads_toString _
  · split
    · trivial
    · exact reads_toString _
  · split
    · trivial
    · exact reads_toFixed _ _
  · trivial

theorem mapM_toDecimal {values : List EvalValue} (h : ∀ v ∈ values, v.Reads D) :
    values.mapM (toDecimal D) = .ok (values.map (numeral D)) := by
  induction values with
  | nil => rfl
  | cons v rest ih =>
    rw [List.mapM_cons, toDecimal_reads (h v (by simp)), ih (fun v hv => h v (List.mem_cons_of_mem _ hv))]
    rfl

/-- Arithmetic over values that read back does not throw, and its result reads back. -/
theorem arithValue_reads (op : ArithOp) {values : List EvalValue} (h : ∀ v ∈ values, v.Reads D) :
    ∃ v, arithValue D op values = .ok v ∧ v.Reads D := by
  unfold arithValue
  split
  · exact ⟨_, rfl, trivial⟩
  · rw [mapM_toDecimal h]
    simp only [bind, Except.bind]
    split
    · exact ⟨_, rfl, trivial⟩
    split
    · exact ⟨_, rfl, trivial⟩
    split
    · exact ⟨_, rfl, trivial⟩
    split
    · exact ⟨_, rfl, trivial⟩
    · exact ⟨_, rfl, reads_toString _⟩

theorem logicValue_reads (op : LogicOp) (values : List EvalValue) : (logicValue op values).Reads D := by
  unfold logicValue
  split
  · split <;> trivial
  · dsimp only
    split <;> trivial

theorem compareScalars_reads (op : CompareOp) (l r : EvalValue) : (compareScalars op l r).Reads D := by
  unfold compareScalars
  split <;> trivial

/-- A comparison of values that read back, as one value unless it throws. -/
theorem compareValue_reads (op : CompareOp) (tolerance : Option String) {l r : EvalValue}
    (hl : l.Reads D) (hr : r.Reads D) :
    compareValue D op tolerance l r =
      if l.isUnassessable || r.isUnassessable then .ok (.unassessable "comparand unassessable")
      else match numeral D l, numeral D r with
        | some a, some b => EvalValue.bool <$> compareNumbers D op tolerance a b
        | _, _ => .ok (compareScalars op l r) := by
  unfold compareValue
  split
  · rfl
  · rw [toDecimal_reads hl, toDecimal_reads hr]
    simp only [bind, Except.bind]
    split <;> rfl

theorem compareValue_ok_reads {op : CompareOp} {tolerance : Option String} {l r v : EvalValue}
    (hl : l.Reads D) (hr : r.Reads D) (h : compareValue D op tolerance l r = .ok v) : v.Reads D := by
  rw [compareValue_reads op tolerance hl hr] at h
  split at h
  · cases h; trivial
  · split at h
    · cases hc : compareNumbers D op tolerance _ _ with
      | error e => rw [hc] at h; cases h
      | ok b => rw [hc] at h; cases h; trivial
    · cases h; exact compareScalars_reads _ _ _

/-- Values that come out of evaluation read back. -/
theorem value_reads (n : AstNode) : ∀ v, value D facts n = .ok v → v.Reads D := by
  induction n using AstNode.induction with
  | lit x =>
    intro v h
    rw [value_lit] at h
    cases h
    exact litValue_reads x
  | money amount currency =>
    intro v h
    cases h
    exact moneyValue_reads amount currency
  | fact key =>
    intro v h
    simp only [value, evaluate] at h
    split at h
    · cases h; trivial
    · split at h
      · cases h; trivial
      · cases h; exact factValue_reads _ _
  | arith op args ih =>
    intro v h
    rw [value_arith] at h
    cases hargs : args.mapM (value D facts) with
    | error e => rw [hargs] at h; cases h
    | ok values =>
      have hreads : ∀ w ∈ values, w.Reads D := by
        intro w hw
        obtain ⟨a, ha, hv⟩ := (ExceptOk.mem_mapM hargs).mp hw
        exact ih a ha w hv
      obtain ⟨w, hw, hr⟩ := arithValue_reads op hreads
      rw [hargs] at h
      simp only [bind, Except.bind, hw, Except.ok.injEq] at h
      exact h ▸ hr
  | compare op left right tolerance ihl ihr =>
    intro v h
    rw [value_compare] at h
    cases hl : value D facts left with
    | error e => rw [hl] at h; cases h
    | ok l =>
      cases hr : value D facts right with
      | error e => rw [hl, hr] at h; cases h
      | ok r =>
        rw [hl, hr] at h
        exact compareValue_ok_reads (ihl l hl) (ihr r hr) h
  | logic op args ih =>
    intro v h
    rw [value_logic] at h
    cases hargs : args.mapM (value D facts) with
    | error e => rw [hargs] at h; cases h
    | ok values =>
      rw [hargs] at h
      cases h
      exact logicValue_reads _ _
  | require key thenNode ih =>
    intro v h
    rw [value_require] at h
    split at h
    · cases h; trivial
    · exact ih v h

end

/-! ## Where evaluation throws -/

section

variable (D : Type) [Decimal D] (facts : FactBundle)

/-- Evaluation throws. -/
def Throws (n : AstNode) : Prop := ∃ err, evaluate D facts n = .error err

/-- Evaluating the node reaches an `approx` comparison of two numbers whose tolerance is no
decimal. -/
inductive ReachesMalformedTolerance : AstNode → Prop
  | here (left right : AstNode) (tolerance : Option String) (l r : EvalValue)
      (hl : value D facts left = .ok l) (hr : value D facts right = .ok r)
      (numeric : (numeral D l).isSome ∧ (numeral D r).isSome)
      (malformed : (Decimal.ofString (tolerance.getD "0") : Option D) = none) :
      ReachesMalformedTolerance (.compare .approx left right tolerance)
  | left (op : CompareOp) (left right : AstNode) (tolerance : Option String)
      (h : ReachesMalformedTolerance left) :
      ReachesMalformedTolerance (.compare op left right tolerance)
  | right (op : CompareOp) (left right : AstNode) (tolerance : Option String)
      (h : ReachesMalformedTolerance right) :
      ReachesMalformedTolerance (.compare op left right tolerance)
  | arith (op : ArithOp) (args : List AstNode) (a : AstNode) (ha : a ∈ args)
      (h : ReachesMalformedTolerance a) : ReachesMalformedTolerance (.arith op args)
  | logic (op : LogicOp) (args : List AstNode) (a : AstNode) (ha : a ∈ args)
      (h : ReachesMalformedTolerance a) : ReachesMalformedTolerance (.logic op args)
  | require (key : String) (thenNode : AstNode) (present : facts.absent key = false)
      (h : ReachesMalformedTolerance thenNode) :
      ReachesMalformedTolerance (.require key thenNode)

variable {D facts}

theorem throws_iff_value {n : AstNode} : Throws D facts n ↔ ∃ err, value D facts n = .error err := by
  unfold Throws value
  cases evaluate D facts n <;> simp

theorem not_throws_iff {n : AstNode} : ¬ Throws D facts n ↔ ∃ v, value D facts n = .ok v := by
  rw [throws_iff_value]
  cases value D facts n <;> simp

/-- A list of nodes is evaluated without a throw exactly when each of them is. -/
theorem mapM_throws_iff {args : List AstNode} :
    (∃ err, args.mapM (value D facts) = .error err) ↔ ∃ a ∈ args, Throws D facts a := by
  induction args with
  | nil => simp [pure, Except.pure]
  | cons a rest ih =>
    rw [List.mapM_cons]
    cases ha : value D facts a with
    | error e => simp [bind, Except.bind, throws_iff_value, ha]
    | ok v =>
      have hnot : ¬ Throws D facts a := not_throws_iff.mpr ⟨v, ha⟩
      simp only [List.mem_cons, exists_eq_or_imp, hnot, false_or]
      rw [← ih]
      cases rest.mapM (value D facts) <;> simp [bind, Except.bind, pure, Except.pure]

theorem mapM_values_read {args : List AstNode} {values : List EvalValue}
    (h : args.mapM (value D facts) = .ok values) : ∀ v ∈ values, v.Reads D := by
  intro v hv
  obtain ⟨a, -, ha⟩ := (ExceptOk.mem_mapM h).mp hv
  exact value_reads a v ha

/-- A comparison of values that read back throws only on a malformed tolerance. -/
theorem compareValue_throws_iff {op : CompareOp} {tolerance : Option String} {l r : EvalValue}
    (hl : l.Reads D) (hr : r.Reads D) :
    (∃ err, compareValue D op tolerance l r = .error err) ↔
      op = .approx ∧ ((numeral D l).isSome ∧ (numeral D r).isSome) ∧
        (Decimal.ofString (tolerance.getD "0") : Option D) = none := by
  have hun : ∀ v : EvalValue, v.isUnassessable = true → numeral D v = none := by
    intro v hv
    cases v <;> first | rfl | cases hv
  rw [compareValue_reads op tolerance hl hr]
  by_cases hu : (l.isUnassessable || r.isUnassessable) = true
  · rcases Bool.or_eq_true _ _ |>.mp hu with h | h <;> simp [hu, hun _ h]
  · rw [if_neg hu]
    cases numeral D l with
    | none => simp
    | some a =>
      cases numeral D r with
      | none => simp
      | some b =>
        cases op
        case approx =>
          cases ht : (Decimal.ofString (tolerance.getD "0") : Option D) with
          | none => simp [compareNumbers, newDecimal_none D ht]
          | some t => simp [compareNumbers, newDecimal_some D ht]
        all_goals simp [compareNumbers]

/-- A list of nodes has one value throughout exactly when each node has it. -/
theorem mapM_constant_iff {args : List AstNode} {w : EvalValue} :
    (∃ values, args.mapM (value D facts) = .ok values ∧ ∀ v ∈ values, v = w) ↔
      ∀ a ∈ args, value D facts a = .ok w := by
  induction args with
  | nil => simp [pure, Except.pure]
  | cons a rest ih =>
    rw [List.mapM_cons]
    cases ha : value D facts a with
    | error e => simp [bind, Except.bind, ha]
    | ok v =>
      simp only [List.mem_cons, forall_eq_or_imp, ha, Except.ok.injEq]
      rw [← ih]
      cases rest.mapM (value D facts) <;> simp [bind, Except.bind, pure, Except.pure]

theorem logicValue_and {values : List EvalValue} :
    logicValue .and values = .bool true ↔ ∀ v ∈ values, v = .bool true := by
  have hasBool : ∀ v : EvalValue, v.asBool = some true ↔ v = .bool true := by
    intro v
    cases v <;> simp [EvalValue.asBool]
  simp only [logicValue]
  split
  · rename_i hnone
    obtain ⟨v, hv, hnb⟩ : ∃ v ∈ values, v.asBool = none := by simpa using hnone
    simp only [reduceCtorEq, false_iff, not_forall]
    exact ⟨v, hv, fun h => by rw [h] at hnb; cases hnb⟩
  · simp [hasBool]

theorem throws_logic {op : LogicOp} {args : List AstNode} :
    Throws D facts (.logic op args) ↔ ∃ a ∈ args, Throws D facts a := by
  rw [← mapM_throws_iff, throws_iff_value, value_logic]
  cases args.mapM (value D facts) <;> simp

theorem throws_arith {op : ArithOp} {args : List AstNode} :
    Throws D facts (.arith op args) ↔ ∃ a ∈ args, Throws D facts a := by
  rw [← mapM_throws_iff, throws_iff_value, value_arith]
  cases hargs : args.mapM (value D facts) with
  | error e => simp [bind, Except.bind]
  | ok values =>
    obtain ⟨v, hv, -⟩ := arithValue_reads op (mapM_values_read hargs)
    simp [bind, Except.bind, hv]

/-- Evaluation throws exactly where it reaches a malformed tolerance. -/
theorem throws_iff (n : AstNode) : Throws D facts n ↔ ReachesMalformedTolerance D facts n := by
  induction n using AstNode.induction with
  | lit v =>
    constructor
    · rintro ⟨e, h⟩
      cases h
    · intro h; cases h
  | money amount currency =>
    constructor
    · rintro ⟨e, h⟩
      cases h
    · intro h; cases h
  | fact key =>
    constructor
    · rintro ⟨e, h⟩
      simp only [evaluate] at h
      split at h
      · cases h
      · split at h <;> cases h
    · intro h; cases h
  | arith op args ih =>
    rw [throws_arith]
    constructor
    · rintro ⟨a, ha, h⟩
      exact .arith op args a ha ((ih a ha).mp h)
    · rintro (_ | _ | _ | ⟨_, _, a, ha, h⟩)
      exact ⟨a, ha, (ih a ha).mpr h⟩
  | compare op left right tolerance ihl ihr =>
    rw [throws_iff_value] at ihl ihr ⊢
    constructor
    · rintro ⟨e, h⟩
      rw [value_compare] at h
      cases hl : value D facts left with
      | error e => exact .left op left right tolerance (ihl.mp ⟨e, hl⟩)
      | ok l =>
        cases hr : value D facts right with
        | error e => exact .right op left right tolerance (ihr.mp ⟨e, hr⟩)
        | ok r =>
          rw [hl, hr] at h
          obtain ⟨rfl, hnum, hmal⟩ :=
            (compareValue_throws_iff (value_reads left l hl) (value_reads right r hr)).mp ⟨e, h⟩
          exact .here left right tolerance l r hl hr hnum hmal
    · intro h
      rw [value_compare]
      cases h with
      | here _ _ _ l r hl hr hnum hmal =>
        rw [hl, hr]
        exact (compareValue_throws_iff (value_reads left l hl) (value_reads right r hr)).mpr
          ⟨rfl, hnum, hmal⟩
      | left _ _ _ _ h =>
        obtain ⟨e, he⟩ := ihl.mpr h
        exact ⟨e, by rw [he]; rfl⟩
      | right _ _ _ _ h =>
        obtain ⟨e, he⟩ := ihr.mpr h
        cases value D facts left with
        | error e' => exact ⟨e', rfl⟩
        | ok l => exact ⟨e, by rw [he]; rfl⟩
  | logic op args ih =>
    rw [throws_logic]
    constructor
    · rintro ⟨a, ha, h⟩
      exact .logic op args a ha ((ih a ha).mp h)
    · intro h
      cases h with
      | logic _ _ a ha h => exact ⟨a, ha, (ih a ha).mpr h⟩
  | require key thenNode ih =>
    have hval := value_require D facts key thenNode
    by_cases hk : facts.absent key = true
    · rw [if_pos hk] at hval
      rw [throws_iff_value, hval]
      constructor
      · rintro ⟨e, h⟩
        cases h
      · intro h
        cases h with
        | require _ _ hp _ => rw [hk] at hp; cases hp
    · rw [if_neg hk] at hval
      rw [throws_iff_value, hval, ← throws_iff_value]
      constructor
      · intro h
        exact .require key thenNode (by simpa using hk) (ih.mp h)
      · intro h
        cases h with
        | require _ _ _ h => exact ih.mpr h

end

end RuleEngine
