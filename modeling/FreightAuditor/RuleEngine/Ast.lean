import FreightAuditor.Library.Json

/- The declarative predicate AST of a rule, as `rule_version.ast` stores it, and the
   fact bundle it is evaluated on.

   A node is data: `toJson` is the structure in the database, with the fields of
   the source's types. Operators are enumerations, so that a node with an operator
   the interpreter does not know cannot be built. -/
namespace RuleEngine

open DecimalJs

/-- The value of a `lit` node. -/
inductive LitValue where
  | number (n : JsNumber)
  | string (s : String)
  | boolean (b : Bool)
  deriving DecidableEq

inductive ArithOp where
  | add | sub | mul | div | abs
  deriving DecidableEq

inductive CompareOp where
  | eq | ne | gt | gte | lt | lte | approx
  deriving DecidableEq

inductive LogicOp where
  | and | or | not
  deriving DecidableEq

inductive AstNode where
  | lit (value : LitValue)
  | money (amount currency : String)
  | fact (key : String)
  | arith (op : ArithOp) (args : List AstNode)
  | compare (op : CompareOp) (left right : AstNode) (tolerance : Option String)
  | logic (op : LogicOp) (args : List AstNode)
  | require (key : String) (thenNode : AstNode)

/-- A fact, resolved before evaluation. -/
inductive FactValue where
  | number (n : JsNumber)
  | string (s : String)
  | boolean (b : Bool)
  | money (amount currency : String)
  | decimal (text : String)
  deriving DecidableEq

/-- The only input to evaluation besides the AST. -/
abbrev FactBundle := String → Option FactValue

/-- Neither present nor the empty string: what `fact` and `require` treat as missing. -/
def FactBundle.absent (facts : FactBundle) (key : String) : Bool :=
  facts key = none ∨ facts key = some (.string "")

/-- Induction over a node, with the hypothesis for each argument. -/
@[elab_as_elim]
theorem AstNode.induction {P : AstNode → Prop} (lit : ∀ v, P (.lit v))
    (money : ∀ amount currency, P (.money amount currency)) (fact : ∀ key, P (.fact key))
    (arith : ∀ op args, (∀ a ∈ args, P a) → P (.arith op args))
    (compare : ∀ op left right tolerance, P left → P right → P (.compare op left right tolerance))
    (logic : ∀ op args, (∀ a ∈ args, P a) → P (.logic op args))
    (require : ∀ key thenNode, P thenNode → P (.require key thenNode)) (n : AstNode) : P n :=
  AstNode.rec (motive_1 := P) (motive_2 := fun l => ∀ a ∈ l, P a)
    lit money fact arith (fun op l r t hl hr => compare op l r t hl hr) logic require
    (by simp)
    (fun _ _ h ih => by simpa using ⟨h, ih⟩) n

/-! ## The stored form -/

def ArithOp.text : ArithOp → String
  | .add => "add" | .sub => "sub" | .mul => "mul" | .div => "div" | .abs => "abs"

def CompareOp.text : CompareOp → String
  | .eq => "eq" | .ne => "ne" | .gt => "gt" | .gte => "gte" | .lt => "lt" | .lte => "lte"
  | .approx => "approx"

def LogicOp.text : LogicOp → String
  | .and => "and" | .or => "or" | .not => "not"

def LitValue.toJson : LitValue → Json.Value
  | .number n => .ofNumber n
  | .string s => .str s
  | .boolean b => .bool b

mutual

def AstNode.toJson : AstNode → Json.Value
  | .lit v => .obj [("type", .str "lit"), ("value", v.toJson)]
  | .money amount currency =>
    .obj [("type", .str "money"), ("amount", .str amount), ("currency", .str currency)]
  | .fact key => .obj [("type", .str "fact"), ("key", .str key)]
  | .arith op args => .obj [("type", .str "arith"), ("op", .str op.text), ("args", .arr (argsToJson args))]
  | .compare op left right tolerance =>
    .obj ([("type", .str "compare"), ("op", .str op.text), ("left", left.toJson), ("right", right.toJson)] ++
      (tolerance.map (fun t => ("tolerance", Json.Value.str t))).toList)
  | .logic op args => .obj [("type", .str "logic"), ("op", .str op.text), ("args", .arr (argsToJson args))]
  | .require key thenNode =>
    .obj [("type", .str "require"), ("key", .str key), ("then", thenNode.toJson)]

def argsToJson : List AstNode → List Json.Value
  | [] => []
  | a :: rest => a.toJson :: argsToJson rest

end

theorem argsToJson_eq_map (l : List AstNode) : argsToJson l = l.map AstNode.toJson := by
  induction l with
  | nil => rfl
  | cons a rest ih => simp [argsToJson, ih]

theorem ArithOp.text_injective : Function.Injective ArithOp.text := by
  intro a b h
  cases a <;> cases b <;> first | rfl | exact absurd h (by decide)

theorem CompareOp.text_injective : Function.Injective CompareOp.text := by
  intro a b h
  cases a <;> cases b <;> first | rfl | exact absurd h (by decide)

theorem LogicOp.text_injective : Function.Injective LogicOp.text := by
  intro a b h
  cases a <;> cases b <;> first | rfl | exact absurd h (by decide)

end RuleEngine
