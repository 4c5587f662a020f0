import Mathlib.Logic.Relation
import FreightAuditor.Library.JsText
import FreightAuditor.Library.KeyOrder
import FreightAuditor.Library.StableSort
import FreightAuditor.RuleEngine.Interpreter

/- The canonical form of a proposed rule.

   A proposal is a predicate without arithmetic and money. `canonicalizeAst` puts the operands of every
   `and` and `or` in the order of their serialized texts, and the hash is taken of the result. The order is by
   a collation of texts, under which different texts may tie; operands that tie stay as they came.

   The canonical form means what the proposal means (`value_canonicalizeAst`) and is its own
   (`canonicalizeAst_idem`). No order of the operands shows in its text exactly if operands whose texts tie
   have one text (`astText_canonical_iff`). -/
namespace ProposedCriteria

open DecimalJs ExceptOk Json RuleEngine StableSort

/-! ## The proposal schema -/

def PROPOSABLE_FACT_KEYS : List String :=
  ["all_amounts_stated", "all_currencies_stated", "billed_linehaul", "charge_count",
    "consistent_310_charge_currencies", "contract_linehaul_rate", "duplicate_invoice", "has_fuel_category",
    "line_sum", "linehaul_currencies_match", "quarantined_count", "rate_basis_arithmetic_matches",
    "shipment_reference_match", "suspicious_missing_data_count"]

/-- A safe integer, a text of at most 1000 code units, or a boolean. -/
def isProposalLiteral : LitValue → Bool
  | .number (.fin t) => t.value.den = 1 ∧ t.value.num.natAbs ≤ 9007199254740991
  | .number _ => false
  | .string s => JsText.length s ≤ 1000
  | .boolean _ => true

/-- `not` has one operand, `and` and `or` have two or more. -/
def isArity (op : LogicOp) (args : ℕ) : Bool := args ≤ 20 && if op = .not then args == 1 else 2 ≤ args

mutual

/-- `proposalAstSchema`. -/
def isProposalAst : AstNode → Bool
  | .lit v => isProposalLiteral v
  | .fact key => PROPOSABLE_FACT_KEYS.contains key
  | .compare op left right tolerance =>
    op != .approx && tolerance.isNone && isProposalAst left && isProposalAst right
  | .logic op args => isArity op args.length && areProposalAsts args
  | .require key thenNode => PROPOSABLE_FACT_KEYS.contains key && isProposalAst thenNode
  | .money _ _ => false
  | .arith _ _ => false

def areProposalAsts : List AstNode → Bool
  | [] => true
  | a :: rest => isProposalAst a && areProposalAsts rest

end

def isBooleanAst : AstNode → Bool
  | .compare _ _ _ _ => true
  | .logic _ _ => true
  | .require _ thenNode => isBooleanAst thenNode
  | _ => false

mutual

def astDepth : AstNode → ℕ
  | .compare _ left right _ => 1 + max (astDepth left) (astDepth right)
  | .logic _ args => 1 + maxDepth args
  | .require _ thenNode => 1 + astDepth thenNode
  | _ => 1

def maxDepth : List AstNode → ℕ
  | [] => 0
  | a :: rest => max (astDepth a) (maxDepth rest)

end

/-- What `ProposedCriteriaModelOutputSchema` asks of the rule of a criterion. -/
def isAccepted (ast : AstNode) : Bool := isProposalAst ast && isBooleanAst ast && astDepth ast ≤ 20

/-! ## The canonical form -/

/-- `stableStringify`; it does not show the order of keys. -/
def astText (ast : AstNode) : String := String.ofList (canonicalText ast.toJson)

section

variable (localeCompare : String → String → Ordering)

def compareAsts (a b : AstNode) : Ordering := localeCompare (astText a) (astText b)

mutual

def canonicalizeAst : AstNode → AstNode
  | .compare op left right tolerance => .compare op (canonicalizeAst left) (canonicalizeAst right) tolerance
  | .require key thenNode => .require key (canonicalizeAst thenNode)
  | .logic op args =>
    .logic op (if op = .not then canonicalizeAsts args else sort (compareAsts localeCompare) (canonicalizeAsts args))
  | n => n

def canonicalizeAsts : List AstNode → List AstNode
  | [] => []
  | a :: rest => canonicalizeAst a :: canonicalizeAsts rest

end

end

/-! ## The fact keys -/

/-- `keys.add(key)`. -/
def addKey (keys : List String) (key : String) : List String := if keys.contains key then keys else keys ++ [key]

mutual

/-- The keys in the order the walk meets them. -/
def collectFactKeys (keys : List String) : AstNode → List String
  | .fact key => addKey keys key
  | .require key thenNode => collectFactKeys (addKey keys key) thenNode
  | .compare _ left right _ => collectFactKeys (collectFactKeys keys left) right
  | .logic _ args => collectAllFactKeys keys args
  | .arith _ args => collectAllFactKeys keys args
  | .lit _ => keys
  | .money _ _ => keys

def collectAllFactKeys (keys : List String) : List AstNode → List String
  | [] => keys
  | a :: rest => collectAllFactKeys (collectFactKeys keys a) rest

end

/-! ## The value -/

theorem areProposalAsts_iff {args : List AstNode} : areProposalAsts args = true ↔ ∀ a ∈ args, isProposalAst a = true := by
  induction args with
  | nil => exact ⟨fun _ _ ha => absurd ha List.not_mem_nil, fun _ => rfl⟩
  | cons a rest ih => rw [areProposalAsts, Bool.and_eq_true, ih, List.forall_mem_cons]

theorem canonicalizeAsts_eq_map (localeCompare : String → String → Ordering) (args : List AstNode) :
    canonicalizeAsts localeCompare args = args.map (canonicalizeAst localeCompare) := by
  induction args with
  | nil => rfl
  | cons a rest ih => rw [canonicalizeAsts, ih, List.map_cons]

section

variable {D : Type} [Decimal D] {facts facts' : FactBundle} {n : AstNode}

/-- The order of the operands shows in no conjunction and in no disjunction. -/
theorem logicValue_perm {op : LogicOp} (hop : op ≠ .not) {values values' : List EvalValue}
    (hperm : values'.Perm values) : logicValue op values' = logicValue op values := by
  have hbools := hperm.map EvalValue.asBool
  cases op with
  | not => exact absurd rfl hop
  | and => simp only [logicValue, hbools.any_eq, hbools.all_eq]
  | or => simp only [logicValue, hbools.any_eq, hbools.all_eq]

theorem value_canonicalizeAst (localeCompare : String → String → Ordering) (n : AstNode) : ∀ v,
    value D facts n = .ok v → value D facts (canonicalizeAst localeCompare n) = .ok v := by
  induction n using AstNode.induction with
  | lit _ => exact fun _ h => h
  | money _ _ => exact fun _ h => h
  | fact _ => exact fun _ h => h
  | arith _ _ _ => exact fun _ h => h
  | compare op left right tolerance ihl ihr =>
    intro v h
    simp only [value_compare, bind_eq_ok] at h
    obtain ⟨l, hl, r, hr, h⟩ := h
    rw [canonicalizeAst, value_compare, ihl l hl, ihr r hr]
    exact h
  | require key thenNode ih =>
    intro v h
    rw [value_require] at h
    rw [canonicalizeAst, value_require]
    split
    · rwa [if_pos (by assumption)] at h
    · rw [if_neg (by assumption)] at h
      exact ih v h
  | logic op args ih =>
    intro v h
    rw [value_logic, map_eq_ok] at h
    obtain ⟨values, hvalues, rfl⟩ := h
    have hcanonical : (canonicalizeAsts localeCompare args).mapM (value D facts) = .ok values := by
      rw [canonicalizeAsts_eq_map, mapM_iff_forall₂, List.forall₂_map_left_iff]
      exact ((List.forall₂_and_left _ _).mpr ⟨fun a ha => ha, mapM_forall₂ hvalues⟩).imp
        fun a v hav => ih a hav.1 v hav.2
    rw [canonicalizeAst, value_logic, map_eq_ok]
    by_cases hop : op = .not
    · exact ⟨values, by rw [if_pos hop]; exact hcanonical, rfl⟩
    · have hsorted : (sort (compareAsts localeCompare) (canonicalizeAsts localeCompare args)).Perm
          (canonicalizeAsts localeCompare args) := sort_perm _
      obtain ⟨values', hvalues', hperm⟩ := mapM_perm hsorted hcanonical
      exact ⟨values', by rw [if_neg hop]; exact hvalues', logicValue_perm hop hperm⟩

/-- A proposal has no `approx` comparison, so its evaluation returns. -/
theorem value_proposal (n : AstNode) (h : isProposalAst n = true) : ∃ v, value D facts n = .ok v := by
  have hnot : ∀ n, ReachesMalformedTolerance D facts n → isProposalAst n = false := by
    intro n hreaches
    induction hreaches with
    | here left right tolerance l r hl hr numeric malformed => rfl
    | left op left right tolerance _ ih => simp only [isProposalAst, ih, Bool.and_false, Bool.false_and]
    | right op left right tolerance _ ih => simp only [isProposalAst, ih, Bool.and_false]
    | arith op args a ha _ _ => rfl
    | logic op args a ha _ ih =>
      have hargs : ¬ areProposalAsts args = true := fun hall => by
        rw [areProposalAsts_iff.mp hall a ha] at ih
        cases ih
      simp only [isProposalAst, Bool.eq_false_iff.mpr hargs, Bool.and_false]
    | require key thenNode present _ ih => simp only [isProposalAst, ih, Bool.and_false]
  refine not_throws_iff.mp fun hthrows => ?_
  rw [hnot n ((throws_iff n).mp hthrows)] at h
  cases h

end

/-! ## The canonical form is its own -/

theorem canonicalizeAst_idem (localeCompare : String → String → Ordering) [Std.TransCmp localeCompare] (n : AstNode) :
    canonicalizeAst localeCompare (canonicalizeAst localeCompare n) = canonicalizeAst localeCompare n := by
  have htrans : Std.TransCmp (compareAsts localeCompare) := transCmp_key astText
  induction n using AstNode.induction with
  | lit _ => rfl
  | money _ _ => rfl
  | fact _ => rfl
  | arith _ _ _ => rfl
  | compare op left right tolerance ihl ihr => simp only [canonicalizeAst, ihl, ihr]
  | require key thenNode ih => simp only [canonicalizeAst, ih]
  | logic op args ih =>
    -- the operands are canonical already, in whatever order
    have hsame (l : List AstNode) (hl : ∀ a ∈ l, a ∈ args.map (canonicalizeAst localeCompare)) :
        canonicalizeAsts localeCompare l = l := by
      calc canonicalizeAsts localeCompare l = l.map (canonicalizeAst localeCompare) := canonicalizeAsts_eq_map _ _
        _ = l.map id := List.map_congr_left fun a ha => by
          obtain ⟨b, hb, rfl⟩ := List.mem_map.mp (hl a ha)
          exact ih b hb
        _ = l := List.map_id l
    rw [canonicalizeAst, canonicalizeAst]
    by_cases hop : op = .not
    · rw [if_pos hop, if_pos hop, hsame _ fun a ha => canonicalizeAsts_eq_map localeCompare args ▸ ha]
    · rw [if_neg hop, if_neg hop, hsame _ fun a ha => canonicalizeAsts_eq_map localeCompare args ▸ mem_sort.mp ha, sort_sort]

/-! ## The facts a verdict depends on -/

/-- The node asks for the fact. -/
inductive Mentions : AstNode → String → Prop
  | fact (key : String) : Mentions (.fact key) key
  | required (key : String) (thenNode : AstNode) : Mentions (.require key thenNode) key
  | require (key : String) (thenNode : AstNode) (asked : String) (h : Mentions thenNode asked) :
      Mentions (.require key thenNode) asked
  | left (op : CompareOp) (left right : AstNode) (tolerance : Option String) (asked : String)
      (h : Mentions left asked) : Mentions (.compare op left right tolerance) asked
  | right (op : CompareOp) (left right : AstNode) (tolerance : Option String) (asked : String)
      (h : Mentions right asked) : Mentions (.compare op left right tolerance) asked
  | logic (op : LogicOp) (args : List AstNode) (a : AstNode) (ha : a ∈ args) (asked : String) (h : Mentions a asked) :
      Mentions (.logic op args) asked
  | arith (op : ArithOp) (args : List AstNode) (a : AstNode) (ha : a ∈ args) (asked : String) (h : Mentions a asked) :
      Mentions (.arith op args) asked

theorem mem_addKey {keys : List String} {key asked : String} : asked ∈ addKey keys key ↔ asked ∈ keys ∨ asked = key := by
  unfold addKey
  split
  · rename_i hthere
    have hmem : key ∈ keys := List.contains_iff_mem.mp hthere
    exact ⟨.inl, fun h => h.elim id fun heq => heq ▸ hmem⟩
  · rw [List.mem_append, List.mem_singleton]

theorem mem_collectAllFactKeys {args : List AstNode} {asked : String}
    (ih : ∀ a ∈ args, ∀ keys, asked ∈ collectFactKeys keys a ↔ asked ∈ keys ∨ Mentions a asked) :
    ∀ keys, asked ∈ collectAllFactKeys keys args ↔ asked ∈ keys ∨ ∃ a ∈ args, Mentions a asked := by
  induction args with
  | nil => exact fun keys => ⟨.inl, fun h => h.elim id fun ⟨_, ha, _⟩ => absurd ha List.not_mem_nil⟩
  | cons a rest ihrest =>
    intro keys
    obtain ⟨ha, hrest⟩ := List.forall_mem_cons.mp ih
    rw [collectAllFactKeys, ihrest hrest, ha, or_assoc, List.exists_mem_cons_iff]

/-- The keys collected are those the node asks for. -/
theorem mem_collectFactKeys (n : AstNode) (asked : String) :
    ∀ keys, asked ∈ collectFactKeys keys n ↔ asked ∈ keys ∨ Mentions n asked := by
  induction n using AstNode.induction with
  | lit v =>
    exact fun keys => ⟨.inl, fun h => h.elim id fun hm => by cases hm⟩
  | money amount currency =>
    exact fun keys => ⟨.inl, fun h => h.elim id fun hm => by cases hm⟩
  | fact key =>
    intro keys
    rw [collectFactKeys, mem_addKey]
    refine or_congr_right ⟨fun h => h ▸ .fact asked, fun h => ?_⟩
    cases h
    rfl
  | arith op args ih =>
    intro keys
    rw [collectFactKeys, mem_collectAllFactKeys ih]
    refine or_congr_right ⟨fun ⟨a, ha, h⟩ => .arith op args a ha asked h, fun h => ?_⟩
    cases h with
    | arith _ _ a ha _ h => exact ⟨a, ha, h⟩
  | compare op left right tolerance ihl ihr =>
    intro keys
    rw [collectFactKeys, ihr, ihl, or_assoc]
    refine or_congr_right ⟨fun h => h.elim (.left op left right tolerance asked) (.right op left right tolerance asked), fun h => ?_⟩
    cases h with
    | left _ _ _ _ _ h => exact .inl h
    | right _ _ _ _ _ h => exact .inr h
  | logic op args ih =>
    intro keys
    rw [collectFactKeys, mem_collectAllFactKeys ih]
    refine or_congr_right ⟨fun ⟨a, ha, h⟩ => .logic op args a ha asked h, fun h => ?_⟩
    cases h with
    | logic _ _ a ha _ h => exact ⟨a, ha, h⟩
  | require key thenNode ih =>
    intro keys
    rw [collectFactKeys, ih, mem_addKey, or_assoc]
    refine or_congr_right ⟨fun h => ?_, fun h => ?_⟩
    · rcases h with rfl | h
      · exact .required asked thenNode
      · exact .require key thenNode asked h
    · cases h with
      | required _ _ => exact .inl rfl
      | require _ _ _ h => exact .inr h

/-- The canonical form asks for the same facts. -/
theorem mentions_canonicalizeAst (localeCompare : String → String → Ordering) (n : AstNode) (asked : String) :
    Mentions (canonicalizeAst localeCompare n) asked ↔ Mentions n asked := by
  induction n using AstNode.induction with
  | lit v => exact Iff.rfl
  | money amount currency => exact Iff.rfl
  | fact key => exact Iff.rfl
  | arith op args ih => exact Iff.rfl
  | compare op left right tolerance ihl ihr =>
    rw [canonicalizeAst]
    constructor
    · intro h
      cases h with
      | left _ _ _ _ _ h => exact .left op left right tolerance asked (ihl.mp h)
      | right _ _ _ _ _ h => exact .right op left right tolerance asked (ihr.mp h)
    · intro h
      cases h with
      | left _ _ _ _ _ h => exact .left op _ _ tolerance asked (ihl.mpr h)
      | right _ _ _ _ _ h => exact .right op _ _ tolerance asked (ihr.mpr h)
  | require key thenNode ih =>
    rw [canonicalizeAst]
    constructor
    · intro h
      cases h with
      | required _ _ => exact .required asked thenNode
      | require _ _ _ h => exact .require key thenNode asked (ih.mp h)
    · intro h
      cases h with
      | required _ _ => exact .required asked _
      | require _ _ _ h => exact .require key _ asked (ih.mpr h)
  | logic op args ih =>
    have hmem (b : AstNode) : b ∈ (if op = .not then canonicalizeAsts localeCompare args
        else sort (compareAsts localeCompare) (canonicalizeAsts localeCompare args)) ↔
        ∃ a ∈ args, canonicalizeAst localeCompare a = b := by
      rw [← List.mem_map, ← canonicalizeAsts_eq_map]
      split
      · exact Iff.rfl
      · exact mem_sort
    rw [canonicalizeAst]
    constructor
    · intro h
      cases h with
      | logic _ _ b hb _ h =>
        obtain ⟨a, ha, rfl⟩ := (hmem b).mp hb
        exact .logic op args a ha asked ((ih a ha).mp h)
    · intro h
      cases h with
      | logic _ _ a ha _ h => exact .logic op _ _ ((hmem _).mpr ⟨a, ha, rfl⟩) asked ((ih a ha).mpr h)

section

variable {D : Type} [Decimal D] {facts facts' : FactBundle} {n : AstNode}

/-- Bundles that agree on the facts a node asks for are one to it. -/
theorem evaluate_congr (n : AstNode) (h : ∀ key, Mentions n key → facts key = facts' key) :
    evaluate D facts n = evaluate D facts' n := by
  have hall {args : List AstNode} (ih : ∀ a ∈ args, evaluate D facts a = evaluate D facts' a) :
      evaluateAll D facts args = evaluateAll D facts' args := by
    induction args with
    | nil => rfl
    | cons a rest ihrest =>
      obtain ⟨ha, hrest⟩ := List.forall_mem_cons.mp ih
      rw [evaluateAll, evaluateAll, ha, ihrest hrest]
  induction n using AstNode.induction with
  | lit v => rfl
  | money amount currency => rfl
  | fact key => simp only [evaluate, h key (.fact key)]
  | arith op args ih =>
    simp only [evaluate, hall fun a ha => ih a ha fun key hkey => h key (.arith op args a ha key hkey)]
  | compare op left right tolerance ihl ihr =>
    simp only [evaluate, ihl fun key hkey => h key (.left op left right tolerance key hkey),
      ihr fun key hkey => h key (.right op left right tolerance key hkey)]
  | logic op args ih =>
    simp only [evaluate, hall fun a ha => ih a ha fun key hkey => h key (.logic op args a ha key hkey)]
  | require key thenNode ih =>
    have habsent : facts.absent key = facts'.absent key :=
      decide_eq_decide.mpr (by rw [h key (.required key thenNode)])
    simp only [evaluate, habsent, ih fun asked hasked => h asked (.require key thenNode asked hasked)]

/-- An operand that is not assessable leaves no verdict. -/
theorem logicValue_unassessable {op : LogicOp} {values : List EvalValue} {reason : String}
    (hmem : .unassessable reason ∈ values) (hnot : op = .not → values.length = 1) :
    ∃ r, logicValue op values = .unassessable r := by
  have hnone : (values.map EvalValue.asBool).any Option.isNone = true :=
    List.any_eq_true.mpr ⟨none, List.mem_map.mpr ⟨_, hmem, rfl⟩, rfl⟩
  cases op with
  | not =>
    obtain ⟨v, rfl⟩ := List.length_eq_one_iff.mp (hnot rfl)
    rw [← List.mem_singleton.mp hmem]
    exact ⟨_, rfl⟩
  | and => exact ⟨LogicOp.and.text ++ ": non-bool operand", by simp only [logicValue, hnone, if_true]⟩
  | or => exact ⟨LogicOp.or.text ++ ": non-bool operand", by simp only [logicValue, hnone, if_true]⟩

/-- A proposal that asks for a fact that is not there is not assessable. -/
theorem value_absent {asked : String} (h : Mentions n asked) (hn : isProposalAst n = true)
    (habsent : facts.absent asked = true) : ∃ reason, value D facts n = .ok (.unassessable reason) := by
  induction h with
  | fact key =>
    have habsent' : facts key = none ∨ facts key = some (.string "") := by simpa [FactBundle.absent] using habsent
    rcases habsent' with hnone | hempty
    · exact ⟨_, by simp only [value, evaluate, hnone]; rfl⟩
    · exact ⟨_, by simp only [value, evaluate, hempty, if_true]; rfl⟩
  | required key thenNode => exact ⟨_, by rw [value_require, if_pos habsent]⟩
  | require key thenNode asked _ ih =>
    simp only [isProposalAst, Bool.and_eq_true] at hn
    rw [value_require]
    split
    · exact ⟨_, rfl⟩
    · exact ih hn.2 habsent
  | left op left right tolerance asked _ ih =>
    simp only [isProposalAst, Bool.and_eq_true] at hn
    obtain ⟨reason, hl⟩ := ih hn.1.2 habsent
    obtain ⟨r, hr⟩ := @value_proposal D _ facts right hn.2
    exact ⟨_, by rw [value_compare, hl, hr]; rfl⟩
  | right op left right tolerance asked _ ih =>
    simp only [isProposalAst, Bool.and_eq_true] at hn
    obtain ⟨reason, hr⟩ := ih hn.2 habsent
    obtain ⟨l, hl⟩ := @value_proposal D _ facts left hn.1.2
    refine ⟨"comparand unassessable", ?_⟩
    rw [value_compare, hl, hr, ok_bind, ok_bind, compareValue, isUnassessable_unassessable, Bool.or_true, if_pos rfl]
  | logic op args a ha asked _ ih =>
    simp only [isProposalAst, Bool.and_eq_true] at hn
    obtain ⟨harity, hargs⟩ := hn
    obtain ⟨reason, hav⟩ := ih (areProposalAsts_iff.mp hargs a ha) habsent
    obtain ⟨values, hvalues⟩ : Returns (args.mapM (value D facts)) :=
      returns_mapM.mpr fun b hb => value_proposal b (areProposalAsts_iff.mp hargs b hb)
    obtain ⟨v, hv, hav'⟩ := exists_of_mapM hvalues ha
    obtain rfl := Except.ok.inj (hav.symm.trans hav')
    have hlength : op = .not → values.length = 1 := by
      intro hop
      rw [hop, isArity, if_pos rfl, Bool.and_eq_true, beq_iff_eq] at harity
      rw [← (mapM_forall₂ hvalues).length_eq, harity.2]
    obtain ⟨r, hr⟩ := logicValue_unassessable hv hlength
    exact ⟨r, by rw [value_logic, hvalues]; exact congrArg Except.ok hr⟩
  | arith op args a ha asked _ ih => cases hn

end

/-! ## The order of the operands -/

/-- The operands of one `and` or `or`, at the root or below it, in another order. -/
inductive Permuted : AstNode → AstNode → Prop
  | operands (op : LogicOp) (args args' : List AstNode) (hop : op ≠ .not) (hperm : args'.Perm args) :
      Permuted (.logic op args) (.logic op args')
  | operand (op : LogicOp) (front back : List AstNode) (a a' : AstNode) (h : Permuted a a') :
      Permuted (.logic op (front ++ a :: back)) (.logic op (front ++ a' :: back))
  | left (op : CompareOp) (left left' right : AstNode) (tolerance : Option String) (h : Permuted left left') :
      Permuted (.compare op left right tolerance) (.compare op left' right tolerance)
  | right (op : CompareOp) (left right right' : AstNode) (tolerance : Option String) (h : Permuted right right') :
      Permuted (.compare op left right tolerance) (.compare op left right' tolerance)
  | require (key : String) (thenNode thenNode' : AstNode) (h : Permuted thenNode thenNode') :
      Permuted (.require key thenNode) (.require key thenNode')

/-- The rule as it comes in any order of its operands. -/
def Rearranged : AstNode → AstNode → Prop := Relation.ReflTransGen Permuted

theorem astText_inj {n m : AstNode} : astText n = astText m ↔ sortKeys n.toJson = sortKeys m.toJson := by
  rw [astText, astText, String.ofList_inj, canonicalText_inj]

theorem astText_compare {op : CompareOp} {l r l' r' : AstNode} {tolerance : Option String} :
    astText (.compare op l r tolerance) = astText (.compare op l' r' tolerance) ↔
      astText l = astText l' ∧ astText r = astText r' := by
  rw [astText_inj, astText_inj, astText_inj]
  constructor
  · exact fun h => ⟨value_eq "left" h rfl rfl, value_eq "right" h rfl rfl⟩
  · rintro ⟨hl, hr⟩
    rw [AstNode.toJson, AstNode.toJson, sortKeys, sortKeys, sortFields_eq_map, sortFields_eq_map]
    simp only [List.map_append, List.map_cons, hl, hr]

theorem astText_require {key : String} {n n' : AstNode} :
    astText (.require key n) = astText (.require key n') ↔ astText n = astText n' := by
  rw [astText_inj, astText_inj]
  constructor
  · exact fun h => value_eq "then" h rfl rfl
  · intro h
    rw [AstNode.toJson, AstNode.toJson, sortKeys, sortKeys, sortFields_eq_map, sortFields_eq_map]
    simp only [List.map_cons, h]

theorem astText_logic {op : LogicOp} {args args' : List AstNode} :
    astText (.logic op args) = astText (.logic op args') ↔ args.map astText = args'.map astText := by
  have hargs : sortKeys (.arr (argsToJson args)) = sortKeys (.arr (argsToJson args')) ↔
      args.map astText = args'.map astText := by
    have htext : ∀ l : List AstNode, l.map astText = (l.map fun a => sortKeys a.toJson).map fun v => String.ofList (render v) :=
      fun l => by rw [List.map_map]; rfl
    have hinj : Function.Injective fun v : Value => String.ofList (render v) :=
      fun v w h => render_injective (String.ofList_inj.mp h)
    rw [htext, htext, (List.map_injective_iff.mpr hinj).eq_iff, sortKeys, sortKeys, sortElems_eq_map, sortElems_eq_map,
      argsToJson_eq_map, argsToJson_eq_map, List.map_map, List.map_map, Value.arr.injEq]
    rfl
  rw [astText_inj, ← hargs]
  constructor
  · exact fun h => value_eq "args" h rfl rfl
  · intro h
    rw [AstNode.toJson, AstNode.toJson, sortKeys, sortKeys, sortFields_eq_map, sortFields_eq_map]
    simp only [List.map_cons, h]

section

variable (localeCompare : String → String → Ordering)

/-- The text that is hashed. -/
def hashedText (n : AstNode) : String := astText (canonicalizeAst localeCompare n)

mutual

/-- Operands of an `and` or `or` whose texts tie have one text. -/
def Decided : AstNode → Prop
  | .compare _ left right _ => Decided left ∧ Decided right
  | .logic op args => AllDecided args ∧ (op ≠ .not → ∀ a ∈ args.map (hashedText localeCompare),
      ∀ b ∈ args.map (hashedText localeCompare), localeCompare a b = .eq → a = b)
  | .require _ thenNode => Decided thenNode
  | _ => True

def AllDecided : List AstNode → Prop
  | [] => True
  | a :: rest => Decided a ∧ AllDecided rest

end

end

section

variable {localeCompare : String → String → Ordering}

theorem allDecided_iff {args : List AstNode} : AllDecided localeCompare args ↔ ∀ a ∈ args, Decided localeCompare a := by
  induction args with
  | nil => exact iff_of_true trivial fun _ ha => absurd ha List.not_mem_nil
  | cons a rest ih => rw [AllDecided, ih, List.forall_mem_cons]

/-- The texts of the operands, in the order of the canonical form. -/
theorem operandTexts {op : LogicOp} {args : List AstNode} :
    (if op = .not then canonicalizeAsts localeCompare args
      else sort (compareAsts localeCompare) (canonicalizeAsts localeCompare args)).map astText =
    if op = .not then args.map (hashedText localeCompare) else sort localeCompare (args.map (hashedText localeCompare)) := by
  have hmap : (canonicalizeAsts localeCompare args).map astText = args.map (hashedText localeCompare) := by
    rw [canonicalizeAsts_eq_map, List.map_map]
    rfl
  split
  · exact hmap
  · rw [← hmap]
    exact map_sort localeCompare astText _

theorem hashedText_logic {op : LogicOp} {args args' : List AstNode} :
    hashedText localeCompare (.logic op args) = hashedText localeCompare (.logic op args') ↔
      if op = .not then args.map (hashedText localeCompare) = args'.map (hashedText localeCompare)
      else sort localeCompare (args.map (hashedText localeCompare)) = sort localeCompare (args'.map (hashedText localeCompare)) := by
  rw [hashedText, hashedText, canonicalizeAst, canonicalizeAst, astText_logic, operandTexts, operandTexts]
  split
  · rfl
  · rfl

theorem hashedText_compare {op : CompareOp} {l r l' r' : AstNode} {tolerance : Option String} :
    hashedText localeCompare (.compare op l r tolerance) = hashedText localeCompare (.compare op l' r' tolerance) ↔
      hashedText localeCompare l = hashedText localeCompare l' ∧ hashedText localeCompare r = hashedText localeCompare r' := by
  rw [hashedText, hashedText, canonicalizeAst, canonicalizeAst, astText_compare]
  rfl

theorem hashedText_require {key : String} {n n' : AstNode} :
    hashedText localeCompare (.require key n) = hashedText localeCompare (.require key n') ↔
      hashedText localeCompare n = hashedText localeCompare n' := by
  rw [hashedText, hashedText, canonicalizeAst, canonicalizeAst, astText_require]
  rfl

variable [Std.TransCmp localeCompare]

/-- Where ties are decided, one more order of operands does not show. -/
theorem Permuted.hashedText_eq {n n' : AstNode} (h : Permuted n n') (hn : Decided localeCompare n) :
    hashedText localeCompare n' = hashedText localeCompare n ∧ Decided localeCompare n' := by
  induction h with
  | operands op args args' hop hperm =>
    obtain ⟨hall, hties⟩ := hn
    have htexts := hperm.map (hashedText localeCompare)
    refine ⟨hashedText_logic.mpr ?_, ?_, fun _ a ha b hb => ?_⟩
    · rw [if_neg hop]
      exact sort_perm_invariant_iff.mpr (hties hop) _ htexts
    · exact allDecided_iff.mpr fun a ha => allDecided_iff.mp hall a (hperm.mem_iff.mp ha)
    · exact hties hop a (htexts.mem_iff.mp ha) b (htexts.mem_iff.mp hb)
  | operand op front back a a' _ ih =>
    obtain ⟨hall, hties⟩ := hn
    have hall := allDecided_iff.mp hall
    obtain ⟨hsame, hdecided⟩ := ih (hall a (List.mem_append_right _ List.mem_cons_self))
    have htexts : (front ++ a' :: back).map (hashedText localeCompare) = (front ++ a :: back).map (hashedText localeCompare) := by
      rw [List.map_append, List.map_append, List.map_cons, List.map_cons, hsame]
    refine ⟨hashedText_logic.mpr (by rw [htexts]; split <;> rfl), allDecided_iff.mpr fun b hb => ?_, by rwa [htexts]⟩
    rcases List.mem_append.mp hb with hfront | hrest
    · exact hall b (List.mem_append_left _ hfront)
    · rcases List.mem_cons.mp hrest with rfl | hback
      · exact hdecided
      · exact hall b (List.mem_append_right _ (List.mem_cons_of_mem _ hback))
  | left op left left' right tolerance _ ih =>
    obtain ⟨hsame, hdecided⟩ := ih hn.1
    exact ⟨hashedText_compare.mpr ⟨hsame, rfl⟩, hdecided, hn.2⟩
  | right op left right right' tolerance _ ih =>
    obtain ⟨hsame, hdecided⟩ := ih hn.2
    exact ⟨hashedText_compare.mpr ⟨rfl, hsame⟩, hn.1, hdecided⟩
  | require key thenNode thenNode' _ ih =>
    obtain ⟨hsame, hdecided⟩ := ih hn
    exact ⟨hashedText_require.mpr hsame, hdecided⟩

theorem Rearranged.hashedText_eq {n n' : AstNode} (h : Rearranged n n') (hn : Decided localeCompare n) :
    hashedText localeCompare n' = hashedText localeCompare n := by
  have hall : hashedText localeCompare n' = hashedText localeCompare n ∧ Decided localeCompare n' := by
    induction h with
    | refl => exact ⟨rfl, hn⟩
    | tail _ hstep ih =>
      obtain ⟨hsame, hdecided⟩ := hstep.hashedText_eq ih.2
      exact ⟨hsame.trans ih.1, hdecided⟩
  exact hall.1

/-- The rearranged forms below a node. -/
theorem Rearranged.lift {f : AstNode → AstNode} (hf : ∀ a a', Permuted a a' → Permuted (f a) (f a')) {n n' : AstNode}
    (h : Rearranged n n') : Rearranged (f n) (f n') := Relation.ReflTransGen.lift f hf n n' h

/-- What stands between the same is the same where the lists are permutations of each other. -/
theorem eq_of_perm_middle {α : Type} {front back : List α} {a a' : α}
    (h : (front ++ a' :: back).Perm (front ++ a :: back)) : a' = a := by
  have hone : ([a'] ++ back).Perm ([a] ++ back) := (List.perm_append_left_iff front).mp h
  exact List.singleton_perm_singleton.mp ((List.perm_append_right_iff back).mp hone)

/-- No order of the operands shows in the hashed text exactly if operands whose texts tie have one text. -/
theorem hashedText_canonical_iff (n : AstNode) :
    (∀ n', Rearranged n n' → hashedText localeCompare n' = hashedText localeCompare n) ↔ Decided localeCompare n := by
  refine ⟨?_, fun hn n' h => h.hashedText_eq hn⟩
  induction n using AstNode.induction with
  | lit v => exact fun _ => trivial
  | money amount currency => exact fun _ => trivial
  | fact key => exact fun _ => trivial
  | arith op args _ => exact fun _ => trivial
  | compare op left right tolerance ihl ihr =>
    intro h
    refine ⟨ihl fun left' hleft => ?_, ihr fun right' hright => ?_⟩
    · exact (hashedText_compare.mp (h _ (hleft.lift fun _ _ => .left op _ _ right tolerance))).1
    · exact (hashedText_compare.mp (h _ (hright.lift fun _ _ => .right op left _ _ tolerance))).2
  | require key thenNode ih =>
    intro h
    exact ih fun then' hthen => hashedText_require.mp (h _ (hthen.lift fun _ _ => .require key _ _))
  | logic op args ih =>
    intro h
    refine ⟨allDecided_iff.mpr fun a ha => ih a ha fun a' ha' => ?_, fun hop => ?_⟩
    · -- one operand in another form, between the others
      obtain ⟨front, back, rfl⟩ := List.append_of_mem ha
      have hsame := hashedText_logic.mp (h _ (ha'.lift fun _ _ => .operand op front back _ _))
      rw [List.map_append, List.map_append, List.map_cons, List.map_cons] at hsame
      split at hsame
      · exact eq_of_perm_middle (List.Perm.of_eq hsame)
      · have hperm : (sort localeCompare (front.map (hashedText localeCompare) ++
            hashedText localeCompare a' :: back.map (hashedText localeCompare))).Perm
            (front.map (hashedText localeCompare) ++ hashedText localeCompare a' :: back.map (hashedText localeCompare)) :=
          sort_perm _
        rw [hsame] at hperm
        exact eq_of_perm_middle (hperm.symm.trans (sort_perm _))
    · refine sort_perm_invariant_iff.mp fun texts htexts => ?_
      -- every order of the texts is that of an order of the operands
      obtain ⟨args', hmap, hperm⟩ : ∃ args' : List AstNode,
          texts = args'.map (hashedText localeCompare) ∧ args'.Perm args := by
        exact (congrFun (congrFun (List.eq_map_comp_perm (hashedText localeCompare)) texts) args).mpr htexts
      have hsame := hashedText_logic.mp (h _ (.single (.operands op args args' hop hperm)))
      rw [if_neg hop] at hsame
      rw [hmap]
      exact hsame

end

/-! ## A proposal's canonical form -/

def astHash (sha256 : String → String) (ast : AstNode) : String := sha256 (astText ast)

/-- What is said of the canonical form of a proposal: it means what the proposal means, it is its own canonical
form, it has one hash whatever the order of operands and keys, and the keys collected are those of the facts on
which the verdict depends. -/
structure HasOneForm (D : Type) [Decimal D] (localeCompare : String → String → Ordering) (sha256 : String → String)
    (ast : AstNode) : Prop where
  meaning : ∀ facts, ∃ v, verdict <$> evaluate D facts ast = .ok v ∧
    verdict <$> evaluate D facts (canonicalizeAst localeCompare ast) = .ok v
  idem : canonicalizeAst localeCompare (canonicalizeAst localeCompare ast) = canonicalizeAst localeCompare ast
  oneHash : ∀ ast' stored, Rearranged ast ast' → Respelled (canonicalizeAst localeCompare ast').toJson stored →
    sha256 (String.ofList (canonicalText stored)) = astHash sha256 (canonicalizeAst localeCompare ast)
  /-- Facts that are not collected do not matter. -/
  otherFacts : ∀ facts facts', (∀ key ∈ collectFactKeys [] ast, facts key = facts' key) →
    verdict <$> evaluate D facts ast = verdict <$> evaluate D facts' ast
  /-- Without a collected one there is no verdict. -/
  collectedFacts : ∀ facts, ∀ key ∈ collectFactKeys [] ast, facts.absent key = true →
    verdict <$> evaluate D facts ast = .ok .UNASSESSABLE
  sameFacts : ∀ key, key ∈ collectFactKeys [] (canonicalizeAst localeCompare ast) ↔ key ∈ collectFactKeys [] ast

section

variable {D : Type} [Decimal D] {localeCompare : String → String → Ordering} [Std.TransCmp localeCompare]
  {sha256 : String → String} {ast : AstNode}

theorem mem_factKeys {key : String} : key ∈ collectFactKeys [] ast ↔ Mentions ast key := by
  rw [mem_collectFactKeys]
  exact or_iff_right List.not_mem_nil

omit [Std.TransCmp localeCompare] in
theorem verdict_eq (facts : FactBundle) (n : AstNode) :
    verdict <$> evaluate D facts n = EvalValue.verdict <$> value D facts n := by
  unfold value
  cases evaluate D facts n <;> rfl

/-- A proposal has one form exactly if its ties are decided. -/
theorem hasOneForm_iff (hsha : Function.Injective sha256) (h : isAccepted ast = true) :
    HasOneForm D localeCompare sha256 ast ↔ Decided localeCompare ast := by
  have hproposal : isProposalAst ast = true := by
    simp only [isAccepted, Bool.and_eq_true] at h
    exact h.1.1
  constructor
  · intro hform
    refine (hashedText_canonical_iff ast).mp fun ast' hast' => hsha ?_
    exact hform.oneHash ast' _ hast' .refl
  · intro hdecided
    refine ⟨fun facts => ?_, canonicalizeAst_idem localeCompare ast, fun ast' stored hast' hstored => ?_,
      fun facts facts' hagree => ?_, fun facts key hkey habsent => ?_, fun key => ?_⟩
    · obtain ⟨v, hv⟩ := @value_proposal D _ facts ast hproposal
      refine ⟨v.verdict, ?_, ?_⟩
      · rw [verdict_eq, hv]
        rfl
      · rw [verdict_eq, value_canonicalizeAst localeCompare ast v hv]
        rfl
    · rw [hstored.canonicalText_eq]
      exact congrArg sha256 (hast'.hashedText_eq hdecided)
    · rw [evaluate_congr ast fun key hkey => hagree key (mem_factKeys.mpr hkey)]
    · obtain ⟨reason, hreason⟩ := @value_absent D _ facts ast key (mem_factKeys.mp hkey) hproposal habsent
      rw [verdict_eq, hreason]
      rfl
    · rw [mem_factKeys, mem_factKeys, mentions_canonicalizeAst]

end

end ProposedCriteria
