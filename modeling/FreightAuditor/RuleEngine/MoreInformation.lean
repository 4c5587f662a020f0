import FreightAuditor.Library.DecimalRef
import FreightAuditor.RuleEngine.Interpreter

/- Evaluation under more information.

   A bundle extends another if it agrees with it on every fact present there. Every
   operator but `not` wants all its operands assessed, and `not` reads its first alone, so
   a value once assessed stays as it is under more facts (`evaluate_refines`). What more
   facts can do is reach the tolerance of an `approx` comparison, whose constructor throws
   on malformed text: `kept_iff` says exactly when a verdict is lost to that. -/
namespace RuleEngine

open DecimalJs

/-- `g` says what `f` says, wherever that says anything. -/
def Extends (f g : FactBundle) : Prop := ∀ key, f.absent key = false → g key = f key

section

variable (D : Type) [Decimal D] (facts : FactBundle)

/-- A literal, an amount or a fact with a value, or an empty `and` or `or`. -/
inductive HasValue : AstNode → Prop
  | lit (v : LitValue) (h : (litValue D v).isUnassessable = false) : HasValue (.lit v)
  | money (amount currency : String) (h : (moneyValue D amount currency).isUnassessable = false) :
      HasValue (.money amount currency)
  | fact (key : String) (raw : FactValue) (found : facts key = some raw) (present : raw ≠ .string "")
      (h : (factValue D key raw).isUnassessable = false) : HasValue (.fact key)
  | empty (op : LogicOp) (h : op ≠ .not) : HasValue (.logic op [])

/-- Evaluation reads something that has a value. -/
def Assesses (n : AstNode) : Prop := ∃ m, Reached facts n m ∧ HasValue D facts m

/-- What `f` decides, `g` decides likewise: the verdict, and the value of every subexpression. -/
structure Kept (f g : FactBundle) (n : AstNode) : Prop where
  verdict : ∀ ev, evaluate D f n = .ok ev → verdict ev ≠ .UNASSESSABLE →
    ∃ ev', evaluate D g n = .ok ev' ∧ RuleEngine.verdict ev' = RuleEngine.verdict ev
  values : ∀ ev, evaluate D f n = .ok ev → ∀ path sub, ev.subnode? path = some sub →
    sub.value.isUnassessable = false → ∃ ev' sub', evaluate D g n = .ok ev' ∧
      ev'.subnode? path = some sub' ∧ sub'.node = sub.node ∧ sub'.value = sub.value

end

/-! ## Strictness -/

section

variable {D : Type} [Decimal D] {v l r : EvalValue} {values : List EvalValue}

/-- Arithmetic assesses nothing unless it has assessed every operand. -/
theorem arithValue_strict {op : ArithOp} (h : arithValue D op values = .ok v) (hv : v.isUnassessable = false) :
    ∀ w ∈ values, w.isUnassessable = false := by
  unfold arithValue at h
  split at h
  · cases h
    cases hv
  · rename_i hall
    simpa using hall

theorem compareValue_strict {op : CompareOp} {tolerance : Option String}
    (h : compareValue D op tolerance l r = .ok v) (hv : v.isUnassessable = false) :
    l.isUnassessable = false ∧ r.isUnassessable = false := by
  unfold compareValue at h
  split at h
  · cases h
    cases hv
  · rename_i hall
    simpa using hall

theorem asBool_unassessable (h : v.asBool.isSome) : v.isUnassessable = false := by
  cases v <;> first | rfl | cases h

/-- `and` and `or` want every operand, `not` its first. -/
theorem logicValue_strict {op : LogicOp} (hv : (logicValue op values).isUnassessable = false) :
    (op ≠ .not → ∀ w ∈ values, w.isUnassessable = false) ∧
      (op = .not → ∃ w rest, values = w :: rest ∧ w.isUnassessable = false) := by
  have hall : ∀ op : LogicOp, op ≠ .not → (logicValue op values).isUnassessable = false →
      ∀ w ∈ values, w.isUnassessable = false := by
    intro op hop hv w hw
    refine asBool_unassessable (Option.isSome_iff_ne_none.mpr fun hnone => ?_)
    have hany : (values.map EvalValue.asBool).any Option.isNone = true :=
      List.any_eq_true.mpr ⟨none, List.mem_map.mpr ⟨w, hw, hnone⟩, rfl⟩
    cases op with
    | not => exact hop rfl
    | _ => simp [logicValue, hany] at hv
  refine ⟨fun hop => hall op hop hv, fun hop => ?_⟩
  subst hop
  cases values with
  | nil => cases hv
  | cons w rest =>
    refine ⟨w, rest, rfl, ?_⟩
    cases w <;> first | rfl | cases hv

/-- `not` reads its first operand only. -/
theorem logicValue_not {w : EvalValue} {rest rest' : List EvalValue} :
    logicValue .not (w :: rest) = logicValue .not (w :: rest') := rfl

end

/-! ## Refinement of evaluated trees -/

/-- Where `ev` has a value, `ev'` has the same. -/
def Refines (ev ev' : EvalNode) : Prop :=
  ∀ path sub, ev.subnode? path = some sub → sub.value.isUnassessable = false →
    ∃ sub', ev'.subnode? path = some sub' ∧ sub'.node = sub.node ∧ sub'.value = sub.value

section

variable {n : AstNode} {v v' : EvalValue} {ev ev' : EvalNode} {children children' : List EvalNode}

theorem Refines.refl : Refines ev ev := fun _ sub hsub _ => ⟨sub, hsub, rfl, rfl⟩

/-- A leaf without value is refined by anything. -/
theorem Refines.unassessable (reason : String) : Refines (.leaf n (.unassessable reason)) ev' := by
  intro path sub hsub hv
  cases path with
  | nil => cases hsub; cases hv
  | cons i path => cases hsub

theorem Refines.value (h : Refines ev ev') (hv : ev.value.isUnassessable = false) : ev'.value = ev.value := by
  obtain ⟨sub', hsub', -, hvalue⟩ := h [] ev (by simp) hv
  rw [EvalNode.subnode?_nil, Option.some.injEq] at hsub'
  rw [hsub', hvalue]

theorem Refines.branch (hv : v.isUnassessable = false → v' = v)
    (hchildren : List.Forall₂ Refines children children') :
    Refines (.branch n v children) (.branch n v' children') := by
  intro path sub hsub hsubv
  cases path with
  | nil =>
    cases hsub
    exact ⟨.branch n v' children', rfl, rfl, hv hsubv⟩
  | cons i path =>
    rw [EvalNode.subnode?_branch] at hsub
    obtain ⟨child, hchild, hsub⟩ := Option.bind_eq_some_iff.mp hsub
    obtain ⟨hi, rfl⟩ := List.getElem?_eq_some_iff.mp hchild
    have hi' : i < children'.length := hchildren.length_eq ▸ hi
    have hrefines : Refines children[i] children'[i] := hchildren.get hi hi'
    obtain ⟨sub', hsub', hrest⟩ := hrefines path sub hsub hsubv
    refine ⟨sub', ?_, hrest⟩
    rw [EvalNode.subnode?_branch, List.getElem?_eq_getElem hi']
    exact hsub'

/-- Children that all have values have them still. -/
theorem values_eq (h : List.Forall₂ Refines children children')
    (hall : ∀ w ∈ children.map EvalNode.value, w.isUnassessable = false) :
    children'.map EvalNode.value = children.map EvalNode.value := by
  induction h with
  | nil => rfl
  | cons hhead _ ih =>
    rw [List.map_cons, List.map_cons, hhead.value (hall _ (by simp)),
      ih (fun w hw => hall w (List.mem_cons_of_mem _ hw))]

end

/-! ## More facts -/

section

variable {D : Type} [Decimal D] {f g : FactBundle}

/-- The arguments, evaluated on both bundles. -/
theorem evaluateAll_refines {args : List AstNode} {children children' : List EvalNode}
    (ih : ∀ a ∈ args, ∀ ev ev', evaluate D f a = .ok ev → evaluate D g a = .ok ev' → Refines ev ev')
    (h : evaluateAll D f args = .ok children) (h' : evaluateAll D g args = .ok children') :
    List.Forall₂ Refines children children' := by
  rw [evaluateAll_ok] at h h'
  induction h generalizing children' with
  | nil => cases h'; exact .nil
  | cons hhead _ ihrest =>
    cases h' with
    | cons hhead' hrest' =>
      exact .cons (ih _ (by simp) _ _ hhead hhead')
        (ihrest (fun a ha => ih a (List.mem_cons_of_mem _ ha)) hrest')

/-- A value once assessed stays as it is under more facts. -/
theorem evaluate_refines (hext : Extends f g) (n : AstNode) :
    ∀ ev ev', evaluate D f n = .ok ev → evaluate D g n = .ok ev' → Refines ev ev' := by
  induction n using AstNode.induction with
  | lit v =>
    intro ev ev' h h'
    cases h
    cases h'
    exact .refl
  | money amount currency =>
    intro ev ev' h h'
    cases h
    cases h'
    exact .refl
  | fact key =>
    intro ev ev' h h'
    by_cases habsent : f.absent key = true
    · -- absent: nothing is assessed
      rw [FactBundle.absent, decide_eq_true_eq] at habsent
      rcases habsent with hnone | hempty
      · rw [evaluate, hnone] at h
        cases h
        exact .unassessable _
      · rw [evaluate, hempty] at h
        cases h
        exact .unassessable _
    · -- present: the same fact
      rw [Bool.not_eq_true] at habsent
      rw [evaluate, hext key habsent] at h'
      rw [evaluate] at h
      rw [h] at h'
      cases h'
      exact .refl
  | arith op args ih =>
    intro ev ev' h h'
    simp only [evaluate, ExceptOk.bind_eq_ok, ExceptOk.pure_eq_ok] at h h'
    obtain ⟨children, hchildren, v, hv, rfl⟩ := h
    obtain ⟨children', hchildren', v', hv', rfl⟩ := h'
    have hrefines := evaluateAll_refines ih hchildren hchildren'
    refine .branch (fun hassessed => ?_) hrefines
    rw [values_eq hrefines (arithValue_strict hv hassessed), hv] at hv'
    exact (Except.ok.inj hv').symm
  | compare op left right tolerance ihl ihr =>
    intro ev ev' h h'
    simp only [evaluate, ExceptOk.bind_eq_ok, ExceptOk.pure_eq_ok] at h h'
    obtain ⟨l, hl, r, hr, v, hv, rfl⟩ := h
    obtain ⟨l', hl', r', hr', v', hv', rfl⟩ := h'
    have hleft := ihl l l' hl hl'
    have hright := ihr r r' hr hr'
    refine .branch (fun hassessed => ?_) (.cons hleft (.cons hright .nil))
    obtain ⟨hlv, hrv⟩ := compareValue_strict hv hassessed
    rw [hleft.value hlv, hright.value hrv, hv] at hv'
    exact (Except.ok.inj hv').symm
  | logic op args ih =>
    intro ev ev' h h'
    simp only [evaluate, ExceptOk.bind_eq_ok, ExceptOk.pure_eq_ok] at h h'
    obtain ⟨children, hchildren, rfl⟩ := h
    obtain ⟨children', hchildren', rfl⟩ := h'
    have hrefines := evaluateAll_refines ih hchildren hchildren'
    refine .branch (fun hassessed => ?_) hrefines
    obtain ⟨hall, hfirst⟩ := logicValue_strict hassessed
    by_cases hop : op = .not
    · -- `not` looks at its first operand
      obtain ⟨w, rest, hvalues, hw⟩ := hfirst hop
      subst hop
      cases hrefines with
      | nil => cases hvalues
      | cons hhead _ =>
        rw [List.map_cons, List.cons.injEq] at hvalues
        rw [List.map_cons, List.map_cons, hhead.value (hvalues.1 ▸ hw)]
        exact logicValue_not
    · rw [values_eq hrefines (hall hop)]
  | require key thenNode ih =>
    intro ev ev' h h'
    rw [evaluate] at h
    by_cases habsent : f.absent key = true
    · rw [if_pos habsent] at h
      cases h
      exact .unassessable _
    · rw [if_neg habsent] at h
      rw [Bool.not_eq_true] at habsent
      have hpresent : g.absent key = false := by
        rw [← habsent, FactBundle.absent, FactBundle.absent, hext key habsent]
      rw [evaluate, hpresent] at h'
      simp only [Bool.false_eq_true, if_false, ExceptOk.bind_eq_ok, ExceptOk.pure_eq_ok] at h h'
      obtain ⟨child, hchild, rfl⟩ := h
      obtain ⟨child', hchild', rfl⟩ := h'
      have hrefines := ih child child' hchild hchild'
      exact .branch hrefines.value (.cons hrefines .nil)

/-! ## Nothing assessed -/

theorem arithValue_unassessed {op : ArithOp} {values : List EvalValue} {v : EvalValue}
    (h : arithValue D op values = .ok v) (hall : ∀ w ∈ values, w.isUnassessable = true) :
    v.isUnassessable = true := by
  cases values with
  | nil => cases op <;> cases h <;> rfl
  | cons w rest =>
    by_contra hv
    have := arithValue_strict h (by simpa using hv) w (by simp)
    rw [hall w (by simp)] at this
    cases this

theorem compareValue_unassessed {op : CompareOp} {tolerance : Option String} {l r v : EvalValue}
    (h : compareValue D op tolerance l r = .ok v) (hl : l.isUnassessable = true) : v.isUnassessable = true := by
  by_contra hv
  have := (compareValue_strict h (by simpa using hv)).1
  rw [hl] at this
  cases this

theorem logicValue_unassessed {op : LogicOp} {values : List EvalValue} (hne : op ≠ .not → values ≠ [])
    (hall : ∀ w ∈ values, w.isUnassessable = true) : (logicValue op values).isUnassessable = true := by
  by_contra hv
  have hassessed : (logicValue op values).isUnassessable = false := by simpa using hv
  obtain ⟨hevery, hfirst⟩ := logicValue_strict hassessed
  obtain ⟨w, hw, hassessed⟩ : ∃ w ∈ values, w.isUnassessable = false := by
    by_cases hop : op = .not
    · obtain ⟨w, rest, rfl, hw⟩ := hfirst hop
      exact ⟨w, by simp, hw⟩
    · obtain ⟨w, hw⟩ := List.exists_mem_of_ne_nil _ (hne hop)
      exact ⟨w, hw, hevery hop w hw⟩
  rw [hall w hw] at hassessed
  cases hassessed

theorem HasValue.assessed {facts : FactBundle} {m : AstNode} {sub : EvalNode} (h : HasValue D facts m)
    (hsub : evaluate D facts m = .ok sub) : sub.value.isUnassessable = false := by
  cases h with
  | lit v h => cases hsub; exact h
  | money amount currency h => cases hsub; exact h
  | fact key raw found present h =>
    simp only [evaluate, found, present, if_false, Except.ok.injEq] at hsub
    exact hsub ▸ h
  | empty op h =>
    cases hsub
    cases op with
    | not => exact absurd rfl h
    | _ => rfl

/-- A node has no value where nothing it reaches has. -/
theorem unassessed_of_none {facts : FactBundle} (n : AstNode) :
    (¬ ∃ m, Reached facts n m ∧ HasValue D facts m) →
      ∀ ev, evaluate D facts n = .ok ev → ev.value.isUnassessable = true := by
  induction n using AstNode.induction with
  | lit v =>
    intro hnone ev h
    cases h
    exact by_contra fun hv => hnone ⟨_, .refl _, .lit v (by simpa using hv)⟩
  | money amount currency =>
    intro hnone ev h
    cases h
    exact by_contra fun hv => hnone ⟨_, .refl _, .money amount currency (by simpa using hv)⟩
  | fact key =>
    intro hnone ev h
    rw [evaluate] at h
    split at h
    · cases h
      rfl
    · rename_i raw hraw
      split at h
      · cases h
        rfl
      · rename_i hpresent
        cases h
        exact by_contra fun hv => hnone ⟨_, .refl _, .fact key raw hraw hpresent (by simpa using hv)⟩
  | arith op args ih =>
    intro hnone ev h
    simp only [evaluate, ExceptOk.bind_eq_ok, ExceptOk.pure_eq_ok] at h
    obtain ⟨children, hchildren, v, hv, rfl⟩ := h
    refine arithValue_unassessed hv fun w hw => ?_
    obtain ⟨child, hchild, rfl⟩ := List.mem_map.mp hw
    obtain ⟨a, ha, heval⟩ := (evaluateAll_mem hchildren).2 child hchild
    refine ih a ha ?_ child heval
    rintro ⟨m, hm, hvalue⟩
    exact hnone ⟨m, .arith op args a m ha hm, hvalue⟩
  | compare op left right tolerance ihl _ =>
    intro hnone ev h
    simp only [evaluate, ExceptOk.bind_eq_ok, ExceptOk.pure_eq_ok] at h
    obtain ⟨l, hl, r, -, v, hv, rfl⟩ := h
    refine compareValue_unassessed hv (ihl ?_ l hl)
    rintro ⟨m, hm, hvalue⟩
    exact hnone ⟨m, .left op left right tolerance m hm, hvalue⟩
  | logic op args ih =>
    intro hnone ev h
    simp only [evaluate, ExceptOk.bind_eq_ok, ExceptOk.pure_eq_ok] at h
    obtain ⟨children, hchildren, rfl⟩ := h
    refine logicValue_unassessed (fun hop hnil => ?_) fun w hw => ?_
    · have hforall := evaluateAll_ok.mp hchildren
      rw [List.map_eq_nil_iff.mp hnil, List.forall₂_nil_right_iff] at hforall
      subst hforall
      exact hnone ⟨_, .refl _, .empty op hop⟩
    · obtain ⟨child, hchild, rfl⟩ := List.mem_map.mp hw
      obtain ⟨a, ha, heval⟩ := (evaluateAll_mem hchildren).2 child hchild
      refine ih a ha ?_ child heval
      rintro ⟨m, hm, hvalue⟩
      exact hnone ⟨m, .logic op args a m ha hm, hvalue⟩
  | require key thenNode ih =>
    intro hnone ev h
    rw [evaluate] at h
    by_cases habsent : facts.absent key = true
    · rw [if_pos habsent] at h
      cases h
      rfl
    · rw [if_neg habsent] at h
      simp only [ExceptOk.bind_eq_ok, ExceptOk.pure_eq_ok] at h
      obtain ⟨child, hchild, rfl⟩ := h
      refine ih ?_ child hchild
      rintro ⟨m, hm, hvalue⟩
      exact hnone ⟨m, .require key thenNode m (by simpa using habsent) hm, hvalue⟩

/-- Evaluation leaves no subexpression assessed exactly if it reads nothing that has a value. -/
theorem unassessed_iff {facts : FactBundle} {n : AstNode} {ev : EvalNode} (h : evaluate D facts n = .ok ev) :
    (∀ path sub, ev.subnode? path = some sub → sub.value.isUnassessable = true) ↔ ¬ Assesses D facts n := by
  rw [forall_subnode_iff h]
  constructor
  · rintro hall ⟨m, hm, hvalue⟩
    obtain ⟨-, sub, -, hsub⟩ := hm.subnode h
    have := hall m hm sub hsub
    rw [hvalue.assessed hsub] at this
    cases this
  · intro hnone m hm sub hsub
    refine unassessed_of_none m ?_ sub hsub
    rintro ⟨k, hk, hvalue⟩
    exact hnone ⟨k, hm.trans hk, hvalue⟩

/-! ## What more facts can lose -/

theorem verdict_assessed {ev : EvalNode} (h : verdict ev ≠ .UNASSESSABLE) : ev.value.isUnassessable = false := by
  unfold verdict at h
  cases hv : ev.value with
  | unassessable r => rw [hv] at h; exact absurd rfl h
  | _ => rfl

/-- Over a bundle and an extension of it: everything decided is kept, exactly unless evaluation comes
upon a malformed tolerance for the first time, after it has assessed something. -/
theorem kept_iff (D : Type) [Decimal D] (f g : FactBundle) (hext : Extends f g) (n : AstNode) :
    Kept D f g n ↔
      (ReachesMalformedTolerance D g n → ReachesMalformedTolerance D f n ∨ ¬ Assesses D f n) := by
  simp only [← throws_iff]
  constructor
  · rintro ⟨-, hvalues⟩ ⟨e, hthrow⟩
    cases hev : evaluate D f n with
    | error e' => exact .inl ⟨e', hev⟩
    | ok ev =>
      refine .inr fun hassessed => ?_
      -- the assessed subexpression would be evaluated under `g` too
      have hsome := (not_congr (unassessed_iff hev)).mpr (not_not.mpr hassessed)
      push Not at hsome
      obtain ⟨path, sub, hsub, hv⟩ := hsome
      obtain ⟨ev', -, hok, -⟩ := hvalues ev hev path sub hsub (by simpa using hv)
      rw [hthrow] at hok
      cases hok
  · intro hcond
    have hvalues : ∀ ev, evaluate D f n = .ok ev → ∀ path sub, ev.subnode? path = some sub →
        sub.value.isUnassessable = false → ∃ ev' sub', evaluate D g n = .ok ev' ∧
          ev'.subnode? path = some sub' ∧ sub'.node = sub.node ∧ sub'.value = sub.value := by
      intro ev hev path sub hsub hv
      cases hev' : evaluate D g n with
      | error e =>
        rcases hcond ⟨e, hev'⟩ with ⟨e', hthrow⟩ | hnone
        · rw [hev] at hthrow
          cases hthrow
        · have := (unassessed_iff hev).mpr hnone path sub hsub
          rw [hv] at this
          cases this
      | ok ev' =>
        obtain ⟨sub', hsub', hnode, hvalue⟩ := evaluate_refines hext n ev ev' hev hev' path sub hsub hv
        exact ⟨ev', sub', rfl, hsub', hnode, hvalue⟩
    refine ⟨fun ev hev hverdict => ?_, hvalues⟩
    obtain ⟨ev', sub', hev', hsub', -, hvalue⟩ := hvalues ev hev [] ev (by simp) (verdict_assessed hverdict)
    rw [EvalNode.subnode?_nil, Option.some.injEq] at hsub'
    exact ⟨ev', hev', by rw [verdict, verdict, hsub', hvalue]⟩

end

/-! ## Two extensions -/

/-- The facts of a list. -/
def factsOf (l : List (String × FactValue)) : FactBundle := fun key => l.lookup key

theorem extends_nil (l : List (String × FactValue)) : Extends (factsOf []) (factsOf l) := by
  intro key h
  cases h

/-- A comparison that needs a fact, next to one that does not. -/
def requiredComparison : AstNode :=
  .logic .not [.compare .eq (.lit (.string "a")) (.lit (.string "b")) none, .fact "x"]

theorem requiredComparison_kept :
    Kept Ref (factsOf []) (factsOf [("x", .boolean true)]) requiredComparison := by
  refine (kept_iff Ref _ _ (extends_nil _) requiredComparison).mpr fun h => ?_
  rw [← throws_iff] at h
  obtain ⟨e, he⟩ := h
  have hok : (evaluate Ref (factsOf [("x", .boolean true)]) requiredComparison).isOk = true := by decide +kernel
  rw [he] at hok
  cases hok

/-- The second operand of `not`, which plays no part in its value, compares under a tolerance that is
no number. -/
def strayComparison : AstNode :=
  .logic .not [.lit (.boolean false), .compare .approx (.fact "x") (.fact "x") (some "a cent")]

/-- Without the fact the verdict is PASS; with it evaluation throws. -/
theorem strayComparison_lost :
    Extends (factsOf []) (factsOf [("x", .decimal "1")]) ∧
      ¬ Kept Ref (factsOf []) (factsOf [("x", .decimal "1")]) strayComparison := by
  refine ⟨extends_nil _, fun h => ?_⟩
  have hthrow : (evaluate Ref (factsOf [("x", .decimal "1")]) strayComparison).isOk = false := by decide +kernel
  obtain ⟨ev, hev⟩ : ∃ ev, evaluate Ref (factsOf []) strayComparison = .ok ev := ⟨_, rfl⟩
  have hpass : verdict ev = .PASS := by
    cases hev
    rfl
  obtain ⟨ev', hok, -⟩ := h.verdict ev hev (by rw [hpass]; simp)
  rw [hok] at hthrow
  cases hthrow

end RuleEngine
