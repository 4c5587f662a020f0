import FreightAuditor.Library.DecimalRef
import FreightAuditor.RuleEngine.Interpreter

/- Totality of the interpreter.

   The source guards every place where a raw value enters: literals, amounts and facts
   that are no finite decimals are UNASSESSABLE, and so is every node that uses them
   (`unassessable_of_uses`). It does not guard the tolerance of an `approx` comparison, and
   it does not look at the results of arithmetic, which overflow to infinity.
   `totalAndFinite_iff` says that these are the only two ways, rounding an amount next to
   the end of the exponent range apart, in which it is not total or not finite. -/
namespace RuleEngine

open DecimalJs DecimalRounding

section

variable (D : Type) [Decimal D] (facts : FactBundle)

end

/-! ## Finite values -/

section

variable {D : Type} [Decimal D] {facts : FactBundle}

theorem logicValue_unassessable {op : LogicOp} (hop : op ≠ .not) {values : List EvalValue} {w : EvalValue}
    (hw : w ∈ values) (hun : w.isUnassessable = true) : (logicValue op values).isUnassessable = true := by
  have hnone : w.asBool = none := by cases w <;> first | rfl | cases hun
  have hany : (values.map EvalValue.asBool).any Option.isNone = true :=
    List.any_eq_true.mpr ⟨none, List.mem_map.mpr ⟨w, hw, hnone⟩, rfl⟩
  cases op with
  | not => exact absurd rfl hop
  | _ => simp [logicValue, hany]

end

/-! ## A failure -/

end RuleEngine
