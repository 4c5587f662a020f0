import Mathlib.Logic.Relation
import FreightAuditor.Library.Json

/- One JSON value with its keys in other orders. -/
namespace Json

/-- The keys of one object, at the root or below it, in another order. An object has each key once. -/
inductive Reordered : Value → Value → Prop
  | fields {fields fields' : List (String × Value)} :
      (fields.map Prod.fst).Nodup → fields'.Perm fields → Reordered (.obj fields) (.obj fields')
  | elem {v v' : Value} {front back : List Value} :
      Reordered v v' → Reordered (.arr (front ++ v :: back)) (.arr (front ++ v' :: back))
  | field {key : String} {v v' : Value} {front back : List (String × Value)} :
      Reordered v v' → Reordered (.obj (front ++ (key, v) :: back)) (.obj (front ++ (key, v') :: back))

/-- The value as it comes in any order of its keys. -/
def Respelled : Value → Value → Prop := Relation.ReflTransGen Reordered

theorem Reordered.sortKeys_eq {v v' : Value} (h : Reordered v v') : sortKeys v' = sortKeys v := by
  induction h with
  | fields hnodup hperm => exact sortKeys_obj_perm hperm hnodup
  | elem _ ih =>
    rw [sortKeys, sortKeys, sortElems_eq_map, sortElems_eq_map, List.map_append, List.map_append, List.map_cons,
      List.map_cons, ih]
  | field _ ih =>
    rw [sortKeys, sortKeys, sortFields_eq_map, sortFields_eq_map, List.map_append, List.map_append, List.map_cons,
      List.map_cons, ih]

/-- The canonical text does not show the order of the keys. -/
theorem Respelled.canonicalText_eq {v v' : Value} (h : Respelled v v') : canonicalText v' = canonicalText v := by
  rw [canonicalText_inj]
  induction h with
  | refl => rfl
  | tail _ hstep ih => rw [hstep.sortKeys_eq, ih]

end Json
