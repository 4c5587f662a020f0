import FreightAuditor.Library.Json

/- JSON values written, stored and read back.

   `object` drops the fields that are undefined, as `JSON.stringify` does. A store may hand a value
   back with the fields of its objects in another order (`reorder`): neither the canonical text
   (`sortKeys_reorder`) nor a field that is read (`get?_reorder`) depends on it. A schema is a
   function from values to what it accepts; `field`, `field?`, `nullable`, `array` and `strict`
   build one. -/
namespace Json

/-! ## Objects with undefined fields -/

/-- An object written from fields some of which are undefined. -/
def object (fields : List (String × Option Value)) : Value :=
  .obj (fields.filterMap fun f => f.2.map (f.1, ·))

@[simp] theorem get?_object_nil (key : String) : (object []).get? key = none := rfl

@[simp] theorem get?_object_cons (key k : String) (v : Option Value) (rest : List (String × Option Value)) :
    (object ((k, v) :: rest)).get? key = if key = k then v.or ((object rest).get? key) else (object rest).get? key := by
  cases v with
  | none =>
    simp only [object, Value.get?, List.filterMap_cons, Option.map_none, Option.none_or, ite_self]
  | some v =>
    simp only [object, Value.get?, List.filterMap_cons, Option.map_some, List.lookup_cons, Option.some_or]
    by_cases h : key = k
    · rw [if_pos h, beq_iff_eq.mpr h]
    · rw [if_neg h, beq_eq_false_iff_ne.mpr h]

/-- The canonical form of an object is that of its fields. -/
theorem sortKeys_object (fields : List (String × Option Value)) :
    sortKeys (object fields) = .obj (((fields.map fun f => (f.1, f.2.map sortKeys)).filterMap
      fun f => f.2.map (f.1, ·)).insertionSort keyLe) := by
  have hfields (l : List (String × Option Value)) : sortFields (l.filterMap fun f => f.2.map (f.1, ·)) =
      (l.map fun f => (f.1, f.2.map sortKeys)).filterMap fun f => f.2.map (f.1, ·) := by
    induction l with
    | nil => rfl
    | cons f l ih =>
      obtain ⟨k, _ | v⟩ := f
      · exact ih
      · exact congrArg ((k, sortKeys v) :: ·) ih
  rw [object, sortKeys, hfields]

/-! ## Another order of the fields -/

theorem orderedInsert_comm {f g : String × Value} (hne : f.1 ≠ g.1) (l : List (String × Value)) :
    (l.orderedInsert keyLe g).orderedInsert keyLe f = (l.orderedInsert keyLe f).orderedInsert keyLe g := by
  have htotal (a b : String × Value) (h : ¬ keyLe a b) : keyLe b a := (String.le_total a.1 b.1).resolve_left h
  have htrans {a b c : String × Value} (hab : keyLe a b) (hbc : keyLe b c) : keyLe a c := String.le_trans hab hbc
  have hasymm : ¬ (keyLe f g ∧ keyLe g f) := fun h => hne (String.le_antisymm h.1 h.2)
  induction l with
  | nil =>
    simp only [List.orderedInsert_nil, List.orderedInsert_cons]
    grind
  | cons e l ih =>
    simp only [List.orderedInsert_cons]
    grind

section

variable (r : String → String → Prop) [DecidableRel r]

def fieldLe (f g : String × Value) : Prop := r f.1 g.1

instance : DecidableRel (fieldLe r) := fun f g => inferInstanceAs (Decidable (r f.1 g.1))

mutual

/-- The fields of every object in the order of `r`. -/
def reorder : Value → Value
  | .arr elems => .arr (reorderElems elems)
  | .obj fields => .obj ((reorderFields fields).insertionSort (fieldLe r))
  | v => v

def reorderElems : List Value → List Value
  | [] => []
  | v :: rest => reorder v :: reorderElems rest

def reorderFields : List (String × Value) → List (String × Value)
  | [] => []
  | (k, v) :: rest => (k, reorder v) :: reorderFields rest

end

theorem reorderElems_eq_map (l : List Value) : reorderElems r l = l.map (reorder r) := by
  induction l with
  | nil => rfl
  | cons v rest ih => rw [reorderElems, ih, List.map_cons]

theorem reorderFields_eq_map (l : List (String × Value)) :
    reorderFields r l = l.map fun f => (f.1, reorder r f.2) := by
  induction l with
  | nil => rfl
  | cons f rest ih => rw [reorderFields, ih, List.map_cons]

variable {r}

omit [DecidableRel r] in
theorem fieldLe_of_eq (hr : ∀ k, r k k) (f g : String × Value) (h : f.1 = g.1) : fieldLe r f g := by
  rw [fieldLe, h]
  exact hr _

variable (hr : ∀ k, r k k)

include hr

/-- Fields with one key keep their order, so that sorting by key after `r` is sorting by key. -/
theorem insertionSort_insertionSort (l : List (String × Value)) :
    (l.insertionSort (fieldLe r)).insertionSort keyLe = l.insertionSort keyLe := by
  have hinsert (f : String × Value) (m : List (String × Value)) :
      (m.orderedInsert (fieldLe r) f).insertionSort keyLe = (m.insertionSort keyLe).orderedInsert keyLe f := by
    induction m with
    | nil => rfl
    | cons g m ih =>
      rw [List.orderedInsert_cons]
      split
      · rfl
      · rename_i hle
        rw [List.insertionSort_cons, ih, List.insertionSort_cons,
          orderedInsert_comm fun h => hle (fieldLe_of_eq hr _ _ h.symm)]
  induction l with
  | nil => rfl
  | cons f l ih => rw [List.insertionSort_cons, hinsert, ih, List.insertionSort_cons]

/-- The canonical form does not depend on the order of fields. -/
theorem sortKeys_reorder (v : Value) : sortKeys (reorder r v) = sortKeys v := by
  induction v using Value.induction with
  | null => rfl
  | bool => rfl
  | num => rfl
  | str => rfl
  | arr elems ih =>
    rw [reorder, sortKeys, sortKeys, reorderElems_eq_map, sortElems_eq_map, sortElems_eq_map, List.map_map]
    exact congrArg Value.arr (List.map_congr_left ih)
  | obj fields ih =>
    have hsorted : ((reorderFields r fields).map fun f => (f.1, sortKeys f.2)) =
        fields.map fun f => (f.1, sortKeys f.2) := by
      rw [reorderFields_eq_map, List.map_map]
      exact List.map_congr_left fun f hf => by rw [Function.comp_apply, ih f hf]
    have hmap (l : List (String × Value)) : (l.insertionSort (fieldLe r)).map (fun f => (f.1, sortKeys f.2)) =
        (l.map fun f => (f.1, sortKeys f.2)).insertionSort (fieldLe r) :=
      List.map_insertionSort _ _ (fun f : String × Value => (f.1, sortKeys f.2)) l fun _ _ _ _ => Iff.rfl
    rw [reorder, sortKeys, sortKeys, sortFields_eq_map, sortFields_eq_map, hmap, insertionSort_insertionSort hr,
      hsorted]

theorem canonicalText_reorder (v : Value) : canonicalText (reorder r v) = canonicalText v := by
  rw [canonicalText, sortKeys_reorder hr, canonicalText]

@[simp] theorem get?_reorder (key : String) (v : Value) : (reorder r v).get? key = (v.get? key).map (reorder r) := by
  have hmap (l : List (String × Value)) :
      (l.map fun f => (f.1, reorder r f.2)).lookup key = (l.lookup key).map (reorder r) := by
    induction l with
    | nil => rfl
    | cons f l ih =>
      rw [List.map_cons, List.lookup_cons, List.lookup_cons, ih]
      split <;> rfl
  cases v with
  | obj fields => rw [reorder, Value.get?, lookup_insertionSort (fieldLe_of_eq hr), reorderFields_eq_map, hmap, Value.get?]
  | _ => rfl

omit hr in
theorem all_reorder (p : String → Bool) (l : List (String × Value)) :
    ((reorderFields r l).insertionSort (fieldLe r)).all (fun f => p f.1) = l.all fun f => p f.1 := by
  have hperm := (List.perm_insertionSort (fieldLe r) (reorderFields r l)).all_eq (f := fun f => p f.1)
  rw [hperm, reorderFields_eq_map, List.all_map]
  rfl

end

/-! ## Schemas -/

section

variable {α : Type}

/-- A field that must be there. -/
def field (key : String) (schema : Value → Option α) (v : Value) : Option α := (v.get? key).bind schema

/-- A field that may be missing. -/
def field? (key : String) (schema : Value → Option α) (v : Value) : Option (Option α) :=
  match v.get? key with
  | none => some none
  | some w => (schema w).map some

def nullable (schema : Value → Option α) : Value → Option (Option α)
  | .null => some none
  | v => (schema v).map some

def array (schema : Value → Option α) : Value → Option (List α)
  | .arr elems => elems.mapM schema
  | _ => none

def boolean? : Value → Option Bool
  | .bool b => some b
  | _ => none

/-- An object with these fields only. -/
def strict (keys : List String) : Value → Bool
  | .obj fields => fields.all fun f => keys.contains f.1
  | _ => false

end

theorem strict_object {keys : List String} {fields : List (String × Option Value)}
    (h : (fields.map Prod.fst).all keys.contains = true) : strict keys (object fields) = true := by
  refine List.all_eq_true.mpr fun e he => ?_
  obtain ⟨f, hf, hmap⟩ := List.mem_filterMap.mp he
  obtain ⟨v, -, rfl⟩ := Option.map_eq_some_iff.mp hmap
  exact List.all_eq_true.mp h f.1 (List.mem_map_of_mem hf)

/-- A map under which every field of an object reads as before. -/
structure Fieldwise (f : Value → Value) : Prop where
  get? : ∀ key v, (f v).get? key = (v.get? key).map f
  null : f .null = .null
  bool : ∀ b, f (.bool b) = .bool b
  num : ∀ t, f (.num t) = .num t
  str : ∀ s, f (.str s) = .str s
  arr : ∀ l, f (.arr l) = .arr (l.map f)
  strict : ∀ keys v, strict keys (f v) = strict keys v

theorem fieldwise_id : Fieldwise id where
  get? key v := by rw [Option.map_id, id, id]
  null := rfl
  bool _ := rfl
  num _ := rfl
  str _ := rfl
  arr l := by rw [List.map_id, id]
  strict _ _ := rfl

theorem fieldwise_reorder {r : String → String → Prop} [DecidableRel r] (hr : ∀ k, r k k) : Fieldwise (reorder r) where
  get? := get?_reorder hr
  null := rfl
  bool _ := rfl
  num _ := rfl
  str _ := rfl
  arr l := by rw [reorder, reorderElems_eq_map]
  strict keys v := by
    cases v with
    | obj fields => exact all_reorder (fun k => keys.contains k) fields
    | _ => rfl

namespace Fieldwise

variable {α β : Type} {f : Value → Value} (hf : Fieldwise f)

include hf

theorem array {schema : Value → Option α} {g : β → Value} {h : β → α} {l : List β}
    (hl : ∀ b ∈ l, schema (f (g b)) = some (h b)) : Json.array schema (f (.arr (l.map g))) = some (l.map h) := by
  rw [hf.arr, Json.array, List.map_map]
  induction l with
  | nil => rfl
  | cons b l ih =>
    have hb := hl b List.mem_cons_self
    have hrest := ih fun c hc => hl c (List.mem_cons_of_mem _ hc)
    simp only [List.map_cons, List.mapM_cons, Function.comp_apply, hb, hrest]
    rfl

theorem strings (l : List String) : Json.array Value.text? (f (.arr (l.map .str))) = some l := by
  have hread : ∀ s ∈ l, Value.text? (f (.str s)) = some (id s) := fun s _ => congrArg Value.text? (hf.str s)
  rw [hf.array hread, List.map_id]

theorem field {schema : Value → Option α} {v w : Value} {key : String} (h : v.get? key = some w) :
    Json.field key schema (f v) = schema (f w) := by
  rw [Json.field, hf.get?, h, Option.map_some, Option.bind_some]

theorem field? {schema : Value → Option α} {g : α → Value} {v : Value} {key : String} {a : Option α}
    (h : v.get? key = a.map g) (hread : ∀ x ∈ a, schema (f (g x)) = some x) :
    Json.field? key schema (f v) = some a := by
  rw [Json.field?, hf.get?, h]
  cases a with
  | none => rfl
  | some a => simp only [Option.map_some, hread a rfl]

theorem field_str {v : Value} {key s : String} (h : v.get? key = some (.str s)) :
    Json.field key Value.text? (f v) = some s := by
  rw [hf.field h, hf.str]
  rfl

theorem field?_str {v : Value} {key : String} {s : Option String} (h : v.get? key = s.map .str) :
    Json.field? key Value.text? (f v) = some s :=
  hf.field? h fun t _ => congrArg Value.text? (hf.str t)

theorem field_bool {v : Value} {key : String} {b : Bool} (h : v.get? key = some (.bool b)) :
    Json.field key boolean? (f v) = some b := by
  rw [hf.field h, hf.bool]
  rfl

theorem field?_bool {v : Value} {key : String} {b : Option Bool} (h : v.get? key = b.map .bool) :
    Json.field? key boolean? (f v) = some b :=
  hf.field? h fun b _ => congrArg boolean? (hf.bool b)

theorem field?_strings {v : Value} {key : String} {l : Option (List String)}
    (h : v.get? key = l.map fun l => .arr (l.map .str)) : Json.field? key (Json.array Value.text?) (f v) = some l :=
  hf.field? h fun l _ => hf.strings l

theorem nullable_str (s : Option String) : nullable Value.text? (f ((s.map Value.str).getD .null)) = some s := by
  cases s with
  | none => rw [Option.map_none, Option.getD_none, hf.null, Json.nullable]
  | some s =>
    rw [Option.map_some, Option.getD_some, hf.str]
    rfl

end Fieldwise

end Json
