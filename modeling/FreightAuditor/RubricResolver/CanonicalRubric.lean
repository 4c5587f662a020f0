import Mathlib.Logic.Relation
import FreightAuditor.Library.Collation
import FreightAuditor.Library.DecimalRef
import FreightAuditor.Library.ExceptOk
import FreightAuditor.Library.Json
import FreightAuditor.Library.JsText

/- The canonical form of a resolved rubric document.

   `normalize` puts the keys of every object in order, sorts the arrays under a set-like key
   by the text of their items, and writes a decimal in plain notation. The sort compares by
   a collation, the text that is hashed by characters.

   `Rewrite` says what is meant to make no difference: the order of keys, the order of the
   items of a set-like array, the spelling of a decimal. A normal form is reached from its
   document by such rewrites (`normalize_reaches`), so that documents of one text are related by
   them; and no rewrite is seen in it, as long as no two items of a set-like array are
   different and equal for the collation (`normalize_rewrite`). -/
namespace RubricResolver

open DecimalJs ExceptOk Json StableSort

/-- `toFixed()` of a number as it was read. -/
class PlainText (D : Type) [Decimal D] where
  /-- `none` where the text is too long for a string. -/
  toPlain : D → Option String
  toPlain_reads : ∀ d t, toPlain d = some t → ∃ d' : D, Decimal.ofString t = some d' ∧ Decimal.val d' = Decimal.val d
  toPlain_congr : ∀ a b, Decimal.val a = Decimal.val b → toPlain a = toPlain b

/-- Its code is `RESOLVED_RUBRIC_DOCUMENT_INVALID`. -/
inductive ResolvedRubricDocumentError where
  | invalid
  deriving DecidableEq

def setLikeKeys : List String := ["criteria", "members", "ruleVersions", "humanOverrides", "conflicts"]

def isSetLike (key : String) : Bool := setLikeKeys.contains key

/-! ## Normalization -/

section

variable (D : Type) [Decimal D] [PlainText D] (localeCompare : String → String → Ordering)

/-- The text of an object whose only key is `decimal`. -/
def decimalText? : List (String × Value) → Option String
  | [(key, .str text)] => if key = "decimal" then some text else none
  | _ => none

def normalDecimal (text : String) : Except ResolvedRubricDocumentError Value :=
  match (Decimal.ofString text : Option D).bind PlainText.toPlain with
  | some plain => .ok (.obj [("decimal", .str plain)])
  | none => .error .invalid

def compareTexts (a b : Value) : Ordering :=
  localeCompare (String.ofList (canonicalText a)) (String.ofList (canonicalText b))

mutual

/-- `normalize`; `setLike` says that the value is held under a set-like key. -/
def normalize (setLike : Bool) : Value → Except ResolvedRubricDocumentError Value
  | .arr elems => do
    let items ← normalizeElems elems
    return .arr (if setLike then sort (compareTexts localeCompare) items else items)
  | .obj fields =>
    match decimalText? fields with
    | some text => normalDecimal D text
    | none => do
      let normalized ← normalizeFields fields
      return .obj (normalized.insertionSort keyLe)
  | v => return v

def normalizeElems : List Value → Except ResolvedRubricDocumentError (List Value)
  | [] => return []
  | v :: rest => do
    let first ← normalize false v
    let others ← normalizeElems rest
    return first :: others

def normalizeFields : List (String × Value) → Except ResolvedRubricDocumentError (List (String × Value))
  | [] => return []
  | (key, v) :: rest => do
    let first ← normalize (isSetLike key) v
    let others ← normalizeFields rest
    return (key, first) :: others

end

/-! ## The document -/

def isRecord : Value → Bool
  | .obj _ => true
  | _ => false

/-- `z.literal(1)`. -/
def isSchemaVersion : Option Value → Bool
  | some (.num t) => t.chars == ['1']
  | _ => false

/-- `z.string().trim().min(1)`. -/
def isResolverVersion : Option Value → Bool
  | some (.str s) => JsText.trim s ≠ ""
  | _ => false

/-- An array of records. -/
def isCriteria : Option Value → Bool
  | some (.arr elems) => elems.all isRecord
  | _ => false

def isDocument (fields : List (String × Value)) : Bool :=
  isSchemaVersion (fields.lookup "schemaVersion") && isResolverVersion (fields.lookup "resolverVersion") &&
    isCriteria (fields.lookup "criteria")

def trimText : Value → Value
  | .str s => .str (JsText.trim s)
  | v => v

def trimResolver (f : String × Value) : String × Value :=
  if f.1 = "resolverVersion" then (f.1, trimText f.2) else f

/-- `DocumentSchema.parse`. -/
def parseDocument : Value → Except ResolvedRubricDocumentError Value
  | .obj fields => if isDocument fields then .ok (.obj (fields.map trimResolver)) else .error .invalid
  | _ => .error .invalid

structure CanonicalRubric where
  document : Value
  json : String
  contentHash : String

def canonicalizeResolvedRubricDocument (sha256 : String → String) (untrusted : Value) :
    Except ResolvedRubricDocumentError CanonicalRubric := do
  let parsed ← parseDocument untrusted
  let normalized ← normalize D localeCompare false parsed
  let document ← parseDocument normalized
  let json := String.ofList (canonicalText document)
  return ⟨document, json, sha256 json⟩

end

/-! ## What is meant to make no difference -/

/-- One rewrite, at the root or below it, of a value that is or is not held under a set-like key. -/
inductive Rewrite (D : Type) [Decimal D] : Bool → Value → Value → Prop
  | fields {setLike : Bool} {fields fields' : List (String × Value)} :
      fields.Perm fields' → Rewrite D setLike (.obj fields) (.obj fields')
  | items {elems elems' : List Value} : elems.Perm elems' → Rewrite D true (.arr elems) (.arr elems')
  | decimal {setLike : Bool} {text text' : String} {d d' : D} :
      Decimal.ofString text = some d → Decimal.ofString text' = some d' → Decimal.val d = Decimal.val d' →
        Rewrite D setLike (.obj [("decimal", .str text)]) (.obj [("decimal", .str text')])
  | elem {setLike : Bool} {v v' : Value} {front back : List Value} :
      Rewrite D false v v' → Rewrite D setLike (.arr (front ++ v :: back)) (.arr (front ++ v' :: back))
  | field {setLike : Bool} {key : String} {v v' : Value} {front back : List (String × Value)} :
      Rewrite D (isSetLike key) v v' →
        Rewrite D setLike (.obj (front ++ (key, v) :: back)) (.obj (front ++ (key, v') :: back))

/-- The objects of a value have each key once. -/
inductive DistinctKeys : Value → Prop
  | null : DistinctKeys .null
  | bool (b : Bool) : DistinctKeys (.bool b)
  | num (t : DecimalText.NumberText) : DistinctKeys (.num t)
  | str (s : String) : DistinctKeys (.str s)
  | arr {elems : List Value} : (∀ v ∈ elems, DistinctKeys v) → DistinctKeys (.arr elems)
  | obj {fields : List (String × Value)} :
      (fields.map Prod.fst).Nodup → (∀ f ∈ fields, DistinctKeys f.2) → DistinctKeys (.obj fields)

/-- In no set-like array are there two items of different texts that the collation calls equal. -/
inductive Decided (localeCompare : String → String → Ordering) : Bool → Value → Prop
  | null {setLike : Bool} : Decided localeCompare setLike .null
  | bool {setLike : Bool} (b : Bool) : Decided localeCompare setLike (.bool b)
  | num {setLike : Bool} (t : DecimalText.NumberText) : Decided localeCompare setLike (.num t)
  | str {setLike : Bool} (s : String) : Decided localeCompare setLike (.str s)
  | arr {setLike : Bool} {elems : List Value} :
      (∀ v ∈ elems, Decided localeCompare false v) →
      (setLike = true → ∀ v ∈ elems, ∀ w ∈ elems, compareTexts localeCompare v w = .eq → canonicalText v = canonicalText w) →
        Decided localeCompare setLike (.arr elems)
  | obj {setLike : Bool} {fields : List (String × Value)} :
      (∀ f ∈ fields, Decided localeCompare (isSetLike f.1) f.2) → Decided localeCompare setLike (.obj fields)

/-! ## Rewrites -/

section

variable {D : Type} [Decimal D] {setLike : Bool}

theorem Rewrite.symm {v v' : Value} (h : Rewrite D setLike v v') : Rewrite D setLike v' v := by
  induction h with
  | fields hperm => exact .fields hperm.symm
  | items hperm => exact .items hperm.symm
  | decimal hd hd' hval => exact .decimal hd' hd hval.symm
  | elem _ ih => exact .elem ih
  | field _ ih => exact .field ih

theorem Rewrite.distinctKeys {v v' : Value} (h : Rewrite D setLike v v') (hv : DistinctKeys v) :
    DistinctKeys v' := by
  induction h with
  | fields hperm =>
    cases hv with
    | obj hnodup hall => exact .obj ((hperm.map _).nodup_iff.mp hnodup) fun f hf => hall f (hperm.mem_iff.mpr hf)
  | items hperm =>
    cases hv with
    | arr hall => exact .arr fun v hv => hall v (hperm.mem_iff.mpr hv)
  | decimal hd hd' hval =>
    exact .obj (List.nodup_singleton _) (List.forall_mem_singleton.mpr (.str _))
  | elem _ ih =>
    cases hv with
    | arr hall =>
      rw [List.forall_mem_append, List.forall_mem_cons] at hall
      exact .arr (List.forall_mem_append.mpr ⟨hall.1, List.forall_mem_cons.mpr ⟨ih hall.2.1, hall.2.2⟩⟩)
  | field _ ih =>
    cases hv with
    | obj hnodup hall =>
      rw [List.forall_mem_append, List.forall_mem_cons] at hall
      rw [List.map_append, List.map_cons] at hnodup
      refine .obj ?_ (List.forall_mem_append.mpr ⟨hall.1, List.forall_mem_cons.mpr ⟨ih hall.2.1, hall.2.2⟩⟩)
      rw [List.map_append, List.map_cons]
      exact hnodup

/-- A rewritten value has a key and no text, so it is no decimal. -/
theorem Rewrite.ne_str {v v' : Value} (h : Rewrite D setLike v v') (s : String) : v ≠ .str s := by
  cases h <;> exact fun h => by cases h

theorem elem_rewrites {v v' : Value} (front back : List Value) (h : Relation.EqvGen (Rewrite D false) v v') :
    Relation.EqvGen (Rewrite D setLike) (.arr (front ++ v :: back)) (.arr (front ++ v' :: back)) := by
  induction h with
  | rel v v' h => exact .rel _ _ (.elem h)
  | refl v => exact .refl _
  | symm v v' _ ih => exact .symm _ _ ih
  | trans u v w _ _ ihu ihv => exact .trans _ _ _ ihu ihv

theorem field_rewrites {key : String} {v v' : Value} (front back : List (String × Value))
    (h : Relation.EqvGen (Rewrite D (isSetLike key)) v v') :
    Relation.EqvGen (Rewrite D setLike) (.obj (front ++ (key, v) :: back)) (.obj (front ++ (key, v') :: back)) := by
  induction h with
  | rel v v' h => exact .rel _ _ (.field h)
  | refl v => exact .refl _
  | symm v v' _ ih => exact .symm _ _ ih
  | trans u v w _ _ ihu ihv => exact .trans _ _ _ ihu ihv

theorem elems_rewrite {elems items : List Value} (h : List.Forall₂ (Relation.EqvGen (Rewrite D false)) elems items) :
    ∀ front, Relation.EqvGen (Rewrite D setLike) (.arr (front ++ elems)) (.arr (front ++ items)) := by
  induction h with
  | nil => exact fun _ => .refl _
  | @cons e i elems items hei _ ih =>
    intro front
    have hrest := ih (front ++ [i])
    rw [List.append_assoc, List.append_assoc] at hrest
    exact .trans _ _ _ (elem_rewrites front elems hei) hrest

theorem fields_rewrite {fields normalized : List (String × Value)}
    (h : List.Forall₂ (fun f g => f.1 = g.1 ∧ Relation.EqvGen (Rewrite D (isSetLike f.1)) f.2 g.2) fields normalized) :
    ∀ front, Relation.EqvGen (Rewrite D setLike) (.obj (front ++ fields)) (.obj (front ++ normalized)) := by
  induction h with
  | nil => exact fun _ => .refl _
  | @cons f g fields normalized hfg _ ih =>
    intro front
    have hrest := ih (front ++ [g])
    rw [List.append_assoc, List.append_assoc] at hrest
    obtain ⟨key, v⟩ := f
    obtain ⟨key', v'⟩ := g
    obtain ⟨rfl, hv⟩ := hfg
    exact .trans _ _ _ (field_rewrites front fields hv) hrest

end

/-! ## Normal forms -/

section

variable {D : Type} [Decimal D] [PlainText D] {localeCompare : String → String → Ordering}

theorem normalizeElems_eq_mapM (l : List Value) :
    normalizeElems D localeCompare l = l.mapM (normalize D localeCompare false) := by
  induction l with
  | nil => rfl
  | cons v rest ih => rw [normalizeElems, List.mapM_cons, ih]

/-- A field under its key. -/
def normalizeField (D : Type) [Decimal D] [PlainText D] (localeCompare : String → String → Ordering)
    (f : String × Value) : Except ResolvedRubricDocumentError (String × Value) := do
  let v ← normalize D localeCompare (isSetLike f.1) f.2
  return (f.1, v)

theorem normalizeFields_eq_mapM (l : List (String × Value)) :
    normalizeFields D localeCompare l = l.mapM (normalizeField D localeCompare) := by
  induction l with
  | nil => rfl
  | cons f rest ih =>
    obtain ⟨key, v⟩ := f
    rw [normalizeFields, List.mapM_cons, ih, normalizeField]
    cases normalize D localeCompare (isSetLike key) v with
    | ok x => rfl
    | error e => rfl

theorem normalizeField_eq_ok {f g : String × Value} :
    normalizeField D localeCompare f = .ok g ↔
      f.1 = g.1 ∧ normalize D localeCompare (isSetLike f.1) f.2 = .ok g.2 := by
  simp only [normalizeField, bind_eq_ok, pure_eq_ok]
  constructor
  · rintro ⟨v, hv, rfl⟩
    exact ⟨rfl, hv⟩
  · rintro ⟨hkey, hv⟩
    exact ⟨_, hv, by rw [hkey]⟩

theorem decimalText?_eq_some {fields : List (String × Value)} {text : String} :
    decimalText? fields = some text ↔ fields = [("decimal", .str text)] := by
  constructor
  · intro h
    unfold decimalText? at h
    split at h
    · split at h
      · rename_i hkey
        rw [hkey, Option.some.inj h]
      · cases h
    · cases h
  · rintro rfl
    rfl

theorem normalDecimal_eq_ok {text : String} {x : Value} :
    normalDecimal D text = .ok x ↔ ∃ (d : D) (plain : String), Decimal.ofString text = some d ∧
      PlainText.toPlain d = some plain ∧ x = .obj [("decimal", .str plain)] := by
  unfold normalDecimal
  split
  · rename_i plain hplain
    obtain ⟨d, hd, hplain⟩ := Option.bind_eq_some_iff.mp hplain
    constructor
    · intro h
      exact ⟨d, plain, hd, hplain, (Except.ok.inj h).symm⟩
    · rintro ⟨d', plain', hd', hplain', rfl⟩
      obtain rfl := Option.some.inj (hd.symm.trans hd')
      rw [Option.some.inj (hplain.symm.trans hplain')]
  · rename_i hnone
    refine iff_of_false (fun h => by cases h) ?_
    rintro ⟨d, plain, hd, hplain, -⟩
    rw [hd, Option.bind_some, hplain] at hnone
    cases hnone

theorem normalize_arr {setLike : Bool} {elems : List Value} {x : Value} :
    normalize D localeCompare setLike (.arr elems) = .ok x ↔
      ∃ items, elems.mapM (normalize D localeCompare false) = .ok items ∧
        .arr (if setLike then sort (compareTexts localeCompare) items else items) = x := by
  rw [normalize, normalizeElems_eq_mapM, bind_eq_ok]
  simp only [pure_eq_ok]

theorem normalize_decimal {setLike : Bool} {text : String} :
    normalize D localeCompare setLike (.obj [("decimal", .str text)]) = normalDecimal D text := by
  rw [normalize]
  rfl

theorem normalize_obj {setLike : Bool} {fields : List (String × Value)} (hplain : decimalText? fields = none) {x : Value} :
    normalize D localeCompare setLike (.obj fields) = .ok x ↔
      ∃ normalized, fields.mapM (normalizeField D localeCompare) = .ok normalized ∧
        .obj (normalized.insertionSort keyLe) = x := by
  rw [normalize, hplain]
  simp only [normalizeFields_eq_mapM, bind_eq_ok, pure_eq_ok]

/-- An object is a decimal or not. -/
theorem decimal_or_plain (fields : List (String × Value)) :
    (∃ text, fields = [("decimal", .str text)]) ∨ decimalText? fields = none := by
  cases h : decimalText? fields with
  | none => exact .inr rfl
  | some text => exact .inl ⟨text, decimalText?_eq_some.mp h⟩

/-- Normalization leaves arrays arrays, objects objects, and the rest alone. -/
theorem normalize_kind {setLike : Bool} {v x : Value} (h : normalize D localeCompare setLike v = .ok x) :
    (∃ elems items, v = .arr elems ∧ x = .arr items) ∨ (∃ fields fields', v = .obj fields ∧ x = .obj fields') ∨ x = v := by
  cases v with
  | arr elems =>
    obtain ⟨items, -, rfl⟩ := normalize_arr.mp h
    exact .inl ⟨_, _, rfl, rfl⟩
  | obj fields =>
    rcases decimal_or_plain fields with ⟨text, rfl⟩ | hplain
    · rw [normalize_decimal] at h
      obtain ⟨d, plain, -, -, rfl⟩ := normalDecimal_eq_ok.mp h
      exact .inr (.inl ⟨_, _, rfl, rfl⟩)
    · obtain ⟨normalized, -, rfl⟩ := (normalize_obj hplain).mp h
      exact .inr (.inl ⟨_, _, rfl, rfl⟩)
  | null => exact .inr (.inr (Except.ok.inj h).symm)
  | bool b => exact .inr (.inr (Except.ok.inj h).symm)
  | num t => exact .inr (.inr (Except.ok.inj h).symm)
  | str s => exact .inr (.inr (Except.ok.inj h).symm)

theorem normalize_str {setLike : Bool} {v : Value} {s : String}
    (h : normalize D localeCompare setLike v = .ok (.str s)) : v = .str s := by
  rcases normalize_kind h with ⟨_, _, -, hx⟩ | ⟨_, _, -, hx⟩ | hx
  · cases hx
  · cases hx
  · exact hx.symm

theorem keyLe_trans : IsTrans (String × Value) keyLe := ⟨fun _ _ _ => String.le_trans⟩

theorem keyLe_total : Std.Total (α := String × Value) keyLe := ⟨fun f g => String.le_total f.1 g.1⟩

theorem insertionSort_keyLe_pairwise (l : List (String × Value)) : (l.insertionSort keyLe).Pairwise keyLe :=
  have := keyLe_trans
  have := keyLe_total
  List.pairwise_insertionSort keyLe l

theorem insertionSort_keyLe_self (l : List (String × Value)) :
    (l.insertionSort keyLe).insertionSort keyLe = l.insertionSort keyLe :=
  (insertionSort_keyLe_pairwise l).insertionSort_eq

/-- Fields of different keys are sorted to one list. -/
theorem insertionSort_keyLe_perm {l l' : List (String × Value)} (hperm : l'.Perm l) (hnodup : (l.map Prod.fst).Nodup) :
    l'.insertionSort keyLe = l.insertionSort keyLe := by
  have hsame := (List.perm_insertionSort keyLe l').trans (hperm.trans (List.perm_insertionSort keyLe l).symm)
  refine hsame.eq_of_pairwise (fun f g hf hg hfg hgf => ?_) (insertionSort_keyLe_pairwise l') (insertionSort_keyLe_pairwise l)
  have hf' : f ∈ l := hperm.mem_iff.mp ((List.mem_insertionSort keyLe).mp hf)
  exact List.inj_on_of_nodup_map hnodup hf' ((List.mem_insertionSort keyLe).mp hg) (String.le_antisymm hfg hgf)

theorem arranged_perm (setLike : Bool) (cmp : Value → Value → Ordering) (items : List Value) :
    (if setLike then sort cmp items else items).Perm items := by
  cases setLike with
  | false => exact .refl _
  | true => exact sort_perm _

theorem mem_arranged {setLike : Bool} {cmp : Value → Value → Ordering} {items : List Value} {i : Value} :
    i ∈ (if setLike then sort cmp items else items) ↔ i ∈ items :=
  (arranged_perm setLike cmp items).mem_iff

/-- The keys of a normal form are in order. -/
theorem sortKeys_normalize {v : Value} : ∀ {setLike : Bool} {x : Value},
    normalize D localeCompare setLike v = .ok x → sortKeys x = x := by
  induction v using Value.induction with
  | null => rintro setLike x h; rw [← Except.ok.inj h]; rfl
  | bool b => rintro setLike x h; rw [← Except.ok.inj h]; rfl
  | num t => rintro setLike x h; rw [← Except.ok.inj h]; rfl
  | str s => rintro setLike x h; rw [← Except.ok.inj h]; rfl
  | arr elems ih =>
    intro setLike x h
    obtain ⟨items, hitems, rfl⟩ := normalize_arr.mp h
    have hall : ∀ i ∈ if setLike then sort (compareTexts localeCompare) items else items, sortKeys i = i := by
      intro i hi
      obtain ⟨e, he, hei⟩ := (mem_mapM hitems).mp (mem_arranged.mp hi)
      exact ih e he hei
    rw [sortKeys, sortElems_eq_map, List.map_congr_left hall, List.map_id']
  | obj fields ih =>
    intro setLike x h
    rcases decimal_or_plain fields with ⟨text, rfl⟩ | hplain
    · rw [normalize_decimal] at h
      obtain ⟨d, plain, -, -, rfl⟩ := normalDecimal_eq_ok.mp h
      rfl
    · obtain ⟨normalized, hnormalized, rfl⟩ := (normalize_obj hplain).mp h
      have hall : ∀ f ∈ normalized.insertionSort keyLe, (f.1, sortKeys f.2) = f := by
        intro f hf
        obtain ⟨g, hg, hgf⟩ := (mem_mapM hnormalized).mp ((List.mem_insertionSort keyLe).mp hf)
        exact Prod.ext rfl (ih g hg (normalizeField_eq_ok.mp hgf).2)
      rw [sortKeys, sortFields_eq_map, List.map_congr_left hall, List.map_id', insertionSort_keyLe_self]

theorem normalizedKeys {fields normalized : List (String × Value)}
    (h : fields.mapM (normalizeField D localeCompare) = .ok normalized) : normalized.map Prod.fst = fields.map Prod.fst :=
  map_of_mapM (fun _ _ hfg => (normalizeField_eq_ok.mp hfg).1.symm) h

/-- Normalizing does not make an object a decimal. -/
theorem plain_of_normalized {fields normalized : List (String × Value)} (hplain : decimalText? fields = none)
    (h : fields.mapM (normalizeField D localeCompare) = .ok normalized) :
    decimalText? (normalized.insertionSort keyLe) = none := by
  rcases decimal_or_plain (normalized.insertionSort keyLe) with ⟨text, hdecimal⟩ | hplain'
  · have hperm := (List.perm_insertionSort keyLe normalized).symm
    rw [hdecimal, List.perm_singleton] at hperm
    rw [hperm] at h
    cases mapM_forall₂ h with
    | cons hfield hrest =>
      cases hrest
      obtain ⟨hkey, hv⟩ := normalizeField_eq_ok.mp hfield
      rw [decimalText?_eq_some.mpr (congrArg (fun f => [f]) (Prod.ext hkey (normalize_str hv)))] at hplain
      cases hplain
  · exact hplain'

section

variable [Std.TransCmp localeCompare]

instance : Std.TransCmp (compareTexts localeCompare) := transCmp_key fun v : Value => String.ofList (canonicalText v)

/-- A normal form is its own. -/
theorem normalize_normalize {v : Value} : ∀ {setLike : Bool} {x : Value},
    normalize D localeCompare setLike v = .ok x → normalize D localeCompare setLike x = .ok x := by
  induction v using Value.induction with
  | null => rintro setLike x h; rw [← Except.ok.inj h]; rfl
  | bool b => rintro setLike x h; rw [← Except.ok.inj h]; rfl
  | num t => rintro setLike x h; rw [← Except.ok.inj h]; rfl
  | str s => rintro setLike x h; rw [← Except.ok.inj h]; rfl
  | arr elems ih =>
    intro setLike x h
    obtain ⟨items, hitems, rfl⟩ := normalize_arr.mp h
    refine normalize_arr.mpr ⟨_, mapM_self fun i hi => ?_, ?_⟩
    · obtain ⟨e, he, hei⟩ := (mem_mapM hitems).mp (mem_arranged.mp hi)
      exact ih e he hei
    · cases setLike with
      | false => rfl
      | true => exact congrArg Value.arr (sort_sort items)
  | obj fields ih =>
    intro setLike x h
    rcases decimal_or_plain fields with ⟨text, rfl⟩ | hplain
    · rw [normalize_decimal] at h
      obtain ⟨d, plain, -, hplain, rfl⟩ := normalDecimal_eq_ok.mp h
      obtain ⟨d', hd', hval⟩ := PlainText.toPlain_reads d plain hplain
      rw [normalize_decimal]
      exact normalDecimal_eq_ok.mpr ⟨d', plain, hd', (PlainText.toPlain_congr d' d hval).trans hplain, rfl⟩
    · obtain ⟨normalized, hnormalized, rfl⟩ := (normalize_obj hplain).mp h
      refine (normalize_obj (plain_of_normalized hplain hnormalized)).mpr
        ⟨_, mapM_self fun f hf => ?_, congrArg Value.obj (insertionSort_keyLe_self _)⟩
      obtain ⟨g, hg, hgf⟩ := (mem_mapM hnormalized).mp ((List.mem_insertionSort keyLe).mp hf)
      obtain ⟨hkey, hv⟩ := normalizeField_eq_ok.mp hgf
      exact normalizeField_eq_ok.mpr ⟨rfl, hkey ▸ ih g hg hv⟩

end

/-! ## Rewriting up to the normal form -/

/-- A normal form is reached by rewrites. -/
theorem normalize_reaches {v : Value} : ∀ {setLike : Bool} {x : Value},
    normalize D localeCompare setLike v = .ok x → Relation.EqvGen (Rewrite D setLike) v x := by
  induction v using Value.induction with
  | null => rintro setLike x h; rw [← Except.ok.inj h]; exact .refl _
  | bool b => rintro setLike x h; rw [← Except.ok.inj h]; exact .refl _
  | num t => rintro setLike x h; rw [← Except.ok.inj h]; exact .refl _
  | str s => rintro setLike x h; rw [← Except.ok.inj h]; exact .refl _
  | arr elems ih =>
    intro setLike x h
    obtain ⟨items, hitems, rfl⟩ := normalize_arr.mp h
    have hreach : List.Forall₂ (Relation.EqvGen (Rewrite D false)) elems items :=
      (List.forall₂_and_left _ _).mpr ⟨fun e he => he, mapM_forall₂ hitems⟩ |>.imp fun _ _ hei => ih _ hei.1 hei.2
    refine .trans _ _ _ (elems_rewrite hreach []) ?_
    cases setLike with
    | false => exact .refl _
    | true => exact .rel _ _ (.items (sort_perm items).symm)
  | obj fields ih =>
    intro setLike x h
    rcases decimal_or_plain fields with ⟨text, rfl⟩ | hplain
    · rw [normalize_decimal] at h
      obtain ⟨d, plain, hd, hplain, rfl⟩ := normalDecimal_eq_ok.mp h
      obtain ⟨d', hd', hval⟩ := PlainText.toPlain_reads d plain hplain
      exact .rel _ _ (.decimal hd hd' hval.symm)
    · obtain ⟨normalized, hnormalized, rfl⟩ := (normalize_obj hplain).mp h
      have hreach := (List.forall₂_and_left _ _).mpr ⟨fun f hf => hf, mapM_forall₂ hnormalized⟩ |>.imp fun f g hfg =>
        (⟨(normalizeField_eq_ok.mp hfg.2).1, ih f hfg.1 (normalizeField_eq_ok.mp hfg.2).2⟩ :
          f.1 = g.1 ∧ Relation.EqvGen (Rewrite D (isSetLike f.1)) f.2 g.2)
      exact .trans _ _ _ (fields_rewrite hreach []) (.rel _ _ (.fields (List.perm_insertionSort keyLe normalized).symm))

/-! ## No rewrite is seen in the normal form -/

theorem plain_of_ne_str {key : String} {v : Value} {front back : List (String × Value)} (h : ∀ s, v ≠ .str s) :
    decimalText? (front ++ (key, v) :: back) = none := by
  rcases decimal_or_plain (front ++ (key, v) :: back) with ⟨text, hdecimal⟩ | hplain
  · have hmem : (key, v) ∈ [("decimal", Value.str text)] := hdecimal ▸ List.mem_append_right _ List.mem_cons_self
    exact absurd (congrArg Prod.snd (List.mem_singleton.mp hmem)) (h text)
  · exact hplain

section

variable [Std.TransCmp localeCompare]

theorem normalize_rewrite {setLike : Bool} {v v' : Value} (h : Rewrite D setLike v v') :
    ∀ {x : Value}, DistinctKeys v → normalize D localeCompare setLike v = .ok x → Decided localeCompare setLike x →
      normalize D localeCompare setLike v' = .ok x := by
  induction h with
  | @fields setLike fields fields' hperm =>
    intro x hdistinct hx _
    rcases decimal_or_plain fields with ⟨text, rfl⟩ | hplain
    · rw [List.singleton_perm.mp hperm] at hx
      exact hx
    · have hplain' : decimalText? fields' = none := by
        rcases decimal_or_plain fields' with ⟨text, rfl⟩ | hplain'
        · rw [List.perm_singleton.mp hperm] at hplain
          cases hplain
        · exact hplain'
      obtain ⟨normalized, hnormalized, rfl⟩ := (normalize_obj hplain).mp hx
      obtain ⟨normalized', hnormalized', hperm'⟩ := mapM_perm hperm.symm hnormalized
      refine (normalize_obj hplain').mpr ⟨normalized', hnormalized', congrArg Value.obj ?_⟩
      refine insertionSort_keyLe_perm hperm' ?_
      rw [normalizedKeys hnormalized]
      cases hdistinct with
      | obj hnodup _ => exact hnodup
  | @items elems elems' hperm =>
    intro x _ hx hdecided
    obtain ⟨items, hitems, rfl⟩ := normalize_arr.mp hx
    obtain ⟨items', hitems', hperm'⟩ := mapM_perm hperm.symm hitems
    refine normalize_arr.mpr ⟨items', hitems', congrArg Value.arr ?_⟩
    cases hdecided with
    | arr _ hties =>
      have hsame := (@sort_perm _ (compareTexts localeCompare) items').trans (hperm'.trans (@sort_perm _ (compareTexts localeCompare) items).symm)
      refine hsame.eq_of_pairwise (fun i j hi hj hij hji => ?_) (sort_pairwise items') (sort_pairwise items)
      -- items that tie are of one text, and items of one text are one
      have hi' : i ∈ sort (compareTexts localeCompare) items := hsame.mem_iff.mp hi
      have htext := canonicalText_inj.mp (hties rfl i hi' j hj (eq_of_le hij hji))
      obtain ⟨e, -, he⟩ := (mem_mapM hitems).mp (mem_sort.mp hi')
      obtain ⟨e', -, he'⟩ := (mem_mapM hitems).mp (mem_sort.mp hj)
      rwa [sortKeys_normalize he, sortKeys_normalize he'] at htext
  | @decimal setLike text text' d d' hd hd' hval =>
    intro x _ hx _
    rw [normalize_decimal] at hx ⊢
    obtain ⟨d₁, plain, hd₁, hplain, rfl⟩ := normalDecimal_eq_ok.mp hx
    obtain rfl := Option.some.inj (hd.symm.trans hd₁)
    exact normalDecimal_eq_ok.mpr ⟨d', plain, hd', (PlainText.toPlain_congr d' d hval.symm).trans hplain, rfl⟩
  | @elem setLike v v' front back _ ih =>
    intro x hdistinct hx hdecided
    obtain ⟨items, hitems, rfl⟩ := normalize_arr.mp hx
    have hv : v ∈ front ++ v :: back := List.mem_append_right _ List.mem_cons_self
    obtain ⟨i, hi, hvi⟩ := exists_of_mapM hitems hv
    cases hdistinct with
    | arr hall =>
      cases hdecided with
      | arr hitem _ =>
        have hvi' := ih (hall v hv) hvi (hitem i (mem_arranged.mpr hi))
        exact normalize_arr.mpr ⟨items, (mapM_congr_middle (hvi'.trans hvi.symm)).trans hitems, rfl⟩
  | @field setLike key v v' front back hstep ih =>
    intro x hdistinct hx hdecided
    obtain ⟨normalized, hnormalized, rfl⟩ := (normalize_obj (plain_of_ne_str hstep.ne_str)).mp hx
    have hv : (key, v) ∈ front ++ (key, v) :: back := List.mem_append_right _ List.mem_cons_self
    obtain ⟨g, hg, hvg⟩ := exists_of_mapM hnormalized hv
    obtain ⟨hkey, hvg⟩ := normalizeField_eq_ok.mp hvg
    cases hdistinct with
    | obj _ hall =>
      cases hdecided with
      | obj hfield =>
        have hdecidedv := hfield g ((List.mem_insertionSort keyLe).mpr hg)
        rw [← hkey] at hdecidedv
        have hvg' := ih (hall _ hv) hvg hdecidedv
        have hsame : normalizeField D localeCompare (key, v') = normalizeField D localeCompare (key, v) := by
          rw [normalizeField, normalizeField, hvg', hvg]
        exact (normalize_obj (plain_of_ne_str hstep.symm.ne_str)).mpr
          ⟨normalized, (mapM_congr_middle hsame).trans hnormalized, rfl⟩

end

/-! ## The document of the schema -/

/-- A rewrite of a document, or another spelling of its resolver version that is trimmed to the same. -/
inductive DocumentRewrite (D : Type) [Decimal D] : Value → Value → Prop
  | rewrite {d d' : Value} : Rewrite D false d d' → DocumentRewrite D d d'
  | trim {s s' : String} {front back : List (String × Value)} : JsText.trim s = JsText.trim s' →
      DocumentRewrite D (.obj (front ++ ("resolverVersion", .str s) :: back)) (.obj (front ++ ("resolverVersion", .str s') :: back))

theorem parseDocument_eq_ok {d p : Value} :
    parseDocument d = .ok p ↔
      ∃ fields, d = .obj fields ∧ isDocument fields = true ∧ .obj (fields.map trimResolver) = p := by
  constructor
  · intro h
    unfold parseDocument at h
    split at h
    · split at h
      · rename_i hdocument
        exact ⟨_, rfl, hdocument, Except.ok.inj h⟩
      · cases h
    · cases h
  · rintro ⟨fields, rfl, hdocument, rfl⟩
    rw [parseDocument, if_pos hdocument]

omit [PlainText D] in
/-- Only arrays and objects can be rewritten, each to one of its kind. -/
theorem Rewrite.kind {setLike : Bool} {v v' : Value} (h : Rewrite D setLike v v') :
    (∃ elems elems', v = .arr elems ∧ v' = .arr elems') ∨ ∃ fields fields', v = .obj fields ∧ v' = .obj fields' := by
  cases h with
  | fields _ => exact .inr ⟨_, _, rfl, rfl⟩
  | items _ => exact .inl ⟨_, _, rfl, rfl⟩
  | decimal _ _ _ => exact .inr ⟨_, _, rfl, rfl⟩
  | elem _ => exact .inl ⟨_, _, rfl, rfl⟩
  | field _ => exact .inr ⟨_, _, rfl, rfl⟩

omit [PlainText D] in
theorem Rewrite.isRecord_eq {setLike : Bool} {v v' : Value} (h : Rewrite D setLike v v') : isRecord v = isRecord v' := by
  rcases h.kind with ⟨_, _, rfl, rfl⟩ | ⟨_, _, rfl, rfl⟩
  · rfl
  · rfl

omit [PlainText D] in
theorem Rewrite.isCriteria_eq {setLike : Bool} {v v' : Value} (h : Rewrite D setLike v v') :
    isCriteria (some v) = isCriteria (some v') := by
  cases h with
  | fields _ => rfl
  | items hperm => exact hperm.all_eq
  | decimal _ _ _ => rfl
  | elem hitem => simp only [isCriteria, List.all_append, List.all_cons, hitem.isRecord_eq]
  | field _ => rfl

/-- A check of one field does not see a change of it that it does not see. -/
theorem lookup_middle {check : Option Value → Bool} {key key' : String} {v v' : Value}
    (h : key' = key → check (some v) = check (some v')) (front back : List (String × Value)) :
    check ((front ++ (key, v) :: back).lookup key') = check ((front ++ (key, v') :: back).lookup key') := by
  rw [List.lookup_append, List.lookup_append, List.lookup_cons, List.lookup_cons]
  cases front.lookup key' with
  | some w => rfl
  | none =>
    cases hkey : key' == key with
    | true => exact h (beq_iff_eq.mp hkey)
    | false => rfl

theorem lookup_perm {fields fields' : List (String × Value)} (hperm : fields.Perm fields')
    (hnodup : (fields.map Prod.fst).Nodup) (key : String) : fields.lookup key = fields'.lookup key := by
  have h := insertionSort_keyLe_perm hperm.symm hnodup
  rw [← lookup_insertionSort keyLe_of_eq, ← h, lookup_insertionSort keyLe_of_eq]

omit [PlainText D] in
theorem trimResolver_of_rewrite {setLike : Bool} {key : String} {v v' : Value} (h : Rewrite D setLike v v') :
    trimResolver (key, v) = (key, v) := by
  rw [trimResolver]
  split
  · rcases h.kind with ⟨_, _, rfl, -⟩ | ⟨_, _, rfl, -⟩
    · rfl
    · rfl
  · rfl

omit [PlainText D] in
/-- A rewrite of an accepted document is accepted, and rewrites what the schema makes of it. -/
theorem parseDocument_rewrite {d d' p : Value} (h : Rewrite D false d d') (hdistinct : DistinctKeys d)
    (hp : parseDocument d = .ok p) : ∃ p', parseDocument d' = .ok p' ∧ Rewrite D false p p' := by
  obtain ⟨fields, rfl, hdocument, rfl⟩ := parseDocument_eq_ok.mp hp
  cases h with
  | @fields _ _ fields' hperm =>
    cases hdistinct with
    | obj hnodup _ =>
      have hdocument' : isDocument fields' = true := by
        rw [isDocument, ← lookup_perm hperm hnodup, ← lookup_perm hperm hnodup, ← lookup_perm hperm hnodup]
        exact hdocument
      exact ⟨_, parseDocument_eq_ok.mpr ⟨_, rfl, hdocument', rfl⟩, .fields (hperm.map _)⟩
  | decimal _ _ _ => cases hdocument
  | @field _ key v v' front back hstep =>
    have hdocument' : isDocument (front ++ (key, v') :: back) = true := by
      rw [← hdocument, isDocument, isDocument]
      refine congrArg₂ _ (congrArg₂ _ ?_ ?_) ?_
      · refine (lookup_middle (fun _ => ?_) front back).symm
        rcases hstep.kind with ⟨_, _, rfl, rfl⟩ | ⟨_, _, rfl, rfl⟩
        · rfl
        · rfl
      · refine (lookup_middle (fun _ => ?_) front back).symm
        rcases hstep.kind with ⟨_, _, rfl, rfl⟩ | ⟨_, _, rfl, rfl⟩
        · rfl
        · rfl
      · exact (lookup_middle (fun _ => hstep.isCriteria_eq) front back).symm
    refine ⟨_, parseDocument_eq_ok.mpr ⟨_, rfl, hdocument', rfl⟩, ?_⟩
    rw [List.map_append, List.map_cons, List.map_append, List.map_cons, trimResolver_of_rewrite hstep,
      trimResolver_of_rewrite hstep.symm]
    exact .field hstep

/-- Two spellings of the resolver version are parsed to one. -/
theorem parseDocument_trim {s s' : String} {front back : List (String × Value)} (h : JsText.trim s = JsText.trim s') :
    parseDocument (.obj (front ++ ("resolverVersion", .str s) :: back)) =
      parseDocument (.obj (front ++ ("resolverVersion", .str s') :: back)) := by
  have hdocument : isDocument (front ++ ("resolverVersion", .str s) :: back) =
      isDocument (front ++ ("resolverVersion", .str s') :: back) := by
    refine congrArg₂ _ (congrArg₂ _ ?_ ?_) ?_
    · exact lookup_middle (fun hkey => absurd hkey (by decide)) front back
    · exact lookup_middle (fun _ => by rw [isResolverVersion, isResolverVersion, h]) front back
    · exact lookup_middle (fun hkey => absurd hkey (by decide)) front back
  have htrim : trimResolver ("resolverVersion", .str s) = trimResolver ("resolverVersion", .str s') := by
    rw [trimResolver, trimResolver, if_pos rfl, if_pos rfl, trimText, trimText, h]
  rw [parseDocument, parseDocument, hdocument, List.map_append, List.map_cons, List.map_append, List.map_cons, htrim]

theorem lookup_trimmed (key : String) (fields : List (String × Value)) :
    (fields.map trimResolver).lookup key = (fields.lookup key).map fun v => (trimResolver (key, v)).2 := by
  induction fields with
  | nil => rfl
  | cons f rest ih =>
    obtain ⟨key', v⟩ := f
    have hkey : (trimResolver (key', v)).1 = key' := by
      rw [trimResolver]
      split
      · rfl
      · rfl
    rw [List.map_cons, ← Prod.mk.eta (p := trimResolver (key', v)), hkey, List.lookup_cons, List.lookup_cons, ih]
    cases hsame : key == key' with
    | true => rw [beq_iff_eq.mp hsame]; rfl
    | false => rfl

theorem lookup_normalized {fields normalized : List (String × Value)}
    (h : fields.mapM (normalizeField D localeCompare) = .ok normalized) {key : String} {v : Value}
    (hv : fields.lookup key = some v) :
    ∃ w, normalized.lookup key = some w ∧ normalize D localeCompare (isSetLike key) v = .ok w := by
  have hmade := mapM_forall₂ h
  clear h
  induction hmade with
  | nil => cases hv
  | @cons f g _ _ hfg _ ih =>
    obtain ⟨key', v'⟩ := f
    obtain ⟨key'', w⟩ := g
    obtain ⟨hkey, hw⟩ := normalizeField_eq_ok.mp hfg
    obtain rfl : key' = key'' := hkey
    rw [List.lookup_cons] at hv ⊢
    cases hsame : key == key' with
    | true =>
      rw [hsame] at hv
      obtain rfl := Option.some.inj hv
      obtain rfl := beq_iff_eq.mp hsame
      exact ⟨w, rfl, hw⟩
    | false =>
      rw [hsame] at hv
      exact ih hv

/-- The normal form of an accepted document is one that the schema leaves as it is. -/
theorem parseDocument_normalize {d p x : Value} (hp : parseDocument d = .ok p)
    (hx : normalize D localeCompare false p = .ok x) : parseDocument x = .ok x := by
  obtain ⟨fields, rfl, hdocument, rfl⟩ := parseDocument_eq_ok.mp hp
  have hplain : decimalText? (fields.map trimResolver) = none := by
    rcases decimal_or_plain (fields.map trimResolver) with ⟨text, hdecimal⟩ | hplain
    · have hnone := lookup_trimmed "schemaVersion" fields
      rw [hdecimal] at hnone
      have hlookup : fields.lookup "schemaVersion" = none := Option.map_eq_none_iff.mp hnone.symm
      rw [isDocument, hlookup] at hdocument
      cases hdocument
    · exact hplain
  obtain ⟨normalized, hnormalized, rfl⟩ := (normalize_obj hplain).mp hx
  rw [isDocument, Bool.and_eq_true_iff, Bool.and_eq_true_iff] at hdocument
  obtain ⟨⟨hschema, hresolver⟩, hcriteria⟩ := hdocument
  have hlookup (key : String) {v : Value} (hv : fields.lookup key = some v) :
      ∃ w, (normalized.insertionSort keyLe).lookup key = some w ∧
        normalize D localeCompare (isSetLike key) (trimResolver (key, v)).2 = .ok w := by
    rw [lookup_insertionSort keyLe_of_eq]
    refine lookup_normalized hnormalized ?_
    rw [lookup_trimmed, hv]
    rfl
  have hschema' : isSchemaVersion ((normalized.insertionSort keyLe).lookup "schemaVersion") = true := by
    unfold isSchemaVersion at hschema
    split at hschema
    · rename_i t ht
      obtain ⟨w, hw, hnormal⟩ := hlookup _ ht
      obtain rfl := Except.ok.inj hnormal
      rw [hw]
      exact hschema
    · cases hschema
  have hresolver' : isResolverVersion ((normalized.insertionSort keyLe).lookup "resolverVersion") = true := by
    unfold isResolverVersion at hresolver
    split at hresolver
    · rename_i s hs
      obtain ⟨w, hw, hnormal⟩ := hlookup _ hs
      rw [trimResolver, if_pos rfl] at hnormal
      obtain rfl : .str (JsText.trim s) = w := Except.ok.inj hnormal
      rw [hw, isResolverVersion, JsText.trim_trim]
      exact hresolver
    · cases hresolver
  have hcriteria' : isCriteria ((normalized.insertionSort keyLe).lookup "criteria") = true := by
    unfold isCriteria at hcriteria
    split at hcriteria
    · rename_i elems helems
      obtain ⟨w, hw, hnormal⟩ := hlookup _ helems
      obtain ⟨items, hitems, rfl⟩ := normalize_arr.mp hnormal
      rw [hw]
      refine List.all_eq_true.mpr fun i hi => ?_
      obtain ⟨e, he, hei⟩ := (mem_mapM hitems).mp (mem_arranged.mp hi)
      have hrecord := List.all_eq_true.mp hcriteria e he
      rcases normalize_kind hei with ⟨_, _, rfl, -⟩ | ⟨_, _, -, rfl⟩ | rfl
      · cases hrecord
      · rfl
      · exact hrecord
    · cases hcriteria
  -- a resolver version is a trimmed text already
  have htrimmed : ∀ f ∈ normalized.insertionSort keyLe, trimResolver f = f := by
    intro f hf
    obtain ⟨g, hg, hgf⟩ := (mem_mapM hnormalized).mp ((List.mem_insertionSort keyLe).mp hf)
    obtain ⟨hkey, hnormal⟩ := normalizeField_eq_ok.mp hgf
    obtain ⟨key, w⟩ := f
    rw [trimResolver]
    split
    · rename_i hresolverKey
      cases w with
      | str s =>
        obtain ⟨g₀, -, hg₀⟩ := List.mem_map.mp hg
        have hvalue : (trimResolver g₀).2 = .str s := hg₀ ▸ normalize_str hnormal
        have hkey₀ : (trimResolver g₀).1 = "resolverVersion" := hg₀ ▸ hkey.trans hresolverKey
        rw [trimResolver] at hvalue hkey₀
        split at hvalue
        · cases hv : g₀.2 with
          | str s₀ =>
            rw [hv, trimText] at hvalue
            rw [trimText, ← Value.str.inj hvalue, JsText.trim_trim]
          | _ => rw [hv, trimText] at hvalue <;> cases hvalue
        · rename_i hother
          rw [if_neg hother] at hkey₀
          exact absurd hkey₀ hother
      | _ => rfl
    · rfl
  have hself : (normalized.insertionSort keyLe).map trimResolver = normalized.insertionSort keyLe :=
    (List.map_congr_left htrimmed).trans (List.map_id' _)
  refine parseDocument_eq_ok.mpr ⟨_, rfl, ?_, congrArg Value.obj hself⟩
  rw [isDocument, hschema', hresolver', hcriteria']
  rfl

/-! ## The canonical form of a document -/

omit [PlainText D] in
theorem DocumentRewrite.symm {d d' : Value} (h : DocumentRewrite D d d') : DocumentRewrite D d' d := by
  cases h with
  | rewrite h => exact .rewrite h.symm
  | trim h => exact .trim h.symm

omit [PlainText D] in
theorem DocumentRewrite.distinctKeys {d d' : Value} (h : DocumentRewrite D d d') (hd : DistinctKeys d) :
    DistinctKeys d' := by
  cases h with
  | rewrite h => exact h.distinctKeys hd
  | trim h =>
    cases hd with
    | obj hnodup hall =>
      rw [List.forall_mem_append, List.forall_mem_cons] at hall
      rw [List.map_append, List.map_cons] at hnodup
      refine .obj ?_ (List.forall_mem_append.mpr ⟨hall.1, List.forall_mem_cons.mpr ⟨.str _, hall.2.2⟩⟩)
      rw [List.map_append, List.map_cons]
      exact hnodup

omit [PlainText D] in
/-- What the schema makes of a document is another spelling of its resolver version. -/
theorem parseDocument_rewrites {d p : Value} (hd : DistinctKeys d) (hp : parseDocument d = .ok p) :
    DocumentRewrite D d p := by
  obtain ⟨fields, rfl, hdocument, rfl⟩ := parseDocument_eq_ok.mp hp
  rw [isDocument, Bool.and_eq_true_iff, Bool.and_eq_true_iff] at hdocument
  obtain ⟨⟨-, hresolver⟩, -⟩ := hdocument
  unfold isResolverVersion at hresolver
  split at hresolver
  · rename_i s hs
    obtain ⟨front, back, rfl, -⟩ := List.lookup_eq_some_iff.mp hs
    cases hd with
    | obj hnodup _ =>
      rw [List.map_append, List.map_cons, List.nodup_append] at hnodup
      obtain ⟨-, hback, hfront⟩ := hnodup
      have hother {l : List (String × Value)} (hl : ∀ f ∈ l, f.1 ≠ "resolverVersion") : l.map trimResolver = l :=
        (List.map_congr_left fun f hf => if_neg (hl f hf)).trans (List.map_id' _)
      rw [List.map_append, List.map_cons,
        hother fun f hf => hfront _ (List.mem_map_of_mem hf) _ List.mem_cons_self,
        hother fun f hf heq => (List.nodup_cons.mp hback).1 (List.mem_map.mpr ⟨f, hf, heq⟩)]
      exact .trim (JsText.trim_trim s).symm
  · cases hresolver

variable {sha256 : String → String} {d : Value} {r : CanonicalRubric}

theorem canonicalize_eq_ok :
    canonicalizeResolvedRubricDocument D localeCompare sha256 d = .ok r ↔
      ∃ p, parseDocument d = .ok p ∧ normalize D localeCompare false p = .ok r.document ∧
        r.json = String.ofList (canonicalText r.document) ∧ r.contentHash = sha256 r.json := by
  rw [canonicalizeResolvedRubricDocument]
  simp only [bind_eq_ok, pure_eq_ok]
  constructor
  · rintro ⟨p, hp, x, hx, document, hdocument, rfl⟩
    rw [parseDocument_normalize hp hx] at hdocument
    obtain rfl := Except.ok.inj hdocument
    exact ⟨p, hp, hx, rfl, rfl⟩
  · rintro ⟨p, hp, hx, hjson, hhash⟩
    refine ⟨p, hp, r.document, hx, r.document, parseDocument_normalize hp hx, ?_⟩
    rw [← hjson, ← hhash]

variable [Std.TransCmp localeCompare]

theorem canonicalize_rewrite {d' : Value} (h : DocumentRewrite D d d') (hd : DistinctKeys d)
    (hr : canonicalizeResolvedRubricDocument D localeCompare sha256 d = .ok r)
    (hdecided : Decided localeCompare false r.document) :
    canonicalizeResolvedRubricDocument D localeCompare sha256 d' = .ok r := by
  obtain ⟨p, hp, hx, hjson, hhash⟩ := canonicalize_eq_ok.mp hr
  cases h with
  | rewrite h =>
    obtain ⟨p', hp', hpp'⟩ := parseDocument_rewrite h hd hp
    have hdp : DistinctKeys p := (@parseDocument_rewrites D _ _ _ hd hp).distinctKeys hd
    exact canonicalize_eq_ok.mpr ⟨p', hp', normalize_rewrite hpp' hdp hx hdecided, hjson, hhash⟩
  | trim h => exact canonicalize_eq_ok.mpr ⟨p, (parseDocument_trim h).symm.trans hp, hx, hjson, hhash⟩

/-- The canonical form is a normal form: it is its own, documents of one form are related by rewrites,
and no rewrite changes it where no two items of a set-like array are left to their order. -/
theorem canonicalize_normal_form (hd : DistinctKeys d)
    (h : canonicalizeResolvedRubricDocument D localeCompare sha256 d = .ok r) :
    canonicalizeResolvedRubricDocument D localeCompare sha256 r.document = .ok r ∧
      (Decided localeCompare false r.document → ∀ d', Relation.EqvGen (DocumentRewrite D) d d' →
        canonicalizeResolvedRubricDocument D localeCompare sha256 d' = .ok r) ∧
      ∀ d' r', DistinctKeys d' → canonicalizeResolvedRubricDocument D localeCompare sha256 d' = .ok r' →
        r'.json = r.json → Relation.EqvGen (DocumentRewrite D) d d' := by
  obtain ⟨p, hp, hx, hjson, hhash⟩ := canonicalize_eq_ok.mp h
  refine ⟨?_, fun hdecided d' hdd' => ?_, fun d' r' hd' h' hsame => ?_⟩
  · exact canonicalize_eq_ok.mpr ⟨r.document, parseDocument_normalize hp hx, normalize_normalize hx, hjson, hhash⟩
  · have hboth : DistinctKeys d ∧ canonicalizeResolvedRubricDocument D localeCompare sha256 d = .ok r ↔
        DistinctKeys d' ∧ canonicalizeResolvedRubricDocument D localeCompare sha256 d' = .ok r := by
      clear hd h hp hx
      induction hdd' with
      | rel d d' hstep =>
        exact ⟨fun hd => ⟨hstep.distinctKeys hd.1, canonicalize_rewrite hstep hd.1 hd.2 hdecided⟩,
          fun hd' => ⟨hstep.symm.distinctKeys hd'.1, canonicalize_rewrite hstep.symm hd'.1 hd'.2 hdecided⟩⟩
      | refl d => exact Iff.rfl
      | symm d d' _ ih => exact ih.symm
      | trans d d' d'' _ _ ih ih' => exact ih.trans ih'
    exact (hboth.mp ⟨hd, h⟩).2
  · obtain ⟨p', hp', hx', hjson', -⟩ := canonicalize_eq_ok.mp h'
    rw [hjson, hjson'] at hsame
    have hdocument := canonicalText_inj.mp (String.ofList_injective hsame)
    rw [sortKeys_normalize hx, sortKeys_normalize hx'] at hdocument
    rw [hdocument] at hx'
    have hup {v x : Value} (h : Relation.EqvGen (Rewrite D false) v x) : Relation.EqvGen (DocumentRewrite D) v x :=
      Relation.EqvGen.mono (fun _ _ h => .rewrite h) _ _ h
    refine .trans _ p _ (.rel _ _ (parseDocument_rewrites hd hp)) (.trans _ r.document _ (hup (normalize_reaches hx)) ?_)
    exact .symm _ _ (.trans _ p' _ (.rel _ _ (parseDocument_rewrites hd' hp')) (hup (normalize_reaches hx')))

/-- Rewrites that are not seen one by one are not seen at all. -/
theorem normalize_rewrites {setLike : Bool} {v v' x : Value} (h : Relation.EqvGen (Rewrite D setLike) v v')
    (hv : DistinctKeys v) (hx : normalize D localeCompare setLike v = .ok x) (hdecided : Decided localeCompare setLike x) :
    normalize D localeCompare setLike v' = .ok x := by
  have hboth : DistinctKeys v ∧ normalize D localeCompare setLike v = .ok x ↔
      DistinctKeys v' ∧ normalize D localeCompare setLike v' = .ok x := by
    clear hv hx
    induction h with
    | rel v v' hstep =>
      exact ⟨fun hv => ⟨hstep.distinctKeys hv.1, normalize_rewrite hstep hv.1 hv.2 hdecided⟩,
        fun hv' => ⟨hstep.symm.distinctKeys hv'.1, normalize_rewrite hstep.symm hv'.1 hv'.2 hdecided⟩⟩
    | refl v => exact Iff.rfl
    | symm v v' _ ih => exact ih.symm
    | trans v v' v'' _ _ ih ih' => exact ih.trans ih'
  exact (hboth.mp ⟨hv, hx⟩).2

end

/-- A collation that tells all texts apart decides. -/
theorem decided_of_strict {localeCompare : String → String → Ordering} (hstrict : ∀ a b, localeCompare a b = .eq → a = b)
    (v : Value) : ∀ setLike, Decided localeCompare setLike v := by
  induction v using Value.induction with
  | null => exact fun _ => .null
  | bool b => exact fun _ => .bool b
  | num t => exact fun _ => .num t
  | str s => exact fun _ => .str s
  | arr elems ih => exact fun _ => .arr (fun v hv => ih v hv false) fun _ _ _ _ _ htie => String.ofList_injective (hstrict _ _ htie)
  | obj fields ih => exact fun _ => .obj fun f hf => ih f hf _

/-! ## Documents -/

instance : PlainText Ref where
  toPlain d := some d.toText
  toPlain_reads d _ h := Option.some.inj h ▸ Ref.toText_reads d
  toPlain_congr a b h := congrArg some (Ref.toText_congr a b h)

/-- A document with a resolver version and some criteria. -/
def rubricWith (resolverVersion : String) (criteria : List Value) : Value :=
  .obj [("schemaVersion", .num (DecimalText.NumberText.ofNat 1)), ("resolverVersion", .str resolverVersion),
    ("criteria", .arr criteria)]

def criterionOf (key : String) : Value := .obj [("criterionKey", .str key)]

theorem rubricWith_distinctKeys (resolverVersion : String) {criteria : List Value}
    (h : ∀ c ∈ criteria, DistinctKeys c) : DistinctKeys (rubricWith resolverVersion criteria) := by
  refine .obj (show ["schemaVersion", "resolverVersion", "criteria"].Nodup by decide) ?_
  exact List.forall_mem_cons.mpr ⟨.num _, List.forall_mem_cons.mpr ⟨.str _, List.forall_mem_singleton.mpr (.arr h)⟩⟩

theorem criterionOf_distinctKeys (key : String) : DistinctKeys (criterionOf key) :=
  .obj (List.nodup_singleton _) (List.forall_mem_singleton.mpr (.str key))

/-- Every rewriting of this document has its canonical form. -/
theorem twoCriteria_normal_form :
    ∃ r, canonicalizeResolvedRubricDocument Ref compare id (rubricWith "v1" [criterionOf "B", criterionOf "A"]) = .ok r ∧
      ∀ d', Relation.EqvGen (DocumentRewrite Ref) (rubricWith "v1" [criterionOf "B", criterionOf "A"]) d' →
        canonicalizeResolvedRubricDocument Ref compare id d' = .ok r := by
  have haccepted : (canonicalizeResolvedRubricDocument Ref compare id
      (rubricWith "v1" [criterionOf "B", criterionOf "A"])).toOption.isSome = true := by decide +kernel
  cases h : canonicalizeResolvedRubricDocument Ref compare id (rubricWith "v1" [criterionOf "B", criterionOf "A"]) with
  | error e =>
    rw [h] at haccepted
    cases haccepted
  | ok r =>
    have hkeys : DistinctKeys (rubricWith "v1" [criterionOf "B", criterionOf "A"]) :=
      rubricWith_distinctKeys _ (List.forall_mem_cons.mpr
        ⟨criterionOf_distinctKeys "B", List.forall_mem_singleton.mpr (criterionOf_distinctKeys "A")⟩)
    exact ⟨r, rfl, (canonicalize_normal_form hkeys h).2.1
      (decided_of_strict (fun _ _ => Std.compare_eq_iff_eq.mp) r.document false)⟩

/-- The space before a resolver version is a difference that no rewrite makes and the text does not show;
and two criteria that differ by a soft hyphen show the order they came in. -/
theorem canonical_form_fails :
    ((canonicalizeResolvedRubricDocument Ref compare id (rubricWith " v1" [])).map (·.json) =
        .ok "\x7b\"criteria\":[],\"resolverVersion\":\"v1\",\"schemaVersion\":1\x7d" ∧
      (canonicalizeResolvedRubricDocument Ref compare id (rubricWith "v1" [])).map (·.json) =
        .ok "\x7b\"criteria\":[],\"resolverVersion\":\"v1\",\"schemaVersion\":1\x7d" ∧
      ¬ Relation.EqvGen (Rewrite Ref false) (rubricWith " v1" []) (rubricWith "v1" [])) ∧
    Rewrite Ref false (rubricWith "v1" [criterionOf "fuel1", criterionOf "fuel\u00ad1"])
        (rubricWith "v1" [criterionOf "fuel\u00ad1", criterionOf "fuel1"]) ∧
      (canonicalizeResolvedRubricDocument Ref hyphenless id
          (rubricWith "v1" [criterionOf "fuel1", criterionOf "fuel\u00ad1"])).map (·.json) ≠
        (canonicalizeResolvedRubricDocument Ref hyphenless id
          (rubricWith "v1" [criterionOf "fuel\u00ad1", criterionOf "fuel1"])).map (·.json) := by
  refine ⟨⟨by decide +kernel, by decide +kernel, fun h => ?_⟩, ?_, by decide +kernel⟩
  · have hspaced : (normalize Ref compare false (rubricWith " v1" [])).map (fun x => (x.get? "resolverVersion").bind Value.text?) =
        .ok (some " v1") := by decide +kernel
    have htrimmed : (normalize Ref compare false (rubricWith "v1" [])).map (fun x => (x.get? "resolverVersion").bind Value.text?) =
        .ok (some "v1") := by decide +kernel
    cases hx : normalize Ref compare false (rubricWith " v1" []) with
    | error e =>
      rw [hx] at hspaced
      cases hspaced
    | ok x =>
      have hsame := normalize_rewrites h (rubricWith_distinctKeys _ (by simp)) hx
        (decided_of_strict (fun _ _ => Std.compare_eq_iff_eq.mp) x false)
      rw [hx] at hspaced
      rw [hsame] at htrimmed
      have hspace := hspaced.symm.trans htrimmed
      exact absurd hspace (by decide)
  · exact @Rewrite.field Ref _ false "criteria" _ _ [("schemaVersion", .num (DecimalText.NumberText.ofNat 1)), ("resolverVersion", .str "v1")] []
      (.items (.swap _ _ _))

end RubricResolver
