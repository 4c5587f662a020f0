import Mathlib.Data.List.Sort
import FreightAuditor.Library.DecimalJs

/- JSON values and the text `JSON.stringify` gives them.

   An object is the list of its fields in order. `render` is compact text;
   `render_injective` says that two values with one text are one value. `sortKeys`
   puts the fields of every object in key order, so that `canonicalText` depends
   only on which fields an object has, and reading a field (`get?`) commutes with
   it (`get?_sortKeys`). -/
namespace Json

open DecimalText DecimalJs

inductive Value where
  | null
  | bool (b : Bool)
  | num (t : NumberText)
  | str (s : String)
  | arr (elems : List Value)
  | obj (fields : List (String × Value))

/-- A JavaScript number in JSON: `null` where it is not finite. -/
def Value.ofNumber : JsNumber → Value
  | .fin t => .num t
  | _ => .null

/-- Induction over a value, with the hypothesis for each element and each field. -/
@[elab_as_elim]
theorem Value.induction {P : Value → Prop} (null : P .null) (bool : ∀ b, P (.bool b))
    (num : ∀ t, P (.num t)) (str : ∀ s, P (.str s))
    (arr : ∀ elems, (∀ v ∈ elems, P v) → P (.arr elems))
    (obj : ∀ fields, (∀ f ∈ fields, P f.2) → P (.obj fields)) (v : Value) : P v :=
  Value.rec (motive_1 := P) (motive_2 := fun l => ∀ v ∈ l, P v)
    (motive_3 := fun l => ∀ f ∈ l, P f.2) (motive_4 := fun f => P f.2)
    null bool num str arr obj
    (by simp)
    (fun _ _ h ih => by simpa using ⟨h, ih⟩)
    (by simp)
    (fun _ _ h ih => by
      intro f hf
      rcases List.mem_cons.mp hf with rfl | hf
      · exact h
      · exact ih f hf)
    (fun _ _ h => h) v

/-! ## Text -/

def hexDigit (n : ℕ) : Char := (Nat.toDigits 16 n).getLastD '0'

/-- One character inside a string. -/
def escape (c : Char) : List Char :=
  if c = '"' then ['\\', '"']
  else if c = '\\' then ['\\', '\\']
  else if c = '\x08' then ['\\', 'b']
  else if c = '\t' then ['\\', 't']
  else if c = '\n' then ['\\', 'n']
  else if c = '\x0c' then ['\\', 'f']
  else if c = '\r' then ['\\', 'r']
  else if c.toNat < 32 then ['\\', 'u', '0', '0', hexDigit (c.toNat / 16), hexDigit (c.toNat % 16)]
  else [c]

def quote (s : String) : List Char :=
  '"' :: (s.toList.flatMap escape ++ ['"'])

def commaSeparated : List (List Char) → List Char
  | [] => []
  | [x] => x
  | x :: y :: rest => x ++ ',' :: commaSeparated (y :: rest)

mutual

/-- `JSON.stringify` without spaces. -/
def render : Value → List Char
  | .null => "null".toList
  | .bool true => "true".toList
  | .bool false => "false".toList
  | .num t => t.chars
  | .str s => quote s
  | .arr elems => '[' :: (commaSeparated (renderElems elems) ++ [']'])
  | .obj fields => '{' :: (commaSeparated (renderFields fields) ++ ['}'])

def renderElems : List Value → List (List Char)
  | [] => []
  | v :: rest => render v :: renderElems rest

def renderFields : List (String × Value) → List (List Char)
  | [] => []
  | (k, v) :: rest => (quote k ++ ':' :: render v) :: renderFields rest

end

theorem renderElems_eq_map (l : List Value) : renderElems l = l.map render := by
  induction l with
  | nil => rfl
  | cons v rest ih => simp [renderElems, ih]

theorem renderFields_eq_map (l : List (String × Value)) :
    renderFields l = l.map (fun f => quote f.1 ++ ':' :: render f.2) := by
  induction l with
  | nil => rfl
  | cons f rest ih => simp [renderFields, ih]

/-! ## One text, one value -/

def hexValue (c : Char) : ℕ :=
  if c.isDigit then c.toNat - '0'.toNat else c.toNat - 'a'.toNat + 10

/-- Reads one character of a string back; `none` at the closing quote. -/
def unescape : List Char → Option (Char × List Char)
  | '\\' :: 'u' :: '0' :: '0' :: a :: b :: rest => some (Char.ofNat (16 * hexValue a + hexValue b), rest)
  | '\\' :: 'b' :: rest => some ('\x08', rest)
  | '\\' :: 't' :: rest => some ('\t', rest)
  | '\\' :: 'n' :: rest => some ('\n', rest)
  | '\\' :: 'f' :: rest => some ('\x0c', rest)
  | '\\' :: 'r' :: rest => some ('\r', rest)
  | '\\' :: c :: rest => some (c, rest)
  | '"' :: _ => none
  | c :: rest => some (c, rest)
  | [] => none

theorem hexValue_hexDigit : ∀ n < 16, hexValue (hexDigit n) = n := by decide

theorem unescape_escape (c : Char) (rest : List Char) : unescape (escape c ++ rest) = some (c, rest) := by
  unfold escape
  split
  · subst_vars; rfl
  split
  · subst_vars; rfl
  split
  · subst_vars; rfl
  split
  · subst_vars; rfl
  split
  · subst_vars; rfl
  split
  · subst_vars; rfl
  split
  · subst_vars; rfl
  split
  · -- a control character without a short form
    rename_i hlow
    have hhi := hexValue_hexDigit (c.toNat / 16) (by omega)
    have hlo := hexValue_hexDigit (c.toNat % 16) (by omega)
    have hc : 16 * (c.toNat / 16) + c.toNat % 16 = c.toNat := by omega
    simp only [List.cons_append, List.nil_append, unescape, hhi, hlo, hc, Char.ofNat_toNat]
  · rename_i hquote hback _ _ _ _ _ _
    simp only [List.cons_append, List.nil_append]
    rw [unescape.eq_def]
    split <;> simp_all

/-- A quoted string ends where its closing quote is. -/
theorem quote_append_inj {a b : String} {s t : List Char} (h : quote a ++ s = quote b ++ t) :
    a = b ∧ s = t := by
  have main : ∀ (x y : List Char), x.flatMap escape ++ '"' :: s = y.flatMap escape ++ '"' :: t →
      x = y ∧ s = t := by
    intro x
    induction x with
    | nil =>
      intro y hxy
      cases y with
      | nil => simpa using hxy
      | cons d y =>
        have hd := unescape_escape d (y.flatMap escape ++ '"' :: t)
        rw [← List.append_assoc, ← List.flatMap_cons, ← hxy] at hd
        cases hd
    | cons c x ih =>
      intro y hxy
      have hc := unescape_escape c (x.flatMap escape ++ '"' :: s)
      rw [← List.append_assoc, ← List.flatMap_cons, hxy] at hc
      cases y with
      | nil => cases hc
      | cons d y =>
        have hd := unescape_escape d (y.flatMap escape ++ '"' :: t)
        rw [← List.append_assoc, ← List.flatMap_cons, hc] at hd
        simp only [Option.some.injEq, Prod.mk.injEq] at hd
        obtain ⟨rfl, hrest⟩ := hd
        obtain ⟨rfl, hst⟩ := ih y hrest
        exact ⟨rfl, hst⟩
  simp only [quote, List.cons_append, List.append_assoc, List.nil_append, List.cons.injEq,
    true_and] at h
  obtain ⟨hl, hst⟩ := main _ _ h
  exact ⟨String.toList_inj.mp hl, hst⟩

/-- What follows a value in a text: nothing, or a character no number contains. -/
def Ends (s : List Char) : Prop := ∀ c ∈ s.head?, isLiteralChar c = false

theorem ends_nil : Ends [] := by simp [Ends]
theorem ends_cons {c : Char} {s : List Char} (h : isLiteralChar c = false) : Ends (c :: s) := by
  simpa [Ends] using h

theorem number_append_inj {x y s t : List Char} (hx : ∀ c ∈ x, isLiteralChar c = true)
    (hy : ∀ c ∈ y, isLiteralChar c = true) (hs : Ends s) (ht : Ends t) (h : x ++ s = y ++ t) :
    x = y ∧ s = t := by
  induction x generalizing y with
  | nil =>
    cases y with
    | nil => exact ⟨rfl, h⟩
    | cons d y =>
      have : isLiteralChar d = false := hs d (by simp only [List.nil_append] at h; simp [h])
      rw [hy d (by simp)] at this
      cases this
  | cons c x ih =>
    cases y with
    | nil =>
      have : isLiteralChar c = false := ht c (by simp only [List.nil_append] at h; simp [← h])
      rw [hx c (by simp)] at this
      cases this
    | cons d y =>
      simp only [List.cons_append, List.cons.injEq] at h
      obtain ⟨rfl, hrest⟩ := h
      obtain ⟨rfl, hst⟩ := ih (fun c hc => hx c (List.mem_cons_of_mem _ hc))
        (fun c hc => hy c (List.mem_cons_of_mem _ hc)) hrest
      exact ⟨rfl, hst⟩

/-- The characters of a number; there is at least one. -/
theorem number_chars (t : NumberText) : ∀ c ∈ t.chars, isLiteralChar c = true :=
  literal?_chars t.isLiteral

theorem number_ne_nil (t : NumberText) : t.chars ≠ [] := by
  intro h
  have := t.isLiteral
  rw [h] at this
  exact absurd this (by decide)

theorem number_cons (t : NumberText) : ∃ c r, t.chars = c :: r ∧ isLiteralChar c = true := by
  cases h : t.chars with
  | nil => exact absurd h (number_ne_nil t)
  | cons c r => exact ⟨c, r, rfl, number_chars t c (by simp [h])⟩

/-- The kind of a value, as a character: a digit for a number, else how its text starts. -/
def kindOf : Value → Char
  | .null => 'n'
  | .bool true => 't'
  | .bool false => 'f'
  | .num _ => '0'
  | .str _ => '"'
  | .arr _ => '['
  | .obj _ => '{'

/-- The kind of the value a text starting with `c` is of. -/
def kindAt (c : Char) : Char := if isLiteralChar c then '0' else c

theorem render_cons (v : Value) : ∃ c r, render v = c :: r ∧ kindAt c = kindOf v := by
  cases v with
  | null => exact ⟨_, _, rfl, by decide⟩
  | bool b => cases b <;> exact ⟨_, _, rfl, by decide⟩
  | num t =>
    obtain ⟨c, r, h, hc⟩ := number_cons t
    exact ⟨c, r, by simp only [render, h], by simp [kindAt, kindOf, hc]⟩
  | str s => exact ⟨_, _, rfl, rfl⟩
  | arr l => exact ⟨_, _, rfl, rfl⟩
  | obj l => exact ⟨_, _, rfl, rfl⟩

theorem same_kind {v w : Value} {s t : List Char} (h : render v ++ s = render w ++ t) :
    kindOf v = kindOf w := by
  obtain ⟨c, r, hv, hc⟩ := render_cons v
  obtain ⟨d, q, hw, hd⟩ := render_cons w
  rw [hv, hw, List.cons_append, List.cons_append, List.cons.injEq] at h
  rw [← hc, ← hd, h.1]

theorem render_ne_close {v : Value} {close : Char} (hclose : close = ']' ∨ close = '}') :
    ∃ c r, render v = c :: r ∧ c ≠ close := by
  obtain ⟨c, r, hv, hc⟩ := render_cons v
  refine ⟨c, r, hv, ?_⟩
  rintro rfl
  have hkind : kindOf v = c := by
    rcases hclose with rfl | rfl <;> exact hc.symm.trans (by decide)
  cases v with
  | bool b => cases b <;> rcases hclose with rfl | rfl <;> simp [kindOf] at hkind
  | _ => rcases hclose with rfl | rfl <;> simp [kindOf] at hkind

theorem commaSeparated_cons (x : List Char) (rest : List (List Char)) :
    commaSeparated (x :: rest) = x ++ rest.flatMap (fun y => ',' :: y) := by
  induction rest generalizing x with
  | nil => simp [commaSeparated]
  | cons y rest ih => simp [commaSeparated, ih]

/-- `f` can be read back from in front of anything that ends a value. -/
def ReadsBack {α : Type} (f : α → List Char) (a : α) : Prop :=
  ∀ b s t, Ends s → Ends t → f a ++ s = f b ++ t → a = b ∧ s = t

theorem ends_tail {α : Type} (f : α → List Char) (l : List α) {close : Char} (s : List Char)
    (hclose : isLiteralChar close = false) :
    Ends ((l.map f).flatMap (fun y => ',' :: y) ++ close :: s) := by
  cases l with
  | nil => exact ends_cons hclose
  | cons a l => exact ends_cons (by decide)

theorem tail_append_inj {α : Type} {f : α → List Char} {close : Char}
    (hclose : isLiteralChar close = false) (hcomma : close ≠ ',') (l m : List α) (s t : List Char)
    (hl : ∀ a ∈ l, ReadsBack f a)
    (h : (l.map f).flatMap (fun y => ',' :: y) ++ close :: s =
      (m.map f).flatMap (fun y => ',' :: y) ++ close :: t) : l = m ∧ s = t := by
  induction l generalizing m with
  | nil =>
    cases m with
    | nil => simpa using h
    | cons b m =>
      simp only [List.map_nil, List.flatMap_nil, List.nil_append, List.map_cons, List.flatMap_cons,
        List.cons_append, List.cons.injEq] at h
      exact absurd h.1 hcomma
  | cons a l ih =>
    cases m with
    | nil =>
      simp only [List.map_nil, List.flatMap_nil, List.nil_append, List.map_cons, List.flatMap_cons,
        List.cons_append, List.cons.injEq] at h
      exact absurd h.1.symm hcomma
    | cons b m =>
      simp only [List.map_cons, List.flatMap_cons, List.cons_append, List.append_assoc,
        List.cons.injEq, true_and] at h
      obtain ⟨rfl, hrest⟩ := hl a (by simp) b _ _ (ends_tail f l s hclose) (ends_tail f m t hclose) h
      obtain ⟨rfl, hst⟩ := ih m (fun a ha => hl a (List.mem_cons_of_mem _ ha)) hrest
      exact ⟨rfl, hst⟩

theorem commaSeparated_append_inj {α : Type} {f : α → List Char} {close : Char}
    (hclose : isLiteralChar close = false) (hcomma : close ≠ ',')
    (hhead : ∀ a, ∃ c r, f a = c :: r ∧ c ≠ close) (l m : List α) (s t : List Char)
    (hl : ∀ a ∈ l, ReadsBack f a)
    (h : commaSeparated (l.map f) ++ close :: s = commaSeparated (m.map f) ++ close :: t) :
    l = m ∧ s = t := by
  cases l with
  | nil =>
    cases m with
    | nil => simpa [commaSeparated] using h
    | cons b m =>
      obtain ⟨c, r, hb, hc⟩ := hhead b
      simp only [List.map_nil, List.map_cons, commaSeparated_cons, commaSeparated, hb,
        List.nil_append, List.cons_append, List.cons.injEq] at h
      exact absurd h.1.symm hc
  | cons a l =>
    cases m with
    | nil =>
      obtain ⟨c, r, ha, hc⟩ := hhead a
      simp only [List.map_nil, List.map_cons, commaSeparated_cons, commaSeparated, ha,
        List.nil_append, List.cons_append, List.cons.injEq] at h
      exact absurd h.1 hc
    | cons b m =>
      simp only [List.map_cons, commaSeparated_cons, List.append_assoc] at h
      obtain ⟨rfl, hrest⟩ := hl a (by simp) b _ _ (ends_tail f l s hclose) (ends_tail f m t hclose) h
      obtain ⟨rfl, hst⟩ := tail_append_inj hclose hcomma l m s t
        (fun a ha => hl a (List.mem_cons_of_mem _ ha)) hrest
      exact ⟨rfl, hst⟩

def fieldText (f : String × Value) : List Char := quote f.1 ++ ':' :: render f.2

theorem field_readsBack {f : String × Value} (h : ReadsBack render f.2) : ReadsBack fieldText f := by
  intro g s t hs ht hfg
  simp only [fieldText, List.append_assoc] at hfg
  obtain ⟨hk, hrest⟩ := quote_append_inj hfg
  simp only [List.cons_append, List.cons.injEq, true_and] at hrest
  obtain ⟨hv, hst⟩ := h g.2 s t hs ht hrest
  exact ⟨Prod.ext hk hv, hst⟩

/-- Whatever follows it, a value's text determines the value. -/
theorem render_readsBack (v : Value) : ReadsBack render v := by
  induction v using Value.induction with
  | null =>
    intro w s t _ _ h
    have hkind := same_kind h
    cases w with
    | null => exact ⟨rfl, List.append_cancel_left h⟩
    | bool b => cases b <;> simp [kindOf] at hkind
    | _ => simp [kindOf] at hkind
  | bool b =>
    intro w s t _ _ h
    have hkind := same_kind h
    cases w with
    | bool b' =>
      cases b <;> cases b'
      · exact ⟨rfl, List.append_cancel_left h⟩
      · simp [kindOf] at hkind
      · simp [kindOf] at hkind
      · exact ⟨rfl, List.append_cancel_left h⟩
    | _ => cases b <;> simp [kindOf] at hkind
  | num x =>
    intro w s t hs ht h
    have hkind := same_kind h
    cases w with
    | num y =>
      obtain ⟨hxy, hst⟩ := number_append_inj (number_chars x) (number_chars y) hs ht h
      obtain ⟨cx, hx⟩ := x
      obtain ⟨cy, hy⟩ := y
      subst hxy
      exact ⟨rfl, hst⟩
    | bool b => cases b <;> simp [kindOf] at hkind
    | _ => simp [kindOf] at hkind
  | str x =>
    intro w s t _ _ h
    have hkind := same_kind h
    cases w with
    | str y =>
      obtain ⟨rfl, hst⟩ := quote_append_inj h
      exact ⟨rfl, hst⟩
    | bool b => cases b <;> simp [kindOf] at hkind
    | _ => simp [kindOf] at hkind
  | arr l ih =>
    intro w s t _ _ h
    have hkind := same_kind h
    cases w with
    | arr m =>
      simp only [render, renderElems_eq_map, List.cons_append, List.append_assoc, List.nil_append,
        List.cons.injEq, true_and] at h
      obtain ⟨rfl, hst⟩ := commaSeparated_append_inj (by decide) (by decide)
        (fun _ => render_ne_close (.inl rfl)) l m s t ih h
      exact ⟨rfl, hst⟩
    | bool b => cases b <;> simp [kindOf] at hkind
    | _ => simp [kindOf] at hkind
  | obj l ih =>
    intro w s t _ _ h
    have hkind := same_kind h
    cases w with
    | obj m =>
      simp only [render, renderFields_eq_map, List.cons_append, List.append_assoc, List.nil_append,
        List.cons.injEq, true_and] at h
      obtain ⟨rfl, hst⟩ := commaSeparated_append_inj (f := fieldText) (by decide) (by decide)
        (fun _ => ⟨_, _, rfl, by decide⟩) l m s t (fun f hf => field_readsBack (ih f hf)) h
      exact ⟨rfl, hst⟩
    | bool b => cases b <;> simp [kindOf] at hkind
    | _ => simp [kindOf] at hkind

/-- Two values with one text are one value. -/
theorem render_injective : Function.Injective render := by
  intro v w h
  exact (render_readsBack v w [] [] ends_nil ends_nil (by rw [h])).1

/-! ## Key order -/

/-- Key order; a field stays in front of a later one with the same key. -/
def keyLe (f g : String × Value) : Prop := f.1 ≤ g.1

instance : DecidableRel keyLe := fun f g => inferInstanceAs (Decidable (f.1 ≤ g.1))

mutual

/-- The fields of every object in key order. -/
def sortKeys : Value → Value
  | .arr elems => .arr (sortElems elems)
  | .obj fields => .obj ((sortFields fields).insertionSort keyLe)
  | v => v

def sortElems : List Value → List Value
  | [] => []
  | v :: rest => sortKeys v :: sortElems rest

def sortFields : List (String × Value) → List (String × Value)
  | [] => []
  | (k, v) :: rest => (k, sortKeys v) :: sortFields rest

end

/-- Text that does not depend on the order of fields. -/
def canonicalText (v : Value) : List Char := render (sortKeys v)

theorem sortElems_eq_map (l : List Value) : sortElems l = l.map sortKeys := by
  induction l with
  | nil => rfl
  | cons v rest ih => simp [sortElems, ih]

/-- The first field with the key. -/
def Value.get? (key : String) : Value → Option Value
  | .obj fields => fields.lookup key
  | _ => none

/-- The characters of a string. -/
def Value.text? : Value → Option String
  | .str s => some s
  | _ => none

theorem lookup_sortFields (key : String) (l : List (String × Value)) :
    (sortFields l).lookup key = (l.lookup key).map sortKeys := by
  induction l with
  | nil => rfl
  | cons f rest ih =>
    obtain ⟨k, v⟩ := f
    simp only [sortFields, List.lookup_cons, ih]
    cases key == k <;> rfl

/-- An order of fields that keeps fields with one key as they are. -/
theorem lookup_orderedInsert {le : String × Value → String × Value → Prop} [DecidableRel le]
    (hle : ∀ f g, f.1 = g.1 → le f g) (key : String) (f : String × Value) (l : List (String × Value)) :
    (l.orderedInsert le f).lookup key = (f :: l).lookup key := by
  induction l with
  | nil => rfl
  | cons g rest ih =>
    rw [List.orderedInsert_cons]
    split
    · rfl
    · -- a field is moved behind fields with other keys only
      rename_i hnot
      obtain ⟨k, v⟩ := f
      obtain ⟨k', v'⟩ := g
      have hne : k ≠ k' := fun h => hnot (hle _ _ h)
      rw [List.lookup_cons, ih, List.lookup_cons, List.lookup_cons, List.lookup_cons]
      by_cases hk : key = k
      · subst hk
        simp [beq_eq_false_iff_ne.mpr hne]
      · simp [beq_eq_false_iff_ne.mpr hk]

theorem lookup_insertionSort {le : String × Value → String × Value → Prop} [DecidableRel le]
    (hle : ∀ f g, f.1 = g.1 → le f g) (key : String) (l : List (String × Value)) :
    (l.insertionSort le).lookup key = l.lookup key := by
  induction l with
  | nil => rfl
  | cons f rest ih =>
    obtain ⟨k, v⟩ := f
    rw [List.insertionSort_cons, lookup_orderedInsert hle, List.lookup_cons, ih, List.lookup_cons]

theorem keyLe_of_eq (f g : String × Value) (h : f.1 = g.1) : keyLe f g := by
  unfold keyLe
  exact h ▸ String.le_refl _

/-- Reading a field commutes with putting fields in order. -/
@[simp] theorem get?_sortKeys (key : String) (v : Value) :
    (sortKeys v).get? key = (v.get? key).map sortKeys := by
  cases v <;> simp [sortKeys, Value.get?, lookup_insertionSort keyLe_of_eq, lookup_sortFields]

theorem sortFields_eq_map (l : List (String × Value)) : sortFields l = l.map fun f => (f.1, sortKeys f.2) := by
  induction l with
  | nil => rfl
  | cons f rest ih => simp [sortFields, ih]

/-- Fields of different keys have one order. -/
theorem sortKeys_obj_perm {fields fields' : List (String × Value)} (hperm : fields'.Perm fields)
    (hnodup : (fields.map Prod.fst).Nodup) : sortKeys (.obj fields') = sortKeys (.obj fields) := by
  have : IsTrans (String × Value) keyLe := ⟨fun _ _ _ => String.le_trans⟩
  have : Std.Total (α := String × Value) keyLe := ⟨fun f g => String.le_total f.1 g.1⟩
  have hsorted : (sortFields fields').Perm (sortFields fields) := by
    rw [sortFields_eq_map, sortFields_eq_map]
    exact hperm.map _
  have hkeys : ((sortFields fields).map Prod.fst).Nodup := by
    rw [sortFields_eq_map, List.map_map]
    exact hnodup
  have hsame := (List.perm_insertionSort keyLe (sortFields fields')).trans
    (hsorted.trans (List.perm_insertionSort keyLe (sortFields fields)).symm)
  rw [sortKeys, sortKeys, Value.obj.injEq]
  refine hsame.eq_of_pairwise (fun f g hf hg hfg hgf => ?_) (List.pairwise_insertionSort keyLe _)
    (List.pairwise_insertionSort keyLe _)
  have hf' : f ∈ sortFields fields := hsorted.mem_iff.mp ((List.mem_insertionSort keyLe).mp hf)
  exact List.inj_on_of_nodup_map hkeys hf' ((List.mem_insertionSort keyLe).mp hg) (String.le_antisymm hfg hgf)

/-- The fields of two objects with one canonical text. -/
theorem field_eq {v w : Value} (h : sortKeys v = sortKeys w) (key : String) :
    (v.get? key).map sortKeys = (w.get? key).map sortKeys := by
  rw [← get?_sortKeys, ← get?_sortKeys, h]

theorem value_eq {v w x y : Value} (key : String) (h : sortKeys v = sortKeys w) (hx : v.get? key = some x)
    (hy : w.get? key = some y) : sortKeys x = sortKeys y := by
  have hfield := field_eq h key
  rw [hx, hy] at hfield
  exact Option.some.inj hfield

/-- Lists of what is read back from its text are read back from theirs. -/
theorem sortKeys_arr_injective {α : Type} {f : α → Value} (hf : Function.Injective fun a => sortKeys (f a)) :
    Function.Injective fun l : List α => sortKeys (.arr (l.map f)) := by
  intro l m h
  have helems := Value.arr.inj h
  rw [sortElems_eq_map, sortElems_eq_map, List.map_map, List.map_map] at helems
  exact List.map_injective_iff.mpr hf helems

theorem canonicalText_inj {v w : Value} : canonicalText v = canonicalText w ↔ sortKeys v = sortKeys w :=
  render_injective.eq_iff

end Json
