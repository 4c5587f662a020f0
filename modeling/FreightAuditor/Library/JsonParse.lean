import FreightAuditor.Library.Json

/- `JSON.parse`.

   A text is read by the grammar of JSON, white space between its tokens included. A number stays the
   text it is, and an escape of half a character beyond `\\uffff` is read as a replacement
   character. `parse_texts` says that the text of an object of strings is read back. -/
namespace Json

open DecimalText

def isSpace (c : Char) : Bool := c = ' ' ∨ c = '\t' ∨ c = '\n' ∨ c = '\r'

def skipSpace (cs : List Char) : List Char := cs.dropWhile isSpace

def hexDigit? (c : Char) : Option ℕ :=
  if c.isDigit then some (c.toNat - '0'.toNat)
  else if 'a' ≤ c ∧ c ≤ 'f' then some (c.toNat - 'a'.toNat + 10)
  else if 'A' ≤ c ∧ c ≤ 'F' then some (c.toNat - 'A'.toNat + 10)
  else none

/-- The character of four hexadecimal digits. -/
def unit? (a b c d : Char) : Option Char := do
  let n := 4096 * (← hexDigit? a) + 256 * (← hexDigit? b) + 16 * (← hexDigit? c) + (← hexDigit? d)
  return if 0xd800 ≤ n ∧ n < 0xe000 then '\uFFFD' else Char.ofNat n

/-- The rest of a string, and what follows its closing quote. -/
def readString : List Char → Option (List Char × List Char)
  | [] => none
  | '"' :: rest => some ([], rest)
  | '\\' :: '"' :: rest => (readString rest).map fun p => ('"' :: p.1, p.2)
  | '\\' :: '\\' :: rest => (readString rest).map fun p => ('\\' :: p.1, p.2)
  | '\\' :: '/' :: rest => (readString rest).map fun p => ('/' :: p.1, p.2)
  | '\\' :: 'b' :: rest => (readString rest).map fun p => ('\x08' :: p.1, p.2)
  | '\\' :: 'f' :: rest => (readString rest).map fun p => ('\x0c' :: p.1, p.2)
  | '\\' :: 'n' :: rest => (readString rest).map fun p => ('\n' :: p.1, p.2)
  | '\\' :: 'r' :: rest => (readString rest).map fun p => ('\r' :: p.1, p.2)
  | '\\' :: 't' :: rest => (readString rest).map fun p => ('\t' :: p.1, p.2)
  | '\\' :: 'u' :: a :: b :: c :: d :: rest =>
    match unit? a b c d with
    | some e => (readString rest).map fun p => (e :: p.1, p.2)
    | none => none
  | '\\' :: _ => none
  | c :: rest => if c.toNat < 32 then none else (readString rest).map fun p => (c :: p.1, p.2)

/-- `-?(0|[1-9]\d*)(\.\d+)?([eE][+-]?\d+)?`. -/
def isNumber (cs : List Char) : Bool :=
  let body := if cs.head? = some '-' then cs.tail else cs
  let whole := body.takeWhile Char.isDigit
  let rest := body.dropWhile Char.isDigit
  !whole.isEmpty && (whole.length == 1 || whole.head? != some '0') &&
    match rest with
    | '.' :: fraction =>
      !(fraction.takeWhile Char.isDigit).isEmpty && (exponent? (fraction.dropWhile Char.isDigit)).isSome
    | _ => (exponent? rest).isSome

def readNumber (cs : List Char) : Option (Value × List Char) :=
  let token := cs.takeWhile isLiteralChar
  if h : (literal? token).isSome then
    if isNumber token then some (.num ⟨token, h⟩, cs.dropWhile isLiteralChar) else none
  else none

mutual

/-- One value and what follows it. Each level and each element takes one of `fuel`. -/
def readValue : ℕ → List Char → Option (Value × List Char)
  | 0, _ => none
  | fuel + 1, cs =>
    match skipSpace cs with
    | 'n' :: 'u' :: 'l' :: 'l' :: rest => some (.null, rest)
    | 't' :: 'r' :: 'u' :: 'e' :: rest => some (.bool true, rest)
    | 'f' :: 'a' :: 'l' :: 's' :: 'e' :: rest => some (.bool false, rest)
    | '"' :: rest => (readString rest).map fun p => (.str (String.ofList p.1), p.2)
    | '[' :: rest =>
      match skipSpace rest with
      | ']' :: rest => some (.arr [], rest)
      | rest => (readElems fuel rest).map fun p => (.arr p.1, p.2)
    | '{' :: rest =>
      match skipSpace rest with
      | '}' :: rest => some (.obj [], rest)
      | rest => (readFields fuel rest).map fun p => (.obj p.1, p.2)
    | rest => readNumber rest

/-- One or more values up to the closing bracket. -/
def readElems : ℕ → List Char → Option (List Value × List Char)
  | 0, _ => none
  | fuel + 1, cs =>
    match readValue fuel cs with
    | none => none
    | some (v, rest) =>
      match skipSpace rest with
      | ']' :: rest => some ([v], rest)
      | ',' :: rest => (readElems fuel rest).map fun p => (v :: p.1, p.2)
      | _ => none

/-- One or more fields up to the closing brace. -/
def readFields : ℕ → List Char → Option (List (String × Value) × List Char)
  | 0, _ => none
  | fuel + 1, cs =>
    match skipSpace cs with
    | '"' :: rest =>
      match readString rest with
      | none => none
      | some (key, rest) =>
        match skipSpace rest with
        | ':' :: rest =>
          match readValue fuel rest with
          | none => none
          | some (v, rest) =>
            match skipSpace rest with
            | '}' :: rest => some ([(String.ofList key, v)], rest)
            | ',' :: rest => (readFields fuel rest).map fun p => ((String.ofList key, v) :: p.1, p.2)
            | _ => none
        | _ => none
    | _ => none

end

/-- The value of a whole text; `none` where it throws. -/
def parse (text : List Char) : Option Value :=
  match readValue (2 * text.length + 1) text with
  | some (v, rest) => if skipSpace rest = [] then some v else none
  | none => none

/-- A field of an object; of fields with one key the last. -/
def Value.property? (key : String) : Value → Option Value
  | .obj fields => fields.reverse.lookup key
  | _ => none

/-! ## Reading texts back -/

theorem hexDigit?_hexDigit : ∀ n < 16, hexDigit? (hexDigit n) = some n := by decide

theorem readString_plain {c : Char} (hquote : c ≠ '"') (hback : c ≠ '\\') (hlow : ¬ c.toNat < 32) (rest : List Char) :
    readString (c :: rest) = (readString rest).map fun p => (c :: p.1, p.2) := by
  rw [readString.eq_def]
  split <;> simp_all

/-- An escaped character is read back. -/
theorem readString_escape (c : Char) (rest : List Char) :
    readString (escape c ++ rest) = (readString rest).map fun p => (c :: p.1, p.2) := by
  unfold escape
  split
  · subst_vars; rfl
  split
  · subst_vars; rfl
  split
  · subst_vars; rfl
  split
  · subst_vars; rfl
  split
  · subst_vars; rfl
  split
  · subst_vars; rfl
  split
  · subst_vars; rfl
  split
  · -- a control character without a short form
    rename_i hlow
    have hhi := hexDigit?_hexDigit (c.toNat / 16) (by omega)
    have hlo := hexDigit?_hexDigit (c.toNat % 16) (by omega)
    have hzero : hexDigit? '0' = some 0 := by decide
    have hc : 4096 * 0 + 256 * 0 + 16 * (c.toNat / 16) + c.toNat % 16 = c.toNat := by omega
    have hunit : unit? '0' '0' (hexDigit (c.toNat / 16)) (hexDigit (c.toNat % 16)) = some c := by
      rw [unit?, hzero, hhi, hlo]
      simp only [Option.bind_eq_bind, Option.bind_some, Option.pure_def, hc]
      rw [if_neg (by omega), Char.ofNat_toNat]
    simp only [List.cons_append, List.nil_append, readString, hunit]
  · rename_i hquote hback _ _ _ _ _ hlow
    exact readString_plain hquote hback hlow rest

/-- A quoted text is read back. -/
theorem readString_quoted (cs rest : List Char) : readString (cs.flatMap escape ++ '"' :: rest) = some (cs, rest) := by
  induction cs with
  | nil => rfl
  | cons c cs ih =>
    rw [List.flatMap_cons, List.append_assoc, readString_escape, ih]
    rfl

theorem skipSpace_cons {c : Char} (h : isSpace c = false) (rest : List Char) : skipSpace (c :: rest) = c :: rest := by
  simp [skipSpace, h]

theorem readValue_str (fuel : ℕ) (s : String) (rest : List Char) :
    readValue (fuel + 1) (quote s ++ rest) = some (.str s, rest) := by
  have hquote : quote s ++ rest = '"' :: (s.toList.flatMap escape ++ '"' :: rest) := by simp [quote]
  rw [hquote, readValue, skipSpace_cons (by decide)]
  simp [readString_quoted]

/-- The fields of an object of strings are read back. -/
theorem readFields_texts (texts : List (String × String)) (hne : texts ≠ []) (fuel : ℕ) (hfuel : texts.length < fuel) (rest : List Char) :
    readFields fuel (commaSeparated (texts.map fun f => fieldText (f.1, .str f.2)) ++ '}' :: rest) =
      some (texts.map fun f => (f.1, .str f.2), rest) := by
  induction texts generalizing fuel with
  | nil => exact absurd rfl hne
  | cons f others ih =>
    obtain ⟨fuel, rfl⟩ : ∃ n, fuel = n + 2 := ⟨fuel - 2, by simp only [List.length_cons] at hfuel; omega⟩
    have hfield (tail : List Char) : fieldText (f.1, .str f.2) ++ tail =
        '"' :: (f.1.toList.flatMap escape ++ '"' :: (':' :: (quote f.2 ++ tail))) := by
      simp [fieldText, quote, render]
    cases others with
    | nil =>
      rw [List.map_singleton, List.map_singleton, commaSeparated, hfield, readFields, skipSpace_cons (by decide)]
      simp only [readString_quoted]
      rw [skipSpace_cons (by decide)]
      simp only [readValue_str]
      rw [skipSpace_cons (by decide)]
      simp
    | cons g others =>
      have htail : commaSeparated ((f :: g :: others).map fun f => fieldText (f.1, .str f.2)) ++ '}' :: rest =
          fieldText (f.1, .str f.2) ++ ',' :: (commaSeparated ((g :: others).map fun f => fieldText (f.1, .str f.2)) ++ '}' :: rest) := by
        simp [commaSeparated]
      rw [htail, hfield, readFields, skipSpace_cons (by decide)]
      simp only [readString_quoted]
      rw [skipSpace_cons (by decide)]
      simp only [readValue_str]
      rw [skipSpace_cons (by decide)]
      simp only [ih (List.cons_ne_nil _ _) (fuel + 1) (by simp only [List.length_cons] at hfuel ⊢; omega)]
      simp

theorem length_le_commaSeparated (texts : List (String × String)) :
    texts.length ≤ (commaSeparated (texts.map fun f => fieldText (f.1, .str f.2))).length + 1 := by
  induction texts with
  | nil => exact Nat.zero_le _
  | cons f others ih =>
    cases others with
    | nil => exact Nat.le_add_left _ _
    | cons g others =>
      have htail : commaSeparated ((f :: g :: others).map fun f => fieldText (f.1, .str f.2)) =
          fieldText (f.1, .str f.2) ++ ',' :: commaSeparated ((g :: others).map fun f => fieldText (f.1, .str f.2)) := by
        simp [commaSeparated]
      rw [htail, List.length_append, List.length_cons]
      simp only [List.length_cons] at ih ⊢
      omega

/-- The text of an object of strings is read back. -/
theorem parse_texts (texts : List (String × String)) (hne : texts ≠ []) :
    parse (render (.obj (texts.map fun f => (f.1, .str f.2)))) = some (.obj (texts.map fun f => (f.1, .str f.2))) := by
  have hrender : render (.obj (texts.map fun f => (f.1, .str f.2))) =
      '{' :: (commaSeparated (texts.map fun f => fieldText (f.1, .str f.2)) ++ ['}']) := by
    rw [render, renderFields_eq_map, List.map_map]
    rfl
  have hlength := length_le_commaSeparated texts
  have hfields := readFields_texts texts hne
    (2 * ((commaSeparated (texts.map fun f => fieldText (f.1, .str f.2))).length + 1 + 1)) (by omega) []
  have hquote : ∃ tail, commaSeparated (texts.map fun f => fieldText (f.1, .str f.2)) ++ ['}'] = '"' :: tail := by
    obtain ⟨f, others, rfl⟩ := List.exists_cons_of_ne_nil hne
    cases others <;> exact ⟨_, rfl⟩
  rw [hrender, parse, List.length_cons, List.length_append, List.length_singleton, readValue, skipSpace_cons (by decide)]
  obtain ⟨tail, htail⟩ := hquote
  rw [htail] at hfields ⊢
  simp only [skipSpace_cons (show isSpace '"' = false by decide)]
  simp [hfields, skipSpace]

end Json
