import Mathlib.Algebra.Ring.Nat
import Mathlib.Data.List.DropRight

/- JavaScript string operations, over the characters of a string. -/
namespace JsText

/-- White space and line terminators, as `String.prototype.trim` has them. -/
def isWhiteSpace (c : Char) : Bool :=
  let n := c.toNat
  (9 ≤ n && n ≤ 13) || n == 0x20 || n == 0xa0 || n == 0x1680 || (0x2000 ≤ n && n ≤ 0x200a) ||
    n == 0x2028 || n == 0x2029 || n == 0x202f || n == 0x205f || n == 0x3000 || n == 0xfeff

def trimChars (cs : List Char) : List Char := (cs.dropWhile isWhiteSpace).rdropWhile isWhiteSpace

def trim (s : String) : String := String.ofList (trimChars s.toList)

/-- `length`: UTF-16 code units. -/
def length (s : String) : ℕ := (s.toList.map (fun c => if c.toNat < 0x10000 then 1 else 2)).sum

/-- `btrim` of the database, which strips spaces and nothing else. -/
def btrim (s : String) : String :=
  String.ofList ((s.toList.dropWhile (· == ' ')).rdropWhile (· == ' '))

/-- Equal but for the case of ASCII letters. -/
def EqualIgnoringAsciiCase (a b : String) : Prop := a.toList.map Char.toLower = b.toList.map Char.toLower

instance (a b : String) : Decidable (EqualIgnoringAsciiCase a b) := inferInstanceAs (Decidable (_ = _))

/-- What a platform takes from its Unicode and collation tables: `toLowerCase` and `localeCompare` of
JavaScript, and `lower` of the database. -/
structure Unicode where
  toLowerCase : String → String
  localeCompare : String → String → Ordering
  lower : String → String

/-- The tables restricted to ASCII. -/
def Unicode.ascii : Unicode where
  toLowerCase s := String.ofList (s.toList.map Char.toLower)
  localeCompare a b := compare a b
  lower s := String.ofList (s.toList.map Char.toLower)

/-- What the tables of every locale but the Turkic ones have in common. -/
structure Unicode.CaseLaws (unicode : Unicode) : Prop where
  toLowerCase_congr : ∀ a b, EqualIgnoringAsciiCase a b → unicode.toLowerCase a = unicode.toLowerCase b
  lower_congr : ∀ a b, EqualIgnoringAsciiCase a b → unicode.lower a = unicode.lower b
  /-- Only letters have a lower case, and it is no white space. -/
  trim_lower : ∀ s, trim (unicode.lower s) = unicode.lower s ↔ trim s = s

/-! ## White space at the ends -/

section strip

variable {α : Type} {p q : α → Bool}

theorem dropWhile_dropWhile_of_imp (h : ∀ a, p a → q a) (l : List α) :
    (l.dropWhile p).dropWhile q = l.dropWhile q := by
  induction l with
  | nil => rfl
  | cons a l ih =>
    by_cases ha : p a
    · rw [List.dropWhile_cons_of_pos ha, ih, List.dropWhile_cons_of_pos (h a ha)]
    · rw [List.dropWhile_cons_of_neg ha]

theorem rdropWhile_rdropWhile_of_imp (h : ∀ a, p a → q a) (l : List α) :
    (l.rdropWhile p).rdropWhile q = l.rdropWhile q := by
  simp only [List.rdropWhile, List.reverse_reverse, dropWhile_dropWhile_of_imp h]

/-- Stripping less at the end first does not show at the front. -/
theorem dropWhile_rdropWhile_of_imp (h : ∀ a, p a → q a) (l : List α) :
    (l.rdropWhile p).dropWhile q = (l.dropWhile q).rdropWhile p := by
  induction l using List.reverseRecOn with
  | nil => rfl
  | append_singleton l a ih =>
    by_cases ha : p a
    · have hdrop : (l ++ [a]).dropWhile q = l.dropWhile q ∨ l.dropWhile q ≠ [] ∧
          (l ++ [a]).dropWhile q = l.dropWhile q ++ [a] := by
        rw [List.dropWhile_append]
        cases hl : l.dropWhile q with
        | nil => simp [h a ha]
        | cons b t => simp
      rw [List.rdropWhile_concat_pos p l a ha, ih]
      obtain hd | ⟨-, hd⟩ := hdrop
      · rw [hd]
      · rw [hd, List.rdropWhile_concat_pos p _ a ha]
    · rw [List.rdropWhile_concat_neg p l a ha, List.dropWhile_append]
      cases hl : l.dropWhile q with
      | nil =>
        by_cases hqa : q a
        · simp [hqa]
        · simp [hqa, List.rdropWhile_singleton, ha]
      | cons b t => exact (List.rdropWhile_concat_neg p (b :: t) a ha).symm

end strip

theorem trim_btrim (s : String) : trim (btrim s) = trim s := by
  have h : ∀ c : Char, (c == ' ') = true → isWhiteSpace c = true := by
    intro c hc
    rw [eq_of_beq hc]
    decide
  simp only [trim, btrim, trimChars, String.toList_ofList]
  rw [dropWhile_rdropWhile_of_imp h, dropWhile_dropWhile_of_imp h, rdropWhile_rdropWhile_of_imp h]

theorem trim_trim (s : String) : trim (trim s) = trim s := by
  simp only [trim, trimChars, String.toList_ofList]
  rw [dropWhile_rdropWhile_of_imp (fun _ h => h), dropWhile_dropWhile_of_imp (fun _ h => h),
    rdropWhile_rdropWhile_of_imp (fun _ h => h)]

theorem trim_eq_self {s : String} (hhead : ∀ c ∈ s.toList.head?, isWhiteSpace c = false)
    (hlast : ∀ c ∈ s.toList.getLast?, isWhiteSpace c = false) : trim s = s := by
  have hfront : s.toList.dropWhile isWhiteSpace = s.toList := by
    cases h : s.toList with
    | nil => rfl
    | cons c cs => exact List.dropWhile_cons_of_neg (by simp [hhead c (by simp [h])])
  have hback : s.toList.rdropWhile isWhiteSpace = s.toList := by
    rw [List.rdropWhile_eq_self_iff]
    intro hne
    simp [hlast _ (List.getLast?_eq_getLast_of_ne_nil hne)]
  rw [trim, trimChars, hfront, hback, String.ofList_toList]

/-- The two ways of stripping and lowering agree on a text whose outer white space is spaces. -/
theorem Unicode.CaseLaws.lower_btrim {unicode : Unicode} (laws : unicode.CaseLaws) {a b : String}
    (hab : EqualIgnoringAsciiCase (trim a) (trim b)) :
    unicode.lower (btrim a) = unicode.lower (trim b) ↔ btrim a = trim a := by
  rw [← laws.lower_congr _ _ hab]
  refine ⟨fun h => ?_, fun h => by rw [h]⟩
  have htrimmed : trim (unicode.lower (btrim a)) = unicode.lower (btrim a) := by
    rw [h]
    exact (laws.trim_lower (trim a)).mpr (trim_trim a)
  calc btrim a = trim (btrim a) := ((laws.trim_lower _).mp htrimmed).symm
    _ = trim a := trim_btrim a

/-! ## ASCII -/

theorem isWhiteSpace_toLower (c : Char) : isWhiteSpace c.toLower = isWhiteSpace c := by
  have hletter : ∀ d : Char, 65 ≤ d.toNat → d.toNat ≤ 122 → isWhiteSpace d = false := by
    intro d hd hd'
    simp only [isWhiteSpace, Bool.or_eq_false_iff, Bool.and_eq_false_iff, decide_eq_false_iff_not,
      beq_eq_false_iff_ne]
    omega
  by_cases hc : c.val ≥ 'A'.val ∧ c.val ≤ 'Z'.val
  · have h65 : 65 ≤ c.val.toNat := UInt32.le_iff_toNat_le.mp hc.1
    have h90 : c.val.toNat ≤ 90 := UInt32.le_iff_toNat_le.mp hc.2
    have hlower : c.toLower.val.toNat = c.val.toNat + 32 := by
      change (dite _ _ _ : Char).val.toNat = _
      rw [dif_pos hc, UInt32.toNat_add]
      exact Nat.mod_eq_of_lt (by change c.val.toNat + 32 < _; omega)
    rw [hletter c h65 (by change c.val.toNat ≤ _; omega),
      hletter c.toLower (by change _ ≤ c.toLower.val.toNat; omega) (by change c.toLower.val.toNat ≤ _; omega)]
  · exact congrArg isWhiteSpace (dif_neg hc)

theorem trimChars_map_toLower (cs : List Char) :
    trimChars (cs.map Char.toLower) = (trimChars cs).map Char.toLower := by
  have h : isWhiteSpace ∘ Char.toLower = isWhiteSpace := funext isWhiteSpace_toLower
  simp only [trimChars, List.rdropWhile, List.dropWhile_map, h, ← List.map_reverse]

theorem Unicode.ascii_caseLaws : Unicode.ascii.CaseLaws where
  toLowerCase_congr _ _ h := congrArg String.ofList h
  lower_congr _ _ h := congrArg String.ofList h
  trim_lower s := by
    have hmid : trimChars s.toList <:+: s.toList :=
      (List.rdropWhile_prefix ..).isInfix.trans (List.dropWhile_suffix _).isInfix
    simp only [Unicode.ascii, trim, String.toList_ofList, trimChars_map_toLower, String.ofList_inj]
    constructor
    · intro h
      have hlen : (trimChars s.toList).length = s.toList.length := by simpa using congrArg List.length h
      rw [hmid.eq_of_length hlen, String.ofList_toList]
    · intro h
      have hfixed : trimChars s.toList = s.toList := by
        rw [← String.ofList_inj, h, String.ofList_toList]
      rw [hfixed]

/-! ## Texts with a delimiter, and numbers in them -/

theorem append_delimiter_inj {d : Char} : ∀ {a b r s : List Char}, d ∉ a → d ∉ b → a ++ d :: r = b ++ d :: s →
    a = b ∧ r = s
  | [], [], _, _, _, _, h => ⟨rfl, (List.cons.inj h).2⟩
  | [], c :: b, _, _, _, hb, h => absurd ((List.cons.inj h).1 ▸ List.mem_cons_self) hb
  | c :: a, [], _, _, ha, _, h => absurd ((List.cons.inj h).1 ▸ List.mem_cons_self) ha
  | c :: a, c' :: b, _, _, ha, hb, h => by
    obtain ⟨hc, h⟩ := List.cons.inj h
    obtain ⟨rfl, rfl⟩ := append_delimiter_inj (fun hd => ha (List.mem_cons_of_mem _ hd))
      (fun hd => hb (List.mem_cons_of_mem _ hd)) h
    exact ⟨hc ▸ rfl, rfl⟩

theorem toDigits_injective {m n : ℕ} (h : Nat.toDigits 10 m = Nat.toDigits 10 n) : m = n := by
  rw [← Nat.ofDigitChars_ten_toDigits (n := m), h, Nat.ofDigitChars_ten_toDigits]

theorem not_mem_toDigits {d : Char} (h : d.isDigit = false) (n : ℕ) : d ∉ Nat.toDigits 10 n := by
  intro hd
  rw [Nat.isDigit_of_mem_toDigits (by decide) (by decide) hd] at h
  cases h

theorem isWhiteSpace_of_isDigit {c : Char} (h : c.isDigit = true) : isWhiteSpace c = false := by
  simp only [Char.isDigit, Bool.and_eq_true, decide_eq_true_eq] at h
  have h1 : 48 ≤ c.toNat := h.1
  have h2 : c.toNat ≤ 57 := h.2
  rw [Bool.eq_false_iff]
  intro hws
  simp only [isWhiteSpace, Bool.or_eq_true, Bool.and_eq_true, decide_eq_true_eq, beq_iff_eq] at hws
  omega

end JsText
