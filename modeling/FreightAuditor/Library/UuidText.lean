import FreightAuditor.Library.Json

/- Texts of a fixed number of digits, and the text of a uuid.

   A uuid is a number below 2^128. The database writes it as 32 hexadecimal digits in five groups,
   and `wellFormed_text` and `value_text` say that this text is of the form and reads back. -/
namespace FixedDigits

open Json

/-- The last `k` digits of a number, in base ten or sixteen. -/
def fixed (base : ℕ) : ℕ → ℕ → List Char
  | 0, _ => []
  | k + 1, n => fixed base k (n / base) ++ [hexDigit (n % base)]

/-- The number that digits stand for. -/
def read (base : ℕ) (cs : List Char) : ℕ := cs.foldl (fun n c => base * n + hexValue c.toLower) 0

def isHexDigit (c : Char) : Bool := c.isDigit || ('a' ≤ c && c ≤ 'f') || ('A' ≤ c && c ≤ 'F')

variable {base k n : ℕ}

theorem hexValue_toLower_hexDigit : ∀ n < 16, hexValue (hexDigit n).toLower = n := by decide

theorem isHexDigit_hexDigit : ∀ n < 16, isHexDigit (hexDigit n) = true := by decide

theorem isDigit_hexDigit : ∀ n < 10, (hexDigit n).isDigit = true := by decide

@[simp] theorem length_fixed : (fixed base k n).length = k := by
  induction k generalizing n with
  | zero => rfl
  | succ k ih => rw [fixed, List.length_append, ih, List.length_singleton]

/-- Each character is the digit of a number below the base. -/
theorem mem_fixed (hbase : 0 < base) {c : Char} (hc : c ∈ fixed base k n) : ∃ m < base, c = hexDigit m := by
  induction k generalizing n with
  | zero => exact absurd hc List.not_mem_nil
  | succ k ih =>
    rcases List.mem_append.mp hc with hc | hc
    · exact ih hc
    · exact ⟨n % base, Nat.mod_lt n hbase, List.mem_singleton.mp hc⟩

theorem read_fixed (hbase : 0 < base) (hle : base ≤ 16) (k n : ℕ) : read base (fixed base k n) = n % base ^ k := by
  induction k generalizing n with
  | zero => rw [Nat.pow_zero, Nat.mod_one]; rfl
  | succ k ih =>
    have hlast : hexValue (hexDigit (n % base)).toLower = n % base :=
      hexValue_toLower_hexDigit _ (lt_of_lt_of_le (Nat.mod_lt n hbase) hle)
    calc read base (fixed base (k + 1) n)
        = base * read base (fixed base k (n / base)) + n % base := by
          rw [read, fixed, List.foldl_append, List.foldl_cons, List.foldl_nil, hlast]
          rfl
      _ = base * (n / base % base ^ k) + n % base := by rw [ih]
      _ = n % base ^ (k + 1) := by rw [Nat.pow_succ', Nat.mod_mul, Nat.add_comm]

theorem isHexDigit_of_mem (hbase : 0 < base) (hle : base ≤ 16) {c : Char} (hc : c ∈ fixed base k n) : isHexDigit c = true := by
  obtain ⟨m, hm, rfl⟩ := mem_fixed hbase hc
  exact isHexDigit_hexDigit m (by omega)

theorem isDigit_of_mem {c : Char} (hc : c ∈ fixed 10 k n) : c.isDigit = true := by
  obtain ⟨m, hm, rfl⟩ := mem_fixed (by decide) hc
  exact isDigit_hexDigit m hm

end FixedDigits

/-- A uuid, by its number. -/
abbrev Uuid := Fin (2 ^ 128)

namespace Uuid

open Json FixedDigits

/-- The text the database writes. -/
def text (u : Uuid) : List Char :=
  let digits := fixed 16 32 u.val
  digits.take 8 ++ '-' :: ((digits.drop 8).take 4 ++ '-' :: ((digits.drop 12).take 4 ++ '-' ::
    ((digits.drop 16).take 4 ++ '-' :: digits.drop 20)))

/-- What follows `k` hexadecimal digits. -/
def afterDigits : ℕ → List Char → Option (List Char)
  | 0, cs => some cs
  | k + 1, c :: cs => if isHexDigit c then afterDigits k cs else none
  | _ + 1, [] => none

/-- What follows a hyphen. -/
def afterHyphen : List Char → Option (List Char)
  | '-' :: cs => some cs
  | _ => none

/-- `/^[0-9a-f]{8}-[0-9a-f]{4}-[0-9a-f]{4}-[0-9a-f]{4}-[0-9a-f]{12}$/i`. -/
def wellFormed (cs : List Char) : Bool :=
  ((afterDigits 8 cs).bind afterHyphen |>.bind (afterDigits 4) |>.bind afterHyphen |>.bind (afterDigits 4) |>.bind afterHyphen
    |>.bind (afterDigits 4) |>.bind afterHyphen |>.bind (afterDigits 12)) == some []

/-- The uuid that a text of the form stands for. -/
def value (cs : List Char) : Uuid := Fin.ofNat (2 ^ 128) (read 16 (cs.filter (· ≠ '-')))

variable {cs ds : List Char}

theorem afterDigits_append (hall : ∀ c ∈ ds, isHexDigit c = true) (rest : List Char) :
    afterDigits ds.length (ds ++ rest) = some rest := by
  induction ds with
  | nil => rfl
  | cons d ds ih =>
    obtain ⟨hd, hds⟩ := List.forall_mem_cons.mp hall
    rw [List.length_cons, List.cons_append, afterDigits, if_pos hd, ih hds]

section

variable (u : Uuid)

theorem isHexDigit_of_sub {part : List Char} (h : part ⊆ fixed 16 32 u.val) : ∀ c ∈ part, isHexDigit c = true :=
  fun _ hc => isHexDigit_of_mem (by decide) (by decide) (h hc)

theorem wellFormed_text : wellFormed (text u) = true := by
  have hgroup {part : List Char} {k : ℕ} (h : part ⊆ fixed 16 32 u.val) (hk : part.length = k) (rest : List Char) :
      afterDigits k (part ++ rest) = some rest := by
    rw [← hk]
    exact afterDigits_append (isHexDigit_of_sub u h) rest
  have hmiddle (i : ℕ) : ((fixed 16 32 u.val).drop i).take 4 ⊆ fixed 16 32 u.val :=
    List.Subset.trans (List.take_subset _ _) (List.drop_subset _ _)
  have hlast : afterDigits 12 ((fixed 16 32 u.val).drop 20) = some [] := by
    have h := hgroup (List.drop_subset 20 (fixed 16 32 u.val)) (k := 12) (by simp) []
    rwa [List.append_nil] at h
  rw [wellFormed, text, hgroup (List.take_subset _ _) (by simp)]
  simp only [Option.bind_some, afterHyphen]
  rw [hgroup (hmiddle 8) (by simp)]
  simp only [Option.bind_some, afterHyphen]
  rw [hgroup (hmiddle 12) (by simp)]
  simp only [Option.bind_some, afterHyphen]
  rw [hgroup (hmiddle 16) (by simp)]
  simp only [Option.bind_some, afterHyphen, hlast]
  rfl

theorem filter_text : (text u).filter (· ≠ '-') = fixed 16 32 u.val := by
  have hkeep {part : List Char} (h : part ⊆ fixed 16 32 u.val) : part.filter (· ≠ '-') = part := by
    refine List.filter_eq_self.mpr fun c hc => ?_
    have hhex := isHexDigit_of_sub u h c hc
    refine decide_eq_true fun heq => ?_
    rw [heq] at hhex
    exact absurd hhex (by decide)
  have hmiddle (i : ℕ) : ((fixed 16 32 u.val).drop i).take 4 ⊆ fixed 16 32 u.val :=
    List.Subset.trans (List.take_subset _ _) (List.drop_subset _ _)
  have hjoin (i j : ℕ) (hij : i + 4 = j) :
      ((fixed 16 32 u.val).drop i).take 4 ++ (fixed 16 32 u.val).drop j = (fixed 16 32 u.val).drop i := by
    rw [← hij, ← List.drop_drop, List.take_append_drop]
  have hhyphen (rest : List Char) : ('-' :: rest).filter (· ≠ '-') = rest.filter (· ≠ '-') :=
    List.filter_cons_of_neg (by decide)
  rw [text, List.filter_append, hhyphen, List.filter_append, hhyphen, List.filter_append, hhyphen, List.filter_append,
    hhyphen, hkeep (List.take_subset _ _), hkeep (hmiddle 8), hkeep (hmiddle 12), hkeep (hmiddle 16),
    hkeep (List.drop_subset _ _), hjoin 16 20 rfl, hjoin 12 16 rfl, hjoin 8 12 rfl, List.take_append_drop]

theorem value_text : value (text u) = u := by
  rw [value, filter_text, read_fixed (by decide) (by decide)]
  have hpow : 16 ^ 32 = 2 ^ 128 := by decide
  refine Fin.ext ?_
  show u.val % 16 ^ 32 % 2 ^ 128 = u.val
  rw [hpow, Nat.mod_mod, Nat.mod_eq_of_lt u.isLt]

end

example : String.ofList (text (value "0123ABCD-4567-89ab-cdef-0123456789AB".toList)) =
    "0123abcd-4567-89ab-cdef-0123456789ab" := by
  decide +kernel

end Uuid
