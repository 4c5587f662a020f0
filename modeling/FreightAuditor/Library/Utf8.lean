import Mathlib.Data.List.TakeWhile

/- Characters as UTF-8, and any bytes as characters.

   A byte that fits nothing, or a character that breaks off, is read as a replacement character,
   and reading goes on at the byte that did not fit. -/
namespace Utf8

def encode (cs : List Char) : List UInt8 := cs.flatMap String.utf8EncodeChar

/-- A character that has begun: how many bytes it still takes, between which bounds the next lies, and its
    bits so far. -/
structure Begun where
  needed : ℕ
  lower : ℕ
  upper : ℕ
  bits : ℕ

/-- A byte where a character begins. -/
def first (b : ℕ) : List Char × Option Begun :=
  if b < 0x80 then ([Char.ofNat b], none)
  else if 0xC2 ≤ b ∧ b < 0xE0 then ([], some ⟨1, 0x80, 0xC0, b % 32⟩)
  else if 0xE0 ≤ b ∧ b < 0xF0 then
    ([], some ⟨2, if b = 0xE0 then 0xA0 else 0x80, if b = 0xED then 0xA0 else 0xC0, b % 16⟩)
  else if 0xF0 ≤ b ∧ b < 0xF5 then
    ([], some ⟨3, if b = 0xF0 then 0x90 else 0x80, if b = 0xF4 then 0x90 else 0xC0, b % 8⟩)
  else (['\uFFFD'], none)

def next : Option Begun → ℕ → List Char × Option Begun
  | none, b => first b
  | some s, b =>
    if s.lower ≤ b ∧ b < s.upper then
      let bits := s.bits * 64 + b % 64
      if s.needed = 1 then ([Char.ofNat bits], none) else ([], some ⟨s.needed - 1, 0x80, 0xC0, bits⟩)
    else ('\uFFFD' :: (first b).1, (first b).2)

def decodeFrom : Option Begun → List UInt8 → List Char
  | none, [] => []
  | some _, [] => ['\uFFFD']
  | s, b :: rest => (next s b.toNat).1 ++ decodeFrom (next s b.toNat).2 rest

def decode (bytes : List UInt8) : List Char := decodeFrom none bytes

/-! ## Reading written characters -/

theorem decodeFrom_cons (s : Option Begun) {n : ℕ} (hn : n < 256) (rest : List UInt8) :
    decodeFrom s (UInt8.ofNat n :: rest) = (next s n).1 ++ decodeFrom (next s n).2 rest := by
  have hbyte : (UInt8.ofNat n).toNat = n := by
    rw [UInt8.toNat_ofNat']
    omega
  cases s with
  | none => rw [decodeFrom, hbyte]
  | some s => rw [decodeFrom, hbyte]

theorem next_more {s : Begun} {n : ℕ} (hfits : s.lower ≤ n ∧ n < s.upper) (hneeded : s.needed ≠ 1) :
    next (some s) n = ([], some ⟨s.needed - 1, 0x80, 0xC0, s.bits * 64 + n % 64⟩) := by
  rw [next, if_pos hfits]
  exact if_neg hneeded

theorem next_last {s : Begun} {n : ℕ} (hfits : s.lower ≤ n ∧ n < s.upper) (hneeded : s.needed = 1) :
    next (some s) n = ([Char.ofNat (s.bits * 64 + n % 64)], none) := by
  rw [next, if_pos hfits]
  exact if_pos hneeded

theorem ofNat_val (c : Char) : Char.ofNat c.val.toNat = c := Char.ofNat_toNat c

theorem decode_char (c : Char) (rest : List UInt8) :
    decodeFrom none (String.utf8EncodeChar c ++ rest) = c :: decodeFrom none rest := by
  have hvalid : c.val.toNat < 0xD800 ∨ 0xDFFF < c.val.toNat ∧ c.val.toNat < 0x110000 := c.valid
  have hchar := ofNat_val c
  generalize hv : c.val.toNat = v at hvalid hchar
  by_cases h1 : v ≤ 0x7f
  · have hbytes : String.utf8EncodeChar c = [UInt8.ofNat v] := by rw [← hv] at h1 ⊢; exact if_pos h1
    have hfirst : next none v = ([Char.ofNat v], none) := by rw [next, first, if_pos (by omega)]
    rw [hbytes, List.singleton_append, decodeFrom_cons _ (by omega), hfirst, hchar]
    rfl
  by_cases h2 : v ≤ 0x7ff
  · have hbytes : String.utf8EncodeChar c = [UInt8.ofNat (v / 64 % 0x20 + 0xc0), UInt8.ofNat (v % 0x40 + 0x80)] := by
      rw [← hv] at h1 h2 ⊢
      exact (if_neg h1).trans (if_pos h2)
    have hfirst : next none (v / 64 % 0x20 + 0xc0) = ([], some ⟨1, 0x80, 0xC0, v / 64⟩) := by
      rw [next, first, if_neg (by omega), if_pos (by omega)]
      congr 3
      omega
    have hbits : v / 64 * 64 + (v % 0x40 + 0x80) % 64 = v := by omega
    rw [hbytes, List.cons_append, decodeFrom_cons _ (by omega), hfirst, List.cons_append, decodeFrom_cons _ (by omega),
      next_last (by simp only; omega) rfl, hbits, hchar]
    rfl
  by_cases h3 : v ≤ 0xffff
  · have hbytes : String.utf8EncodeChar c =
        [UInt8.ofNat (v / 4096 % 0x10 + 0xe0), UInt8.ofNat (v / 64 % 0x40 + 0x80), UInt8.ofNat (v % 0x40 + 0x80)] := by
      rw [← hv] at h1 h2 h3 ⊢
      exact (if_neg h1).trans ((if_neg h2).trans (if_pos h3))
    have hfirst : next none (v / 4096 % 0x10 + 0xe0) = ([], some ⟨2, if v / 4096 % 0x10 + 0xe0 = 0xE0 then 0xA0 else 0x80,
        if v / 4096 % 0x10 + 0xe0 = 0xED then 0xA0 else 0xC0, v / 4096⟩) := by
      rw [next, first, if_neg (by omega), if_neg (by omega), if_pos (by omega)]
      congr 3
      omega
    have hbits : (v / 4096 * 64 + (v / 64 % 0x40 + 0x80) % 64) * 64 + (v % 0x40 + 0x80) % 64 = v := by omega
    rw [hbytes, List.cons_append, decodeFrom_cons _ (by omega), hfirst, List.cons_append, decodeFrom_cons _ (by omega),
      next_more (by simp only; split <;> split <;> omega) (Nat.succ_succ_ne_one 0), List.cons_append, decodeFrom_cons _ (by omega),
      next_last (by simp only; omega) rfl, hbits, hchar]
    rfl
  · have hbytes : String.utf8EncodeChar c = [UInt8.ofNat (v / 262144 % 0x08 + 0xf0), UInt8.ofNat (v / 4096 % 0x40 + 0x80),
        UInt8.ofNat (v / 64 % 0x40 + 0x80), UInt8.ofNat (v % 0x40 + 0x80)] := by
      rw [← hv] at h1 h2 h3 ⊢
      exact (if_neg h1).trans ((if_neg h2).trans (if_neg h3))
    have hfirst : next none (v / 262144 % 0x08 + 0xf0) = ([], some ⟨3, if v / 262144 % 0x08 + 0xf0 = 0xF0 then 0x90 else 0x80,
        if v / 262144 % 0x08 + 0xf0 = 0xF4 then 0x90 else 0xC0, v / 262144⟩) := by
      rw [next, first, if_neg (by omega), if_neg (by omega), if_neg (by omega), if_pos (by omega)]
      congr 3
      omega
    have hbits : ((v / 262144 * 64 + (v / 4096 % 0x40 + 0x80) % 64) * 64 + (v / 64 % 0x40 + 0x80) % 64) * 64 +
        (v % 0x40 + 0x80) % 64 = v := by omega
    rw [hbytes, List.cons_append, decodeFrom_cons _ (by omega), hfirst, List.cons_append, decodeFrom_cons _ (by omega),
      next_more (by simp only; split <;> split <;> omega) (Nat.succ_succ_ne_one 1), List.cons_append, decodeFrom_cons _ (by omega),
      next_more (by simp only; omega) (Nat.succ_succ_ne_one 0), List.cons_append, decodeFrom_cons _ (by omega),
      next_last (by simp only; omega) rfl, hbits, hchar]
    rfl

theorem decode_encode (cs : List Char) : decode (encode cs) = cs := by
  induction cs with
  | nil => rfl
  | cons c cs ih =>
    rw [encode, List.flatMap_cons, decode, decode_char]
    exact congrArg (c :: ·) ih

example : decode [0x68, 0xC3, 0xA9, 0xF0, 0x9F, 0x98, 0x80, 0xE2, 0x82, 0x41, 0xC0] = "hé😀\uFFFDA\uFFFD".toList := by decide +kernel

end Utf8
