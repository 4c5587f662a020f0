import FreightAuditor.Library.UuidText

/- `toISOString` and `Date.parse`.

   A time is a number of milliseconds since 1970, at most 8.64e15 of them on either side. `toISOString`
   writes it with the date of the Gregorian calendar, four digits of the year or a sign and six, and
   `parse_toISOString` says that this text is read as the same time. -/
namespace IsoDate

open FixedDigits

/-- The times a `Date` can hold. -/
def maxTime : ℤ := 8640000000000000

structure Date where
  year : ℤ
  month : ℕ
  day : ℕ
  deriving DecidableEq

/-- The year from March to February that is so many days after 1970-01-01, and the day of it. Within 400
    years the leap day is the last of its year, of its four years and of its century. -/
def marchYear (days : ℤ) : ℤ × ℕ :=
  let z := days + 719468
  let r := (z % 146097).toNat
  let centuries := min 3 (r / 36524)
  let r := r - 36524 * centuries
  let fours := r / 1461
  let r := r - 1461 * fours
  let years := min 3 (r / 365)
  (z / 146097 * 400 + (100 * centuries + 4 * fours + years : ℕ), r - 365 * years)

/-- The date that is so many days after 1970-01-01. -/
def ofDays (days : ℤ) : Date :=
  let year := (marchYear days).1
  let r := (marchYear days).2
  let m := (5 * r + 2) / 153
  { year := if m < 10 then year else year + 1
    month := if m < 10 then m + 3 else m - 9
    day := r - (153 * m + 2) / 5 + 1 }

/-- How many days after 1970-01-01 a date is. -/
def Date.toDays (d : Date) : ℤ :=
  let year := if d.month ≤ 2 then d.year - 1 else d.year
  let m := if d.month ≤ 2 then d.month + 9 else d.month - 3
  let ofEra := (year % 400).toNat
  year / 400 * 146097 + (365 * ofEra + ofEra / 4 - ofEra / 100 + ((153 * m + 2) / 5 + d.day - 1) : ℕ) - 719468

def yearText (year : ℤ) : List Char :=
  if 0 ≤ year ∧ year ≤ 9999 then fixed 10 4 year.toNat
  else (if year < 0 then '-' else '+') :: fixed 10 6 year.natAbs

def toISOString (time : ℤ) : List Char :=
  let date := ofDays (time / 86400000)
  let ms := (time % 86400000).toNat
  yearText date.year ++ '-' :: (fixed 10 2 date.month ++ '-' :: (fixed 10 2 date.day ++ 'T' ::
    (fixed 10 2 (ms / 3600000) ++ ':' :: (fixed 10 2 (ms / 60000 % 60) ++ ':' ::
      (fixed 10 2 (ms / 1000 % 60) ++ '.' :: (fixed 10 3 (ms % 1000) ++ ['Z']))))))

/-- Exactly `k` digits, and what follows them. -/
def digits? (k : ℕ) (cs : List Char) : Option (ℕ × List Char) :=
  if (cs.take k).length = k ∧ (cs.take k).all Char.isDigit then some (read 10 (cs.take k), cs.drop k) else none

def year? : List Char → Option (ℤ × List Char)
  | '+' :: cs => (digits? 6 cs).map fun p => (p.1, p.2)
  | '-' :: cs => (digits? 6 cs).bind fun p => if p.1 = 0 then none else some (-p.1, p.2)
  | cs => (digits? 4 cs).map fun p => (p.1, p.2)

/-- `k` digits of a number within bounds, after a separator. -/
def field? (separator : Char) (k low high : ℕ) : List Char → Option (ℕ × List Char)
  | [] => none
  | c :: cs => if c = separator then (digits? k cs).filter fun p => low ≤ p.1 && p.1 ≤ high else none

/-- The time of a text of the form that `toISOString` writes. -/
def parseIso (cs : List Char) : Option ℤ := do
  let (year, cs) ← year? cs
  let (month, cs) ← field? '-' 2 1 12 cs
  let (day, cs) ← field? '-' 2 1 31 cs
  let (hour, cs) ← field? 'T' 2 0 23 cs
  let (minute, cs) ← field? ':' 2 0 59 cs
  let (second, cs) ← field? ':' 2 0 59 cs
  let (ms, cs) ← field? '.' 3 0 999 cs
  let time := (⟨year, month, day⟩ : Date).toDays * 86400000 + (3600000 * hour + 60000 * minute + 1000 * second + ms : ℕ)
  if cs = ['Z'] ∧ time.natAbs ≤ maxTime then some time else none

/-- The parts of a number of days that `marchYear` takes it apart into. -/
theorem marchYear_spec (days : ℤ) : ∃ era : ℤ, ∃ centuries fours years : ℕ, centuries ≤ 3 ∧ fours ≤ 24 ∧ years ≤ 3 ∧
    (marchYear days).2 ≤ 365 ∧ (marchYear days).1 = era * 400 + (100 * centuries + 4 * fours + years : ℕ) ∧
    days + 719468 = era * 146097 + (36524 * centuries + 1461 * fours + 365 * years + (marchYear days).2 : ℕ) := by
  let r := ((days + 719468) % 146097).toNat
  let r' := r - 36524 * min 3 (r / 36524)
  let r'' := r' - 1461 * (r' / 1461)
  have hr : r < 146097 := by omega
  have hr' : r' ≤ 36524 := by omega
  refine ⟨(days + 719468) / 146097, min 3 (r / 36524), r' / 1461, min 3 (r'' / 365), Nat.min_le_left _ _, by omega,
    Nat.min_le_left _ _, ?_, rfl, ?_⟩
  · show r'' - 365 * min 3 (r'' / 365) ≤ 365
    omega
  · show days + 719468 = (days + 719468) / 146097 * 146097 + (36524 * min 3 (r / 36524) + 1461 * (r' / 1461) +
      365 * min 3 (r'' / 365) + (r'' - 365 * min 3 (r'' / 365)) : ℕ)
    omega

theorem month_bounds (days : ℤ) : 1 ≤ (ofDays days).month ∧ (ofDays days).month ≤ 12 := by
  obtain ⟨-, -, -, -, -, -, -, hday, -, -⟩ := marchYear_spec days
  simp only [ofDays]
  split <;> omega

theorem day_bounds (days : ℤ) : 1 ≤ (ofDays days).day ∧ (ofDays days).day ≤ 31 := by
  obtain ⟨-, -, -, -, -, -, -, hday, -, -⟩ := marchYear_spec days
  simp only [ofDays]
  omega

/-- The days of the years before one of an era. -/
theorem leapDays (centuries : ℕ) {fours years : ℕ} (hfours : fours ≤ 24) (hyears : years ≤ 3) :
    365 * (100 * centuries + 4 * fours + years) + (100 * centuries + 4 * fours + years) / 4 -
      (100 * centuries + 4 * fours + years) / 100 = 36524 * centuries + 1461 * fours + 365 * years := by
  have hfour : (100 * centuries + 4 * fours + years) / 4 = 25 * centuries + fours := by omega
  have hhundred : (100 * centuries + 4 * fours + years) / 100 = centuries := by omega
  rw [hfour, hhundred]
  omega

theorem toDays_ofDays (days : ℤ) : (ofDays days).toDays = days := by
  obtain ⟨era, centuries, fours, years, hcenturies, hfours, hyears, hday, hyear, hdays⟩ := marchYear_spec days
  have hofEra : (((marchYear days).1 % 400).toNat) = 100 * centuries + 4 * fours + years := by omega
  have hera : (marchYear days).1 / 400 = era := by omega
  have hleap := leapDays centuries hfours hyears
  simp only [Date.toDays, ofDays]
  by_cases hm : (5 * (marchYear days).2 + 2) / 153 < 10
  · have hlow : ¬ (5 * (marchYear days).2 + 2) / 153 + 3 ≤ 2 := by omega
    simp only [if_pos hm, if_neg hlow, hofEra, hera, hleap, Nat.add_sub_cancel]
    omega
  · have hlow : (5 * (marchYear days).2 + 2) / 153 - 9 ≤ 2 := by omega
    have hback : (5 * (marchYear days).2 + 2) / 153 - 9 + 9 = (5 * (marchYear days).2 + 2) / 153 := by omega
    simp only [if_neg hm, if_pos hlow, Int.add_sub_cancel, hofEra, hera, hleap, hback]
    omega

/-! ## Reading a written time -/

variable {k n low high : ℕ} {rest : List Char}

theorem digits?_fixed (hn : n < 10 ^ k) : digits? k (fixed 10 k n ++ rest) = some (n, rest) := by
  have htake : (fixed 10 k n ++ rest).take k = fixed 10 k n := List.take_left' length_fixed
  have hdrop : (fixed 10 k n ++ rest).drop k = rest := List.drop_left' length_fixed
  have hall : (fixed 10 k n).all Char.isDigit = true := List.all_eq_true.mpr fun c hc => isDigit_of_mem hc
  rw [digits?, htake, hdrop, if_pos ⟨length_fixed, hall⟩, read_fixed (by decide) (by decide), Nat.mod_eq_of_lt hn]

theorem field?_fixed (c : Char) (hn : n < 10 ^ k) (hlow : low ≤ n) (hhigh : n ≤ high) :
    field? c k low high (c :: (fixed 10 k n ++ rest)) = some (n, rest) := by
  rw [field?, if_pos rfl, digits?_fixed hn]
  simp [hlow, hhigh]

theorem year?_yearText {year : ℤ} (h : year.natAbs < 10 ^ 6) : year? (yearText year ++ rest) = some (year, rest) := by
  unfold yearText
  split
  · rename_i hyear
    have hdigit : ∃ m < 10, ∃ tail, fixed 10 4 year.toNat ++ rest = Json.hexDigit m :: tail :=
      ⟨_, Nat.mod_lt _ (by decide), _, rfl⟩
    have hread : digits? 4 (fixed 10 4 year.toNat ++ rest) = some (year.toNat, rest) := digits?_fixed (by omega)
    obtain ⟨m, hm, tail, htail⟩ := hdigit
    rw [htail] at hread ⊢
    have hplus : ∀ m < 10, Json.hexDigit m ≠ '+' := by decide
    have hminus : ∀ m < 10, Json.hexDigit m ≠ '-' := by decide
    rw [year?.eq_3 _ (fun _ heq => hplus m hm (List.cons.inj heq).1) (fun _ heq => hminus m hm (List.cons.inj heq).1), hread]
    simp only [Option.map_some]
    rw [Int.toNat_of_nonneg hyear.1]
  · rename_i hyear
    rw [List.cons_append]
    split
    · rename_i hneg
      have hne : year.natAbs ≠ 0 := by omega
      simp only [year?, digits?_fixed h, Option.bind_some, if_neg hne]
      congr 2
      omega
    · simp only [year?, digits?_fixed h, Option.map_some]
      congr 2
      omega

theorem year_bound {time : ℤ} (h : time.natAbs ≤ maxTime) : (ofDays (time / 86400000)).year.natAbs < 10 ^ 6 := by
  obtain ⟨era, centuries, fours, years, hcenturies, hfours, hyears, hday, hyear, hdays⟩ := marchYear_spec (time / 86400000)
  have hdaysBound : (time / 86400000).natAbs ≤ 100000000 := by
    rw [maxTime] at h
    omega
  have hera : era.natAbs ≤ 700 := by omega
  have hmarch : (marchYear (time / 86400000)).1.natAbs ≤ 280399 := by omega
  simp only [ofDays]
  split <;> omega

/-- A written time is read as the same time. -/
theorem parse_toISOString {time : ℤ} (h : time.natAbs ≤ maxTime) : parseIso (toISOString time) = some time := by
  obtain ⟨hmonth, hmonth'⟩ := month_bounds (time / 86400000)
  obtain ⟨hday, hday'⟩ := day_bounds (time / 86400000)
  have htime : ((time % 86400000).toNat : ℤ) = time % 86400000 := Int.toNat_of_nonneg (Int.emod_nonneg _ (by decide))
  have hms : (time % 86400000).toNat < 86400000 := by omega
  generalize hmsName : (time % 86400000).toNat = ms at htime hms
  have hparts : 3600000 * (ms / 3600000) + 60000 * (ms / 60000 % 60) + 1000 * (ms / 1000 % 60) + ms % 1000 = ms := by omega
  have hdate : (⟨(ofDays (time / 86400000)).year, (ofDays (time / 86400000)).month, (ofDays (time / 86400000)).day⟩ : Date) =
      ofDays (time / 86400000) := rfl
  rw [toISOString, parseIso, year?_yearText (year_bound h)]
  simp only [Option.bind_eq_bind, Option.bind_some, hmsName]
  rw [field?_fixed '-' (by omega) hmonth hmonth', Option.bind_some, field?_fixed '-' (by omega) hday hday', Option.bind_some,
    field?_fixed 'T' (by omega) (Nat.zero_le _) (by omega), Option.bind_some,
    field?_fixed ':' (by omega) (Nat.zero_le _) (by omega), Option.bind_some,
    field?_fixed ':' (by omega) (Nat.zero_le _) (by omega), Option.bind_some,
    field?_fixed '.' (by omega) (Nat.zero_le _) (by omega), Option.bind_some]
  simp only [hdate, toDays_ofDays, hparts, htime]
  have hwhole : time / 86400000 * 86400000 + time % 86400000 = time := by omega
  rw [hwhole, if_pos ⟨trivial, h⟩]

end IsoDate
