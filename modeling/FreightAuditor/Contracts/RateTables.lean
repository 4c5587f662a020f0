import Mathlib.Data.List.ProdSigma
import FreightAuditor.Contracts.MultipageTables
import FreightAuditor.Library.DecimalRef

/- Validation of rate tables.

   A table is valid if its cells are inside, filled and apart, and if one row or column stands out whose
   numbers are strictly monotonic (`verdict_valid`). A cell that is no number between two thresholds is passed
   over, and this is all that may be wrong with a table found valid (`sound_iff`). -/
namespace RateTables

open DecimalJs DecimalText JsText

/-- Operations of decimal.js on a number as it was read. -/
class PlainNotation (D : Type) [Decimal D] where
  negated : D → D
  /-- `toFixed()`. -/
  toPlain : D → String
  val_negated : ∀ d, Decimal.val (negated d) = (Decimal.val d).neg
  toPlain_reads : ∀ d : D, ∃ d' : D, Decimal.ofString (toPlain d) = some d' ∧ Decimal.val d' = Decimal.val d

inductive TableOrientation where
  | ROW_BRACKETS | COLUMN_BRACKETS | AMBIGUOUS
  deriving DecidableEq

inductive TableValidationCode where
  | CELL_OUT_OF_BOUNDS | OVERLAPPING_CELLS | EMPTY_VALUE | INVALID_NUMERIC_VALUE | BRACKETS_NOT_FOUND
  | AMBIGUOUS_ORIENTATION | NON_MONOTONIC_BRACKETS
  deriving DecidableEq

structure CellRef where
  rowIndex : ℤ
  columnIndex : ℤ
  source : Source
  deriving DecidableEq

structure TableValidationIssue where
  code : TableValidationCode
  message : String
  cells : List CellRef
  deriving DecidableEq

structure ValidatedRateTable where
  valid : Bool
  orientation : TableOrientation
  bracketAxisIndex : Option ℤ
  bracketValues : List String
  issues : List TableValidationIssue
  table : ReassembledTable
  deriving DecidableEq

def ReassembledCell.ref (cell : ReassembledCell) : CellRef := ⟨cell.rowIndex, cell.columnIndex, cell.source⟩

/-- `reassembledTableSchema`. -/
def ReassembledTable.accepted (t : ReassembledTable) : Bool :=
  0 < t.columnCount && 0 < t.rowCount && t.sourceTableIndexes.length ≥ 1 && t.pageNumbers.all (0 < ·) &&
    t.cells.all fun cell => 0 ≤ cell.rowIndex && 0 ≤ cell.columnIndex && 0 < cell.rowSpan && 0 < cell.columnSpan &&
      0 < cell.source.pageNumber

/-! ## Numbers -/

/-- `/^\(.*\)$/`. -/
def inParentheses (cs : List Char) : Bool :=
  cs.head? == some '(' && cs.getLast? == some ')' && 2 ≤ cs.length &&
    (cs.tail.dropLast).all fun c => c ≠ '\n' && c ≠ '\r' && c ≠ '\u2028' && c ≠ '\u2029'

/-- Currency signs, commas, percent signs and white space. -/
def isSymbol (c : Char) : Bool := c ∈ ['$', '€', '£', '¥', ',', '%'] || isWhiteSpace c

/-- Whether the amount stands in parentheses, and its text without symbols. -/
def strippedNumber (nfkc : String → String) (value : String) : Bool × List Char :=
  let normalized := (trim (nfkc value)).toList
  let negative := inParentheses normalized
  (negative, (if negative then normalized.tail.dropLast else normalized).filter fun c => !isSymbol c)

/-- `/^[+-]?(?:\d+(?:\.\d*)?|\.\d+)$/`. -/
def isPlainNumber (cs : List Char) : Bool :=
  match mantissa? (takeSign cs).2 with
  | some (_, _, []) => true
  | _ => false

/-- `/\d/.test(value) && /^[\s$€£¥()+\-.,%\d]+$/.test(value)`. -/
def looksNumeric (value : String) : Bool :=
  value.toList.any Char.isDigit && value.toList.all fun c => isSymbol c || c ∈ ['(', ')', '+', '-', '.'] || c.isDigit

section

variable (D : Type) [Decimal D] [PlainNotation D] (forms : TextForms)

def parseDecimal (value : String) : Option D :=
  let (negative, text) := strippedNumber forms.nfkc value
  if isPlainNumber text then
    match (Decimal.ofString (String.ofList text) : Option D) with
    | some parsed =>
      if Decimal.isFinite parsed then some (if negative then PlainNotation.negated parsed else parsed) else none
    | none => none
  else none

/-! ## Cells -/

structure CellChecks where
  occupied : List ((ℤ × ℤ) × ReassembledCell)
  issues : List TableValidationIssue

/-- The places of a cell, row by row. -/
def places (cell : ReassembledCell) : List (ℤ × ℤ) :=
  (List.range cell.rowSpan.toNat ×ˢ List.range cell.columnSpan.toNat).map fun p =>
    (cell.rowIndex + p.1, cell.columnIndex + p.2)

def occupy (cell : ReassembledCell) (checks : CellChecks) (place : ℤ × ℤ) : CellChecks :=
  match checks.occupied.lookup place with
  | some prior =>
    { checks with issues := checks.issues ++ [⟨.OVERLAPPING_CELLS,
      "Multiple source cells occupy row " ++ toString place.1 ++ ", column " ++ toString place.2, [prior.ref, cell.ref]⟩] }
  | none => { checks with occupied := (place, cell) :: checks.occupied }

def checkCell (t : ReassembledTable) (checks : CellChecks) (cell : ReassembledCell) : CellChecks :=
  if cell.rowIndex + cell.rowSpan > t.rowCount ∨ cell.columnIndex + cell.columnSpan > t.columnCount then
    { checks with issues := checks.issues ++
      [⟨.CELL_OUT_OF_BOUNDS, "Cell span exceeds the declared table bounds", [cell.ref]⟩] }
  else
    let empty := if trim cell.content = "" then
      [⟨.EMPTY_VALUE, "Extracted cell value is empty", [cell.ref]⟩] else []
    let invalid := if looksNumeric cell.content ∧ (parseDecimal D forms cell.content).isNone then
      [⟨.INVALID_NUMERIC_VALUE, "Numeric-looking value is not an exact finite decimal: " ++ cell.content, [cell.ref]⟩]
      else []
    (places cell).foldl (occupy cell) { checks with issues := checks.issues ++ empty ++ invalid }

/-! ## Brackets -/

structure Candidate where
  orientation : TableOrientation
  axisIndex : ℤ
  cells : List ReassembledCell
  values : List D
  headerScore : ℕ

/-- The single cells of a line, in order. -/
def axisCells (cells : List ReassembledCell) (key : ReassembledCell → ℤ) (index : ℤ) (order : ReassembledCell → ℤ) :
    List ReassembledCell :=
  StableSort.sort (fun a b => compare (order a) (order b))
    (cells.filter fun cell => key cell = index ∧ cell.rowSpan = 1 ∧ cell.columnSpan = 1)

/-- Its numbers, if there are two. -/
def numericRun (cells : List ReassembledCell) : Option (List ReassembledCell × List D) :=
  let parsed := cells.filterMap fun cell => (parseDecimal D forms cell.content).map (cell, ·)
  if parsed.length < 2 then none else some (parsed.map Prod.fst, parsed.map Prod.snd)

def isWordChar (c : Char) : Bool := c.isAlphanum || c = '_'

/-- `(^|\W)term(\W|$)`. -/
def hasWord (text : String) (term : String) : Bool :=
  term.toList ∈ text.toList.splitOnP fun c => !isWordChar c

def BRACKET_TERMS : List String :=
  ["bracket", "weight", "distance", "mile", "zone", "quantity", "minimum", "maximum", "min", "max", "from", "to"]

def bracketHeaderScore (cells : List ReassembledCell) : ℕ :=
  let header := ((cells.find? fun cell => (parseDecimal D forms cell.content).isNone).map fun cell =>
    forms.toLocaleLowerCase (forms.nfkc cell.content)).getD ""
  BRACKET_TERMS.countP (hasWord header)

def lineCandidate (t : ReassembledTable) (orientation : TableOrientation) (key order : ReassembledCell → ℤ) (index : ℤ) :
    Option (Candidate D) :=
  let cells := axisCells t.cells key index order
  (numericRun D forms cells).map fun numeric =>
    ⟨orientation, index, numeric.1, numeric.2, bracketHeaderScore D forms cells⟩

def indexes (count : ℤ) : List ℤ := (List.range count.toNat).map Int.ofNat

def bracketCandidates (t : ReassembledTable) : List (Candidate D) :=
  (indexes t.columnCount).filterMap
      (lineCandidate D forms t .ROW_BRACKETS ReassembledCell.columnIndex ReassembledCell.rowIndex) ++
    (indexes t.rowCount).filterMap
      (lineCandidate D forms t .COLUMN_BRACKETS ReassembledCell.rowIndex ReassembledCell.columnIndex)

variable {D}

def maxOf (f : Candidate D → ℕ) (candidates : List (Candidate D)) : ℕ := (candidates.map f).foldr max 0

/-- The element of a list of one. -/
def onlyOne {α : Type} : List α → Option α
  | [a] => some a
  | _ => none

def chooseCandidate (candidates : List (Candidate D)) : Option (Candidate D) :=
  if candidates.isEmpty then none
  else
    let maxHeaderScore := maxOf Candidate.headerScore candidates
    let semantic :=
      if maxHeaderScore > 0 then candidates.filter fun c => c.headerScore = maxHeaderScore else candidates
    let maxLength := maxOf (fun c => c.values.length) semantic
    onlyOne (semantic.filter fun c => c.values.length = maxLength)

/-- `a.cmp(b)` of finite numbers. -/
def cmp (a b : D) : Ordering :=
  match Decimal.val a, Decimal.val b with
  | .fin x, .fin y => compare x y
  | _, _ => .eq

def strictlyMonotonic : List D → Bool
  | first :: second :: rest =>
    let direction := cmp second first
    direction ≠ .eq && ((second :: rest).zip (first :: second :: rest)).all fun p => cmp p.1 p.2 = direction
  | _ => false

variable (D)

def bracketIssues (candidates : List (Candidate D)) : Option (Candidate D) → List TableValidationIssue
  | none => [⟨if candidates.isEmpty then .BRACKETS_NOT_FOUND else .AMBIGUOUS_ORIENTATION,
      if candidates.isEmpty then "No cited numeric bracket sequence was found"
      else "Both row- and column-oriented bracket sequences are plausible",
      candidates.flatMap fun c => c.cells.map ReassembledCell.ref⟩]
  | some selected =>
    if strictlyMonotonic selected.values then []
    else [⟨.NON_MONOTONIC_BRACKETS, "Bracket thresholds must be strictly monotonic without duplicates or reversals",
      selected.cells.map ReassembledCell.ref⟩]

def rateTableVerdict (t : ReassembledTable) : ValidatedRateTable :=
  let candidates := bracketCandidates D forms t
  let selected := chooseCandidate candidates
  let issues := (t.cells.foldl (checkCell D forms t) ⟨[], []⟩).issues ++ bracketIssues D candidates selected
  ⟨issues.isEmpty, (selected.map Candidate.orientation).getD .AMBIGUOUS, selected.map Candidate.axisIndex,
    ((selected.map Candidate.values).getD []).map PlainNotation.toPlain, issues, t⟩

/-- `none` where the schema throws. -/
def validateRateTable (t : ReassembledTable) : Option ValidatedRateTable :=
  if t.accepted then some (rateTableVerdict D forms t) else none

def reassembleAndValidateRateTables (tables : List Table) : Option (List ValidatedRateTable) :=
  (reassembleMultipageTables forms tables).mapM (validateRateTable D forms)

end

/-! ## What is claimed -/

/-- The exact number of a text without its symbols. -/
def exactCellValue (forms : TextForms) (content : String) : Option ℚ :=
  let (negative, text) := strippedNumber forms.nfkc content
  if isPlainNumber text then (literal? text).map fun l => if negative then -l.value else l.value else none

/-- The text is read as this number. -/
def ReadsAs (D : Type) [Decimal D] (text : String) (q : ℚ) : Prop :=
  ∃ d : D, Decimal.ofString text = some d ∧ Decimal.val d = .fin q

/-- The line a cell stands in, and its place in it. -/
def across : TableOrientation → ReassembledCell → ℤ
  | .COLUMN_BRACKETS => ReassembledCell.rowIndex
  | _ => ReassembledCell.columnIndex

def along : TableOrientation → ReassembledCell → ℤ
  | .COLUMN_BRACKETS => ReassembledCell.columnIndex
  | _ => ReassembledCell.rowIndex

/-- The cell covers the `k`-th place of the line. -/
def CoversLine (orientation : TableOrientation) (index k : ℤ) (cell : ReassembledCell) : Prop :=
  match orientation with
  | .COLUMN_BRACKETS => cell.rectangle.Covers index k
  | _ => cell.rectangle.Covers k index

/-- Between two of these cells of a line is nothing that is no number. -/
def Gapless (forms : TextForms) (t : ReassembledTable) (orientation : TableOrientation) (index : ℤ)
    (run : List ReassembledCell) : Prop :=
  ∀ cell ∈ t.cells, ∀ a ∈ run, ∀ b ∈ run, ∀ k, along orientation a < k → k < along orientation b →
    CoversLine orientation index k cell → (exactCellValue forms cell.content).isSome

/-- The bracket values are those of the cells of a line. -/
structure Brackets (D : Type) [Decimal D] (forms : TextForms) (t : ReassembledTable) (v : ValidatedRateTable) (index : ℤ)
    (run : List (ReassembledCell × ℚ)) : Prop where
  orientation : v.orientation ≠ .AMBIGUOUS
  axis : v.bracketAxisIndex = some index
  cells : ∀ p ∈ run, p.1 ∈ t.cells ∧ across v.orientation p.1 = index ∧ p.1.rowSpan = 1 ∧ p.1.columnSpan = 1
  ordered : run.Pairwise fun p q => along v.orientation p.1 < along v.orientation q.1
  two : 2 ≤ run.length
  values : List.Forall₂ (fun text (p : ReassembledCell × ℚ) => ReadsAs D text p.2 ∧
    ∃ x, exactCellValue forms p.1.content = some x ∧ Val.ofExact x = .fin p.2) v.bracketValues run
  monotonic : (run.map Prod.snd).Pairwise (· < ·) ∨ (run.map Prod.snd).Pairwise (· > ·)
  gapless : Gapless forms t v.orientation index (run.map Prod.fst)

/-- What is valid. -/
structure Sound (D : Type) [Decimal D] (forms : TextForms) (t : ReassembledTable) (v : ValidatedRateTable) : Prop where
  inside : ∀ cell ∈ t.cells, cell.rectangle.Inside t.rowCount t.columnCount
  filled : ∀ cell ∈ t.cells, trim cell.content ≠ ""
  apart : t.cells.Pairwise fun a b => a.rectangle.Apart b.rectangle
  brackets : ∃ index run, Brackets D forms t v index run

def ReassembledCell.transpose (cell : ReassembledCell) : ReassembledCell :=
  { cell with rowIndex := cell.columnIndex, columnIndex := cell.rowIndex, rowSpan := cell.columnSpan, columnSpan := cell.rowSpan }

def ReassembledTable.transpose (t : ReassembledTable) : ReassembledTable :=
  { t with columnCount := t.rowCount, rowCount := t.columnCount, cells := t.cells.map ReassembledCell.transpose }

def TableOrientation.opposite : TableOrientation → TableOrientation
  | .ROW_BRACKETS => .COLUMN_BRACKETS
  | .COLUMN_BRACKETS => .ROW_BRACKETS
  | .AMBIGUOUS => .AMBIGUOUS

structure Mirrors (v v' : ValidatedRateTable) : Prop where
  valid : v'.valid = v.valid
  values : v'.bracketValues = v.bracketValues
  axis : v'.bracketAxisIndex = v.bracketAxisIndex
  orientation : v'.orientation = v.orientation.opposite

/-- A verdict for each reassembled table, sound where it is valid, and one for its transpose that mirrors it. -/
def Validated (D : Type) [Decimal D] [PlainNotation D] (forms : TextForms) (tables : List Table) : Prop :=
  ∃ verdicts, reassembleAndValidateRateTables D forms tables = some verdicts ∧
    verdicts.map ValidatedRateTable.table = reassembleMultipageTables forms tables ∧
    ∀ v ∈ verdicts, (v.valid = true → Sound D forms v.table v) ∧
      ∃ v', validateRateTable D forms v.table.transpose = some v' ∧ Mirrors v v'

/-! ## Numbers that are read -/

theorem ofExact_neg {x q : ℚ} (h : Val.ofExact x = .fin q) : Val.ofExact (-x) = .fin (-q) := by
  unfold Val.ofExact at h ⊢
  rw [abs_neg]
  split at h
  · rename_i hzero
    obtain rfl := Val.fin.inj h
    rw [if_pos (neg_eq_zero.mpr hzero), neg_zero]
  · rename_i hne
    rw [if_neg (fun hzero => hne (neg_eq_zero.mp hzero))]
    split at h
    · cases h
    · rename_i hlarge
      rw [if_neg hlarge]
      split at h
      · rename_i hsmall
        obtain rfl := Val.fin.inj h
        rw [if_pos hsmall, neg_zero]
      · rename_i hsmall
        obtain rfl := Val.fin.inj h
        rw [if_neg hsmall]

theorem literal?_plainNumber {cs : List Char} (h : isPlainNumber cs = true) : ∃ l, literal? cs = some l := by
  unfold isPlainNumber at h
  unfold literal?
  generalize takeSign cs = signed at h ⊢
  obtain ⟨negative, body⟩ := signed
  dsimp only at h ⊢
  split at h
  · rename_i d k hm
    rw [hm]
    exact ⟨_, rfl⟩
  · cases h

theorem ofString_plainNumber {D : Type} [Decimal D] {text : List Char} {l : Literal} (h : literal? text = some l) :
    ∃ d : D, Decimal.ofString (String.ofList text) = some d ∧ Decimal.val d = Val.ofExact l.value := by
  have htext : literal? (String.ofList text).toList = some l := by rwa [String.toList_ofList]
  exact Decimal.ofString_literal _ l htext

section

variable {D : Type} [Decimal D] [PlainNotation D] {forms : TextForms}

/-- A number is read exactly, within the range of decimal.js. -/
theorem parseDecimal_eq_some {value : String} {d : D} (h : parseDecimal D forms value = some d) :
    ∃ x q, exactCellValue forms value = some x ∧ Val.ofExact x = .fin q ∧ Decimal.val d = .fin q := by
  unfold parseDecimal at h
  unfold exactCellValue
  generalize strippedNumber forms.nfkc value = stripped at h ⊢
  obtain ⟨negative, text⟩ := stripped
  dsimp only at h ⊢
  split at h
  · rename_i hplain
    obtain ⟨l, hl⟩ := literal?_plainNumber hplain
    obtain ⟨parsed, hparsed, hval⟩ := ofString_plainNumber (D := D) hl
    rw [hparsed] at h
    dsimp only at h
    split at h
    · rename_i hfinite
      obtain ⟨q, hq⟩ := Val.isFinite_iff.mp hfinite
      have hexact : Val.ofExact l.value = .fin q := hval.symm.trans hq
      obtain rfl := Option.some.inj h
      rw [if_pos hplain, hl]
      cases negative with
      | false => exact ⟨_, q, rfl, hexact, hq⟩
      | true =>
        refine ⟨_, -q, rfl, ofExact_neg hexact, ?_⟩
        rw [if_pos rfl, PlainNotation.val_negated, hq]
        rfl
    · cases h
  · cases h

theorem parseDecimal_isSome {value : String} {x q : ℚ} (hx : exactCellValue forms value = some x)
    (hq : Val.ofExact x = .fin q) : (parseDecimal D forms value).isSome := by
  unfold exactCellValue at hx
  unfold parseDecimal
  generalize strippedNumber forms.nfkc value = stripped at hx ⊢
  obtain ⟨negative, text⟩ := stripped
  dsimp only at hx ⊢
  split at hx
  · rename_i hplain
    obtain ⟨l, hl⟩ := literal?_plainNumber hplain
    obtain ⟨parsed, hparsed, hval⟩ := ofString_plainNumber (D := D) hl
    rw [hl] at hx
    have hfinite : Decimal.isFinite parsed = true := by
      have hexact : ∃ q', Val.ofExact l.value = .fin q' := by
        cases negative with
        | false =>
          obtain rfl := Option.some.inj hx
          exact ⟨q, hq⟩
        | true =>
          obtain rfl := Option.some.inj hx
          have hnegated : Val.ofExact (-l.value) = .fin q := hq
          have hback := ofExact_neg hnegated
          rw [neg_neg] at hback
          exact ⟨_, hback⟩
      rw [← hval] at hexact
      exact Val.isFinite_iff.mpr hexact
    rw [if_pos hplain, hparsed]
    dsimp only
    rw [if_pos hfinite]
    rfl
  · cases hx

/-! ## Cells without an issue -/

theorem mem_places {cell : ReassembledCell} {i j : ℤ} : (i, j) ∈ places cell ↔ cell.rectangle.Covers i j := by
  simp only [places, List.mem_map, Prod.mk.injEq, Prod.exists, Rectangle.Covers, ReassembledCell.rectangle]
  constructor
  · rintro ⟨k, l, hmem, rfl, rfl⟩
    obtain ⟨hk, hl⟩ := List.mem_product.mp hmem
    rw [List.mem_range] at hk hl
    omega
  · rintro ⟨hi, hi', hj, hj'⟩
    refine ⟨(i - cell.rowIndex).toNat, (j - cell.columnIndex).toNat, List.mem_product.mpr ?_, ?_, ?_⟩
    · rw [List.mem_range, List.mem_range]
      omega
    · omega
    · omega

theorem places_nodup (cell : ReassembledCell) : (places cell).Nodup := by
  refine List.Nodup.map ?_ (List.nodup_range.product List.nodup_range)
  rintro ⟨k, l⟩ ⟨k', l'⟩ h
  obtain ⟨hrow, hcolumn⟩ := Prod.mk.inj h
  dsimp only at hrow hcolumn
  rw [Prod.mk.injEq]
  omega

theorem occupy_places (cell : ReassembledCell) {ps : List (ℤ × ℤ)} (hnodup : ps.Nodup) (checks : CellChecks) :
    ((ps.foldl (occupy cell) checks).issues = [] ↔ checks.issues = [] ∧ ∀ p ∈ ps, checks.occupied.lookup p = none) ∧
    ∀ q, (ps.foldl (occupy cell) checks).occupied.lookup q = none ↔ checks.occupied.lookup q = none ∧ q ∉ ps := by
  induction ps generalizing checks with
  | nil => exact ⟨(and_iff_left nofun).symm, fun q => (and_iff_left List.not_mem_nil).symm⟩
  | cons p rest ih =>
    obtain ⟨hp, hrest⟩ := List.nodup_cons.mp hnodup
    obtain ⟨hissues, hoccupied⟩ := ih hrest (occupy cell checks p)
    rw [List.foldl_cons]
    cases hlookup : checks.occupied.lookup p with
    | some prior =>
      have hstep : occupy cell checks p = { checks with issues := (occupy cell checks p).issues } := by
        rw [occupy, hlookup]
      have hne : (occupy cell checks p).issues ≠ [] := by
        rw [occupy, hlookup]
        exact List.append_ne_nil_of_right_ne_nil _ (List.cons_ne_nil _ _)
      refine ⟨iff_of_false (fun h => hne (hissues.mp h).1) fun h => ?_, fun q => ?_⟩
      · have hfree := h.2 p List.mem_cons_self
        rw [hlookup] at hfree
        cases hfree
      · rw [hoccupied q, hstep, List.mem_cons, not_or]
        refine and_congr_right fun hfree => (and_iff_right ?_).symm
        rintro rfl
        rw [hlookup] at hfree
        cases hfree
    | none =>
      have hstep : occupy cell checks p = { checks with occupied := (p, cell) :: checks.occupied } := by
        rw [occupy, hlookup]
      have hfree (q : ℤ × ℤ) : (occupy cell checks p).occupied.lookup q = none ↔ checks.occupied.lookup q = none ∧ q ≠ p := by
        rw [hstep, List.lookup_cons]
        by_cases hq : q = p
        · simp [hq]
        · simp [hq, beq_eq_false_iff_ne.mpr hq]
      constructor
      · rw [hissues, hstep, List.forall_mem_cons]
        refine and_congr_right fun _ => ⟨fun h => ⟨hlookup, fun q hq => ?_⟩, fun h q hq => ?_⟩
        · have hboth := (hfree q).mp (by rw [hstep]; exact h q hq)
          exact hboth.1
        · have hboth := (hfree q).mpr ⟨h.2 q hq, fun heq => hp (heq ▸ hq)⟩
          rwa [hstep] at hboth
      · intro q
        rw [hoccupied q, hfree q, List.mem_cons, not_or, and_assoc]

/-- A cell of which nothing but its place is to be said. -/
structure CellOk (D : Type) [Decimal D] [PlainNotation D] (forms : TextForms) (t : ReassembledTable) (cell : ReassembledCell) :
    Prop where
  bottom : cell.rowIndex + cell.rowSpan ≤ t.rowCount
  right : cell.columnIndex + cell.columnSpan ≤ t.columnCount
  filled : trim cell.content ≠ ""
  numeric : looksNumeric cell.content = true → (parseDecimal D forms cell.content).isSome

variable {t : ReassembledTable}

theorem checkCell_issues (checks : CellChecks) (cell : ReassembledCell) :
    ((checkCell D forms t checks cell).issues = [] ↔
      checks.issues = [] ∧ CellOk D forms t cell ∧ ∀ p ∈ places cell, checks.occupied.lookup p = none) ∧
    ((checkCell D forms t checks cell).issues = [] →
      ∀ q, (checkCell D forms t checks cell).occupied.lookup q = none ↔
        checks.occupied.lookup q = none ∧ q ∉ places cell) := by
  unfold checkCell
  split
  · rename_i hout
    have hne : checks.issues ++ [(⟨.CELL_OUT_OF_BOUNDS, "Cell span exceeds the declared table bounds", [cell.ref]⟩ :
        TableValidationIssue)] ≠ [] := List.append_ne_nil_of_right_ne_nil _ (List.cons_ne_nil _ _)
    refine ⟨iff_of_false hne ?_, fun h => absurd h hne⟩
    rintro ⟨-, hok, -⟩
    have hbottom := hok.bottom
    have hright := hok.right
    omega
  · rename_i hin
    obtain ⟨hissues, hoccupied⟩ := occupy_places cell (places_nodup cell) { checks with issues := checks.issues ++
      (if trim cell.content = "" then [⟨.EMPTY_VALUE, "Extracted cell value is empty", [cell.ref]⟩] else []) ++
      (if looksNumeric cell.content ∧ (parseDecimal D forms cell.content).isNone then
        [⟨.INVALID_NUMERIC_VALUE, "Numeric-looking value is not an exact finite decimal: " ++ cell.content, [cell.ref]⟩]
      else []) }
    refine ⟨hissues.trans ?_, fun _ => hoccupied⟩
    rw [List.append_eq_nil_iff, List.append_eq_nil_iff, and_assoc, and_assoc]
    refine and_congr_right fun _ => ?_
    have hempty : (if trim cell.content = "" then [(⟨.EMPTY_VALUE, "Extracted cell value is empty", [cell.ref]⟩ :
        TableValidationIssue)] else []) = [] ↔ trim cell.content ≠ "" := by
      split <;> simp_all
    have hinvalid : (if looksNumeric cell.content ∧ (parseDecimal D forms cell.content).isNone then
        [(⟨.INVALID_NUMERIC_VALUE, "Numeric-looking value is not an exact finite decimal: " ++ cell.content, [cell.ref]⟩ :
          TableValidationIssue)] else []) = [] ↔
        (looksNumeric cell.content = true → (parseDecimal D forms cell.content).isSome) := by
      rw [ite_eq_right_iff]
      simp [Option.isSome_iff_ne_none]
    rw [hempty, hinvalid, ← and_assoc]
    refine and_congr_left fun _ => ⟨fun h => ⟨by omega, by omega, h.1, h.2⟩, fun h => ⟨h.filled, h.numeric⟩⟩

/-- All cells. -/
theorem foldl_checkCell (cells : List ReassembledCell) (checks : CellChecks) :
    (cells.foldl (checkCell D forms t) checks).issues = [] ↔ checks.issues = [] ∧
      (∀ cell ∈ cells, CellOk D forms t cell ∧ ∀ p ∈ places cell, checks.occupied.lookup p = none) ∧
      cells.Pairwise fun a b => ∀ p ∈ places b, p ∉ places a := by
  induction cells generalizing checks with
  | nil => simp
  | cons cell rest ih =>
    obtain ⟨hissues, hoccupied⟩ := @checkCell_issues D _ _ forms t checks cell
    rw [List.foldl_cons, ih, List.forall_mem_cons, List.pairwise_cons]
    constructor
    · rintro ⟨hstep, hrest, hpairwise⟩
      obtain ⟨hnone, hok, hfree⟩ := hissues.mp hstep
      have hsplit := hoccupied hstep
      refine ⟨hnone, ⟨⟨hok, hfree⟩, fun other hother => ?_⟩, fun other hother p hp => ?_, hpairwise⟩
      · exact ⟨(hrest other hother).1, fun p hp => ((hsplit p).mp ((hrest other hother).2 p hp)).1⟩
      · exact ((hsplit p).mp ((hrest other hother).2 p hp)).2
    · rintro ⟨hnone, ⟨⟨hok, hfree⟩, hrest⟩, hapart, hpairwise⟩
      have hstep := hissues.mpr ⟨hnone, hok, hfree⟩
      refine ⟨hstep, fun other hother => ⟨(hrest other hother).1, fun p hp => ?_⟩, hpairwise⟩
      exact (hoccupied hstep p).mpr ⟨(hrest other hother).2 p hp, hapart other hother p hp⟩

/-- A table without an issue of its cells. -/
structure Clean (D : Type) [Decimal D] [PlainNotation D] (forms : TextForms) (t : ReassembledTable) : Prop where
  cells : ∀ cell ∈ t.cells, CellOk D forms t cell
  apart : t.cells.Pairwise fun a b => a.rectangle.Apart b.rectangle

theorem clean_iff : (t.cells.foldl (checkCell D forms t) ⟨[], []⟩).issues = [] ↔ Clean D forms t := by
  have hapart : (t.cells.Pairwise fun a b => ∀ p ∈ places b, p ∉ places a) ↔
      t.cells.Pairwise fun a b => a.rectangle.Apart b.rectangle := by
    refine iff_of_eq (congrArg (fun R => List.Pairwise R t.cells) ?_)
    funext a b
    refine propext ⟨fun h i j hboth => ?_, fun h p hb ha => ?_⟩
    · exact h (i, j) (mem_places.mpr hboth.2) (mem_places.mpr hboth.1)
    · exact h p.1 p.2 ⟨mem_places.mp ha, mem_places.mp hb⟩
  rw [foldl_checkCell, hapart]
  constructor
  · rintro ⟨-, hcells, hpairwise⟩
    exact ⟨fun cell hcell => (hcells cell hcell).1, hpairwise⟩
  · rintro ⟨hcells, hpairwise⟩
    exact ⟨rfl, fun cell hcell => ⟨hcells cell hcell, fun _ _ => rfl⟩, hpairwise⟩

/-! ## The line that is chosen -/

theorem onlyOne_eq_some {α : Type} {l : List α} {a : α} : onlyOne l = some a ↔ l = [a] := by
  match l with
  | [] => exact iff_of_false nofun nofun
  | [b] => exact ⟨fun h => by rw [Option.some.inj h], fun h => by rw [h]; rfl⟩
  | b :: c :: rest => exact iff_of_false nofun nofun

omit [Decimal D] [PlainNotation D] in
theorem mem_of_chooseCandidate {candidates : List (Candidate D)} {c : Candidate D} (h : chooseCandidate candidates = some c) :
    c ∈ candidates := by
  unfold chooseCandidate at h
  split at h
  · cases h
  · have hmem := List.mem_singleton_self c
    rw [← onlyOne_eq_some.mp h] at hmem
    have hsemantic := List.mem_of_mem_filter hmem
    split at hsemantic
    · exact List.mem_of_mem_filter hsemantic
    · exact hsemantic

/-- A candidate is the numbers of a line. -/
structure LineOf (forms : TextForms) (t : ReassembledTable) (c : Candidate D) : Prop where
  orientation : c.orientation ≠ .AMBIGUOUS
  run : numericRun D forms (axisCells t.cells (across c.orientation) c.axisIndex (along c.orientation)) =
    some (c.cells, c.values)

theorem lineOf_of_mem {c : Candidate D} (h : c ∈ bracketCandidates D forms t) : LineOf forms t c := by
  rcases List.mem_append.mp h with h | h
  · obtain ⟨index, -, hline⟩ := List.mem_filterMap.mp h
    obtain ⟨numeric, hrun, rfl⟩ := Option.map_eq_some_iff.mp hline
    exact ⟨nofun, hrun⟩
  · obtain ⟨index, -, hline⟩ := List.mem_filterMap.mp h
    obtain ⟨numeric, hrun, rfl⟩ := Option.map_eq_some_iff.mp hline
    exact ⟨nofun, hrun⟩

/-- The numbers of some cells, at least two. -/
structure RunOf (D : Type) [Decimal D] [PlainNotation D] (forms : TextForms) (line cells : List ReassembledCell)
    (values : List D) : Prop where
  two : 2 ≤ cells.length
  numeric : cells = line.filter fun cell => (parseDecimal D forms cell.content).isSome
  values : List.Forall₂ (fun cell d => parseDecimal D forms cell.content = some d) cells values

theorem numericRun_eq_some {line cells : List ReassembledCell} {values : List D}
    (h : numericRun D forms line = some (cells, values)) : RunOf D forms line cells values := by
  unfold numericRun at h
  dsimp only at h
  split at h
  · cases h
  · rename_i hlength
    obtain ⟨rfl, rfl⟩ := Prod.mk.inj (Option.some.inj h)
    clear h
    refine ⟨(List.length_map Prod.fst).symm ▸ Nat.le_of_not_lt hlength, ?_, ?_⟩
    · clear hlength
      induction line with
      | nil => rfl
      | cons cell rest ih =>
        cases hparsed : parseDecimal D forms cell.content with
        | none =>
          rw [List.filterMap_cons, hparsed, List.filter_cons, hparsed]
          exact ih
        | some d =>
          rw [List.filterMap_cons, hparsed, List.filter_cons, hparsed]
          exact congrArg (cell :: ·) ih
    · rw [List.forall₂_map_left_iff, List.forall₂_map_right_iff]
      refine List.forall₂_same.mpr fun p hp => ?_
      obtain ⟨cell, -, hcell⟩ := List.mem_filterMap.mp hp
      obtain ⟨d, hd, rfl⟩ := Option.map_eq_some_iff.mp hcell
      exact hd

theorem mem_axisCells {cells : List ReassembledCell} {key order : ReassembledCell → ℤ} {index : ℤ} {cell : ReassembledCell} :
    cell ∈ axisCells cells key index order ↔ cell ∈ cells ∧ key cell = index ∧ cell.rowSpan = 1 ∧ cell.columnSpan = 1 := by
  rw [axisCells, StableSort.mem_sort, List.mem_filter, decide_eq_true_eq]

/-- The cells of a line without overlaps stand in order. -/
theorem axisCells_ordered {orientation : TableOrientation} {index : ℤ}
    (hapart : t.cells.Pairwise fun a b => a.rectangle.Apart b.rectangle) :
    (axisCells t.cells (across orientation) index (along orientation)).Pairwise fun a b => along orientation a < along orientation b := by
  have hsorted : (axisCells t.cells (across orientation) index (along orientation)).Pairwise fun a b =>
      along orientation a ≤ along orientation b := by
    have htrans : Std.TransCmp fun a b : ReassembledCell => compare (along orientation a) (along orientation b) :=
      StableSort.transCmp_key (along orientation)
    exact (StableSort.sort_pairwise _).imp fun h => compare_le_iff_le.mp h
  have hdistinct : (axisCells t.cells (across orientation) index (along orientation)).Pairwise fun a b =>
      a.rectangle.Apart b.rectangle :=
    (StableSort.sort_perm _).symm.pairwise (hapart.sublist List.filter_sublist) fun h => h.symm
  refine (List.pairwise_and_iff.mpr ⟨hsorted, hdistinct⟩).imp_of_mem fun {a b} ha hb hboth => ?_
  refine lt_of_le_of_ne hboth.1 fun heq => ?_
  obtain ⟨-, ha', ha1, ha2⟩ := mem_axisCells.mp ha
  obtain ⟨-, hb', hb1, hb2⟩ := mem_axisCells.mp hb
  refine hboth.2 a.rowIndex a.columnIndex ?_
  cases orientation <;> simp only [across, along] at ha' hb' heq <;>
    simp only [Rectangle.Covers, ReassembledCell.rectangle] <;> omega

/-! ## Valid tables -/

/-- The finite number. -/
def rational (d : D) : ℚ :=
  match Decimal.val d with
  | .fin q => q
  | _ => 0

omit [PlainNotation D] in
theorem val_rational {d : D} (h : ∃ q, Decimal.val d = .fin q) : Decimal.val d = .fin (rational d) := by
  obtain ⟨q, hq⟩ := h
  rw [rational, hq]

omit [PlainNotation D] in
theorem cmp_eq {a b : D} (ha : ∃ q, Decimal.val a = .fin q) (hb : ∃ q, Decimal.val b = .fin q) :
    cmp a b = compare (rational a) (rational b) := by
  rw [cmp, val_rational ha, val_rational hb]

theorem zip_tail_all {α : Type} {p : α × α → Bool} {l : List α} :
    (l.tail.zip l).all p = true ↔ l.IsChain fun a b => p (b, a) = true := by
  match l with
  | [] => exact iff_of_true rfl List.isChain_nil
  | [a] => exact iff_of_true rfl (List.isChain_singleton a)
  | a :: b :: rest =>
    rw [List.isChain_cons_cons, ← zip_tail_all (l := b :: rest), List.tail_cons, List.zip_cons_cons, List.all_cons,
      Bool.and_eq_true]
    rfl

omit [PlainNotation D] in
/-- Thresholds that only go up or only go down. -/
theorem strictlyMonotonic_pairwise {values : List D} (hfinite : ∀ d ∈ values, ∃ q, Decimal.val d = .fin q)
    (h : strictlyMonotonic values = true) :
    (values.map rational).Pairwise (· < ·) ∨ (values.map rational).Pairwise (· > ·) := by
  match values with
  | [] => exact .inl .nil
  | [d] => exact .inl (List.pairwise_singleton _ _)
  | first :: second :: rest =>
    simp only [strictlyMonotonic, Bool.and_eq_true, decide_eq_true_eq] at h
    obtain ⟨hne, hall⟩ := h
    have hchain := (zip_tail_all (l := first :: second :: rest)).mp hall
    have hsteps : ((first :: second :: rest).map rational).IsChain fun x y =>
        compare y x = compare (rational second) (rational first) := by
      rw [List.isChain_map]
      refine hchain.imp_of_mem_imp fun a b ha hb hab => ?_
      rw [← cmp_eq (hfinite b hb) (hfinite a ha), of_decide_eq_true hab]
      exact cmp_eq (hfinite second (List.mem_cons_of_mem _ List.mem_cons_self)) (hfinite first List.mem_cons_self)
    rw [cmp_eq (hfinite second (List.mem_cons_of_mem _ List.mem_cons_self)) (hfinite first List.mem_cons_self)] at hne
    rcases lt_trichotomy (rational first) (rational second) with hlt | heq | hgt
    · left
      refine List.isChain_iff_pairwise.mp (hsteps.imp fun x y hxy => ?_)
      rw [compare_gt_iff_gt.mpr hlt] at hxy
      exact compare_gt_iff_gt.mp hxy
    · exact absurd (compare_eq_iff_eq.mpr heq.symm) hne
    · right
      refine List.isChain_iff_pairwise.mp (hsteps.imp fun x y hxy => ?_)
      rw [compare_lt_iff_lt.mpr hgt] at hxy
      exact compare_lt_iff_lt.mp hxy

theorem verdict_valid : (rateTableVerdict D forms t).valid = true ↔ Clean D forms t ∧
    ∃ c, chooseCandidate (bracketCandidates D forms t) = some c ∧ strictlyMonotonic c.values = true := by
  show List.isEmpty _ = true ↔ _
  rw [List.isEmpty_iff, List.append_eq_nil_iff, clean_iff]
  refine and_congr_right fun _ => ?_
  cases chooseCandidate (bracketCandidates D forms t) with
  | none => exact iff_of_false (List.cons_ne_nil _ _) nofun
  | some c =>
    rw [bracketIssues]
    split
    · rename_i hmono
      exact iff_of_true rfl ⟨c, rfl, hmono⟩
    · rename_i hmono
      refine iff_of_false (List.cons_ne_nil _ _) ?_
      rintro ⟨c', hc, hmono'⟩
      obtain rfl := Option.some.inj hc
      exact hmono hmono'

theorem RunOf.finite {line cells : List ReassembledCell} {values : List D} (h : RunOf D forms line cells values) :
    ∀ d ∈ values, ∃ q, Decimal.val d = .fin q := by
  intro d hd
  obtain ⟨cell, -, hparsed⟩ := (ExceptOk.exists_of_forall₂ h.values).2 d hd
  obtain ⟨x, q, -, -, hq⟩ := parseDecimal_eq_some hparsed
  exact ⟨q, hq⟩

/-- The cells of a run with their numbers. -/
theorem RunOf.pairs {line cells : List ReassembledCell} {values : List D} (h : RunOf D forms line cells values) :
    (cells.zip (values.map rational)).map Prod.fst = cells ∧ (cells.zip (values.map rational)).map Prod.snd = values.map rational ∧
    List.Forall₂ (fun text (p : ReassembledCell × ℚ) => ReadsAs D text p.2 ∧
      ∃ x, exactCellValue forms p.1.content = some x ∧ Val.ofExact x = .fin p.2) (values.map PlainNotation.toPlain)
      (cells.zip (values.map rational)) := by
  have hlength := h.values.length_eq
  refine ⟨List.map_fst_zip (by rw [List.length_map, hlength]), List.map_snd_zip (by rw [List.length_map, hlength]), ?_⟩
  have hvalues := h.values
  clear h hlength
  induction hvalues with
  | nil => exact .nil
  | @cons cell d cells values hparsed _ ih =>
    obtain ⟨x, q, hx, hexact, hq⟩ := parseDecimal_eq_some hparsed
    have hval := val_rational ⟨q, hq⟩
    have hsame : q = rational d := Val.fin.inj (hq.symm.trans hval)
    obtain ⟨d', hread, hval'⟩ := PlainNotation.toPlain_reads d
    exact .cons ⟨⟨d', hread, hval'.trans hval⟩, x, hx, hexact.trans (congrArg Val.fin hsame)⟩ ih

theorem Gapless.mono {orientation : TableOrientation} {index : ℤ} {run run' : List ReassembledCell}
    (h : Gapless forms t orientation index run) (hsub : run' ⊆ run) : Gapless forms t orientation index run' :=
  fun cell hcell a ha b hb => h cell hcell a (hsub ha) b (hsub hb)

theorem accepted_cell (h : t.accepted = true) {cell : ReassembledCell} (hcell : cell ∈ t.cells) :
    0 ≤ cell.rowIndex ∧ 0 ≤ cell.columnIndex := by
  simp only [ReassembledTable.accepted, Bool.and_eq_true, List.all_eq_true, decide_eq_true_eq] at h
  obtain ⟨⟨⟨⟨hrow, hcolumn⟩, -⟩, -⟩, -⟩ := h.2 cell hcell
  exact ⟨hrow, hcolumn⟩

variable {v : ValidatedRateTable} {c : Candidate D}

/-- The brackets of a verdict are those of the candidate. -/
structure VerdictOf (v : ValidatedRateTable) (c : Candidate D) : Prop where
  orientation : v.orientation = c.orientation
  axis : v.bracketAxisIndex = some c.axisIndex
  values : v.bracketValues = c.values.map PlainNotation.toPlain

theorem rateTableVerdict_of (h : chooseCandidate (bracketCandidates D forms t) = some c) :
    VerdictOf (rateTableVerdict D forms t) c := by
  simp only [rateTableVerdict, h]
  exact ⟨rfl, rfl, rfl⟩

theorem gapless_of_brackets (hv : VerdictOf v c) (hline : LineOf forms t c) {index : ℤ} {run : List (ReassembledCell × ℚ)}
    (h : Brackets D forms t v index run) : Gapless forms t c.orientation c.axisIndex c.cells := by
  have hrun := numericRun_eq_some hline.run
  obtain rfl : index = c.axisIndex := Option.some.inj (h.axis.symm.trans hv.axis)
  have hgapless := h.gapless
  rw [hv.orientation] at hgapless
  refine hgapless.mono ?_
  have hsub : run.map Prod.fst ⊆ c.cells := by
    intro cell hmem
    obtain ⟨p, hp, rfl⟩ := List.mem_map.mp hmem
    obtain ⟨hcell, hacross, hspans⟩ := h.cells p hp
    obtain ⟨text, -, -, x, hx, hexact⟩ := (ExceptOk.exists_of_forall₂ h.values).2 p hp
    have hsome : (parseDecimal D forms p.1.content).isSome := parseDecimal_isSome hx hexact
    rw [hv.orientation] at hacross
    rw [hrun.numeric]
    exact List.mem_filter.mpr ⟨mem_axisCells.mpr ⟨hcell, hacross, hspans⟩, hsome⟩
  have hnodup : (run.map Prod.fst).Nodup := by
    have hordered : (run.map Prod.fst).Pairwise fun a b => along v.orientation a < along v.orientation b :=
      List.pairwise_map.mpr h.ordered
    exact hordered.imp fun hlt heq => by rw [heq] at hlt; exact lt_irrefl _ hlt
  have hlength : c.cells.length ≤ (run.map Prod.fst).length := by
    rw [List.length_map, ← h.values.length_eq, hv.values, List.length_map, hrun.values.length_eq]
  exact ((hnodup.subperm hsub).perm_of_length_le hlength).symm.subset

theorem brackets_of_gapless (hv : VerdictOf v c) (hline : LineOf forms t c)
    (hapart : t.cells.Pairwise fun a b => a.rectangle.Apart b.rectangle) (hmono : strictlyMonotonic c.values = true)
    (h : Gapless forms t c.orientation c.axisIndex c.cells) :
    Brackets D forms t v c.axisIndex (c.cells.zip (c.values.map rational)) := by
  have hrun := numericRun_eq_some hline.run
  obtain ⟨hfst, hsnd, hvalues⟩ := hrun.pairs
  have hordered : c.cells.Pairwise fun a b => along c.orientation a < along c.orientation b := by
    rw [hrun.numeric]
    exact (axisCells_ordered hapart).sublist List.filter_sublist
  constructor
  case orientation =>
    rw [hv.orientation]
    exact hline.orientation
  case axis => exact hv.axis
  case cells =>
    intro p hp
    have hmem : p.1 ∈ c.cells := hfst ▸ List.mem_map_of_mem hp
    rw [hrun.numeric] at hmem
    rw [hv.orientation]
    exact mem_axisCells.mp (List.mem_of_mem_filter hmem)
  case ordered =>
    rw [hv.orientation]
    rw [← hfst] at hordered
    exact (List.pairwise_map (R := fun a b => along c.orientation a < along c.orientation b)).mp hordered
  case two =>
    have hlength := congrArg List.length hfst
    rw [List.length_map] at hlength
    rw [hlength]
    exact hrun.two
  case values =>
    rw [hv.values]
    exact hvalues
  case monotonic =>
    rw [hsnd]
    exact strictlyMonotonic_pairwise hrun.finite hmono
  case gapless =>
    rw [hv.orientation, hfst]
    exact h

/-- Where a table is valid, all but the gaps is as it should be. -/
theorem sound_iff (haccepted : t.accepted = true) (hclean : Clean D forms t)
    (hc : chooseCandidate (bracketCandidates D forms t) = some c) (hmono : strictlyMonotonic c.values = true) :
    Sound D forms t (rateTableVerdict D forms t) ↔ Gapless forms t c.orientation c.axisIndex c.cells := by
  have hline := lineOf_of_mem (mem_of_chooseCandidate hc)
  have hv := rateTableVerdict_of hc
  constructor
  · rintro ⟨-, -, -, index, run, hbrackets⟩
    exact gapless_of_brackets hv hline hbrackets
  · intro hgapless
    refine ⟨fun cell hcell => ?_, fun cell hcell => (hclean.cells cell hcell).filled, hclean.apart, c.axisIndex, _,
      brackets_of_gapless hv hline hclean.apart hmono hgapless⟩
    obtain ⟨hrow, hcolumn⟩ := accepted_cell haccepted hcell
    exact ⟨hrow, (hclean.cells cell hcell).bottom, hcolumn, (hclean.cells cell hcell).right⟩

end

end RateTables
