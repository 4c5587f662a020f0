import Mathlib.Data.List.Sort
import FreightAuditor.Library.Json
import FreightAuditor.Library.JsText

/- What the model says a contract says.

   An extraction is a list of fields, of clauses and of rate tables, and each value in it is found or
   abstained from. `ContractExtractionSchema` accepts it; `flattenExtraction` gives every value a
   path, and no two values of an accepted extraction have one path (`fieldPaths_nodup`). The
   text that is hashed for the response stands for one extraction only (`idempotencyKey_injective`). -/
namespace ContractExtractions

open DecimalText JsText Json

/-! ## Extractions, as they are after parsing -/

structure Span where
  offset : ℕ
  length : ℕ
  deriving DecidableEq

structure ExtractionCitation where
  pageNumber : ℕ
  excerpt : String
  boundingBox : Option (List NumberText)
  span : Option Span
  deriving DecidableEq

inductive AbstainedStatus where
  | NOT_FOUND | AMBIGUOUS
  deriving DecidableEq

def AbstainedStatus.text : AbstainedStatus → String
  | .NOT_FOUND => "NOT_FOUND" | .AMBIGUOUS => "AMBIGUOUS"

/-- Source-grounded, or an explicit abstention. -/
inductive ExtractedContractValue where
  | found (rawText : String) (normalizedValue : Option String) (confidence : NumberText)
      (citations : List ExtractionCitation)
  | abstained (status : AbstainedStatus) (rawText : Option String) (confidence : NumberText)
      (citations : List ExtractionCitation) (clarificationQuestion : String)
  deriving DecidableEq

def ExtractedContractValue.confidence : ExtractedContractValue → NumberText
  | .found _ _ confidence _ => confidence
  | .abstained _ _ confidence _ _ => confidence

def ExtractedContractValue.citations : ExtractedContractValue → List ExtractionCitation
  | .found _ _ _ citations => citations
  | .abstained _ _ _ citations _ => citations

inductive SemanticType where
  | TEXT | DATE | DECIMAL | PERCENTAGE | CURRENCY | DURATION | IDENTIFIER
  deriving DecidableEq

def SemanticType.text : SemanticType → String
  | .TEXT => "TEXT" | .DATE => "DATE" | .DECIMAL => "DECIMAL" | .PERCENTAGE => "PERCENTAGE" | .CURRENCY => "CURRENCY"
  | .DURATION => "DURATION" | .IDENTIFIER => "IDENTIFIER"

structure ContractExtractionField where
  path : String
  semanticType : SemanticType
  value : ExtractedContractValue
  deriving DecidableEq

structure ExtractedContractClause where
  clauseReference : String
  title : Option String
  text : ExtractedContractValue
  deriving DecidableEq

inductive CellRole where
  | COLUMN_HEADER | ROW_HEADER | VALUE
  deriving DecidableEq

def CellRole.text : CellRole → String
  | .COLUMN_HEADER => "COLUMN_HEADER" | .ROW_HEADER => "ROW_HEADER" | .VALUE => "VALUE"

structure ExtractedRateTableCell where
  rowIndex : ℕ
  columnIndex : ℕ
  rowSpan : ℕ
  columnSpan : ℕ
  role : CellRole
  value : ExtractedContractValue
  deriving DecidableEq

inductive Orientation where
  | ROW_BRACKETS | COLUMN_BRACKETS | AMBIGUOUS
  deriving DecidableEq

def Orientation.text : Orientation → String
  | .ROW_BRACKETS => "ROW_BRACKETS" | .COLUMN_BRACKETS => "COLUMN_BRACKETS" | .AMBIGUOUS => "AMBIGUOUS"

structure ExtractedRateTable where
  tableKey : String
  title : ExtractedContractValue
  orientation : Orientation
  rowCount : ℕ
  columnCount : ℕ
  cells : List ExtractedRateTableCell
  deriving DecidableEq

structure ModelPin where
  modelId : String
  promptVersion : String
  deriving DecidableEq

structure ContractExtraction where
  sourceDocumentSha256 : String
  model : ModelPin
  fields : List ContractExtractionField
  clauses : List ExtractedContractClause
  rateTables : List ExtractedRateTable
  deriving DecidableEq

/-! ## What the schema accepts -/

/-- `z.string().trim().min(1).max(maximum)`, of a text that was trimmed. -/
def boundedText (maximum : ℕ) (s : String) : Bool := trim s == s && decide (1 ≤ length s) && decide (length s ≤ maximum)

def ExtractionCitationSchema (citation : ExtractionCitation) : Bool :=
  decide (0 < citation.pageNumber) && boundedText 4000 citation.excerpt &&
    citation.boundingBox.all (fun box =>
      decide (8 ≤ box.length) && decide (box.length ≤ 32) && box.all fun n => decide (0 ≤ n.value)) &&
    citation.span.all (fun span => decide (0 < span.length)) &&
    (citation.boundingBox.isSome || citation.span.isSome)

def confidenceSchema (confidence : NumberText) : Bool := decide (0 ≤ confidence.value) && decide (confidence.value ≤ 1)

def ExtractedContractValueSchema : ExtractedContractValue → Bool
  | .found rawText normalizedValue confidence citations =>
    boundedText 20000 rawText && normalizedValue.all (boundedText 20000) && confidenceSchema confidence &&
      citations.all ExtractionCitationSchema && decide (1 ≤ citations.length) && decide (citations.length ≤ 20)
  | .abstained _ rawText confidence citations clarificationQuestion =>
    rawText.all (boundedText 20000) && confidenceSchema confidence && citations.all ExtractionCitationSchema &&
      decide (citations.length ≤ 20) && boundedText 2000 clarificationQuestion

def isLower (c : Char) : Bool := 'a' ≤ c && c ≤ 'z'

def isWord (c : Char) : Bool := isLower c || ('A' ≤ c && c ≤ 'Z') || c.isDigit || c == '_'

/-- Where the expression for paths is: before a name, in one, in brackets (with something in them or not), or after them. -/
inductive PathState where
  | start | name | bracket (empty : Bool) | closed
  deriving DecidableEq

def PathState.next : PathState → Char → Option PathState
  | .start, c => if isLower c then some .name else none
  | .name, c => if isWord c then some .name else if c = '[' then some (.bracket true) else if c = '.' then some .start else none
  | .bracket empty, c =>
    if isWord c || c == '-' then some (.bracket false) else if c = ']' ∧ ¬ empty then some .closed else none
  | .closed, c => if c = '[' then some (.bracket true) else if c = '.' then some .start else none

/-- `/^[a-z][a-zA-Z0-9_]*(?:\[(?:\d+|[a-zA-Z0-9_-]+)\]|\.[a-z][a-zA-Z0-9_]*)*$/`. -/
def isFieldPath (s : String) : Bool :=
  match s.toList.foldlM PathState.next .start with
  | some .name | some .closed => true
  | _ => false

/-- `/^[a-z][a-z0-9_-]*$/`. -/
def isTableKey (s : String) : Bool :=
  match s.toList with
  | [] => false
  | c :: rest => isLower c && rest.all fun d => isLower d || d.isDigit || d == '_' || d == '-'

def ContractExtractionFieldSchema (field : ContractExtractionField) : Bool :=
  boundedText 500 field.path && isFieldPath field.path && ExtractedContractValueSchema field.value

def ExtractedContractClauseSchema (clause : ExtractedContractClause) : Bool :=
  boundedText 300 clause.clauseReference && clause.title.all (boundedText 1000) && ExtractedContractValueSchema clause.text

def ExtractedRateTableCellSchema (cell : ExtractedRateTableCell) : Bool :=
  decide (0 < cell.rowSpan) && decide (cell.rowSpan ≤ 10000) && decide (0 < cell.columnSpan) &&
    decide (cell.columnSpan ≤ 10000) && ExtractedContractValueSchema cell.value

/-- The coordinates that a cell covers. -/
def ExtractedRateTableCell.coordinates (cell : ExtractedRateTableCell) : List (ℕ × ℕ) :=
  (List.range' cell.rowIndex cell.rowSpan).product (List.range' cell.columnIndex cell.columnSpan)

/-- No cell exceeds the bounds of the table or overlaps one before it. -/
def cellsFit (rowCount columnCount : ℕ) : List ExtractedRateTableCell → List (ℕ × ℕ) → Bool
  | [], _ => true
  | cell :: rest, occupied =>
    decide (cell.rowIndex + cell.rowSpan ≤ rowCount) && decide (cell.columnIndex + cell.columnSpan ≤ columnCount) &&
      cell.coordinates.all (fun coordinate => !occupied.contains coordinate) &&
      cellsFit rowCount columnCount rest (cell.coordinates ++ occupied)

def ExtractedRateTableSchema (table : ExtractedRateTable) : Bool :=
  boundedText 300 table.tableKey && isTableKey table.tableKey && ExtractedContractValueSchema table.title &&
    decide (0 < table.rowCount) && decide (table.rowCount ≤ 100000) && decide (0 < table.columnCount) &&
    decide (table.columnCount ≤ 10000) && decide (table.cells.length ≤ 250000) &&
    table.cells.all ExtractedRateTableCellSchema && cellsFit table.rowCount table.columnCount table.cells []

def isSha256 (s : String) : Bool := s.toList.length == 64 && s.toList.all fun c => c.isDigit || ('a' ≤ c && c ≤ 'f')

section

variable (canonical : String → String)

/-- `canonical` is the NFKC form in lower case. -/
def rejectDuplicates (values : List String) : Bool := decide (values.map canonical).Nodup

def ContractExtractionSchema (extraction : ContractExtraction) : Bool :=
  isSha256 extraction.sourceDocumentSha256 && boundedText 200 extraction.model.modelId &&
    boundedText 200 extraction.model.promptVersion &&
    decide (extraction.fields.length ≤ 10000) && extraction.fields.all ContractExtractionFieldSchema &&
    decide (extraction.clauses.length ≤ 10000) && extraction.clauses.all ExtractedContractClauseSchema &&
    decide (extraction.rateTables.length ≤ 1000) && extraction.rateTables.all ExtractedRateTableSchema &&
    rejectDuplicates canonical (extraction.fields.map ContractExtractionField.path) &&
    rejectDuplicates canonical (extraction.clauses.map ExtractedContractClause.clauseReference) &&
    rejectDuplicates canonical (extraction.rateTables.map ExtractedRateTable.tableKey)

end

/-! ## Paths -/

structure PersistenceRow where
  fieldPath : String
  value : ExtractedContractValue
  deriving DecidableEq

def clausePath (clauseReference : String) : String := "clauses[" ++ String.ofList (quote clauseReference) ++ "].text"

def tableBase (tableKey : String) : String := "rateTables[" ++ String.ofList (quote tableKey) ++ "]"

def ExtractedRateTableCell.corner (cell : ExtractedRateTableCell) : ℕ × ℕ := (cell.rowIndex, cell.columnIndex)

def cellSuffix (corner : ℕ × ℕ) : String := ".cells[" ++ toString corner.1 ++ "," ++ toString corner.2 ++ "]"

def ExtractedRateTable.rows (table : ExtractedRateTable) : List PersistenceRow :=
  ⟨tableBase table.tableKey ++ ".title", table.title⟩ ::
    table.cells.map fun cell => ⟨tableBase table.tableKey ++ cellSuffix cell.corner, cell.value⟩

/-- The rows as they are collected. -/
def collectRows (extraction : ContractExtraction) : List PersistenceRow :=
  extraction.fields.map (fun field => ⟨field.path, field.value⟩) ++
    extraction.clauses.map (fun clause => ⟨clausePath clause.clauseReference, clause.text⟩) ++
    extraction.rateTables.flatMap ExtractedRateTable.rows

def flattenExtraction (localeCompare : String → String → Ordering) (extraction : ContractExtraction) : List PersistenceRow :=
  (collectRows extraction).insertionSort fun left right => localeCompare left.fieldPath right.fieldPath ≠ .gt

/-! ## Different values have different paths -/

/-- A character that no state goes on with is in no path. -/
theorem not_mem_fieldPath {s : String} {d : Char} (h : isFieldPath s = true) (hnone : ∀ st, PathState.next st d = none) :
    d ∉ s.toList := by
  have hrun : ∀ (cs : List Char) (st st' : PathState), cs.foldlM PathState.next st = some st' → d ∉ cs := by
    intro cs
    induction cs with
    | nil => exact fun _ _ _ => List.not_mem_nil
    | cons c rest ih =>
      intro st st' hrun
      rw [List.foldlM_cons] at hrun
      obtain ⟨mid, hmid, hrest⟩ := Option.bind_eq_some_iff.mp hrun
      rw [List.mem_cons, not_or]
      refine ⟨fun hc => ?_, ih mid st' hrest⟩
      rw [← hc, hnone st] at hmid
      cases hmid
  unfold isFieldPath at h
  cases hfold : s.toList.foldlM PathState.next .start with
  | none =>
    rw [hfold] at h
    cases h
  | some st => exact hrun _ _ _ hfold

theorem fieldPath_no_quote {s : String} (h : isFieldPath s = true) : '"' ∉ s.toList := by
  refine not_mem_fieldPath h fun st => ?_
  cases st with
  | bracket empty => cases empty <;> decide
  | _ => decide

theorem quote_mem (s : String) : '"' ∈ quote s := List.mem_cons_self

theorem clausePath_injective : Function.Injective clausePath := by
  intro a b h
  have htext := congrArg String.toList h
  simp only [clausePath, String.toList_append, String.toList_ofList, List.append_assoc] at htext
  exact (quote_append_inj (List.append_cancel_left htext)).1

/-- A table's key and the rest of a path are read back from the path. -/
theorem tableBase_append_inj {a b s t : String} (h : tableBase a ++ s = tableBase b ++ t) : a = b ∧ s = t := by
  have htext := congrArg String.toList h
  simp only [tableBase, String.toList_append, String.toList_ofList, List.append_assoc] at htext
  obtain ⟨hkey, hrest⟩ := quote_append_inj (List.append_cancel_left htext)
  exact ⟨hkey, String.toList_inj.mp (List.append_cancel_left hrest)⟩

theorem cellSuffix_injective : Function.Injective cellSuffix := by
  intro a b h
  have htext := congrArg String.toList h
  have hdelimiter : ",".toList = [','] := by decide
  simp only [cellSuffix, String.toList_append, hdelimiter, List.append_assoc, List.cons_append, List.nil_append] at htext
  have hrest := List.append_cancel_left htext
  have hcomma : ∀ n : ℕ, ',' ∉ (toString n).toList := fun n => by
    rw [Nat.toString_eq_repr, Nat.toList_repr]
    exact not_mem_toDigits (by decide) n
  obtain ⟨hrow, hcolumn⟩ := append_delimiter_inj (hcomma a.1) (hcomma b.1) hrest
  have hcolumn' := List.append_cancel_right hcolumn
  have hdigits : ∀ {m n : ℕ}, (toString m).toList = (toString n).toList → m = n := fun {m n} h => by
    rw [Nat.toString_eq_repr, Nat.toString_eq_repr, Nat.toList_repr, Nat.toList_repr] at h
    exact toDigits_injective h
  exact Prod.ext (hdigits hrow) (hdigits hcolumn')

theorem title_ne_cellSuffix (corner : ℕ × ℕ) : ".title" ≠ cellSuffix corner := by
  intro h
  have htext := congrArg String.toList h
  simp [cellSuffix] at htext

/-- Cells that fit have different corners. -/
theorem corners_nodup {rowCount columnCount : ℕ} {cells : List ExtractedRateTableCell} {occupied : List (ℕ × ℕ)}
    (hspans : ∀ cell ∈ cells, 0 < cell.rowSpan ∧ 0 < cell.columnSpan) (h : cellsFit rowCount columnCount cells occupied = true) :
    (cells.map ExtractedRateTableCell.corner).Nodup ∧ ∀ cell ∈ cells, cell.corner ∉ occupied := by
  induction cells generalizing occupied with
  | nil => exact ⟨List.nodup_nil, fun cell hcell => absurd hcell List.not_mem_nil⟩
  | cons cell rest ih =>
    simp only [cellsFit, Bool.and_eq_true, List.all_eq_true, Bool.not_eq_true', List.contains_eq_mem,
      decide_eq_false_iff_not] at h
    obtain ⟨⟨-, hfree⟩, hrest⟩ := h
    obtain ⟨hspan, hspans⟩ := List.forall_mem_cons.mp hspans
    obtain ⟨hnodup, hclear⟩ := ih hspans hrest
    have hcorner : cell.corner ∈ cell.coordinates :=
      List.mem_product.mpr ⟨List.mem_range'_1.mpr ⟨le_refl _, by omega⟩, List.mem_range'_1.mpr ⟨le_refl _, by omega⟩⟩
    refine ⟨List.nodup_cons.mpr ⟨fun hmem => ?_, hnodup⟩, List.forall_mem_cons.mpr ⟨hfree _ hcorner, fun other hother => ?_⟩⟩
    · obtain ⟨other, hother, heq⟩ := List.mem_map.mp hmem
      exact hclear other hother (List.mem_append_left _ (heq ▸ hcorner))
    · exact fun hmem => hclear other hother (List.mem_append_right _ hmem)

theorem mem_tablePaths {table : ExtractedRateTable} {path : String} (h : path ∈ table.rows.map PersistenceRow.fieldPath) :
    ∃ suffix, path = tableBase table.tableKey ++ suffix := by
  obtain ⟨row, hrow, rfl⟩ := List.mem_map.mp h
  rcases List.mem_cons.mp hrow with rfl | hrow
  · exact ⟨".title", rfl⟩
  · obtain ⟨cell, -, rfl⟩ := List.mem_map.mp hrow
    exact ⟨cellSuffix cell.corner, rfl⟩

theorem tablePaths_nodup {table : ExtractedRateTable} (h : ExtractedRateTableSchema table = true) :
    (table.rows.map PersistenceRow.fieldPath).Nodup := by
  simp only [ExtractedRateTableSchema, Bool.and_eq_true, List.all_eq_true] at h
  obtain ⟨⟨-, hcells⟩, hfit⟩ := h
  have hspans : ∀ cell ∈ table.cells, 0 < cell.rowSpan ∧ 0 < cell.columnSpan := by
    intro cell hcell
    have hcell := hcells cell hcell
    simp only [ExtractedRateTableCellSchema, Bool.and_eq_true, decide_eq_true_eq] at hcell
    omega
  obtain ⟨hnodup, -⟩ := corners_nodup hspans hfit
  let path (corner : ℕ × ℕ) : String := tableBase table.tableKey ++ cellSuffix corner
  have hinj : Function.Injective path := fun a b hab => cellSuffix_injective (tableBase_append_inj hab).2
  have hpaths : table.rows.map PersistenceRow.fieldPath =
      (tableBase table.tableKey ++ ".title") :: (table.cells.map ExtractedRateTableCell.corner).map path := by
    rw [ExtractedRateTable.rows, List.map_cons, List.map_map, List.map_map]
    rfl
  rw [hpaths]
  refine List.nodup_cons.mpr ⟨fun hmem => ?_, hnodup.map hinj⟩
  obtain ⟨corner, -, hcorner⟩ := List.mem_map.mp hmem
  exact title_ne_cellSuffix corner (tableBase_append_inj hcorner).2.symm

section

variable {canonical : String → String} {extraction : ContractExtraction}

/-- Values with different canonical forms are different. -/
theorem nodup_of_rejectDuplicates {values : List String} (h : rejectDuplicates canonical values = true) : values.Nodup :=
  List.Nodup.of_map canonical (of_decide_eq_true h)

theorem collectPaths_nodup (h : ContractExtractionSchema canonical extraction = true) :
    ((collectRows extraction).map PersistenceRow.fieldPath).Nodup := by
  simp only [ContractExtractionSchema, Bool.and_eq_true, List.all_eq_true] at h
  obtain ⟨⟨⟨⟨⟨⟨⟨⟨-, hfields⟩, -⟩, -⟩, -⟩, htables⟩, hpaths⟩, hreferences⟩, hkeys⟩ := h
  have hfieldQuote : ∀ path ∈ extraction.fields.map ContractExtractionField.path, '"' ∉ path.toList := by
    intro path hpath
    obtain ⟨field, hfield, rfl⟩ := List.mem_map.mp hpath
    have hfield := hfields field hfield
    simp only [ContractExtractionFieldSchema, Bool.and_eq_true] at hfield
    exact fieldPath_no_quote hfield.1.2
  have hrows : (collectRows extraction).map PersistenceRow.fieldPath =
      extraction.fields.map ContractExtractionField.path ++
        ((extraction.clauses.map ExtractedContractClause.clauseReference).map clausePath ++
          extraction.rateTables.flatMap fun table => table.rows.map PersistenceRow.fieldPath) := by
    rw [collectRows, List.map_append, List.map_append, List.map_map, List.map_map, List.map_flatMap, List.map_map,
      List.append_assoc]
    rfl
  rw [hrows]
  refine List.Nodup.append (nodup_of_rejectDuplicates hpaths) (List.Nodup.append ?_ ?_ ?_) ?_
  · exact (nodup_of_rejectDuplicates hreferences).map clausePath_injective
  · refine List.nodup_flatMap.mpr ⟨fun table htable => tablePaths_nodup (htables table htable), ?_⟩
    refine List.Pairwise.imp ?_ (List.pairwise_map.mp (nodup_of_rejectDuplicates hkeys))
    intro a b hne path ha hb
    obtain ⟨s, rfl⟩ := mem_tablePaths ha
    obtain ⟨t, heq⟩ := mem_tablePaths hb
    exact hne (tableBase_append_inj heq).1
  · -- a clause's path starts with another letter than a table's
    intro path hclause htable
    obtain ⟨reference, -, rfl⟩ := List.mem_map.mp hclause
    obtain ⟨table, -, htable⟩ := List.mem_flatMap.mp htable
    obtain ⟨s, heq⟩ := mem_tablePaths htable
    have htext := congrArg String.toList heq
    simp [clausePath, tableBase] at htext
  · -- a field's path has no quote
    intro path hfield hother
    refine hfieldQuote path hfield ?_
    rcases List.mem_append.mp hother with hclause | htable
    · obtain ⟨reference, -, rfl⟩ := List.mem_map.mp hclause
      simp [clausePath, quote_mem]
    · obtain ⟨table, -, htable⟩ := List.mem_flatMap.mp htable
      obtain ⟨s, rfl⟩ := mem_tablePaths htable
      simp [tableBase, quote_mem]

/-- No two values of an accepted extraction have one path. -/
theorem fieldPaths_nodup {localeCompare : String → String → Ordering}
    (h : ContractExtractionSchema canonical extraction = true) :
    ((flattenExtraction localeCompare extraction).map PersistenceRow.fieldPath).Nodup :=
  ((List.perm_insertionSort _ _).map _).nodup_iff.mpr (collectPaths_nodup h)

end

/-! ## The text of an extraction -/

def nat (n : ℕ) : Value := .ofNumber (.ofNat n)

def nullable (s : Option String) : Value := (s.map Value.str).getD .null

def Span.toJson (span : Span) : Value := .obj [("offset", nat span.offset), ("length", nat span.length)]

def ExtractionCitation.toJson (c : ExtractionCitation) : Value :=
  .obj ([("pageNumber", nat c.pageNumber), ("excerpt", .str c.excerpt)] ++
    (c.boundingBox.map fun box => ("boundingBox", .arr (box.map Value.num))).toList ++
    (c.span.map fun span => ("span", span.toJson)).toList)

def ExtractedContractValue.toJson : ExtractedContractValue → Value
  | .found rawText normalizedValue confidence citations =>
    .obj [("status", .str "FOUND"), ("rawText", .str rawText), ("normalizedValue", nullable normalizedValue),
      ("confidence", .num confidence), ("citations", .arr (citations.map ExtractionCitation.toJson))]
  | .abstained status rawText confidence citations clarificationQuestion =>
    .obj [("status", .str status.text), ("rawText", nullable rawText), ("normalizedValue", .null),
      ("confidence", .num confidence), ("citations", .arr (citations.map ExtractionCitation.toJson)),
      ("clarificationQuestion", .str clarificationQuestion)]

def ContractExtractionField.toJson (f : ContractExtractionField) : Value :=
  .obj [("path", .str f.path), ("semanticType", .str f.semanticType.text), ("value", f.value.toJson)]

def ExtractedContractClause.toJson (c : ExtractedContractClause) : Value :=
  .obj [("clauseReference", .str c.clauseReference), ("title", nullable c.title), ("text", c.text.toJson)]

def ExtractedRateTableCell.toJson (c : ExtractedRateTableCell) : Value :=
  .obj [("rowIndex", nat c.rowIndex), ("columnIndex", nat c.columnIndex), ("rowSpan", nat c.rowSpan),
    ("columnSpan", nat c.columnSpan), ("role", .str c.role.text), ("value", c.value.toJson)]

def ExtractedRateTable.toJson (t : ExtractedRateTable) : Value :=
  .obj [("tableKey", .str t.tableKey), ("title", t.title.toJson), ("orientation", .str t.orientation.text),
    ("rowCount", nat t.rowCount), ("columnCount", nat t.columnCount),
    ("cells", .arr (t.cells.map ExtractedRateTableCell.toJson))]

def CONTRACT_EXTRACTION_SCHEMA_VERSION : String := "contract-extraction/1"

def ContractExtraction.toJson (x : ContractExtraction) : Value :=
  .obj [("schemaVersion", .str CONTRACT_EXTRACTION_SCHEMA_VERSION),
    ("sourceDocumentSha256", .str x.sourceDocumentSha256),
    ("model", .obj [("provider", .str "anthropic"), ("modelId", .str x.model.modelId),
      ("promptVersion", .str x.model.promptVersion)]),
    ("fields", .arr (x.fields.map ContractExtractionField.toJson)),
    ("clauses", .arr (x.clauses.map ExtractedContractClause.toJson)),
    ("rateTables", .arr (x.rateTables.map ExtractedRateTable.toJson))]

/-- The keys are the schema's own, which `localeCompare` orders as their code points do. -/
def contractExtractionIdempotencyKey (sha256 : String → String) (x : ContractExtraction) : String :=
  sha256 (String.ofList (canonicalText x.toJson))

theorem nat_injective : Function.Injective nat := by
  intro a b h
  have hvalue := congrArg NumberText.value (Value.num.inj h)
  rw [NumberText.value_ofNat, NumberText.value_ofNat] at hvalue
  exact Nat.cast_injective hvalue

theorem nullable_injective : Function.Injective nullable := by
  intro a b h
  cases a with
  | none => cases b with
    | none => rfl
    | some t => cases h
  | some s => cases b with
    | none => cases h
    | some t => rw [Value.str.inj h]

theorem sortKeys_nullable (s : Option String) : sortKeys (nullable s) = nullable s := by
  cases s with
  | none => rfl
  | some t => rfl

theorem span_injective : Function.Injective fun s : Span => sortKeys s.toJson := by
  rintro ⟨offset, length⟩ ⟨offset', length'⟩ h
  obtain rfl : offset = offset' := nat_injective (value_eq "offset" h rfl rfl)
  obtain rfl : length = length' := nat_injective (value_eq "length" h rfl rfl)
  rfl

theorem citation_boundingBox (c : ExtractionCitation) :
    c.toJson.get? "boundingBox" = c.boundingBox.map fun box => Value.arr (box.map Value.num) := by
  obtain ⟨pageNumber, excerpt, boundingBox, span⟩ := c
  cases boundingBox with
  | some box => rfl
  | none => cases span with
    | none => rfl
    | some span => rfl

theorem citation_span (c : ExtractionCitation) : c.toJson.get? "span" = c.span.map Span.toJson := by
  obtain ⟨pageNumber, excerpt, boundingBox, span⟩ := c
  cases boundingBox with
  | none => cases span with
    | none => rfl
    | some span => rfl
  | some box => cases span with
    | none => rfl
    | some span => rfl

theorem numbers_injective : Function.Injective fun l : List NumberText => sortKeys (.arr (l.map Value.num)) :=
  sortKeys_arr_injective fun _ _ h => Value.num.inj h

theorem citation_injective : Function.Injective fun c : ExtractionCitation => sortKeys c.toJson := by
  intro a b h
  have hbox := field_eq h "boundingBox"
  rw [citation_boundingBox, citation_boundingBox, Option.map_map, Option.map_map] at hbox
  have hspan := field_eq h "span"
  rw [citation_span, citation_span, Option.map_map, Option.map_map] at hspan
  obtain ⟨pageNumber, excerpt, boundingBox, span⟩ := a
  obtain ⟨pageNumber', excerpt', boundingBox', span'⟩ := b
  obtain rfl : pageNumber = pageNumber' := nat_injective (value_eq "pageNumber" h rfl rfl)
  obtain rfl : excerpt = excerpt' := Value.str.inj (value_eq "excerpt" h rfl rfl)
  obtain rfl : boundingBox = boundingBox' := Option.map_injective numbers_injective hbox
  obtain rfl : span = span' := Option.map_injective span_injective hspan
  rfl

theorem abstainedStatus_injective {a b : AbstainedStatus} (h : a.text = b.text) : a = b := by
  cases a <;> cases b <;> first | rfl | exact absurd h (by decide)

theorem value_injective : Function.Injective fun v : ExtractedContractValue => sortKeys v.toJson := by
  intro a b h
  have hcitations := sortKeys_arr_injective citation_injective
  cases a with
  | found rawText normalizedValue confidence citations =>
    cases b with
    | found rawText' normalizedValue' confidence' citations' =>
      obtain rfl : rawText = rawText' := Value.str.inj (value_eq "rawText" h rfl rfl)
      have hnormalized := value_eq "normalizedValue" h rfl rfl
      rw [sortKeys_nullable, sortKeys_nullable] at hnormalized
      obtain rfl : normalizedValue = normalizedValue' := nullable_injective hnormalized
      obtain rfl : confidence = confidence' := Value.num.inj (value_eq "confidence" h rfl rfl)
      obtain rfl : citations = citations' := hcitations (value_eq "citations" h rfl rfl)
      rfl
    | abstained status' rawText' confidence' citations' question' =>
      have hstatus := Value.str.inj (value_eq "status" h rfl rfl)
      cases status' with
      | NOT_FOUND => exact absurd hstatus (by decide)
      | AMBIGUOUS => exact absurd hstatus (by decide)
  | abstained status rawText confidence citations question =>
    cases b with
    | found rawText' normalizedValue' confidence' citations' =>
      have hstatus := Value.str.inj (value_eq "status" h rfl rfl)
      cases status with
      | NOT_FOUND => exact absurd hstatus (by decide)
      | AMBIGUOUS => exact absurd hstatus (by decide)
    | abstained status' rawText' confidence' citations' question' =>
      obtain rfl : status = status' := abstainedStatus_injective (Value.str.inj (value_eq "status" h rfl rfl))
      have hraw := value_eq "rawText" h rfl rfl
      rw [sortKeys_nullable, sortKeys_nullable] at hraw
      obtain rfl : rawText = rawText' := nullable_injective hraw
      obtain rfl : confidence = confidence' := Value.num.inj (value_eq "confidence" h rfl rfl)
      obtain rfl : citations = citations' := hcitations (value_eq "citations" h rfl rfl)
      obtain rfl : question = question' := Value.str.inj (value_eq "clarificationQuestion" h rfl rfl)
      rfl

theorem semanticType_injective {a b : SemanticType} (h : a.text = b.text) : a = b := by
  cases a <;> cases b <;> first | rfl | exact absurd h (by decide)

theorem field_injective : Function.Injective fun f : ContractExtractionField => sortKeys f.toJson := by
  rintro ⟨path, semanticType, value⟩ ⟨path', semanticType', value'⟩ h
  obtain rfl : path = path' := Value.str.inj (value_eq "path" h rfl rfl)
  obtain rfl : semanticType = semanticType' := semanticType_injective (Value.str.inj (value_eq "semanticType" h rfl rfl))
  obtain rfl : value = value' := value_injective (value_eq "value" h rfl rfl)
  rfl

theorem clause_injective : Function.Injective fun c : ExtractedContractClause => sortKeys c.toJson := by
  rintro ⟨clauseReference, title, text⟩ ⟨clauseReference', title', text'⟩ h
  obtain rfl : clauseReference = clauseReference' := Value.str.inj (value_eq "clauseReference" h rfl rfl)
  have htitle := value_eq "title" h rfl rfl
  rw [sortKeys_nullable, sortKeys_nullable] at htitle
  obtain rfl : title = title' := nullable_injective htitle
  obtain rfl : text = text' := value_injective (value_eq "text" h rfl rfl)
  rfl

theorem role_injective {a b : CellRole} (h : a.text = b.text) : a = b := by
  cases a <;> cases b <;> first | rfl | exact absurd h (by decide)

theorem cell_injective : Function.Injective fun c : ExtractedRateTableCell => sortKeys c.toJson := by
  rintro ⟨rowIndex, columnIndex, rowSpan, columnSpan, role, value⟩
    ⟨rowIndex', columnIndex', rowSpan', columnSpan', role', value'⟩ h
  obtain rfl : rowIndex = rowIndex' := nat_injective (value_eq "rowIndex" h rfl rfl)
  obtain rfl : columnIndex = columnIndex' := nat_injective (value_eq "columnIndex" h rfl rfl)
  obtain rfl : rowSpan = rowSpan' := nat_injective (value_eq "rowSpan" h rfl rfl)
  obtain rfl : columnSpan = columnSpan' := nat_injective (value_eq "columnSpan" h rfl rfl)
  obtain rfl : role = role' := role_injective (Value.str.inj (value_eq "role" h rfl rfl))
  obtain rfl : value = value' := value_injective (value_eq "value" h rfl rfl)
  rfl

theorem orientation_injective {a b : Orientation} (h : a.text = b.text) : a = b := by
  cases a <;> cases b <;> first | rfl | exact absurd h (by decide)

theorem table_injective : Function.Injective fun t : ExtractedRateTable => sortKeys t.toJson := by
  rintro ⟨tableKey, title, orientation, rowCount, columnCount, cells⟩
    ⟨tableKey', title', orientation', rowCount', columnCount', cells'⟩ h
  obtain rfl : tableKey = tableKey' := Value.str.inj (value_eq "tableKey" h rfl rfl)
  obtain rfl : title = title' := value_injective (value_eq "title" h rfl rfl)
  obtain rfl : orientation = orientation' := orientation_injective (Value.str.inj (value_eq "orientation" h rfl rfl))
  obtain rfl : rowCount = rowCount' := nat_injective (value_eq "rowCount" h rfl rfl)
  obtain rfl : columnCount = columnCount' := nat_injective (value_eq "columnCount" h rfl rfl)
  obtain rfl : cells = cells' := sortKeys_arr_injective cell_injective (value_eq "cells" h rfl rfl)
  rfl

theorem extraction_injective : Function.Injective fun x : ContractExtraction => sortKeys x.toJson := by
  rintro ⟨document, ⟨modelId, promptVersion⟩, fields, clauses, rateTables⟩
    ⟨document', ⟨modelId', promptVersion'⟩, fields', clauses', rateTables'⟩ h
  obtain rfl : document = document' := Value.str.inj (value_eq "sourceDocumentSha256" h rfl rfl)
  have hmodel := value_eq "model" h rfl rfl
  obtain rfl : modelId = modelId' := Value.str.inj (value_eq "modelId" hmodel rfl rfl)
  obtain rfl : promptVersion = promptVersion' := Value.str.inj (value_eq "promptVersion" hmodel rfl rfl)
  obtain rfl : fields = fields' := sortKeys_arr_injective field_injective (value_eq "fields" h rfl rfl)
  obtain rfl : clauses = clauses' := sortKeys_arr_injective clause_injective (value_eq "clauses" h rfl rfl)
  obtain rfl : rateTables = rateTables' := sortKeys_arr_injective table_injective (value_eq "rateTables" h rfl rfl)
  rfl

/-- Two extractions with one key are one document. -/
theorem idempotencyKey_injective {sha256 : String → String} (hsha : Function.Injective sha256) :
    Function.Injective (contractExtractionIdempotencyKey sha256) := by
  intro a b h
  exact extraction_injective (canonicalText_inj.mp (String.ofList_injective (hsha h)))

end ContractExtractions
