import Mathlib.Algebra.Order.BigOperators.Group.List
import Mathlib.Data.Finset.Lattice.Fold
import Mathlib.Data.List.Chain
import Mathlib.Data.PNat.Basic
import Mathlib.Data.Rat.Defs
import Mathlib.Order.Lattice.Nat
import FreightAuditor.Library.ExceptOk
import FreightAuditor.Library.JsText
import FreightAuditor.Library.Rectangles
import FreightAuditor.Library.StableSort

/- Rate tables that run over several pages.

   Fragments are taken in page order, and one that follows the last is joined to its table: the rows down
   to its last header row are left out and the others moved under the table. That is all of the table
   if the header rows of each joined fragment lead it (`reassembled_iff`). -/
namespace RateTables

open JsText

structure BoundingRegion where
  pageNumber : ℕ+
  polygon : Option (List ℚ)
  deriving DecidableEq

structure Cell where
  rowIndex : ℕ
  columnIndex : ℕ
  rowSpan : Option ℕ+
  columnSpan : Option ℕ+
  content : String
  kind : Option String
  boundingRegions : Option (List BoundingRegion)
  deriving DecidableEq

/-- A table of the provider. -/
structure Table where
  rowCount : ℕ+
  columnCount : ℕ+
  cells : List Cell
  boundingRegions : Option (List BoundingRegion)
  deriving DecidableEq

structure Source where
  tableIndex : ℕ
  pageNumber : ℕ
  rowIndex : ℕ
  columnIndex : ℕ
  boundingRegions : List BoundingRegion
  deriving DecidableEq

structure ReassembledCell where
  rowIndex : ℤ
  columnIndex : ℤ
  rowSpan : ℤ
  columnSpan : ℤ
  content : String
  source : Source
  deriving DecidableEq

structure ReassembledTable where
  columnCount : ℤ
  rowCount : ℤ
  headerSignature : String
  sourceTableIndexes : List ℕ
  pageNumbers : List ℕ
  cells : List ReassembledCell
  deriving DecidableEq

/-- What the texts of cells are normalised by. -/
structure TextForms where
  nfc : String → String
  nfkc : String → String
  toLocaleLowerCase : String → String

section

variable (forms : TextForms)

/-- The page of all regions, where it is one. -/
def singlePage (table : Table) : Option ℕ :=
  let regions := table.boundingRegions.getD [] ++ table.cells.flatMap fun cell => cell.boundingRegions.getD []
  match (regions.map fun region => (region.pageNumber : ℕ)).dedup with
  | [page] => some page
  | _ => none

def headerRowIndexes (table : Table) : Finset ℕ :=
  let explicit := ((table.cells.filter fun cell => cell.kind = some "columnHeader").map Cell.rowIndex).toFinset
  if explicit.card ≠ 0 then explicit else {0}

/-- `replace(/\s+/g, ' ')`. -/
def collapseSpaces : List Char → List Char
  | [] => []
  | [c] => if isWhiteSpace c then [' '] else [c]
  | c :: d :: rest =>
    if isWhiteSpace c then
      if isWhiteSpace d then collapseSpaces (d :: rest) else ' ' :: collapseSpaces (d :: rest)
    else c :: collapseSpaces (d :: rest)

def headerText (content : String) : String :=
  forms.toLocaleLowerCase (String.ofList (collapseSpaces (trim (forms.nfkc content)).toList))

def compareCells (a b : Cell) : Ordering := (compare a.rowIndex b.rowIndex).then (compare a.columnIndex b.columnIndex)

def headerSignature (table : Table) : String :=
  "|".intercalate ((StableSort.sort compareCells (table.cells.filter fun cell => cell.rowIndex ∈ headerRowIndexes table)).map
    fun cell => toString cell.columnIndex ++ ":" ++ headerText forms cell.content)

structure Fragment where
  table : Table
  tableIndex : ℕ
  pageNumber : Option ℕ
  headerSignature : String
  deriving DecidableEq

def MAX_SAFE_INTEGER : ℕ := 9007199254740991

/-- By page, those of no one page last, and then by index. -/
def compareFragments (a b : Fragment) : Ordering :=
  (compare (a.pageNumber.getD MAX_SAFE_INTEGER) (b.pageNumber.getD MAX_SAFE_INTEGER)).then
    (compare a.tableIndex b.tableIndex)

def fragment (entry : Table × ℕ) : Fragment :=
  ⟨entry.1, entry.2, singlePage entry.1, headerSignature forms entry.1⟩

/-- The fragments in page order. -/
def fragments (tables : List Table) : List Fragment :=
  StableSort.sort compareFragments (tables.zipIdx.map (fragment forms))

def normalizeCell (cell : Cell) (tableIndex : ℕ) (pageNumber : Option ℕ) (rowIndex : ℤ) : ReassembledCell where
  rowIndex := rowIndex
  columnIndex := cell.columnIndex
  rowSpan := (cell.rowSpan.getD 1 : ℕ+)
  columnSpan := (cell.columnSpan.getD 1 : ℕ+)
  content := forms.nfc cell.content
  source := ⟨tableIndex,
    (pageNumber.orElse fun _ => (cell.boundingRegions.bind List.head?).map fun region => region.pageNumber).getD 0,
    cell.rowIndex, cell.columnIndex, cell.boundingRegions.getD []⟩

def buildTable (f : Fragment) : ReassembledTable where
  columnCount := f.table.columnCount
  rowCount := f.table.rowCount
  headerSignature := f.headerSignature
  sourceTableIndexes := [f.tableIndex]
  pageNumbers := f.pageNumber.toList
  cells := f.table.cells.map fun cell => normalizeCell forms cell f.tableIndex f.pageNumber cell.rowIndex

def canJoin (prior : ReassembledTable) (f : Fragment) : Bool :=
  match f.pageNumber with
  | none => false
  | some page => prior.pageNumbers.getLast?.any (fun last => last + 1 == page) &&
      prior.columnCount == (f.table.columnCount : ℕ) && prior.headerSignature != "" &&
      prior.headerSignature == f.headerSignature

/-- The row after the last header row. -/
def firstDataRow (table : Table) : ℕ :=
  let headerRows := headerRowIndexes table
  if headerRows.card ≠ 0 then headerRows.sup id + 1 else 0

def joinFragment (prior : ReassembledTable) (f : Fragment) : ReassembledTable :=
  let rowOffset := prior.rowCount - firstDataRow f.table
  { prior with
    cells := prior.cells ++ (f.table.cells.filter fun cell => ¬ cell.rowIndex < firstDataRow f.table).map fun cell =>
      normalizeCell forms cell f.tableIndex f.pageNumber (cell.rowIndex + rowOffset)
    rowCount := prior.rowCount + ((f.table.rowCount : ℕ) - (firstDataRow f.table : ℤ))
    sourceTableIndexes := prior.sourceTableIndexes ++ [f.tableIndex]
    pageNumbers := prior.pageNumbers ++ f.pageNumber.toList }

/-- A fragment joined to the last table, or a table of its own. -/
def addFragment (output : List ReassembledTable) (f : Fragment) : List ReassembledTable :=
  match output.getLast? with
  | none => output ++ [buildTable forms f]
  | some prior =>
    if canJoin prior f then output.dropLast ++ [joinFragment forms prior f]
    else output ++ [buildTable forms f]

def reassembleMultipageTables (tables : List Table) : List ReassembledTable :=
  (fragments forms tables).foldl (addFragment forms) []

end

/-! ## What is claimed -/

def Cell.rectangle (cell : Cell) : Rectangle :=
  ⟨cell.rowIndex, cell.columnIndex, (cell.rowSpan.getD 1 : ℕ+), (cell.columnSpan.getD 1 : ℕ+)⟩

def ReassembledCell.rectangle (cell : ReassembledCell) : Rectangle :=
  ⟨cell.rowIndex, cell.columnIndex, cell.rowSpan, cell.columnSpan⟩

/-- Cells in bounds that do not overlap. -/
structure Table.WellFormed (table : Table) : Prop where
  inBounds : ∀ cell ∈ table.cells, cell.rectangle.Inside (table.rowCount : ℕ) (table.columnCount : ℕ)
  apart : table.cells.Pairwise fun a b => a.rectangle.Apart b.rectangle

/-- On the next page, with as many columns and the same header. -/
def Follows (f g : Fragment) : Prop :=
  (∃ page, f.pageNumber = some page ∧ g.pageNumber = some (page + 1)) ∧ f.table.columnCount = g.table.columnCount ∧
    f.headerSignature ≠ "" ∧ f.headerSignature = g.headerSignature

/-- The cells of a group of fragments: all of the first, and of the others those in no row that is left out. -/
def dataCells (leftOut : Table → Finset ℕ) : List Fragment → List (Fragment × Cell)
  | [] => []
  | first :: joined => first.table.cells.map (first, ·) ++ joined.flatMap fun f =>
      (f.table.cells.filter fun cell => cell.rowIndex ∉ leftOut f.table).map (f, ·)

/-- The number of rows of a group: all of the first, and of the others those that are not left out. -/
def dataRows (leftOut : Table → Finset ℕ) : List Fragment → ℤ
  | [] => 0
  | first :: joined => (first.table.rowCount : ℕ) +
      (joined.map fun f => ((f.table.rowCount : ℕ) - ((leftOut f.table).card : ℤ))).sum

/-- A table made of a group of fragments. -/
structure Conserves (forms : TextForms) (leftOut : Table → Finset ℕ) (group : List Fragment) (t : ReassembledTable) : Prop where
  indexes : t.sourceTableIndexes = group.map Fragment.tableIndex
  linked : group.IsChain Follows
  columnCount : ∀ f ∈ group, t.columnCount = (f.table.columnCount : ℕ)
  rowCount : t.rowCount = dataRows leftOut group
  /-- Each cell but for its row. -/
  cells : List.Forall₂ (fun (p : Fragment × Cell) c =>
    c = normalizeCell forms p.2 p.1.tableIndex p.1.pageNumber c.rowIndex) (dataCells leftOut group) t.cells
  /-- Rows of a fragment keep their distances, and come after those of earlier ones. -/
  rowOrder : t.cells.Pairwise fun a b =>
    if a.source.tableIndex = b.source.tableIndex then
      a.rowIndex - b.rowIndex = (a.source.rowIndex : ℤ) - b.source.rowIndex
    else a.rowIndex < b.rowIndex
  inBounds : ∀ c ∈ t.cells, c.rectangle.Inside t.rowCount t.columnCount
  apart : t.cells.Pairwise fun a b => a.rectangle.Apart b.rectangle

/-- Each fragment is in one group, and each group makes one table. -/
def Conserved (forms : TextForms) (leftOut : Table → Finset ℕ) (tables : List Table) (output : List ReassembledTable) : Prop :=
  ∃ groups : List (List Fragment), groups.flatten.Perm (tables.zipIdx.map (fragment forms)) ∧ [] ∉ groups ∧
    List.Forall₂ (Conserves forms leftOut) groups output

/-- Header rows are the first rows. -/
def HeadersLead (table : Table) : Prop := headerRowIndexes table = Finset.range (firstDataRow table)

instance (table : Table) : Decidable (HeadersLead table) := inferInstanceAs (Decidable (_ = _))

/-! ## Header rows -/

theorem headerRowIndexes_nonempty (table : Table) : (headerRowIndexes table).card ≠ 0 := by
  unfold headerRowIndexes
  dsimp only
  split
  · assumption
  · decide

theorem firstDataRow_eq (table : Table) : firstDataRow table = (headerRowIndexes table).sup id + 1 :=
  if_pos (headerRowIndexes_nonempty table)

theorem headerRow_lt {table : Table} {row : ℕ} (h : row ∈ headerRowIndexes table) : row < firstDataRow table := by
  rw [firstDataRow_eq]
  exact Nat.lt_succ_of_le (Finset.le_sup (f := id) h)

/-- The rows that the join leaves out. -/
def rowsBefore (table : Table) : Finset ℕ := Finset.range (firstDataRow table)

theorem headerRows_subset (table : Table) : headerRowIndexes table ⊆ rowsBefore table :=
  fun _ h => Finset.mem_range.mpr (headerRow_lt h)

theorem headersLead_iff {table : Table} : HeadersLead table ↔ (headerRowIndexes table).card = firstDataRow table := by
  constructor
  · intro h
    rw [show headerRowIndexes table = _ from h, Finset.card_range]
  · intro h
    refine Finset.eq_of_subset_of_card_le (headerRows_subset table) ?_
    rw [Finset.card_range, h]

/-- Header rows are rows of the table. -/
theorem firstDataRow_le {table : Table} (h : table.WellFormed) : firstDataRow table ≤ table.rowCount := by
  have hlt : ∀ row ∈ headerRowIndexes table, row < table.rowCount := by
    intro row hrow
    unfold headerRowIndexes at hrow
    dsimp only at hrow
    split at hrow
    · obtain ⟨cell, hcell, rfl⟩ := List.mem_map.mp (List.mem_toFinset.mp hrow)
      have hinside := h.inBounds cell (List.mem_of_mem_filter hcell)
      have hspan := (cell.rowSpan.getD 1).pos
      simp only [Rectangle.Inside, Cell.rectangle] at hinside
      omega
    · rw [Finset.mem_singleton.mp hrow]
      exact table.rowCount.pos
  rw [firstDataRow_eq, Nat.succ_le_iff, Finset.sup_lt_iff table.rowCount.pos]
  exact hlt

/-! ## One join -/

section

variable {forms : TextForms} {leftOut : Table → Finset ℕ} {group : List Fragment} {t : ReassembledTable} {f : Fragment}

theorem dataCells_append (hne : group ≠ []) : dataCells leftOut (group ++ [f]) = dataCells leftOut group ++
    (f.table.cells.filter fun cell => cell.rowIndex ∉ leftOut f.table).map (f, ·) := by
  cases group with
  | nil => exact absurd rfl hne
  | cons first joined =>
    simp only [dataCells, List.cons_append, List.flatMap_append, List.flatMap_cons, List.flatMap_nil, List.append_nil,
      List.append_assoc]

theorem dataRows_append (hne : group ≠ []) : dataRows leftOut (group ++ [f]) = dataRows leftOut group +
    ((f.table.rowCount : ℕ) - ((leftOut f.table).card : ℤ)) := by
  cases group with
  | nil => exact absurd rfl hne
  | cons first joined =>
    simp only [dataRows, List.cons_append, List.map_append, List.map_cons, List.map_nil, List.sum_append, List.sum_cons,
      List.sum_nil, add_zero, add_assoc]

theorem dataCells_mem {p : Fragment × Cell} (h : p ∈ dataCells leftOut group) : p.1 ∈ group ∧ p.2 ∈ p.1.table.cells := by
  cases group with
  | nil => cases h
  | cons first joined =>
    rcases List.mem_append.mp h with h | h
    · obtain ⟨cell, hcell, rfl⟩ := List.mem_map.mp h
      exact ⟨List.mem_cons_self, hcell⟩
    · obtain ⟨g, hg, h⟩ := List.mem_flatMap.mp h
      obtain ⟨cell, hcell, rfl⟩ := List.mem_map.mp h
      exact ⟨List.mem_cons_of_mem _ hg, List.mem_of_mem_filter hcell⟩

/-- Where a cell of the table comes from. -/
theorem Conserves.origin (h : Conserves forms leftOut group t) {c : ReassembledCell} (hc : c ∈ t.cells) :
    ∃ g ∈ group, ∃ cell ∈ g.table.cells, c = normalizeCell forms cell g.tableIndex g.pageNumber c.rowIndex := by
  obtain ⟨p, hp, heq⟩ := (ExceptOk.exists_of_forall₂ h.cells).2 c hc
  obtain ⟨hgroup, hcell⟩ := dataCells_mem hp
  exact ⟨p.1, hgroup, p.2, hcell, heq⟩

theorem normalizeCell_rectangle {cell : Cell} {tableIndex : ℕ} {pageNumber : Option ℕ} {k : ℤ} :
    (normalizeCell forms cell tableIndex pageNumber (cell.rowIndex + k)).rectangle = cell.rectangle.shift k := rfl

/-- A fragment alone. -/
theorem buildTable_conserves (hwf : f.table.WellFormed) : Conserves forms leftOut [f] (buildTable forms f) where
  indexes := rfl
  linked := List.isChain_singleton f
  columnCount := fun g hg => by rw [List.mem_singleton.mp hg]; rfl
  rowCount := by simp [dataRows, buildTable]
  cells := by
    simp only [dataCells, List.flatMap_nil, List.append_nil, buildTable]
    rw [List.forall₂_map_left_iff, List.forall₂_map_right_iff]
    exact List.forall₂_same.mpr fun _ _ => rfl
  rowOrder := by
    rw [buildTable, List.pairwise_map]
    exact List.pairwise_of_forall fun a b => (if_pos rfl).mpr rfl
  inBounds := by
    intro c hc
    obtain ⟨cell, hcell, rfl⟩ := List.mem_map.mp hc
    exact hwf.inBounds cell hcell
  apart := by
    rw [buildTable, List.pairwise_map]
    exact hwf.apart

/-- A fragment that follows, under the rows that are there. -/
theorem joinFragment_conserves (h : Conserves forms rowsBefore group t) (hne : group ≠ [])
    (hfollows : ∀ last ∈ group.getLast?, Follows last f) (hwf : f.table.WellFormed)
    (hnew : f.tableIndex ∉ group.map Fragment.tableIndex) (hrows : 0 ≤ t.rowCount) :
    Conserves forms rowsBefore (group ++ [f]) (joinFragment forms t f) := by
  have hlast : group.getLast hne ∈ group.getLast? := List.getLast?_eq_some_getLast hne
  have hcolumns : t.columnCount = (f.table.columnCount : ℕ) := by
    rw [h.columnCount _ (List.getLast_mem hne), (hfollows _ hlast).2.1]
  have hfits : ((firstDataRow f.table : ℕ) : ℤ) ≤ (f.table.rowCount : ℕ) := by exact_mod_cast firstDataRow_le hwf
  have hold : ∀ c ∈ t.cells, c.source.tableIndex ≠ f.tableIndex ∧ 0 < c.rowSpan := by
    intro c hc
    obtain ⟨g, hg, cell, -, heq⟩ := h.origin hc
    refine ⟨fun hsame => hnew ?_, ?_⟩
    · have hindex : g.tableIndex = f.tableIndex := by rw [← hsame, heq]; rfl
      exact hindex ▸ List.mem_map_of_mem hg
    · rw [heq]
      show (0 : ℤ) < (cell.rowSpan.getD 1 : ℕ+)
      exact_mod_cast (cell.rowSpan.getD 1).pos
  have hkept : ∀ cell : Cell, cell.rowIndex ∉ rowsBefore f.table ↔ ¬ cell.rowIndex < firstDataRow f.table :=
    fun cell => not_congr Finset.mem_range
  have hcross : ∀ a ∈ t.cells, ∀ cell ∈ f.table.cells.filter (fun cell => ¬ cell.rowIndex < firstDataRow f.table),
      a.rowIndex + a.rowSpan ≤ cell.rowIndex + (t.rowCount - firstDataRow f.table) := by
    intro a ha cell hcell
    obtain ⟨-, hbottom, -, -⟩ := h.inBounds a ha
    have hrow := of_decide_eq_true (List.mem_filter.mp hcell).2
    simp only [ReassembledCell.rectangle] at hbottom
    omega
  constructor
  case indexes =>
    show t.sourceTableIndexes ++ [f.tableIndex] = _
    rw [h.indexes, List.map_append, List.map_singleton]
  case linked =>
    refine List.isChain_append.mpr ⟨h.linked, List.isChain_singleton f, fun x hx y hy => ?_⟩
    obtain rfl := Option.some.inj hy
    exact hfollows x hx
  case columnCount =>
    intro g hg
    rcases List.mem_append.mp hg with hg | hg
    · exact h.columnCount g hg
    · rw [List.mem_singleton.mp hg]
      exact hcolumns
  case rowCount =>
    rw [dataRows_append hne, ← h.rowCount, rowsBefore, Finset.card_range]
    rfl
  case cells =>
    rw [dataCells_append hne]
    refine List.rel_append h.cells ?_
    simp only [hkept]
    rw [List.forall₂_map_left_iff, List.forall₂_map_right_iff]
    exact List.forall₂_same.mpr fun _ _ => rfl
  case rowOrder =>
    refine List.pairwise_append.mpr ⟨h.rowOrder, ?_, fun a ha b hb => ?_⟩
    · rw [List.pairwise_map]
      refine List.pairwise_of_forall fun a b => (if_pos rfl).mpr ?_
      show (a.rowIndex : ℤ) + _ - (b.rowIndex + _) = _
      exact add_sub_add_right_eq_sub _ _ _
    · obtain ⟨cell, hcell, rfl⟩ := List.mem_map.mp hb
      have hspan := (hold a ha).2
      have habove := hcross a ha cell hcell
      refine (if_neg (hold a ha).1).mpr ?_
      show a.rowIndex < cell.rowIndex + (t.rowCount - firstDataRow f.table)
      omega
  case inBounds =>
    intro c hc
    rcases List.mem_append.mp hc with hc | hc
    · obtain ⟨htop, hbottom, hsides⟩ := h.inBounds c hc
      refine ⟨htop, ?_, hsides⟩
      show _ ≤ t.rowCount + _
      omega
    · obtain ⟨cell, hcell, rfl⟩ := List.mem_map.mp hc
      obtain ⟨-, hbottom, hleft, hright⟩ := hwf.inBounds cell (List.mem_of_mem_filter hcell)
      have hrow := of_decide_eq_true (List.mem_filter.mp hcell).2
      simp only [Cell.rectangle] at hbottom hleft hright
      rw [normalizeCell_rectangle]
      refine ⟨?_, ?_, hleft, ?_⟩
      · show (0 : ℤ) ≤ cell.rowIndex + (t.rowCount - firstDataRow f.table)
        omega
      · show (cell.rowIndex : ℤ) + (t.rowCount - firstDataRow f.table) + (cell.rowSpan.getD 1 : ℕ+) ≤
          t.rowCount + ((f.table.rowCount : ℕ) - (firstDataRow f.table : ℤ))
        omega
      · show (cell.columnIndex : ℤ) + (cell.columnSpan.getD 1 : ℕ+) ≤ t.columnCount
        rwa [hcolumns]
  case apart =>
    refine List.pairwise_append.mpr ⟨h.apart, ?_, fun a ha b hb => ?_⟩
    · rw [List.pairwise_map]
      refine (hwf.apart.sublist List.filter_sublist).imp fun {a b} hapart => ?_
      rw [normalizeCell_rectangle, normalizeCell_rectangle]
      exact Rectangle.apart_shift _ hapart
    · obtain ⟨cell, hcell, rfl⟩ := List.mem_map.mp hb
      exact Rectangle.apart_of_above (hcross a ha cell hcell)

/-! ## Groups -/

/-- What is known of the last table, from the fragment it ends with. -/
structure EndsWith (t : ReassembledTable) (last : Fragment) : Prop where
  columnCount : t.columnCount = (last.table.columnCount : ℕ)
  headerSignature : t.headerSignature = last.headerSignature
  pageNumber : t.pageNumbers.getLast? = last.pageNumber

theorem buildTable_endsWith : EndsWith (buildTable forms f) f := by
  refine ⟨rfl, rfl, ?_⟩
  show f.pageNumber.toList.getLast? = f.pageNumber
  cases f.pageNumber <;> rfl

theorem joinFragment_endsWith {last : Fragment} (h : EndsWith t last) (hfollows : Follows last f) :
    EndsWith (joinFragment forms t f) f := by
  obtain ⟨⟨page, -, hpage⟩, hcolumns, -, hsignature⟩ := hfollows
  refine ⟨?_, h.headerSignature.trans hsignature, ?_⟩
  · rw [← hcolumns]
    exact h.columnCount
  · show (t.pageNumbers ++ f.pageNumber.toList).getLast? = f.pageNumber
    rw [hpage, Option.toList_some, List.getLast?_concat]

/-- The test of the join is that of the last fragment. -/
theorem canJoin_iff {last : Fragment} (h : EndsWith t last) : canJoin t f = true ↔ Follows last f := by
  unfold canJoin Follows
  rw [h.columnCount, h.headerSignature, h.pageNumber]
  cases f.pageNumber with
  | none => simp
  | some page =>
    cases last.pageNumber with
    | none => simp
    | some before =>
      simp only [Option.any_some, Bool.and_eq_true, beq_iff_eq, bne_iff_ne, Option.some.injEq, exists_eq_left',
        Nat.cast_inj, PNat.coe_inj, and_assoc]
      exact and_congr_left fun _ => eq_comm

/-- The table made of a group of fragments. -/
inductive Made (forms : TextForms) : List Fragment → ReassembledTable → Prop
  | alone (f : Fragment) : Made forms [f] (buildTable forms f)
  | joined {group : List Fragment} {t : ReassembledTable} {last f : Fragment} (made : Made forms (group ++ [last]) t)
      (follows : Follows last f) : Made forms (group ++ [last] ++ [f]) (joinFragment forms t f)

theorem Made.ne_nil (h : Made forms group t) : group ≠ [] := by
  cases h with
  | alone f => exact List.cons_ne_nil _ _
  | joined made follows => exact List.append_ne_nil_of_right_ne_nil _ (List.cons_ne_nil _ _)

theorem Made.ends (h : Made forms group t) : ∀ last ∈ group.getLast?, EndsWith t last := by
  induction h with
  | alone f =>
    intro last hlast
    obtain rfl := Option.some.inj hlast
    exact buildTable_endsWith
  | joined made follows ih =>
    intro last hlast
    rw [List.getLast?_concat] at hlast
    obtain rfl := Option.some.inj hlast
    exact joinFragment_endsWith (ih _ List.getLast?_concat) follows

theorem Made.rowCount (h : Made forms group t) : t.rowCount = dataRows rowsBefore group := by
  induction h with
  | alone f => simp [dataRows, buildTable]
  | joined made follows ih =>
    rw [dataRows_append made.ne_nil, ← ih, rowsBefore, Finset.card_range]
    rfl

theorem Made.indexes (h : Made forms group t) : t.sourceTableIndexes = group.map Fragment.tableIndex := by
  induction h with
  | alone f => rfl
  | joined made follows ih =>
    rw [List.map_append, ← ih]
    rfl

theorem Made.linked (h : Made forms group t) : group.IsChain Follows := by
  induction h with
  | alone f => exact List.isChain_singleton f
  | joined made follows ih =>
    refine List.isChain_append.mpr ⟨ih, List.isChain_singleton _, fun x hx y hy => ?_⟩
    rw [List.getLast?_concat] at hx
    obtain rfl := Option.some.inj hx
    obtain rfl := Option.some.inj hy
    exact follows

/-- Of well-formed fragments a table is made that conserves them. -/
theorem Made.conserves (h : Made forms group t) (hwf : ∀ f ∈ group, f.table.WellFormed)
    (hnodup : (group.map Fragment.tableIndex).Nodup) : Conserves forms rowsBefore group t ∧ 0 ≤ t.rowCount := by
  induction h with
  | alone f => exact ⟨buildTable_conserves (hwf f List.mem_cons_self), Int.natCast_nonneg _⟩
  | @joined group t last f made follows ih =>
    have hf : f.table.WellFormed := hwf f (List.mem_append_right _ (List.mem_singleton_self f))
    rw [List.map_append, List.nodup_append] at hnodup
    obtain ⟨hconserves, hrows⟩ := ih (fun g hg => hwf g (List.mem_append_left _ hg)) hnodup.1
    have hnew : f.tableIndex ∉ (group ++ [last]).map Fragment.tableIndex := fun hmem =>
      hnodup.2.2 _ hmem _ List.mem_cons_self rfl
    have hfollows : ∀ g ∈ (group ++ [last]).getLast?, Follows g f := by
      intro g hg
      rw [List.getLast?_concat] at hg
      obtain rfl := Option.some.inj hg
      exact follows
    refine ⟨joinFragment_conserves hconserves made.ne_nil hfollows hf hnew hrows, ?_⟩
    have hfits : ((firstDataRow f.table : ℕ) : ℤ) ≤ (f.table.rowCount : ℕ) := by exact_mod_cast firstDataRow_le hf
    show 0 ≤ t.rowCount + ((f.table.rowCount : ℕ) - (firstDataRow f.table : ℤ))
    omega

/-- The tables so far, the last one first, and the groups they are made of. -/
structure Grouped (forms : TextForms) (processed : List Fragment) (groups : List (List Fragment))
    (output : List ReassembledTable) : Prop where
  flatten : groups.reverse.flatten = processed
  separate : groups.IsChain fun h g => ∀ f ∈ g.getLast?, ∀ f' ∈ h.head?, ¬ Follows f f'
  tables : List.Forall₂ (Made forms) groups output.reverse

theorem addFragment_grouped {processed : List Fragment} {groups : List (List Fragment)} {output : List ReassembledTable}
    (h : Grouped forms processed groups output) : ∃ groups', Grouped forms (processed ++ [f]) groups' (addFragment forms output f) := by
  rcases List.eq_nil_or_concat' output with rfl | ⟨rest, prior, rfl⟩
  · obtain rfl : groups = [] := List.forall₂_nil_right_iff.mp h.tables
    refine ⟨[[f]], ?_, List.isChain_singleton _, .cons (.alone f) .nil⟩
    rw [← h.flatten]
    rfl
  · have htables := h.tables
    rw [List.reverse_concat] at htables
    obtain ⟨g, gs, hmade, hrest, rfl⟩ := List.forall₂_cons_right_iff.mp htables
    obtain ⟨before, last, rfl⟩ := (List.eq_nil_or_concat' g).resolve_left hmade.ne_nil
    have htest : canJoin prior f = true ↔ Follows last f := canJoin_iff (hmade.ends last List.getLast?_concat)
    have hflatten := h.flatten
    rw [List.reverse_cons, List.flatten_append, List.flatten_singleton] at hflatten
    rw [addFragment, List.getLast?_concat]
    by_cases hjoin : canJoin prior f = true
    · -- under the last table
      refine ⟨(before ++ [last] ++ [f]) :: gs, ?_, ?_, ?_⟩
      · rw [List.reverse_cons, List.flatten_append, List.flatten_singleton, ← List.append_assoc, hflatten]
      · cases gs with
        | nil => exact List.isChain_singleton _
        | cons g' gs =>
          obtain ⟨hfirst, hothers⟩ := List.isChain_cons_cons.mp h.separate
          refine List.isChain_cons_cons.mpr ⟨fun x hx y hy => hfirst x hx y ?_, hothers⟩
          rwa [List.head?_append_of_ne_nil _ hmade.ne_nil] at hy
      · simp only [hjoin, if_true, List.dropLast_concat, List.reverse_concat]
        exact .cons (.joined hmade (htest.mp hjoin)) hrest
    · refine ⟨[f] :: (before ++ [last]) :: gs, ?_, ?_, ?_⟩
      · rw [List.reverse_cons, List.flatten_append, List.flatten_singleton, h.flatten]
      · refine List.isChain_cons_cons.mpr ⟨fun x hx y hy => ?_, h.separate⟩
        rw [List.getLast?_concat] at hx
        obtain rfl := Option.some.inj hx
        obtain rfl := Option.some.inj hy
        exact fun hfollows => hjoin (htest.mpr hfollows)
      · dsimp only
        rw [if_neg hjoin, List.reverse_concat, List.reverse_concat]
        exact .cons (.alone f) htables

theorem foldl_grouped {l processed : List Fragment} {groups : List (List Fragment)} {output : List ReassembledTable}
    (h : Grouped forms processed groups output) :
    ∃ groups', Grouped forms (processed ++ l) groups' (l.foldl (addFragment forms) output) := by
  induction l generalizing processed groups output with
  | nil => exact ⟨groups, by rwa [List.append_nil]⟩
  | cons f rest ih =>
    obtain ⟨groups', hstep⟩ := addFragment_grouped h
    obtain ⟨groups'', hrun⟩ := ih hstep
    rw [List.append_assoc, List.singleton_append] at hrun
    exact ⟨groups'', hrun⟩

variable {tables : List Table}

theorem fragments_perm (forms : TextForms) (tables : List Table) :
    (fragments forms tables).Perm (tables.zipIdx.map (fragment forms)) := StableSort.sort_perm _

theorem fragment_table (hf : f ∈ tables.zipIdx.map (fragment forms)) : f.table ∈ tables := by
  obtain ⟨⟨table, i⟩, hentry, rfl⟩ := List.mem_map.mp hf
  exact (List.mem_zipIdx' hentry).2 ▸ List.getElem_mem _

theorem tableIndexes_nodup (forms : TextForms) (tables : List Table) :
    ((tables.zipIdx.map (fragment forms)).map Fragment.tableIndex).Nodup := by
  rw [List.map_map]
  have hindexes : (tables.zipIdx.map Prod.snd).Nodup := by
    rw [List.zipIdx_map_snd]
    exact List.nodup_range'
  exact hindexes

/-- Fragments of one index are one. -/
theorem fragment_eq {g : Fragment} (hf : f ∈ tables.zipIdx.map (fragment forms)) (hg : g ∈ tables.zipIdx.map (fragment forms))
    (h : f.tableIndex = g.tableIndex) : f = g :=
  List.inj_on_of_nodup_map (tableIndexes_nodup forms tables) hf hg h

theorem reassemble_grouped (forms : TextForms) (tables : List Table) :
    ∃ groups, Grouped forms (fragments forms tables) groups (reassembleMultipageTables forms tables) :=
  foldl_grouped ⟨rfl, List.isChain_nil, .nil⟩

section

variable {groups : List (List Fragment)} {output : List ReassembledTable}

theorem Grouped.made (h : Grouped forms (fragments forms tables) groups output) :
    List.Forall₂ (Made forms) groups.reverse output := by
  have htables := List.forall₂_reverse_iff.mpr h.tables
  rwa [List.reverse_reverse] at htables

theorem Grouped.perm (h : Grouped forms (fragments forms tables) groups output) :
    groups.reverse.flatten.Perm (tables.zipIdx.map (fragment forms)) := by
  rw [h.flatten]
  exact fragments_perm forms tables

theorem Grouped.nonempty (h : Grouped forms (fragments forms tables) groups output) : [] ∉ groups.reverse := by
  intro hmem
  obtain ⟨t, -, hmade⟩ := (ExceptOk.exists_of_forall₂ h.made).1 [] hmem
  exact hmade.ne_nil rfl

theorem Grouped.conserves (h : Grouped forms (fragments forms tables) groups output)
    (hwf : ∀ table ∈ tables, table.WellFormed) : List.Forall₂ (Conserves forms rowsBefore) groups.reverse output := by
  have hgroup : ∀ group ∈ groups.reverse, (∀ f ∈ group, f.table.WellFormed) ∧ (group.map Fragment.tableIndex).Nodup := by
    intro group hgroup
    refine ⟨fun f hf => hwf _ (fragment_table (h.perm.mem_iff.mp (List.mem_flatten.mpr ⟨group, hgroup, hf⟩))), ?_⟩
    have hall := (h.perm.map Fragment.tableIndex).nodup_iff.mpr (tableIndexes_nodup forms tables)
    exact hall.sublist ((List.sublist_flatten_of_mem hgroup).map _)
  exact ((List.forall₂_and_left _ _).mpr ⟨hgroup, h.made⟩).imp fun _ _ hboth => (hboth.2.conserves hboth.1.1 hboth.1.2).1

end

/-! ## When nothing else is left out -/

/-- The groups of a table whose joined fragments all lead with their header rows. -/
theorem conserves_congr {leftOut' : Table → Finset ℕ} (h : Conserves forms leftOut group t)
    (hsame : ∀ g ∈ group.tail, leftOut g.table = leftOut' g.table) : Conserves forms leftOut' group t := by
  have hcells : dataCells leftOut group = dataCells leftOut' group := by
    cases group with
    | nil => rfl
    | cons first joined =>
      refine congrArg (_ ++ ·) (List.flatMap_congr fun g hg => ?_)
      rw [hsame g hg]
  have hrows : dataRows leftOut group = dataRows leftOut' group := by
    cases group with
    | nil => rfl
    | cons first joined =>
      refine congrArg (_ + ·) (congrArg List.sum (List.map_congr_left fun g hg => ?_))
      rw [hsame g hg]
  exact ⟨h.indexes, h.linked, h.columnCount, hrows ▸ h.rowCount, hcells ▸ h.cells, h.rowOrder, h.inBounds, h.apart⟩

/-- As many rows only if every joined fragment leads with its header rows. -/
theorem headersLead_of_dataRows (h : dataRows headerRowIndexes group = dataRows rowsBefore group) :
    ∀ g ∈ group.tail, HeadersLead g.table := by
  cases group with
  | nil => exact nofun
  | cons first joined =>
    have hsum := add_left_cancel h
    clear h
    have hle : ∀ l : List Fragment,
        (l.map fun f => ((f.table.rowCount : ℕ) - ((rowsBefore f.table).card : ℤ))).sum ≤
          (l.map fun f => ((f.table.rowCount : ℕ) - ((headerRowIndexes f.table).card : ℤ))).sum := by
      intro l
      refine List.sum_le_sum fun f _ => ?_
      have hcard : ((headerRowIndexes f.table).card : ℤ) ≤ (rowsBefore f.table).card :=
        Int.ofNat_le.mpr (Finset.card_le_card (headerRows_subset f.table))
      omega
    show ∀ g ∈ joined, _
    induction joined with
    | nil => exact nofun
    | cons f rest ih =>
      rw [List.map_cons, List.map_cons, List.sum_cons, List.sum_cons] at hsum
      have hrest := hle rest
      have hcard : ((headerRowIndexes f.table).card : ℤ) ≤ (rowsBefore f.table).card :=
        Int.ofNat_le.mpr (Finset.card_le_card (headerRows_subset f.table))
      refine List.forall_mem_cons.mpr ⟨headersLead_iff.mpr ?_, ih (by omega)⟩
      have hrange : (rowsBefore f.table).card = firstDataRow f.table := Finset.card_range _
      omega

/-- In a group each fragment follows the one before. -/
theorem isChain_lead_iff (h : group.IsChain Follows) :
    (group.IsChain fun f g => Follows f g → HeadersLead g.table) ↔ ∀ g ∈ group.tail, HeadersLead g.table := by
  induction group with
  | nil => exact iff_of_true List.isChain_nil nofun
  | cons f rest ih =>
    cases rest with
    | nil => exact iff_of_true (List.isChain_singleton f) nofun
    | cons g rest =>
      obtain ⟨hfollows, hrest⟩ := List.isChain_cons_cons.mp h
      rw [List.isChain_cons_cons, ih hrest, List.tail_cons, List.tail_cons, List.forall_mem_cons]
      exact and_congr_left fun _ => ⟨fun hlead => hlead hfollows, fun hlead _ => hlead⟩

theorem eq_of_map_eq {α β : Type} {key : α → β} {l m : List α} (hinj : ∀ a ∈ l, ∀ b ∈ m, key a = key b → a = b)
    (h : l.map key = m.map key) : l = m := by
  induction l generalizing m with
  | nil => exact (List.map_eq_nil_iff.mp h.symm).symm
  | cons a rest ih =>
    cases m with
    | nil => cases h
    | cons b others =>
      obtain ⟨hkey, hrest⟩ := List.cons.inj h
      rw [hinj a List.mem_cons_self b List.mem_cons_self hkey,
        ih (fun a ha b hb => hinj a (List.mem_cons_of_mem _ ha) b (List.mem_cons_of_mem _ hb)) hrest]

/-- In page order a fragment follows the one before exactly if it is in its group. -/
theorem Grouped.lead_iff {groups : List (List Fragment)} {output : List ReassembledTable}
    (h : Grouped forms (fragments forms tables) groups output) :
    ((fragments forms tables).IsChain fun f g => Follows f g → HeadersLead g.table) ↔
      ∀ group ∈ groups.reverse, ∀ g ∈ group.tail, HeadersLead g.table := by
  have hseparate : groups.reverse.IsChain fun g h => ∀ᵉ (x ∈ g.getLast?) (y ∈ h.head?), Follows x y → HeadersLead y.table := by
    refine List.isChain_reverse.mpr (h.separate.imp fun h g hnone x hx y hy hfollows => ?_)
    exact absurd hfollows (hnone x hx y hy)
  rw [← h.flatten, List.isChain_flatten h.nonempty, and_iff_left hseparate]
  refine forall₂_congr fun group hgroup => ?_
  obtain ⟨t, -, hmade⟩ := (ExceptOk.exists_of_forall₂ h.made).1 group hgroup
  exact isChain_lead_iff hmade.linked

theorem lead_of_conserved (h : Conserved forms headerRowIndexes tables (reassembleMultipageTables forms tables)) :
    (fragments forms tables).IsChain fun f g => Follows f g → HeadersLead g.table := by
  obtain ⟨groups, hgrouped⟩ := reassemble_grouped forms tables
  obtain ⟨groups', hperm', -, hclaim⟩ := h
  refine hgrouped.lead_iff.mpr fun group hgroup => ?_
  obtain ⟨t, ht, hmade⟩ := (ExceptOk.exists_of_forall₂ hgrouped.made).1 group hgroup
  obtain ⟨group', hgroup', hclaimed⟩ := (ExceptOk.exists_of_forall₂ hclaim).2 t ht
  have hsame : group' = group := by
    have hindexes := hclaimed.indexes.symm.trans hmade.indexes
    have hmem : ∀ f ∈ group, f ∈ tables.zipIdx.map (fragment forms) := fun f hf =>
      hgrouped.perm.mem_iff.mp (List.mem_flatten.mpr ⟨group, hgroup, hf⟩)
    have hmem' : ∀ f ∈ group', f ∈ tables.zipIdx.map (fragment forms) := fun f hf =>
      hperm'.mem_iff.mp (List.mem_flatten.mpr ⟨group', hgroup', hf⟩)
    exact eq_of_map_eq (fun f hf g hg => fragment_eq (hmem' f hf) (hmem g hg)) hindexes
  subst hsame
  exact headersLead_of_dataRows (hclaimed.rowCount.symm.trans hmade.rowCount)

/-- Nothing but header rows is left out exactly if the header rows of each fragment that follows the one before
lead it. -/
theorem reassembled_iff (hwf : ∀ table ∈ tables, table.WellFormed) :
    Conserved forms headerRowIndexes tables (reassembleMultipageTables forms tables) ↔
      (fragments forms tables).IsChain fun f g => Follows f g → HeadersLead g.table := by
  refine ⟨lead_of_conserved, fun hchain => ?_⟩
  obtain ⟨groups, hgrouped⟩ := reassemble_grouped forms tables
  have hlead := hgrouped.lead_iff.mp hchain
  refine ⟨groups.reverse, hgrouped.perm, hgrouped.nonempty, ?_⟩
  refine ((List.forall₂_and_left _ _).mpr ⟨hlead, hgrouped.conserves hwf⟩).imp fun group t hboth => ?_
  exact conserves_congr hboth.2 fun g hg => (hboth.1 g hg).symm

end

def asciiForms : TextForms := ⟨id, id, Unicode.ascii.toLowerCase⟩

def textCell (rowIndex columnIndex : ℕ) (content : String) (kind : Option String) (pageNumber : ℕ+) : Cell :=
  ⟨rowIndex, columnIndex, none, none, content, kind, some [⟨pageNumber, none⟩]⟩

/-- A page with a header row and a row of data. -/
def ratePage (header data : ℕ) (pageNumber : ℕ+) (weight rate : String) : Table where
  rowCount := 2
  columnCount := 2
  cells := [textCell header 0 "Weight" (some "columnHeader") pageNumber,
    textCell header 1 "Rate" (some "columnHeader") pageNumber, textCell data 0 weight none pageNumber,
    textCell data 1 rate none pageNumber]
  boundingRegions := some [⟨pageNumber, none⟩]

theorem textCell_apart {row column row' column' : ℕ} {content content' : String} {kind kind' : Option String}
    {pageNumber pageNumber' : ℕ+} (h : row ≠ row' ∨ column ≠ column') :
    (textCell row column content kind pageNumber).rectangle.Apart (textCell row' column' content' kind' pageNumber').rectangle := by
  intro i j hboth
  simp only [Rectangle.Covers, Cell.rectangle, textCell, Option.getD_none, PNat.one_coe] at hboth
  omega

theorem ratePage_wellFormed {header data : ℕ} (hheader : header < 2) (hdata : data < 2) (hne : header ≠ data)
    (pageNumber : ℕ+) (weight rate : String) : (ratePage header data pageNumber weight rate).WellFormed := by
  constructor
  case inBounds =>
    simp only [ratePage, List.forall_mem_cons, textCell, Cell.rectangle, Rectangle.Inside, Option.getD_none, PNat.one_coe]
    have htwo : ((2 : ℕ+) : ℕ) = 2 := rfl
    refine ⟨?_, ?_, ?_, ?_, List.forall_mem_nil _⟩ <;> omega
  case apart =>
    simp only [ratePage, List.pairwise_cons, List.forall_mem_cons]
    refine ⟨⟨?_, ?_, ?_, List.forall_mem_nil _⟩, ⟨?_, ?_, List.forall_mem_nil _⟩, ⟨?_, List.forall_mem_nil _⟩,
      List.forall_mem_nil _, .nil⟩ <;> exact textCell_apart (by omega)

/-- Two pages with the header at the top. -/
theorem ratePages_conserved : Conserved asciiForms headerRowIndexes [ratePage 0 1 1 "100" "$10", ratePage 0 1 2 "200" "$9"]
    (reassembleMultipageTables asciiForms [ratePage 0 1 1 "100" "$10", ratePage 0 1 2 "200" "$9"]) := by
  have hall {P : Table → Prop} (h : ∀ pageNumber weight rate, P (ratePage 0 1 pageNumber weight rate)) :
      ∀ table ∈ [ratePage 0 1 1 "100" "$10", ratePage 0 1 2 "200" "$9"], P table :=
    List.forall_mem_cons.mpr ⟨h _ _ _, List.forall_mem_singleton.mpr (h _ _ _)⟩
  have hlead : ∀ f ∈ fragments asciiForms [ratePage 0 1 1 "100" "$10", ratePage 0 1 2 "200" "$9"], HeadersLead f.table :=
    fun f hf => hall (fun _ _ _ => rfl) f.table (fragment_table ((fragments_perm _ _).mem_iff.mp hf))
  refine (reassembled_iff (hall fun _ _ _ => ratePage_wellFormed (by decide) (by decide) (by decide) _ _ _)).mpr ?_
  refine List.Pairwise.isChain (List.Pairwise.imp_of_mem (fun _ hg _ _ => hlead _ hg) (List.pairwise_of_forall fun _ _ => trivial))

/-- A page that begins with a rate and has the header under it: the rate is lost. -/
theorem rateAboveHeader_lost :
    (∀ table ∈ [ratePage 0 1 1 "100" "$10", ratePage 1 0 2 "200" "$9"], table.WellFormed) ∧
    ¬ Conserved asciiForms headerRowIndexes [ratePage 0 1 1 "100" "$10", ratePage 1 0 2 "200" "$9"]
      (reassembleMultipageTables asciiForms [ratePage 0 1 1 "100" "$10", ratePage 1 0 2 "200" "$9"]) := by
  have hwf : ∀ table ∈ [ratePage 0 1 1 "100" "$10", ratePage 1 0 2 "200" "$9"], table.WellFormed :=
    List.forall_mem_cons.mpr ⟨ratePage_wellFormed (by decide) (by decide) (by decide) _ _ _,
      List.forall_mem_singleton.mpr (ratePage_wellFormed (by decide) (by decide) (by decide) _ _ _)⟩
  refine ⟨hwf, fun h => ?_⟩
  have hchain := lead_of_conserved h
  have hfragments : fragments asciiForms [ratePage 0 1 1 "100" "$10", ratePage 1 0 2 "200" "$9"] =
      [fragment asciiForms (ratePage 0 1 1 "100" "$10", 0), fragment asciiForms (ratePage 1 0 2 "200" "$9", 1)] := by
    decide +kernel
  rw [hfragments, List.isChain_cons_cons] at hchain
  have hlead := hchain.1 ⟨⟨1, by decide +kernel, by decide +kernel⟩, rfl, by decide +kernel, by decide +kernel⟩
  exact absurd hlead (by decide +kernel)

end RateTables
