import Mathlib.Data.List.SplitBy
import FreightAuditor.Contracts.RateTables

/- Verdicts over all that is reassembled.

   A table and its transpose are validated alike (`validate_transpose`). The rest of what is wanted of the
   verdicts fails in three ways (`validated_iff`): a cell without a page, or header rows that leave no rows or
   move them out of the grid, make the schema of the validator throw, and a text between two thresholds is
   passed over. -/
namespace RateTables

open DecimalJs DecimalText JsText

section

variable {D : Type} [Decimal D] [PlainNotation D] {forms : TextForms} {t : ReassembledTable}

/-! ## The transposed table -/

theorem cellOk_transpose {cell : ReassembledCell} : CellOk D forms t.transpose cell.transpose ↔ CellOk D forms t cell :=
  ⟨fun h => ⟨h.right, h.bottom, h.filled, h.numeric⟩, fun h => ⟨h.right, h.bottom, h.filled, h.numeric⟩⟩

theorem clean_transpose : Clean D forms t.transpose ↔ Clean D forms t := by
  have hcells : (∀ cell ∈ t.transpose.cells, CellOk D forms t.transpose cell) ↔ ∀ cell ∈ t.cells, CellOk D forms t cell :=
    List.forall_mem_map.trans (forall₂_congr fun _ _ => cellOk_transpose)
  have hapart : (t.transpose.cells.Pairwise fun a b => a.rectangle.Apart b.rectangle) ↔
      t.cells.Pairwise fun a b => a.rectangle.Apart b.rectangle := by
    refine List.pairwise_map.trans (iff_of_eq (congrArg (fun R => List.Pairwise R t.cells) ?_))
    funext a b
    exact propext (Rectangle.apart_transpose (r := a.rectangle) (s := b.rectangle))
  exact ⟨fun h => ⟨hcells.mp h.cells, hapart.mp h.apart⟩, fun h => ⟨hcells.mpr h.cells, hapart.mpr h.apart⟩⟩

theorem accepted_transpose : t.transpose.accepted = t.accepted := by
  have hcell : ∀ cell : ReassembledCell,
      (0 ≤ cell.transpose.rowIndex && 0 ≤ cell.transpose.columnIndex && 0 < cell.transpose.rowSpan &&
        0 < cell.transpose.columnSpan && 0 < cell.transpose.source.pageNumber) =
      (0 ≤ cell.rowIndex && 0 ≤ cell.columnIndex && 0 < cell.rowSpan && 0 < cell.columnSpan &&
        0 < cell.source.pageNumber : Bool) := by
    intro cell
    show (decide (0 ≤ cell.columnIndex) && decide (0 ≤ cell.rowIndex) && decide (0 < cell.columnSpan) &&
      decide (0 < cell.rowSpan) && decide (0 < cell.source.pageNumber)) = _
    ac_rfl
  have hcells : (t.transpose.cells.all fun cell => 0 ≤ cell.rowIndex && 0 ≤ cell.columnIndex && 0 < cell.rowSpan &&
      0 < cell.columnSpan && 0 < cell.source.pageNumber) = t.cells.all fun cell => 0 ≤ cell.rowIndex &&
      0 ≤ cell.columnIndex && 0 < cell.rowSpan && 0 < cell.columnSpan && 0 < cell.source.pageNumber := by
    refine List.all_map.trans (congrArg t.cells.all ?_)
    funext cell
    exact hcell cell
  unfold ReassembledTable.accepted
  rw [hcells]
  show (decide (0 < t.rowCount) && decide (0 < t.columnCount) && _ && _ && _) = _
  rw [Bool.and_comm (decide (0 < t.rowCount))]
  rfl

/-- The same line of the transposed table. -/
theorem axisCells_transpose {cells : List ReassembledCell} {key key' order order' : ReassembledCell → ℤ} {index : ℤ}
    (hkey : ∀ cell : ReassembledCell, key' cell.transpose = key cell)
    (horder : ∀ cell : ReassembledCell, order' cell.transpose = order cell) :
    axisCells (cells.map ReassembledCell.transpose) key' index order' =
      (axisCells cells key index order).map ReassembledCell.transpose := by
  have hfilter : (cells.map ReassembledCell.transpose).filter
        (fun cell => key' cell = index ∧ cell.rowSpan = 1 ∧ cell.columnSpan = 1) =
      (cells.filter fun cell => key cell = index ∧ cell.rowSpan = 1 ∧ cell.columnSpan = 1).map ReassembledCell.transpose := by
    rw [List.filter_map]
    refine congrArg (List.map _) (List.filter_congr fun cell _ => decide_eq_decide.mpr ?_)
    rw [hkey]
    exact and_congr_right fun _ => and_comm
  have hcmp : (fun a b : ReassembledCell => compare (order a) (order b)) =
      fun a b => compare (order' a.transpose) (order' b.transpose) := by
    funext a b
    rw [horder, horder]
  rw [axisCells, hfilter, axisCells, hcmp]
  exact (StableSort.map_sort (fun a b => compare (order' a) (order' b)) ReassembledCell.transpose _).symm

/-- What is read from the text of a cell, by any reading. -/
theorem readCells_transpose {α : Type} (read : String → Option α) (cells : List ReassembledCell) :
    (cells.map ReassembledCell.transpose).filterMap (fun cell => (read cell.content).map (cell, ·)) =
      (cells.filterMap fun cell => (read cell.content).map (cell, ·)).map fun p => (p.1.transpose, p.2) := by
  rw [List.filterMap_map, List.map_filterMap]
  refine List.filterMap_congr fun cell _ => ?_
  show (read cell.content).map (cell.transpose, ·) = ((read cell.content).map (cell, ·)).map fun p => (p.1.transpose, p.2)
  cases read cell.content <;> rfl

theorem firstHeader_transpose {α : Type} (read : String → Option α) (form : String → String) (cells : List ReassembledCell) :
    (((cells.map ReassembledCell.transpose).find? fun cell => (read cell.content).isNone).map fun cell => form cell.content) =
      (cells.find? fun cell => (read cell.content).isNone).map fun cell => form cell.content := by
  rw [List.find?_map, Option.map_map]
  rfl

theorem numericRun_transpose {cells : List ReassembledCell} :
    numericRun D forms (cells.map ReassembledCell.transpose) =
      (numericRun D forms cells).map fun run => (run.1.map ReassembledCell.transpose, run.2) := by
  unfold numericRun
  rw [readCells_transpose]
  generalize cells.filterMap (fun cell => (parseDecimal D forms cell.content).map (cell, ·)) = parsed
  dsimp only
  rw [List.length_map]
  by_cases hlength : parsed.length < 2
  · rw [if_pos hlength, if_pos hlength]
    rfl
  · rw [if_neg hlength, if_neg hlength, List.map_map, List.map_map, Option.map_some, List.map_map]
    rfl

theorem bracketHeaderScore_transpose {cells : List ReassembledCell} :
    bracketHeaderScore D forms (cells.map ReassembledCell.transpose) = bracketHeaderScore D forms cells := by
  unfold bracketHeaderScore
  rw [firstHeader_transpose (parseDecimal D forms) fun content => forms.toLocaleLowerCase (forms.nfkc content)]

def Candidate.transpose (c : Candidate D) : Candidate D :=
  { c with orientation := c.orientation.opposite, cells := c.cells.map ReassembledCell.transpose }

theorem lineCandidate_transpose (orientation : TableOrientation) {key key' order order' : ReassembledCell → ℤ}
    (hkey : ∀ cell : ReassembledCell, key' cell.transpose = key cell)
    (horder : ∀ cell : ReassembledCell, order' cell.transpose = order cell) :
    lineCandidate D forms t.transpose orientation.opposite key' order' =
      fun index => (lineCandidate D forms t orientation key order index).map Candidate.transpose := by
  funext index
  have hline : axisCells t.transpose.cells key' index order' =
      (axisCells t.cells key index order).map ReassembledCell.transpose := axisCells_transpose hkey horder
  unfold lineCandidate
  dsimp only
  rw [hline, numericRun_transpose, bracketHeaderScore_transpose, Option.map_map, Option.map_map]
  rfl

/-- The candidates of the transposed table: rows for columns. -/
theorem bracketCandidates_transpose :
    (bracketCandidates D forms t.transpose).Perm ((bracketCandidates D forms t).map Candidate.transpose) := by
  have hrows : lineCandidate D forms t.transpose .COLUMN_BRACKETS ReassembledCell.rowIndex ReassembledCell.columnIndex =
      _ := lineCandidate_transpose .ROW_BRACKETS (fun _ => rfl) fun _ => rfl
  have hcolumns : lineCandidate D forms t.transpose .ROW_BRACKETS ReassembledCell.columnIndex ReassembledCell.rowIndex =
      _ := lineCandidate_transpose .COLUMN_BRACKETS (fun _ => rfl) fun _ => rfl
  rw [bracketCandidates, hrows, hcolumns, bracketCandidates, List.map_append, List.map_filterMap, List.map_filterMap]
  exact List.perm_append_comm

omit [Decimal D] [PlainNotation D] in
theorem maxOf_perm {f : Candidate D → ℕ} {candidates candidates' : List (Candidate D)} (h : candidates.Perm candidates') :
    maxOf f candidates = maxOf f candidates' := by
  refine List.Perm.foldr_eq' (h.map f) (fun a _ b _ c => ?_) 0
  exact max_left_comm _ _ _

theorem onlyOne_perm {α : Type} {l l' : List α} (h : l.Perm l') : onlyOne l = onlyOne l' := by
  refine Option.ext fun a => ?_
  rw [onlyOne_eq_some, onlyOne_eq_some]
  exact ⟨fun hl => (hl ▸ h).singleton_eq.symm, fun hl => (hl ▸ h).eq_singleton⟩

omit [Decimal D] [PlainNotation D] in
/-- The order of the candidates does not matter. -/
theorem chooseCandidate_perm {candidates candidates' : List (Candidate D)} (h : candidates.Perm candidates') :
    chooseCandidate candidates = chooseCandidate candidates' := by
  unfold chooseCandidate
  rw [h.isEmpty_eq, maxOf_perm h]
  refine congrArg (ite _ none) ?_
  dsimp only
  split
  · have hsemantic := h.filter fun c => decide (c.headerScore = maxOf Candidate.headerScore candidates')
    rw [maxOf_perm hsemantic]
    exact onlyOne_perm (hsemantic.filter _)
  · rw [maxOf_perm h]
    exact onlyOne_perm (h.filter _)

theorem onlyOne_map {α β : Type} (f : α → β) (l : List α) : onlyOne (l.map f) = (onlyOne l).map f := by
  match l with
  | [] => rfl
  | [a] => rfl
  | a :: b :: rest => rfl

omit [Decimal D] [PlainNotation D] in
theorem maxOf_transpose {f : Candidate D → ℕ} (hf : ∀ c : Candidate D, f c.transpose = f c) (candidates : List (Candidate D)) :
    maxOf f (candidates.map Candidate.transpose) = maxOf f candidates := by
  rw [maxOf, List.map_map]
  exact congrArg (List.foldr max 0) (List.map_congr_left fun c _ => hf c)

omit [Decimal D] [PlainNotation D] in
theorem chooseCandidate_transpose (candidates : List (Candidate D)) :
    chooseCandidate (candidates.map Candidate.transpose) = (chooseCandidate candidates).map Candidate.transpose := by
  have hheader := maxOf_transpose (f := Candidate.headerScore) (fun _ => rfl) candidates
  have hlength (l : List (Candidate D)) := maxOf_transpose (f := fun c => c.values.length) (fun _ => rfl) l
  have hfilter (l : List (Candidate D)) (f : Candidate D → ℕ) (hf : ∀ c : Candidate D, f c.transpose = f c) (n : ℕ) :
      (l.map Candidate.transpose).filter (fun c => decide (f c = n)) =
        (l.filter fun c => decide (f c = n)).map Candidate.transpose := by
    rw [List.filter_map]
    refine congrArg (List.map _) (List.filter_congr fun c _ => ?_)
    exact congrArg (fun k => decide (k = n)) (hf c)
  unfold chooseCandidate
  rw [List.isEmpty_map]
  split
  · rfl
  · dsimp only
    rw [hheader]
    split
    · rw [hfilter candidates Candidate.headerScore (fun _ => rfl), hlength,
        hfilter _ (fun c => c.values.length) (fun _ => rfl), onlyOne_map]
    · rw [hlength, hfilter _ (fun c => c.values.length) (fun _ => rfl), onlyOne_map]

/-- A table and its transpose are validated alike. -/
theorem verdict_transpose : Mirrors (rateTableVerdict D forms t) (rateTableVerdict D forms t.transpose) := by
  have hchosen : chooseCandidate (bracketCandidates D forms t.transpose) =
      (chooseCandidate (bracketCandidates D forms t)).map Candidate.transpose :=
    (chooseCandidate_perm bracketCandidates_transpose).trans (chooseCandidate_transpose _)
  have hvalid : (rateTableVerdict D forms t.transpose).valid = (rateTableVerdict D forms t).valid := by
    rw [Bool.eq_iff_iff, verdict_valid, verdict_valid, clean_transpose, hchosen]
    refine and_congr_right fun _ => ⟨fun ⟨c', hc', hmono⟩ => ?_, fun ⟨c, hc, hmono⟩ => ?_⟩
    · obtain ⟨c, hc, rfl⟩ := Option.map_eq_some_iff.mp hc'
      exact ⟨c, hc, hmono⟩
    · exact ⟨c.transpose, by rw [hc]; rfl, hmono⟩
  refine ⟨hvalid, ?_, ?_, ?_⟩
  all_goals
    dsimp only [rateTableVerdict]
    rw [hchosen]
    cases chooseCandidate (bracketCandidates D forms t) <;> rfl

theorem validate_transpose (haccepted : t.accepted = true) :
    ∃ v', validateRateTable D forms t.transpose = some v' ∧ Mirrors (rateTableVerdict D forms t) v' :=
  ⟨_, if_pos (accepted_transpose.trans haccepted), verdict_transpose⟩

/-! ## Tables that the schema takes -/

/-- A table that shows its page only by its cells shows one at each. -/
def Paged (table : Table) : Prop :=
  singlePage table = none → ∀ cell ∈ table.cells, (cell.boundingRegions.bind List.head?).isSome

instance (table : Table) : Decidable (Paged table) := inferInstanceAs (Decidable (_ → _))

instance : DecidableRel Follows := fun f g => decidable_of_iff
  ((∃ page ∈ f.pageNumber, g.pageNumber = some (page + 1)) ∧ f.table.columnCount = g.table.columnCount ∧
    f.headerSignature ≠ "" ∧ f.headerSignature = g.headerSignature) Iff.rfl

/-- The fragments of each table, in page order. -/
def fragmentGroups (forms : TextForms) (tables : List Table) : List (List Fragment) :=
  (fragments forms tables).splitBy fun f g => decide (Follows f g)

/-- Rows are left over, and none is moved over the first. A header row below the last row of its table would take
rows away. -/
structure RowsFit (group : List Fragment) : Prop where
  rows : 0 < dataRows rowsBefore group
  joined : ∀ before f, before ≠ [] → before ++ [f] <+: group → ∀ cell ∈ f.table.cells,
    ¬ cell.rowIndex < firstDataRow f.table → 0 ≤ dataRows rowsBefore before + (cell.rowIndex - firstDataRow f.table)

theorem accepted_iff : t.accepted = true ↔ 0 < t.columnCount ∧ 0 < t.rowCount ∧ t.sourceTableIndexes ≠ [] ∧
    (∀ page ∈ t.pageNumbers, 0 < page) ∧ ∀ cell ∈ t.cells, 0 ≤ cell.rowIndex ∧ 0 ≤ cell.columnIndex ∧
      0 < cell.rowSpan ∧ 0 < cell.columnSpan ∧ 0 < cell.source.pageNumber := by
  simp only [ReassembledTable.accepted, Bool.and_eq_true, List.all_eq_true, decide_eq_true_eq, and_assoc, ge_iff_le,
    Nat.one_le_iff_ne_zero, ne_eq, List.length_eq_zero_iff]

variable {group : List Fragment} {f : Fragment} {tables : List Table}

theorem reassemble_groups (forms : TextForms) (tables : List Table) :
    List.Forall₂ (Made forms) (fragmentGroups forms tables) (reassembleMultipageTables forms tables) := by
  obtain ⟨groups, h⟩ := reassemble_grouped forms tables
  have hlinked : ∀ group ∈ groups.reverse, group.IsChain fun f g => decide (Follows f g) = true := by
    intro group hgroup
    obtain ⟨t, -, hmade⟩ := (ExceptOk.exists_of_forall₂ h.made).1 group hgroup
    exact hmade.linked.imp fun f g hfollows => decide_eq_true hfollows
  have hseparate : groups.reverse.IsChain fun g h => ∃ hg hh, decide (Follows (g.getLast hg) (h.head hh)) = false := by
    refine List.isChain_reverse.mpr (h.separate.imp_of_mem_imp fun g g' hg hg' hnone => ?_)
    have hne : ∀ x ∈ groups, x ≠ [] := fun x hx hnil => h.nonempty (List.mem_reverse.mpr (hnil ▸ hx))
    refine ⟨hne g' hg', hne g hg, decide_eq_false ?_⟩
    exact hnone _ (List.getLast?_eq_some_getLast (hne g' hg')) _ (List.head?_eq_some_head (hne g hg))
  have hgroups : fragmentGroups forms tables = groups.reverse := by
    rw [fragmentGroups, ← h.flatten]
    exact List.splitBy_flatten h.nonempty hlinked hseparate
  rw [hgroups]
  exact h.made

theorem normalizeCell_page {cell : Cell} {tableIndex : ℕ} {pageNumber : Option ℕ} {rowIndex : ℤ}
    (hpage : ∀ page ∈ pageNumber, 0 < page) : 0 < (normalizeCell forms cell tableIndex pageNumber rowIndex).source.pageNumber ↔
      (pageNumber = none → (cell.boundingRegions.bind List.head?).isSome) := by
  unfold normalizeCell
  cases pageNumber with
  | some page => exact iff_of_true (hpage page rfl) nofun
  | none =>
    show 0 < ((cell.boundingRegions.bind List.head?).map fun region => (region.pageNumber : ℕ)).getD 0 ↔ _
    cases cell.boundingRegions.bind List.head? with
    | none => exact iff_of_false (lt_irrefl 0) fun h => nomatch h rfl
    | some region => exact iff_of_true region.pageNumber.pos fun _ => rfl

theorem normalizeCell_spans {cell : Cell} {tableIndex : ℕ} {pageNumber : Option ℕ} {rowIndex : ℤ} :
    0 ≤ (normalizeCell forms cell tableIndex pageNumber rowIndex).columnIndex ∧
    0 < (normalizeCell forms cell tableIndex pageNumber rowIndex).rowSpan ∧
    0 < (normalizeCell forms cell tableIndex pageNumber rowIndex).columnSpan := by
  refine ⟨Int.natCast_nonneg _, ?_, ?_⟩
  · exact Int.natCast_pos.mpr (cell.rowSpan.getD 1).pos
  · exact Int.natCast_pos.mpr (cell.columnSpan.getD 1).pos

/-- What the schema wants of a cell, but for its row and page. -/
theorem Made.cells (h : Made forms group t) :
    ∀ cell ∈ t.cells, 0 ≤ cell.columnIndex ∧ 0 < cell.rowSpan ∧ 0 < cell.columnSpan := by
  induction h with
  | alone f =>
    intro cell hcell
    obtain ⟨source, -, rfl⟩ := List.mem_map.mp hcell
    exact normalizeCell_spans
  | joined made follows ih =>
    intro cell hcell
    rcases List.mem_append.mp hcell with hcell | hcell
    · exact ih cell hcell
    · obtain ⟨source, -, rfl⟩ := List.mem_map.mp hcell
      exact normalizeCell_spans

theorem Made.pageNumbers (h : Made forms group t) (hpages : ∀ f ∈ group, ∀ page ∈ f.pageNumber, 0 < page) :
    ∀ page ∈ t.pageNumbers, 0 < page := by
  induction h with
  | alone f => exact fun page hpage => hpages f List.mem_cons_self page (Option.mem_toList.mp hpage)
  | @joined group t last f made follows ih =>
    intro page hpage
    rcases List.mem_append.mp hpage with hpage | hpage
    · exact ih (fun g hg => hpages g (List.mem_append_left _ hg)) page hpage
    · exact hpages f (List.mem_append_right _ (List.mem_singleton_self f)) page (Option.mem_toList.mp hpage)

/-- Its pages are there exactly if the fragment that stands alone shows one. -/
theorem Made.pages_iff (h : Made forms group t) (hpages : ∀ f ∈ group, ∀ page ∈ f.pageNumber, 0 < page) :
    (∀ cell ∈ t.cells, 0 < cell.source.pageNumber) ↔ ∀ f ∈ group, f.pageNumber = none →
      ∀ cell ∈ f.table.cells, (cell.boundingRegions.bind List.head?).isSome := by
  induction h with
  | alone f =>
    have hpage := hpages f List.mem_cons_self
    rw [List.forall_mem_singleton, buildTable, List.forall_mem_map]
    exact ⟨fun h hnone cell hcell => (normalizeCell_page hpage).mp (h cell hcell) hnone,
      fun h cell hcell => (normalizeCell_page hpage).mpr fun hnone => h hnone cell hcell⟩
  | @joined group t last f made follows ih =>
    have hpage := hpages f (List.mem_append_right _ (List.mem_singleton_self f))
    obtain ⟨⟨page, -, hf⟩, -⟩ := follows
    rw [List.forall_mem_append, ← ih fun g hg => hpages g (List.mem_append_left _ hg), List.forall_mem_singleton]
    have hjoined : ∀ cell ∈ (f.table.cells.filter fun cell => ¬ cell.rowIndex < firstDataRow f.table).map fun cell =>
        normalizeCell forms cell f.tableIndex f.pageNumber (cell.rowIndex + (t.rowCount - firstDataRow f.table)),
        0 < cell.source.pageNumber := by
      intro cell hcell
      obtain ⟨source, -, rfl⟩ := List.mem_map.mp hcell
      refine (normalizeCell_page hpage).mpr fun hnone => ?_
      rw [hf] at hnone
      cases hnone
    refine List.forall_mem_append.trans ?_
    rw [and_iff_left hjoined, and_iff_left]
    intro hnone
    rw [hf] at hnone
    cases hnone

theorem prefix_concat {α : Type} {p : List α → α → Prop} {l : List α} {a : α} :
    (∀ before b, before ≠ [] → before ++ [b] <+: l ++ [a] → p before b) ↔
      (∀ before b, before ≠ [] → before ++ [b] <+: l → p before b) ∧ (l ≠ [] → p l a) := by
  constructor
  · exact fun h => ⟨fun before b hne hinit => h before b hne (hinit.trans (List.prefix_append l [a])),
      fun hne => h l a hne (List.prefix_refl _)⟩
  · rintro ⟨hbefore, hlast⟩ before b hne hinit
    rcases List.prefix_concat_iff.mp hinit with heq | hinit
    · obtain ⟨rfl, hb⟩ := List.append_inj' heq rfl
      obtain rfl := List.singleton_inj.mp hb
      exact hlast hne
    · exact hbefore before b hne hinit

/-- The rows of a joined table. -/
theorem Made.rows_iff (h : Made forms group t) :
    (∀ cell ∈ t.cells, 0 ≤ cell.rowIndex) ↔ ∀ before f, before ≠ [] → before ++ [f] <+: group → ∀ cell ∈ f.table.cells,
      ¬ cell.rowIndex < firstDataRow f.table → 0 ≤ dataRows rowsBefore before + (cell.rowIndex - firstDataRow f.table) := by
  induction h with
  | alone f =>
    refine iff_of_true (fun cell hcell => ?_) fun before g hne hinit => absurd hinit.length_le ?_
    · obtain ⟨source, -, rfl⟩ := List.mem_map.mp hcell
      exact Int.natCast_nonneg _
    · rw [List.length_append, List.length_singleton, List.length_singleton]
      have hlength := List.length_pos_iff.mpr hne
      omega
  | @joined group t last f made follows ih =>
    rw [prefix_concat, ← ih, forall_prop_of_true made.ne_nil, ← made.rowCount]
    refine List.forall_mem_append.trans (and_congr_right fun _ => ?_)
    rw [List.forall_mem_map]
    simp only [List.mem_filter, decide_eq_true_eq, and_imp]
    refine forall₃_congr fun cell _ _ => ?_
    show 0 ≤ (cell.rowIndex : ℤ) + (t.rowCount - firstDataRow f.table) ↔ _
    omega

theorem Made.accepted_iff (h : Made forms group t) (hpages : ∀ f ∈ group, ∀ page ∈ f.pageNumber, 0 < page) :
    t.accepted = true ↔ RowsFit group ∧ ∀ f ∈ group, f.pageNumber = none →
      ∀ cell ∈ f.table.cells, (cell.boundingRegions.bind List.head?).isSome := by
  rw [RateTables.accepted_iff, ← h.pages_iff hpages]
  have hcolumns : 0 < t.columnCount := by
    obtain ⟨before, last, rfl⟩ := (List.eq_nil_or_concat' group).resolve_left h.ne_nil
    rw [(h.ends last List.getLast?_concat).columnCount]
    exact_mod_cast last.table.columnCount.pos
  have hindexes : t.sourceTableIndexes ≠ [] := by
    rw [h.indexes]
    exact fun hnil => h.ne_nil (List.map_eq_nil_iff.mp hnil)
  constructor
  · rintro ⟨-, hrows, -, -, hcells⟩
    refine ⟨⟨h.rowCount ▸ hrows, h.rows_iff.mp fun cell hcell => (hcells cell hcell).1⟩, fun cell hcell => ?_⟩
    exact (hcells cell hcell).2.2.2.2
  · rintro ⟨hfit, hpaged⟩
    have hrows := h.rows_iff.mpr hfit.joined
    refine ⟨hcolumns, h.rowCount.symm ▸ hfit.rows, hindexes, h.pageNumbers hpages, fun cell hcell => ?_⟩
    obtain ⟨hcolumn, hspans⟩ := h.cells cell hcell
    exact ⟨hrows cell hcell, hcolumn, hspans.1, hspans.2, hpaged cell hcell⟩

theorem singlePage_pos {table : Table} : ∀ page ∈ singlePage table, 0 < page := by
  intro page hpage
  unfold singlePage at hpage
  dsimp only at hpage
  split at hpage
  · rename_i p hp
    obtain rfl := Option.some.inj hpage
    have hmem := List.mem_dedup.mp (hp ▸ List.mem_singleton_self p)
    obtain ⟨region, -, rfl⟩ := List.mem_map.mp hmem
    exact region.pageNumber.pos
  · cases hpage

/-- All reassembled tables are taken exactly if cells show their pages and rows fit. -/
theorem all_accepted_iff : (∀ t ∈ reassembleMultipageTables forms tables, t.accepted = true) ↔
    (∀ table ∈ tables, Paged table) ∧ ∀ group ∈ fragmentGroups forms tables, RowsFit group := by
  have hmade := reassemble_groups forms tables
  have hperm : (fragmentGroups forms tables).flatten.Perm (tables.zipIdx.map (fragment forms)) := by
    rw [fragmentGroups, List.flatten_splitBy]
    exact fragments_perm forms tables
  have hfragment : ∀ group ∈ fragmentGroups forms tables, ∀ f ∈ group, f.table ∈ tables ∧ f.pageNumber = singlePage f.table := by
    intro group hgroup f hf
    have hmem := hperm.mem_iff.mp (List.mem_flatten.mpr ⟨group, hgroup, hf⟩)
    refine ⟨fragment_table hmem, ?_⟩
    obtain ⟨entry, -, rfl⟩ := List.mem_map.mp hmem
    rfl
  have hpages : ∀ group ∈ fragmentGroups forms tables, ∀ f ∈ group, ∀ page ∈ f.pageNumber, 0 < page := by
    intro group hgroup f hf page hpage
    rw [(hfragment group hgroup f hf).2] at hpage
    exact singlePage_pos page hpage
  constructor
  · intro h
    have heach : ∀ group ∈ fragmentGroups forms tables, RowsFit group ∧ ∀ f ∈ group, f.pageNumber = none →
        ∀ cell ∈ f.table.cells, (cell.boundingRegions.bind List.head?).isSome := by
      intro group hgroup
      obtain ⟨t, ht, hmakes⟩ := (ExceptOk.exists_of_forall₂ hmade).1 group hgroup
      exact (hmakes.accepted_iff (hpages group hgroup)).mp (h t ht)
    refine ⟨fun table htable hnone => ?_, fun group hgroup => (heach group hgroup).1⟩
    obtain ⟨i, hi, rfl⟩ := List.getElem_of_mem htable
    have hentry : fragment forms (tables[i], i) ∈ tables.zipIdx.map (fragment forms) :=
      List.mem_map_of_mem (List.mem_zipIdx_iff_getElem?.mpr (List.getElem?_eq_getElem hi))
    obtain ⟨group, hgroup, hf⟩ := List.mem_flatten.mp (hperm.mem_iff.mpr hentry)
    exact (heach group hgroup).2 _ hf hnone
  · rintro ⟨hpaged, hrows⟩ t ht
    obtain ⟨group, hgroup, hmakes⟩ := (ExceptOk.exists_of_forall₂ hmade).2 t ht
    refine (hmakes.accepted_iff (hpages group hgroup)).mpr ⟨hrows group hgroup, fun f hf hnone => ?_⟩
    obtain ⟨htable, hpage⟩ := hfragment group hgroup f hf
    exact hpaged f.table htable (hpage.symm.trans hnone)

/-! ## Verdicts -/

theorem mapM_validate {ts : List ReassembledTable} {verdicts : List ValidatedRateTable} :
    ts.mapM (validateRateTable D forms) = some verdicts ↔
      (∀ t ∈ ts, t.accepted = true) ∧ verdicts = ts.map (rateTableVerdict D forms) := by
  induction ts generalizing verdicts with
  | nil => exact ⟨fun h => ⟨nofun, (Option.some.inj h).symm⟩, fun h => congrArg some h.2.symm⟩
  | cons t rest ih =>
    rw [List.mapM_cons, List.forall_mem_cons, List.map_cons]
    constructor
    · intro h
      obtain ⟨v, hv, h⟩ := Option.bind_eq_some_iff.mp h
      obtain ⟨vs, hvs, h⟩ := Option.bind_eq_some_iff.mp h
      obtain ⟨haccepted, hverdict⟩ := Option.ite_none_right_eq_some.mp hv
      obtain ⟨hrest, rfl⟩ := ih.mp hvs
      obtain rfl := Option.some.inj hverdict
      exact ⟨⟨haccepted, hrest⟩, (Option.some.inj h).symm⟩
    · rintro ⟨⟨haccepted, hrest⟩, rfl⟩
      have hv : validateRateTable D forms t = some (rateTableVerdict D forms t) := if_pos haccepted
      rw [hv, ih.mpr ⟨hrest, rfl⟩]
      rfl

variable (D forms tables)

/-- Each cell has a page, rows fit, and the brackets of a table that is found valid have no gap. -/
structure Unbroken : Prop where
  paged : ∀ table ∈ tables, Paged table
  rows : ∀ group ∈ fragmentGroups forms tables, RowsFit group
  gapless : ∀ t ∈ reassembleMultipageTables forms tables, Clean D forms t →
    ∀ c, chooseCandidate (bracketCandidates D forms t) = some c → strictlyMonotonic c.values = true →
      Gapless forms t c.orientation c.axisIndex c.cells

/-- Tables are validated as wanted exactly if none is broken. -/
theorem validated_iff : Validated D forms tables ↔ Unbroken D forms tables := by
  constructor
  · rintro ⟨verdicts, hrun, -, hsound⟩
    obtain ⟨haccepted, rfl⟩ := mapM_validate.mp hrun
    obtain ⟨hpaged, hrows⟩ := all_accepted_iff.mp haccepted
    refine ⟨hpaged, hrows, fun t ht hclean c hc hmono => ?_⟩
    have hvalid : (rateTableVerdict D forms t).valid = true := verdict_valid.mpr ⟨hclean, c, hc, hmono⟩
    have hv := (hsound _ (List.mem_map_of_mem ht)).1 hvalid
    exact (sound_iff (haccepted t ht) hclean hc hmono).mp hv
  · intro h
    have haccepted := all_accepted_iff.mpr ⟨h.paged, h.rows⟩
    refine ⟨_, mapM_validate.mpr ⟨haccepted, rfl⟩, ?_, fun v hv => ?_⟩
    · rw [List.map_map]
      exact List.map_id' _
    · obtain ⟨t, ht, rfl⟩ := List.mem_map.mp hv
      refine ⟨fun hvalid => ?_, validate_transpose (haccepted t ht)⟩
      obtain ⟨hclean, c, hc, hmono⟩ := verdict_valid.mp hvalid
      exact (sound_iff (haccepted t ht) hclean hc hmono).mpr (h.gapless t ht hclean c hc hmono)

end

/-- Plain notation of the reference carrier. -/
def Ref.negated : Ref → Ref
  | .nan => .nan
  | .inf s => .inf !s
  | .fin m e h => .fin (-m) e (by
    rw [Int.cast_neg, neg_mul]
    exact ofExact_neg h)

instance : PlainNotation Ref where
  negated := Ref.negated
  toPlain := Decimal.toString
  val_negated d := by
    match d with
    | .nan => rfl
    | .inf s => rfl
    | .fin m e h =>
      show Val.fin _ = Val.fin _
      rw [Int.cast_neg, neg_mul]
  toPlain_reads := Decimal.toString_reads

/-- A column of texts. -/
def columnTable (boundingRegions : Option (List BoundingRegion)) (contents : List String) : Table where
  rowCount := contents.length.toPNat'
  columnCount := ⟨1, Nat.one_pos⟩
  cells := contents.zipIdx.map fun entry => ⟨entry.2, 0, none, none, entry.1, none, boundingRegions⟩
  boundingRegions := boundingRegions

def columnFragment (contents : List String) : Fragment :=
  fragment asciiForms (columnTable (some [⟨⟨1, Nat.one_pos⟩, none⟩]) contents, 0)

def columnCell (rowIndex : ℕ) (content : String) : ReassembledCell :=
  normalizeCell asciiForms ⟨rowIndex, 0, none, none, content, none, some [⟨⟨1, Nat.one_pos⟩, none⟩]⟩ 0 (some 1) rowIndex

/-- The line that is chosen in the table of a column. -/
def chosenLine (contents : List String) : Option (TableOrientation × ℤ × List ReassembledCell) :=
  (chooseCandidate (bracketCandidates Ref asciiForms (buildTable asciiForms (columnFragment contents)))).map fun c =>
    (c.orientation, c.axisIndex, c.cells)

theorem rowsFit_alone {f : Fragment} : RowsFit [f] := by
  refine ⟨?_, fun before g hne hinit => absurd hinit.length_le ?_⟩
  · simp only [dataRows, List.map_nil, List.sum_nil, add_zero]
    exact_mod_cast f.table.rowCount.pos
  · rw [List.length_append, List.length_singleton, List.length_singleton]
    have hlength := List.length_pos_iff.mpr hne
    omega

theorem thresholdColumn_validated : Validated Ref asciiForms [columnTable (some [⟨1, none⟩]) ["Weight", "100", "200"]] := by
  have htables : reassembleMultipageTables asciiForms [columnTable (some [⟨1, none⟩]) ["Weight", "100", "200"]] =
      [buildTable asciiForms (columnFragment ["Weight", "100", "200"])] := by decide +kernel
  have hgroups : fragmentGroups asciiForms [columnTable (some [⟨1, none⟩]) ["Weight", "100", "200"]] =
      [[columnFragment ["Weight", "100", "200"]]] := by decide +kernel
  refine (validated_iff Ref asciiForms _).mpr ⟨by decide +kernel, ?_, ?_⟩
  · rw [hgroups, List.forall_mem_singleton]
    exact rowsFit_alone
  · rw [htables, List.forall_mem_singleton]
    intro _ c hc _
    have hline : chosenLine ["Weight", "100", "200"] = some (.ROW_BRACKETS, 0,
        (buildTable asciiForms (columnFragment ["Weight", "100", "200"])).cells.tail) := by decide +kernel
    rw [chosenLine, hc, Option.map_some, Option.some.injEq, Prod.mk.injEq, Prod.mk.injEq] at hline
    obtain ⟨horientation, haxis, hcells⟩ := hline
    rw [horientation, haxis, hcells]
    have hnumbers : ∀ cell ∈ (buildTable asciiForms (columnFragment ["Weight", "100", "200"])).cells,
        cell.rowIndex + cell.rowSpan ≤ 1 ∨ (exactCellValue asciiForms cell.content).isSome := by decide +kernel
    have hbelow : ∀ cell ∈ (buildTable asciiForms (columnFragment ["Weight", "100", "200"])).cells.tail,
        1 ≤ cell.rowIndex := by decide +kernel
    intro cell hcell a ha b _ k hak _ hcovers
    refine (hnumbers cell hcell).resolve_left fun hheader => ?_
    have hrow := hbelow a ha
    have hlast : k < cell.rowIndex + cell.rowSpan := hcovers.2.1
    have hafter : a.rowIndex < k := hak
    omega

/-- A text between two thresholds is passed over, and a cell without a page makes the validator throw. -/
theorem skippedCell_notValidated :
    ¬ Validated Ref asciiForms [columnTable (some [⟨1, none⟩]) ["Weight", "100", "n/a", "200"]] ∧
    ¬ Validated Ref asciiForms [columnTable none ["Weight", "100", "200"]] := by
  constructor
  · rintro ⟨verdicts, hrun, -, hsound⟩
    have htables : reassembleMultipageTables asciiForms [columnTable (some [⟨1, none⟩]) ["Weight", "100", "n/a", "200"]] =
        [buildTable asciiForms (columnFragment ["Weight", "100", "n/a", "200"])] := by decide +kernel
    obtain ⟨haccepted, rfl⟩ := mapM_validate.mp hrun
    rw [htables] at hsound haccepted
    have hvalid : (rateTableVerdict Ref asciiForms (buildTable asciiForms
        (columnFragment ["Weight", "100", "n/a", "200"]))).valid = true := by decide +kernel
    obtain ⟨hclean, c, hc, hmono⟩ := verdict_valid.mp hvalid
    have hgapless := (sound_iff (haccepted _ (List.mem_singleton_self _)) hclean hc hmono).mp
      ((hsound _ (List.mem_map_of_mem (List.mem_singleton_self _))).1 hvalid)
    have hline : chosenLine ["Weight", "100", "n/a", "200"] = some (.ROW_BRACKETS, 0,
        (buildTable asciiForms (columnFragment ["Weight", "100", "n/a", "200"])).cells.filter fun cell =>
          cell.rowIndex = 1 ∨ cell.rowIndex = 3) := by decide +kernel
    rw [chosenLine, hc, Option.map_some, Option.some.injEq, Prod.mk.injEq, Prod.mk.injEq] at hline
    obtain ⟨horientation, haxis, hcells⟩ := hline
    rw [horientation, haxis, hcells] at hgapless
    have hread := hgapless (columnCell 2 "n/a") (by decide +kernel) (columnCell 1 "100") (by decide +kernel)
      (columnCell 3 "200") (by decide +kernel) 2 (by decide) (by decide) ⟨by decide, by decide, by decide, by decide⟩
    exact absurd hread (by decide +kernel)
  · rintro ⟨verdicts, hrun, -⟩
    have hnone : reassembleAndValidateRateTables Ref asciiForms [columnTable none ["Weight", "100", "200"]] = none := by
      decide +kernel
    rw [hnone] at hrun
    cases hrun

end RateTables
