import FreightAuditor.Ingestion.Parse
import FreightAuditor.Library.StableSort

/- Categories of charge codes by the crosswalk.

   Of the rows that apply the one of the highest rank is taken, and of these the last one made. Whether a row
   is in effect is not looked at, and rows made in one transaction tie. The answer is that of the most
   specific rows in effect exactly if all rows that may come first are in effect and say the same
   (`answersBySpecificity_iff`). -/
namespace Crosswalk

open ExceptOk Ingestion JsText

/-- A row of `charge_code_crosswalk`; dates are counted in days. -/
structure CrosswalkRow where
  accountId : Option String
  carrierId : Option String
  sourceCode : Option String
  sourcePattern : Option String
  canonicalCategory : String
  precedenceRank : ℤ
  effectiveStart : Option ℤ
  effectiveEnd : Option ℤ
  createdAt : ℤ
  deriving DecidableEq

structure CrosswalkQuery where
  carrierId : Option String
  sourceCode : String

structure CrosswalkMatch where
  canonicalCategory : String
  precedenceRank : ℤ
  deriving DecidableEq

inductive CrosswalkError where
  | invalidRegularExpression (pattern : String)
  | x12 (e : X12ParseError)
  deriving DecidableEq

structure Carrier where
  id : String
  scacCode : Option String
  deriving DecidableEq

section

-- `text ~ pattern` of PostgreSQL, `none` where the pattern is no regular expression
variable (regexMatch : String → String → Option Bool)

/-- The condition of the query. -/
def applies (q : CrosswalkQuery) (row : CrosswalkRow) : Except CrosswalkError Bool :=
  if row.carrierId = none ∨ row.carrierId = q.carrierId then
    if row.sourceCode = some q.sourceCode then .ok true
    else
      match row.sourcePattern with
      | none => .ok false
      | some pattern =>
        match regexMatch q.sourceCode pattern with
        | some isMatch => .ok isMatch
        | none => .error (.invalidRegularExpression pattern)
  else .ok false

/-- `precedence_rank DESC, created_at DESC`. -/
def compareRows : CrosswalkRow → CrosswalkRow → Ordering :=
  compareLex (compareOn fun row => -row.precedenceRank) (compareOn fun row => -row.createdAt)

/-- The row of the query, of the visible rows in the order they are read in. -/
def crosswalkRow (rows : List CrosswalkRow) (q : CrosswalkQuery) : Except CrosswalkError (Option CrosswalkRow) := do
  let tested ← rows.mapM fun row => (applies regexMatch q row).map (row, ·)
  return (StableSort.sort compareRows ((tested.filter Prod.snd).map Prod.fst)).head?

def CrosswalkRow.toMatch (row : CrosswalkRow) : CrosswalkMatch := ⟨row.canonicalCategory, row.precedenceRank⟩

def resolveChargeCode (rows : List CrosswalkRow) (q : CrosswalkQuery) : Except CrosswalkError (Option CrosswalkMatch) :=
  (crosswalkRow regexMatch rows q).map (Option.map CrosswalkRow.toMatch)

/-- The carrier of the first B3-11; an ocean invoice names none. -/
def invoiceCarrier (carriers : List Carrier) (ix : X12Interchange) (transactionSet : TransactionSet) : Option String :=
  let carrierCode := if transactionSet = .edi210 then el (firstSegment ix "B3") 11 else none
  carrierCode.bind fun code => (carriers.find? fun carrier => carrier.scacCode = some (trim code)).map Carrier.id

def resolveCategorizer (carriers : List Carrier) (rows : List CrosswalkRow) (raw : String) (transactionSet : TransactionSet) :
    Except CrosswalkError Categorize := do
  let ix ← (parseX12 raw).mapError CrosswalkError.x12
  let carrierId := invoiceCarrier carriers ix transactionSet
  let codes := ((segmentsByTag ix "L1").filterMap fun l1 => el (some l1) 8).dedup
  let categoryByCode ← codes.mapM fun code =>
    (resolveChargeCode regexMatch rows ⟨carrierId, code⟩).map fun found => (code, found.map CrosswalkMatch.canonicalCategory)
  return fun code => code.bind fun c => (categoryByCode.lookup c).join

/-! ## What is claimed -/

/-- 4 client, carrier and code, 3 carrier and code, 2 carrier and pattern, 1 global. -/
def documentedRank (row : CrosswalkRow) : ℤ :=
  match row.carrierId, row.sourceCode, row.accountId with
  | none, _, _ => 1
  | some _, some _, some _ => 4
  | some _, some _, none => 3
  | some _, none, _ => 2

def InEffect (today : ℤ) (row : CrosswalkRow) : Prop :=
  (∀ start ∈ row.effectiveStart, start ≤ today) ∧ ∀ last ∈ row.effectiveEnd, today ≤ last

instance (today : ℤ) (row : CrosswalkRow) : Decidable (InEffect today row) := inferInstanceAs (Decidable (_ ∧ _))

/-- For the carrier, or for all, with the code or a pattern that matches it. -/
def Applicable (q : CrosswalkQuery) (row : CrosswalkRow) : Prop :=
  (row.carrierId = none ∨ row.carrierId = q.carrierId) ∧
    (row.sourceCode = some q.sourceCode ∨ ∃ pattern ∈ row.sourcePattern, regexMatch q.sourceCode pattern = some true)

instance (q : CrosswalkQuery) (row : CrosswalkRow) : Decidable (Applicable regexMatch q row) :=
  inferInstanceAs (Decidable (_ ∧ (_ ∨ _)))

/-- The answer is one, whatever order the rows are read in, and comes from the most specific rows in effect. -/
structure AnswersBySpecificity (today : ℤ) (rows : List CrosswalkRow) (q : CrosswalkQuery) : Prop where
  content : ∃ answer, ∀ rows', rows'.Perm rows → resolveChargeCode regexMatch rows' q = .ok answer
  none_iff : resolveChargeCode regexMatch rows q = .ok none ↔
    ∀ row ∈ rows, Applicable regexMatch q row → ¬ InEffect today row
  used : ∀ rows', rows'.Perm rows → ∀ row, crosswalkRow regexMatch rows' q = .ok (some row) →
    InEffect today row ∧ ∀ other ∈ rows, Applicable regexMatch q other → InEffect today other →
      documentedRank other ≤ documentedRank row

/-- Each charge gets the category of its code for the carrier of the invoice. -/
def Categorizes (rows : List CrosswalkRow) : Prop :=
  ∀ carriers raw transactionSet categorize ix,
    resolveCategorizer regexMatch carriers rows raw transactionSet = .ok categorize → parseX12 raw = .ok ix →
    categorize none = none ∧ ∀ l1 ∈ segmentsByTag ix "L1", ∀ code, el (some l1) 8 = some code → ∃ found,
      resolveChargeCode regexMatch rows ⟨invoiceCarrier carriers ix transactionSet, code⟩ = .ok found ∧
        categorize (some code) = found.map CrosswalkMatch.canonicalCategory

/-- None that applies comes before it. -/
def Foremost (rows : List CrosswalkRow) (q : CrosswalkQuery) (row : CrosswalkRow) : Prop :=
  row ∈ rows ∧ Applicable regexMatch q row ∧ ∀ other ∈ rows, Applicable regexMatch q other →
    StableSort.Le compareRows row other

/-- The pattern can be read, if it comes to it. -/
def ValidPattern (q : CrosswalkQuery) (row : CrosswalkRow) : Prop :=
  (row.carrierId = none ∨ row.carrierId = q.carrierId) → row.sourceCode ≠ some q.sourceCode →
    ∀ pattern ∈ row.sourcePattern, (regexMatch q.sourceCode pattern).isSome

/-- The rows that may come first are in effect and agree. -/
structure Decided (today : ℤ) (rows : List CrosswalkRow) (q : CrosswalkQuery) : Prop where
  valid : ∀ row ∈ rows, ValidPattern regexMatch q row
  inEffect : ∀ row, Foremost regexMatch rows q row → InEffect today row
  agree : ∀ row row', Foremost regexMatch rows q row → Foremost regexMatch rows q row' →
    row.canonicalCategory = row'.canonicalCategory

end

/-! ## The row that is taken -/

instance : Std.TransCmp compareRows := by
  unfold compareRows
  infer_instance

theorem le_iff {a b : CrosswalkRow} : StableSort.Le compareRows a b ↔
    b.precedenceRank < a.precedenceRank ∨ b.precedenceRank = a.precedenceRank ∧ b.createdAt ≤ a.createdAt := by
  rw [StableSort.Le, compareRows, compareLex, compareOn, compareOn]
  rcases lt_trichotomy b.precedenceRank a.precedenceRank with hlt | heq | hgt
  · rw [Int.compare_eq_lt.mpr (neg_lt_neg hlt)]
    exact iff_of_true (fun h => by cases h) (.inl hlt)
  · rw [heq, Int.compare_eq_eq.mpr rfl, Ordering.eq_then, ne_eq, Int.compare_eq_gt]
    omega
  · rw [Int.compare_eq_gt.mpr (neg_lt_neg hgt)]
    exact iff_of_false (fun h => h rfl) (by omega)

section

variable {regexMatch : String → String → Option Bool} {q : CrosswalkQuery} {rows rows' : List CrosswalkRow}

theorem applies_eq_ok {row : CrosswalkRow} {isMatch : Bool} :
    applies regexMatch q row = .ok isMatch ↔
      ValidPattern regexMatch q row ∧ (isMatch = true ↔ Applicable regexMatch q row) := by
  unfold applies
  by_cases hcarrier : row.carrierId = none ∨ row.carrierId = q.carrierId
  · by_cases hcode : row.sourceCode = some q.sourceCode
    · have hvalid : ValidPattern regexMatch q row := fun _ hne => absurd hcode hne
      have happlies : Applicable regexMatch q row := ⟨hcarrier, .inl hcode⟩
      rw [if_pos hcarrier, if_pos hcode, and_iff_right hvalid, iff_true_right happlies]
      exact ⟨fun h => (Except.ok.inj h).symm, fun h => congrArg Except.ok h.symm⟩
    · have hiff : Applicable regexMatch q row ↔ ∃ pattern ∈ row.sourcePattern, regexMatch q.sourceCode pattern = some true :=
        ⟨fun happlies => happlies.2.resolve_left hcode, fun hmatch => ⟨hcarrier, .inr hmatch⟩⟩
      have hvalid : ValidPattern regexMatch q row ↔
          ∀ pattern ∈ row.sourcePattern, (regexMatch q.sourceCode pattern).isSome :=
        ⟨fun h => h hcarrier hcode, fun h _ _ => h⟩
      rw [if_pos hcarrier, if_neg hcode, hiff, hvalid]
      cases row.sourcePattern with
      | none => cases isMatch <;> simp
      | some pattern =>
        simp only [Option.mem_some, forall_eq', exists_eq_left']
        cases regexMatch q.sourceCode pattern with
        | none => simp
        | some found => cases found <;> cases isMatch <;> simp
  · have hvalid : ValidPattern regexMatch q row := fun h => absurd h hcarrier
    have hnot : ¬ Applicable regexMatch q row := fun happlies => hcarrier happlies.1
    rw [if_neg hcarrier, and_iff_right hvalid, iff_false_right hnot, Bool.not_eq_true]
    exact ⟨fun h => (Except.ok.inj h).symm, fun h => congrArg Except.ok h.symm⟩

/-- The first of the rows that apply. -/
def firstRow (regexMatch : String → String → Option Bool) (q : CrosswalkQuery) (rows : List CrosswalkRow) : Option CrosswalkRow :=
  (StableSort.sort compareRows (rows.filter fun row => Applicable regexMatch q row)).head?

theorem crosswalkRow_eq_ok {answer : Option CrosswalkRow} : crosswalkRow regexMatch rows q = .ok answer ↔
    (∀ row ∈ rows, ValidPattern regexMatch q row) ∧ answer = firstRow regexMatch q rows := by
  have htest : ∀ row pair, (applies regexMatch q row).map (row, ·) = .ok pair ↔
      ValidPattern regexMatch q row ∧ pair = (row, decide (Applicable regexMatch q row)) := by
    intro row pair
    cases happlies : applies regexMatch q row with
    | error e =>
      refine iff_of_false nofun fun h => ?_
      have hok := applies_eq_ok.mpr ⟨h.1, (decide_eq_true_iff (p := Applicable regexMatch q row))⟩
      rw [happlies] at hok
      cases hok
    | ok isMatch =>
      obtain ⟨hvalid, hmatch⟩ := applies_eq_ok.mp happlies
      have hsame : isMatch = decide (Applicable regexMatch q row) := Bool.eq_iff_iff.mpr (hmatch.trans decide_eq_true_iff.symm)
      rw [and_iff_right hvalid, ← hsame]
      exact ⟨fun h => (Except.ok.inj h).symm, fun h => congrArg Except.ok h.symm⟩
  have hfirst : ∀ tested, rows.mapM (fun row => (applies regexMatch q row).map (row, ·)) = .ok tested →
      (StableSort.sort compareRows ((tested.filter Prod.snd).map Prod.fst)).head? = firstRow regexMatch q rows := by
    intro tested hrun
    have hall := map_of_mapM (g := id) (fun row pair h => ((htest row pair).mp h).2) hrun
    rw [List.map_id] at hall
    rw [hall, List.filter_map, List.map_map, firstRow]
    exact congrArg (fun l => (StableSort.sort compareRows l).head?) (List.map_id' _)
  unfold crosswalkRow
  constructor
  · intro h
    obtain ⟨tested, hrun, hanswer⟩ := bind_eq_ok.mp h
    refine ⟨fun row hrow => ?_, (hfirst tested hrun) ▸ (pure_eq_ok.mp hanswer).symm⟩
    obtain ⟨pair, -, hpair⟩ := exists_of_mapM hrun hrow
    exact ((htest row pair).mp hpair).1
  · rintro ⟨hvalid, rfl⟩
    obtain ⟨tested, hrun⟩ := returns_mapM.mpr fun row hrow => ⟨_, (htest row _).mpr ⟨hvalid row hrow, rfl⟩⟩
    exact bind_eq_ok.mpr ⟨tested, hrun, pure_eq_ok.mpr (hfirst tested hrun)⟩

theorem resolveChargeCode_eq_ok {answer : Option CrosswalkMatch} : resolveChargeCode regexMatch rows q = .ok answer ↔
    (∀ row ∈ rows, ValidPattern regexMatch q row) ∧ answer = (firstRow regexMatch q rows).map CrosswalkRow.toMatch := by
  unfold resolveChargeCode
  constructor
  · intro h
    cases hrow : crosswalkRow regexMatch rows q with
    | error e =>
      rw [hrow] at h
      cases h
    | ok row =>
      rw [hrow] at h
      obtain ⟨hvalid, rfl⟩ := crosswalkRow_eq_ok.mp hrow
      exact ⟨hvalid, (Except.ok.inj h).symm⟩
  · rintro ⟨hvalid, rfl⟩
    rw [crosswalkRow_eq_ok.mpr ⟨hvalid, rfl⟩]
    rfl

theorem firstRow_eq_none : firstRow regexMatch q rows = none ↔ ∀ row ∈ rows, ¬ Applicable regexMatch q row := by
  rw [firstRow, List.head?_eq_none_iff, ← List.length_eq_zero_iff, (StableSort.sort_perm _).length_eq,
    List.length_eq_zero_iff, List.filter_eq_nil_iff]
  simp only [decide_eq_true_eq]

theorem foremost_of_firstRow {row : CrosswalkRow} (h : firstRow regexMatch q rows = some row) :
    Foremost regexMatch rows q row := by
  obtain ⟨rest, hsorted⟩ := List.head?_eq_some_iff.mp h
  have hmem : ∀ other, other ∈ rows ∧ Applicable regexMatch q other ↔ other ∈ row :: rest := by
    intro other
    rw [← hsorted, StableSort.mem_sort, List.mem_filter, decide_eq_true_eq]
  have hpairwise : (row :: rest).Pairwise (StableSort.Le compareRows) := hsorted ▸ StableSort.sort_pairwise _
  obtain ⟨hrow, happlies⟩ := (hmem row).mpr List.mem_cons_self
  refine ⟨hrow, happlies, fun other hother hother' => ?_⟩
  rcases List.mem_cons.mp ((hmem other).mp ⟨hother, hother'⟩) with rfl | hrest
  · exact le_iff.mpr (.inr ⟨rfl, le_refl _⟩)
  · exact (List.pairwise_cons.mp hpairwise).1 other hrest

/-- A foremost row is taken where it is read first. -/
theorem firstRow_of_foremost {row : CrosswalkRow} (h : Foremost regexMatch rows q row) :
    ∃ rows', rows'.Perm rows ∧ firstRow regexMatch q rows' = some row := by
  obtain ⟨hrow, happlies, hbefore⟩ := h
  refine ⟨row :: rows.erase row, (List.perm_cons_erase hrow).symm, ?_⟩
  have hle : ∀ other ∈ (rows.erase row).filter fun row => Applicable regexMatch q row, StableSort.Le compareRows row other := by
    intro other hother
    rw [List.mem_filter, decide_eq_true_eq] at hother
    exact hbefore other (List.mem_of_mem_erase hother.1) hother.2
  have hfilter : (row :: rows.erase row).filter (fun row => Applicable regexMatch q row) =
      row :: (rows.erase row).filter fun row => Applicable regexMatch q row := List.filter_cons_of_pos (decide_eq_true happlies)
  rw [firstRow, hfilter, StableSort.sort_cons_of_le hle]
  rfl

theorem foremost_perm (h : rows'.Perm rows) {row : CrosswalkRow} : Foremost regexMatch rows' q row ↔ Foremost regexMatch rows q row := by
  unfold Foremost
  simp only [h.mem_iff]

/-! ## Answers -/

theorem decided_of_answers {today : ℤ} (h : AnswersBySpecificity regexMatch today rows q) : Decided regexMatch today rows q := by
  obtain ⟨answer, hanswer⟩ := h.content
  have hvalid := (resolveChargeCode_eq_ok.mp (hanswer rows (List.Perm.refl _))).1
  have htaken : ∀ row, Foremost regexMatch rows q row → ∃ rows', rows'.Perm rows ∧
      crosswalkRow regexMatch rows' q = .ok (some row) ∧ answer = some row.toMatch := by
    intro row hrow
    obtain ⟨rows', hperm, hfirst⟩ := firstRow_of_foremost hrow
    have hvalid' : ∀ row ∈ rows', ValidPattern regexMatch q row := fun row hrow => hvalid row (hperm.mem_iff.mp hrow)
    refine ⟨rows', hperm, crosswalkRow_eq_ok.mpr ⟨hvalid', hfirst.symm⟩, ?_⟩
    rw [(resolveChargeCode_eq_ok.mp (hanswer rows' hperm)).2, hfirst]
    rfl
  refine ⟨hvalid, fun row hrow => ?_, fun row row' hrow hrow' => ?_⟩
  · obtain ⟨rows', hperm, hrun, -⟩ := htaken row hrow
    exact (h.used rows' hperm row hrun).1
  · obtain ⟨-, -, -, heq⟩ := htaken row hrow
    obtain ⟨-, -, -, heq'⟩ := htaken row' hrow'
    exact congrArg CrosswalkMatch.canonicalCategory (Option.some.inj (heq.symm.trans heq'))

theorem answers_of_decided {today : ℤ} (hranks : ∀ row ∈ rows, row.precedenceRank = documentedRank row)
    (h : Decided regexMatch today rows q) : AnswersBySpecificity regexMatch today rows q := by
  have hvalid : ∀ rows' : List CrosswalkRow, rows'.Perm rows → ∀ row ∈ rows', ValidPattern regexMatch q row :=
    fun rows' hperm row hrow => h.valid row (hperm.mem_iff.mp hrow)
  constructor
  case content =>
    refine ⟨(firstRow regexMatch q rows).map CrosswalkRow.toMatch, fun rows' hperm =>
      resolveChargeCode_eq_ok.mpr ⟨hvalid rows' hperm, ?_⟩⟩
    cases hfirst : firstRow regexMatch q rows with
    | none =>
      have hnone : firstRow regexMatch q rows' = none :=
        firstRow_eq_none.mpr fun row hrow => firstRow_eq_none.mp hfirst row (hperm.mem_iff.mp hrow)
      rw [hnone]
    | some row =>
      have hrow := foremost_of_firstRow hfirst
      cases hfirst' : firstRow regexMatch q rows' with
      | none => exact absurd hrow.2.1 (firstRow_eq_none.mp hfirst' row (hperm.mem_iff.mpr hrow.1))
      | some row' =>
        have hrow' := (foremost_perm hperm).mp (foremost_of_firstRow hfirst')
        have hle := le_iff.mp (hrow.2.2 row' hrow'.1 hrow'.2.1)
        have hle' := le_iff.mp (hrow'.2.2 row hrow.1 hrow.2.1)
        have hrank : row.precedenceRank = row'.precedenceRank := by omega
        simp only [Option.map_some, CrosswalkRow.toMatch, hrank, h.agree row row' hrow hrow']
  case none_iff =>
    rw [resolveChargeCode_eq_ok, and_iff_right h.valid, eq_comm, Option.map_eq_none_iff]
    constructor
    · exact fun hnone row hrow happlies _ => firstRow_eq_none.mp hnone row hrow happlies
    · intro hnone
      cases hfirst : firstRow regexMatch q rows with
      | none => rfl
      | some row =>
        have hrow := foremost_of_firstRow hfirst
        exact absurd (h.inEffect row hrow) (hnone row hrow.1 hrow.2.1)
  case used =>
    intro rows' hperm row hrun
    have hrow := (foremost_perm hperm).mp (foremost_of_firstRow (crosswalkRow_eq_ok.mp hrun).2.symm)
    refine ⟨h.inEffect row hrow, fun other hother happlies _ => ?_⟩
    have hle := le_iff.mp (hrow.2.2 other hother happlies)
    rw [← hranks other hother, ← hranks row hrow.1]
    omega

theorem categorizes : Categorizes regexMatch rows := by
  intro carriers raw transactionSet categorize ix hrun hix
  unfold resolveCategorizer at hrun
  obtain ⟨ix', hix', hrun⟩ := bind_eq_ok.mp hrun
  obtain rfl : ix' = ix := Except.ok.inj ((mapError_eq_ok.mp hix').symm.trans hix)
  obtain ⟨categoryByCode, hcategories, hrun⟩ := bind_eq_ok.mp hrun
  obtain rfl := pure_eq_ok.mp hrun
  refine ⟨rfl, fun l1 hl1 code hcode => ?_⟩
  have hmem : code ∈ ((segmentsByTag ix' "L1").filterMap fun l1 => el (some l1) 8).dedup :=
    List.mem_dedup.mpr (List.mem_filterMap.mpr ⟨l1, hl1, hcode⟩)
  have hpair : ∀ code pair, (resolveChargeCode regexMatch rows ⟨invoiceCarrier carriers ix' transactionSet, code⟩).map
      (fun found => (code, found.map CrosswalkMatch.canonicalCategory)) = .ok pair → ∃ found,
        resolveChargeCode regexMatch rows ⟨invoiceCarrier carriers ix' transactionSet, code⟩ = .ok found ∧
          pair = (code, found.map CrosswalkMatch.canonicalCategory) := by
    intro code pair h
    cases hfound : resolveChargeCode regexMatch rows ⟨invoiceCarrier carriers ix' transactionSet, code⟩ with
    | error e =>
      rw [hfound] at h
      cases h
    | ok found =>
      rw [hfound] at h
      exact ⟨found, rfl, (Except.ok.inj h).symm⟩
  cases hlookup : categoryByCode.lookup code with
  | none =>
    obtain ⟨pair, hmade, hcategory⟩ := exists_of_mapM hcategories hmem
    obtain ⟨found, -, rfl⟩ := hpair code pair hcategory
    exact absurd (List.lookup_eq_none_iff.mp hlookup _ hmade) (by simp)
  | some category =>
    obtain ⟨before, after, hsplit, -⟩ := List.lookup_eq_some_iff.mp hlookup
    obtain ⟨code', -, hcategory⟩ := (mem_mapM hcategories).mp (hsplit ▸ List.mem_append_right before List.mem_cons_self)
    obtain ⟨found, hfound, heq⟩ := hpair code' _ hcategory
    obtain ⟨rfl, rfl⟩ := Prod.mk.inj heq
    refine ⟨found, hfound, ?_⟩
    show (categoryByCode.lookup code).join = _
    rw [hlookup]
    rfl

/-- The answers are those of the most specific rows in effect exactly if the rows that may come first are in effect
and agree; a charge gets the answer for its code in any case. -/
theorem answersBySpecificity_iff {today : ℤ} (hranks : ∀ row ∈ rows, row.precedenceRank = documentedRank row) :
    (AnswersBySpecificity regexMatch today rows q ∧ Categorizes regexMatch rows) ↔ Decided regexMatch today rows q :=
  ⟨fun h => decided_of_answers h.1, fun h => ⟨answers_of_decided hranks h, categorizes⟩⟩

end

/-- A fuel surcharge, of all carriers or of one. -/
def fuelRow (carrierId : Option String) (canonicalCategory : String) (effectiveEnd : Option ℤ) : CrosswalkRow where
  accountId := none
  carrierId := carrierId
  sourceCode := some "FSC"
  sourcePattern := none
  canonicalCategory := canonicalCategory
  precedenceRank := if carrierId.isSome then 3 else 1
  effectiveStart := none
  effectiveEnd := effectiveEnd
  createdAt := 0

/-- Of patterns without special characters. -/
def containsText (text pattern : String) : Option Bool := some (text.toList.tails.any pattern.toList.isPrefixOf)

theorem carrierFuel_answers :
    AnswersBySpecificity containsText 0 [fuelRow none "FUEL" none, fuelRow (some "c1") "FUEL_CARRIER" none] ⟨some "c1", "FSC"⟩ ∧
      Categorizes containsText [fuelRow none "FUEL" none, fuelRow (some "c1") "FUEL_CARRIER" none] := by
  refine (answersBySpecificity_iff (by decide)).mpr ⟨fun _ _ _ _ _ _ => rfl, ?_, ?_⟩
  · rintro row ⟨hrow, -⟩
    revert row
    decide
  · have hfirst : ∀ row, Foremost containsText [fuelRow none "FUEL" none, fuelRow (some "c1") "FUEL_CARRIER" none]
        ⟨some "c1", "FSC"⟩ row → row.canonicalCategory = "FUEL_CARRIER" := by
      rintro row ⟨hrow, -, hbefore⟩
      have hcarrier := le_iff.mp (hbefore (fuelRow (some "c1") "FUEL_CARRIER" none) (by decide) (by decide))
      rcases List.mem_cons.mp hrow with rfl | hrow
      · exact absurd hcarrier (by decide)
      · rw [List.mem_singleton.mp hrow]
        rfl
    exact fun row row' hrow hrow' => (hfirst row hrow).trans (hfirst row' hrow').symm

/-- A row of the carrier that is past its end is used, and of two rows of one transaction either one. -/
theorem expiredFuel_answers :
    ¬ AnswersBySpecificity containsText 20 [fuelRow none "FUEL" none, fuelRow (some "c1") "FUEL_OLD" (some 10)] ⟨some "c1", "FSC"⟩ ∧
    ¬ AnswersBySpecificity containsText 20 [fuelRow none "FUEL" none, fuelRow none "LINEHAUL" none] ⟨some "c1", "FSC"⟩ := by
  constructor
  · intro h
    have hused := h.used _ (List.Perm.refl _) (fuelRow (some "c1") "FUEL_OLD" (some 10)) (by decide)
    exact absurd hused.1 (by decide)
  · intro h
    obtain ⟨answer, hanswer⟩ := h.content
    have hfirst := hanswer _ (List.Perm.refl _)
    have hswapped := hanswer _ (List.Perm.swap _ _ _)
    exact absurd (hfirst.trans hswapped.symm) (by decide)

end Crosswalk
