import FreightAuditor.Findings.ListFindings

/- The pages of the findings lists.

   The joins keep one row of each finding (`map_joined`). But the findings of one run share
   their time, and equal or missing variances tie too; so the pages show each finding once
   exactly if those that tie stand on one page (`listedOnce_iff`). -/
namespace Findings

/-! ## The law -/

def FindingsDb.chargeFactOf (db : FindingsDb) (finding : VarianceFinding) : Option ChargeFact :=
  finding.chargeFactId.bind db.chargeFacts.find?

/-- The carrier of the finding's invoice. -/
def FindingsDb.carrierOf (db : FindingsDb) (finding : VarianceFinding) : Option Carrier := do
  let auditRun ← db.auditRuns.find? finding.auditRunId
  let invoice ← db.invoices.find? (invoiceIdOf (db.chargeFactOf finding) auditRun)
  let carrierId ← invoice.carrierId
  db.carriers.find? carrierId

/-- The findings that meet the filters of the listing. -/
def Listing.matching (listing : Listing) (now : ℤ) (db : FindingsDb) : List VarianceFinding :=
  db.varianceFindings.rows.filter fun finding =>
    listing.query.conditions now finding (db.chargeFactOf finding) (db.carrierOf finding)

/-- As long as the matching findings stay the same, the pages show each of them once, in the order that is asked for. -/
def ListedOnce (listing : Listing) (now : ℤ) (db : FindingsDb) (limit n : ℕ) : Prop :=
  ∀ plans : ℕ → Plan, (∀ i, listing.matching (plans i).now db = listing.matching now db) →
    ((listing.pages plans db limit n).map AccountFindingRow.id).Perm ((listing.matching now db).map VarianceFinding.id) ∧
    (listing.pages plans db limit n).Pairwise fun a b =>
      ordered listing.query.sort listing.query.sortDir a.varianceAmount b.varianceAmount a.createdAt b.createdAt

/-- The matching findings that tie stand on one page. -/
def TiesOnOnePage (listing : Listing) (now : ℤ) (db : FindingsDb) (limit : ℕ) : Prop :=
  ∀ finding ∈ listing.matching now db,
    OffsetPages.OnOnePage listing.query.le (listing.matching now db) limit finding

instance (listing : Listing) (now : ℤ) (db : FindingsDb) (limit : ℕ) : Decidable (TiesOnOnePage listing now db limit) :=
  List.decidableBAll (fun finding => OffsetPages.OnOnePage listing.query.le (listing.matching now db) limit finding) _

/-! ## The joins -/

section

variable {plan : Plan} {db : FindingsDb} {finding : VarianceFinding} {row : JoinedRow}

theorem leftJoin_toList {α : Type} (a : Option α) : leftJoin a.toList = [a] := by
  cases a with
  | none => rfl
  | some a => rfl

theorem leftJoin_key {α : Type} {key : α → ℕ} (t : KeyedTable α key) (k : Option ℕ) :
    leftJoin (t.rows.filter fun a => decide (some (key a) = k)) = [k.bind t.find?] := by
  cases k with
  | none =>
    rw [List.filter_eq_nil_iff.mpr fun a _ => by simp]
    rfl
  | some k =>
    have hkey : (t.rows.filter fun a => decide (some (key a) = some k)) = (t.find? k).toList := by
      rw [← KeyedTable.filter_key]
      exact List.filter_congr fun a _ => decide_eq_decide.mpr Option.some_inj
    rw [hkey, leftJoin_toList]
    rfl

theorem leftJoinNewest_eq {α : Type} (recordedAt : α → ℤ) (rows : List α) :
    ∃ newest, leftJoinNewest recordedAt rows = [newest] := by
  unfold leftJoinNewest
  cases rows.insertionSort fun a b => recordedAt b ≤ recordedAt a with
  | nil => exact ⟨none, rfl⟩
  | cons a rest => exact ⟨some a, rfl⟩

/-- The invoice of a finding is there. -/
theorem FindingsDb.invoice_isSome (db : FindingsDb) {auditRun : AuditRun}
    (hrun : db.auditRuns.find? finding.auditRunId = some auditRun) :
    (db.invoices.find? (invoiceIdOf (db.chargeFactOf finding) auditRun)).isSome := by
  unfold invoiceIdOf
  cases hcharge : db.chargeFactOf finding with
  | none => exact db.runInvoiceKept auditRun (KeyedTable.find?_sound hrun).1
  | some chargeFact =>
    obtain ⟨id, -, hfound⟩ := Option.bind_eq_some_iff.mp hcharge
    exact db.chargeInvoiceKept chargeFact (KeyedTable.find?_sound hfound).1

/-- A finding is joined to one row, with its charge and its carrier. -/
theorem joinedWith_eq (plan : Plan) (db : FindingsDb) (hfinding : finding ∈ db.varianceFindings.rows) :
    ∃ row, joinedWith plan db finding = [row] ∧ row.finding = finding ∧ row.chargeFact = db.chargeFactOf finding ∧
      row.carrier = db.carrierOf finding := by
  obtain ⟨auditRun, hrun⟩ := Option.isSome_iff_exists.mp (db.auditRunKept finding hfinding)
  obtain ⟨invoice, hinvoice⟩ := Option.isSome_iff_exists.mp (db.invoice_isSome hrun)
  obtain ⟨expectedCharge, hexpected⟩ := leftJoinNewest_eq ExpectedCharge.createdAt (plan.expectedCharges
    (db.expectedCharges.filter fun row => (db.chargeFactOf finding).any fun charge => row.chargeFactId = some charge.id))
  obtain ⟨criterionVersion, hversion⟩ := leftJoinNewest_eq CriterionVersion.recordedAt (plan.criterionVersions
    (db.criterionVersions.filter fun row => some row.criterionId = finding.criterionId))
  have hcarrier : db.carrierOf finding = invoice.carrierId.bind db.carriers.find? := by
    simp only [FindingsDb.carrierOf, hrun, hinvoice, Option.bind_eq_bind, Option.bind_some]
  refine ⟨⟨finding, db.chargeFactOf finding, auditRun, invoice, db.carrierOf finding, expectedCharge, criterionVersion⟩,
    ?_, rfl, rfl, rfl⟩
  rw [joinedWith, leftJoin_key, List.flatMap_singleton, KeyedTable.filter_key, hrun, Option.toList_some,
    List.flatMap_singleton]
  rw [KeyedTable.filter_key, ← FindingsDb.chargeFactOf, hinvoice, Option.toList_some, List.flatMap_singleton, leftJoin_key,
    List.flatMap_singleton, hexpected, List.flatMap_singleton, hversion, List.map_singleton, hcarrier]

/-- The joins neither drop a finding nor repeat one. -/
theorem map_joined (plan : Plan) (db : FindingsDb) : (joined plan db).map JoinedRow.finding = db.varianceFindings.rows := by
  have hone : ∀ finding ∈ db.varianceFindings.rows, (joinedWith plan db finding).map JoinedRow.finding = [finding] := by
    intro finding hfinding
    obtain ⟨row, hrow, rfl, -⟩ := joinedWith_eq plan db hfinding
    rw [hrow, List.map_singleton]
  rw [joined, List.map_flatMap, List.flatMap_congr hone, List.flatMap_singleton']

theorem joined_row (hrow : row ∈ joined plan db) :
    row.chargeFact = db.chargeFactOf row.finding ∧ row.carrier = db.carrierOf row.finding := by
  obtain ⟨finding, hfinding, hmem⟩ := List.mem_flatMap.mp hrow
  obtain ⟨only, honly, rfl, hcharge, hcarrier⟩ := joinedWith_eq plan db hfinding
  rw [honly] at hmem
  obtain rfl := List.mem_singleton.mp hmem
  exact ⟨hcharge, hcarrier⟩

end

/-! ## The order -/

section

variable {sortDir : Option FindingsSortDir}

theorem directed_total {κ : Type} [LinearOrder κ] (a b : κ) : directed sortDir a b ∨ directed sortDir b a := by
  unfold directed
  rcases le_total a b with h | h
  · by_cases hasc : sortDir = some .asc
    · exact .inl ⟨fun _ => h, fun hnot => absurd hasc hnot⟩
    · exact .inr ⟨fun h => absurd h hasc, fun _ => h⟩
  · by_cases hasc : sortDir = some .asc
    · exact .inr ⟨fun _ => h, fun hnot => absurd hasc hnot⟩
    · exact .inl ⟨fun h => absurd h hasc, fun _ => h⟩

theorem directed_trans {κ : Type} [LinearOrder κ] {a b c : κ} (hab : directed sortDir a b) (hbc : directed sortDir b c) :
    directed sortDir a c :=
  ⟨fun h => le_trans (hab.1 h) (hbc.1 h), fun h => le_trans (hbc.2 h) (hab.2 h)⟩

theorem nullsLast_total : ∀ a b, nullsLast sortDir a b ∨ nullsLast sortDir b a
  | _, none => .inl trivial
  | none, some _ => .inr trivial
  | some a, some b => directed_total a b

theorem nullsLast_trans : ∀ {a b c}, nullsLast sortDir a b → nullsLast sortDir b c → nullsLast sortDir a c
  | _, _, none, _, _ => trivial
  | _, none, some _, _, hbc => hbc.elim
  | none, some _, some _, hab, _ => hab.elim
  | some _, some _, some _, hab, hbc => directed_trans hab hbc

instance (query : Query) : Std.Total query.le where
  total a b := by
    show ordered _ _ _ _ _ _ ∨ ordered _ _ _ _ _ _
    unfold ordered
    by_cases hsort : query.sort = some .variance
    · rcases nullsLast_total a.varianceAmount b.varianceAmount with h | h
      · exact .inl ⟨fun _ => h, fun hnot => absurd hsort hnot⟩
      · exact .inr ⟨fun _ => h, fun hnot => absurd hsort hnot⟩
    · rcases directed_total a.createdAt b.createdAt with h | h
      · exact .inl ⟨fun h => absurd h hsort, fun _ => h⟩
      · exact .inr ⟨fun h => absurd h hsort, fun _ => h⟩

instance (query : Query) : IsTrans VarianceFinding query.le where
  trans _ _ _ hab hbc :=
    ⟨fun h => nullsLast_trans (hab.1 h) (hbc.1 h), fun h => directed_trans (hab.2 h) (hbc.2 h)⟩

end

/-! ## The pages of a listing -/

section

variable {listing : Listing} {db : FindingsDb} {now : ℤ}

/-- The findings that one query comes by, in its order. -/
def Listing.found (listing : Listing) (plan : Plan) (db : FindingsDb) : List VarianceFinding :=
  (listing.query.rows plan db).map JoinedRow.finding

theorem Listing.found_perm (listing : Listing) (plan : Plan) (db : FindingsDb) :
    (listing.found plan db).Perm (listing.matching plan.now db) := by
  have hconditions : (joined plan db).filter (fun row =>
      listing.query.conditions plan.now row.finding row.chargeFact row.carrier) = (joined plan db).filter
        ((fun finding => listing.query.conditions plan.now finding (db.chargeFactOf finding) (db.carrierOf finding)) ∘
          JoinedRow.finding) := by
    refine List.filter_congr fun row hrow => ?_
    obtain ⟨hcharge, hcarrier⟩ := joined_row hrow
    rw [hcharge, hcarrier]
    rfl
  have hperm := ((plan.joinedRows_perm (joined plan db)).filter fun row =>
    listing.query.conditions plan.now row.finding row.chargeFact row.carrier).map JoinedRow.finding
  rw [hconditions, ← List.filter_map, map_joined] at hperm
  exact hperm

theorem Listing.page_eq (listing : Listing) (plan : Plan) (db : FindingsDb) (limit offset : ℕ) :
    listing.page plan db limit offset =
      (listing.query.select plan db (some limit) (some offset)).map accountFindingRow := by
  cases listing with
  | account clientId options => rfl
  | findings options =>
    show List.map _ (List.map _ _) = _
    rw [List.map_map]
    rfl

theorem select_findings (listing : Listing) (plan : Plan) (db : FindingsDb) (limit offset : ℕ) :
    (listing.query.select plan db (some limit) (some offset)).map JoinedRow.finding =
      OffsetPages.page listing.query.le (listing.found plan db) limit offset := by
  have hsort : ((listing.query.rows plan db).insertionSort fun a b => listing.query.le a.finding b.finding).map
      JoinedRow.finding = (listing.found plan db).insertionSort listing.query.le :=
    List.map_insertionSort _ listing.query.le JoinedRow.finding _ fun _ _ _ _ => Iff.rfl
  rw [Query.select, OffsetPages.page, List.map_take, List.map_drop, hsort]
  rfl

/-- The pages are those of the queries' findings. -/
theorem Listing.pages_eq (listing : Listing) (plans : ℕ → Plan) (db : FindingsDb) (limit n : ℕ) :
    ∃ rows : List JoinedRow, listing.pages plans db limit n = rows.map accountFindingRow ∧
      rows.map JoinedRow.finding =
        OffsetPages.pages listing.query.le (fun i => listing.found (plans i) db) limit n := by
  refine ⟨(List.range n).flatMap fun i => listing.query.select (plans i) db (some limit) (some (i * limit)), ?_, ?_⟩
  · rw [List.map_flatMap, Listing.pages]
    exact List.flatMap_congr fun i _ => listing.page_eq (plans i) db limit (i * limit)
  · rw [List.map_flatMap, OffsetPages.pages]
    exact List.flatMap_congr fun i _ => select_findings listing (plans i) db limit (i * limit)

/-- Any order of the matching findings is one in which a query may come by them. -/
theorem Listing.exists_plan (listing : Listing) (now : ℤ) (db : FindingsDb) {order : List VarianceFinding}
    (horder : order.Perm (listing.matching now db)) :
    ∃ plan : Plan, plan.now = now ∧ listing.found plan db = order := by
  let plain : Plan := ⟨now, id, id, id, fun _ => .refl _, fun _ => .refl _, fun _ => .refl _⟩
  let condition : JoinedRow → Bool := fun row => listing.query.conditions now row.finding row.chargeFact row.carrier
  have hmatching : (listing.found plain db).Perm order := (listing.found_perm plain db).trans horder.symm
  -- some order of the rows that match gives this order of their findings
  obtain ⟨rows, hrows, hfindings⟩ : ∃ rows : List JoinedRow, rows.Perm ((joined plain db).filter condition) ∧
      rows.map JoinedRow.finding = order := by
    have hlifted := List.eq_map_comp_perm JoinedRow.finding
    obtain ⟨rows, hmap, hperm⟩ := (congrFun (congrFun hlifted order) ((joined plain db).filter condition)).mpr hmatching.symm
    exact ⟨rows, hperm, hmap.symm⟩
  have htarget : (rows ++ (joined plain db).filter fun row => !condition row).Perm (joined plain db) :=
    (hrows.append_right _).trans (List.filter_append_perm _ _)
  let plan : Plan :=
    { plain with
      joinedRows := fun l => if l = joined plain db then rows ++ (joined plain db).filter fun row => !condition row else l
      joinedRows_perm := fun l => by
        split
        · rename_i hl
          rw [hl]
          exact htarget
        · exact .refl _ }
  refine ⟨plan, rfl, ?_⟩
  have hsame : joined plan db = joined plain db := rfl
  have htaken : plan.joinedRows (joined plan db) = rows ++ (joined plain db).filter fun row => !condition row :=
    if_pos hsame
  have hall : ∀ row ∈ rows, condition row = true := fun row hrow => (List.mem_filter.mp (hrows.mem_iff.mp hrow)).2
  have hrest : ((joined plain db).filter fun row => !condition row).filter condition = [] := by
    refine List.filter_eq_nil_iff.mpr fun row hrow => ?_
    have hnot := (List.mem_filter.mp hrow).2
    exact Bool.not_eq_true' _ |>.mp hnot ▸ Bool.false_ne_true
  have hfound : listing.query.rows plan db = rows := by
    show (plan.joinedRows (joined plan db)).filter condition = rows
    rw [htaken, List.filter_append, hrest, List.append_nil, List.filter_eq_self.mpr hall]
  rw [Listing.found, hfound, hfindings]

theorem listedOnce_iff_showsEachOnce (listing : Listing) (now : ℤ) (db : FindingsDb) (limit n : ℕ) :
    ListedOnce listing now db limit n ↔ OffsetPages.ShowsEachOnce listing.query.le (listing.matching now db) limit n := by
  constructor
  · intro h order horder
    choose plans hnow hfound using fun i => listing.exists_plan now db (horder i)
    obtain ⟨hids, hsorted⟩ := h plans fun i => by rw [hnow]
    obtain ⟨rows, hpages, hfindings⟩ := listing.pages_eq plans db limit n
    rw [funext hfound] at hfindings
    rw [hpages, List.map_map] at hids
    rw [hpages, List.pairwise_map] at hsorted
    have hids : ((OffsetPages.pages listing.query.le order limit n).map VarianceFinding.id).Perm
        ((listing.matching now db).map VarianceFinding.id) := by
      rw [← hfindings, List.map_map]
      exact hids
    have hkeys : ((listing.matching now db).map VarianceFinding.id).Nodup :=
      db.varianceFindings.unique.sublist (List.filter_sublist.map _)
    have hmatching : ∀ finding ∈ OffsetPages.pages listing.query.le order limit n, finding ∈ listing.matching now db := by
      intro finding hmem
      obtain ⟨i, -, hpage⟩ := List.mem_flatMap.mp hmem
      have hrow := (List.perm_insertionSort _ _).mem_iff.mp (List.mem_of_mem_drop (List.mem_of_mem_take hpage))
      exact (horder i).mem_iff.mp hrow
    refine ⟨(List.perm_ext_iff_of_nodup (List.Nodup.of_map _ (hids.nodup_iff.mpr hkeys)) (List.Nodup.of_map _ hkeys)).mpr
      fun finding => ⟨hmatching finding, fun hfinding => ?_⟩, ?_⟩
    · obtain ⟨shown, hshown, hid⟩ := List.mem_map.mp (hids.mem_iff.mpr (List.mem_map_of_mem hfinding))
      have hsame := KeyedTable.eq_of_key (List.mem_filter.mp (hmatching shown hshown)).1 (List.mem_filter.mp hfinding).1 hid
      exact hsame ▸ hshown
    · rw [← hfindings, List.pairwise_map]
      exact hsorted
  · intro h plans hfixed
    obtain ⟨rows, hpages, hfindings⟩ := listing.pages_eq plans db limit n
    obtain ⟨hperm, hsorted⟩ := h (fun i => listing.found (plans i) db) fun i => hfixed i ▸ listing.found_perm (plans i) db
    rw [← hfindings] at hperm hsorted
    constructor
    · have hids := hperm.map VarianceFinding.id
      rw [List.map_map] at hids
      rw [hpages, List.map_map]
      exact hids
    · rw [hpages, List.pairwise_map]
      exact List.pairwise_map.mp hsorted

end

/-- The pages of a listing show each matching finding once, in the order that is asked for, if and only if the
matching findings that tie stand on one page. -/
theorem listedOnce_iff (listing : Listing) (now : ℤ) (db : FindingsDb) {limit n : ℕ} (hlimit : 1 ≤ limit)
    (hn : (listing.matching now db).length ≤ n * limit) :
    ListedOnce listing now db limit n ↔ TiesOnOnePage listing now db limit := by
  have hnodup : (listing.matching now db).Nodup := (List.Nodup.of_map _ db.varianceFindings.unique).filter _
  rw [listedOnce_iff_showsEachOnce]
  exact OffsetPages.showsEachOnce_iff hnodup hlimit hn

/-! ## Findings of one run -/

/-- A finding without an amount, written at this time. -/
def findingAt (id : ℕ) (createdAt : ℤ) : VarianceFinding := ⟨id, 1, 1, none, none, none, none, .open, createdAt, none⟩

/-- Findings of one account's run. -/
def runDb (findings : List VarianceFinding) (hkeys : (findings.map VarianceFinding.id).Nodup)
    (hruns : ∀ f ∈ findings, f.auditRunId = 1) : FindingsDb where
  varianceFindings := ⟨findings, hkeys⟩
  chargeFacts := .empty
  auditRuns := ⟨[⟨1, 1⟩], List.nodup_singleton _⟩
  invoices := ⟨[⟨1, some "INV-1", none⟩], List.nodup_singleton _⟩
  carriers := .empty
  expectedCharges := []
  criterionVersions := []
  auditRunKept := fun f hf => by
    rw [hruns f hf]
    rfl
  chargeInvoiceKept := fun c hc => absurd hc List.not_mem_nil
  runInvoiceKept := fun r hr => by
    rw [List.mem_singleton.mp hr]
    rfl

/-- The newest first. -/
def newestFirst : Listing := .account 1 ⟨none, none, none, none, none, none, none⟩

/-- Two times, two findings each. -/
def twoTimes : FindingsDb :=
  runDb [findingAt 1 10, findingAt 2 10, findingAt 3 20, findingAt 4 20] (by decide) (by decide)

/-- Three findings of one time. -/
def oneTime : FindingsDb := runDb [findingAt 1 10, findingAt 2 10, findingAt 3 10] (by decide) (by decide)

/-- Where a page ends between two times, both are shown once. -/
theorem twoTimes_listedOnce : ListedOnce newestFirst 30 twoTimes 2 2 :=
  (listedOnce_iff newestFirst 30 twoTimes (by decide) (by decide)).mpr (by decide)

/-- Two pages of three findings of one time can show one of them twice, and miss another. -/
theorem oneTime_not_listedOnce : ¬ ListedOnce newestFirst 30 oneTime 2 2 := by
  rw [listedOnce_iff_showsEachOnce, OffsetPages.showsEachOnce_iff (by decide) (by decide) (by decide)]
  exact not_forall.mpr ⟨findingAt 1 10, by decide⟩

end Findings
