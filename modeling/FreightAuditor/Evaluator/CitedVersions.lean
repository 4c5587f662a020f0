import FreightAuditor.Evaluator.Citations
import FreightAuditor.Library.DecimalRef

/- Whether the version that a finding cites is the one that judged it.

   `Dated` is the invariant: versions have ids of their own, nothing was recorded after the
   clock, and a successor was recorded after the version it comes from. So the version of a
   rule that was recorded last has no successor, and what a citation can be wrong about is its
   state and its definition. -/
namespace Citations

open DecimalJs Evaluator ExceptOk Ingestion JsText RubricResolver RuleEngine

/-! ## Versions and their successors -/

structure Dated (s : RuleStore) : Prop where
  ids : ∀ v ∈ s.versions, v.id < s.generated
  unique : ∀ v ∈ s.versions, ∀ w ∈ s.versions, v.id = w.id → v = w
  recorded : ∀ v ∈ s.versions, v.recordedAt ≤ s.clock
  successor : ∀ w ∈ s.versions, ∀ p, w.predecessorRuleVersionId = some p →
    ∃ v ∈ s.versions, v.id = p ∧ v.ruleId = w.ruleId ∧ v.recordedAt < w.recordedAt

theorem dated_empty (start : ℤ) : Dated (RuleStore.empty start) where
  ids := fun _ h => absurd h List.not_mem_nil
  unique := fun _ h => absurd h List.not_mem_nil
  recorded := fun _ h => absurd h List.not_mem_nil
  successor := fun _ h => absurd h List.not_mem_nil

section

variable {s s' : RuleStore} {now : ℤ}

/-- A row recorded after the clock, under the next id. -/
theorem Dated.append (h : Dated s) (hnow : s.clock < now) {row : RuleVersion} (hversions : s'.versions = s.versions ++ [row])
    (hgenerated : s'.generated = s.generated + 1) (hclock : s'.clock = now) (hid : row.id = s.generated)
    (hrecorded : row.recordedAt = now)
    (hsuccessor : ∀ p, row.predecessorRuleVersionId = some p → ∃ v ∈ s.versions, v.id = p ∧ v.ruleId = row.ruleId) :
    Dated s' where
  ids := by
    intro v hv
    rw [hversions, List.mem_append, List.mem_singleton] at hv
    rw [hgenerated]
    rcases hv with hv | rfl
    · exact (h.ids v hv).trans (Nat.lt_succ_self _)
    · rw [hid]
      exact Nat.lt_succ_self _
  unique := by
    intro v hv w hw hvw
    rw [hversions, List.mem_append, List.mem_singleton] at hv hw
    rcases hv with hv | rfl <;> rcases hw with hw | rfl
    · exact h.unique v hv w hw hvw
    · exact absurd (hvw.trans hid) (h.ids v hv).ne
    · exact absurd (hvw.symm.trans hid) (h.ids w hw).ne
    · rfl
  recorded := by
    intro v hv
    rw [hversions, List.mem_append, List.mem_singleton] at hv
    rw [hclock]
    rcases hv with hv | rfl
    · exact (h.recorded v hv).trans hnow.le
    · exact hrecorded.le
  successor := by
    intro w hw p hp
    rw [hversions] at hw ⊢
    rcases List.mem_append.mp hw with hw | hw
    · obtain ⟨v, hv, hrest⟩ := h.successor w hw p hp
      exact ⟨v, List.mem_append_left _ hv, hrest⟩
    · obtain rfl := List.mem_singleton.mp hw
      obtain ⟨v, hv, hvp, hrule⟩ := hsuccessor p hp
      exact ⟨v, List.mem_append_left _ hv, hvp, hrule, hrecorded ▸ (h.recorded v hv).trans_lt hnow⟩

/-- Time passes. -/
theorem Dated.wait (h : Dated s) (hnow : s.clock < now) (hversions : s'.versions = s.versions)
    (hgenerated : s'.generated = s.generated) (hclock : s'.clock = now) : Dated s' where
  ids := by rw [hversions, hgenerated]; exact h.ids
  unique := by rw [hversions]; exact h.unique
  recorded := by
    rw [hversions, hclock]
    exact fun v hv => (h.recorded v hv).trans hnow.le
  successor := by rw [hversions]; exact h.successor

theorem Dated.transition (h : Dated s) (hnow : s.clock < now) {input : TransitionInput} {nextId : ℕ} {created : Bool}
    (hs' : transitionRuleLifecycle id now s input = .ok (s', nextId, created)) : Dated { s' with clock := now } := by
  obtain ⟨current, hcurrent⟩ := transition_cases hs'
  rcases hcurrent.versions with ⟨hversions, hgenerated, -⟩ | ⟨hversions, hgenerated, hid, -⟩
  · exact h.wait hnow hversions hgenerated rfl
  · refine h.append hnow hversions hgenerated rfl hid rfl fun p hp => ?_
    obtain rfl := Option.some.inj hp
    exact ⟨current, hcurrent.found.1, hcurrent.found.2, rfl⟩

end

section

variable {D : Type} [Decimal D] {unicode : Unicode} {sha256 : String → String} {currentDate : ℤ → ℤ} {db db' : CitationDb}

theorem insertCriterionVersion_store (criterionId : ℕ) (description : String) :
    (insertCriterionVersion criterionId description db).store = db.store := by
  unfold insertCriterionVersion
  split <;> rfl

theorem insertSeededVersion_dated (h : Dated db.store) (wait ruleId : ℕ) (c : StandardCriterion) :
    Dated (insertSeededVersion sha256 currentDate (db.store.clock + 1 + wait) ruleId c db).store := by
  have hnow : db.store.clock < db.store.clock + 1 + wait := by omega
  unfold insertSeededVersion
  split
  · exact h
  · exact h.append hnow rfl rfl rfl rfl rfl fun p hp => (by cases hp)

variable (unicode sha256 currentDate) in
/-- Whether it throws or not. -/
theorem seedCriterion_dated (h : Dated db.store) (timed : StandardCriterion × ℕ) :
    (∀ db', seedCriterion unicode sha256 currentDate db timed = .ok db' → Dated db'.store) ∧
      ∀ db', seedCriterion unicode sha256 currentDate db timed = .error db' → Dated db'.store := by
  have hstore := fun db : CitationDb => @insertCriterionVersion_store db
  simp only [seedCriterion]
  split
  · refine ⟨fun db' hdb' => (by cases hdb'), fun db' hdb' => ?_⟩
    cases hdb'
    rw [hstore]
    exact h
  · refine ⟨fun db' hdb' => ?_, fun db' hdb' => (by cases hdb')⟩
    cases hdb'
    refine insertSeededVersion_dated ?_ _ _ _
    dsimp only
    rw [hstore]
    exact h

theorem seedCriteria_dated (h : Dated db.store) (standardRubric contractRubric : ComposedRubric) (waits : List ℕ) :
    Dated (seedCriteria unicode sha256 currentDate standardRubric contractRubric waits db).store := by
  have hfold : ∀ (timed : List (StandardCriterion × ℕ)) (db : CitationDb), Dated db.store →
      (∀ db', timed.foldlM (seedCriterion unicode sha256 currentDate) db = .ok db' → Dated db'.store) ∧
        ∀ db', timed.foldlM (seedCriterion unicode sha256 currentDate) db = .error db' → Dated db'.store := by
    intro timed
    induction timed with
    | nil =>
      intro db hdb
      refine ⟨fun db' hdb' => ?_, fun db' hdb' => (by cases hdb')⟩
      cases hdb'
      exact hdb
    | cons c rest ih =>
      intro db hdb
      rw [List.foldlM_cons]
      obtain ⟨hok, herror⟩ := seedCriterion_dated unicode sha256 currentDate hdb c
      cases hseed : seedCriterion unicode sha256 currentDate db c with
      | ok mid => exact ih mid (hok mid hseed)
      | error left =>
        refine ⟨fun db' hdb' => (by cases hdb'), fun db' hdb' => ?_⟩
        cases hdb'
        exact herror left hseed
  unfold seedCriteria
  dsimp only
  split
  · rename_i hdb'
    exact (hfold _ _ h).1 _ hdb'
  · rename_i hdb'
    exact (hfold _ _ h).2 _ hdb'

/-! ## What a run stores -/

theorem latestVersion_mem {ruleSlug : String} {v : RuleVersion} (h : latestVersion db ruleSlug = some v) :
    v ∈ db.store.versions ∧ ∀ w ∈ db.store.versions, w.ruleId = v.ruleId → w.recordedAt ≤ v.recordedAt := by
  obtain ⟨rule, -, hmax⟩ := Option.bind_eq_some_iff.mp h
  obtain ⟨hmem, hrule⟩ := List.mem_filter.mp (List.argmax_mem hmax)
  refine ⟨hmem, fun w hw hsame => List.le_of_mem_argmax (List.mem_filter.mpr ⟨hw, ?_⟩) hmax⟩
  rw [hsame]
  exact hrule

/-- The version recorded last has no successor. -/
theorem latestVersion_noSuccessor (hdb : Dated db.store) {ruleSlug : String} {v : RuleVersion}
    (h : latestVersion db ruleSlug = some v) : ∀ w ∈ db.store.versions, w.predecessorRuleVersionId ≠ some v.id := by
  intro w hw hp
  obtain ⟨hv, hlast⟩ := latestVersion_mem h
  obtain ⟨u, hu, huid, hrule, hbefore⟩ := hdb.successor w hw v.id hp
  obtain rfl := hdb.unique u hu v hv huid
  exact absurd (hlast w hw hrule.symm) (not_le_of_gt hbefore)

theorem findingRow_ok {criterionKey : String} {ev : EvalNode} {table : FindingTable} {row : FindingRow}
    (h : findingRow unicode db criterionKey ev table = .ok row) :
    row.criterionKey = criterionKey ∧ row.evaluatedExpr = ev ∧ row.table = table ∧
      ∃ v, latestVersion db (ruleSlug unicode criterionKey) = some v ∧ row.ruleVersionId = v.id := by
  unfold findingRow at h
  split at h
  · cases h
  · rename_i resolved hresolved
    obtain rfl := pure_eq_ok.mp h
    obtain ⟨criterion, -, hresolved⟩ := Option.bind_eq_some_iff.mp hresolved
    obtain ⟨v, hv, hresolved⟩ := Option.bind_eq_some_iff.mp hresolved
    cases hresolved
    exact ⟨rfl, rfl, rfl, v, hv, rfl⟩

/-- The keys that a result's items are cited for. -/
def citedKeys (result : AuditResult) : List String :=
  result.gateFailures.map GateFailure.criterionKey ++ result.findings.map ChargeFinding.criterionKey

/-- What a persisted run has stored. -/
structure Persisted (unicode : Unicode) (db : CitationDb) (result : AuditResult) (run : PersistedRun) : Prop where
  row : ∀ row ∈ run.rows, row.criterionKey ∈ citedKeys result ∧
    (∃ v, latestVersion db (ruleSlug unicode row.criterionKey) = some v ∧ row.ruleVersionId = v.id) ∧
    ((∃ g ∈ result.gateFailures, g.criterionKey = row.criterionKey ∧ g.evaluatedExpr = row.evaluatedExpr) ∨
      ∃ f ∈ result.findings, f.criterionKey = row.criterionKey ∧ f.evaluatedExpr = row.evaluatedExpr)
  cited : ∀ key ∈ citedKeys result, ∃ row ∈ run.rows, row.criterionKey = key
  pins : run.ruleVersions = rulePins db (run.rows.map FindingRow.ruleVersionId)

theorem persistAuditRun_ok {result : AuditResult} (h : persistAuditRun unicode db result = .ok db') :
    ∃ run, db' = { db with runs := db.runs ++ [run] } ∧ Persisted unicode db result run := by
  simp only [persistAuditRun, bind_eq_ok] at h
  obtain ⟨gates, hgates, charges, hcharges, variances, hvariances, h⟩ := h
  obtain rfl := pure_eq_ok.mp h
  refine ⟨_, rfl, ?_, ?_, rfl⟩
  · have hfinding : ∀ row, (∃ f ∈ result.findings, ∃ table, findingRow unicode db f.criterionKey f.evaluatedExpr table = .ok row) →
        row.criterionKey ∈ citedKeys result ∧
          (∃ v, latestVersion db (ruleSlug unicode row.criterionKey) = some v ∧ row.ruleVersionId = v.id) ∧
          ((∃ g ∈ result.gateFailures, g.criterionKey = row.criterionKey ∧ g.evaluatedExpr = row.evaluatedExpr) ∨
            ∃ f ∈ result.findings, f.criterionKey = row.criterionKey ∧ f.evaluatedExpr = row.evaluatedExpr) := by
      rintro row ⟨f, hf, table, hrow⟩
      obtain ⟨hkey, hev, -, hv⟩ := findingRow_ok hrow
      rw [hkey]
      exact ⟨List.mem_append_right _ (List.mem_map_of_mem hf), hv, .inr ⟨f, hf, rfl, hev.symm⟩⟩
    intro row hrow
    rw [List.mem_append, List.mem_append] at hrow
    rcases hrow with (hrow | hrow) | hrow
    · obtain ⟨g, hg, hrow⟩ := (mem_mapM hgates).mp hrow
      obtain ⟨hkey, hev, -, hv⟩ := findingRow_ok hrow
      rw [hkey]
      exact ⟨List.mem_append_left _ (List.mem_map_of_mem hg), hv, .inl ⟨g, hg, rfl, hev.symm⟩⟩
    · obtain ⟨f, hf, hrow⟩ := (mem_mapM hcharges).mp hrow
      exact hfinding row ⟨f, hf, _, hrow⟩
    · obtain ⟨f, hf, hrow⟩ := (mem_mapM hvariances).mp hrow
      exact hfinding row ⟨f, (List.mem_filter.mp hf).1, _, hrow⟩
  · intro key hkey
    rcases List.mem_append.mp hkey with hkey | hkey
    · obtain ⟨g, hg, rfl⟩ := List.mem_map.mp hkey
      obtain ⟨row, hrow, hg⟩ := exists_of_mapM hgates hg
      exact ⟨row, List.mem_append_left _ (List.mem_append_left _ hrow), (findingRow_ok hg).1⟩
    · obtain ⟨f, hf, rfl⟩ := List.mem_map.mp hkey
      obtain ⟨row, hrow, hf⟩ := exists_of_mapM hcharges hf
      exact ⟨row, List.mem_append_left _ (List.mem_append_right _ hrow), (findingRow_ok hf).1⟩

theorem mem_rulePins {ids : List ℕ} {pin : ℕ × String} :
    pin ∈ rulePins db ids ↔ ∃ v ∈ db.store.versions, v.id ∈ ids ∧ pin = (v.id, v.astHash) := by
  rw [rulePins, List.mem_map]
  constructor
  · rintro ⟨v, hv, rfl⟩
    rw [List.mem_insertionSort, List.mem_filter, decide_eq_true_iff] at hv
    exact ⟨v, hv.1, hv.2, rfl⟩
  · rintro ⟨v, hv, hid, rfl⟩
    refine ⟨v, ?_, rfl⟩
    rw [List.mem_insertionSort, List.mem_filter, decide_eq_true_iff]
    exact ⟨hv, hid⟩

end

/-! ## Citing the judge -/

section

variable (D : Type) [Decimal D] (unicode : Unicode) (sha256 : String → String) (currentDate : ℤ → ℤ)

/-- The version has the definition that the run evaluated for the key. -/
def HasDefinition (rubric : ComposedRubric) (criterionKey : String) (v : RuleVersion) : Prop :=
  ∀ c ∈ rubric.criteria, c.criterionKey = criterionKey → v.astHash = astHash sha256 c.ast

/-- The row cites a version in force with the definition that judged it. -/
def RowCitesTheJudge (db : CitationDb) (rubric : ComposedRubric) (facts : FactBundle) (row : FindingRow) : Prop :=
  JudgedBy D facts rubric row.criterionKey row.evaluatedExpr ∧
    ∃ v ∈ db.store.versions, v.id = row.ruleVersionId ∧ HasDefinition sha256 rubric row.criterionKey v ∧
      v.lifecycleState = .ACTIVE ∧
      ∀ w ∈ db.store.versions, w.predecessorRuleVersionId = some v.id → w.lifecycleState.retired = false

/-- Every row that a run writes cites its judge, and the versions of the manifest are those that the rows cite. -/
def CitesTheJudge (db : CitationDb) : CitationEvent → Prop
  | .audit rubric invoice contract => ∀ db', auditInvoice D unicode sha256 db rubric invoice contract = .ok db' →
      ∃ run facts, db'.runs = db.runs ++ [run] ∧ buildFactBundle D unicode invoice contract = .ok facts ∧
        (∀ row ∈ run.rows, RowCitesTheJudge D sha256 db rubric facts row) ∧
        ∀ pin, pin ∈ run.ruleVersions ↔
          ∃ row ∈ run.rows, ∃ v ∈ db.store.versions, v.id = row.ruleVersionId ∧ pin = (v.id, v.astHash)
  | _ => True

/-- The version recorded last, of the rule of every criterion that a run cites, is ACTIVE and has the definition that
the run evaluated. -/
def LatestIsTheJudge (db : CitationDb) : CitationEvent → Prop
  | .audit rubric invoice contract => ∀ result ∈ (evaluateInvoice D unicode sha256 invoice rubric contract).toOption,
      ∀ key ∈ citedKeys result, ∀ v ∈ latestVersion db (ruleSlug unicode key),
        v.lifecycleState = .ACTIVE ∧ HasDefinition sha256 rubric key v
  | _ => True

instance (rubric : ComposedRubric) (criterionKey : String) (v : RuleVersion) :
    Decidable (HasDefinition sha256 rubric criterionKey v) :=
  inferInstanceAs (Decidable (∀ c ∈ rubric.criteria, c.criterionKey = criterionKey → v.astHash = astHash sha256 c.ast))

instance instDecidableLatestIsTheJudge (db : CitationDb) : ∀ e, Decidable (LatestIsTheJudge D unicode sha256 db e)
  | .seed _ _ _ => .isTrue trivial
  | .transition _ _ => .isTrue trivial
  | .audit rubric invoice contract =>
    inferInstanceAs (Decidable (∀ result ∈ (evaluateInvoice D unicode sha256 invoice rubric contract).toOption,
      ∀ key ∈ citedKeys result, ∀ v ∈ latestVersion db (ruleSlug unicode key),
        v.lifecycleState = .ACTIVE ∧ HasDefinition sha256 rubric key v))

variable {D unicode sha256 currentDate} {db db' : CitationDb}

theorem citationStep_dated (h : Dated db.store) {e : CitationEvent}
    (hs : citationStep D unicode sha256 currentDate db e = some db') : Dated db'.store := by
  cases e with
  | seed standardRubric contractRubric waits =>
    cases hs
    exact seedCriteria_dated h _ _ _
  | transition wait input =>
    obtain ⟨⟨s', nextId, created⟩, hout, rfl⟩ := Option.map_eq_some_iff.mp hs
    have hnow : db.store.clock < db.store.clock + 1 + wait := by omega
    cases htransition : transitionRuleLifecycle id (db.store.clock + 1 + wait) db.store input with
    | error e =>
      rw [htransition] at hout
      cases hout
    | ok out =>
      rw [htransition] at hout
      cases hout
      exact h.transition hnow htransition
  | audit rubric invoice contract =>
    simp only [citationStep] at hs
    cases haudit : auditInvoice D unicode sha256 db rubric invoice contract with
    | error e =>
      rw [haudit] at hs
      cases hs
    | ok after =>
      rw [haudit] at hs
      cases hs
      obtain ⟨result, -, hpersist⟩ := bind_eq_ok.mp haudit
      obtain ⟨run, rfl, -⟩ := persistAuditRun_ok hpersist
      exact h

theorem auditInvoice_ok {rubric : ComposedRubric} {invoice : ParsedInvoice} {contract : Option ContractFacts}
    (h : auditInvoice D unicode sha256 db rubric invoice contract = .ok db') :
    ∃ result, evaluateInvoice D unicode sha256 invoice rubric contract = .ok result ∧
      persistAuditRun unicode db result = .ok db' := by
  obtain ⟨result, hevaluate, hpersist⟩ := bind_eq_ok.mp h
  cases heval : evaluateInvoice D unicode sha256 invoice rubric contract with
  | error e =>
    rw [heval] at hevaluate
    cases hevaluate
  | ok evaluated =>
    rw [heval] at hevaluate
    obtain rfl := Except.ok.inj hevaluate
    exact ⟨evaluated, rfl, hpersist⟩

variable (sha256) in
theorem rowCitesTheJudge_iff (h : Dated db.store) {result : AuditResult} {run : PersistedRun} {facts : FactBundle}
    {rubric : ComposedRubric} (hrun : Persisted unicode db result run)
    (hgates : ∀ g ∈ result.gateFailures, JudgedBy D facts rubric g.criterionKey g.evaluatedExpr)
    (hfindings : ∀ f ∈ result.findings, JudgedBy D facts rubric f.criterionKey f.evaluatedExpr) :
    (∀ row ∈ run.rows, RowCitesTheJudge D sha256 db rubric facts row) ↔
      ∀ key ∈ citedKeys result, ∀ v ∈ latestVersion db (ruleSlug unicode key),
        v.lifecycleState = .ACTIVE ∧ HasDefinition sha256 rubric key v := by
  constructor
  · intro hrows key hkey v hv
    obtain ⟨row, hrow, rfl⟩ := hrun.cited key hkey
    obtain ⟨-, w, hw, hid, hdefinition, hactive, -⟩ := hrows row hrow
    obtain ⟨-, ⟨u, hu, hcited⟩, -⟩ := hrun.row row hrow
    obtain rfl := Option.some.inj (hu.symm.trans hv)
    obtain rfl := h.unique w hw u (latestVersion_mem hu).1 (hid.trans hcited)
    exact ⟨hactive, hdefinition⟩
  · intro hlatest row hrow
    obtain ⟨hkey, ⟨v, hv, hcited⟩, hitem⟩ := hrun.row row hrow
    obtain ⟨hactive, hdefinition⟩ := hlatest row.criterionKey hkey v hv
    have hjudged : JudgedBy D facts rubric row.criterionKey row.evaluatedExpr := by
      rcases hitem with ⟨g, hg, hgkey, hgev⟩ | ⟨f, hf, hfkey, hfev⟩
      · exact hgkey ▸ hgev ▸ hgates g hg
      · exact hfkey ▸ hfev ▸ hfindings f hf
    refine ⟨hjudged, v, (latestVersion_mem hv).1, hcited.symm, hdefinition, hactive, fun w hw hp => ?_⟩
    exact absurd hp (latestVersion_noSuccessor h hv w hw)

theorem citesTheJudge_step (h : Dated db.store) {e : CitationEvent}
    (hs : citationStep D unicode sha256 currentDate db e = some db') :
    CitesTheJudge D unicode sha256 db e ↔ LatestIsTheJudge D unicode sha256 db e := by
  cases e with
  | seed standardRubric contractRubric waits => rfl
  | transition wait input => rfl
  | audit rubric invoice contract =>
    have haudit : auditInvoice D unicode sha256 db rubric invoice contract = .ok db' := by
      simp only [citationStep] at hs
      cases haudit : auditInvoice D unicode sha256 db rubric invoice contract with
      | error e =>
        rw [haudit] at hs
        cases hs
      | ok after =>
        rw [haudit] at hs
        rw [Option.some.inj hs]
    obtain ⟨result, hevaluate, hpersist⟩ := auditInvoice_ok haudit
    obtain ⟨run, hdb', hrun⟩ := persistAuditRun_ok hpersist
    obtain ⟨facts, hfacts, hgates, hfindings⟩ := evaluateInvoice_judged hevaluate
    have hiff := rowCitesTheJudge_iff sha256 h hrun hgates hfindings
    constructor
    · intro hcites result' hresult'
      rw [hevaluate] at hresult'
      obtain rfl := Option.some.inj hresult'
      obtain ⟨run', facts', hruns, hfacts', hrows, -⟩ := hcites db' haudit
      rw [hdb'] at hruns
      obtain rfl : run = run' := (List.append_cancel_left hruns |> List.cons.inj).1
      obtain rfl := Except.ok.inj (hfacts.symm.trans hfacts')
      exact hiff.mp hrows
    · intro hlatest after hafter
      obtain rfl := Except.ok.inj (haudit.symm.trans hafter)
      refine ⟨run, facts, by rw [hdb'], hfacts, hiff.mpr (hlatest result (by rw [hevaluate]; rfl)), fun pin => ?_⟩
      rw [hrun.pins, mem_rulePins]
      constructor
      · rintro ⟨v, hv, hid, rfl⟩
        obtain ⟨row, hrow, hrowId⟩ := List.mem_map.mp hid
        exact ⟨row, hrow, v, hv, hrowId.symm, rfl⟩
      · rintro ⟨row, hrow, v, hv, hid, rfl⟩
        exact ⟨v, hv, List.mem_map.mpr ⟨row, hrow, hid.symm⟩, rfl⟩

variable (D unicode sha256 currentDate)

/-- Along a history of seedings, transitions and runs, every finding cites the version that judged it exactly if, at
every run, the versions recorded last for the criteria that it cites are ACTIVE and have the definitions that it
evaluated. -/
theorem citesTheJudge_iff (start : ℤ) (events : List CitationEvent) :
    Runs.AllSteps (citationStep D unicode sha256 currentDate) (CitesTheJudge D unicode sha256) (.initial start) events ↔
      Runs.AllSteps (citationStep D unicode sha256 currentDate) (LatestIsTheJudge D unicode sha256) (.initial start) events :=
  Runs.allSteps_iff (fun db => Dated db.store) (fun _ _ _ h hs => citationStep_dated h hs)
    (fun _ _ _ h hs => citesTheJudge_step h hs) events _ (dated_empty start)

end

/-- A rubric of one gate, which has this value. -/
def constantRubric (passes : Bool) : ComposedRubric :=
  ⟨"1", [⟨"STD.HAS_CHARGES", .GATING, "The invoice has charges.", 1, .lit (.boolean passes), none⟩]⟩

def emptyInvoice : ParsedInvoice := ⟨.edi210, "210/1", some "INV-7", none, none, none, none, none, none, [], none, []⟩

/-- One definition is seeded, then another, then the first again; and a run evaluates that. -/
def seededAgain : List CitationEvent :=
  [.seed (constantRubric false) (constantRubric false) [], .seed (constantRubric true) (constantRubric true) [],
    .seed (constantRubric false) (constantRubric false) [], .audit (constantRubric false) emptyInvoice none]

/-- The finding cites the second definition, and the first judged it. -/
theorem seededAgain_citesTheOther :
    ¬ Runs.AllSteps (citationStep Ref .ascii id id) (CitesTheJudge Ref .ascii id) (.initial 0) seededAgain := by
  intro h
  have hlatest := (Runs.allSteps_iff (fun db => Dated db.store) (fun _ _ _ h hs => citationStep_dated h hs)
    (fun _ _ _ h hs => citesTheJudge_step h hs) seededAgain (.initial 0) (dated_empty 0)).mp h
  exact absurd hlatest (by decide +kernel)

end Citations
