import FreightAuditor.Contracts.Backtests
import FreightAuditor.Library.DecimalRef
import FreightAuditor.Library.InsertMissing
import FreightAuditor.Library.StableSort

/- Backtests of global rules.

   A corpus of cases is run against a rule version in the order of the cases' ids, and its evidence is
   stored once under its hash. Both hold with an exception each (`canonical_iff`): ids that the collation
   of `localeCompare` holds equal keep the order they came in, and a unique index takes no two absent
   tenants for the same. -/
namespace GoldenCorpus

open DecimalJs ExceptOk JsText
open Contracts (factJson factsJson hash verdictText)
open RuleEngine (AstNode FactValue Verdict evaluate verdict)

structure GoldenCorpusCase (Input Expected : Type) where
  id : String
  input : Input
  expected : Expected

structure GoldenCaseResult where
  id : String
  passed : Bool
  inputHash : String
  expectedHash : String
  actualHash : String
  actual : Json.Value

structure GoldenCorpusResult where
  corpusHash : String
  passed : Bool
  passCount : ℕ
  regressionCount : ℕ
  cases : List GoldenCaseResult

inductive BacktestError where
  | caseIdRequired
  | duplicateCase (id : String)
  | decimal (error : DecimalError)
  | evidenceConflict
  | ruleVersionNotFound (id : ℕ)
  | regression (result : GoldenCorpusResult)
  /-- A statement the database refuses. -/
  | database (constraint : String)

/-! ## The runner -/

section

variable {Input Expected : Type} (unicode : Unicode) (sha256 : String → ℕ) (inputJson : Input → Json.Value)
  (expectedJson : Expected → Json.Value)

/-- Every id is there, and none twice. -/
def checkIds (seen : List String) : List String → Except BacktestError PUnit
  | [] => return ⟨⟩
  | id :: rest =>
    if trim id = "" then throw .caseIdRequired
    else if id ∈ seen then throw (.duplicateCase id)
    else checkIds (id :: seen) rest

def runCase (run : Input → Except BacktestError Expected) (item : GoldenCorpusCase Input Expected) :
    Except BacktestError GoldenCaseResult := do
  let actual ← run item.input
  let expectedHash := hash sha256 (expectedJson item.expected)
  let actualHash := hash sha256 (expectedJson actual)
  return ⟨item.id, expectedHash == actualHash, hash sha256 (inputJson item.input), expectedHash, actualHash,
    expectedJson actual⟩

def corpusJson (ordered : List (GoldenCorpusCase Input Expected)) : Json.Value :=
  .arr (ordered.map fun c => .obj [("id", .str c.id), ("inputHash", .str (hash sha256 (inputJson c.input))),
    ("expectedHash", .str (hash sha256 (expectedJson c.expected)))])

def runGoldenCorpus (cases : List (GoldenCorpusCase Input Expected)) (run : Input → Except BacktestError Expected) :
    Except BacktestError GoldenCorpusResult := do
  checkIds [] (cases.map GoldenCorpusCase.id)
  let ordered := StableSort.sort (fun a b => unicode.localeCompare a.id b.id) cases
  let results ← ordered.mapM (runCase sha256 inputJson expectedJson run)
  let regressionCount := (results.filter (!·.passed)).length
  return ⟨hash sha256 (corpusJson sha256 inputJson expectedJson ordered), regressionCount == 0,
    results.length - regressionCount, regressionCount, results⟩

end

/-- The facts of a case, with no key twice. -/
structure Facts where
  fields : List (String × FactValue)
  distinct : (fields.map Prod.fst).Nodup

abbrev ActivationCorpusCase := GoldenCorpusCase Facts Verdict

section

variable (D : Type) [Decimal D] (unicode : Unicode) (sha256 : String → ℕ)

/-- The verdict of a rule on facts. -/
def verdictOn (ast : AstNode) (facts : Facts) : Except BacktestError Verdict := do
  let ev ← (evaluate D (fun key => facts.fields.lookup key) ast).mapError .decimal
  return verdict ev

/-- The corpus of an activation, run against the rule version's tree. -/
def runActivationCorpus (ast : AstNode) (cases : List ActivationCorpusCase) : Except BacktestError GoldenCorpusResult :=
  runGoldenCorpus unicode sha256 (fun facts => factsJson facts.fields) (fun v => .str (verdictText v)) cases
    (verdictOn D ast)

end

/-! ## The tables -/

structure RuleBacktest where
  id : ℕ
  accountId : Option ℕ
  ruleVersionId : ℕ
  corpusHash : String
  passed : Bool
  passCount : ℕ
  regressionCount : ℕ

structure RuleBacktestCase where
  accountId : Option ℕ
  backtestId : ℕ
  caseKey : String
  passed : Bool
  inputHash : String
  expectedHash : String
  actualHash : String
  actual : Json.Value

def RuleBacktestCase.key (c : RuleBacktestCase) : ℕ × String := (c.backtestId, c.caseKey)

structure Db where
  accounts : List ℕ
  ruleVersions : List (ℕ × AstNode)
  backtests : KeyedTable RuleBacktest RuleBacktest.id
  cases : KeyedTable RuleBacktestCase RuleBacktestCase.key
  references : ∀ c ∈ cases.rows, ∃ b ∈ backtests.rows, b.id = c.backtestId

/-- `=` in SQL: unknown of an absent value. -/
def sqlEq (a b : Option ℕ) : Option Bool := do
  let x ← a
  let y ← b
  return x == y

/-- What the unique index and the fallback look for. -/
def sameCorpus (clientId : Option ℕ) (ruleVersionId : ℕ) (corpusHash : String) (row : RuleBacktest) : Bool :=
  sqlEq row.accountId clientId == some true && row.ruleVersionId == ruleVersionId && row.corpusHash == corpusHash

/-- An id that no row has. -/
def freshId (rows : List RuleBacktest) : ℕ := (rows.map RuleBacktest.id).sum + 1

theorem freshId_not_mem (rows : List RuleBacktest) : freshId rows ∉ rows.map RuleBacktest.id := by
  intro h
  have hle := List.single_le_sum (fun _ _ => Nat.zero_le _) _ h
  rw [freshId] at hle
  omega

def backtestRow (id : ℕ) (clientId : Option ℕ) (ruleVersionId : ℕ) (result : GoldenCorpusResult) : RuleBacktest :=
  ⟨id, clientId, ruleVersionId, result.corpusHash, result.passed, result.passCount, result.regressionCount⟩

def caseRow (clientId : Option ℕ) (backtestId : ℕ) (item : GoldenCaseResult) : RuleBacktestCase :=
  ⟨clientId, backtestId, item.id, item.passed, item.inputHash, item.expectedHash, item.actualHash, item.actual⟩

theorem backtestRow_unique (rows : List RuleBacktest) (hunique : (rows.map RuleBacktest.id).Nodup) (clientId : Option ℕ)
    (ruleVersionId : ℕ) (result : GoldenCorpusResult) :
    ((rows ++ [backtestRow (freshId rows) clientId ruleVersionId result]).map RuleBacktest.id).Nodup := by
  rw [List.map_append, List.map_singleton, List.nodup_append_comm]
  exact List.nodup_cons.mpr ⟨freshId_not_mem rows, hunique⟩

theorem references_append {rows : List RuleBacktest} {cases : List RuleBacktestCase} (row : RuleBacktest)
    (h : ∀ c ∈ cases, ∃ b ∈ rows, b.id = c.backtestId) : ∀ c ∈ cases, ∃ b ∈ rows ++ [row], b.id = c.backtestId := by
  intro c hc
  obtain ⟨b, hb, hid⟩ := h c hc
  exact ⟨b, List.mem_append_left _ hb, hid⟩

/-- The insert of a backtest that does not conflict. -/
def addBacktest (db : Db) (clientId : Option ℕ) (ruleVersionId : ℕ) (result : GoldenCorpusResult) : Db :=
  { db with
    backtests := ⟨db.backtests.rows ++ [backtestRow (freshId db.backtests.rows) clientId ruleVersionId result],
      backtestRow_unique _ db.backtests.unique clientId ruleVersionId result⟩
    references := references_append _ db.references }

theorem references_insert {db : Db} {row : RuleBacktestCase} {t : KeyedTable RuleBacktestCase RuleBacktestCase.key}
    (h : ∃ b ∈ db.backtests.rows, b.id = row.backtestId) (hrows : ∀ c ∈ t.rows, c ∈ db.cases.rows ∨ c = row) :
    ∀ c ∈ t.rows, ∃ b ∈ db.backtests.rows, b.id = c.backtestId := by
  intro c hc
  rcases hrows c hc with hold | rfl
  · exact db.references c hold
  · exact h

theorem mem_getD_insert {t : KeyedTable RuleBacktestCase RuleBacktestCase.key} {row c : RuleBacktestCase}
    (h : c ∈ ((t.insert row).getD t).rows) : c ∈ t.rows ∨ c = row := by
  cases hinsert : t.insert row with
  | none =>
    rw [hinsert] at h
    exact .inl h
  | some t' =>
    rw [hinsert, Option.getD_some, (KeyedTable.insert_eq_some hinsert).2, List.mem_append, List.mem_singleton] at h
    exact h

/-- A text cannot hold NUL. -/
def isText (s : String) : Bool := '\x00' ∉ s.toList

/-- The insert of a case, which does nothing where the backtest has one under the key. -/
def recordCase (clientId : Option ℕ) (backtestId : ℕ) (db : Db) (item : GoldenCaseResult) : Except BacktestError Db :=
  if ¬ isText item.id then throw (.database "invalid byte sequence for encoding UTF8: 0x00")
  else if h : ∃ b ∈ db.backtests.rows, b.id = backtestId then
    return { db with
      cases := (db.cases.insert (caseRow clientId backtestId item)).getD db.cases
      references := references_insert h fun _ hc => mem_getD_insert hc }
  else throw (.database "rule_backtest_case_backtest_id_fkey")

/-- The id of the evidence's row, and whether it is new. -/
def persistBacktest (clientId : Option ℕ) (ruleVersionId : ℕ) (result : GoldenCorpusResult) (db : Db) :
    Except BacktestError ((ℕ × Bool) × Db) := do
  if clientId.any (· ∉ db.accounts) then throw (.database "rule_backtest_account_id_fkey")
  if (db.ruleVersions.lookup ruleVersionId).isNone then throw (.database "rule_backtest_rule_version_id_fkey")
  if db.backtests.rows.any (sameCorpus clientId ruleVersionId result.corpusHash) then
    match db.backtests.rows.find? (sameCorpus clientId ruleVersionId result.corpusHash) with
    | none => throw .evidenceConflict
    | some row =>
      if row.passed ≠ result.passed ∨ row.passCount ≠ result.passCount ∨ row.regressionCount ≠ result.regressionCount then
        throw .evidenceConflict
      let db' ← result.cases.foldlM (recordCase clientId row.id) db
      return ((row.id, false), db')
  else
    let id := freshId db.backtests.rows
    let db' ← result.cases.foldlM (recordCase clientId id) (addBacktest db clientId ruleVersionId result)
    return ((id, true), db')

/-- A rule of all tenants is activated by a corpus that passes. -/
def runAndPersistRuleActivationBacktest (D : Type) [Decimal D] (unicode : Unicode) (sha256 : String → ℕ) (ruleVersionId : ℕ)
    (cases : List ActivationCorpusCase) (db : Db) : Except BacktestError ((ℕ × GoldenCorpusResult) × Db) := do
  match db.ruleVersions.lookup ruleVersionId with
  | none => throw (.ruleVersionNotFound ruleVersionId)
  | some ast =>
    let result ← runActivationCorpus D unicode sha256 ast cases
    if !result.passed then throw (.regression result)
    let (persisted, db') ← persistBacktest none ruleVersionId result db
    return ((persisted.1, result), db')

/-- Calls one after another. -/
def persistAll (clientId : Option ℕ) (ruleVersionId : ℕ) (result : GoldenCorpusResult) : ℕ → Db →
    Except BacktestError (List ℕ × Db)
  | 0, db => return ([], db)
  | n + 1, db => do
    let (call, db) ← persistBacktest clientId ruleVersionId result db
    let (ids, db) ← persistAll clientId ruleVersionId result n db
    return (call.1 :: ids, db)

/-! ## What is claimed -/

/-- The same case, its facts in some order. -/
def SameCase (c d : ActivationCorpusCase) : Prop :=
  d.id = c.id ∧ d.expected = c.expected ∧ d.input.fields.Perm c.input.fields

/-- The same cases in some order. -/
def Reordered (corpus corpus' : List ActivationCorpusCase) : Prop :=
  ∃ mid, mid.Perm corpus ∧ List.Forall₂ SameCase mid corpus'

/-- A tenant and a rule version that are there, without the evidence. -/
structure Unrecorded (clientId : Option ℕ) (ruleVersionId : ℕ) (corpusHash : String) (db : Db) : Prop where
  account : ∀ a ∈ clientId, a ∈ db.accounts
  ruleVersion : (db.ruleVersions.lookup ruleVersionId).isSome
  absent : ∀ b ∈ db.backtests.rows,
    ¬ (b.accountId = clientId ∧ b.ruleVersionId = ruleVersionId ∧ b.corpusHash = corpusHash)

/-- One row with a row for each case, whose id every call returns. -/
def RecordedOnce (clientId : Option ℕ) (ruleVersionId : ℕ) (result : GoldenCorpusResult) (db : Db) (ids : List ℕ) (db' : Db) :
    Prop :=
  ∃ id, (∀ i ∈ ids, i = id) ∧ db'.backtests.rows = db.backtests.rows ++ [backtestRow id clientId ruleVersionId result] ∧
    db'.cases.rows = db.cases.rows ++ result.cases.map (caseRow clientId id)

/-- However often it is called. -/
def PersistedOnce (clientId : Option ℕ) (ruleVersionId : ℕ) (result : GoldenCorpusResult) : Prop :=
  ∀ db, Unrecorded clientId ruleVersionId result.corpusHash db → ∀ n, ∃ ids db',
    persistAll clientId ruleVersionId result (n + 1) db = .ok (ids, db') ∧
      RecordedOnce clientId ruleVersionId result db ids db'

section

variable (D : Type) [Decimal D] (unicode : Unicode) (sha256 : String → ℕ) (ast : AstNode)

/-- The evidence of a corpus is one for all its orders, tells whether every verdict is the expected one, and
is recorded once. -/
def Canonical (clientId : Option ℕ) (ruleVersionId : ℕ) (corpus : List ActivationCorpusCase) : Prop :=
  ∃ result, (∀ corpus', Reordered corpus corpus' → runActivationCorpus D unicode sha256 ast corpus' = .ok result) ∧
    (result.passed = true ↔ ∀ c ∈ corpus, verdictOn D ast c.input = .ok c.expected) ∧
    PersistedOnce clientId ruleVersionId result

end

/-! ## The runner reads no order -/

section

variable {Input Expected : Type} {unicode : Unicode} {sha256 : String → ℕ} {inputJson : Input → Json.Value}
  {expectedJson : Expected → Json.Value} {run : Input → Except BacktestError Expected}
  {cases cases' : List (GoldenCorpusCase Input Expected)}

theorem checkIds_returns {ids : List String} {seen : List String} :
    Returns (checkIds seen ids) ↔ (∀ id ∈ ids, trim id ≠ "" ∧ id ∉ seen) ∧ ids.Nodup := by
  induction ids generalizing seen with
  | nil => exact iff_of_true returns_pure ⟨nofun, List.nodup_nil⟩
  | cons id rest ih =>
    rw [checkIds, List.nodup_cons]
    by_cases hblank : trim id = ""
    · rw [if_pos hblank]
      exact iff_of_false not_returns_throw fun h => (h.1 id List.mem_cons_self).1 hblank
    · rw [if_neg hblank]
      by_cases hseen : id ∈ seen
      · rw [if_pos hseen]
        exact iff_of_false not_returns_throw fun h => (h.1 id List.mem_cons_self).2 hseen
      · rw [if_neg hseen, ih, List.forall_mem_cons]
        constructor
        · rintro ⟨hrest, hnodup⟩
          refine ⟨⟨⟨hblank, hseen⟩, fun other hother => ?_⟩, fun hmem => (hrest id hmem).2 List.mem_cons_self, hnodup⟩
          obtain ⟨htext, hnew⟩ := hrest other hother
          exact ⟨htext, fun hmem => hnew (List.mem_cons_of_mem _ hmem)⟩
        · rintro ⟨⟨-, hrest⟩, hfirst, hnodup⟩
          refine ⟨fun other hother => ⟨(hrest other hother).1, fun hmem => ?_⟩, hnodup⟩
          rcases List.mem_cons.mp hmem with rfl | hmem
          · exact hfirst hother
          · exact (hrest other hother).2 hmem

/-- All that the runner reads of a case. -/
structure Outcome (Expected : Type) where
  id : String
  inputHash : String
  expectedHash : String
  actual : Except BacktestError Expected

def outcome (sha256 : String → ℕ) (inputJson : Input → Json.Value) (expectedJson : Expected → Json.Value)
    (run : Input → Except BacktestError Expected) (c : GoldenCorpusCase Input Expected) : Outcome Expected :=
  ⟨c.id, hash sha256 (inputJson c.input), hash sha256 (expectedJson c.expected), run c.input⟩

def Outcome.result (sha256 : String → ℕ) (expectedJson : Expected → Json.Value) (o : Outcome Expected) :
    Except BacktestError GoldenCaseResult := do
  let actual ← o.actual
  let actualHash := hash sha256 (expectedJson actual)
  return ⟨o.id, o.expectedHash == actualHash, o.inputHash, o.expectedHash, actualHash, expectedJson actual⟩

/-- The evidence of the results in order. -/
def evidence (corpusHash : String) (results : List GoldenCaseResult) : GoldenCorpusResult :=
  ⟨corpusHash, (results.filter (!·.passed)).length == 0, results.length - (results.filter (!·.passed)).length,
    (results.filter (!·.passed)).length, results⟩

/-- The runner on the outcomes of the cases. -/
theorem runGoldenCorpus_eq : runGoldenCorpus unicode sha256 inputJson expectedJson cases run = do
    checkIds [] (cases.map GoldenCorpusCase.id)
    let ordered := StableSort.sort (fun a b => unicode.localeCompare a.id b.id)
      (cases.map (outcome sha256 inputJson expectedJson run))
    let results ← ordered.mapM (Outcome.result sha256 expectedJson)
    return evidence (hash sha256 (.arr (ordered.map fun o => .obj [("id", .str o.id), ("inputHash", .str o.inputHash),
      ("expectedHash", .str o.expectedHash)]))) results := by
  have hsort : (StableSort.sort (fun a b => unicode.localeCompare a.id b.id) cases).map
      (outcome sha256 inputJson expectedJson run) =
      StableSort.sort (fun a b => unicode.localeCompare a.id b.id) (cases.map (outcome sha256 inputJson expectedJson run)) :=
    StableSort.map_sort (fun a b : Outcome Expected => unicode.localeCompare a.id b.id) _ cases
  rw [runGoldenCorpus, ← hsort]
  simp only [List.mapM_map, List.map_map]
  rfl

/-- What the runner returns on cases whose ids pass. -/
structure Evidence (unicode : Unicode) (sha256 : String → ℕ) (inputJson : Input → Json.Value)
    (expectedJson : Expected → Json.Value) (run : Input → Except BacktestError Expected)
    (cases : List (GoldenCorpusCase Input Expected)) (result : GoldenCorpusResult) : Prop where
  ids : result.cases.map GoldenCaseResult.id = StableSort.sort unicode.localeCompare (cases.map GoldenCorpusCase.id)
  mem : ∀ r, r ∈ result.cases ↔ ∃ c ∈ cases, runCase sha256 inputJson expectedJson run c = .ok r
  passed : result.passed = true ↔ ∀ r ∈ result.cases, r.passed = true

theorem runGoldenCorpus_returns : Returns (runGoldenCorpus unicode sha256 inputJson expectedJson cases run) ↔
    (∀ c ∈ cases, trim c.id ≠ "" ∧ Returns (run c.input)) ∧ (cases.map GoldenCorpusCase.id).Nodup := by
  have hcase (c : GoldenCorpusCase Input Expected) :
      Returns (runCase sha256 inputJson expectedJson run c) ↔ Returns (run c.input) := by
    rw [runCase, returns_bind]
    exact exists_congr fun _ => and_iff_left returns_pure
  rw [runGoldenCorpus, returns_bind]
  constructor
  · rintro ⟨checked, hids, hrest⟩
    obtain ⟨htexts, hnodup⟩ := checkIds_returns.mp ⟨checked, hids⟩
    obtain ⟨results, hresults, -⟩ := returns_bind.mp hrest
    have hall := returns_mapM.mp ⟨results, hresults⟩
    refine ⟨fun c hc => ⟨(htexts _ (List.mem_map_of_mem hc)).1, ?_⟩, hnodup⟩
    exact (hcase c).mp (hall c (StableSort.mem_sort.mpr hc))
  · rintro ⟨hall, hnodup⟩
    obtain ⟨checked, hids⟩ : Returns (checkIds [] (cases.map GoldenCorpusCase.id)) := by
      refine checkIds_returns.mpr ⟨fun id hid => ?_, hnodup⟩
      obtain ⟨c, hc, rfl⟩ := List.mem_map.mp hid
      exact ⟨(hall c hc).1, List.not_mem_nil⟩
    refine ⟨checked, hids, returns_bind.mpr ?_⟩
    obtain ⟨results, hresults⟩ := returns_mapM.mpr fun c (hc : c ∈ StableSort.sort _ cases) =>
      (hcase c).mpr (hall c (StableSort.mem_sort.mp hc)).2
    exact ⟨results, hresults, returns_pure⟩

theorem runGoldenCorpus_evidence {result : GoldenCorpusResult}
    (h : runGoldenCorpus unicode sha256 inputJson expectedJson cases run = .ok result) :
    Evidence unicode sha256 inputJson expectedJson run cases result := by
  rw [runGoldenCorpus, bind_eq_ok] at h
  obtain ⟨-, -, h⟩ := h
  obtain ⟨results, hresults, h⟩ := bind_eq_ok.mp h
  obtain rfl := pure_eq_ok.mp h
  refine ⟨?_, fun r => ?_, ?_⟩
  · have hid (c : GoldenCorpusCase Input Expected) (r : GoldenCaseResult)
        (hr : runCase sha256 inputJson expectedJson run c = .ok r) : r.id = c.id := by
      obtain ⟨actual, -, hr⟩ := bind_eq_ok.mp hr
      obtain rfl := pure_eq_ok.mp hr
      rfl
    rw [← StableSort.map_sort]
    exact map_of_mapM hid hresults
  · rw [mem_mapM hresults]
    exact exists_congr fun c => and_congr_left fun _ => StableSort.mem_sort
  · show ((results.filter (!·.passed)).length == 0) = true ↔ _
    rw [beq_iff_eq, List.length_eq_zero_iff, List.filter_eq_nil_iff]
    simp

/-- The order of the cases does not show if no ids tie. -/
theorem runGoldenCorpus_congr [Std.TransCmp unicode.localeCompare]
    (huntied : StableSort.Untied unicode.localeCompare (cases.map GoldenCorpusCase.id))
    (hreturns : Returns (runGoldenCorpus unicode sha256 inputJson expectedJson cases run))
    (houtcomes : (cases'.map (outcome sha256 inputJson expectedJson run)).Perm
      (cases.map (outcome sha256 inputJson expectedJson run))) :
    runGoldenCorpus unicode sha256 inputJson expectedJson cases' run =
      runGoldenCorpus unicode sha256 inputJson expectedJson cases run := by
  have hids : (cases'.map GoldenCorpusCase.id).Perm (cases.map GoldenCorpusCase.id) := by
    have hmapped := houtcomes.map Outcome.id
    rwa [List.map_map, List.map_map] at hmapped
  have hcheck : checkIds [] (cases'.map GoldenCorpusCase.id) = checkIds [] (cases.map GoldenCorpusCase.id) := by
    obtain ⟨hall, hnodup⟩ := runGoldenCorpus_returns.mp hreturns
    have hok {ids : List String} (hperm : ids.Perm (cases.map GoldenCorpusCase.id)) : checkIds [] ids = .ok ⟨⟩ := by
      obtain ⟨checked, h⟩ : Returns (checkIds [] ids) := by
        refine checkIds_returns.mpr ⟨fun id hid => ?_, hperm.nodup_iff.mpr hnodup⟩
        obtain ⟨c, hc, rfl⟩ := List.mem_map.mp (hperm.mem_iff.mp hid)
        exact ⟨(hall c hc).1, List.not_mem_nil⟩
      exact h
    rw [hok hids, hok (List.Perm.refl _)]
  have hcollates : Std.TransCmp fun a b : Outcome Expected => unicode.localeCompare a.id b.id :=
    StableSort.transCmp_key Outcome.id
  have hnone : StableSort.Untied (fun a b : Outcome Expected => unicode.localeCompare a.id b.id)
      (cases.map (outcome sha256 inputJson expectedJson run)) := by
    rw [StableSort.Untied, List.pairwise_map] at huntied ⊢
    exact huntied
  rw [runGoldenCorpus_eq, runGoldenCorpus_eq, hcheck, hnone.sort_eq houtcomes]

end

/-! ## Evidence is recorded once per tenant -/

section

variable {clientId : Option ℕ} {ruleVersionId : ℕ} {result : GoldenCorpusResult} {db db' : Db}

theorem sameCorpus_none (row : RuleBacktest) : sameCorpus none ruleVersionId result.corpusHash row = false := by
  cases h : row.accountId <;> simp [sameCorpus, sqlEq, h]

theorem sameCorpus_some {a : ℕ} {row : RuleBacktest} : sameCorpus (some a) ruleVersionId result.corpusHash row = true ↔
    row.accountId = some a ∧ row.ruleVersionId = ruleVersionId ∧ row.corpusHash = result.corpusHash := by
  cases h : row.accountId <;> simp [sameCorpus, sqlEq, h, and_assoc]

/-- The state but for the cases. -/
structure SameBut (db db' : Db) : Prop where
  accounts : db'.accounts = db.accounts
  ruleVersions : db'.ruleVersions = db.ruleVersions
  backtests : db'.backtests = db.backtests

theorem SameBut.refl (db : Db) : SameBut db db := ⟨rfl, rfl, rfl⟩

theorem SameBut.trans {a b c : Db} (hab : SameBut a b) (hbc : SameBut b c) : SameBut a c :=
  ⟨hbc.accounts.trans hab.accounts, hbc.ruleVersions.trans hab.ruleVersions, hbc.backtests.trans hab.backtests⟩

structure Recorded (clientId : Option ℕ) (id : ℕ) (db : Db) (item : GoldenCaseResult) (db' : Db) : Prop where
  same : SameBut db db'
  text : isText item.id = true
  cases : db'.cases = (db.cases.insert (caseRow clientId id item)).getD db.cases

theorem recordCase_eq_ok {id : ℕ} {item : GoldenCaseResult} (h : recordCase clientId id db item = .ok db') :
    Recorded clientId id db item db' := by
  rw [recordCase, ite_throw_eq_ok] at h
  obtain ⟨htext, h⟩ := h
  split at h
  · obtain rfl := pure_eq_ok.mp h
    exact ⟨⟨rfl, rfl, rfl⟩, by simpa using htext, rfl⟩
  · exact absurd h throw_ne_ok

theorem recordCase_returns {id : ℕ} {item : GoldenCaseResult} (htext : isText item.id = true)
    (hid : ∃ b ∈ db.backtests.rows, b.id = id) : Returns (recordCase clientId id db item) := by
  rw [recordCase, if_neg (not_not_intro htext), dif_pos hid]
  exact returns_pure

theorem recordCases_same {id : ℕ} {items : List GoldenCaseResult} (h : items.foldlM (recordCase clientId id) db = .ok db') :
    SameBut db db' ∧ ∀ item ∈ items, isText item.id = true := by
  induction items generalizing db with
  | nil =>
    obtain rfl := pure_eq_ok.mp h
    exact ⟨SameBut.refl db, nofun⟩
  | cons item rest ih =>
    rw [List.foldlM_cons] at h
    obtain ⟨mid, hmid, hrest⟩ := bind_eq_ok.mp h
    have hrecorded := recordCase_eq_ok hmid
    obtain ⟨hsame, htexts⟩ := ih hrest
    exact ⟨hrecorded.same.trans hsame, List.forall_mem_cons.mpr ⟨hrecorded.text, htexts⟩⟩

/-- Cases of a backtest that has none of them. -/
theorem recordCases_fresh {id : ℕ} {items : List GoldenCaseResult} (htexts : ∀ item ∈ items, isText item.id = true)
    (hid : ∃ b ∈ db.backtests.rows, b.id = id) (hnodup : (items.map GoldenCaseResult.id).Nodup)
    (hfree : ∀ item ∈ items, ∀ c ∈ db.cases.rows, c.key ≠ (id, item.id)) :
    ∃ db', items.foldlM (recordCase clientId id) db = .ok db' ∧
      db'.cases.rows = db.cases.rows ++ items.map (caseRow clientId id) := by
  induction items generalizing db with
  | nil => exact ⟨db, rfl, (List.append_nil _).symm⟩
  | cons item rest ih =>
    obtain ⟨htext, htexts⟩ := List.forall_mem_cons.mp htexts
    obtain ⟨hfirst, hothers⟩ := List.forall_mem_cons.mp hfree
    obtain ⟨hnew, hnodup⟩ := List.nodup_cons.mp hnodup
    obtain ⟨mid, hmid⟩ : Returns (recordCase clientId id db item) := recordCase_returns htext hid
    have hrecorded := recordCase_eq_ok hmid
    obtain ⟨t, hinsert⟩ := KeyedTable.insert_fresh (t := db.cases) (a := caseRow clientId id item)
      (KeyedTable.find?_eq_none.mpr hfirst)
    have hrows : mid.cases.rows = db.cases.rows ++ [caseRow clientId id item] := by
      rw [hrecorded.cases, hinsert, Option.getD_some, (KeyedTable.insert_eq_some hinsert).2]
    have hfree' : ∀ other ∈ rest, ∀ c ∈ mid.cases.rows, c.key ≠ (id, other.id) := by
      intro other hother c hc hkey
      rw [hrows, List.mem_append, List.mem_singleton] at hc
      rcases hc with hc | rfl
      · exact hothers other hother c hc hkey
      · have hsame : item.id = other.id := (Prod.mk.inj hkey).2
        exact hnew (hsame ▸ List.mem_map_of_mem hother)
    obtain ⟨db', hrest, hrows'⟩ := ih htexts (hrecorded.same.backtests ▸ hid) hnodup hfree'
    refine ⟨db', ?_, ?_⟩
    · rw [List.foldlM_cons, hmid]
      exact hrest
    · rw [hrows', hrows, List.append_assoc, List.map_cons, List.singleton_append]

/-- Cases of a backtest that has all of them. -/
theorem recordCases_taken {id : ℕ} {items : List GoldenCaseResult} (htexts : ∀ item ∈ items, isText item.id = true)
    (hid : ∃ b ∈ db.backtests.rows, b.id = id) (htaken : ∀ item ∈ items, ∃ c ∈ db.cases.rows, c.key = (id, item.id)) :
    items.foldlM (recordCase clientId id) db = .ok db := by
  induction items with
  | nil => rfl
  | cons item rest ih =>
    obtain ⟨htext, htexts⟩ := List.forall_mem_cons.mp htexts
    obtain ⟨⟨c, hc, hkey⟩, hothers⟩ := List.forall_mem_cons.mp htaken
    have hnone : db.cases.insert (caseRow clientId id item) = none := by
      cases hinsert : db.cases.insert (caseRow clientId id item) with
      | none => rfl
      | some t => exact absurd hkey (KeyedTable.find?_eq_none.mp (KeyedTable.insert_eq_some hinsert).1 c hc)
    have hstep : recordCase clientId id db item = .ok db := by
      rw [recordCase, if_neg (not_not_intro htext), dif_pos hid]
      simp only [hnone, Option.getD_none]
      rfl
    rw [List.foldlM_cons, hstep]
    exact ih htexts hothers

/-- Tenant and rule version are there. -/
theorem Unrecorded.checks {corpusHash : String} (h : Unrecorded clientId ruleVersionId corpusHash db) :
    clientId.any (· ∉ db.accounts) = false ∧ (db.ruleVersions.lookup ruleVersionId).isNone = false := by
  refine ⟨?_, ?_⟩
  · cases clientId with
    | none => rfl
    | some a => simpa using h.account a rfl
  · simpa using h.ruleVersion

theorem Unrecorded.not_any {corpusHash : String} (h : Unrecorded clientId ruleVersionId corpusHash db) :
    db.backtests.rows.any (sameCorpus clientId ruleVersionId corpusHash) = false := by
  refine List.any_eq_false.mpr fun row hrow hsame => h.absent row hrow ?_
  cases hclient : clientId with
  | none =>
    rw [hclient] at hsame
    cases haccount : row.accountId <;> simp [sameCorpus, sqlEq, haccount] at hsame
  | some a =>
    rw [hclient] at hsame
    cases haccount : row.accountId with
    | none => simp [sameCorpus, sqlEq, haccount] at hsame
    | some b =>
      simp only [sameCorpus, sqlEq, haccount, Option.bind_eq_bind, Option.bind_some, Bool.and_eq_true, beq_iff_eq,
        Option.pure_def, Option.some.injEq] at hsame
      exact ⟨congrArg some hsame.1.1, hsame.1.2, hsame.2⟩

/-- Where the evidence is new. -/
theorem persistBacktest_new (hclient : clientId.any (· ∉ db.accounts) = false)
    (hversion : (db.ruleVersions.lookup ruleVersionId).isNone = false)
    (hnone : db.backtests.rows.any (sameCorpus clientId ruleVersionId result.corpusHash) = false) :
    persistBacktest clientId ruleVersionId result db = do
      let db' ← result.cases.foldlM (recordCase clientId (freshId db.backtests.rows))
        (addBacktest db clientId ruleVersionId result)
      return ((freshId db.backtests.rows, true), db') := by
  rw [persistBacktest, hclient, hversion, hnone]
  rfl

/-- Where it is there. -/
theorem persistBacktest_found {row : RuleBacktest} (hclient : clientId.any (· ∉ db.accounts) = false)
    (hversion : (db.ruleVersions.lookup ruleVersionId).isNone = false)
    (hfound : db.backtests.rows.find? (sameCorpus clientId ruleVersionId result.corpusHash) = some row)
    (hagree : row.passed = result.passed ∧ row.passCount = result.passCount ∧ row.regressionCount = result.regressionCount) :
    persistBacktest clientId ruleVersionId result db = do
      let db' ← result.cases.foldlM (recordCase clientId row.id) db
      return ((row.id, false), db') := by
  have hany : db.backtests.rows.any (sameCorpus clientId ruleVersionId result.corpusHash) = true :=
    List.any_eq_true.mpr ⟨row, List.mem_of_find?_eq_some hfound, List.find?_some hfound⟩
  have hsame : ¬ (row.passed ≠ result.passed ∨ row.passCount ≠ result.passCount ∨
      row.regressionCount ≠ result.regressionCount) := by
    simp [hagree]
  rw [persistBacktest, hclient, hversion, hany, hfound]
  simp only [if_true, Bool.false_eq_true, if_false, hsame]

/-- The first call. -/
theorem persistBacktest_first (hready : Unrecorded clientId ruleVersionId result.corpusHash db)
    (htexts : ∀ item ∈ result.cases, isText item.id = true) (hnodup : (result.cases.map GoldenCaseResult.id).Nodup) :
    ∃ id db', persistBacktest clientId ruleVersionId result db = .ok ((id, true), db') ∧
      db'.accounts = db.accounts ∧ db'.ruleVersions = db.ruleVersions ∧
      db'.backtests.rows = db.backtests.rows ++ [backtestRow id clientId ruleVersionId result] ∧
      db'.cases.rows = db.cases.rows ++ result.cases.map (caseRow clientId id) := by
  obtain ⟨hclient, hversion⟩ := hready.checks
  have hid : ∃ b ∈ (addBacktest db clientId ruleVersionId result).backtests.rows, b.id = freshId db.backtests.rows :=
    ⟨_, List.mem_append_right _ (List.mem_singleton_self _), rfl⟩
  have hfree : ∀ item ∈ result.cases, ∀ c ∈ (addBacktest db clientId ruleVersionId result).cases.rows,
      c.key ≠ (freshId db.backtests.rows, item.id) := by
    intro item _ c hc hkey
    obtain ⟨b, hb, hbid⟩ := db.references c hc
    have hfresh : b.id = freshId db.backtests.rows := hbid.trans (Prod.mk.inj hkey).1
    exact freshId_not_mem db.backtests.rows (hfresh ▸ List.mem_map_of_mem hb)
  obtain ⟨db', hcases, hrows⟩ := @recordCases_fresh clientId _ _ _ htexts hid hnodup hfree
  obtain ⟨hsame, -⟩ := recordCases_same hcases
  refine ⟨freshId db.backtests.rows, db', ?_, hsame.accounts, hsame.ruleVersions, ?_, hrows⟩
  · rw [persistBacktest_new hclient hversion hready.not_any, hcases]
    rfl
  · rw [hsame.backtests]
    rfl

/-- Every later call of a tenant. -/
theorem persistBacktest_again {a id : ℕ} (hready : Unrecorded (some a) ruleVersionId result.corpusHash db)
    (htexts : ∀ item ∈ result.cases, isText item.id = true) (haccounts : db'.accounts = db.accounts)
    (hversions : db'.ruleVersions = db.ruleVersions)
    (hbacktests : db'.backtests.rows = db.backtests.rows ++ [backtestRow id (some a) ruleVersionId result])
    (hcases : db'.cases.rows = db.cases.rows ++ result.cases.map (caseRow (some a) id)) :
    persistBacktest (some a) ruleVersionId result db' = .ok ((id, false), db') := by
  obtain ⟨hclient, hversion⟩ := hready.checks
  have hfound : db'.backtests.rows.find? (sameCorpus (some a) ruleVersionId result.corpusHash) =
      some (backtestRow id (some a) ruleVersionId result) := by
    have hnone : db.backtests.rows.find? (sameCorpus (some a) ruleVersionId result.corpusHash) = none :=
      List.find?_eq_none.mpr fun row hrow => List.any_eq_false.mp hready.not_any row hrow
    have hsame : sameCorpus (some a) ruleVersionId result.corpusHash (backtestRow id (some a) ruleVersionId result) = true :=
      sameCorpus_some.mpr ⟨rfl, rfl, rfl⟩
    rw [hbacktests, List.find?_append, hnone, Option.none_or, List.find?_cons_of_pos hsame]
  have hid : ∃ b ∈ db'.backtests.rows, b.id = id :=
    ⟨_, List.mem_of_find?_eq_some hfound, rfl⟩
  have htaken : ∀ item ∈ result.cases, ∃ c ∈ db'.cases.rows, c.key = (id, item.id) := by
    intro item hitem
    refine ⟨caseRow (some a) id item, ?_, rfl⟩
    rw [hcases]
    exact List.mem_append_right _ (List.mem_map_of_mem hitem)
  rw [← haccounts] at hclient
  rw [← hversions] at hversion
  rw [persistBacktest_found hclient hversion hfound ⟨rfl, rfl, rfl⟩]
  show (do let db'' ← result.cases.foldlM (recordCase (some a) id) db'; return ((id, false), db'')) = _
  rw [recordCases_taken htexts hid htaken]
  rfl

theorem persistAll_succ {n : ℕ} {ids : List ℕ} (h : persistAll clientId ruleVersionId result (n + 1) db = .ok (ids, db')) :
    ∃ call mid rest, persistBacktest clientId ruleVersionId result db = .ok (call, mid) ∧
      persistAll clientId ruleVersionId result n mid = .ok (rest, db') := by
  rw [persistAll] at h
  obtain ⟨⟨call, mid⟩, hfirst, h⟩ := bind_eq_ok.mp h
  obtain ⟨⟨rest, last⟩, hrest, h⟩ := bind_eq_ok.mp h
  obtain ⟨-, rfl⟩ := Prod.mk.inj (pure_eq_ok.mp h)
  exact ⟨call, mid, rest, hfirst, hrest⟩

theorem persistAll_again {id : ℕ} (h : persistBacktest clientId ruleVersionId result db' = .ok ((id, false), db')) (n : ℕ) :
    persistAll clientId ruleVersionId result n db' = .ok (List.replicate n id, db') := by
  induction n with
  | zero => rfl
  | succ n ih =>
    rw [persistAll, h]
    show (do let p ← persistAll clientId ruleVersionId result n db'; return (id :: p.1, p.2)) = _
    rw [ih]
    rfl

theorem persistedOnce_some {a : ℕ} (htexts : ∀ item ∈ result.cases, isText item.id = true)
    (hnodup : (result.cases.map GoldenCaseResult.id).Nodup) : PersistedOnce (some a) ruleVersionId result := by
  intro db hready n
  obtain ⟨id, db', hfirst, haccounts, hversions, hbacktests, hcases⟩ := persistBacktest_first hready htexts hnodup
  have hagain := persistAll_again (persistBacktest_again hready htexts haccounts hversions hbacktests hcases) n
  refine ⟨id :: List.replicate n id, db', ?_, id, fun i hi => ?_, hbacktests, hcases⟩
  · rw [persistAll, hfirst]
    show (do let p ← persistAll (some a) ruleVersionId result n db'; return (id :: p.1, p.2)) = _
    rw [hagain]
    rfl
  · rcases List.mem_cons.mp hi with rfl | hi
    · rfl
    · exact List.eq_of_mem_replicate hi

theorem not_any_none : db.backtests.rows.any (sameCorpus none ruleVersionId result.corpusHash) = false :=
  List.any_eq_false.mpr fun row _ => by rw [sameCorpus_none]; exact Bool.false_ne_true

/-- A call for all tenants adds a row. -/
theorem persistBacktest_none {call : ℕ × Bool} (h : persistBacktest none ruleVersionId result db = .ok (call, db')) :
    ∃ id, db'.backtests.rows = db.backtests.rows ++ [backtestRow id none ruleVersionId result] := by
  cases hversion : (db.ruleVersions.lookup ruleVersionId).isNone with
  | true =>
    rw [persistBacktest, hversion] at h
    cases h
  | false =>
    rw [persistBacktest_new rfl hversion not_any_none] at h
    obtain ⟨db'', hcases, h⟩ := bind_eq_ok.mp h
    obtain ⟨-, rfl⟩ := Prod.mk.inj (pure_eq_ok.mp h)
    refine ⟨freshId db.backtests.rows, ?_⟩
    rw [(recordCases_same hcases).1.backtests]
    rfl

/-- Evidence of all tenants is recorded as often as it is persisted. -/
theorem not_persistedOnce_none (hready : Unrecorded none ruleVersionId result.corpusHash db) :
    ¬ PersistedOnce none ruleVersionId result := by
  intro h
  obtain ⟨ids, db', hcalls, id, -, hrows, -⟩ := h db hready 1
  obtain ⟨call, mid, rest, hfirst, hcalls⟩ := persistAll_succ hcalls
  obtain ⟨call', last, rest', hsecond, hnone⟩ := persistAll_succ hcalls
  obtain ⟨-, rfl⟩ := Prod.mk.inj (pure_eq_ok.mp hnone)
  obtain ⟨first, hmid⟩ := persistBacktest_none hfirst
  obtain ⟨second, hlast⟩ := persistBacktest_none hsecond
  have hlength := congrArg List.length (hlast.symm.trans hrows)
  rw [hmid] at hlength
  simp at hlength

/-- Texts that cannot be stored are not. -/
theorem persistedOnce_texts {a : ℕ} (hready : Unrecorded (some a) ruleVersionId result.corpusHash db)
    (h : PersistedOnce (some a) ruleVersionId result) : ∀ item ∈ result.cases, isText item.id = true := by
  obtain ⟨ids, db', hcalls, -⟩ := h db hready 0
  obtain ⟨call, mid, rest, hfirst, -⟩ := persistAll_succ hcalls
  obtain ⟨hclient, hversion⟩ := hready.checks
  rw [persistBacktest_new hclient hversion hready.not_any] at hfirst
  obtain ⟨db'', hcases, -⟩ := bind_eq_ok.mp hfirst
  exact (recordCases_same hcases).2

/-- A state with the tenant and the rule version only. -/
def readyDb (clientId : Option ℕ) (ruleVersionId : ℕ) (ast : AstNode) : Db where
  accounts := clientId.toList
  ruleVersions := [(ruleVersionId, ast)]
  backtests := .empty
  cases := .empty
  references := nofun

theorem readyDb_unrecorded (ast : AstNode) (corpusHash : String) :
    Unrecorded clientId ruleVersionId corpusHash (readyDb clientId ruleVersionId ast) where
  account := fun a ha => by simpa [readyDb] using ha
  ruleVersion := by simp [readyDb]
  absent := nofun

end

/-! ## When evidence is canonical -/

section

variable {D : Type} [Decimal D] {unicode : Unicode} {sha256 : String → ℕ} {ast : AstNode} {clientId : Option ℕ}
  {ruleVersionId : ℕ} {corpus : List ActivationCorpusCase}

/-- The tenant is given, no two ids tie, and every case has an id that is not blank and can be stored, and facts
on which the rule gives a verdict. -/
structure Recordable (D : Type) [Decimal D] (unicode : Unicode) (ast : AstNode) (clientId : Option ℕ)
    (corpus : List ActivationCorpusCase) : Prop where
  tenant : clientId.isSome
  untied : StableSort.Untied unicode.localeCompare (corpus.map GoldenCorpusCase.id)
  cases : ∀ c ∈ corpus, trim c.id ≠ "" ∧ isText c.id = true ∧ Returns (verdictOn D ast c.input)

theorem sameCase_refl (c : ActivationCorpusCase) : SameCase c c := ⟨rfl, rfl, List.Perm.refl _⟩

/-- Fields of different keys are found in every order. -/
theorem mem_iff_lookup {α : Type} {l : List (String × α)} (hnodup : (l.map Prod.fst).Nodup) {key : String} {v : α} :
    l.lookup key = some v ↔ (key, v) ∈ l := by
  rw [List.lookup_eq_some_iff]
  constructor
  · rintro ⟨l₁, l₂, rfl, -⟩
    exact List.mem_append_right _ List.mem_cons_self
  · intro h
    obtain ⟨l₁, l₂, rfl⟩ := List.append_of_mem h
    refine ⟨l₁, l₂, rfl, fun p hp => bne_iff_ne.mpr fun hkey => ?_⟩
    rw [List.map_append, List.map_cons, List.nodup_append] at hnodup
    exact hnodup.2.2 p.1 (List.mem_map_of_mem hp) key List.mem_cons_self hkey.symm

theorem lookup_perm {α : Type} {l l' : List (String × α)} (hperm : l'.Perm l) (hnodup : (l.map Prod.fst).Nodup)
    (key : String) : l'.lookup key = l.lookup key := by
  refine Option.ext fun v => ?_
  rw [mem_iff_lookup hnodup, mem_iff_lookup ((hperm.map _).nodup_iff.mpr hnodup), hperm.mem_iff]

/-- The outcome of a case of an activation. -/
def activationOutcome (D : Type) [Decimal D] (sha256 : String → ℕ) (ast : AstNode) : ActivationCorpusCase → Outcome Verdict :=
  outcome sha256 (fun facts => factsJson facts.fields) (fun v => .str (verdictText v)) (verdictOn D ast)

/-- Facts in another order are read alike. -/
theorem outcome_sameCase {c d : ActivationCorpusCase} (h : SameCase c d) :
    activationOutcome D sha256 ast d = activationOutcome D sha256 ast c := by
  obtain ⟨hid, hexpected, hperm⟩ := h
  have hjson : hash sha256 (factsJson d.input.fields) = hash sha256 (factsJson c.input.fields) := by
    have hkeys : ((c.input.fields.map fun f => (f.1, factJson f.2)).map Prod.fst).Nodup := by
      rw [List.map_map]
      exact c.input.distinct
    have hsorted := Json.sortKeys_obj_perm (hperm.map fun f => (f.1, factJson f.2)) hkeys
    exact congrArg (fun text => String.ofList ((Nat.toDigits 16 (sha256 (String.ofList text))).leftpad 64 '0'))
      (Json.canonicalText_inj.mpr hsorted)
  have hlookup : (fun key => d.input.fields.lookup key) = fun key => c.input.fields.lookup key := by
    funext key
    exact lookup_perm hperm c.input.distinct key
  rw [activationOutcome, outcome, outcome, hid, hexpected, hjson, verdictOn, hlookup]
  rfl

theorem runActivationCorpus_congr [Std.TransCmp unicode.localeCompare] {corpus' : List ActivationCorpusCase}
    (hrecordable : Recordable D unicode ast clientId corpus) (hreturns : Returns (runActivationCorpus D unicode sha256 ast corpus))
    (h : Reordered corpus corpus') :
    runActivationCorpus D unicode sha256 ast corpus' = runActivationCorpus D unicode sha256 ast corpus := by
  obtain ⟨mid, hperm, hsame⟩ := h
  refine runGoldenCorpus_congr hrecordable.untied hreturns ?_
  have houtcomes : corpus'.map (activationOutcome D sha256 ast) = mid.map (activationOutcome D sha256 ast) := by
    clear hperm
    induction hsame with
    | nil => rfl
    | cons hcase _ ih => rw [List.map_cons, List.map_cons, outcome_sameCase hcase, ih]
  have hmapped := hperm.map (activationOutcome D sha256 ast)
  rwa [← houtcomes] at hmapped

theorem runCase_id {c : ActivationCorpusCase} {r : GoldenCaseResult} {inputJson : Facts → Json.Value}
    {expectedJson : Verdict → Json.Value} {run : Facts → Except BacktestError Verdict}
    (h : runCase sha256 inputJson expectedJson run c = .ok r) : r.id = c.id := by
  obtain ⟨actual, -, h⟩ := bind_eq_ok.mp h
  obtain rfl := pure_eq_ok.mp h
  rfl

/-- The corpus passes if every verdict is the expected one. -/
theorem runActivationCorpus_passed {result : GoldenCorpusResult}
    (hseparates : Function.Injective fun v => hash sha256 (.str (verdictText v)))
    (h : runActivationCorpus D unicode sha256 ast corpus = .ok result) :
    result.passed = true ↔ ∀ c ∈ corpus, verdictOn D ast c.input = .ok c.expected := by
  have hevidence := runGoldenCorpus_evidence h
  obtain ⟨hreturns, -⟩ := runGoldenCorpus_returns.mp ⟨result, h⟩
  rw [hevidence.passed]
  constructor
  · intro hall c hc
    obtain ⟨actual, hactual⟩ := (hreturns c hc).2
    have hpassed := hall _ ((hevidence.mem _).mpr ⟨c, hc, by rw [runCase, hactual]; rfl⟩)
    have hhash : hash sha256 (.str (verdictText c.expected)) = hash sha256 (.str (verdictText actual)) :=
      beq_iff_eq.mp hpassed
    rw [hactual, hseparates hhash]
  · intro hall r hr
    obtain ⟨c, hc, hr⟩ := (hevidence.mem r).mp hr
    rw [runCase, hall c hc] at hr
    obtain rfl := Except.ok.inj hr
    exact beq_self_eq_true _

/-- The evidence of a corpus of different ids is canonical exactly if it is recordable. -/
theorem canonical_iff [Std.TransCmp unicode.localeCompare]
    (hseparates : Function.Injective fun v => hash sha256 (.str (verdictText v)))
    (hdistinct : (corpus.map GoldenCorpusCase.id).Nodup) :
    Canonical D unicode sha256 ast clientId ruleVersionId corpus ↔ Recordable D unicode ast clientId corpus := by
  constructor
  · rintro ⟨result, hsame, -, honce⟩
    have hrefl (l : List ActivationCorpusCase) : List.Forall₂ SameCase l l := List.forall₂_same.mpr fun c _ => sameCase_refl c
    have hown := hsame corpus ⟨corpus, List.Perm.refl _, hrefl _⟩
    have hevidence := runGoldenCorpus_evidence hown
    obtain ⟨hreturns, -⟩ := runGoldenCorpus_returns.mp ⟨result, hown⟩
    have hready := @readyDb_unrecorded clientId ruleVersionId ast result.corpusHash
    refine ⟨?_, ?_, fun c hc => ⟨(hreturns c hc).1, ?_, (hreturns c hc).2⟩⟩
    · cases clientId with
      | none => exact absurd honce (not_persistedOnce_none hready)
      | some a => rfl
    · have hreversed := runGoldenCorpus_evidence (hsame corpus.reverse ⟨_, List.reverse_perm _, hrefl _⟩)
      refine StableSort.untied_of_reverse hdistinct ?_
      rw [← List.map_reverse, ← hreversed.ids, hevidence.ids]
    · cases clientId with
      | none => exact absurd honce (not_persistedOnce_none hready)
      | some a =>
        obtain ⟨actual, hactual⟩ := (hreturns c hc).2
        obtain ⟨r, hr⟩ : Returns (runCase sha256 (fun facts : Facts => factsJson facts.fields)
            (fun v => .str (verdictText v)) (verdictOn D ast) c) := by
          rw [runCase, hactual]
          exact returns_pure
        rw [← runCase_id hr]
        exact persistedOnce_texts hready honce r ((hevidence.mem r).mpr ⟨c, hc, hr⟩)
  · intro hrecordable
    have hreturns : Returns (runActivationCorpus D unicode sha256 ast corpus) :=
      runGoldenCorpus_returns.mpr ⟨fun c hc => ⟨(hrecordable.cases c hc).1, (hrecordable.cases c hc).2.2⟩, hdistinct⟩
    obtain ⟨result, hresult⟩ := hreturns
    have hevidence := runGoldenCorpus_evidence hresult
    refine ⟨result, fun corpus' h => ?_, runActivationCorpus_passed hseparates hresult, ?_⟩
    · rw [runActivationCorpus_congr hrecordable ⟨result, hresult⟩ h, hresult]
    · obtain ⟨a, rfl⟩ := Option.isSome_iff_exists.mp hrecordable.tenant
      refine persistedOnce_some (fun r hr => ?_) ?_
      · obtain ⟨c, hc, hr⟩ := (hevidence.mem r).mp hr
        rw [runCase_id hr]
        exact (hrecordable.cases c hc).2.1
      · rw [hevidence.ids]
        exact (StableSort.sort_perm _).nodup_iff.mpr hdistinct

end

/-- A rule of all tenants that asks for the invoice's currency. -/
def currencyRule : AstNode := .compare .eq (.fact "currency_known") (.lit (.boolean true)) none

/-- A case that passes and one that lacks the fact. -/
def currencyCorpus : List ActivationCorpusCase :=
  [⟨"known", ⟨[("currency_known", .boolean true)], List.nodup_singleton _⟩, .PASS⟩,
    ⟨"absent", ⟨[], List.nodup_nil⟩, .UNASSESSABLE⟩]

theorem currencyCorpus_canonical :
    Canonical Ref Unicode.ascii Contracts.checksum currencyRule (some 1) 7 currencyCorpus := by
  have hcollates : Std.TransCmp Unicode.ascii.localeCompare := inferInstanceAs (Std.TransOrd String)
  have hseparates : Function.Injective fun v => hash Contracts.checksum (.str (verdictText v)) := by
    intro a b h
    cases a <;> cases b <;> first | rfl | exact absurd h (by decide +kernel)
  refine (canonical_iff hseparates (by decide)).mpr ⟨rfl, by decide, ?_⟩
  refine List.forall_mem_cons.mpr ⟨⟨by decide, by decide, .PASS, rfl⟩, ?_⟩
  exact List.forall_mem_singleton.mpr ⟨by decide, by decide, .UNASSESSABLE, rfl⟩

/-- Called twice for all tenants, it is recorded twice. -/
theorem globalCorpus_not_canonical :
    ¬ Canonical Ref Unicode.ascii Contracts.checksum currencyRule none 7 currencyCorpus := by
  rintro ⟨result, -, -, honce⟩
  exact not_persistedOnce_none (readyDb_unrecorded currencyRule result.corpusHash) honce

end GoldenCorpus
