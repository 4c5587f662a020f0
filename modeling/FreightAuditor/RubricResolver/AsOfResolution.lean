import FreightAuditor.Library.IsoDate
import FreightAuditor.Library.StampedRows
import FreightAuditor.RuleEngine.Lifecycle

/- What was known at a time.

   Three queries take the rows recorded up to a cutoff: the version of a rule, the version of a rubric, the
   override of a case. `recorded_at` is the start of the transaction that inserts the row, and the row is there
   once that commits: a transaction that began before the cutoff may commit after a call has looked. The
   answers stay as they are exactly if no such transaction commits a row that goes first
   (`asOfResolution_stable_iff`). -/
namespace RubricResolver

open RuleEngine StampedRows

/-! ## The tables -/

/-- A row of `rubric_version`; days, the range half-open. -/
structure RubricVersion where
  id : ℕ
  rubricId : ℕ
  validFrom : ℤ
  validTo : Option ℤ
  /-- Microseconds. -/
  recordedAt : ℤ
  deriving DecidableEq

/-- A row of `human_override`; without an account, it is for all. -/
structure HumanOverrideRow where
  id : ℕ
  accountId : Option ℕ
  criterionId : Option ℕ
  caseFingerprint : String
  assertedValue : Json.Value
  recordedAt : ℤ

/-- A row of one of the three tables. -/
inductive Recorded where
  | ruleVersion (v : RuleVersion)
  | rubricVersion (v : RubricVersion)
  | humanOverride (o : HumanOverrideRow)

/-- `recorded_at timestamptz NOT NULL DEFAULT now()`. -/
def Recorded.stamp (now : ℤ) : Recorded → Recorded
  | .ruleVersion v => .ruleVersion { v with recordedAt := now }
  | .rubricVersion v => .rubricVersion { v with recordedAt := now }
  | .humanOverride o => .humanOverride { o with recordedAt := now }

def Recorded.ruleVersion? : Recorded → Option RuleVersion
  | .ruleVersion v => some v
  | _ => none

def Recorded.rubricVersion? : Recorded → Option RubricVersion
  | .rubricVersion v => some v
  | _ => none

def Recorded.humanOverride? : Recorded → Option HumanOverrideRow
  | .humanOverride o => some o
  | _ => none

/-! ## The queries -/

-- the computable order of the integers, where the complete one is in scope too
local instance (priority := 2000) instPreorderRecordedTime : Preorder ℤ := instPreorderTime

/-- The store of the rule engine, as far as its resolver reads it. -/
def ruleStore (db : List Recorded) : RuleStore :=
  { RuleStore.empty 0 with versions := db.filterMap Recorded.ruleVersion? }

/-- The row that `resolveActiveRuleVersion` answers from. -/
def activeRuleVersion (db : List Recorded) (request : ActiveRuleRequest) : Option RuleVersion :=
  (activeCandidates (ruleStore db) request).argmax RuleVersion.orderKey

structure RubricVersionRequest where
  rubricId : ℕ
  effectiveOn : ℤ
  recordedAsOf : ℤ

def RubricVersion.validOn (v : RubricVersion) (effectiveOn : ℤ) : Bool :=
  v.validFrom ≤ effectiveOn ∧ v.validTo.all (effectiveOn < ·)

def RubricVersionRequest.selects (request : RubricVersionRequest) (v : RubricVersion) : Bool :=
  v.rubricId = request.rubricId ∧ v.validOn request.effectiveOn ∧ v.recordedAt ≤ request.recordedAsOf

/-- `ORDER BY valid_from DESC, recorded_at DESC, id DESC`. -/
def RubricVersion.orderKey (v : RubricVersion) : ℤ ×ₗ ℤ ×ₗ ℕ :=
  toLex (v.validFrom, toLex (v.recordedAt, v.id))

def rubricVersion (db : List Recorded) (request : RubricVersionRequest) : Option RubricVersion :=
  ((db.filterMap Recorded.rubricVersion?).filter request.selects).argmax RubricVersion.orderKey

def RUBRIC_VERSION_SELECTOR_VERSION : String := "rubric-version-selector-v1"

structure SelectedRubricVersion where
  id : ℕ
  rubricId : ℕ
  validFrom : ℤ
  validTo : Option ℤ
  recordedAt : String
  selectorVersion : String

/-- Nothing where no version is known. -/
def selectRubricVersion (db : List Recorded) (request : RubricVersionRequest) : Option SelectedRubricVersion :=
  (rubricVersion db request).map fun row =>
    { id := row.id
      rubricId := row.rubricId
      validFrom := row.validFrom
      validTo := row.validTo
      recordedAt := String.ofList (IsoDate.toISOString (row.recordedAt / 1000))
      selectorVersion := RUBRIC_VERSION_SELECTOR_VERSION }

structure HumanOverrideRequest where
  clientId : ℕ
  criterionId : ℕ
  caseFingerprint : String
  recordedAsOf : ℤ

def HumanOverrideRequest.selects (request : HumanOverrideRequest) (o : HumanOverrideRow) : Bool :=
  (o.accountId = some request.clientId ∨ o.accountId = none) ∧ o.criterionId = some request.criterionId ∧
    o.caseFingerprint = request.caseFingerprint ∧ o.recordedAt ≤ request.recordedAsOf

/-- `ORDER BY (account_id = $1) DESC, recorded_at DESC, id DESC`. -/
def HumanOverrideRow.orderKey (o : HumanOverrideRow) : ℕ ×ₗ ℤ ×ₗ ℕ :=
  -- without an account the comparison is null, and a descending order begins with the nulls
  toLex (if o.accountId = none then 1 else 0, toLex (o.recordedAt, o.id))

def humanOverride (db : List Recorded) (request : HumanOverrideRequest) : Option HumanOverrideRow :=
  ((db.filterMap Recorded.humanOverride?).filter request.selects).argmax HumanOverrideRow.orderKey

def HUMAN_OVERRIDE_RESOLVER_VERSION : String := "human-override-resolver-v1"

inductive HumanOverrideResolution where
  | FOUND (overrideId : ℕ) (assertedValue : Json.Value) (recordedAt resolverVersion : String)
  | NOT_FOUND (resolverVersion : String)

def resolveHumanOverride (db : List Recorded) (request : HumanOverrideRequest) : HumanOverrideResolution :=
  match humanOverride db request with
  | none => .NOT_FOUND HUMAN_OVERRIDE_RESOLVER_VERSION
  | some row =>
    .FOUND row.id row.assertedValue (String.ofList (IsoDate.toISOString (row.recordedAt / 1000)))
      HUMAN_OVERRIDE_RESOLVER_VERSION

/-! ## The queries as readings of the latest row -/

def ActiveRuleRequest.latest (request : ActiveRuleRequest) : Latest Recorded RuleVersion (ℕ ×ₗ ℤ ×ₗ ℤ ×ₗ ℕ) where
  candidate row := row.ruleVersion?.filter fun v => v.ruleId = request.ruleId ∧ v.lifecycleState = .ACTIVE ∧
    v.validOn request.effectiveOn ∧ v.recordedAt ≤ request.recordedAsOf
  key := RuleVersion.orderKey

def RubricVersionRequest.latest (request : RubricVersionRequest) : Latest Recorded RubricVersion (ℤ ×ₗ ℤ ×ₗ ℕ) where
  candidate row := row.rubricVersion?.filter request.selects
  key := RubricVersion.orderKey

def HumanOverrideRequest.latest (request : HumanOverrideRequest) : Latest Recorded HumanOverrideRow (ℕ ×ₗ ℤ ×ₗ ℕ) where
  candidate row := row.humanOverride?.filter request.selects
  key := HumanOverrideRow.orderKey

theorem activeRuleVersion_eq (db : List Recorded) (request : ActiveRuleRequest) :
    activeRuleVersion db request = (ActiveRuleRequest.latest request).read db := by
  rw [activeRuleVersion, activeCandidates, ruleStore, List.filter_filterMap]
  rfl

theorem rubricVersion_eq (db : List Recorded) (request : RubricVersionRequest) :
    rubricVersion db request = request.latest.read db := by
  rw [rubricVersion, List.filter_filterMap]
  rfl

theorem humanOverride_eq (db : List Recorded) (request : HumanOverrideRequest) :
    humanOverride db request = request.latest.read db := by
  rw [humanOverride, List.filter_filterMap]
  rfl

theorem accepted_of_isSome {α : Type} {p : α → Bool} {a : α} (h : ((some a).filter p).isSome) : p a = true := by
  rwa [Option.isSome_filter] at h

theorem ActiveRuleRequest.knownBy (request : ActiveRuleRequest) :
    (ActiveRuleRequest.latest request).KnownBy Recorded.stamp request.recordedAsOf := by
  intro startedAt row h
  cases row with
  | ruleVersion v =>
    simp only [ActiveRuleRequest.latest, Recorded.stamp, Recorded.ruleVersion?] at h
    have hselected := accepted_of_isSome h
    exact (of_decide_eq_true hselected).2.2.2
  | rubricVersion v => cases h
  | humanOverride o => cases h

theorem RubricVersionRequest.knownBy (request : RubricVersionRequest) :
    request.latest.KnownBy Recorded.stamp request.recordedAsOf := by
  intro startedAt row h
  cases row with
  | ruleVersion v => cases h
  | rubricVersion v =>
    have hselected := accepted_of_isSome (show (Option.filter _ (some _)).isSome = true from h)
    exact (of_decide_eq_true hselected).2.2
  | humanOverride o => cases h

theorem HumanOverrideRequest.knownBy (request : HumanOverrideRequest) :
    request.latest.KnownBy Recorded.stamp request.recordedAsOf := by
  intro startedAt row h
  cases row with
  | ruleVersion v => cases h
  | rubricVersion v => cases h
  | humanOverride o =>
    have hselected := accepted_of_isSome (show (Option.filter _ (some _)).isSome = true from h)
    exact (of_decide_eq_true hselected).2.2.2

/-! ## Calls at two moments -/

/-- From a moment on every call of a request takes the same row, exactly if no transaction that began by its
cutoff commits a row that goes before all of the committed ones. -/
theorem asOfResolution_stable_iff (w : World Recorded) (events : List (Event Recorded)) :
    (∀ request : ActiveRuleRequest,
      Runs.AllStates (step Recorded.stamp)
          (fun s => activeRuleVersion s.committed request = activeRuleVersion w.committed request) w events ↔
        Runs.AllSteps (step Recorded.stamp)
          ((ActiveRuleRequest.latest request).LateOnesBelow Recorded.stamp request.recordedAsOf) w events) ∧
    (∀ request : RubricVersionRequest,
      Runs.AllStates (step Recorded.stamp)
          (fun s => rubricVersion s.committed request = rubricVersion w.committed request) w events ↔
        Runs.AllSteps (step Recorded.stamp) (request.latest.LateOnesBelow Recorded.stamp request.recordedAsOf) w events) ∧
    ∀ request : HumanOverrideRequest,
      Runs.AllStates (step Recorded.stamp)
          (fun s => humanOverride s.committed request = humanOverride w.committed request) w events ↔
        Runs.AllSteps (step Recorded.stamp) (request.latest.LateOnesBelow Recorded.stamp request.recordedAsOf) w events := by
  simp only [activeRuleVersion_eq, rubricVersion_eq, humanOverride_eq]
  exact ⟨fun request => stable_iff (ActiveRuleRequest.knownBy request) events w,
    fun request => stable_iff request.knownBy events w, fun request => stable_iff request.knownBy events w⟩

/-- Once every transaction that began by the cutoff is closed, the calls take the same row. -/
theorem asOfResolution_stable_after {w : World Recorded} {cutoff : ℤ} (h : w.After cutoff) (events : List (Event Recorded)) :
    (∀ request : ActiveRuleRequest, request.recordedAsOf = cutoff →
      Runs.AllStates (step Recorded.stamp)
        (fun s => activeRuleVersion s.committed request = activeRuleVersion w.committed request) w events) ∧
    (∀ request : RubricVersionRequest, request.recordedAsOf = cutoff →
      Runs.AllStates (step Recorded.stamp)
        (fun s => rubricVersion s.committed request = rubricVersion w.committed request) w events) ∧
    ∀ request : HumanOverrideRequest, request.recordedAsOf = cutoff →
      Runs.AllStates (step Recorded.stamp)
        (fun s => humanOverride s.committed request = humanOverride w.committed request) w events := by
  simp only [activeRuleVersion_eq, rubricVersion_eq, humanOverride_eq]
  refine ⟨fun request hcutoff => ?_, fun request hcutoff => ?_, fun request hcutoff => ?_⟩
  · exact h.stable (hcutoff ▸ ActiveRuleRequest.knownBy request) events
  · exact h.stable (hcutoff ▸ request.knownBy) events
  · exact h.stable (hcutoff ▸ request.knownBy) events

/-! ## A transaction open at the first call -/

def lateRuleVersion : RuleVersion where
  ruleId := 7
  hardness := .FIRM_RULE
  ast := .null
  astHash := "hash"
  expectedInputs := .arr []
  emits := .PASS_FAIL
  provenance := []
  clauseId := none
  validFrom := 0
  validTo := none
  id := 1
  lifecycleState := .ACTIVE
  recordedAt := 0
  predecessorRuleVersionId := none

/-- A transaction began at 0 and has inserted a row of each table; it is 2. -/
def openAtFirstCall : World Recorded :=
  ⟨2, [], Function.update (fun _ => none) 0 (some ⟨0, [.ruleVersion lateRuleVersion,
    .rubricVersion ⟨2, 8, 0, none, 0⟩, .humanOverride ⟨3, some 5, some 9, "case", .bool true, 0⟩]⟩)⟩

/-- It commits between two calls as of 1, which is past at both: the first finds nothing, the second its rows. -/
theorem lateCommit_changes :
    (1 < openAtFirstCall.now ∧
      Runs.final (step Recorded.stamp) (World.initial 0 []) [.start 0, .insert 0 (.ruleVersion lateRuleVersion),
        .insert 0 (.rubricVersion ⟨2, 8, 0, none, 0⟩), .insert 0 (.humanOverride ⟨3, some 5, some 9, "case", .bool true, 0⟩),
        .pass 2] = some openAtFirstCall) ∧
    ¬ Runs.AllStates (step Recorded.stamp)
      (fun s => activeRuleVersion s.committed ⟨7, 10, 1⟩ = activeRuleVersion openAtFirstCall.committed ⟨7, 10, 1⟩)
      openAtFirstCall [.commit 0] ∧
    ¬ Runs.AllStates (step Recorded.stamp)
      (fun s => rubricVersion s.committed ⟨8, 10, 1⟩ = rubricVersion openAtFirstCall.committed ⟨8, 10, 1⟩)
      openAtFirstCall [.commit 0] ∧
    ¬ Runs.AllStates (step Recorded.stamp)
      (fun s => humanOverride s.committed ⟨5, 9, "case", 1⟩ = humanOverride openAtFirstCall.committed ⟨5, 9, "case", 1⟩)
      openAtFirstCall [.commit 0] := by
  refine ⟨⟨by decide, ?_⟩, fun h => ?_, fun h => ?_, fun h => ?_⟩
  · simp [Runs.final, step, World.initial, World.set, openAtFirstCall]
  · have h' := congrArg (Option.map RuleVersion.id) (h.2 _ rfl).head
    revert h'
    decide
  · have h' := congrArg (Option.map RubricVersion.id) (h.2 _ rfl).head
    revert h'
    decide
  · have h' := congrArg (Option.map HumanOverrideRow.id) (h.2 _ rfl).head
    revert h'
    decide

end RubricResolver
