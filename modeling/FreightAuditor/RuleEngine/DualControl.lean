import FreightAuditor.Claims.Tables
import FreightAuditor.RuleEngine.VersionChain

/- Dual control on activation.

   `/ratify` and `/activate` without cases each make one transition and write one audit
   event, and `promoteShadowRule` refuses the analyst named by the latest ratification
   event of the SHADOW version. A retry writes no second event as long as it hashes the
   same id, and the id is hashed from the text of the path parameter, which may spell one
   uuid in more than one way. As long as every ratification spells the version it names
   as the earlier ones did, no analyst both ratifies and activates a version
   (`dualControl_allStates`). -/
namespace RuleEngine

open Claims (AuditEventEvidence sameEvidence deterministicAuditEventId)

/-! ## Uuid texts -/

def isHexDigit (c : Char) : Bool :=
  c.isDigit || ('a' ≤ c && c ≤ 'f') || ('A' ≤ c && c ≤ 'F')

/-- `UUID_PATTERN`, which ignores case. -/
def isUuid (value : String) : Bool :=
  value.toList.length == 36 &&
    value.toList.zipIdx.all fun c => if c.2 ∈ [8, 13, 18, 23] then c.1 == '-' else isHexDigit c.1

/-- The uuid a text stands for in the database. -/
def uuidValue (text : String) : ℕ :=
  (text.toList.filter (· ≠ '-')).foldl (fun n c => 16 * n + Json.hexValue c.toLower) 0

/-- The text the database writes for a uuid. -/
def uuidText (value : ℕ) : String :=
  let digits := (List.replicate 32 '0' ++ Nat.toDigits 16 value).reverse.take 32 |>.reverse
  "-".intercalate ([(0, 8), (8, 4), (12, 4), (16, 4), (20, 12)].map
    fun part => String.ofList ((digits.drop part.1).take part.2))

example : uuidText (uuidValue "0123ABCD-4567-89ab-cdef-0123456789AB") = "0123abcd-4567-89ab-cdef-0123456789ab" := by
  decide +kernel

/-! ## Tables and errors -/

/-- A row of `audit_event`. -/
structure AuditEventRow extends AuditEventEvidence where
  id : ℕ
  recordedAt : ℤ

structure GovernanceStore where
  rules : RuleStore
  auditEvents : List AuditEventRow

inductive GovernanceError where
  | invalidRuleVersionId
  | rationaleRequired
  | dualControlRequired
  | auditEventConflict
  | lifecycle (error : LifecycleError)
  deriving DecidableEq

/-! ## Routes -/

section

variable (uuid : ℕ → ℕ) (sha256 : String → ℕ)

/-- Insert the event, or find it there with the same evidence. -/
def writeAuditEvent (now : ℤ) (s : GovernanceStore) (id : ℕ) (value : AuditEventEvidence) :
    Except GovernanceError GovernanceStore :=
  match s.auditEvents.find? (·.id == id) with
  | none => .ok { s with auditEvents := s.auditEvents ++ [{ value with id := id, recordedAt := now }] }
  | some row =>
    if sameEvidence row.toAuditEventEvidence value then .ok s else .error .auditEventConflict

/-- What each route checks of its request. -/
def validateRequest (id rationale : String) : Except GovernanceError Unit := do
  if !isUuid id then throw .invalidRuleVersionId
  if JsText.trim rationale == "" then throw .rationaleRequired

/-- A transition of the version the path names, in place. -/
def transitionVersion (now : ℤ) (s : GovernanceStore) (input : TransitionInput) :
    Except GovernanceError (GovernanceStore × ℕ) :=
  match transitionRuleLifecycle uuid now s.rules input with
  | .error e => .error (.lifecycle e)
  | .ok (rules, nextId, _) => .ok ({ s with rules := rules }, nextId)

/-- The event a route writes about the version `nextId` it moved `id` to. -/
def transitionEvent (id : String) (nextId : ℕ) (event rationale : String) (actorUserId : ℕ) :
    AuditEventEvidence :=
  { clientId := none
    entity := "rule_version"
    entityId := some (uuidValue id)
    event := event
    actorKind := .analyst
    actorUserId := some actorUserId
    ruleVersionId := some nextId
    rubricSnapshotId := none
    detail := some (.obj [("rationale", .str rationale), ("fromRuleVersionId", .str id)]) }

def transitionEventId (id : String) (nextId : ℕ) (event : String) : ℕ :=
  deterministicAuditEventId sha256 [id, uuidText nextId, "rule_version." ++ event]

def recordTransition (now : ℤ) (s : GovernanceStore) (id : String) (nextId : ℕ) (event rationale : String)
    (actorUserId : ℕ) : Except GovernanceError GovernanceStore :=
  writeAuditEvent now s (transitionEventId sha256 id nextId event)
    (transitionEvent id nextId event rationale actorUserId)

/-- A ratification of a version. -/
def isRatification (ruleVersionId : ℕ) (e : AuditEventRow) : Bool :=
  e.entity == "rule_version" && e.ruleVersionId == some ruleVersionId && e.event == "promoted_to_shadow"

local instance (priority := 2000) instPreorderControlTime : Preorder ℤ := instPreorderTime

/-- `ORDER BY recorded_at DESC, id DESC LIMIT 1`. -/
def latestRatification (s : GovernanceStore) (ruleVersionId : ℕ) : Option AuditEventRow :=
  (s.auditEvents.filter (isRatification ruleVersionId)).argmax
    (fun e => (toLex (e.recordedAt, e.id) : ℤ ×ₗ ℕ))

def promoteShadowRule (now : ℤ) (s : GovernanceStore) (ruleVersionId : ℕ) (rationale : String)
    (actorUserId : ℕ) : Except GovernanceError (GovernanceStore × ℕ) :=
  match latestRatification s ruleVersionId with
  | none => .error .dualControlRequired
  | some ratification =>
    if ratification.actorUserId = some actorUserId then .error .dualControlRequired
    else transitionVersion uuid now s ⟨ruleVersionId, .ACTIVE, rationale, some actorUserId, none⟩

def ratify (now : ℤ) (s : GovernanceStore) (id rationale : String) (actorUserId : ℕ) :
    Except GovernanceError GovernanceStore := do
  validateRequest id rationale
  let (s, nextId) ← transitionVersion uuid now s ⟨uuidValue id, .SHADOW, rationale, none, none⟩
  recordTransition sha256 now s id nextId "promoted_to_shadow" rationale actorUserId

/-- `/activate` without `cases`. -/
def activate (now : ℤ) (s : GovernanceStore) (id rationale : String) (actorUserId : ℕ) :
    Except GovernanceError GovernanceStore := do
  validateRequest id rationale
  let (s, nextId) ← promoteShadowRule uuid now s (uuidValue id) rationale actorUserId
  recordTransition sha256 now s id nextId "promoted_to_active" rationale actorUserId

def deprecateVersion (now : ℤ) (s : GovernanceStore) (id rationale : String) (actorUserId : ℕ) :
    Except GovernanceError GovernanceStore := do
  validateRequest id rationale
  let (s, nextId) ← transitionVersion uuid now s ⟨uuidValue id, .DEPRECATED, rationale, none, none⟩
  recordTransition sha256 now s id nextId "deprecated" rationale actorUserId

def quarantine (now : ℤ) (s : GovernanceStore) (id rationale : String) (actorUserId : ℕ) :
    Except GovernanceError GovernanceStore := do
  validateRequest id rationale
  let (s, nextId) ← transitionVersion uuid now s ⟨uuidValue id, .QUARANTINED, rationale, none, none⟩
  recordTransition sha256 now s id nextId "quarantined" rationale actorUserId

/-! ## The system -/

/-- One committed request; `seed` stands for the operations that insert a fresh version. -/
inductive GovernanceCall where
  | ratify (id rationale : String) (actorUserId : ℕ)
  | activate (id rationale : String) (actorUserId : ℕ)
  | deprecateVersion (id rationale : String) (actorUserId : ℕ)
  | quarantine (id rationale : String) (actorUserId : ℕ)
  | seed (content : RuleContent) (state : RuleLifecycle)

def runGovernance (now : ℤ) (s : GovernanceStore) : GovernanceCall → Except GovernanceError GovernanceStore
  | .ratify id rationale actor => RuleEngine.ratify uuid sha256 now s id rationale actor
  | .activate id rationale actor => RuleEngine.activate uuid sha256 now s id rationale actor
  | .deprecateVersion id rationale actor => RuleEngine.deprecateVersion uuid sha256 now s id rationale actor
  | .quarantine id rationale actor => RuleEngine.quarantine uuid sha256 now s id rationale actor
  | .seed content state => .ok { s with rules := insertVersion uuid now s.rules content state }

/-- A request in a transaction started at `now`; one that throws is rolled back. -/
def governanceStep (s : GovernanceStore) (e : ℤ × GovernanceCall) : Option GovernanceStore :=
  if e.1 < s.rules.clock then none
  else (runGovernance uuid sha256 e.1 s e.2).toOption.map
    (fun s' => { s' with rules := { s'.rules with clock := e.1 } })

/-- No rows, at a time. -/
def GovernanceStore.empty (start : ℤ) : GovernanceStore := ⟨RuleStore.empty start, []⟩

end

/-! ## Who did what -/

def isActivation (ruleVersionId : ℕ) (e : AuditEventRow) : Bool :=
  e.entity == "rule_version" && e.ruleVersionId == some ruleVersionId && e.event == "promoted_to_active"

/-- The analysts on record as having ratified a version. -/
def ratifiers (s : GovernanceStore) (ruleVersionId : ℕ) : List ℕ :=
  (s.auditEvents.filter (isRatification ruleVersionId)).filterMap (·.actorUserId)

/-- The analysts on record as having activated it, by its promotion event or by an audit event. -/
def activators (s : GovernanceStore) (ruleVersionId : ℕ) : List ℕ :=
  (s.rules.promotionEvents.filter (fun e => e.ruleVersionId = ruleVersionId ∧ e.toLifecycle = .ACTIVE)).filterMap
      PromotionEvent.dualControlAnalystId ++
    (s.auditEvents.filter (isActivation ruleVersionId)).filterMap (·.actorUserId)

/-- Every ACTIVE version that succeeds another was activated; what it succeeds is a SHADOW version
ratified by named analysts, none of whom activated it. -/
def dualControl (s : GovernanceStore) : Prop :=
  ∀ v ∈ s.rules.versions, v.lifecycleState = .ACTIVE → ∀ p, v.predecessorRuleVersionId = some p →
    (∃ u ∈ s.rules.versions, u.id = p ∧ u.lifecycleState = .SHADOW) ∧ ratifiers s p ≠ [] ∧
      activators s v.id ≠ [] ∧ ∀ analyst ∈ activators s v.id, analyst ∉ ratifiers s p

instance : DecidablePred dualControl := fun s =>
  inferInstanceAs (Decidable (∀ v ∈ s.rules.versions, v.lifecycleState = .ACTIVE →
    ∀ p ∈ v.predecessorRuleVersionId, _))

/-- The version id as the request spelled it. -/
def spelling (e : AuditEventRow) : Option String :=
  (e.detail.bind (Json.Value.get? "fromRuleVersionId")).bind Json.Value.text?

/-- A ratification spells the version it names as the earlier ratifications of it did. -/
def spelledAsBefore (s : GovernanceStore) (e : ℤ × GovernanceCall) : Prop :=
  match e.2 with
  | .ratify id _ _ => ∀ r ∈ s.auditEvents, r.event = "promoted_to_shadow" → r.entityId = some (uuidValue id) →
      spelling r = some id
  | _ => True

/-! ## What a route does -/

section

variable {uuid : ℕ → ℕ} {sha256 : String → ℕ} {now : ℤ} {s s' : GovernanceStore} {id event : String}
  {actor nextId : ℕ} {input : TransitionInput} {current : RuleVersion}

/-- The transition each route asks for and the event it writes; `/activate` has found a ratification by
someone else. -/
inductive RouteKind (s : GovernanceStore) (id : String) (actor : ℕ) : TransitionInput → String → Prop
  | ratified (rationale : String) :
    RouteKind s id actor ⟨uuidValue id, .SHADOW, rationale, none, none⟩ "promoted_to_shadow"
  | activated (rationale : String) (r : AuditEventRow) (found : latestRatification s (uuidValue id) = some r)
      (other : r.actorUserId ≠ some actor) :
    RouteKind s id actor ⟨uuidValue id, .ACTIVE, rationale, some actor, none⟩ "promoted_to_active"
  | deprecated (rationale : String) :
    RouteKind s id actor ⟨uuidValue id, .DEPRECATED, rationale, none, none⟩ "deprecated"
  | quarantined (rationale : String) :
    RouteKind s id actor ⟨uuidValue id, .QUARANTINED, rationale, none, none⟩ "quarantined"

/-- A transition, and the event about it: there already under its id, or new. -/
structure RouteRun (uuid : ℕ → ℕ) (sha256 : String → ℕ) (now : ℤ) (s : GovernanceStore) (id event : String)
    (actor : ℕ) (input : TransitionInput) (current : RuleVersion) (nextId : ℕ) (s' : GovernanceStore) :
    Prop where
  transition : Transition uuid now s.rules input current nextId s'.rules
  events :
    (s'.auditEvents = s.auditEvents ∧ ∃ e ∈ s.auditEvents, e.ruleVersionId = some nextId) ∨
    ∃ e, s'.auditEvents = s.auditEvents ++ [e] ∧ e.id = transitionEventId sha256 id nextId event ∧
      (∀ old ∈ s.auditEvents, old.id ≠ e.id) ∧
      e.toAuditEventEvidence = transitionEvent id nextId event input.rationale actor

theorem sameEvidence_ruleVersionId {a b : AuditEventEvidence} (h : sameEvidence a b = true) :
    a.ruleVersionId = b.ruleVersionId := by
  simp only [sameEvidence, Bool.and_eq_true, beq_iff_eq] at h
  exact h.1.1.2

theorem recordTransition_run {mid : GovernanceStore}
    (hmid : transitionVersion uuid now s input = .ok (mid, nextId))
    (h : recordTransition sha256 now mid id nextId event input.rationale actor = .ok s') :
    ∃ current, RouteRun uuid sha256 now s id event actor input current nextId s' := by
  -- the transition leaves the audit events alone
  obtain ⟨current, htransition, hevents⟩ : ∃ current,
      Transition uuid now s.rules input current nextId mid.rules ∧ mid.auditEvents = s.auditEvents := by
    unfold transitionVersion at hmid
    split at hmid
    · cases hmid
    · rename_i ht
      cases hmid
      obtain ⟨current, hrun⟩ := transition_cases ht
      exact ⟨current, hrun, rfl⟩
  refine ⟨current, ?_⟩
  unfold recordTransition writeAuditEvent at h
  rw [hevents] at h
  split at h
  · rename_i hnone
    cases h
    refine ⟨htransition, .inr ⟨_, rfl, rfl, fun old hold heq => ?_, rfl⟩⟩
    have := List.find?_eq_none.mp hnone old hold
    simp [heq] at this
  · rename_i row hrow
    split at h
    · rename_i hsame
      cases h
      exact ⟨htransition, .inl ⟨hevents, row, List.mem_of_find?_eq_some hrow, sameEvidence_ruleVersionId hsame⟩⟩
    · cases h

/-- Everything a request does. -/
theorem runGovernance_cases {call : GovernanceCall} (h : runGovernance uuid sha256 now s call = .ok s') :
    (∃ content state, s' = { s with rules := insertVersion uuid now s.rules content state }) ∨
    ∃ id event actor input current nextId, RouteKind s id actor input event ∧
      RouteRun uuid sha256 now s id event actor input current nextId s' ∧
      (input.toState = .SHADOW → ∃ rationale, call = .ratify id rationale actor) := by
  cases call with
  | seed content state =>
    cases h
    exact .inl ⟨content, state, rfl⟩
  | ratify id rationale actor =>
    simp only [runGovernance, ratify, ExceptOk.bind_eq_ok] at h
    obtain ⟨-, -, ⟨mid, nextId⟩, hmid, hrecord⟩ := h
    obtain ⟨current, hrun⟩ := recordTransition_run hmid hrecord
    exact .inr ⟨id, _, actor, _, current, nextId, .ratified rationale, hrun, fun _ => ⟨rationale, rfl⟩⟩
  | activate id rationale actor =>
    simp only [runGovernance, activate, ExceptOk.bind_eq_ok] at h
    obtain ⟨-, -, ⟨mid, nextId⟩, hpromote, hrecord⟩ := h
    unfold promoteShadowRule at hpromote
    split at hpromote
    · cases hpromote
    · rename_i r hr
      split at hpromote
      · cases hpromote
      · rename_i hother
        obtain ⟨current, hrun⟩ := recordTransition_run hpromote hrecord
        exact .inr ⟨id, _, actor, _, current, nextId, .activated rationale r hr hother, hrun, by simp⟩
  | deprecateVersion id rationale actor =>
    simp only [runGovernance, deprecateVersion, ExceptOk.bind_eq_ok] at h
    obtain ⟨-, -, ⟨mid, nextId⟩, hmid, hrecord⟩ := h
    obtain ⟨current, hrun⟩ := recordTransition_run hmid hrecord
    exact .inr ⟨id, _, actor, _, current, nextId, .deprecated rationale, hrun, by simp⟩
  | quarantine id rationale actor =>
    simp only [runGovernance, quarantine, ExceptOk.bind_eq_ok] at h
    obtain ⟨-, -, ⟨mid, nextId⟩, hmid, hrecord⟩ := h
    obtain ⟨current, hrun⟩ := recordTransition_run hmid hrecord
    exact .inr ⟨id, _, actor, _, current, nextId, .quarantined rationale, hrun, by simp⟩

/-! ## Membership -/

theorem isRatification_iff {i : ℕ} {e : AuditEventRow} :
    isRatification i e = true ↔
      e.entity = "rule_version" ∧ e.ruleVersionId = some i ∧ e.event = "promoted_to_shadow" := by
  simp [isRatification, and_assoc]

theorem mem_ratifiers {i analyst : ℕ} :
    analyst ∈ ratifiers s i ↔ ∃ e ∈ s.auditEvents, isRatification i e = true ∧ e.actorUserId = some analyst := by
  simp [ratifiers, and_assoc]

theorem mem_activators {i analyst : ℕ} :
    analyst ∈ activators s i ↔
      (∃ e ∈ s.rules.promotionEvents, (e.ruleVersionId = i ∧ e.toLifecycle = .ACTIVE) ∧
        e.dualControlAnalystId = some analyst) ∨
      ∃ e ∈ s.auditEvents, isActivation i e = true ∧ e.actorUserId = some analyst := by
  simp [activators, and_assoc]

theorem Transition.mem {s s' : RuleStore} (h : Transition uuid now s input current nextId s')
    {v : RuleVersion} (hv : v ∈ s'.versions) :
    v ∈ s.versions ∨ (v.id = uuid s.generated ∧ v.id = nextId ∧
      v.predecessorRuleVersionId = some input.ruleVersionId ∧ v.lifecycleState = input.toState) := by
  rcases h.versions with ⟨hversions, -⟩ | ⟨hversions, -, hid, -⟩
  · exact .inl (hversions ▸ hv)
  · rw [hversions] at hv
    rcases List.mem_append.mp hv with hv | hv
    · exact .inl hv
    · rw [List.mem_singleton] at hv
      subst hv
      exact .inr ⟨hid, rfl, rfl, rfl⟩

theorem Transition.mem_old {s s' : RuleStore} (h : Transition uuid now s input current nextId s')
    {v : RuleVersion} (hv : v ∈ s.versions) : v ∈ s'.versions := by
  rcases h.versions with ⟨hversions, -⟩ | ⟨hversions, -⟩
  · exact hversions ▸ hv
  · exact hversions ▸ List.mem_append_left _ hv

/-- The version a transition returns. -/
theorem Transition.next {s s' : RuleStore} (h : Transition uuid now s input current nextId s') :
    ∃ v ∈ s'.versions, v.id = nextId ∧ v.predecessorRuleVersionId = some input.ruleVersionId ∧
      v.lifecycleState = input.toState := by
  rcases h.versions with ⟨hversions, -, next, hnext, hfields⟩ | ⟨hversions, -⟩
  · exact ⟨next, hversions ▸ hnext, hfields⟩
  · exact ⟨_, hversions ▸ List.mem_append_right _ (List.mem_singleton_self _), rfl, rfl, rfl⟩

theorem RouteRun.mem_events (h : RouteRun uuid sha256 now s id event actor input current nextId s')
    {e : AuditEventRow} (he : e ∈ s'.auditEvents) :
    e ∈ s.auditEvents ∨ (e.id = transitionEventId sha256 id nextId event ∧
      (∀ old ∈ s.auditEvents, old.id ≠ e.id) ∧
      e.toAuditEventEvidence = transitionEvent id nextId event input.rationale actor) := by
  rcases h.events with ⟨hevents, -⟩ | ⟨row, hevents, hid, hnew, hrow⟩
  · exact .inl (hevents ▸ he)
  · rw [hevents] at he
    rcases List.mem_append.mp he with he | he
    · exact .inl he
    · rw [List.mem_singleton] at he
      subst he
      exact .inr ⟨hid, hnew, hrow⟩

theorem RouteRun.mem_events_old (h : RouteRun uuid sha256 now s id event actor input current nextId s')
    {e : AuditEventRow} (he : e ∈ s.auditEvents) : e ∈ s'.auditEvents := by
  rcases h.events with ⟨hevents, -⟩ | ⟨row, hevents, -⟩
  · exact hevents ▸ he
  · exact hevents ▸ List.mem_append_left _ he

/-- A new promotion event is about the version returned, in the state asked for, by the analyst given. -/
theorem Transition.mem_promotions {s s' : RuleStore} (h : Transition uuid now s input current nextId s')
    {e : PromotionEvent} (he : e ∈ s'.promotionEvents) :
    e ∈ s.promotionEvents ∨ (e.ruleVersionId = nextId ∧ e.toLifecycle = input.toState ∧
      e.dualControlAnalystId = input.dualControlAnalystId) := by
  rcases h.promotion with hsame | ⟨row, hnew, hrow⟩
  · exact .inl (hsame ▸ he)
  · rw [hnew] at he
    rcases List.mem_append.mp he with he | he
    · exact .inl he
    · rw [List.mem_singleton] at he
      subst he
      exact .inr hrow

theorem latestRatification_mem {i : ℕ} {r : AuditEventRow} (h : latestRatification s i = some r) :
    r ∈ s.auditEvents ∧ isRatification i r = true := by
  have := List.argmax_mem h
  exact List.mem_filter.mp this

/-! ## The invariant -/

/-- What the requests keep: rows refer to rows, and each SHADOW version that succeeds another has exactly
one ratification on record, by a named analyst, under the id hashed from its spelling. -/
structure Controlled (uuid : ℕ → ℕ) (sha256 : String → ℕ) (s : GovernanceStore) : Prop where
  ids : DistinctIds uuid s.rules
  predecessors : ∀ v ∈ s.rules.versions, ∀ p, v.predecessorRuleVersionId = some p →
    ∃ u ∈ s.rules.versions, u.id = p
  promotions : ∀ e ∈ s.rules.promotionEvents, ∃ v ∈ s.rules.versions, v.id = e.ruleVersionId
  about : ∀ e ∈ s.auditEvents, ∀ i, e.ruleVersionId = some i → ∃ v ∈ s.rules.versions, v.id = i
  ratification : ∀ e ∈ s.auditEvents, ∀ i, isRatification i e = true → (∃ analyst, e.actorUserId = some analyst) ∧
    ∃ v ∈ s.rules.versions, v.id = i ∧ ∃ p, v.predecessorRuleVersionId = some p ∧ e.entityId = some p ∧
      ∃ t, spelling e = some t ∧ e.id = transitionEventId sha256 t i "promoted_to_shadow"
  oneRatification : ∀ e ∈ s.auditEvents, ∀ e' ∈ s.auditEvents, ∀ i, isRatification i e = true →
    isRatification i e' = true → e = e'
  ratified : ∀ v ∈ s.rules.versions, v.lifecycleState = .SHADOW → ∀ p, v.predecessorRuleVersionId = some p →
    ∃ e ∈ s.auditEvents, isRatification v.id e = true
  dual : dualControl s

/-- The event of a transition, as a ratification. -/
theorem isRatification_of_event {i : ℕ} {rationale : String} {e : AuditEventRow}
    (he : e.toAuditEventEvidence = transitionEvent id nextId event rationale actor) :
    isRatification i e = true ↔ nextId = i ∧ event = "promoted_to_shadow" := by
  rw [isRatification_iff, he]
  simp [transitionEvent]

theorem isActivation_of_event {i : ℕ} {rationale : String} {e : AuditEventRow}
    (he : e.toAuditEventEvidence = transitionEvent id nextId event rationale actor) :
    isActivation i e = true ↔ nextId = i ∧ event = "promoted_to_active" := by
  simp only [isActivation, he, transitionEvent, Bool.and_eq_true, beq_iff_eq, Option.some.injEq]
  tauto

theorem RouteKind.event_shadow (h : RouteKind s id actor input event) :
    event = "promoted_to_shadow" ↔ input.toState = .SHADOW := by
  cases h <;> simp

theorem RouteKind.event_active (h : RouteKind s id actor input event) :
    event = "promoted_to_active" ↔ input.toState = .ACTIVE := by
  cases h <;> simp

theorem RouteKind.ruleVersionId (h : RouteKind s id actor input event) : input.ruleVersionId = uuidValue id := by
  cases h <;> rfl

variable (hinv : Controlled uuid sha256 s) (hkind : RouteKind s id actor input event)
  (hrun : RouteRun uuid sha256 now s id event actor input current nextId s')
include hinv

/-- A version under a fresh id has nothing on record, so the event about it is new. -/
theorem Controlled.fresh (huuid : Function.Injective uuid) :
    (∀ v ∈ s.rules.versions, v.id ≠ uuid s.rules.generated) ∧
      (∀ e ∈ s.auditEvents, e.ruleVersionId ≠ some (uuid s.rules.generated)) ∧
      ∀ e ∈ s.rules.promotionEvents, e.ruleVersionId ≠ uuid s.rules.generated := by
  refine ⟨fun v hv => hinv.ids.fresh huuid hv, fun e he heq => ?_, fun e he heq => ?_⟩
  · obtain ⟨v, hv, hid⟩ := hinv.about e he _ heq
    exact hinv.ids.fresh huuid hv hid
  · obtain ⟨v, hv, hid⟩ := hinv.promotions e he
    exact hinv.ids.fresh huuid hv (hid.trans heq)

include hrun

theorem Controlled.event_of_fresh (huuid : Function.Injective uuid) (hid : nextId = uuid s.rules.generated) :
    ∃ e ∈ s'.auditEvents, e.toAuditEventEvidence = transitionEvent id nextId event input.rationale actor := by
  rcases hrun.events with ⟨-, e, he, hnext⟩ | ⟨e, hevents, -, -, hrow⟩
  · exact absurd (hid ▸ hnext) ((hinv.fresh huuid).2.1 e he)
  · exact ⟨e, hevents ▸ List.mem_append_right _ (List.mem_singleton_self _), hrow⟩

include hkind

/-- Spelled as before, a repeated ratification adds no event; any ratification on record after the
request was there before, or is the only one of a fresh version. -/
theorem Controlled.mem_ratifications
    (hspelled : input.toState = .SHADOW → ∀ r ∈ s.auditEvents, r.event = "promoted_to_shadow" →
      r.entityId = some (uuidValue id) → spelling r = some id)
    {i : ℕ} {e : AuditEventRow} (he : e ∈ s'.auditEvents) (hrat : isRatification i e = true) :
    e ∈ s.auditEvents ∨ (i = uuid s.rules.generated ∧ i = nextId ∧ input.toState = .SHADOW ∧
      e.id = transitionEventId sha256 id nextId "promoted_to_shadow" ∧
      e.toAuditEventEvidence = transitionEvent id nextId event input.rationale actor) := by
  rcases hrun.mem_events he with hold | ⟨hid, hnew, hrow⟩
  · exact .inl hold
  obtain ⟨rfl, hevent⟩ := (isRatification_of_event hrow).mp hrat
  have hshadow := hkind.event_shadow.mp hevent
  rcases hrun.transition.versions with ⟨-, -, next, hnext, hnid, hpred, hstate⟩ | ⟨-, -, hfresh, -⟩
  · -- the SHADOW version is there already: so is a ratification under this event's id
    exfalso
    obtain ⟨r, hr, hrrat⟩ := hinv.ratified next hnext (hstate.trans hshadow) _ hpred
    rw [hnid] at hrrat
    obtain ⟨-, v, hv, hvid, p, hvp, hentity, t, ht, hrid⟩ := hinv.ratification r hr _ hrrat
    have hsame : v = next := hinv.ids.eq_of_id hv hnext (hvid.trans hnid.symm)
    rw [hsame, hpred, Option.some.injEq] at hvp
    have hspell := hspelled hshadow r hr (isRatification_iff.mp hrrat).2.2
      (by rw [hentity, ← hvp, hkind.ruleVersionId])
    rw [ht, Option.some.injEq] at hspell
    exact hnew r hr (by rw [hrid, hid, hspell, hevent])
  · exact .inr ⟨hfresh, rfl, hshadow, hevent ▸ hid, hrow⟩

/-- After the request, too, nobody has both ratified and activated a version. -/
theorem Controlled.dual_step (huuid : Function.Injective uuid)
    (hspelled : input.toState = .SHADOW → ∀ r ∈ s.auditEvents, r.event = "promoted_to_shadow" →
      r.entityId = some (uuidValue id) → spelling r = some id) : dualControl s' := by
  have hfresh := hinv.fresh huuid
  -- the ratifiers of a version that was there stay the same
  have hratifiers : ∀ u ∈ s.rules.versions, ∀ analyst, analyst ∈ ratifiers s' u.id ↔ analyst ∈ ratifiers s u.id := by
    intro u hu analyst
    rw [mem_ratifiers, mem_ratifiers]
    constructor
    · rintro ⟨e, he, hrat, hactor⟩
      rcases hinv.mem_ratifications hkind hrun hspelled he hrat with hold | ⟨hid, -⟩
      · exact ⟨e, hold, hrat, hactor⟩
      · exact absurd hid (hfresh.1 u hu)
    · rintro ⟨e, he, hrat, hactor⟩
      exact ⟨e, hrun.mem_events_old he, hrat, hactor⟩
  -- an analyst newly on record as activating is the actor of an activation
  have hactivators : ∀ i analyst, analyst ∈ activators s' i →
      analyst ∈ activators s i ∨ (i = nextId ∧ input.toState = .ACTIVE ∧ analyst = actor) := by
    intro i analyst hmem
    rcases mem_activators.mp hmem with ⟨e, he, ⟨hid, hactive⟩, hanalyst⟩ | ⟨e, he, hact, hanalyst⟩
    · rcases hrun.transition.mem_promotions he with hold | ⟨hnext, hto, hdual⟩
      · exact .inl (mem_activators.mpr (.inl ⟨e, hold, ⟨hid, hactive⟩, hanalyst⟩))
      · refine .inr ⟨hid.symm.trans hnext, hto.symm.trans hactive, ?_⟩
        rw [hdual] at hanalyst
        cases hkind <;> simp_all
    · rcases hrun.mem_events he with hold | ⟨-, -, hrow⟩
      · exact .inl (mem_activators.mpr (.inr ⟨e, hold, hact, hanalyst⟩))
      · obtain ⟨rfl, hevent⟩ := (isActivation_of_event hrow).mp hact
        rw [hrow] at hanalyst
        exact .inr ⟨rfl, hkind.event_active.mp hevent, (Option.some.inj hanalyst).symm⟩
  -- whoever activates is not among the ratifiers
  have hother : input.toState = .ACTIVE → ratifiers s (uuidValue id) ≠ [] ∧ actor ∉ ratifiers s (uuidValue id) := by
    intro hactive
    cases hkind with
    | activated rationale r hfound hne =>
      obtain ⟨hr, hrat⟩ := latestRatification_mem hfound
      obtain ⟨⟨analyst, hanalyst⟩, -⟩ := hinv.ratification r hr _ hrat
      refine ⟨List.ne_nil_of_mem (mem_ratifiers.mpr ⟨r, hr, hrat, hanalyst⟩), fun hmem => ?_⟩
      obtain ⟨r', hr', hrat', hactor⟩ := mem_ratifiers.mp hmem
      exact hne (hinv.oneRatification r hr r' hr' _ hrat hrat' ▸ hactor)
    | _ => cases hactive
  intro v hv hactive p hp
  rcases hrun.transition.mem hv with hv | ⟨hvfresh, hvnext, hvp, hvstate⟩
  · -- a version that was there
    obtain ⟨⟨u, hu, hup, hushadow⟩, hrat, hact, hapart⟩ := hinv.dual v hv hactive p hp
    subst hup
    refine ⟨⟨u, hrun.transition.mem_old hu, rfl, hushadow⟩, ?_, ?_, ?_⟩
    · obtain ⟨analyst, hanalyst⟩ := List.exists_mem_of_ne_nil _ hrat
      exact List.ne_nil_of_mem ((hratifiers u hu analyst).mpr hanalyst)
    · obtain ⟨analyst, hanalyst⟩ := List.exists_mem_of_ne_nil _ hact
      rcases mem_activators.mp hanalyst with ⟨e, he, hrest⟩ | ⟨e, he, hrest⟩
      · refine List.ne_nil_of_mem (mem_activators.mpr (.inl ⟨e, ?_, hrest⟩))
        rcases hrun.transition.promotion with hsame | ⟨row, hnew, -⟩
        · exact hsame ▸ he
        · exact hnew ▸ List.mem_append_left _ he
      · exact List.ne_nil_of_mem (mem_activators.mpr (.inr ⟨e, hrun.mem_events_old he, hrest⟩))
    · intro analyst hanalyst hrat'
      rw [hratifiers u hu] at hrat'
      rcases hactivators v.id analyst hanalyst with hold | ⟨hnext, hto, rfl⟩
      · exact hapart analyst hold hrat'
      · -- the activation is repeated: the version it returns is this one
        obtain ⟨next, hnextmem, hnid, hnpred, -⟩ := hrun.transition.next
        rcases hrun.transition.mem hnextmem with hnmem | ⟨hnfresh, -⟩
        · have hsame : next = v := hinv.ids.eq_of_id hnmem hv (hnid.trans hnext.symm)
          rw [hsame, hp, Option.some.injEq, hkind.ruleVersionId] at hnpred
          exact (hother hto).2 (hnpred ▸ hrat')
        · exact hfresh.1 v hv (hnext.trans (hnid.symm.trans hnfresh))
  · -- the version the activation inserted
    have hto : input.toState = .ACTIVE := hvstate.symm.trans hactive
    rw [hvp, Option.some.injEq, hkind.ruleVersionId] at hp
    subst hp
    obtain ⟨hcurrent, hcid⟩ := hrun.transition.found
    rw [hkind.ruleVersionId] at hcid
    have hshadow : current.lifecycleState = .SHADOW := by
      have := hrun.transition.allowed
      rw [hto] at this
      cases hstate : current.lifecycleState <;> simp_all [allowedTransitions]
    refine ⟨⟨current, hrun.transition.mem_old hcurrent, hcid, hshadow⟩, ?_, ?_, ?_⟩
    · obtain ⟨analyst, hanalyst⟩ := List.exists_mem_of_ne_nil _ (hother hto).1
      exact List.ne_nil_of_mem (hcid ▸ (hratifiers current hcurrent analyst).mpr (hcid ▸ hanalyst))
    · obtain ⟨e, he, hrow⟩ := hinv.event_of_fresh hrun huuid (hvnext.symm.trans hvfresh)
      have hact : isActivation v.id e = true :=
        (isActivation_of_event hrow).mpr ⟨hvnext.symm, hkind.event_active.mpr hto⟩
      exact List.ne_nil_of_mem (mem_activators.mpr (.inr ⟨e, he, hact, by rw [hrow]; rfl⟩))
    · intro analyst hanalyst hrat'
      rw [← hcid, hratifiers current hcurrent, hcid] at hrat'
      rcases hactivators v.id analyst hanalyst with hold | ⟨-, -, rfl⟩
      · -- nothing was on record about a fresh version
        rcases mem_activators.mp hold with ⟨e, he, ⟨hid, -⟩, -⟩ | ⟨e, he, hact, -⟩
        · exact hfresh.2.2 e he (hid.trans hvfresh)
        · simp only [isActivation, Bool.and_eq_true, beq_iff_eq] at hact
          exact hfresh.2.1 e he (hact.1.2.trans (congrArg some hvfresh))
      · exact (hother hto).2 hrat'

theorem Controlled.route_step (huuid : Function.Injective uuid)
    (hspelled : input.toState = .SHADOW → ∀ r ∈ s.auditEvents, r.event = "promoted_to_shadow" →
      r.entityId = some (uuidValue id) → spelling r = some id) : Controlled uuid sha256 s' where
  ids := hinv.ids.transition huuid hrun.transition
  predecessors := by
    intro v hv p hp
    rcases hrun.transition.mem hv with hv | ⟨-, -, hvp, -⟩
    · obtain ⟨u, hu, hid⟩ := hinv.predecessors v hv p hp
      exact ⟨u, hrun.transition.mem_old hu, hid⟩
    · rw [hvp, Option.some.injEq] at hp
      exact ⟨current, hrun.transition.mem_old hrun.transition.found.1, hrun.transition.found.2.trans hp⟩
  promotions := by
    intro e he
    rcases hrun.transition.mem_promotions he with he | ⟨hid, -⟩
    · obtain ⟨v, hv, hvid⟩ := hinv.promotions e he
      exact ⟨v, hrun.transition.mem_old hv, hvid⟩
    · obtain ⟨v, hv, hvid, -⟩ := hrun.transition.next
      exact ⟨v, hv, hvid.trans hid.symm⟩
  about := by
    intro e he i hi
    rcases hrun.mem_events he with he | ⟨-, -, hrow⟩
    · obtain ⟨v, hv, hvid⟩ := hinv.about e he i hi
      exact ⟨v, hrun.transition.mem_old hv, hvid⟩
    · obtain ⟨v, hv, hvid, -⟩ := hrun.transition.next
      rw [hrow] at hi
      exact ⟨v, hv, hvid.trans (Option.some.inj hi)⟩
  ratification := by
    intro e he i hrat
    rcases hinv.mem_ratifications hkind hrun hspelled he hrat with hold | ⟨-, rfl, -, heid, hrow⟩
    · obtain ⟨hactor, v, hv, hrest⟩ := hinv.ratification e hold i hrat
      exact ⟨hactor, v, hrun.transition.mem_old hv, hrest⟩
    · obtain ⟨v, hv, hvid, hvp, -⟩ := hrun.transition.next
      refine ⟨⟨actor, by rw [hrow]; rfl⟩, v, hv, hvid, _, hvp, ?_, id, ?_, heid⟩
      · rw [hrow, hkind.ruleVersionId]
        rfl
      · rw [spelling, hrow]
        rfl
  oneRatification := by
    intro e he e' he' i hrat hrat'
    rcases hinv.mem_ratifications hkind hrun hspelled he hrat with hold | ⟨hfresh, -, -, heid, -⟩ <;>
      rcases hinv.mem_ratifications hkind hrun hspelled he' hrat' with hold' | ⟨hfresh', -, -, heid', -⟩
    · exact hinv.oneRatification e hold e' hold' i hrat hrat'
    · exact absurd (hfresh' ▸ (isRatification_iff.mp hrat).2.1) ((hinv.fresh huuid).2.1 e hold)
    · exact absurd (hfresh ▸ (isRatification_iff.mp hrat').2.1) ((hinv.fresh huuid).2.1 e' hold')
    · -- both are the event the request inserted
      rcases hrun.events with ⟨hevents, -⟩ | ⟨row, hevents, -, hnew, -⟩
      · exact absurd (hfresh ▸ (isRatification_iff.mp hrat).2.1) ((hinv.fresh huuid).2.1 e (hevents ▸ he))
      · rw [hevents] at he he'
        rcases List.mem_append.mp he with he | he
        · exact absurd (hfresh ▸ (isRatification_iff.mp hrat).2.1) ((hinv.fresh huuid).2.1 e he)
        rcases List.mem_append.mp he' with he' | he'
        · exact absurd (hfresh ▸ (isRatification_iff.mp hrat').2.1) ((hinv.fresh huuid).2.1 e' he')
        rw [List.mem_singleton.mp he, List.mem_singleton.mp he']
  ratified := by
    intro v hv hshadow p hp
    rcases hrun.transition.mem hv with hv | ⟨hvfresh, hvnext, -, hvstate⟩
    · obtain ⟨e, he, hrat⟩ := hinv.ratified v hv hshadow p hp
      exact ⟨e, hrun.mem_events_old he, hrat⟩
    · obtain ⟨e, he, hrow⟩ := hinv.event_of_fresh hrun huuid (hvnext.symm.trans hvfresh)
      exact ⟨e, he, (isRatification_of_event hrow).mpr
        ⟨hvnext.symm, hkind.event_shadow.mpr (hvstate.symm.trans hshadow)⟩⟩
  dual := hinv.dual_step hkind hrun huuid hspelled

end

/-! ## Runs -/

section

variable {uuid : ℕ → ℕ} {sha256 : String → ℕ} {s s' : GovernanceStore}

/-- A fresh version has no predecessor and nothing on record. -/
theorem Controlled.seed (huuid : Function.Injective uuid) (hinv : Controlled uuid sha256 s) (now : ℤ)
    (content : RuleContent) (state : RuleLifecycle) :
    Controlled uuid sha256 { s with rules := insertVersion uuid now s.rules content state } where
  ids := hinv.ids.insert huuid rfl rfl rfl
  predecessors := by
    intro v hv p hp
    rcases List.mem_append.mp hv with hv | hv
    · obtain ⟨u, hu, hid⟩ := hinv.predecessors v hv p hp
      exact ⟨u, List.mem_append_left _ hu, hid⟩
    · rw [List.mem_singleton.mp hv] at hp
      cases hp
  promotions := by
    intro e he
    obtain ⟨v, hv, hid⟩ := hinv.promotions e he
    exact ⟨v, List.mem_append_left _ hv, hid⟩
  about := by
    intro e he i hi
    obtain ⟨v, hv, hid⟩ := hinv.about e he i hi
    exact ⟨v, List.mem_append_left _ hv, hid⟩
  ratification := by
    intro e he i hrat
    obtain ⟨hactor, v, hv, hrest⟩ := hinv.ratification e he i hrat
    exact ⟨hactor, v, List.mem_append_left _ hv, hrest⟩
  oneRatification := hinv.oneRatification
  ratified := by
    intro v hv hshadow p hp
    rcases List.mem_append.mp hv with hv | hv
    · exact hinv.ratified v hv hshadow p hp
    · rw [List.mem_singleton.mp hv] at hp
      cases hp
  dual := by
    intro v hv hactive p hp
    rcases List.mem_append.mp hv with hv | hv
    · obtain ⟨⟨u, hu, hrest⟩, hothers⟩ := hinv.dual v hv hactive p hp
      exact ⟨⟨u, List.mem_append_left _ hu, hrest⟩, hothers⟩
    · rw [List.mem_singleton.mp hv] at hp
      cases hp

theorem Controlled.tick (hinv : Controlled uuid sha256 s) (now : ℤ) :
    Controlled uuid sha256 { s with rules := { s.rules with clock := now } } :=
  ⟨⟨hinv.ids.generated, hinv.ids.distinct⟩, hinv.predecessors, hinv.promotions, hinv.about,
    hinv.ratification, hinv.oneRatification, hinv.ratified, hinv.dual⟩

theorem controlled_step (huuid : Function.Injective uuid) {e : ℤ × GovernanceCall}
    (hinv : Controlled uuid sha256 s) (hspelled : spelledAsBefore s e)
    (hstep : governanceStep uuid sha256 s e = some s') : Controlled uuid sha256 s' := by
  unfold governanceStep at hstep
  split at hstep
  · cases hstep
  cases hrun : runGovernance uuid sha256 e.1 s e.2 with
  | error err => rw [hrun] at hstep; cases hstep
  | ok t =>
    rw [hrun] at hstep
    cases hstep
    refine Controlled.tick ?_ e.1
    rcases runGovernance_cases hrun with
      ⟨content, state, rfl⟩ | ⟨id, event, actor, input, current, nextId, hkind, hroute, hcall⟩
    · exact hinv.seed huuid e.1 content state
    · refine hinv.route_step hkind hroute huuid fun hshadow => ?_
      obtain ⟨rationale, hratify⟩ := hcall hshadow
      simpa only [spelledAsBefore, hratify] using hspelled

theorem controlled_empty (start : ℤ) : Controlled uuid sha256 (GovernanceStore.empty start) := by
  constructor <;> simp [GovernanceStore.empty, RuleStore.empty, dualControl]
  exact ⟨by simp, by simp⟩

/-- From empty tables, in any run of requests that spell the versions they ratify as before: in every
state reached nobody has both ratified and activated a version. -/
theorem dualControl_allStates (uuid : ℕ → ℕ) (sha256 : String → ℕ) (huuid : Function.Injective uuid)
    (start : ℤ) (calls : List (ℤ × GovernanceCall))
    (hspelled : Runs.AllSteps (governanceStep uuid sha256) spelledAsBefore (GovernanceStore.empty start) calls) :
    Runs.AllStates (governanceStep uuid sha256) dualControl (GovernanceStore.empty start) calls :=
  Runs.allStates_of_allSteps (Controlled uuid sha256) (fun _ _ _ => controlled_step huuid)
    (fun _ hinv => hinv.dual) calls _ (controlled_empty start) hspelled

end

instance (s : GovernanceStore) (e : ℤ × GovernanceCall) : Decidable (spelledAsBefore s e) := by
  unfold spelledAsBefore
  split <;> infer_instance

/-! ## Two runs -/

/-- The text of an id below 16, from its last digit. -/
def versionText (last : String) : String := "00000000-0000-0000-0000-00000000000" ++ last

/-- Analyst 1 ratifies version 10, twice, and analyst 2 activates its successor 11. -/
def retriedRun : List (ℤ × GovernanceCall) :=
  [(1, .seed (exampleContent .FIRM_RULE) .PROPOSED), (2, .ratify (versionText "a") "fits" 1),
    (3, .ratify (versionText "a") "fits" 1), (4, .activate (versionText "b") "ready" 2)]

theorem retriedRun_controlled :
    Runs.AllStates (governanceStep (10 + ·) Claims.textNumber) dualControl (GovernanceStore.empty 0)
      retriedRun :=
  dualControl_allStates (10 + ·) Claims.textNumber (add_right_injective 10) 0 retriedRun (by decide +kernel)

/-- Analyst 1 ratifies version 10, analyst 2 does so again under the other spelling of its id, and analyst
1 activates the successor. -/
def respelledRun : List (ℤ × GovernanceCall) :=
  [(1, .seed (exampleContent .FIRM_RULE) .PROPOSED), (2, .ratify (versionText "a") "fits" 1),
    (3, .ratify (versionText "A") "fits" 2), (4, .activate (versionText "b") "ready" 1)]

/-- Analyst 1 has both ratified and activated. -/
theorem respelledRun_uncontrolled :
    ¬ Runs.AllStates (governanceStep (10 + ·) Claims.textNumber) dualControl (GovernanceStore.empty 0)
      respelledRun := by
  decide +kernel

end RuleEngine
