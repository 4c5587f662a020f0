import Mathlib.Data.List.MinMax
import Mathlib.Data.Prod.Lex
import FreightAuditor.Library.Json
import FreightAuditor.Library.Runs

/- The life of a rule's versions.

   `rule_version` is append-only: a transition inserts a successor row and never
   touches the row it comes from. `resolveActiveRuleVersion` picks among rows whose
   own state is ACTIVE, strongest first. The calls that move versions are
   `transitionRuleLifecycle` behind the governance routes, `quarantineOnReversal`, and
   `retireAmendedRules`; other operations insert fresh versions.

   What is proved here: what any of these calls adds to the table (`call_effect`), and
   that the resolver keeps off versions taken out of service exactly along the runs in
   which each such version was outranked anyway (`neverResolvesRetired_iff`). -/
namespace RuleEngine

inductive RuleHardness where
  | HUMAN_INPUT | AI_CANON | AI_DOCS | FIRM_RULE
  deriving DecidableEq

inductive RuleLifecycle where
  | PROPOSED | SHADOW | ACTIVE | DEPRECATED | QUARANTINED
  deriving DecidableEq

inductive RuleEmits where
  | PASS_FAIL | DOLLAR_VARIANCE
  deriving DecidableEq

inductive RuleType where
  | STRUCTURAL | INTRA_LINE | CROSS_REFERENCE | CONTRACT_CONFORMANCE | EXTERNAL_REFERENCE
  | CROSS_DOCUMENT | POLICY_ELIGIBILITY
  deriving DecidableEq

/-! ## Tables -/

/-- What a version says: the columns a transition copies. -/
structure RuleContent where
  ruleId : ℕ
  hardness : RuleHardness
  ast : Json.Value
  astHash : String
  expectedInputs : Json.Value
  emits : RuleEmits
  provenance : List (String × Json.Value)
  clauseId : Option ℕ
  /-- Days; the range is half-open, and unbounded where `validTo` is absent. -/
  validFrom : ℤ
  validTo : Option ℤ

/-- A row of `rule_version`. -/
structure RuleVersion extends RuleContent where
  id : ℕ
  lifecycleState : RuleLifecycle
  /-- The start of the transaction that inserted the row. -/
  recordedAt : ℤ
  predecessorRuleVersionId : Option ℕ

inductive PromotionDirection where
  | PROMOTE | DEMOTE
  deriving DecidableEq

/-- A row of `promotion_event`. -/
structure PromotionEvent where
  ruleVersionId : ℕ
  hardness : RuleHardness
  fromLifecycle : RuleLifecycle
  toLifecycle : RuleLifecycle
  direction : PromotionDirection
  rationale : String
  dualControlAnalystId : Option ℕ
  ruleBacktestId : Option ℕ

structure PromotionPolicy where
  clientId : Option ℕ
  ruleType : Option RuleType
  maxReversals : ℕ

structure HumanOverride where
  clientId : Option ℕ
  criterionId : ℕ
  reversalCount : ℕ

structure RuleStore where
  versions : List RuleVersion
  promotionEvents : List PromotionEvent
  rules : List (ℕ × RuleType)
  policies : List PromotionPolicy
  overrides : List HumanOverride
  /-- The start of the latest transaction. -/
  clock : ℤ
  /-- How many ids have been generated. -/
  generated : ℕ

/-- No rows, at a time. -/
def RuleStore.empty (start : ℤ) : RuleStore := ⟨[], [], [], [], [], start, 0⟩

/-! ## Resolution -/

def RuleHardness.rank : RuleHardness → ℕ
  | .FIRM_RULE => 4 | .AI_DOCS => 3 | .AI_CANON => 2 | .HUMAN_INPUT => 1

def RuleVersion.validOn (v : RuleVersion) (effectiveOn : ℤ) : Bool :=
  v.validFrom ≤ effectiveOn ∧ v.validTo.all (effectiveOn < ·)

-- the computable order of the integers, where the complete one is in scope too
local instance (priority := 2000) instPreorderTime : Preorder ℤ := Int.instLinearOrder.toPreorder

/-- `ORDER BY hardness DESC, valid_from DESC, recorded_at DESC, id DESC`. -/
def RuleVersion.orderKey (v : RuleVersion) : ℕ ×ₗ ℤ ×ₗ ℤ ×ₗ ℕ :=
  toLex (v.hardness.rank, toLex (v.validFrom, toLex (v.recordedAt, v.id)))

structure ActiveRuleRequest where
  ruleId : ℕ
  effectiveOn : ℤ
  recordedAsOf : ℤ

inductive ActiveRuleResolution where
  | FOUND (ruleVersionId : ℕ) (hardness : RuleHardness) (astHash : String)
  | UNAVAILABLE
  deriving DecidableEq

/-- The rows the query selects from. -/
def activeCandidates (s : RuleStore) (request : ActiveRuleRequest) : List RuleVersion :=
  s.versions.filter (fun v => v.ruleId = request.ruleId ∧ v.lifecycleState = .ACTIVE ∧
    v.validOn request.effectiveOn ∧ v.recordedAt ≤ request.recordedAsOf)

def resolveActiveRuleVersion (s : RuleStore) (request : ActiveRuleRequest) : ActiveRuleResolution :=
  match (activeCandidates s request).argmax RuleVersion.orderKey with
  | none => .UNAVAILABLE
  | some v => .FOUND v.id v.hardness v.astHash

/-! ## Transitions -/

inductive LifecycleError where
  | ruleVersionNotFound (id : ℕ)
  | invalidTransition (fromState toState : RuleLifecycle)
  | retryUnresolved
  /-- The check constraint `active_promotion_requires_backtest`. -/
  | activePromotionRequiresEvidence
  | reversalRequiresActive (id : ℕ)
  | promotionPolicyNotFound
  deriving DecidableEq

def allowedTransitions : RuleLifecycle → List RuleLifecycle
  | .PROPOSED => [.SHADOW, .QUARANTINED]
  | .SHADOW => [.ACTIVE, .QUARANTINED]
  | .ACTIVE => [.DEPRECATED, .QUARANTINED]
  | .QUARANTINED => [.SHADOW]
  | .DEPRECATED => []

section

-- The ids `gen_random_uuid` hands out, in order.
variable (uuid : ℕ → ℕ)

/-- Insert a row without predecessor. -/
def insertVersion (now : ℤ) (s : RuleStore) (content : RuleContent) (state : RuleLifecycle) : RuleStore :=
  { s with
    versions := s.versions ++ [⟨content, uuid s.generated, state, now, none⟩]
    generated := s.generated + 1 }

/-- The successor of a version in a state. -/
def successorId (s : RuleStore) (predecessor : ℕ) (state : RuleLifecycle) : Option ℕ :=
  (s.versions.find? (fun v => v.predecessorRuleVersionId = some predecessor ∧
    v.lifecycleState = state)).map RuleVersion.id

/-- Insert a successor row unless there is one in that state, and return the successor's id and
whether it is new. -/
def insertSuccessor (now : ℤ) (s : RuleStore) (content : RuleContent) (predecessor : ℕ)
    (state : RuleLifecycle) : RuleStore × ℕ × Bool :=
  match successorId s predecessor state with
  | some id => (s, id, false)
  | none =>
    ({ s with
        versions := s.versions ++ [⟨content, uuid s.generated, state, now, some predecessor⟩]
        generated := s.generated + 1 }, uuid s.generated, true)

structure TransitionInput where
  ruleVersionId : ℕ
  toState : RuleLifecycle
  rationale : String
  dualControlAnalystId : Option ℕ := none
  ruleBacktestId : Option ℕ := none

/-- The promotion event of a transition, unless there is one. -/
def insertPromotionEvent (s : RuleStore) (e : PromotionEvent) : RuleStore :=
  if s.promotionEvents.any (fun p => p.ruleVersionId = e.ruleVersionId ∧
      p.fromLifecycle = e.fromLifecycle ∧ p.toLifecycle = e.toLifecycle) then s
  else { s with promotionEvents := s.promotionEvents ++ [e] }

def transitionRuleLifecycle (now : ℤ) (s : RuleStore) (input : TransitionInput) :
    Except LifecycleError (RuleStore × ℕ × Bool) :=
  match s.versions.find? (fun v => v.id = input.ruleVersionId) with
  | none => .error (.ruleVersionNotFound input.ruleVersionId)
  | some current =>
    if input.toState ∉ allowedTransitions current.lifecycleState then
      .error (.invalidTransition current.lifecycleState input.toState)
    else
      let (s', nextId, created) :=
        insertSuccessor uuid now s current.toRuleContent input.ruleVersionId input.toState
      if input.toState = .ACTIVE ∧ input.dualControlAnalystId = none ∧ input.ruleBacktestId = none then
        .error .activePromotionRequiresEvidence
      else
        let direction :=
          if input.toState = .DEPRECATED ∨ input.toState = .QUARANTINED then .DEMOTE else .PROMOTE
        match s'.versions.find? (fun v => v.id = nextId) with
        | none => .ok (s', nextId, created)
        | some next =>
          .ok (insertPromotionEvent s' ⟨nextId, next.hardness, current.lifecycleState, input.toState,
            direction, input.rationale, input.dualControlAnalystId, input.ruleBacktestId⟩,
            nextId, created)

/-! ## Callers -/

/-- The most specific policy for a client and a rule type. -/
def resolvePromotionPolicy (s : RuleStore) (clientId : ℕ) (ruleType : RuleType) : Option PromotionPolicy :=
  (s.policies.filter (fun p => (p.clientId = some clientId ∨ p.clientId = none) ∧
      (p.ruleType = some ruleType ∨ p.ruleType = none))).argmax
    (fun p => 2 * (if p.clientId.isSome then 1 else 0) + (if p.ruleType.isSome then 1 else 0))

/-- The reversals of a criterion that count for a client. -/
def reversals (s : RuleStore) (clientId criterionId : ℕ) : ℕ :=
  ((s.overrides.filter (fun o => o.criterionId = criterionId ∧
    (o.clientId = some clientId ∨ o.clientId = none))).map HumanOverride.reversalCount).sum

/-- The policy a reversal of an ACTIVE version is judged by. -/
def reversalPolicy (s : RuleStore) (clientId ruleVersionId : ℕ) : Except LifecycleError PromotionPolicy :=
  match s.versions.find? (fun v => v.id = ruleVersionId) with
  | none => .error (.ruleVersionNotFound ruleVersionId)
  | some v =>
    match s.rules.lookup v.ruleId with
    | none => .error (.ruleVersionNotFound ruleVersionId)
    | some ruleType =>
      if v.lifecycleState ≠ .ACTIVE then .error (.reversalRequiresActive ruleVersionId)
      else
        match resolvePromotionPolicy s clientId ruleType with
        | none => .error .promotionPolicyNotFound
        | some policy => .ok policy

def quarantineOnReversal (now : ℤ) (s : RuleStore) (clientId criterionId ruleVersionId : ℕ) :
    Except LifecycleError RuleStore := do
  let policy ← reversalPolicy s clientId ruleVersionId
  let count := reversals s clientId criterionId
  if count ≤ policy.maxReversals then return s
  let (s', _) ← transitionRuleLifecycle uuid now s ⟨ruleVersionId, .QUARANTINED,
    "Reversal threshold exceeded: " ++ toString count ++ " > " ++ toString policy.maxReversals, none, none⟩
  return s'

inductive ClauseChange where
  | ADDED | REMOVED | CHANGED
  deriving DecidableEq

def ClauseChange.lowerCase : ClauseChange → String
  | .ADDED => "added" | .REMOVED => "removed" | .CHANGED => "changed"

/-- What an amendment did to one clause, and the ACTIVE versions derived from it. -/
structure ClauseImpact where
  clauseReference : String
  change : ClauseChange
  newClauseId : Option ℕ
  affectedRuleVersionIds : List ℕ

/-- `jsonb ||`: fields of the right object override. -/
def mergeFields (a b : List (String × Json.Value)) : List (String × Json.Value) :=
  a.filter (fun f => (b.lookup f.1).isNone) ++ b

/-- One version derived from an amended clause: deprecate it, and where the clause has a new text
propose a replacement under it. -/
def retireOne (now : ℤ) (amendmentId : String) (s : RuleStore) (impact : ClauseImpact)
    (oldRuleVersionId : ℕ) : Except LifecycleError RuleStore := do
  let (s', deprecatedId, _) ← transitionRuleLifecycle uuid now s
    ⟨oldRuleVersionId, .DEPRECATED, "Contract amendment " ++ amendmentId ++ ": clause " ++
      impact.clauseReference ++ " " ++ impact.change.lowerCase, none, none⟩
  if impact.change = .CHANGED then
    match impact.newClauseId with
    | none => return s'
    | some clauseId =>
      match s'.versions.find? (fun v => v.id = deprecatedId) with
      | none => .error .retryUnresolved
      | some deprecated =>
        let content := { deprecated.toRuleContent with
          clauseId := some clauseId
          provenance := mergeFields deprecated.provenance
            [("contractAmendmentId", .str amendmentId), ("replacementFor", .str (toString deprecatedId))] }
        return (insertSuccessor uuid now s' content deprecatedId .PROPOSED).1
  else return s'

/-- The versions an amendment retires, with the clause each was derived from. -/
def retirements (impacts : List ClauseImpact) : List (ClauseImpact × ℕ) :=
  impacts.flatMap (fun impact => impact.affectedRuleVersionIds.map (fun id => (impact, id)))

def retireAmendedRules (now : ℤ) (amendmentId : String) (s : RuleStore) (impacts : List ClauseImpact) :
    Except LifecycleError RuleStore :=
  (retirements impacts).foldlM (fun s r => retireOne uuid now amendmentId s r.1 r.2) s

/-! ## The system -/

/-- One committed call. The routes `ratify`, `activate`, `deprecate` and `quarantine` are each one
transition; `seed` stands for the operations that insert a fresh version, and `otherTables` for
writes to the tables these calls only read. -/
inductive Call where
  | ratifyRule (ruleVersionId : ℕ) (rationale : String)
  | activateRule (ruleVersionId : ℕ) (rationale : String) (dualControlAnalystId ruleBacktestId : Option ℕ)
  | deprecateRule (ruleVersionId : ℕ) (rationale : String)
  | quarantineRule (ruleVersionId : ℕ) (rationale : String)
  | quarantineOnReversal (clientId criterionId ruleVersionId : ℕ)
  | retireAmendedRules (amendmentId : String) (impacts : List ClauseImpact)
  | seed (content : RuleContent) (state : RuleLifecycle)
  | otherTables (rules : List (ℕ × RuleType)) (policies : List PromotionPolicy)
      (overrides : List HumanOverride)

def runCall (now : ℤ) (s : RuleStore) : Call → Except LifecycleError RuleStore
  | .ratifyRule id rationale =>
    (transitionRuleLifecycle uuid now s ⟨id, .SHADOW, rationale, none, none⟩).map Prod.fst
  | .activateRule id rationale analyst backtest =>
    (transitionRuleLifecycle uuid now s ⟨id, .ACTIVE, rationale, analyst, backtest⟩).map Prod.fst
  | .deprecateRule id rationale =>
    (transitionRuleLifecycle uuid now s ⟨id, .DEPRECATED, rationale, none, none⟩).map Prod.fst
  | .quarantineRule id rationale =>
    (transitionRuleLifecycle uuid now s ⟨id, .QUARANTINED, rationale, none, none⟩).map Prod.fst
  | .quarantineOnReversal clientId criterionId id =>
    RuleEngine.quarantineOnReversal uuid now s clientId criterionId id
  | .retireAmendedRules amendmentId impacts =>
    RuleEngine.retireAmendedRules uuid now amendmentId s impacts
  | .seed content state => .ok (insertVersion uuid now s content state)
  | .otherTables rules policies overrides =>
    .ok { s with rules := rules, policies := policies, overrides := overrides }

/-- A call in a transaction started at `now`; time does not go back, and a call that throws is
rolled back. -/
def lifecycleStep (s : RuleStore) (e : ℤ × Call) : Option RuleStore :=
  if e.1 < s.clock then none
  else (runCall uuid e.1 s e.2).toOption.map (fun s' => { s' with clock := e.1 })

end

/-! ## What a call adds -/

/-- Taken out of service. -/
def RuleLifecycle.retired : RuleLifecycle → Bool
  | .DEPRECATED | .QUARANTINED => true
  | _ => false

section

variable {uuid : ℕ → ℕ}

/-- The versions a call takes out of service. -/
def takesOut (s : RuleStore) : Call → List ℕ
  | .deprecateRule id _ => [id]
  | .quarantineRule id _ => [id]
  | .quarantineOnReversal clientId criterionId id =>
    match reversalPolicy s clientId id with
    | .ok policy => if reversals s clientId criterionId ≤ policy.maxReversals then [] else [id]
    | .error _ => []
  | .retireAmendedRules _ impacts => (retirements impacts).map Prod.snd
  | _ => []

/-- An id the database has generated. -/
def Generated (uuid : ℕ → ℕ) (n id : ℕ) : Prop := ∃ i < n, id = uuid i

/-- Rows refer to rows, and nothing was recorded after the clock. -/
structure WellFormed (uuid : ℕ → ℕ) (s : RuleStore) : Prop where
  ids : ∀ v ∈ s.versions, Generated uuid s.generated v.id
  predecessors : ∀ v ∈ s.versions, ∀ p, v.predecessorRuleVersionId = some p → Generated uuid s.generated p
  recorded : ∀ v ∈ s.versions, v.recordedAt ≤ s.clock

/-- Everything a call that takes out the versions `out` does to the table: it adds rows under fresh
ids, with predecessors in the table; each version taken out has a retired successor then, and among
the added rows only those are retired. -/
structure Effect (uuid : ℕ → ℕ) (now : ℤ) (out : List ℕ) (added : List RuleVersion)
    (s s' : RuleStore) : Prop where
  versions : s'.versions = s.versions ++ added
  clock : s'.clock = s.clock
  generated : s.generated ≤ s'.generated
  recordedAt : ∀ v ∈ added, v.recordedAt = now
  fresh : ∀ v ∈ added, ∃ i, s.generated ≤ i ∧ i < s'.generated ∧ v.id = uuid i
  predecessor : ∀ v ∈ added, ∀ p, v.predecessorRuleVersionId = some p → ∃ u ∈ s'.versions, u.id = p
  retired : ∀ v ∈ added, v.lifecycleState.retired = true → ∀ p, v.predecessorRuleVersionId = some p → p ∈ out
  out : ∀ id ∈ out, ∃ v ∈ s'.versions, v.predecessorRuleVersionId = some id ∧ v.lifecycleState.retired = true

/-- No row is added as ACTIVE. -/
def NoActive (added : List RuleVersion) : Prop := ∀ v ∈ added, v.lifecycleState ≠ .ACTIVE

variable {now : ℤ} {s s' s'' : RuleStore}

theorem Effect.refl : Effect uuid now [] [] s s where
  versions := by simp
  clock := rfl
  generated := le_rfl
  recordedAt := by simp
  fresh := by simp
  predecessor := by simp
  retired := by simp
  out := by simp

theorem Effect.trans {out out' : List ℕ} {added added' : List RuleVersion}
    (h : Effect uuid now out added s s') (h' : Effect uuid now out' added' s' s'') :
    Effect uuid now (out ++ out') (added ++ added') s s'' where
  versions := by rw [h'.versions, h.versions, List.append_assoc]
  clock := h'.clock.trans h.clock
  generated := h.generated.trans h'.generated
  recordedAt := by
    intro v hv
    rcases List.mem_append.mp hv with hv | hv
    · exact h.recordedAt v hv
    · exact h'.recordedAt v hv
  fresh := by
    intro v hv
    rcases List.mem_append.mp hv with hv | hv
    · obtain ⟨i, hlo, hhi, hid⟩ := h.fresh v hv
      exact ⟨i, hlo, hhi.trans_le h'.generated, hid⟩
    · obtain ⟨i, hlo, hhi, hid⟩ := h'.fresh v hv
      exact ⟨i, h.generated.trans hlo, hhi, hid⟩
  predecessor := by
    intro v hv p hp
    rcases List.mem_append.mp hv with hv | hv
    · obtain ⟨u, hu, hid⟩ := h.predecessor v hv p hp
      exact ⟨u, by rw [h'.versions]; exact List.mem_append_left _ hu, hid⟩
    · exact h'.predecessor v hv p hp
  retired := by
    intro v hv hr p hp
    rcases List.mem_append.mp hv with hv | hv
    · exact List.mem_append_left _ (h.retired v hv hr p hp)
    · exact List.mem_append_right _ (h'.retired v hv hr p hp)
  out := by
    intro id hid
    rcases List.mem_append.mp hid with hid | hid
    · obtain ⟨v, hv, hp⟩ := h.out id hid
      exact ⟨v, by rw [h'.versions]; exact List.mem_append_left _ hv, hp⟩
    · exact h'.out id hid

theorem NoActive.append {a b : List RuleVersion} (ha : NoActive a) (hb : NoActive b) :
    NoActive (a ++ b) := by
  intro v hv
  rcases List.mem_append.mp hv with hv | hv
  · exact ha v hv
  · exact hb v hv

/-- Rows stay as they are: an effect only depends on the table, the clock and the id supply. -/
theorem Effect.of_promotionEvents {out : List ℕ} {added : List RuleVersion}
    (h : Effect uuid now out added s s') (e : PromotionEvent) :
    Effect uuid now out added s (insertPromotionEvent s' e) := by
  unfold insertPromotionEvent
  split
  · exact h
  · exact ⟨h.versions, h.clock, h.generated, h.recordedAt, h.fresh, h.predecessor, h.retired, h.out⟩

variable (uuid now) in
/-- A row added to the table. -/
theorem effect_insert (content : RuleContent) (state : RuleLifecycle) (predecessor : Option ℕ)
    (hpred : ∀ p, predecessor = some p → ∃ u ∈ s.versions, u.id = p) :
    Effect uuid now (if state.retired then predecessor.toList else [])
      [⟨content, uuid s.generated, state, now, predecessor⟩] s
      { s with
        versions := s.versions ++ [⟨content, uuid s.generated, state, now, predecessor⟩]
        generated := s.generated + 1 } where
  versions := rfl
  clock := rfl
  generated := Nat.le_succ _
  recordedAt := by simp
  fresh := by
    intro v hv
    rw [List.mem_singleton] at hv
    exact ⟨s.generated, le_rfl, Nat.lt_succ_self _, by rw [hv]⟩
  predecessor := by
    intro v hv p hp
    rw [List.mem_singleton] at hv
    subst hv
    obtain ⟨u, hu, hid⟩ := hpred p hp
    exact ⟨u, List.mem_append_left _ hu, hid⟩
  retired := by
    intro v hv hr p hp
    rw [List.mem_singleton] at hv
    subst hv
    simp [show state.retired = true from hr, show predecessor = some p from hp]
  out := by
    intro id hid
    split at hid
    · rename_i hr
      exact ⟨_, List.mem_append_right _ (List.mem_singleton_self _), by simpa using hid, hr⟩
    · cases hid

variable (uuid now) in
theorem insertSuccessor_effect (content : RuleContent) (predecessor : ℕ) (state : RuleLifecycle)
    (hpred : ∃ u ∈ s.versions, u.id = predecessor) :
    ∃ added, Effect uuid now (if state.retired then [predecessor] else []) added s
        (insertSuccessor uuid now s content predecessor state).1 ∧
      (∀ v ∈ added, v.lifecycleState = state) := by
  unfold insertSuccessor successorId
  cases hfind : s.versions.find? (fun v => v.predecessorRuleVersionId = some predecessor ∧
      v.lifecycleState = state) with
  | none =>
    refine ⟨[⟨content, uuid s.generated, state, now, some predecessor⟩], ?_, by simp⟩
    exact effect_insert uuid now content state (some predecessor) (by rintro p ⟨rfl⟩; exact hpred)
  | some v =>
    -- the successor is there already: nothing changes
    refine ⟨[], ⟨by simp, rfl, le_rfl, by simp, by simp, by simp, by simp, ?_⟩, by simp⟩
    intro id hid
    split at hid
    · rename_i hr
      rw [List.mem_singleton] at hid
      subst hid
      obtain ⟨hp, hs⟩ : v.predecessorRuleVersionId = some id ∧ v.lifecycleState = state := by
        simpa using List.find?_some hfind
      exact ⟨v, List.mem_of_find?_eq_some hfind, hp, by rw [hs]; exact hr⟩
    · cases hid

variable (uuid now s) in
/-- The successor a transition or a retry returns is in the table. -/
theorem insertSuccessor_mem (content : RuleContent) (predecessor : ℕ) (state : RuleLifecycle) :
    ∃ u ∈ (insertSuccessor uuid now s content predecessor state).1.versions,
      u.id = (insertSuccessor uuid now s content predecessor state).2.1 := by
  unfold insertSuccessor successorId
  cases hfind : s.versions.find? (fun v => v.predecessorRuleVersionId = some predecessor ∧
      v.lifecycleState = state) with
  | none => exact ⟨_, List.mem_append_right _ (List.mem_singleton_self _), rfl⟩
  | some v => exact ⟨v, List.mem_of_find?_eq_some hfind, rfl⟩

theorem insertPromotionEvent_versions (e : PromotionEvent) :
    (insertPromotionEvent s e).versions = s.versions := by
  unfold insertPromotionEvent
  split <;> rfl

/-- A transition inserts the successor, if anything, and returns one that is in the table. -/
theorem transition_effect {input : TransitionInput} {nextId : ℕ} {created : Bool}
    (h : transitionRuleLifecycle uuid now s input = .ok (s', nextId, created)) :
    (∃ added, Effect uuid now (if input.toState.retired then [input.ruleVersionId] else []) added s s' ∧
      ∀ v ∈ added, v.lifecycleState = input.toState) ∧ ∃ u ∈ s'.versions, u.id = nextId := by
  unfold transitionRuleLifecycle at h
  split at h
  · cases h
  rename_i current hcurrent
  split at h
  · cases h
  have hmem : ∃ u ∈ s.versions, u.id = input.ruleVersionId :=
    ⟨current, List.mem_of_find?_eq_some hcurrent, by simpa using List.find?_some hcurrent⟩
  obtain ⟨added, heffect, hstate⟩ := insertSuccessor_effect uuid now
    current.toRuleContent input.ruleVersionId input.toState hmem
  have hnext := insertSuccessor_mem uuid now s current.toRuleContent input.ruleVersionId input.toState
  dsimp only at h
  split at h
  · cases h
  split at h
  · cases h
    exact ⟨⟨added, heffect, hstate⟩, hnext⟩
  · cases h
    refine ⟨⟨added, heffect.of_promotionEvents _, hstate⟩, ?_⟩
    rw [insertPromotionEvent_versions]
    exact hnext

/-- A transition from the row `current` that returns `nextId`: the successor in the state asked for is
there or is inserted, and at most one promotion event is. -/
structure Transition (uuid : ℕ → ℕ) (now : ℤ) (s : RuleStore) (input : TransitionInput) (current : RuleVersion)
    (nextId : ℕ) (s' : RuleStore) : Prop where
  found : current ∈ s.versions ∧ current.id = input.ruleVersionId
  allowed : input.toState ∈ allowedTransitions current.lifecycleState
  evidence : ¬ (input.toState = .ACTIVE ∧ input.dualControlAnalystId = none ∧ input.ruleBacktestId = none)
  versions :
    (s'.versions = s.versions ∧ s'.generated = s.generated ∧ ∃ next ∈ s.versions, next.id = nextId ∧
      next.predecessorRuleVersionId = some input.ruleVersionId ∧ next.lifecycleState = input.toState) ∨
    (s'.versions = s.versions ++
        [⟨current.toRuleContent, nextId, input.toState, now, some input.ruleVersionId⟩] ∧
      s'.generated = s.generated + 1 ∧ nextId = uuid s.generated ∧
      ∀ v ∈ s.versions, v.predecessorRuleVersionId = some input.ruleVersionId →
        v.lifecycleState ≠ input.toState)
  promotion : s'.promotionEvents = s.promotionEvents ∨
    ∃ e, s'.promotionEvents = s.promotionEvents ++ [e] ∧ e.ruleVersionId = nextId ∧
      e.toLifecycle = input.toState ∧ e.dualControlAnalystId = input.dualControlAnalystId

theorem insertPromotionEvent_cases (e : PromotionEvent) :
    (insertPromotionEvent s e).promotionEvents = s.promotionEvents ∨
      (insertPromotionEvent s e).promotionEvents = s.promotionEvents ++ [e] := by
  unfold insertPromotionEvent
  split
  · exact .inl rfl
  · exact .inr rfl

theorem insertPromotionEvent_generated (e : PromotionEvent) :
    (insertPromotionEvent s e).generated = s.generated := by
  unfold insertPromotionEvent
  split <;> rfl

variable (uuid now s) in
theorem insertSuccessor_promotionEvents (content : RuleContent) (predecessor : ℕ) (state : RuleLifecycle) :
    (insertSuccessor uuid now s content predecessor state).1.promotionEvents = s.promotionEvents := by
  unfold insertSuccessor
  split <;> rfl

/-- Everything a transition does. -/
theorem transition_cases {input : TransitionInput} {nextId : ℕ} {created : Bool}
    (h : transitionRuleLifecycle uuid now s input = .ok (s', nextId, created)) :
    ∃ current, Transition uuid now s input current nextId s' := by
  unfold transitionRuleLifecycle at h
  split at h
  · cases h
  rename_i current hcurrent
  split at h
  · cases h
  rename_i hallowed
  have hfound : current ∈ s.versions ∧ current.id = input.ruleVersionId :=
    ⟨List.mem_of_find?_eq_some hcurrent, by simpa using List.find?_some hcurrent⟩
  -- the successor, before the promotion event is written
  obtain ⟨mid, id, new, hsuccessor⟩ :
      ∃ mid id new, insertSuccessor uuid now s current.toRuleContent input.ruleVersionId input.toState =
        (mid, id, new) := ⟨_, _, _, rfl⟩
  have hevents : mid.promotionEvents = s.promotionEvents := by
    rw [← insertSuccessor_promotionEvents uuid now s current.toRuleContent, hsuccessor]
  have hversions : (mid.versions = s.versions ∧ mid.generated = s.generated ∧ ∃ next ∈ s.versions,
        next.id = id ∧ next.predecessorRuleVersionId = some input.ruleVersionId ∧
          next.lifecycleState = input.toState) ∨
      (mid.versions = s.versions ++
          [⟨current.toRuleContent, id, input.toState, now, some input.ruleVersionId⟩] ∧
        mid.generated = s.generated + 1 ∧ id = uuid s.generated ∧
        ∀ v ∈ s.versions, v.predecessorRuleVersionId = some input.ruleVersionId →
          v.lifecycleState ≠ input.toState) := by
    unfold insertSuccessor successorId at hsuccessor
    cases hfind : s.versions.find? (fun v => v.predecessorRuleVersionId = some input.ruleVersionId ∧
        v.lifecycleState = input.toState) with
    | none =>
      rw [hfind] at hsuccessor
      cases hsuccessor
      refine .inr ⟨rfl, rfl, rfl, fun v hv hp hstate => ?_⟩
      have := List.find?_eq_none.mp hfind v hv
      simp [hp, hstate] at this
    | some v =>
      rw [hfind] at hsuccessor
      cases hsuccessor
      have hv : v.predecessorRuleVersionId = some input.ruleVersionId ∧ v.lifecycleState = input.toState := by
        simpa using List.find?_some hfind
      exact .inl ⟨rfl, rfl, v, List.mem_of_find?_eq_some hfind, rfl, hv⟩
  rw [hsuccessor] at h
  dsimp only at h
  split at h
  · cases h
  rename_i hevidence
  split at h
  · cases h
    exact ⟨current, hfound, not_not.mp hallowed, hevidence, hversions, .inl hevents⟩
  · rename_i next hnext
    cases h
    refine ⟨current, hfound, not_not.mp hallowed, hevidence, ?_, ?_⟩
    · rw [insertPromotionEvent_versions, insertPromotionEvent_generated]
      exact hversions
    · rcases insertPromotionEvent_cases (s := mid) _ with hsame | hnew
      · exact .inl (hsame.trans hevents)
      · exact .inr ⟨_, by rw [hnew, hevents], rfl, rfl, rfl⟩

theorem noActive_of_state {added : List RuleVersion} {state : RuleLifecycle}
    (h : ∀ v ∈ added, v.lifecycleState = state) (hne : state ≠ .ACTIVE) : NoActive added :=
  fun v hv => h v hv ▸ hne

theorem retireOne_effect {amendmentId : String} {impact : ClauseImpact} {oldId : ℕ}
    (h : retireOne uuid now amendmentId s impact oldId = .ok s') :
    ∃ added, Effect uuid now [oldId] added s s' ∧ NoActive added := by
  unfold retireOne at h
  cases ht : transitionRuleLifecycle uuid now s ⟨oldId, .DEPRECATED, "Contract amendment " ++ amendmentId ++
      ": clause " ++ impact.clauseReference ++ " " ++ impact.change.lowerCase, none, none⟩ with
  | error e => rw [ht] at h; cases h
  | ok r =>
    obtain ⟨mid, deprecatedId, created⟩ := r
    rw [ht] at h
    obtain ⟨⟨added, heffect, hstate⟩, hnext⟩ := transition_effect ht
    have hno : NoActive added := noActive_of_state hstate (by simp)
    simp only [bind, Except.bind] at h
    split at h
    · split at h
      · cases h
        exact ⟨added, heffect, hno⟩
      · split at h
        · cases h
        · rename_i deprecated hfind
          cases h
          -- the replacement is a PROPOSED successor of the deprecated version
          obtain ⟨added', heffect', hstate'⟩ := insertSuccessor_effect uuid now
            { deprecated.toRuleContent with
              clauseId := some _
              provenance := mergeFields deprecated.provenance _ } deprecatedId .PROPOSED hnext
          refine ⟨added ++ added', ?_, hno.append (noActive_of_state hstate' (by decide))⟩
          simpa [RuleLifecycle.retired] using heffect.trans heffect'
    · cases h
      exact ⟨added, heffect, hno⟩

theorem retireAmendedRules_effect {amendmentId : String} {impacts : List ClauseImpact}
    (h : retireAmendedRules uuid now amendmentId s impacts = .ok s') :
    ∃ added, Effect uuid now ((retirements impacts).map Prod.snd) added s s' ∧ NoActive added := by
  unfold retireAmendedRules at h
  generalize retirements impacts = todo at h
  induction todo generalizing s with
  | nil =>
    cases h
    exact ⟨[], Effect.refl, by simp [NoActive]⟩
  | cons r rest ih =>
    rw [List.foldlM_cons] at h
    cases hone : retireOne uuid now amendmentId s r.1 r.2 with
    | error e => rw [hone] at h; cases h
    | ok mid =>
      rw [hone] at h
      obtain ⟨added, heffect, hno⟩ := retireOne_effect hone
      obtain ⟨added', heffect', hno'⟩ := ih h
      exact ⟨added ++ added', by simpa using heffect.trans heffect', hno.append hno'⟩

/-- What any call adds; a call that takes versions out adds no ACTIVE one. -/
theorem call_effect {call : Call} (h : runCall uuid now s call = .ok s') :
    ∃ added, Effect uuid now (takesOut s call) added s s' ∧ (takesOut s call ≠ [] → NoActive added) := by
  have route : ∀ input : TransitionInput,
      (transitionRuleLifecycle uuid now s input).map Prod.fst = .ok s' →
      ∃ added, Effect uuid now (if input.toState.retired then [input.ruleVersionId] else []) added s s' ∧
        ∀ v ∈ added, v.lifecycleState = input.toState := by
    intro input hroute
    cases ht : transitionRuleLifecycle uuid now s input with
    | error e => rw [ht] at hroute; cases hroute
    | ok r =>
      obtain ⟨t, nextId, created⟩ := r
      rw [ht] at hroute
      cases hroute
      exact (transition_effect ht).1
  cases call with
  | ratifyRule id rationale =>
    obtain ⟨added, heffect, hstate⟩ := route _ h
    exact ⟨added, heffect, fun _ => noActive_of_state hstate (by simp)⟩
  | activateRule id rationale analyst backtest =>
    obtain ⟨added, heffect, hstate⟩ := route _ h
    exact ⟨added, heffect, fun hne => absurd rfl hne⟩
  | deprecateRule id rationale =>
    obtain ⟨added, heffect, hstate⟩ := route _ h
    exact ⟨added, heffect, fun _ => noActive_of_state hstate (by simp)⟩
  | quarantineRule id rationale =>
    obtain ⟨added, heffect, hstate⟩ := route _ h
    exact ⟨added, heffect, fun _ => noActive_of_state hstate (by simp)⟩
  | quarantineOnReversal clientId criterionId id =>
    simp only [runCall, quarantineOnReversal] at h
    cases hpolicy : reversalPolicy s clientId id with
    | error e => rw [hpolicy] at h; cases h
    | ok policy =>
      rw [hpolicy] at h
      simp only [bind, Except.bind] at h
      by_cases hle : reversals s clientId criterionId ≤ policy.maxReversals
      · simp only [hle, if_true] at h
        cases h
        refine ⟨[], ?_, fun _ => by simp [NoActive]⟩
        simpa [takesOut, hpolicy, hle] using Effect.refl
      · simp only [hle, if_false] at h
        split at h
        · cases h
        · rename_i r hr
          obtain ⟨t, nextId, created⟩ := r
          cases h
          obtain ⟨added, heffect, hstate⟩ := (transition_effect hr).1
          refine ⟨added, ?_, fun _ => noActive_of_state hstate (by simp)⟩
          simpa [takesOut, hpolicy, hle, RuleLifecycle.retired] using heffect
  | retireAmendedRules amendmentId impacts =>
    obtain ⟨added, heffect, hno⟩ := retireAmendedRules_effect h
    exact ⟨added, heffect, fun _ => hno⟩
  | seed content state =>
    cases h
    have heffect := effect_insert uuid now (s := s) content state none (by simp)
    have hout : (if state.retired then (none : Option ℕ).toList else []) = [] := by split <;> rfl
    rw [hout] at heffect
    exact ⟨_, heffect, fun hne => absurd rfl hne⟩
  | otherTables rules policies overrides =>
    cases h
    exact ⟨[], ⟨by simp, rfl, le_rfl, by simp, by simp, by simp, by simp, by simp [takesOut]⟩,
      fun hne => absurd rfl hne⟩

/-! ## Versions taken out of service -/

/-- A version has a retired successor by a time. -/
def retiredBy (s : RuleStore) (id : ℕ) (t : ℤ) : Prop :=
  ∃ w ∈ s.versions, w.predecessorRuleVersionId = some id ∧ w.lifecycleState.retired = true ∧ w.recordedAt ≤ t

/-- No resolution returns a version that has a retired successor by its cutoff. -/
def neverResolvesRetired (s : RuleStore) : Prop :=
  ∀ request id hardness astHash, resolveActiveRuleVersion s request = .FOUND id hardness astHash →
    ¬ retiredBy s id request.recordedAsOf

/-- On every day the version is valid, another ACTIVE version of its rule comes before it. -/
def outranked (s : RuleStore) (v : RuleVersion) : Prop :=
  ∀ day, v.validOn day = true → ∃ w ∈ s.versions, w.ruleId = v.ruleId ∧ w.lifecycleState = .ACTIVE ∧
    w.validOn day = true ∧ v.orderKey < w.orderKey

/-- Each ACTIVE version the call takes out of service is outranked. -/
def takesOutOutranked (s : RuleStore) (e : ℤ × Call) : Prop :=
  ∀ id ∈ takesOut s e.2, ∀ v ∈ s.versions, v.id = id → v.lifecycleState = .ACTIVE → outranked s v

theorem mem_activeCandidates {v : RuleVersion} {request : ActiveRuleRequest} :
    v ∈ activeCandidates s request ↔ v ∈ s.versions ∧ v.ruleId = request.ruleId ∧
      v.lifecycleState = .ACTIVE ∧ v.validOn request.effectiveOn = true ∧
      v.recordedAt ≤ request.recordedAsOf := by
  simp [activeCandidates, List.mem_filter]

/-- The version found is a candidate that no candidate comes before. -/
theorem resolve_found {request : ActiveRuleRequest} {id : ℕ} {hardness : RuleHardness} {astHash : String}
    (h : resolveActiveRuleVersion s request = .FOUND id hardness astHash) :
    ∃ v ∈ activeCandidates s request, v.id = id ∧
      ∀ w ∈ activeCandidates s request, w.orderKey ≤ v.orderKey := by
  unfold resolveActiveRuleVersion at h
  split at h
  · cases h
  · rename_i v hv
    cases h
    exact ⟨v, List.argmax_mem hv, rfl, fun w hw => List.le_of_mem_argmax hw hv⟩

/-- Where there is a candidate, the resolver finds one that comes before all. -/
theorem resolve_some {request : ActiveRuleRequest} {v : RuleVersion}
    (hv : v ∈ activeCandidates s request) :
    ∃ m ∈ activeCandidates s request, v.orderKey ≤ m.orderKey ∧
      resolveActiveRuleVersion s request = .FOUND m.id m.hardness m.astHash := by
  cases hm : (activeCandidates s request).argmax RuleVersion.orderKey with
  | none =>
    rw [List.argmax_eq_none] at hm
    rw [hm] at hv
    cases hv
  | some m =>
    exact ⟨m, List.argmax_mem hm, List.le_of_mem_argmax hv hm, by simp [resolveActiveRuleVersion, hm]⟩

theorem orderKey_id {v w : RuleVersion} (h : v.orderKey = w.orderKey) : v.id = w.id := by
  simp only [RuleVersion.orderKey, EmbeddingLike.apply_eq_iff_eq, Prod.mk.injEq] at h
  exact h.2.2.2

theorem lifecycleStep_some {e : ℤ × Call} (h : lifecycleStep uuid s e = some s') :
    s.clock ≤ e.1 ∧ ∃ t, runCall uuid e.1 s e.2 = .ok t ∧ s' = { t with clock := e.1 } := by
  unfold lifecycleStep at h
  split at h
  · cases h
  · rename_i hclock
    refine ⟨not_lt.mp hclock, ?_⟩
    cases hrun : runCall uuid e.1 s e.2 with
    | error err => rw [hrun] at h; cases h
    | ok t =>
      rw [hrun] at h
      cases h
      exact ⟨t, rfl, rfl⟩

theorem wellFormed_empty (start : ℤ) : WellFormed uuid (RuleStore.empty start) :=
  ⟨by simp [RuleStore.empty], by simp [RuleStore.empty], by simp [RuleStore.empty]⟩

theorem wellFormed_step {e : ℤ × Call} (h : WellFormed uuid s) (hstep : lifecycleStep uuid s e = some s') :
    WellFormed uuid s' := by
  obtain ⟨hclock, t, hrun, rfl⟩ := lifecycleStep_some hstep
  obtain ⟨added, heffect, -⟩ := call_effect hrun
  have hids : ∀ v ∈ t.versions, Generated uuid t.generated v.id := by
    intro v hv
    rw [heffect.versions] at hv
    rcases List.mem_append.mp hv with hv | hv
    · obtain ⟨i, hi, hid⟩ := h.ids v hv
      exact ⟨i, hi.trans_le heffect.generated, hid⟩
    · obtain ⟨i, -, hi, hid⟩ := heffect.fresh v hv
      exact ⟨i, hi, hid⟩
  refine ⟨hids, ?_, ?_⟩
  · intro v hv p hp
    rw [show ({ t with clock := e.1 } : RuleStore).versions = t.versions from rfl, heffect.versions] at hv
    rcases List.mem_append.mp hv with hv | hv
    · obtain ⟨i, hi, hid⟩ := h.predecessors v hv p hp
      exact ⟨i, hi.trans_le heffect.generated, hid⟩
    · obtain ⟨u, hu, rfl⟩ := heffect.predecessor v hv p hp
      exact hids u hu
  · intro v hv
    rw [show ({ t with clock := e.1 } : RuleStore).versions = t.versions from rfl, heffect.versions] at hv
    rcases List.mem_append.mp hv with hv | hv
    · exact (h.recorded v hv).trans hclock
    · exact (heffect.recordedAt v hv).le

/-- A call keeps the resolver off retired versions exactly if those it takes out are outranked. -/
theorem step_exact (huuid : Function.Injective uuid) {e : ℤ × Call} (hwf : WellFormed uuid s)
    (hP : neverResolvesRetired s) (hstep : lifecycleStep uuid s e = some s') :
    neverResolvesRetired s' ↔ takesOutOutranked s e := by
  obtain ⟨hclock, t, hrun, rfl⟩ := lifecycleStep_some hstep
  obtain ⟨added, heffect, hnoActive⟩ := call_effect hrun
  have hversions : ({ t with clock := e.1 } : RuleStore).versions = s.versions ++ added := heffect.versions
  have hold : ∀ v ∈ s.versions, v.recordedAt ≤ e.1 := fun v hv => (hwf.recorded v hv).trans hclock
  constructor
  · intro hP' id hid v hv hvid hactive day hday
    -- resolve for that day, as of the call
    have hcand : v ∈ activeCandidates { t with clock := e.1 } ⟨v.ruleId, day, e.1⟩ :=
      mem_activeCandidates.mpr
        ⟨by rw [hversions]; exact List.mem_append_left _ hv, rfl, hactive, hday, hold v hv⟩
    obtain ⟨m, hm, hle, hfound⟩ := resolve_some hcand
    obtain ⟨hmem, hrule, hmactive, hmday, -⟩ := mem_activeCandidates.mp hm
    rw [hversions] at hmem
    have hms : m ∈ s.versions := by
      rcases List.mem_append.mp hmem with h | h
      · exact h
      · exact absurd hmactive (hnoActive (List.ne_nil_of_mem hid) m h)
    refine ⟨m, hms, hrule, hmactive, hmday, lt_of_le_of_ne hle ?_⟩
    intro hkey
    obtain ⟨w, hw, hpred, hretired⟩ := heffect.out id hid
    refine hP' _ _ _ _ hfound ⟨w, hw, ?_, hretired, ?_⟩
    · rw [hpred, ← orderKey_id hkey, hvid]
    · rw [heffect.versions] at hw
      rcases List.mem_append.mp hw with h | h
      · exact hold w h
      · exact (heffect.recordedAt w h).le
  · intro hG request id hardness astHash hfound hret
    obtain ⟨v, hv, rfl, hmax⟩ := resolve_found hfound
    obtain ⟨w, hw, hpred, hretired, hrecorded⟩ := hret
    obtain ⟨hvmem, hrule, hactive, hday, hasof⟩ := mem_activeCandidates.mp hv
    rw [hversions] at hvmem hw
    rcases List.mem_append.mp hvmem with hvs | hvnew
    · rcases List.mem_append.mp hw with hws | hwnew
      · -- retired before the call: it was not resolved then either
        have hcand : v ∈ activeCandidates s request :=
          mem_activeCandidates.mpr ⟨hvs, hrule, hactive, hday, hasof⟩
        obtain ⟨m, hm, hle, hbefore⟩ := resolve_some hcand
        obtain ⟨hms, hmrest⟩ := mem_activeCandidates.mp hm
        have hm' : m ∈ activeCandidates { t with clock := e.1 } request :=
          mem_activeCandidates.mpr ⟨by rw [hversions]; exact List.mem_append_left _ hms, hmrest⟩
        have hid : m.id = v.id := orderKey_id (le_antisymm (hmax m hm') hle)
        exact hP _ _ _ _ hbefore ⟨w, hws, by rw [hpred, hid], hretired, hrecorded⟩
      · -- retired by the call: it is outranked
        have hout := heffect.retired w hwnew hretired v.id hpred
        obtain ⟨m, hms, hmrule, hmactive, hmday, hlt⟩ := hG v.id hout v hvs rfl hactive _ hday
        have hnow : w.recordedAt = e.1 := heffect.recordedAt w hwnew
        have hm' : m ∈ activeCandidates { t with clock := e.1 } request :=
          mem_activeCandidates.mpr ⟨by rw [hversions]; exact List.mem_append_left _ hms,
            hmrule.trans hrule, hmactive, hmday, (hold m hms).trans (hnow ▸ hrecorded)⟩
        exact absurd (hmax m hm') (not_le.mpr hlt)
    · -- a version the call added: nothing succeeds it yet
      obtain ⟨i, hlo, -, hid⟩ := heffect.fresh v hvnew
      rcases List.mem_append.mp hw with hws | hwnew
      · obtain ⟨j, hj, hjid⟩ := hwf.predecessors w hws v.id hpred
        have := huuid (hid.symm.trans hjid)
        omega
      · have hout := heffect.retired w hwnew hretired v.id hpred
        exact absurd hactive (hnoActive (List.ne_nil_of_mem hout) v hvnew)

theorem neverResolvesRetired_empty (start : ℤ) : neverResolvesRetired (RuleStore.empty start) := by
  rintro request id hardness astHash h -
  cases h

/-- From an empty table, in any run: no state reached resolves a version taken out of service,
exactly if every version was outranked when it was taken out. -/
theorem neverResolvesRetired_iff (uuid : ℕ → ℕ) (huuid : Function.Injective uuid) (start : ℤ)
    (calls : List (ℤ × Call)) :
    Runs.AllStates (lifecycleStep uuid) neverResolvesRetired (RuleStore.empty start) calls ↔
      Runs.AllSteps (lifecycleStep uuid) takesOutOutranked (RuleStore.empty start) calls :=
  Runs.allStates_iff_allSteps (WellFormed uuid) (fun _ _ _ h => wellFormed_step h)
    (fun _ _ _ hwf hP => step_exact huuid hwf hP) calls _ (wellFormed_empty start)
    (neverResolvesRetired_empty start)

end

/-! ## Two runs -/

/-- A version of rule 7, valid from day 0 on. -/
def exampleContent (hardness : RuleHardness) : RuleContent :=
  ⟨7, hardness, .null, "hash", .arr [], .PASS_FAIL, [], none, 0, none⟩

/-- A weaker version next to a firm rule is quarantined. -/
def outrankedRun : List (ℤ × Call) :=
  [(1, .seed (exampleContent .FIRM_RULE) .ACTIVE), (2, .seed (exampleContent .AI_DOCS) .ACTIVE),
    (3, .quarantineRule 1 "reversed")]

theorem outrankedRun_resolves :
    Runs.AllStates (lifecycleStep id) neverResolvesRetired (RuleStore.empty 0) outrankedRun := by
  refine (neverResolvesRetired_iff id Function.injective_id 0 outrankedRun).mpr ?_
  rintro _ ⟨⟩
  refine ⟨by rintro id ⟨⟩, ?_⟩
  rintro _ ⟨⟩
  refine ⟨by rintro id ⟨⟩, ?_⟩
  rintro _ -
  refine ⟨?_, trivial⟩
  -- the firm rule is valid whenever the weaker version is
  intro id hid v hv hvid _ day hday
  simp only [takesOut, List.mem_singleton] at hid
  simp only [insertVersion, RuleStore.empty, List.nil_append, List.singleton_append, List.mem_cons,
    List.not_mem_nil, or_false] at hv
  rcases hv with rfl | rfl
  · simp [hid] at hvid
  · exact ⟨_, List.mem_cons_self, rfl, rfl, hday, by decide⟩

/-- The only version of a rule is seeded, activated, and quarantined. -/
def quarantinedRun : List (ℤ × Call) :=
  [(1, .seed (exampleContent .FIRM_RULE) .SHADOW), (2, .activateRule 0 "ready" (some 5) none),
    (3, .quarantineRule 1 "reversed")]

def quarantinedState : RuleStore :=
  (Runs.final (lifecycleStep id) (RuleStore.empty 0) quarantinedRun).get (by decide +kernel)

/-- The quarantined version is still resolved. -/
theorem quarantinedRun_resolves :
    ¬ Runs.AllStates (lifecycleStep id) neverResolvesRetired (RuleStore.empty 0) quarantinedRun := by
  intro h
  have hfinal : neverResolvesRetired quarantinedState := h.final (Option.some_get _).symm
  refine hfinal ⟨7, 10, 3⟩ 1 .FIRM_RULE "hash" (by decide +kernel) ?_
  unfold retiredBy
  decide +kernel

end RuleEngine
