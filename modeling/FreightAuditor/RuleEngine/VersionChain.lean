import FreightAuditor.RuleEngine.Lifecycle

/- The versions of one rule as a chain.

   `assertLifecycleTransition` judges the row the caller names, which may long have a
   successor, and the unique index admits one successor per predecessor and state. The
   history of a rule is a path through the states as long as a call names the last
   version, or repeats the call that gave the named version its successor; any other
   accepted call branches it (`linearPath_iff`). -/
namespace RuleEngine

section

variable (uuid : ℕ → ℕ)

/-- One committed call of `transitionRuleLifecycle`. -/
def transitionStep (s : RuleStore) (e : ℤ × TransitionInput) : Option RuleStore :=
  if e.1 < s.clock then none
  else (transitionRuleLifecycle uuid e.1 s e.2).toOption.map (fun r => { r.1 with clock := e.1 })

/-- A table with a single PROPOSED version. -/
def proposedRule (start : ℤ) (content : RuleContent) : RuleStore :=
  insertVersion uuid start (RuleStore.empty start) content .PROPOSED

end

/-- `w` is a successor of `v` that the state machine allows. -/
def Succeeds (v w : RuleVersion) : Prop :=
  w.predecessorRuleVersionId = some v.id ∧ w.lifecycleState ∈ allowedTransitions v.lifecycleState

/-- The versions, in the order they were recorded, are a path of the state machine, which a DEPRECATED
version ends. -/
structure LinearPath (versions : List RuleVersion) : Prop where
  oneSuccessor : ∀ v ∈ versions, ∀ w ∈ versions, ∀ p,
    v.predecessorRuleVersionId = some p → w.predecessorRuleVersionId = some p → v.id = w.id
  chain : versions.IsChain Succeeds
  deprecatedLast : ∀ before v after, versions = before ++ v :: after →
    v.lifecycleState = .DEPRECATED → after = []

/-- Any successor the named version already has is in the state asked for. -/
def continuesPath (s : RuleStore) (e : ℤ × TransitionInput) : Prop :=
  ∀ w ∈ s.versions, w.predecessorRuleVersionId = some e.2.ruleVersionId → w.lifecycleState = e.2.toState

instance (s : RuleStore) (e : ℤ × TransitionInput) : Decidable (continuesPath s e) :=
  inferInstanceAs (Decidable (∀ w ∈ s.versions, _ → _))

section

variable {uuid : ℕ → ℕ} {s s' : RuleStore} {versions : List RuleVersion}

/-- In a chain nothing comes after a DEPRECATED version. -/
theorem deprecatedLast_of_chain (h : versions.IsChain Succeeds) {before after : List RuleVersion}
    {v : RuleVersion} (hsplit : versions = before ++ v :: after) (hv : v.lifecycleState = .DEPRECATED) :
    after = [] := by
  cases after with
  | nil => rfl
  | cons w rest =>
    have hnext : Succeeds v w := by
      rw [hsplit, List.isChain_append] at h
      exact (List.isChain_cons_cons.mp h.2.1).1
    have := hnext.2
    rw [hv] at this
    exact absurd this List.not_mem_nil

/-- A version without successor is the last of its chain. -/
theorem last_of_chain (h : versions.IsChain Succeeds) {v : RuleVersion} (hv : v ∈ versions)
    (hnone : ∀ w ∈ versions, w.predecessorRuleVersionId ≠ some v.id) : ∃ before, versions = before ++ [v] := by
  obtain ⟨before, after, rfl⟩ := List.append_of_mem hv
  cases after with
  | nil => exact ⟨before, rfl⟩
  | cons w rest =>
    have hnext : Succeeds v w := by
      rw [List.isChain_append] at h
      exact (List.isChain_cons_cons.mp h.2.1).1
    exact absurd hnext.1 (hnone w (by simp))

theorem transitionStep_some {e : ℤ × TransitionInput} (h : transitionStep uuid s e = some s') :
    ∃ current nextId t, Transition uuid e.1 s e.2 current nextId t ∧ s' = { t with clock := e.1 } := by
  unfold transitionStep at h
  split at h
  · cases h
  cases ht : transitionRuleLifecycle uuid e.1 s e.2 with
  | error err => rw [ht] at h; cases h
  | ok r =>
    obtain ⟨t, nextId, created⟩ := r
    rw [ht] at h
    cases h
    obtain ⟨current, hrun⟩ := transition_cases ht
    exact ⟨current, nextId, t, hrun, rfl⟩

/-- Distinct ids, all generated. -/
structure DistinctIds (uuid : ℕ → ℕ) (s : RuleStore) : Prop where
  generated : ∀ v ∈ s.versions, Generated uuid s.generated v.id
  distinct : (s.versions.map RuleVersion.id).Nodup

theorem DistinctIds.eq_of_id (h : DistinctIds uuid s) {v w : RuleVersion} (hv : v ∈ s.versions)
    (hw : w ∈ s.versions) (hid : v.id = w.id) : v = w :=
  List.inj_on_of_nodup_map h.distinct hv hw hid

/-- A fresh id is no row's. -/
theorem DistinctIds.fresh (huuid : Function.Injective uuid) (h : DistinctIds uuid s) {v : RuleVersion}
    (hv : v ∈ s.versions) : v.id ≠ uuid s.generated := by
  obtain ⟨i, hi, hid⟩ := h.generated v hv
  intro heq
  have := huuid (hid.symm.trans heq)
  omega

/-- A row under a fresh id keeps the ids distinct. -/
theorem DistinctIds.insert (huuid : Function.Injective uuid) (h : DistinctIds uuid s) {row : RuleVersion}
    (hid : row.id = uuid s.generated) (hversions : s'.versions = s.versions ++ [row])
    (hgenerated : s'.generated = s.generated + 1) : DistinctIds uuid s' where
  generated := by
    intro v hv
    rw [hversions] at hv
    rcases List.mem_append.mp hv with hv | hv
    · obtain ⟨i, hi, hvid⟩ := h.generated v hv
      exact ⟨i, by omega, hvid⟩
    · rw [List.mem_singleton] at hv
      exact ⟨s.generated, by omega, hv ▸ hid⟩
  distinct := by
    rw [hversions, List.map_append, List.nodup_append]
    refine ⟨h.distinct, List.nodup_singleton _, fun id hmem id' hid' => ?_⟩
    obtain ⟨v, hv, rfl⟩ := List.mem_map.mp hmem
    rw [List.mem_singleton.mp hid', hid]
    exact h.fresh huuid hv

theorem DistinctIds.transition (huuid : Function.Injective uuid) (h : DistinctIds uuid s) {now : ℤ}
    {input : TransitionInput} {current : RuleVersion} {nextId : ℕ}
    (hrun : Transition uuid now s input current nextId s') : DistinctIds uuid s' := by
  rcases hrun.versions with ⟨hversions, hgenerated, -⟩ | ⟨hversions, hgenerated, hid, -⟩
  · exact ⟨by rw [hversions, hgenerated]; exact h.generated, by rw [hversions]; exact h.distinct⟩
  · exact h.insert huuid hid hversions hgenerated

/-- One call keeps the path exactly if it continues it. -/
theorem linearPath_step (huuid : Function.Injective uuid) {e : ℤ × TransitionInput} (hids : DistinctIds uuid s)
    (hpath : LinearPath s.versions) (hstep : transitionStep uuid s e = some s') :
    LinearPath s'.versions ↔ continuesPath s e := by
  obtain ⟨current, nextId, t, hrun, rfl⟩ := transitionStep_some hstep
  obtain ⟨hcurrent, hcid⟩ := hrun.found
  change LinearPath t.versions ↔ _
  rcases hrun.versions with ⟨hversions, -, next, hnext, -, hpred, hstate⟩ | ⟨hversions, -, hid, hnone⟩
  · -- a retry: nothing is added, and the successor there is in the state asked for
    rw [hversions]
    refine ⟨fun _ w hw hwpred => ?_, fun _ => hpath⟩
    have := hids.eq_of_id hw hnext (hpath.oneSuccessor w hw next hnext _ hwpred hpred)
    rw [this, hstate]
  · rw [hversions]
    constructor
    · -- a successor in another state would be a second one
      intro hpath' w hw hwpred
      have := hpath'.oneSuccessor w (List.mem_append_left _ hw) _
        (List.mem_append_right _ (List.mem_singleton_self _)) _ hwpred rfl
      exact absurd (this.trans hid) (hids.fresh huuid hw)
    · -- the named version has no successor: it is the last
      intro hcontinues
      have hlast : ∀ w ∈ s.versions, w.predecessorRuleVersionId ≠ some e.2.ruleVersionId :=
        fun w hw hwpred => hnone w hw hwpred (hcontinues w hw hwpred)
      obtain ⟨before, hbefore⟩ := last_of_chain hpath.chain hcurrent (hcid ▸ hlast)
      have hchain : List.IsChain Succeeds (s.versions ++ [⟨current.toRuleContent, nextId, e.2.toState, e.1,
          some e.2.ruleVersionId⟩]) := by
        refine List.isChain_append.mpr ⟨hpath.chain, List.isChain_singleton _, ?_⟩
        intro v hv w hw
        rw [hbefore, List.getLast?_append_of_ne_nil _ (List.cons_ne_nil _ _)] at hv
        cases hv
        cases hw
        exact ⟨congrArg some hcid.symm, hrun.allowed⟩
      refine ⟨?_, hchain, fun _ _ _ hsplit hv => deprecatedLast_of_chain hchain hsplit hv⟩
      intro v hv w hw p hvp hwp
      rcases List.mem_append.mp hv with hv | hv <;> rcases List.mem_append.mp hw with hw | hw
      · exact hpath.oneSuccessor v hv w hw p hvp hwp
      · rw [List.mem_singleton] at hw
        subst hw
        exact absurd (hvp.trans hwp.symm) (hlast v hv)
      · rw [List.mem_singleton] at hv
        subst hv
        exact absurd (hwp.trans hvp.symm) (hlast w hw)
      · rw [List.mem_singleton] at hv hw
        rw [hv, hw]

theorem distinctIds_step (huuid : Function.Injective uuid) {e : ℤ × TransitionInput}
    (h : DistinctIds uuid s) (hstep : transitionStep uuid s e = some s') : DistinctIds uuid s' := by
  obtain ⟨current, nextId, t, hrun, rfl⟩ := transitionStep_some hstep
  exact ⟨(h.transition huuid hrun).generated, (h.transition huuid hrun).distinct⟩

theorem distinctIds_proposed (start : ℤ) (content : RuleContent) :
    DistinctIds uuid (proposedRule uuid start content) :=
  ⟨fun v hv => ⟨0, Nat.one_pos, by rw [List.mem_singleton.mp hv]; rfl⟩, List.nodup_singleton _⟩

theorem linearPath_proposed (start : ℤ) (content : RuleContent) :
    LinearPath (proposedRule uuid start content).versions where
  oneSuccessor := by
    intro v hv w hw p hp
    rw [List.mem_singleton.mp hv] at hp
    cases hp
  chain := List.isChain_singleton _
  deprecatedLast := fun _ _ _ hsplit hv => deprecatedLast_of_chain (List.isChain_singleton _) hsplit hv

/-- From one PROPOSED version, in any run of transitions: the versions are a path in every state
reached, exactly if every accepted call continues it. -/
theorem linearPath_iff (uuid : ℕ → ℕ) (huuid : Function.Injective uuid) (start : ℤ) (content : RuleContent)
    (calls : List (ℤ × TransitionInput)) :
    Runs.AllStates (transitionStep uuid) (fun s => LinearPath s.versions) (proposedRule uuid start content)
        calls ↔
      Runs.AllSteps (transitionStep uuid) continuesPath (proposedRule uuid start content) calls :=
  Runs.allStates_iff_allSteps (DistinctIds uuid) (fun _ _ _ => distinctIds_step huuid)
    (fun _ _ _ hids hpath => linearPath_step huuid hids hpath) calls _ (distinctIds_proposed start content)
    (linearPath_proposed start content)

end

/-! ## Two histories -/

/-- A version is ratified, activated, quarantined and ratified again. -/
def reinstatedHistory : List (ℤ × TransitionInput) :=
  [(1, ⟨0, .SHADOW, "fits", none, none⟩), (2, ⟨1, .ACTIVE, "ready", some 5, none⟩),
    (3, ⟨2, .QUARANTINED, "reversed", none, none⟩), (3, ⟨2, .QUARANTINED, "again", none, none⟩),
    (4, ⟨3, .SHADOW, "repaired", none, none⟩)]

theorem reinstatedHistory_linear :
    Runs.AllStates (transitionStep id) (fun s => LinearPath s.versions)
      (proposedRule id 0 (exampleContent .FIRM_RULE)) reinstatedHistory :=
  (linearPath_iff id Function.injective_id 0 (exampleContent .FIRM_RULE) reinstatedHistory).mpr
    (by decide +kernel)

/-- A version is activated and deprecated, and then quarantined where it was ACTIVE. -/
def branchedHistory : List (ℤ × TransitionInput) :=
  [(1, ⟨0, .SHADOW, "fits", none, none⟩), (2, ⟨1, .ACTIVE, "ready", some 5, none⟩),
    (3, ⟨2, .DEPRECATED, "amended", none, none⟩), (4, ⟨2, .QUARANTINED, "reversed", none, none⟩)]

def branchedState : RuleStore :=
  (Runs.final (transitionStep id) (proposedRule id 0 (exampleContent .FIRM_RULE)) branchedHistory).get
    (by decide +kernel)

/-- The ACTIVE version has two successors, one recorded after the rule was deprecated. -/
theorem branchedHistory_not_linear :
    ¬ Runs.AllStates (transitionStep id) (fun s => LinearPath s.versions)
      (proposedRule id 0 (exampleContent .FIRM_RULE)) branchedHistory := by
  intro h
  have hfinal : LinearPath branchedState.versions := h.final (Option.some_get _).symm
  have hids := hfinal.oneSuccessor (branchedState.versions.get ⟨3, by decide +kernel⟩) (List.get_mem _ _)
    (branchedState.versions.get ⟨4, by decide +kernel⟩) (List.get_mem _ _) 2 (by decide +kernel)
    (by decide +kernel)
  exact absurd hids (by decide +kernel)

end RuleEngine
