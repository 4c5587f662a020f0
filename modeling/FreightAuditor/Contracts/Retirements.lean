import FreightAuditor.Contracts.Amendments
import FreightAuditor.Contracts.ProposalCommits

/- What a transition and an amendment insert, where one call comes after the other.

   A transition inserts a successor in the new state, or finds the one there is. An
   amendment deprecates every version it retires (`retireVersions_effect`) and inserts no
   ACTIVE version. -/
namespace Contracts

open AppendOnly DecimalJs JsText ReadCommitted
open RuleEngine (RuleLifecycle TransitionInput allowedTransitions)

variable {sha256 : String → ℕ} {collation : String → String → Ordering} {D : Type} [Decimal D] {unicode : Unicode}
  {tx startedAt : ℕ} {db : Db} {log log' : Log Db Row Key}

/-! ## Bodies insert under the locks of their keys -/

theorem affectedBy_inserts {old : Option ContractClause} : Inserts Row.keys Row.Written (affectedBy old) := by
  cases old with
  | none => exact inserts_pure
  | some o => exact inserts_query

theorem analyzeClauses_inserts (pairs : List ClausePair) : Inserts Row.keys Row.Written (analyzeClauses pairs) := by
  induction pairs with
  | nil => exact inserts_pure
  | cons pair rest ih =>
    rw [analyzeClauses]
    cases pair.change with
    | none => exact ih
    | some change => exact inserts_bind affectedBy_inserts fun _ => inserts_bind ih fun _ => inserts_pure

theorem analyzeAmendmentImpact_inserts {input : AmendmentInput} :
    Inserts Row.keys Row.Written (analyzeAmendmentImpact collation input) := by
  refine inserts_bind inserts_query fun amendment => ?_
  cases amendment with
  | none => trivial
  | some a =>
    dsimp only
    split
    · exact inserts_bind inserts_query fun rows => analyzeClauses_inserts rows
    · trivial

theorem proposeReplacement_inserts {id amendmentId clauseId deprecatedId : ℕ} :
    Inserts Row.keys Row.Written (proposeReplacement id amendmentId clauseId deprecatedId) := by
  have hrest {f : Db → Option RuleVersion} {g : Option RuleVersion → Statement ℕ}
      (hnone : Inserts Row.keys Row.Written (g none)) (hsome : ∀ v, Inserts Row.keys Row.Written (g (some v)))
      (inserted : Bool) : Inserts Row.keys Row.Written (if inserted then pure id else Prog.query f >>= g) := by
    split
    · exact inserts_pure
    · refine inserts_bind inserts_query fun existing => ?_
      cases existing with
      | none => exact hnone
      | some v => exact hsome v
  refine inserts_bind inserts_query fun found => ?_
  cases found with
  | none => exact inserts_bind inserts_pure (hrest trivial fun _ => inserts_pure)
  | some deprecated => exact inserts_bind (insertRow_inserts trivial) (hrest trivial fun _ => inserts_pure)

theorem retireVersion_inserts {amendmentId : ℕ} {entry : (ClauseImpact × ℕ) × ℕ} :
    Inserts Row.keys Row.Written (retireVersion tx amendmentId entry) := by
  refine inserts_bind transitionRuleLifecycle_inserts fun deprecated => ?_
  dsimp only
  split
  · exact inserts_bind proposeReplacement_inserts fun _ => inserts_pure
  · exact inserts_pure

theorem retireVersions_inserts {amendmentId : ℕ} (entries : List ((ClauseImpact × ℕ) × ℕ)) :
    Inserts Row.keys Row.Written (retireVersions tx amendmentId entries) := by
  induction entries with
  | nil => exact inserts_pure
  | cons entry rest ih => exact inserts_bind retireVersion_inserts fun _ => inserts_bind ih fun _ => inserts_pure

theorem amendment_inserts (call : AmendmentCall) :
    Inserts Row.keys Row.Written (call.body collation sha256 D unicode tx startedAt) := by
  cases call with
  | proposals call => exact inserts_bind (body_inserts call) fun _ => inserts_pure
  | retireAmendedRules input =>
    exact inserts_bind (inserts_bind analyzeAmendmentImpact_inserts fun impacts => retireVersions_inserts _)
      fun _ => inserts_pure

/-! ## Transitions -/

theorem insertPromotionEvent_effect {event : RuleVersion → PromotionEvent} {id : ℕ}
    (h : alone append db (insertPromotionEvent event id) log = .ok (⟨⟩, log')) :
    ∃ promotions : List PromotionEvent, log'.writes = log.writes ++ promotions.map Row.promotionEvent := by
  simp only [insertPromotionEvent, alone_bind, alone_query, ExceptOk.ok_bind] at h
  cases hfound : findVersion (view append db log.writes) id with
  | none =>
    rw [hfound] at h
    cases h
    exact ⟨[], by simp⟩
  | some v =>
    rw [hfound] at h
    dsimp only at h
    split at h
    · cases h
    · simp only [alone_bind, ExceptOk.bind_eq_ok] at h
      obtain ⟨⟨_, last⟩, hinsert, hlast⟩ := h
      cases hlast
      rcases alone_insertOr hinsert with ⟨-, -, hw⟩ | ⟨-, -, hw⟩
      · exact ⟨[], by simp [hw]⟩
      · exact ⟨[event v], by simp [hw]⟩

/-- The version that is moved is there, and its successor is new, or was there. -/
theorem transition_effect {id : ℕ} {input : TransitionInput} {r : ℕ × Bool}
    (h : alone append db (transitionRuleLifecycle id input) log = .ok (r, log')) :
    ∃ current, .ruleVersion current ∈ db ++ log.writes ∧ current.id = input.ruleVersionId ∧
      input.toState ∈ allowedTransitions current.lifecycleState ∧ ∃ promotions : List PromotionEvent,
        (r.1 = id ∧ taken Row.keys (db ++ log.writes) (.successor current.id input.toState) = false ∧
            log'.writes = log.writes ++
              .ruleVersion (plainVersion current.toRuleContent id input.toState (some current.id)) ::
                promotions.map Row.promotionEvent) ∨
          ((∃ v, .ruleVersion v ∈ db ++ log.writes ∧ v.predecessorRuleVersionId = some current.id ∧
              v.lifecycleState = input.toState ∧ v.id = r.1) ∧
            log'.writes = log.writes ++ promotions.map Row.promotionEvent) := by
  simp only [transitionRuleLifecycle, alone_bind, alone_query, ExceptOk.ok_bind] at h
  cases hcurrent : findVersion (view append db log.writes) input.ruleVersionId with
  | none =>
    rw [hcurrent] at h
    cases h
  | some current =>
    rw [hcurrent] at h
    rw [view_eq] at hcurrent
    have hid : current.id = input.ruleVersionId := by simpa using List.find?_some hcurrent
    dsimp only at h
    split at h
    · cases h
    rename_i hallowed
    simp only [alone_bind, alone_query, ExceptOk.bind_eq_ok, Except.ok.injEq] at h
    obtain ⟨⟨created, mid⟩, hinsert, ⟨next, mid'⟩, hquery, h⟩ := h
    obtain ⟨hnext, rfl⟩ := Prod.mk.inj hquery
    dsimp only at hnext h
    refine ⟨current, mem_ruleVersions.mp (List.mem_of_find?_eq_some hcurrent), hid, not_not.mp hallowed, ?_⟩
    cases next with
    | none => cases h
    | some nextId =>
      simp only [alone_bind, alone_pure, ExceptOk.bind_eq_ok, Except.ok.injEq, Prod.mk.injEq] at h
      obtain ⟨⟨_, last⟩, hpromotion, rfl, rfl⟩ := h
      obtain ⟨promotions, hpromotions⟩ := insertPromotionEvent_effect hpromotion
      rw [Log.add_writes, List.append_nil] at hpromotions
      refine ⟨promotions, ?_⟩
      rcases alone_insertOr hinsert with ⟨hcreated, -, hwrites⟩ | ⟨rfl, hfree, hwrites⟩
      · -- the successor was there
        rw [Log.add_writes, List.append_nil] at hwrites
        obtain rfl : created = false := (Except.ok.inj hcreated).symm
        rw [if_neg Bool.false_ne_true, Option.map_eq_some_iff] at hnext
        obtain ⟨v, hv, rfl⟩ := hnext
        have hv' := List.find?_some hv
        rw [decide_eq_true_eq] at hv'
        rw [view_eq, hwrites] at hv
        refine .inr ⟨⟨v, mem_ruleVersions.mp (List.mem_of_find?_eq_some hv), ?_, hv'.2, rfl⟩, by rw [hpromotions, hwrites]⟩
        rw [hid, hv'.1]
      · rw [Log.add_writes, List.append_nil] at hfree hwrites
        rw [if_pos rfl] at hnext
        refine .inl ⟨(Option.some.inj hnext).symm, hid ▸ hfree _ (by simp), ?_⟩
        rw [hpromotions, hwrites, hid]
        simp

/-! ## Amendments -/

theorem proposeReplacement_effect {id amendmentId clauseId deprecatedId r : ℕ}
    (h : alone append db (proposeReplacement id amendmentId clauseId deprecatedId) log = .ok (r, log')) :
    log'.writes = log.writes ∨ ∃ deprecated, .ruleVersion deprecated ∈ db ++ log.writes ∧
      log'.writes = log.writes ++ [.ruleVersion (replacementVersion id amendmentId clauseId deprecated)] := by
  -- whether the row went in or one is there, the rest inserts nothing
  have hrest {f : Db → Option RuleVersion} {g : Option RuleVersion → Statement ℕ} {inserted : Bool}
      {mid : Log Db Row Key} (h : alone append db (if inserted then pure id else Prog.query f >>= g) mid = .ok (r, log'))
      (hnone : g none = .fail .replacementUnresolved) (hsome : ∀ v, g (some v) = pure v.id) :
      log'.writes = mid.writes := by
    split at h
    · cases h
      rfl
    · rw [alone_bind, alone_query, ExceptOk.ok_bind] at h
      cases hf : f (view append db mid.writes) with
      | none =>
        rw [hf, hnone] at h
        cases h
      | some v =>
        rw [hf, hsome] at h
        cases h
        simp
  simp only [proposeReplacement, alone_bind, alone_query, ExceptOk.ok_bind] at h
  cases hfound : findVersion (view append db log.writes) deprecatedId with
  | none =>
    rw [hfound] at h
    simp only [alone_bind, alone_pure, ExceptOk.ok_bind] at h
    left
    have hwrites := hrest h rfl fun _ => rfl
    simpa using hwrites
  | some deprecated =>
    rw [hfound] at h
    simp only [alone_bind, ExceptOk.bind_eq_ok] at h
    obtain ⟨⟨inserted, mid⟩, hinsert, h⟩ := h
    have hwrites := hrest h rfl fun _ => rfl
    rw [view_eq] at hfound
    rcases alone_insertOr hinsert with ⟨-, -, hmid⟩ | ⟨-, -, hmid⟩
    · left
      simpa [hmid] using hwrites
    · right
      exact ⟨deprecated, mem_ruleVersions.mp (List.mem_of_find?_eq_some hfound), by simpa [hmid] using hwrites⟩

/-- From the rows before to those after, the versions are deprecated and no other version is but proposed. -/
structure Retires (ids : List ℕ) (before after : Db) : Prop where
  new : ∃ new, after = before ++ new ∧ ∀ v, .ruleVersion v ∈ new →
    (∃ u, .ruleVersion u ∈ after ∧ v.predecessorRuleVersionId = some u.id) ∧
      (v.lifecycleState = .PROPOSED ∨
        v.lifecycleState = .DEPRECATED ∧ ∃ id ∈ ids, v.predecessorRuleVersionId = some id)
  deprecated : ∀ id ∈ ids, ∃ v, .ruleVersion v ∈ after ∧ v.predecessorRuleVersionId = some id ∧
    v.lifecycleState = .DEPRECATED

theorem Retires.nil (rows : Db) : Retires [] rows rows :=
  ⟨⟨[], (List.append_nil rows).symm, fun _ hv => absurd hv List.not_mem_nil⟩, fun _ hid => absurd hid List.not_mem_nil⟩

theorem Retires.append {ids ids' : List ℕ} {a b c : Db} (h : Retires ids a b) (h' : Retires ids' b c) :
    Retires (ids ++ ids') a c := by
  obtain ⟨new, rfl, hnew⟩ := h.new
  obtain ⟨new', rfl, hnew'⟩ := h'.new
  refine ⟨⟨new ++ new', List.append_assoc .., fun v hv => ?_⟩, fun id hid => ?_⟩
  · rcases List.mem_append.mp hv with hv | hv
    · obtain ⟨⟨u, hu, hpred⟩, hstate⟩ := hnew v hv
      refine ⟨⟨u, List.mem_append_left _ hu, hpred⟩, hstate.imp_right fun hdeprecated => ⟨hdeprecated.1, ?_⟩⟩
      obtain ⟨id, hid, hid'⟩ := hdeprecated.2
      exact ⟨id, List.mem_append_left _ hid, hid'⟩
    · obtain ⟨hu, hstate⟩ := hnew' v hv
      refine ⟨hu, hstate.imp_right fun hdeprecated => ⟨hdeprecated.1, ?_⟩⟩
      obtain ⟨id, hid, hid'⟩ := hdeprecated.2
      exact ⟨id, List.mem_append_right _ hid, hid'⟩
  · rcases List.mem_append.mp hid with hid | hid
    · obtain ⟨v, hv, hrest⟩ := h.deprecated id hid
      exact ⟨v, List.mem_append_left _ hv, hrest⟩
    · exact h'.deprecated id hid

theorem transition_retires {newId oldId : ℕ} {rationale : String} {r : ℕ × Bool}
    (h : alone append db (transitionRuleLifecycle newId ⟨oldId, .DEPRECATED, rationale, none, none⟩) log = .ok (r, log')) :
    Retires [oldId] (db ++ log.writes) (db ++ log'.writes) := by
  obtain ⟨current, hcurrent, rfl, -, promotions, ⟨-, -, hwrites⟩ | ⟨⟨v, hv, hpred, hstate, -⟩, hwrites⟩⟩ :=
    transition_effect h
  · refine ⟨⟨_, by rw [hwrites, List.append_assoc], fun v hv => ?_⟩, fun id hid => ?_⟩
    · simp only [List.mem_cons, Row.ruleVersion.injEq, List.mem_map, reduceCtorEq, and_false, exists_false,
        or_false] at hv
      subst hv
      exact ⟨⟨current, by rw [hwrites, ← List.append_assoc]; exact List.mem_append_left _ hcurrent, rfl⟩,
        .inr ⟨rfl, current.id, List.mem_singleton_self _, rfl⟩⟩
    · rw [List.mem_singleton.mp hid, hwrites]
      exact ⟨plainVersion current.toRuleContent newId .DEPRECATED (some current.id), by simp, rfl, rfl⟩
  · refine ⟨⟨_, by rw [hwrites, List.append_assoc], fun v hv => by simp at hv⟩, fun id hid => ?_⟩
    rw [List.mem_singleton.mp hid, hwrites, ← List.append_assoc]
    exact ⟨v, List.mem_append_left _ hv, hpred, hstate⟩

theorem retireVersion_effect {amendmentId : ℕ} {entry : (ClauseImpact × ℕ) × ℕ} {r : AmendedRuleTransition}
    (h : alone append db (retireVersion tx amendmentId entry) log = .ok (r, log')) :
    Retires [entry.1.2] (db ++ log.writes) (db ++ log'.writes) := by
  simp only [retireVersion, alone_bind, ExceptOk.bind_eq_ok] at h
  obtain ⟨⟨⟨deprecatedId, created⟩, mid⟩, htransition, h⟩ := h
  have hdeprecated := transition_retires htransition
  dsimp only at h
  split at h
  · simp only [alone_bind, ExceptOk.bind_eq_ok] at h
    obtain ⟨⟨replacementId, last⟩, hreplacement, h⟩ := h
    cases h
    have hproposed : Retires [] (db ++ mid.writes) (db ++ last.writes) := by
      rcases proposeReplacement_effect hreplacement with hwrites | ⟨deprecated, hmem, hwrites⟩
      · rw [hwrites]
        exact Retires.nil _
      · refine ⟨⟨_, by rw [hwrites, List.append_assoc], fun v hv => ?_⟩, fun _ hid => absurd hid List.not_mem_nil⟩
        obtain rfl := Row.ruleVersion.inj (List.mem_singleton.mp hv)
        refine ⟨⟨deprecated, ?_, rfl⟩, .inl rfl⟩
        rw [hwrites, ← List.append_assoc]
        exact List.mem_append_left _ hmem
    simpa using hdeprecated.append hproposed
  · cases h
    exact hdeprecated

theorem retireVersions_effect {amendmentId : ℕ} {entries : List ((ClauseImpact × ℕ) × ℕ)} :
    ∀ {log : Log Db Row Key} {r : List AmendedRuleTransition},
      alone append db (retireVersions tx amendmentId entries) log = .ok (r, log') →
      Retires (entries.map fun entry => entry.1.2) (db ++ log.writes) (db ++ log'.writes) := by
  induction entries with
  | nil =>
    intro log r h
    cases h
    exact Retires.nil _
  | cons entry rest ih =>
    intro log r h
    simp only [retireVersions, alone_bind, ExceptOk.bind_eq_ok] at h
    obtain ⟨⟨transition, mid⟩, hentry, ⟨transitions, last⟩, hrest, h⟩ := h
    cases h
    exact (retireVersion_effect hentry).append (ih hrest)

/-- What an amendment that is found, and links two versions, inserts. -/
theorem retireAmendedRules_effect {input : AmendmentInput} {a : ContractAmendment}
    {supersedesVersionId newVersionId : ℕ} {r : List AmendedRuleTransition}
    (h : alone append db (retireAmendedRules collation tx input) .empty = .ok (r, log))
    (ha : findAmendment db input = some a) (hold : a.supersedesVersionId = some supersedesVersionId)
    (hnew : a.newVersionId = some newVersionId) :
    Retires ((retirements (impactsOf db (joinedClauses collation db supersedesVersionId newVersionId))).map Prod.snd)
      db (db ++ log.writes) := by
  have hfinds : Finds db (analyzeAmendmentImpact collation input) _ := analyzeAmendmentImpact_finds ha hold hnew
  obtain ⟨mid, himpacts, hmid⟩ := hfinds .empty rfl
  simp only [retireAmendedRules, alone_bind, himpacts, ExceptOk.ok_bind] at h
  have hretires := retireVersions_effect h
  rw [hmid, List.append_nil] at hretires
  have hids : ∀ l : List (ClauseImpact × ℕ), (l.zipIdx.map fun entry => entry.1.2) = l.map Prod.snd := fun l => by
    conv_rhs => rw [← List.zipIdx_map_fst 0 l, List.map_map]
    rfl
  rwa [hids] at hretires

end Contracts
