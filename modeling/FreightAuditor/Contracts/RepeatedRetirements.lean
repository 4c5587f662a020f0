import FreightAuditor.Contracts.Retirements

/- An amendment retired again.

   What a retirement inserts, a second one finds: the deprecated version, its promotion event
   and the replacement. More rows never take these away, and without new clauses, amendments
   or ACTIVE versions the amendment retires the same versions again (`Rests.finds`). -/
namespace Contracts

open AppendOnly ReadCommitted
open RuleEngine (TransitionInput allowedTransitions)

variable {collation : String → String → Ordering} {tx : ℕ} {db rows ws : Db} {log log' : Log Db Row Key}

/-! ## Looking versions up -/

theorem ruleVersions_append : ruleVersions (rows ++ ws) = ruleVersions rows ++ ruleVersions ws := List.filterMap_append ..

/-- What is found stays the first. -/
theorem findVersion_append {id : ℕ} {v : RuleVersion} (h : findVersion rows id = some v) :
    findVersion (rows ++ ws) id = some v := by
  rw [findVersion, ruleVersions_append, List.find?_append, ← findVersion, h, Option.some_or]

theorem findSuccessor_append {predecessor : ℕ} {state : RuleEngine.RuleLifecycle} {v : RuleVersion}
    (h : findSuccessor rows predecessor state = some v) : findSuccessor (rows ++ ws) predecessor state = some v := by
  rw [findSuccessor, ruleVersions_append, List.find?_append, ← findSuccessor, h, Option.some_or]

theorem taken_of_findSuccessor {predecessor : ℕ} {state : RuleEngine.RuleLifecycle} {v : RuleVersion}
    (h : findSuccessor rows predecessor state = some v) : taken Row.keys rows (.successor predecessor state) = true := by
  have hfound := List.find?_some h
  rw [decide_eq_true_eq] at hfound
  obtain ⟨hpred, hstate⟩ := hfound
  refine taken_eq_true.mpr ⟨_, mem_ruleVersions.mp (List.mem_of_find?_eq_some h), ?_⟩
  simp [Row.keys, hpred, hstate]

/-- A successor under a free key is the one that is found. -/
theorem findSuccessor_inserted {predecessor : ℕ} {state : RuleEngine.RuleLifecycle} {v : RuleVersion}
    (hfree : taken Row.keys rows (.successor predecessor state) = false) (hpred : v.predecessorRuleVersionId = some predecessor)
    (hstate : v.lifecycleState = state) : findSuccessor (rows ++ .ruleVersion v :: ws) predecessor state = some v := by
  have hnone : findSuccessor rows predecessor state = none := by
    cases hfound : findSuccessor rows predecessor state with
    | none => rfl
    | some u =>
      rw [taken_of_findSuccessor hfound] at hfree
      cases hfree
  have hrows : ruleVersions (.ruleVersion v :: ws) = v :: ruleVersions ws := rfl
  rw [findSuccessor, ruleVersions_append, List.find?_append, ← findSuccessor, hnone, Option.none_or, hrows]
  exact List.find?_cons_of_pos (decide_eq_true ⟨hpred, hstate⟩)

/-! ## What a retirement leaves -/

/-- The version is deprecated, with the event of it, and replaced where the clause has a new text. -/
structure Rests (rows : Db) (entry : ClauseImpact × ℕ) (t : AmendedRuleTransition) : Prop where
  version : t.oldRuleVersionId = entry.2
  event : ∃ current, findVersion rows entry.2 = some current ∧ .DEPRECATED ∈ allowedTransitions current.lifecycleState ∧
    taken Row.keys rows (.promotion t.deprecatedRuleVersionId current.lifecycleState .DEPRECATED) = true
  deprecated : ∃ v, findSuccessor rows entry.2 .DEPRECATED = some v ∧ v.id = t.deprecatedRuleVersionId
  replacement : if entry.1.change = .CHANGED ∧ entry.1.newClauseId.isSome then
      ∃ v, findSuccessor rows t.deprecatedRuleVersionId .PROPOSED = some v ∧ t.replacementRuleVersionId = some v.id
    else t.replacementRuleVersionId = none

theorem Rests.append {entry : ClauseImpact × ℕ} {t : AmendedRuleTransition} (h : Rests rows entry t) :
    Rests (rows ++ ws) entry t := by
  obtain ⟨current, hcurrent, hallowed, htaken⟩ := h.event
  obtain ⟨v, hv, hid⟩ := h.deprecated
  refine ⟨h.version, ⟨current, findVersion_append hcurrent, hallowed, taken_mono (List.subset_append_left _ _) htaken⟩,
    ⟨v, findSuccessor_append hv, hid⟩, ?_⟩
  have hreplacement := h.replacement
  split at hreplacement
  · obtain ⟨w, hw, hid⟩ := hreplacement
    rename_i hchanged
    rw [if_pos hchanged]
    exact ⟨w, findSuccessor_append hw, hid⟩
  · rename_i hchanged
    rw [if_neg hchanged]
    exact hreplacement

/-- An event that is not of an activation is there afterwards. -/
theorem insertPromotionEvent_taken {event : RuleVersion → PromotionEvent} {id : ℕ} {v : RuleVersion}
    (hstate : ∀ v, (event v).toLifecycle ≠ .ACTIVE) (hfound : findVersion (db ++ log.writes) id = some v)
    (h : alone append db (insertPromotionEvent event id) log = .ok (⟨⟩, log')) :
    taken Row.keys (db ++ log'.writes) (.promotion (event v).ruleVersionId (event v).fromLifecycle (event v).toLifecycle) = true := by
  simp only [insertPromotionEvent, alone_bind, alone_query, ExceptOk.ok_bind, view_eq, hfound] at h
  rw [if_neg fun hactive => hstate v hactive.1] at h
  simp only [alone_bind, ExceptOk.bind_eq_ok] at h
  obtain ⟨⟨_, last⟩, hinsert, hlast⟩ := h
  cases hlast
  rcases alone_insertOr hinsert with ⟨-, ⟨k, hk, htaken⟩, hwrites⟩ | ⟨-, -, hwrites⟩
  · obtain rfl := List.mem_singleton.mp hk
    rw [hwrites]
    rwa [Log.add_writes, List.append_nil] at htaken ⊢
  · refine taken_eq_true.mpr ⟨.promotionEvent (event v), ?_, List.mem_singleton_self _⟩
    rw [hwrites]
    simp

/-- A transition to a state leaves the successor that it returns, with its event. -/
theorem transition_rests {newId oldId : ℕ} {rationale : String} {r : ℕ × Bool}
    (h : alone append db (transitionRuleLifecycle newId ⟨oldId, .DEPRECATED, rationale, none, none⟩) log = .ok (r, log')) :
    (∃ current, findVersion (db ++ log'.writes) oldId = some current ∧
      .DEPRECATED ∈ allowedTransitions current.lifecycleState ∧
        taken Row.keys (db ++ log'.writes) (.promotion r.1 current.lifecycleState .DEPRECATED) = true) ∧
      ∃ v, findSuccessor (db ++ log'.writes) oldId .DEPRECATED = some v ∧ v.id = r.1 := by
  simp only [transitionRuleLifecycle, alone_bind, alone_query, ExceptOk.ok_bind] at h
  cases hcurrent : findVersion (view append db log.writes) oldId with
  | none =>
    rw [hcurrent] at h
    cases h
  | some current =>
    rw [hcurrent] at h
    rw [view_eq] at hcurrent
    dsimp only at h
    split at h
    · cases h
    rename_i hallowed
    simp only [alone_bind, alone_query, ExceptOk.bind_eq_ok, Except.ok.injEq] at h
    obtain ⟨⟨created, mid⟩, hinsert, ⟨next, mid'⟩, hquery, h⟩ := h
    obtain ⟨hnext, rfl⟩ := Prod.mk.inj hquery
    dsimp only at hnext h
    cases next with
    | none => cases h
    | some nextId =>
      simp only [alone_bind, alone_pure, ExceptOk.bind_eq_ok, Except.ok.injEq, Prod.mk.injEq] at h
      obtain ⟨⟨_, last⟩, hpromotion, rfl, rfl⟩ := h
      obtain ⟨promotions, hpromotions⟩ := insertPromotionEvent_effect hpromotion
      have hsuccessor : ∃ v, findSuccessor (db ++ mid.writes) oldId .DEPRECATED = some v ∧ v.id = nextId := by
        rcases alone_insertOr hinsert with ⟨hcreated, -, hwrites⟩ | ⟨rfl, hfree, hwrites⟩
        · -- the successor was there
          obtain rfl : created = false := (Except.ok.inj hcreated).symm
          rw [if_neg Bool.false_ne_true, Option.map_eq_some_iff, view_eq] at hnext
          exact hnext
        · rw [if_pos rfl] at hnext
          rw [Log.add_writes, List.append_nil] at hfree hwrites
          refine ⟨plainVersion current.toRuleContent newId .DEPRECATED (some oldId), ?_, Option.some.inj hnext⟩
          rw [hwrites, ← List.append_assoc]
          exact findSuccessor_inserted (hfree _ (by simp)) rfl rfl
      have hmid : ∃ ws, mid.writes = log.writes ++ ws := by
        rcases alone_insertOr hinsert with ⟨-, -, hwrites⟩ | ⟨-, -, hwrites⟩
        · exact ⟨[], by simpa using hwrites⟩
        · exact ⟨_, by simpa using hwrites⟩
      obtain ⟨ws, hmid⟩ := hmid
      rw [Log.add_writes, List.append_nil] at hpromotions
      obtain ⟨v, hv, rfl⟩ := hsuccessor
      refine ⟨⟨current, ?_, not_not.mp hallowed, ?_⟩, v, ?_, rfl⟩
      · rw [hpromotions, hmid, ← List.append_assoc, ← List.append_assoc]
        exact findVersion_append (findVersion_append hcurrent)
      · obtain ⟨u, hu⟩ : ∃ u, findVersion (db ++ mid.writes) v.id = some u :=
          Option.isSome_iff_exists.mp (List.find?_isSome.mpr ⟨v, List.mem_of_find?_eq_some hv, decide_eq_true rfl⟩)
        refine insertPromotionEvent_taken (v := u) (fun _ hstate => by cases hstate) ?_ hpromotion
        rw [Log.add_writes, List.append_nil]
        exact hu
      · rw [hpromotions, ← List.append_assoc]
        exact findSuccessor_append hv

/-- A replacement that is returned is the one that is found. -/
theorem proposeReplacement_rests {id amendmentId clauseId deprecatedId r : ℕ}
    (h : alone append db (proposeReplacement id amendmentId clauseId deprecatedId) log = .ok (r, log')) :
    ∃ v, findSuccessor (db ++ log'.writes) deprecatedId .PROPOSED = some v ∧ v.id = r := by
  -- where the row did not go in, one is found
  have hrest {mid : Log Db Row Key} {g : Option RuleVersion → Statement ℕ}
      (h : alone append db (Prog.query (fun db => findSuccessor db deprecatedId .PROPOSED) >>= g) mid = .ok (r, log'))
      (hnone : g none = .fail .replacementUnresolved) (hsome : ∀ v, g (some v) = pure v.id) :
      ∃ v, findSuccessor (db ++ log'.writes) deprecatedId .PROPOSED = some v ∧ v.id = r := by
    rw [alone_bind, alone_query, ExceptOk.ok_bind] at h
    dsimp only at h
    cases hfound : findSuccessor (view append db mid.writes) deprecatedId .PROPOSED with
    | none =>
      rw [hfound, hnone] at h
      cases h
    | some v =>
      rw [hfound, hsome] at h
      cases h
      rw [view_eq] at hfound
      exact ⟨v, by simpa using hfound, rfl⟩
  simp only [proposeReplacement, alone_bind, alone_query, ExceptOk.ok_bind] at h
  cases hfound : findVersion (view append db log.writes) deprecatedId with
  | none =>
    rw [hfound] at h
    simp only [alone_bind, alone_pure, ExceptOk.ok_bind] at h
    rw [if_neg Bool.false_ne_true] at h
    exact hrest h rfl fun _ => rfl
  | some deprecated =>
    rw [hfound] at h
    simp only [alone_bind, ExceptOk.bind_eq_ok] at h
    obtain ⟨⟨inserted, mid⟩, hinsert, h⟩ := h
    dsimp only at h
    split at h
    · rename_i hinserted
      cases h
      rw [view_eq] at hfound
      have hid : deprecated.id = deprecatedId := by
        have hmatch := List.find?_some hfound
        rwa [decide_eq_true_eq] at hmatch
      rcases alone_insertOr hinsert with ⟨hcreated, -, -⟩ | ⟨-, hfree, hwrites⟩
      · obtain rfl : inserted = false := (Except.ok.inj hcreated).symm
        cases hinserted
      · rw [Log.add_writes, List.append_nil] at hfree hwrites
        rw [hwrites, ← List.append_assoc]
        refine ⟨replacementVersion id amendmentId clauseId deprecated, ?_, rfl⟩
        exact findSuccessor_inserted (hfree _ (by simp)) (congrArg some hid) rfl
    · exact hrest h rfl fun _ => rfl

/-- What was retired rests. -/
theorem retireVersion_rests {amendmentId : ℕ} {entry : (ClauseImpact × ℕ) × ℕ} {t : AmendedRuleTransition}
    (h : alone append db (retireVersion tx amendmentId entry) log = .ok (t, log')) : Rests (db ++ log'.writes) entry.1 t := by
  obtain ⟨new, hnew, -⟩ := (retireVersion_effect h).new
  simp only [retireVersion, alone_bind, ExceptOk.bind_eq_ok] at h
  obtain ⟨⟨⟨deprecatedId, created⟩, mid⟩, htransition, h⟩ := h
  obtain ⟨⟨current, hcurrent, hallowed, htaken⟩, v, hv, hid⟩ := transition_rests htransition
  dsimp only at h
  split at h
  · rename_i clauseId hchange hclause
    simp only [alone_bind, ExceptOk.bind_eq_ok] at h
    obtain ⟨⟨replacementId, last⟩, hreplacement, h⟩ := h
    cases h
    obtain ⟨w, hw, rfl⟩ := proposeReplacement_rests hreplacement
    have hlast : ∃ ws, db ++ last.writes = db ++ mid.writes ++ ws := by
      rcases proposeReplacement_effect hreplacement with hwrites | ⟨deprecated, -, hwrites⟩
      · exact ⟨[], by rw [hwrites, List.append_nil]⟩
      · exact ⟨_, by rw [hwrites, List.append_assoc]⟩
    obtain ⟨ws, hlast⟩ := hlast
    refine ⟨rfl, ⟨current, ?_, hallowed, ?_⟩, ⟨v, ?_, hid⟩, ?_⟩
    · rw [hlast]
      exact findVersion_append hcurrent
    · rw [hlast]
      exact taken_mono (List.subset_append_left _ _) htaken
    · rw [hlast]
      exact findSuccessor_append hv
    · rw [if_pos ⟨hchange, by rw [hclause]; rfl⟩]
      exact ⟨w, hw, rfl⟩
  · rename_i hunchanged
    cases h
    refine ⟨rfl, ⟨current, hcurrent, hallowed, htaken⟩, ⟨v, hv, hid⟩, ?_⟩
    rw [if_neg]
    intro hchanged
    obtain ⟨clauseId, hclause⟩ := Option.isSome_iff_exists.mp hchanged.2
    exact hunchanged clauseId hchanged.1 hclause

/-- All that was retired rests at the end. -/
theorem retireVersions_rests {amendmentId : ℕ} {entries : List ((ClauseImpact × ℕ) × ℕ)} :
    ∀ {log : Log Db Row Key} {ts : List AmendedRuleTransition},
      alone append db (retireVersions tx amendmentId entries) log = .ok (ts, log') →
      List.Forall₂ (fun entry t => Rests (db ++ log'.writes) entry.1 t) entries ts := by
  induction entries with
  | nil =>
    intro log ts h
    cases h
    exact .nil
  | cons entry rest ih =>
    intro log ts h
    simp only [retireVersions, alone_bind, ExceptOk.bind_eq_ok] at h
    obtain ⟨⟨transition, mid⟩, hentry, ⟨transitions, last⟩, hrest, h⟩ := h
    cases h
    refine .cons ?_ (ih hrest)
    obtain ⟨new, hnew, -⟩ := (retireVersions_effect hrest).new
    rw [hnew]
    exact (retireVersion_rests hentry).append

/-! ## A second retirement -/

theorem Rests.finds {amendmentId k : ℕ} {entry : ClauseImpact × ℕ} {t : AmendedRuleTransition} (h : Rests db entry t) :
    Finds db (retireVersion tx amendmentId (entry, k)) t := by
  obtain ⟨impact, oldId⟩ := entry
  obtain ⟨current, hcurrent, hallowed, htaken⟩ := h.event
  obtain ⟨v, hv, hid⟩ := h.deprecated
  have hpromotion {event : RuleVersion → PromotionEvent} (hevent : ∀ u, (event u).ruleVersionId = t.deprecatedRuleVersionId ∧
      (event u).fromLifecycle = current.lifecycleState ∧ (event u).toLifecycle = .DEPRECATED) :
      Finds db (insertPromotionEvent event v.id) ⟨⟩ := by
    refine (Finds.query _).bind ?_
    cases findVersion db v.id with
    | none => exact Finds.pure _
    | some u =>
      obtain ⟨hversion, hfrom, hto⟩ := hevent u
      dsimp only
      rw [if_neg fun hactive => by rw [hto] at hactive; cases hactive.1]
      refine (insertRow_finds ?_).bind (Finds.pure _)
      rw [hversion, hfrom, hto]
      exact htaken
  have htransition : Finds db (transitionRuleLifecycle (newId tx (2 * k))
      ⟨oldId, .DEPRECATED, amendmentRationale amendmentId impact, none, none⟩) (v.id, false) := by
    refine (Finds.query _).bind ?_
    rw [show findVersion db oldId = some current from hcurrent]
    dsimp only
    rw [if_neg (not_not.mpr hallowed)]
    refine (insertRow_finds (taken_of_findSuccessor hv)).bind ((Finds.query _).bind ?_)
    rw [if_neg Bool.false_ne_true, hv]
    exact (hpromotion fun u => ⟨hid, rfl, rfl⟩).bind (Finds.pure _)
  have hreplacement := h.replacement
  have hversion : t.oldRuleVersionId = oldId := h.version
  refine htransition.bind ?_
  dsimp only at hreplacement ⊢
  split
  · rename_i clauseId hchange hclause
    rw [if_pos ⟨hchange, by rw [hclause]; rfl⟩] at hreplacement
    obtain ⟨w, hw, hreplaced⟩ := hreplacement
    have hexisting {g : Option RuleVersion → Statement ℕ} (hsome : ∀ v, g (some v) = pure v.id) :
        Finds db (if false = true then pure (newId tx (2 * k + 1)) else
          Prog.query (fun db => findSuccessor db v.id .PROPOSED) >>= g) w.id := by
      rw [if_neg Bool.false_ne_true]
      refine (Finds.query _).bind ?_
      rw [hid, hw, hsome]
      exact Finds.pure _
    have hpropose : Finds db (proposeReplacement (newId tx (2 * k + 1)) amendmentId clauseId v.id) w.id := by
      refine (Finds.query _).bind ?_
      cases findVersion db v.id with
      | none => exact (Finds.pure false).bind (hexisting fun _ => rfl)
      | some deprecated =>
        refine (insertRow_finds ?_).bind (hexisting fun _ => rfl)
        rw [hid]
        exact taken_of_findSuccessor hw
    have ht : t = ⟨oldId, v.id, some w.id⟩ := by rw [← hversion, hid, ← hreplaced]
    rw [ht]
    exact hpropose.bind (Finds.pure _)
  · rename_i hunchanged
    have ht : t = ⟨oldId, v.id, none⟩ := by
      rw [if_neg] at hreplacement
      · rw [← hversion, hid, ← hreplacement]
      · intro hchanged
        obtain ⟨clauseId, hclause⟩ := Option.isSome_iff_exists.mp hchanged.2
        exact hunchanged clauseId hchanged.1 hclause
    rw [ht]
    exact Finds.pure _

theorem retireVersions_finds {amendmentId : ℕ} {entries : List ((ClauseImpact × ℕ) × ℕ)} {ts : List AmendedRuleTransition}
    (h : List.Forall₂ (fun entry t => Rests db entry.1 t) entries ts) :
    Finds db (retireVersions tx amendmentId entries) ts := by
  induction h with
  | nil => exact Finds.pure _
  | cons hentry _ ih => exact (Rests.finds hentry).bind (ih.bind (Finds.pure _))

/-- Rows that no amendment is read from. -/
structure Unread (ws : Db) : Prop where
  clauses : contractClauses ws = []
  amendments : contractAmendments ws = []
  inactive : ∀ v ∈ ruleVersions ws, v.lifecycleState ≠ .ACTIVE

theorem Unread.impactsOf (h : Unread ws) {supersedesVersionId newVersionId : ℕ} :
    impactsOf (db ++ ws) (joinedClauses collation (db ++ ws) supersedesVersionId newVersionId) =
      Contracts.impactsOf db (joinedClauses collation db supersedesVersionId newVersionId) := by
  have hclauses : contractClauses (db ++ ws) = contractClauses db := by
    rw [contractClauses, List.filterMap_append, ← contractClauses, ← contractClauses, h.clauses, List.append_nil]
  have hactive : ∀ clauseId, activeVersionsOf clauseId (db ++ ws) = activeVersionsOf clauseId db := by
    intro clauseId
    have hnone : (ruleVersions ws).filter (fun v => v.clauseId = some clauseId ∧ v.lifecycleState = .ACTIVE) = [] :=
      List.filter_eq_nil_iff.mpr fun v hv hactive => h.inactive v hv (of_decide_eq_true hactive).2
    rw [activeVersionsOf, activeVersionsOf, ruleVersions_append, List.filter_append, hnone, List.append_nil]
  rw [joinedClauses, joinedClauses, hclauses, Contracts.impactsOf, Contracts.impactsOf]
  simp only [hactive]

theorem Unread.findAmendment (h : Unread ws) {input : AmendmentInput} :
    findAmendment (db ++ ws) input = Contracts.findAmendment db input := by
  rw [Contracts.findAmendment, contractAmendments, List.filterMap_append, ← contractAmendments, ← contractAmendments,
    h.amendments, List.append_nil, Contracts.findAmendment]

/-- The amendment is found, and what it retires rests. -/
structure Settled (collation : String → String → Ordering) (db : Db) (input : AmendmentInput) (ts : List AmendedRuleTransition) :
    Prop where
  rests : ∃ a supersedesVersionId newVersionId, findAmendment db input = some a ∧
    a.supersedesVersionId = some supersedesVersionId ∧ a.newVersionId = some newVersionId ∧
      List.Forall₂ (fun entry t => Rests db entry.1 t)
        (retirements (impactsOf db (joinedClauses collation db supersedesVersionId newVersionId))).zipIdx ts

variable {input : AmendmentInput} {ts : List AmendedRuleTransition}

theorem Settled.append (h : Settled collation db input ts) (hws : Unread ws) : Settled collation (db ++ ws) input ts := by
  obtain ⟨a, supersedesVersionId, newVersionId, ha, hold, hnew, hrests⟩ := h.rests
  refine ⟨a, supersedesVersionId, newVersionId, hws.findAmendment.trans ha, hold, hnew, ?_⟩
  rw [hws.impactsOf]
  exact hrests.imp fun _ _ hrest => hrest.append

/-- A settled amendment retires the same versions, and inserts nothing. -/
theorem Settled.finds (h : Settled collation db input ts) : Finds db (retireAmendedRules collation tx input) ts := by
  obtain ⟨a, supersedesVersionId, newVersionId, ha, hold, hnew, hrests⟩ := h.rests
  exact (analyzeAmendmentImpact_finds ha hold hnew).bind (retireVersions_finds hrests)

/-- An amendment that can be analysed is there, and links two versions. -/
theorem analyzeAmendmentImpact_linked {impacts : List ClauseImpact}
    (h : alone append db (analyzeAmendmentImpact collation input) .empty = .ok (impacts, log)) :
    ∃ a supersedesVersionId newVersionId, findAmendment db input = some a ∧
      a.supersedesVersionId = some supersedesVersionId ∧ a.newVersionId = some newVersionId := by
  rw [analyzeAmendmentImpact, alone_bind, alone_query, ExceptOk.ok_bind] at h
  dsimp only at h
  cases ha : findAmendment (view append db (Log.empty : Log Db Row Key).writes) input with
  | none =>
    rw [ha] at h
    cases h
  | some a =>
    rw [ha] at h
    dsimp only at h
    split at h
    · rename_i supersedesVersionId newVersionId hold hnew
      exact ⟨a, supersedesVersionId, newVersionId, ha, hold, hnew⟩
    · cases h

/-- A retirement settles its amendment with rows that no amendment is read from. -/
theorem retireAmendedRules_settles (h : alone append db (retireAmendedRules collation tx input) .empty = .ok (ts, log)) :
    Settled collation (db ++ log.writes) input ts ∧ Unread log.writes := by
  have hwhole := h
  rw [retireAmendedRules, alone_bind, ExceptOk.bind_eq_ok] at h
  obtain ⟨⟨impacts, mid⟩, hanalysis, hretire⟩ := h
  obtain ⟨a, supersedesVersionId, newVersionId, ha, hold, hnew⟩ := analyzeAmendmentImpact_linked hanalysis
  have hfinds : Finds db (analyzeAmendmentImpact collation input) _ := analyzeAmendmentImpact_finds ha hold hnew
  obtain ⟨mid', hanalysis', hmid⟩ := hfinds .empty rfl
  obtain ⟨rfl, rfl⟩ := Prod.mk.inj (Except.ok.inj (hanalysis.symm.trans hanalysis'))
  have hinserts : Inserts Row.keys Row.Written (retireAmendedRules collation tx input) :=
    inserts_bind analyzeAmendmentImpact_inserts fun impacts => retireVersions_inserts _
  have hwritten := hinserts.writes (alone_ends hwhole (by simp [Log.empty])).1 fun w hw => absurd hw List.not_mem_nil
  have hunread : Unread log.writes := by
    refine ⟨List.filterMap_eq_nil_iff.mpr fun w hw => ?_, List.filterMap_eq_nil_iff.mpr fun w hw => ?_, fun v hv => ?_⟩
    · have hrow := hwritten w hw
      cases w with
      | contractClause clause => exact hrow.elim
      | _ => rfl
    · have hrow := hwritten w hw
      cases w with
      | contractAmendment amendment => exact hrow.elim
      | _ => rfl
    · obtain ⟨new, hrows, hstates⟩ := (retireAmendedRules_effect hwhole ha hold hnew).new
      obtain rfl := List.append_cancel_left hrows
      rcases (hstates v (mem_ruleVersions.mp hv)).2 with hstate | ⟨hstate, -⟩
      · rw [hstate]
        decide
      · rw [hstate]
        decide
  refine ⟨⟨a, supersedesVersionId, newVersionId, hunread.findAmendment.trans ha, hold, hnew, ?_⟩, hunread⟩
  rw [hunread.impactsOf]
  exact retireVersions_rests hretire

end Contracts
