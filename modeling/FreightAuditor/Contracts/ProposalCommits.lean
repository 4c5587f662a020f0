import FreightAuditor.Contracts.ProposalWrites

/- Every row that a call on proposals inserts is backed.

   The rows a call has read are a beginning of those committed when it commits; with its own
   they are the rows that back what it inserts (`commit_backed`). -/
namespace Contracts

open AppendOnly DecimalJs JsText ReadCommitted
open Claims (AuditEvent AuditEventEvidence sameEvidence)
open RuleEngine (RuleLifecycle TransitionInput Verdict)

variable {sha256 : String → ℕ} {collation : String → String → Ordering} {D : Type} [Decimal D] {unicode : Unicode}
  {tx startedAt : ℕ} {db rows : Db} {log log' : Log Db Row Key}

/-! ## Statements -/

/-- A text that was trimmed and bounded parses to itself. -/
theorem parseRationale_idem {text rationale : String} (h : parseRationale text = some rationale) :
    parseRationale rationale = some rationale := by
  rw [parseRationale] at h
  split at h
  · rename_i hbounded
    obtain rfl := Option.some.inj h
    rw [parseRationale, trim_trim, if_pos hbounded]
  · cases h

theorem insertRow_within {target : List Key} {row : Row} {r : Bool} (h : Ends append (insertRow target row) log r log')
    (hin : Within rows log') :
    (r = true ∧ row ∈ rows ∧ log'.writes = log.writes ++ [row]) ∨
      (r = false ∧ (∃ k ∈ target, taken Row.keys rows k = true) ∧ log'.writes = log.writes) :=
  insertUnless_within h hin

theorem sameEvidence_refl (value : AuditEventEvidence) : sameEvidence value value = true := by
  simp [sameEvidence]

/-- The event is there afterwards, with this evidence. -/
theorem writeAuditEvent_within {id : ℕ} {value : AuditEventEvidence} {r : Bool}
    (h : Ends append (writeAuditEvent startedAt id value) log r log') (hin : Within rows log') :
    (∃ e : AuditEvent, Row.auditEvent e ∈ rows ∧ e.id = id ∧ sameEvidence e.toAuditEventEvidence value = true) ∧
      ∃ events : List AuditEvent, log'.writes = log.writes ++ events.map .auditEvent := by
  obtain ⟨s, ⟨hfound, -, rfl⟩ | ⟨rfl, -, rfl⟩⟩ := ends_insertOr.mp h
  · refine ⟨?_, [], rfl⟩
    by_cases hany : (auditEvents (s ++ log.writes)).any fun e => e.id == id && sameEvidence e.toAuditEventEvidence value
    · obtain ⟨e, he, hsame⟩ := List.any_eq_true.mp hany
      rw [Bool.and_eq_true, beq_iff_eq] at hsame
      exact ⟨e, hin.view (mem_auditEvents.mp he), hsame⟩
    · rw [if_neg hany] at hfound
      cases hfound
  · exact ⟨⟨_, hin.writes (List.mem_append_right _ (List.mem_singleton_self _)), rfl, sameEvidence_refl value⟩,
      [_], rfl⟩

/-! ## Transitions -/

theorem insertPromotionEvent_plain {event : RuleVersion → PromotionEvent} {id : ℕ} :
    Covered (fun _ w => w.Plain) (insertPromotionEvent event id) := by
  refine covered_bind covered_query fun found => ?_
  cases found with
  | none => exact covered_pure
  | some v =>
    dsimp only
    split
    · trivial
    · exact covered_bind (covered_insertOr trivial) fun _ => covered_pure

theorem transitionRuleLifecycle_plain {id : ℕ} {input : TransitionInput} :
    Covered (fun _ w => w.Plain) (transitionRuleLifecycle id input) := by
  refine covered_bind covered_query fun found => ?_
  cases found with
  | none => trivial
  | some current =>
    dsimp only
    split
    · trivial
    · refine covered_bind (covered_insertOr ⟨rfl, rfl⟩) fun created => covered_bind covered_query fun next => ?_
      cases next with
      | none => trivial
      | some nextId => exact covered_bind insertPromotionEvent_plain fun _ => covered_pure

theorem transition_writes {id : ℕ} {input : TransitionInput} {r : ℕ × Bool}
    (h : Ends append (transitionRuleLifecycle id input) .empty r log) : ∀ w ∈ log.writes, w.Plain :=
  transitionRuleLifecycle_plain.ends (fun _ _ _ _ hw => hw) h fun _ hw => absurd hw List.not_mem_nil

/-! ## Backtests -/

/-- The verdict of a case is judged where it is found. -/
theorem caseEvidence_passed {ast : RuleEngine.AstNode} {c : BacktestCase} {item : CaseEvidence}
    (h : caseEvidence sha256 D ast c = .ok item) : item.passed = true → item.actualVerdict = item.expectedVerdict := by
  simp only [caseEvidence, ExceptOk.bind_eq_ok, ExceptOk.pure_eq_ok] at h
  obtain ⟨ev, -, rfl⟩ := h
  exact of_decide_eq_true

theorem evaluateProposalCorpus_passed {ast : RuleEngine.AstNode} {expectedInputs : List String}
    {cases : List BacktestCase} {evidence : List CaseEvidence}
    (h : evaluateProposalCorpus sha256 D unicode ast expectedInputs cases = .ok evidence) :
    ∀ item ∈ evidence, item.passed = true → item.actualVerdict = item.expectedVerdict := by
  rw [evaluateProposalCorpus] at h
  split at h
  · cases h
  split at h
  · cases h
  intro item hitem
  obtain ⟨c, -, hc⟩ := (ExceptOk.mem_mapM h).mp hitem
  exact caseEvidence_passed hc

/-- The backtest that is recorded or found agrees with this one on the outcome. -/
theorem recordBacktest_within {row : ContractRuleProposalBacktest} {r : ℕ × Bool}
    (h : Ends append (recordBacktest row) log r log') (hin : Within rows log') :
    (∃ b, Row.backtest b ∈ rows ∧ b.id = r.1 ∧ b.passed = row.passed) ∧
      ∀ w ∈ log'.writes, w ∈ log.writes ∨ w = .backtest row := by
  rw [recordBacktest, ends_bind] at h
  obtain ⟨inserted, mid, hinsert, h⟩ := h
  have hmid : Within rows mid := hin.before h.extends
  rcases insertRow_within hinsert hmid with ⟨rfl, hrow, hwrites⟩ | ⟨rfl, -, hwrites⟩
  · obtain ⟨rfl, rfl⟩ := ends_pure.mp h
    exact ⟨⟨row, hrow, rfl, rfl⟩, fun w hw => by simpa [hwrites] using hw⟩
  · rw [if_neg Bool.false_ne_true, ends_bind] at h
    obtain ⟨existing, last, ⟨s, hexisting, rfl⟩, h⟩ := h
    cases existing with
    | none => exact h.elim
    | some id =>
      obtain ⟨rfl, rfl⟩ := ends_pure.mp h
      obtain ⟨b, hb, rfl⟩ := Option.map_eq_some_iff.mp hexisting.symm
      have hsame := List.find?_some hb
      simp only [sameBacktest, Bool.and_eq_true, beq_iff_eq] at hsame
      refine ⟨⟨b, ?_, rfl, hsame.1.1.1.2⟩, fun w hw => .inl (by simpa [hwrites] using hw)⟩
      rw [view_eq] at hb
      exact hin.view (mem_backtests.mp (List.mem_of_find?_eq_some hb))

theorem recordCase_writes {clientId backtestId : ℕ} {item : CaseEvidence}
    (h : Ends append (recordCase clientId backtestId item) log ⟨⟩ log') :
    ∀ w ∈ log'.writes, w ∈ log.writes ∨ w = .backtestCase (caseRow clientId backtestId item) := by
  have hcovered : Covered (fun _ w => w ∈ log.writes ∨ w = .backtestCase (caseRow clientId backtestId item))
      (recordCase clientId backtestId item) := by
    refine covered_bind (covered_insertOr (.inr rfl)) fun inserted => ?_
    split
    · exact covered_pure
    · refine covered_bind covered_query fun found => ?_
      split
      · exact covered_pure
      · trivial
  exact hcovered.ends (fun _ _ _ _ hw => hw) h fun _ hw => .inl hw

/-- What one proposal's part of a batch inserts is backed. -/
theorem backtestProposal_backed {input : BacktestInput} {entry : ContractRuleProposal × ℕ} {e : BatchEvidence}
    (h : Ends append (backtestProposal sha256 D unicode tx input entry) log e log') (hin : Within rows log')
    (hlog : ∀ w ∈ log.writes, Backed sha256 rows w ∧ ∀ v, w ≠ .ruleVersion v) :
    ∀ w ∈ log'.writes, Backed sha256 rows w ∧ ∀ v, w ≠ .ruleVersion v := by
  rw [backtestProposal] at h
  split at h
  · exact h.elim
  simp only [ends_bind, ends_ofExcept, ends_pure] at h
  obtain ⟨evidence, _, ⟨hevidence, rfl⟩, result, mid, hrecord, ⟨⟩, last, hcases, -, rfl⟩ := h
  have hmid : Within rows mid := hin.before hcases.extends
  obtain ⟨⟨b, hb, hid, hpassed⟩, hwrites⟩ := recordBacktest_within hrecord hmid
  have hstart : ∀ w ∈ mid.writes, Backed sha256 rows w ∧ ∀ v, w ≠ .ruleVersion v := by
    intro w hw
    rcases hwrites w hw with hw | rfl
    · exact hlog w hw
    · exact ⟨trivial, fun v => by simp⟩
  -- a passing backtest has no failing case
  have hcase : ∀ item ∈ evidence, b.passed = true → item.actualVerdict = item.expectedVerdict := by
    intro item hitem hb
    refine evaluateProposalCorpus_passed hevidence item hitem ?_
    have hnone : evidence.filter (!·.passed) = [] := by
      simpa [hpassed, backtestRow] using hb
    simpa using List.filter_eq_nil_iff.mp hnone item hitem
  refine Ends.forM (P := fun _ log => ∀ w ∈ log.writes, Backed sha256 rows w ∧ ∀ v, w ≠ .ruleVersion v)
    (Q := fun _ => True) (fun done item hitem log log' hP hends _ w hw => ?_) hstart hcases (fun _ _ => trivial)
  rcases recordCase_writes hends w hw with hw | rfl
  · exact hP w hw
  · exact ⟨⟨b, hb, hid, hcase item hitem⟩, fun v => by simp⟩

theorem backtestBatch_backed {input : BacktestInput} (entries : List (ContractRuleProposal × ℕ)) :
    ∀ {log : Log Db Row Key} {es : List BatchEvidence},
      Ends append (backtestBatch sha256 D unicode tx input entries) log es log' → Within rows log' →
      (∀ w ∈ log.writes, Backed sha256 rows w ∧ ∀ v, w ≠ .ruleVersion v) →
      ∀ w ∈ log'.writes, Backed sha256 rows w ∧ ∀ v, w ≠ .ruleVersion v := by
  induction entries with
  | nil =>
    intro log es h _ hlog
    obtain ⟨-, rfl⟩ := ends_pure.mp h
    exact hlog
  | cons entry rest ih =>
    intro log es h hin hlog
    rw [backtestBatch] at h
    simp only [ends_bind, ends_pure] at h
    obtain ⟨e, mid, hentry, es', last, hrest, -, rfl⟩ := h
    exact ih hrest hin (backtestProposal_backed hentry (hin.before hrest.extends) hlog)

theorem backtest_backed {untrusted : BacktestInput} {r : BacktestResult}
    (h : Ends append (backtestContractRuleProposals sha256 D unicode tx startedAt untrusted) .empty r log)
    (hin : Within rows log) : ∀ w ∈ log.writes, Backed sha256 rows w ∧ ∀ v, w ≠ .ruleVersion v := by
  rw [backtestContractRuleProposals] at h
  split at h
  · exact h.elim
  rename_i input _
  dsimp only at h
  split at h
  · exact h.elim
  simp only [ends_bind, ends_query] at h
  obtain ⟨rows', _, ⟨s, -, rfl⟩, h⟩ := h
  split at h
  · exact h.elim
  simp only [ends_bind, ends_pure] at h
  obtain ⟨batch, mid, hbatch, created, last, hevent, -, rfl⟩ := h
  have hmid := backtestBatch_backed _ hbatch (hin.before hevent.extends)
    (fun w hw => absurd hw (by simp [Log.empty]))
  obtain ⟨-, events, hwrites⟩ := writeAuditEvent_within hevent hin
  intro w hw
  rw [hwrites] at hw
  rcases List.mem_append.mp hw with hw | hw
  · exact hmid w hw
  · obtain ⟨e, -, rfl⟩ := List.mem_map.mp hw
    exact ⟨trivial, fun v => by simp⟩

/-! ## Acceptance -/

theorem findProposal_some {clientId proposalId : ℕ} {p : ContractRuleProposal}
    (h : findProposal db clientId proposalId = some p) : Row.proposal p ∈ db ∧ p.accountId = clientId := by
  have hp := List.find?_some h
  rw [decide_eq_true_eq] at hp
  exact ⟨mem_proposals.mp (List.mem_of_find?_eq_some h), hp.1⟩

theorem findPassingBacktest_some {clientId backtestId : ℕ} {p : ContractRuleProposal}
    {b : ContractRuleProposalBacktest} (h : findPassingBacktest db clientId backtestId p = some b) :
    Row.backtest b ∈ db ∧ b.accountId = clientId ∧ b.id = backtestId ∧ b.proposalId = p.id ∧
      b.proposalHash = p.proposalHash ∧ b.astHash = p.astHash ∧ b.passed = true := by
  have hb := List.find?_some h
  rw [decide_eq_true_eq] at hb
  exact ⟨mem_backtests.mp (List.mem_of_find?_eq_some h), hb⟩

/-- The first version derived from a proposal, or a row that rests on nothing. -/
def DerivedRow (rows : Db) (w : Row) : Prop :=
  (w.Plain ∧ ∀ v, w ≠ .ruleVersion v) ∨ ∃ v p b, w = .ruleVersion v ∧ DerivedFrom rows v p b ∧ ¬ v.Ratified ∧
    v.predecessorRuleVersionId = none ∧ v.lifecycleState = .SHADOW

theorem accept_writes {untrusted : AcceptInput} {r : AcceptResult}
    (h : Ends append (acceptContractRuleProposal sha256 collation tx startedAt untrusted) .empty r log)
    (hin : Within rows log) : ∀ w ∈ log.writes, DerivedRow rows w := by
  rw [acceptContractRuleProposal] at h
  split at h
  · exact h.elim
  rename_i rationale hrationale
  simp only [ends_bind, ends_query] at h
  obtain ⟨found, log₁, ⟨s₁, hfound, rfl⟩, h⟩ := h
  cases found with
  | none => exact h.elim
  | some found =>
    obtain ⟨p, clauseId⟩ := found
    obtain ⟨p', hp, hpair⟩ := Option.map_eq_some_iff.mp hfound.symm
    obtain ⟨rfl, -⟩ := Prod.mk.inj hpair
    simp only [ends_bind, ends_query] at h
    obtain ⟨backtest, log₂, ⟨s₂, hbacktest, rfl⟩, h⟩ := h
    cases backtest with
    | none => exact h.elim
    | some b =>
      have hin₂ : Within rows (Log.add (Log.add .empty s₁ [] []) s₂ [] []) := hin.before h.extends
      obtain ⟨hproposal, haccount⟩ := findProposal_some hp
      obtain ⟨hb, hbaccount, hbid, hbproposal, hbhash, hbast, hpassed⟩ := findPassingBacktest_some hbacktest.symm
      rw [view_eq] at hproposal hb
      have hproposal : Row.proposal p' ∈ rows := (hin₂.before (Log.add_extends ..)).view hproposal
      have hb : Row.backtest b ∈ rows := hin₂.view hb
      -- from here on no statement can insert anything else
      have hmono : ∀ (ks ks' : List Key) w, (∀ k ∈ ks, k ∈ ks') → DerivedRow rows w → DerivedRow rows w :=
        fun _ _ _ _ hw => hw
      refine Covered.ends hmono ?_ h (fun w hw => absurd hw (by simp [Log.empty]))
      refine covered_bind (covered_insertOr (.inl ⟨trivial, fun v => by simp⟩)) fun rule => ?_
      split
      · trivial
      refine covered_bind (covered_insertOr (.inr ⟨_, p', b, rfl, ?_, by simp [RuleVersion.Ratified, shadowVersion],
        rfl, rfl⟩))
        fun shadow => ?_
      · exact ⟨hproposal, hb, rfl, congrArg some hbid.symm, rfl, rfl,
          ⟨hbaccount.trans haccount.symm, hbproposal, hbhash, hbast⟩, hpassed⟩
      cases shadow with
      | none => trivial
      | some shadow =>
        refine covered_bind (covered_insertOr (.inl ⟨trivial, fun v => by simp⟩)) fun acceptance => ?_
        cases acceptance with
        | none => trivial
        | some acceptance => exact covered_bind (covered_insertOr (.inl ⟨trivial, fun v => by simp⟩)) fun _ => covered_pure

/-! ## Ratification -/

theorem findRatifiable_some {clientId acceptanceId : ℕ} {a : ContractRuleProposalAcceptance} {shadow : RuleVersion}
    (h : findRatifiable db clientId acceptanceId = some (a, shadow)) :
    a.accountId = clientId ∧ a.id = acceptanceId ∧ ∃ b, Ratifiable db a shadow b := by
  simp only [findRatifiable, Option.bind_eq_bind, Option.bind_eq_some_iff] at h
  obtain ⟨a', ha, v, hv, b, hb, heq⟩ := h
  obtain ⟨rfl, rfl⟩ := Prod.mk.inj (Option.some.inj heq)
  have ha' := List.find?_some ha
  have hv' := List.find?_some hv
  have hb' := List.find?_some hb
  simp only [decide_eq_true_eq] at ha' hv' hb'
  exact ⟨ha'.1, ha'.2, b, mem_acceptances.mp (List.mem_of_find?_eq_some ha),
    mem_ruleVersions.mp (List.mem_of_find?_eq_some hv), mem_backtests.mp (List.mem_of_find?_eq_some hb), hv', hb'⟩

/-- An ACTIVE version derived from the SHADOW one of an acceptance. -/
def Derived (rows : Db) (activeId : ℕ) (a : ContractRuleProposalAcceptance) (shadow : RuleVersion)
    (ratifiedBy : ℕ) (rationale : String) : Prop :=
  ∃ v, Row.ruleVersion v ∈ rows ∧ v.id = activeId ∧ RatifiedFrom v a shadow ratifiedBy rationale

theorem activeVersion_from {id : ℕ} {input : RatifyInput} {a : ContractRuleProposalAcceptance} {shadow : RuleVersion} :
    RatifiedFrom (activeVersion id input a shadow) a shadow input.actorUserId input.rationale :=
  ⟨rfl, rfl, rfl, ⟨rfl, rfl⟩, rfl, rfl⟩

theorem findActive_some {id activeId : ℕ} {input : RatifyInput} {a : ContractRuleProposalAcceptance}
    {shadow : RuleVersion} (h : findActive db (activeVersion id input a shadow) = some activeId) :
    Derived db activeId a shadow input.actorUserId input.rationale := by
  obtain ⟨v, hv, rfl⟩ := Option.map_eq_some_iff.mp h
  have hv' := List.find?_some hv
  rw [decide_eq_true_eq] at hv'
  obtain ⟨hpred, hstate, hhardness, hsource, hbacktest, hby, hrationale⟩ := hv'
  exact ⟨v, mem_ruleVersions.mp (List.mem_of_find?_eq_some hv), rfl, hpred, hsource, hbacktest,
    ⟨hstate, hhardness⟩, hby, hrationale⟩

/-- The version is new, or the SHADOW one has an ACTIVE successor, seen in a snapshot. -/
theorem deriveActive_ends {id : ℕ} {input : RatifyInput} {a : ContractRuleProposalAcceptance} {shadow : RuleVersion}
    {r : Option ℕ} {activeId : ℕ}
    (h : Ends append (deriveActive (activeVersion id input a shadow) shadow.id) log r log') (hr : r = some activeId)
    (hin : Within rows log') :
    Derived rows activeId a shadow input.actorUserId input.rationale ∧
      (log'.writes = log.writes ++ [.ruleVersion (activeVersion id input a shadow)] ∧ activeId = id ∨
        log'.writes = log.writes ∧ ∃ s ∈ log'.seen,
          taken Row.keys (s.1 ++ log.writes) (.successor shadow.id .ACTIVE) = true) := by
  subst hr
  simp only [deriveActive, ends_bind, ends_query] at h
  obtain ⟨created, mid, hinsert, s, hactive, rfl⟩ := h
  have hmid : Within rows mid := hin.before (Log.add_extends ..)
  obtain ⟨s', ⟨hfalse, ⟨k, hk, htaken⟩, rfl⟩ | ⟨rfl, -, rfl⟩⟩ := ends_insertOr.mp hinsert
  · obtain rfl : created = false := (Except.ok.inj hfalse).symm
    rw [List.mem_singleton.mp hk] at htaken
    obtain ⟨v, hv, hderived⟩ := findActive_some hactive.symm
    rw [view_eq] at hv
    exact ⟨⟨v, hin.view hv, hderived⟩, .inr ⟨by simp, _, (Log.add_extends ..).seen.subset (mem_seen_add ..), htaken⟩⟩
  · obtain rfl := Option.some.inj hactive
    exact ⟨⟨_, hmid.writes (List.mem_append_right _ (List.mem_singleton_self _)), rfl, activeVersion_from⟩,
      .inl ⟨by simp, rfl⟩⟩

theorem recordRatification_ends {row : ContractRuleProposalRatification} {r : RatifyResult}
    (h : Ends append (recordRatification sha256 startedAt row) log r log') (hin : Within rows log') :
    r.activeRuleVersionId = row.activeRuleVersionId ∧
      taken Row.keys rows (.promotion row.activeRuleVersionId .SHADOW .ACTIVE) = true ∧
      (∃ r', Row.ratification r' ∈ rows ∧ r'.activeRuleVersionId = row.activeRuleVersionId) ∧
      ∃ (promotions : List PromotionEvent) (new : List ContractRuleProposalRatification) (events : List AuditEvent),
        log'.writes = log.writes ++ promotions.map Row.promotionEvent ++ new.map Row.ratification ++
          events.map Row.auditEvent ∧
        ∀ row' ∈ new, row' = row ∧ ∃ e : AuditEvent, Row.auditEvent e ∈ rows ∧ e.id = ratifiedEventId sha256 row ∧
          sameEvidence e.toAuditEventEvidence (ratifiedEvidence row) = true := by
  simp only [recordRatification, ends_bind, ends_query] at h
  obtain ⟨promoted, log₁, hpromotion, inserted, log₂, hratification, ratificationId, _, ⟨s, hid, rfl⟩, h⟩ := h
  cases ratificationId with
  | none => exact h.elim
  | some ratificationId =>
    simp only [ends_bind, ends_pure] at h
    obtain ⟨written, last, hevent, rfl, rfl⟩ := h
    obtain ⟨hwritten, events, hw₄⟩ := writeAuditEvent_within hevent hin
    have hin₂ : Within rows log₂ := (hin.before hevent.extends).before (Log.add_extends ..)
    have hpromoted : taken Row.keys rows (.promotion row.activeRuleVersionId .SHADOW .ACTIVE) = true ∧
        ∃ promotions : List PromotionEvent, log₁.writes = log.writes ++ promotions.map Row.promotionEvent := by
      rcases insertRow_within hpromotion (hin₂.before hratification.extends) with
        ⟨-, hrow, hw⟩ | ⟨-, ⟨k, hk, htaken⟩, hw⟩
      · exact ⟨taken_eq_true.mpr ⟨_, hrow, List.mem_singleton_self _⟩, [_], hw⟩
      · rw [List.mem_singleton.mp hk] at htaken
        exact ⟨htaken, [], by simpa using hw⟩
    have hnew : (∃ r', Row.ratification r' ∈ rows ∧ r'.activeRuleVersionId = row.activeRuleVersionId) ∧
        ∃ new : List ContractRuleProposalRatification, log₂.writes = log₁.writes ++ new.map Row.ratification ∧
          ∀ row' ∈ new, row' = row ∧ inserted = true := by
      rcases insertRow_within hratification hin₂ with ⟨hi, hrow, hw⟩ | ⟨rfl, -, hw⟩
      · exact ⟨⟨row, hrow, rfl⟩, [row], hw, fun row' hrow' => ⟨List.mem_singleton.mp hrow', hi⟩⟩
      · obtain ⟨r', hfound, -⟩ := Option.map_eq_some_iff.mp hid.symm
        have hr' := List.find?_some hfound
        rw [decide_eq_true_eq] at hr'
        have hmem := mem_ratifications.mp (List.mem_of_find?_eq_some hfound)
        rw [view_eq] at hmem
        exact ⟨⟨r', (hin.before hevent.extends).view hmem, hr'.2.2.1⟩, [], by simpa using hw,
          fun row' hrow' => absurd hrow' List.not_mem_nil⟩
    obtain ⟨hpromoted, promotions, hw₁⟩ := hpromoted
    obtain ⟨hratified, new, hw₂, hnew⟩ := hnew
    refine ⟨rfl, hpromoted, hratified, promotions, new, events, ?_, fun row' hrow' => ?_⟩
    · rw [hw₄, Log.add_writes, hw₂, hw₁, List.append_nil]
    · obtain ⟨rfl, rfl⟩ := hnew row' hrow'
      obtain rfl := Option.some.inj hid
      exact ⟨rfl, hwritten⟩

/-- What a ratification did: it derived an ACTIVE version from the SHADOW one of its acceptance, or found
the one that an equal one had derived before. -/
structure Ratification (sha256 : String → ℕ) (tx : ℕ) (untrusted : RatifyInput) (db rows : Db) (writes : List Row)
    (activeId : ℕ) where
  rationale : String
  a : ContractRuleProposalAcceptance
  shadow : RuleVersion
  backtest : ContractRuleProposalBacktest
  rest : List Row
  named : a.accountId = untrusted.clientId ∧ a.id = untrusted.acceptanceId
  ratifiable : Ratifiable db a shadow backtest
  derived : Derived rows activeId a shadow untrusted.actorUserId rationale
  ratified : ∃ r, Row.ratification r ∈ rows ∧ r.activeRuleVersionId = activeId
  noVersion : ∀ w ∈ rest, ∀ v, w ≠ .ruleVersion v
  backed : ∀ w ∈ rest, Backed sha256 rows w
  writes_eq :
    writes = .ruleVersion (activeVersion (newId tx 0) { untrusted with rationale } a shadow) :: rest ∧
        activeId = newId tx 0 ∨
      writes = rest ∧ taken Row.keys db (.successor shadow.id .ACTIVE) = true

theorem ratify_ends {untrusted : RatifyInput} {r : RatifyResult}
    (h : Ends append (ratifyContractRuleProposal sha256 tx startedAt untrusted) .empty r log)
    (hin : Within rows log) (hseen : ∀ s ∈ log.seen, s.1 ⊆ db) (hsub : db ⊆ rows) :
    Nonempty (Ratification sha256 tx untrusted db rows log.writes r.activeRuleVersionId) := by
  rw [ratifyContractRuleProposal] at h
  split at h
  · exact h.elim
  rename_i rationale hrationale
  simp only [ends_bind, ends_query] at h
  obtain ⟨found, _, ⟨s, hfound, rfl⟩, h⟩ := h
  cases found with
  | none => exact h.elim
  | some found =>
    obtain ⟨a, shadow⟩ := found
    obtain ⟨haccount, hid, b, hratifiable⟩ := findRatifiable_some hfound.symm
    simp only [ends_bind] at h
    obtain ⟨active, mid, hderive, h⟩ := h
    cases active with
    | none => exact h.elim
    | some activeId =>
      obtain ⟨hactive, hpromoted, hratified, promotions, new, events, hwrites, hnew⟩ := recordRatification_ends h hin
      obtain ⟨hderived, hversion⟩ := deriveActive_ends hderive rfl (hin.before h.extends)
      -- what the first statement saw is committed
      have hs : s ⊆ db := hseen (s, _) ((h.extends.trans hderive.extends).seen.subset (mem_seen_add ..))
      have hratifiable : Ratifiable db a shadow b := hratifiable.mono (by simpa [view_eq, Log.empty] using hs)
      refine ⟨rationale, a, shadow, b, promotions.map .promotionEvent ++ new.map .ratification ++
        events.map .auditEvent, ⟨haccount, hid⟩, hratifiable, hactive ▸ hderived,
        hactive ▸ hratified, fun w hw v => ?_, fun w hw => ?_, ?_⟩
      · simp only [List.mem_append, List.mem_map] at hw
        obtain (⟨_, -, rfl⟩ | ⟨_, -, rfl⟩) | ⟨_, -, rfl⟩ := hw <;> simp
      · simp only [List.mem_append, List.mem_map] at hw
        obtain (⟨_, -, rfl⟩ | ⟨row, hrow, rfl⟩) | ⟨_, -, rfl⟩ := hw
        · trivial
        · obtain ⟨rfl, hevent⟩ := hnew row hrow
          obtain ⟨v, hv, hvid, hfrom⟩ := hderived
          exact ⟨parseRationale_idem hrationale, ⟨a, shadow, b, v, hratifiable.mono hsub, hv, hfrom, hvid, haccount,
            rfl, rfl, rfl, rfl⟩, hpromoted, hevent⟩
        · trivial
      · rw [hwrites]
        rcases hversion with ⟨hw, hnewId⟩ | ⟨hw, p, hp, htaken⟩
        · exact .inl ⟨by rw [hw]; simp [Log.empty], hactive.trans hnewId⟩
        · refine .inr ⟨by rw [hw]; simp [Log.empty], taken_mono ?_ htaken⟩
          have hp := hseen p (h.extends.seen.subset hp)
          simpa [Log.empty] using hp

end Contracts
