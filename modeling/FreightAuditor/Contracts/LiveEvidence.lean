import FreightAuditor.Contracts.ProposalCommits
import FreightAuditor.Library.DecimalRef

/- A firm rule that a contract gave rise to is backed by live evidence.

   An ACTIVE version that a ratification derived says what its proposal says, and rests on
   a backtest of that proposal that passed, on an acceptance and on a SHADOW version; a
   proposal has one such version at most, and a retry returns it. All that holds in every
   interleaving. A ratification looks for its SHADOW version by the state of the row, and
   rows do not change: so it does not see that the version has been quarantined since.
   `liveEvidence_iff` says that no version comes from a quarantined one along exactly those
   runs in which no ratification names one. -/
namespace Contracts

open AppendOnly DecimalJs JsText ReadCommitted
open Claims (AuditEvent AuditEventEvidence sameEvidence)
open RuleEngine (AstNode RuleLifecycle TransitionInput Verdict)

/-! ## The law -/

/-- The version has the AST of its proposal, a backtest of it whose verdicts are all as expected, and an
acceptance of its SHADOW predecessor. -/
def Evidenced (db : Db) (v : RuleVersion) : Prop :=
  ∃ p ∈ proposals db, ∃ b ∈ backtests db, ∃ a ∈ acceptances db, ∃ shadow ∈ ruleVersions db,
    (v.sourceContractRuleProposalId = some p.id ∧ v.ast = p.ast.toJson ∧ v.astHash = p.astHash) ∧
    (v.sourceContractRuleProposalBacktestId = some b.id ∧ b.proposalId = p.id ∧ b.proposalHash = p.proposalHash ∧
      b.astHash = p.astHash ∧ b.passed = true ∧
      ∀ c ∈ backtestCases db, c.backtestId = b.id → c.actualVerdict = c.expectedVerdict) ∧
    (a.proposalId = p.id ∧ a.backtestId = b.id ∧ a.shadowRuleVersionId = shadow.id) ∧
    shadow.lifecycleState = .SHADOW ∧ v.predecessorRuleVersionId = some shadow.id

/-- The call that ratified is recorded, and when it is repeated returns the version and inserts nothing. -/
def RetryReturns (sha256 : String → ℕ) (db : Db) (v : RuleVersion) : Prop :=
  ∃ r ∈ ratifications db, r.activeRuleVersionId = v.id ∧ ∀ tx startedAt, ∃ log,
    alone append db (ratifyContractRuleProposal sha256 tx startedAt
      ⟨r.accountId, r.acceptanceId, r.ratifiedBy, r.rationale⟩) .empty = .ok (⟨r.id, v.id, false⟩, log) ∧
    log.writes = []

/-- Of the rows before a ratified version, none is a quarantined successor of its predecessor. -/
def Unquarantined (db : Db) : Prop :=
  ∀ before v, before ++ [Row.ruleVersion v] <+: db → v.Ratified → ∀ w ∈ ruleVersions before,
    w.predecessorRuleVersionId = v.predecessorRuleVersionId → w.lifecycleState ≠ .QUARANTINED

structure LiveEvidence (sha256 : String → ℕ) (db : Db) : Prop where
  active : ∀ v ∈ ruleVersions db, v.Ratified → v.lifecycleState = .ACTIVE ∧ v.hardness = .FIRM_RULE
  evidenced : ∀ v ∈ ruleVersions db, v.Ratified → Evidenced db v
  one : ∀ v ∈ ruleVersions db, ∀ w ∈ ruleVersions db, v.Ratified → w.Ratified →
    v.sourceContractRuleProposalId = w.sourceContractRuleProposalId → v = w
  retry : ∀ v ∈ ruleVersions db, v.Ratified → RetryReturns sha256 db v
  unquarantined : Unquarantined db

/-- The SHADOW version that a ratification names has not been quarantined, or has its ACTIVE successor
already. -/
def ShadowStands (db : Db) : ProposalCall → Prop
  | .ratifyContractRuleProposal input =>
    ∀ a ∈ acceptances db, a.accountId = input.clientId ∧ a.id = input.acceptanceId →
      (∃ v ∈ ruleVersions db, v.predecessorRuleVersionId = some a.shadowRuleVersionId ∧ v.lifecycleState = .ACTIVE) ∨
        ∀ v ∈ ruleVersions db, v.predecessorRuleVersionId = some a.shadowRuleVersionId → v.lifecycleState ≠ .QUARANTINED
  | _ => True

instance (db : Db) : (call : ProposalCall) → Decidable (ShadowStands db call)
  | .ratifyContractRuleProposal input => inferInstanceAs (Decidable (∀ a ∈ acceptances db,
      a.accountId = input.clientId ∧ a.id = input.acceptanceId →
        (∃ v ∈ ruleVersions db, v.predecessorRuleVersionId = some a.shadowRuleVersionId ∧ v.lifecycleState = .ACTIVE) ∨
          ∀ v ∈ ruleVersions db, v.predecessorRuleVersionId = some a.shadowRuleVersionId →
            v.lifecycleState ≠ .QUARANTINED))
  | .backtestContractRuleProposals _ | .acceptContractRuleProposal _ | .transitionRuleLifecycle _ => .isTrue trivial

/-- A ratification returns the ratified version of the proposal that its acceptance names. -/
def ReturnsActive (db : Db) : ProposalCall → ProposalResult → Prop
  | .ratifyContractRuleProposal input, .ratified r =>
    ∃ v ∈ ruleVersions db, v.Ratified ∧ v.id = r.activeRuleVersionId ∧
      ∃ a ∈ acceptances db, (a.accountId = input.clientId ∧ a.id = input.acceptanceId) ∧
        v.sourceContractRuleProposalId = some a.proposalId
  | _, _ => True

/-! ## What all commits keep -/

structure Consistent (sha256 : String → ℕ) (db : Db) : Prop where
  unique : Unique Row.keys db
  backed : ∀ row ∈ db, Backed sha256 db row

section

variable {sha256 : String → ℕ} {collation : String → String → Ordering} {D : Type} [Decimal D] {unicode : Unicode}
  {tx startedAt : ℕ} {db : Db} {call : ProposalCall} {r : ProposalResult} {log : Log Db Row Key}

/-- The evidence of a SHADOW version is that of the version derived from it. -/
theorem Consistent.activeVersion_derived (h : Consistent sha256 db) {a : ContractRuleProposalAcceptance}
    {shadow : RuleVersion} {b : ContractRuleProposalBacktest} (hratifiable : Ratifiable db a shadow b) (id : ℕ)
    (input : RatifyInput) : ∃ p b', DerivedFrom db (activeVersion id input a shadow) p b' := by
  obtain ⟨-, -, -, hsource, hbacktest⟩ := hratifiable.accepted
  obtain ⟨p, b', hderived⟩ := (h.backed _ hratifiable.shadowVersion).1 (by rw [hsource]; rfl)
  exact ⟨p, b', hderived.proposal, hderived.backtest, hsource.symm.trans hderived.source,
    hbacktest.symm.trans hderived.sourceBacktest, hderived.ast, hderived.astHash, hderived.ofProposal, hderived.passed⟩

/-- What a committed call inserts is backed, and only a ratification inserts a ratified version. -/
theorem commit_backed
    (h : Commit (proposalsSystem sha256 collation D unicode) (Consistent sha256) (Since Row.keys) db call tx
      startedAt r log) :
    (∀ w ∈ log.writes, Backed sha256 (db ++ log.writes) w) ∧
      ((∀ v, .ruleVersion v ∈ log.writes → ¬ v.Ratified) ∧ (∀ input, call ≠ .ratifyContractRuleProposal input) ∨
        ∃ input result, call = .ratifyContractRuleProposal input ∧ r = .ratified result ∧
          Nonempty (Ratification sha256 tx input db (db ++ log.writes) log.writes result.activeRuleVersionId)) := by
  have hin : Within (db ++ log.writes) log := commit_within h
  have hseen : ∀ s ∈ log.seen, s.1 ⊆ db := fun s hs => (seen_initial h hs).subset
  have hends := h.ends
  cases call <;> simp only [proposalsSystem, ProposalCall.body, ends_bind, ends_pure] at hends
  case backtestContractRuleProposals input =>
    obtain ⟨result, _, hends, -, rfl⟩ := hends
    have hbacked := backtest_backed hends hin
    exact ⟨fun w hw => (hbacked w hw).1, .inl ⟨fun v hv => absurd rfl ((hbacked _ hv).2 v), fun _ => by simp⟩⟩
  case acceptContractRuleProposal input =>
    obtain ⟨result, _, hends, -, rfl⟩ := hends
    have hderived := accept_writes hends hin
    refine ⟨fun w hw => ?_, .inl ⟨fun v hv => ?_, fun _ => by simp⟩⟩
    · rcases hderived w hw with hplain | ⟨v, p, b, rfl, hderived, hnot, -⟩
      · exact hplain.1.backed
      · exact ⟨fun _ => ⟨p, b, hderived⟩, fun hratified => absurd hratified hnot⟩
    · rcases hderived _ hv with hplain | ⟨v', p, b, hv', -, hnot, -⟩
      · exact absurd rfl (hplain.2 v)
      · obtain rfl := Row.ruleVersion.inj hv'
        exact hnot
  case ratifyContractRuleProposal input =>
    obtain ⟨result, _, hends, rfl, rfl⟩ := hends
    obtain ⟨run⟩ := ratify_ends hends hin hseen (List.subset_append_left _ _)
    refine ⟨fun w hw => ?_, .inr ⟨input, result, rfl, rfl, ⟨run⟩⟩⟩
    rcases run.writes_eq with ⟨hwrites, hnewId⟩ | ⟨hwrites, -⟩
    · rw [hwrites] at hw
      rcases List.mem_cons.mp hw with rfl | hw
      · obtain ⟨p, b, hderived⟩ := h.good.activeVersion_derived run.ratifiable (newId tx 0)
          { input with rationale := run.rationale }
        obtain ⟨r', hr', hactive⟩ := run.ratified
        refine ⟨fun _ => ⟨p, b, hderived.mono (List.subset_append_left _ _)⟩, fun _ => ⟨?_, r', hr', ?_⟩⟩
        · exact ⟨run.a, run.shadow, run.backtest, _, _, run.ratifiable.mono (List.subset_append_left _ _),
            activeVersion_from⟩
        · exact hactive.trans hnewId
      · exact run.backed w hw
    · rw [hwrites] at hw
      exact run.backed w hw
  case transitionRuleLifecycle input =>
    obtain ⟨result, _, hends, -, rfl⟩ := hends
    have hplain := transition_writes hends
    exact ⟨fun w hw => (hplain w hw).backed, .inl ⟨fun v hv => by simp [RuleVersion.Ratified, (hplain _ hv).2],
      fun _ => by simp⟩⟩

/-- The keys of what a call inserts were free. -/
theorem consistent_fresh
    (h : Commit (proposalsSystem sha256 collation D unicode) (Consistent sha256) (Since Row.keys) db call tx
      startedAt r log) :
    (∀ w ∈ log.writes, ∀ k ∈ w.keys, taken Row.keys db k = false) ∧ Unique Row.keys (db ++ log.writes) :=
  unique_commit rfl (body_inserts call) h h.good.unique

theorem consistent_commit
    (h : Commit (proposalsSystem sha256 collation D unicode) (Consistent sha256) (Since Row.keys) db call tx
      startedAt r log) : Consistent sha256 (db ++ log.writes) := by
  refine ⟨(consistent_fresh h).2, fun row hrow => ?_⟩
  rcases List.mem_append.mp hrow with hrow | hrow
  · exact (h.good.backed row hrow).mono (List.subset_append_left _ _)
  · exact (commit_backed h).1 row hrow

/-! ## What consistent rows say of a ratified version -/

theorem Consistent.ratified_from (h : Consistent sha256 db) {v : RuleVersion} (hv : Row.ruleVersion v ∈ db)
    (hratified : v.Ratified) : ∃ a shadow b ratifiedBy rationale, Ratifiable db a shadow b ∧
      RatifiedFrom v a shadow ratifiedBy rationale := ((h.backed _ hv).2 hratified).1

theorem Consistent.evidenced (h : Consistent sha256 db) {v : RuleVersion} (hv : Row.ruleVersion v ∈ db)
    (hratified : v.Ratified) : Evidenced db v := by
  obtain ⟨a, shadow, _, _, _, hratifiable, hfrom⟩ := h.ratified_from hv hratified
  obtain ⟨p, b, hderived⟩ := (h.backed _ hv).1 (by rw [hfrom.source]; rfl)
  have hproposal : a.proposalId = p.id := Option.some.inj (hfrom.source.symm.trans hderived.source)
  have hbacktest : a.backtestId = b.id := Option.some.inj (hfrom.sourceBacktest.symm.trans hderived.sourceBacktest)
  obtain ⟨-, hof, hhash, hast⟩ := hderived.ofProposal
  refine ⟨p, mem_proposals.mpr hderived.proposal, b, mem_backtests.mpr hderived.backtest, a,
    mem_acceptances.mpr hratifiable.acceptance, shadow, mem_ruleVersions.mpr hratifiable.shadowVersion,
    ⟨hderived.source, hderived.ast, hderived.astHash⟩,
    ⟨hderived.sourceBacktest, hof, hhash, hast, hderived.passed, fun c hc hcb => ?_⟩,
    ⟨hproposal, hbacktest, hratifiable.accepted.1.symm⟩, hratifiable.accepted.2.1, hfrom.predecessor⟩
  -- the case rests on a backtest of that id, which is this one
  obtain ⟨b', hb', hid, hcase⟩ := h.backed _ (mem_backtestCases.mp hc)
  have hsame : Row.backtest b' = Row.backtest b := h.unique.eq_of_key (k := .backtestId b.id) hb' hderived.backtest
    (by simp [Row.keys, hid, hcb]) (by simp [Row.keys])
  obtain rfl := Row.backtest.inj hsame
  exact hcase hderived.passed

theorem Consistent.active (h : Consistent sha256 db) {v : RuleVersion} (hv : Row.ruleVersion v ∈ db)
    (hratified : v.Ratified) : v.lifecycleState = .ACTIVE ∧ v.hardness = .FIRM_RULE := by
  obtain ⟨_, _, _, _, _, -, hfrom⟩ := h.ratified_from hv hratified
  exact hfrom.active

/-- The index over proposal and state admits one. -/
theorem Consistent.one (h : Consistent sha256 db) {v w : RuleVersion} (hv : Row.ruleVersion v ∈ db)
    (hw : Row.ruleVersion w ∈ db) (hrv : v.Ratified) (hrw : w.Ratified)
    (hsource : v.sourceContractRuleProposalId = w.sourceContractRuleProposalId) : v = w := by
  obtain ⟨a, _, _, _, _, -, hfrom⟩ := h.ratified_from hv hrv
  have hva := (h.active hv hrv).1
  have hwa := (h.active hw hrw).1
  refine Row.ruleVersion.inj (h.unique.eq_of_key (k := .derived a.proposalId .ACTIVE) hv hw ?_ ?_)
  · simp [Row.keys, hfrom.source, hva]
  · simp [Row.keys, ← hsource, hfrom.source, hwa]

theorem findRatifiable_eq (hunique : Unique Row.keys db) {a : ContractRuleProposalAcceptance} {shadow : RuleVersion}
    {b : ContractRuleProposalBacktest} (h : Ratifiable db a shadow b) :
    findRatifiable db a.accountId a.id = some (a, shadow) := by
  have ha : (acceptances db).find? (fun a' => a'.accountId = a.accountId ∧ a'.id = a.id) = some a := by
    refine find?_unique (mem_acceptances.mpr h.acceptance) (by simp) fun a' ha' hid => ?_
    rw [decide_eq_true_eq] at hid
    exact Row.acceptance.inj (hunique.eq_of_key (k := .acceptanceId a.id) (mem_acceptances.mp ha') h.acceptance
      (by simp [Row.keys, hid.2]) (by simp [Row.keys]))
  have hshadow : (ruleVersions db).find? (fun v => v.id = a.shadowRuleVersionId ∧ v.lifecycleState = .SHADOW ∧
      v.hardness = .AI_DOCS ∧ v.sourceContractRuleProposalId = some a.proposalId ∧
      v.sourceContractRuleProposalBacktestId = some a.backtestId) = some shadow := by
    refine find?_unique (mem_ruleVersions.mpr h.shadowVersion) (decide_eq_true h.accepted) fun v hv hid => ?_
    rw [decide_eq_true_eq] at hid
    exact Row.ruleVersion.inj (hunique.eq_of_key (k := .ruleVersionId shadow.id) (mem_ruleVersions.mp hv)
      h.shadowVersion (by simp [Row.keys, hid.1, h.accepted.1]) (by simp [Row.keys]))
  have hb : (backtests db).find? (fun b => b.id = a.backtestId ∧ b.accountId = a.accountId ∧
      b.proposalId = a.proposalId ∧ b.passed = true) = some b := by
    refine find?_unique (mem_backtests.mpr h.backtest) (decide_eq_true h.passed) fun b' hb' hid => ?_
    rw [decide_eq_true_eq] at hid
    exact Row.backtest.inj (hunique.eq_of_key (k := .backtestId b.id) (mem_backtests.mp hb') h.backtest
      (by simp [Row.keys, hid.1, h.passed.1]) (by simp [Row.keys]))
  simp only [findRatifiable, Option.bind_eq_bind]
  rw [ha, Option.bind_some, hshadow, Option.bind_some, hb, Option.bind_some]
  rfl

/-! ## Retries -/

theorem writeAuditEvent_finds {id : ℕ} {value : AuditEventEvidence} {e : AuditEvent} (he : Row.auditEvent e ∈ db)
    (hid : e.id = id) (hsame : sameEvidence e.toAuditEventEvidence value = true) :
    Finds db (writeAuditEvent startedAt id value) false := by
  have hany : ((auditEvents db).any fun e => e.id == id && sameEvidence e.toAuditEventEvidence value) = true :=
    List.any_eq_true.mpr ⟨e, mem_auditEvents.mpr he, by rw [hsame, hid]; simp⟩
  refine Finds.insertOr ⟨_, List.mem_singleton_self _, taken_eq_true.mpr ⟨_, he, ?_⟩⟩ (if_pos hany)
  simp [Row.keys, hid]

theorem recordRatification_finds {row : ContractRuleProposalRatification} {id : ℕ} {e : AuditEvent}
    (hpromoted : taken Row.keys db (.promotion row.activeRuleVersionId .SHADOW .ACTIVE) = true)
    (hratified : taken Row.keys db (.ratified row.accountId row.acceptanceId) = true)
    (hfound : findRatification db row = some id) (he : Row.auditEvent e ∈ db)
    (heid : e.id = ratifiedEventId sha256 row)
    (hsame : sameEvidence e.toAuditEventEvidence (ratifiedEvidence { row with id := id }) = true) :
    Finds db (recordRatification sha256 startedAt row) ⟨id, row.activeRuleVersionId, false⟩ := by
  refine (insertRow_finds hpromoted).bind ((insertRow_finds hratified).bind ((Finds.query _).bind ?_))
  rw [if_neg Bool.false_ne_true, hfound]
  exact (writeAuditEvent_finds he heid hsame).bind (Finds.pure _)

/-- Repeated, a ratification finds its version, its record and its event. -/
theorem Consistent.retry (h : Consistent sha256 db) {v : RuleVersion} (hv : Row.ruleVersion v ∈ db)
    (hratified : v.Ratified) : RetryReturns sha256 db v := by
  obtain ⟨-, r, hr, hactive⟩ := (h.backed _ hv).2 hratified
  have hrecorded : Recorded sha256 db r := h.backed _ hr
  obtain ⟨a, shadow, b, v', hratifiable, hv', hfrom, hid', haccount, hacceptance, hproposal, hbacktest, hshadow⟩ :=
    hrecorded.active
  obtain rfl : v' = v := Row.ruleVersion.inj (h.unique.eq_of_key (k := .ruleVersionId v.id) hv' hv
    (by simp [Row.keys, hid', hactive]) (by simp [Row.keys]))
  obtain ⟨e, he, heid, hsame⟩ := hrecorded.event
  refine ⟨r, mem_ratifications.mpr hr, hactive, fun tx startedAt => ?_⟩
  have hsuccessor : taken Row.keys db (.successor shadow.id .ACTIVE) = true :=
    taken_eq_true.mpr ⟨_, hv, by simp [Row.keys, hfrom.predecessor, hfrom.active.1]⟩
  have hfound : findActive db (activeVersion (newId tx 0) ⟨r.accountId, r.acceptanceId, r.ratifiedBy, r.rationale⟩ a
      shadow) = some r.activeRuleVersionId := by
    rw [findActive, find?_unique (mem_ruleVersions.mpr hv), Option.map_some, hid']
    · rw [decide_eq_true_eq]
      exact ⟨hfrom.predecessor, hfrom.active.1, hfrom.active.2, hfrom.source, hfrom.sourceBacktest, hfrom.human.1,
        hfrom.human.2⟩
    · intro w hw hfoundw
      rw [decide_eq_true_eq] at hfoundw
      exact Row.ruleVersion.inj (h.unique.eq_of_key (k := .successor shadow.id .ACTIVE) (mem_ruleVersions.mp hw) hv
        (by simp [Row.keys, hfoundw.1, activeVersion, hfoundw.2.1])
        (by simp [Row.keys, hfrom.predecessor, hfrom.active.1]))
  -- the row that the retry would insert differs from the recorded one in its id alone
  have hrow : (⟨newId tx 1, r.accountId, a.id, a.proposalId, a.backtestId, shadow.id, r.activeRuleVersionId,
      r.ratifiedBy, r.rationale⟩ : ContractRuleProposalRatification) = { r with id := newId tx 1 } := by
    rw [hacceptance, hproposal, hbacktest, hshadow]
  have hratification : findRatification db { r with id := newId tx 1 } = some r.id := by
    rw [findRatification, find?_unique (mem_ratifications.mpr hr), Option.map_some]
    · simp
    · intro r' hr' hfoundr
      rw [decide_eq_true_eq] at hfoundr
      exact Row.ratification.inj (h.unique.eq_of_key (k := .ratified r.accountId r.acceptanceId)
        (mem_ratifications.mp hr') hr (by simp [Row.keys, hfoundr.1, hfoundr.2.1]) (by simp [Row.keys]))
  have hfinds : Finds db (ratifyContractRuleProposal sha256 tx startedAt
      ⟨r.accountId, r.acceptanceId, r.ratifiedBy, r.rationale⟩) ⟨r.id, r.activeRuleVersionId, false⟩ := by
    rw [ratifyContractRuleProposal, hrecorded.rationale]
    refine (Finds.query _).bind ?_
    dsimp only
    have hpair := findRatifiable_eq h.unique hratifiable
    rw [haccount, hacceptance] at hpair
    rw [hpair]
    refine ((insertRow_finds hsuccessor).bind (Finds.query _)).bind ?_
    rw [if_neg Bool.false_ne_true, hfound]
    dsimp only
    rw [hrow]
    exact recordRatification_finds hrecorded.promoted (taken_eq_true.mpr ⟨_, hr, by simp [Row.keys]⟩) hratification he
      heid hsame
  obtain ⟨log, hrun, hwrites⟩ := hfinds .empty rfl
  exact ⟨log, by rw [← hid'] at hrun; exact hrun, hwrites⟩

/-! ## Commits -/

/-- All but the quarantine holds in every consistent state. -/
theorem Consistent.live_iff (h : Consistent sha256 db) : LiveEvidence sha256 db ↔ Unquarantined db :=
  ⟨LiveEvidence.unquarantined, fun hunquarantined =>
    ⟨fun _ hv => h.active (mem_ruleVersions.mp hv), fun _ hv => h.evidenced (mem_ruleVersions.mp hv),
      fun _ hv _ hw => h.one (mem_ruleVersions.mp hv) (mem_ruleVersions.mp hw),
      fun _ hv => h.retry (mem_ruleVersions.mp hv), hunquarantined⟩⟩

/-- Rows without a ratified version change nothing. -/
theorem unquarantined_append {ws : List Row} (hws : ∀ v, .ruleVersion v ∈ ws → ¬ v.Ratified) :
    Unquarantined (db ++ ws) ↔ Unquarantined db := by
  constructor
  · exact fun h before v hbefore => h before v (hbefore.trans (List.prefix_append db ws))
  · intro h before v hbefore hratified
    rcases prefix_append_cases hbefore with hold | ⟨ws₁, -, hnew⟩
    · exact h before v hold hratified
    · exact absurd hratified (hws v (hnew.subset (List.mem_append_right _ (List.mem_singleton_self _))))

/-- A ratified version keeps the law exactly if its predecessor has not been quarantined. -/
theorem unquarantined_insert {active : RuleVersion} {rest : List Row} (hactive : active.Ratified)
    (hrest : ∀ w ∈ rest, ∀ v, w ≠ .ruleVersion v) (hlaw : Unquarantined db) :
    Unquarantined (db ++ .ruleVersion active :: rest) ↔ ∀ w ∈ ruleVersions db,
      w.predecessorRuleVersionId = active.predecessorRuleVersionId → w.lifecycleState ≠ .QUARANTINED := by
  constructor
  · exact fun h => h db active ⟨rest, by simp⟩ hactive
  · intro h before v hbefore hratified
    rcases prefix_append_cases hbefore with hold | ⟨ws₁, rfl, hnew⟩
    · exact hlaw before v hold hratified
    -- the only version among the new rows is the first of them
    cases ws₁ with
    | nil =>
      obtain ⟨_, hcons⟩ := hnew
      obtain rfl := Row.ruleVersion.inj (List.cons.inj hcons).1
      rw [List.append_nil]
      exact h
    | cons w ws₁ =>
      obtain ⟨tail, hcons⟩ := hnew
      have htail := (List.cons.inj hcons).2
      exact absurd rfl (hrest _ (htail ▸ by simp) v)

theorem liveEvidence_commit
    (h : Commit (proposalsSystem sha256 collation D unicode) (Consistent sha256) (Since Row.keys) db call tx
      startedAt r log) (hlive : LiveEvidence sha256 db) :
    LiveEvidence sha256 (db ++ log.writes) ↔ ShadowStands db call := by
  rw [(consistent_commit h).live_iff]
  have hlaw := hlive.unquarantined
  rcases (commit_backed h).2 with ⟨hnone, hcall⟩ | ⟨input, result, rfl, -, ⟨run⟩⟩
  · rw [unquarantined_append hnone]
    refine iff_of_true hlaw ?_
    cases call with
    | ratifyContractRuleProposal input => exact absurd rfl (hcall input)
    | _ => trivial
  have hshadow : run.a.shadowRuleVersionId = run.shadow.id := run.ratifiable.accepted.1.symm
  -- the acceptance that the call names
  have hnamed : ∀ a ∈ acceptances db, a.accountId = input.clientId ∧ a.id = input.acceptanceId → a = run.a := by
    intro a ha hid
    exact Row.acceptance.inj (h.good.unique.eq_of_key (k := .acceptanceId a.id) (mem_acceptances.mp ha)
      run.ratifiable.acceptance (by simp [Row.keys]) (by simp [Row.keys, run.named.2, hid.2]))
  have hmem : run.a ∈ acceptances db := mem_acceptances.mpr run.ratifiable.acceptance
  rcases run.writes_eq with ⟨hwrites, -⟩ | ⟨hwrites, htaken⟩
  · have hactive : (activeVersion (newId tx 0) { input with rationale := run.rationale } run.a run.shadow).Ratified :=
      rfl
    rw [hwrites, unquarantined_insert hactive run.noVersion hlaw]
    -- the version is new, so the SHADOW one had no ACTIVE successor
    have hfresh : taken Row.keys db (.successor run.shadow.id .ACTIVE) = false := by
      refine (consistent_fresh h).1 _ (hwrites ▸ List.mem_cons_self) _ ?_
      simp [Row.keys, activeVersion]
    constructor
    · intro hq a ha hid
      rw [hnamed a ha hid, hshadow]
      exact .inr hq
    · intro hstands
      rcases hstands run.a hmem run.named with ⟨v, hv, hpred, hactive⟩ | hq
      · rw [hshadow] at hpred
        exact absurd (by simp [Row.keys, hpred, hactive]) (not_taken hfresh (mem_ruleVersions.mp hv))
      · rwa [hshadow] at hq
  · rw [hwrites, unquarantined_append fun v hv => absurd rfl (run.noVersion _ hv v)]
    refine iff_of_true hlaw fun a ha hid => .inl ?_
    obtain ⟨row, hrow, hkey⟩ := taken_eq_true.mp htaken
    rw [hnamed a ha hid, hshadow]
    obtain ⟨v, rfl, hpred, hstate⟩ := successor_mem_keys hkey
    exact ⟨v, mem_ruleVersions.mpr hrow, hpred, hstate⟩

/-- What a ratification returns is the one ratified version of its proposal. -/
theorem returnsActive_commit
    (h : Commit (proposalsSystem sha256 collation D unicode) (Consistent sha256) (Since Row.keys) db call tx
      startedAt r log) : ReturnsActive (db ++ log.writes) call r := by
  rcases (commit_backed h).2 with ⟨-, hcall⟩ | ⟨input, result, rfl, rfl, ⟨run⟩⟩
  · cases call with
    | ratifyContractRuleProposal input => exact absurd rfl (hcall input)
    | _ => trivial
  · obtain ⟨v, hv, hid, hfrom⟩ := run.derived
    exact ⟨v, mem_ruleVersions.mpr hv, by rw [RuleVersion.Ratified, hfrom.human.1]; rfl, hid, run.a,
      mem_acceptances.mpr (List.mem_append_left _ run.ratifiable.acceptance), run.named, hfrom.source⟩

end

/-! ## Every interleaving -/

/-- Rows from elsewhere: proposals with what they cite, and rules that none of them gave rise to. -/
def Row.IsSeed : Row → Prop
  | .contractClause _ | .contractAmendment _ | .proposal _ | .proposalClause _ | .rule _ | .promotionEvent _
  | .auditEvent _ => True
  | .ruleVersion v => v.sourceContractRuleProposalId = none ∧ v.humanRatifiedBy = none
  | _ => False

/-- The rows a run begins with. -/
structure Seed where
  rows : Db
  unique : Unique Row.keys rows
  seeds : ∀ row ∈ rows, row.IsSeed

theorem Seed.consistent (sha256 : String → ℕ) (seed : Seed) : Consistent sha256 seed.rows := by
  refine ⟨seed.unique, fun row hrow => ?_⟩
  have hseed := seed.seeds row hrow
  cases row with
  | ruleVersion v => exact Row.Plain.backed hseed
  | backtestCase c => exact hseed.elim
  | ratification r => exact hseed.elim
  | _ => trivial

theorem Seed.unquarantined (seed : Seed) : Unquarantined seed.rows := by
  intro before v hbefore hratified
  have hseed := seed.seeds (.ruleVersion v) (hbefore.subset (by simp))
  rw [RuleVersion.Ratified, hseed.2] at hratified
  cases hratified

section

variable (sha256 : String → ℕ) (collation : String → String → Ordering) (D : Type) [Decimal D] (unicode : Unicode)

theorem proposals_outline :
    Outline (proposalsSystem sha256 collation D unicode) (Consistent sha256) (Since Row.keys) (fun _ _ _ => True) :=
  append_outline rfl (fun call _ _ => body_inserts call) fun _ _ _ _ _ _ => consistent_commit

/-- Firm rules are backed by live evidence throughout a run exactly if no ratification commits that names a
quarantined SHADOW version. -/
theorem evidence_states_iff (seed : Seed) (next now : ℕ) (events : List (Event ProposalCall)) :
    Runs.AllStates (step (proposalsSystem sha256 collation D unicode)) (fun w => LiveEvidence sha256 w.db)
        (World.initial seed.rows next now) events ↔
      Runs.AllSteps (step (proposalsSystem sha256 collation D unicode))
        (CommitsMeet fun db call _ => ShadowStands db call) (World.initial seed.rows next now) events :=
  (proposals_outline sha256 collation D unicode).allStates_iff (LiveEvidence sha256)
    (fun db call _ => ShadowStands db call) (fun db call i startedAt r log h hlive => by
      have hcommit := liveEvidence_commit h hlive
      rwa [← view_eq] at hcommit) (seed.consistent sha256)
    ((seed.consistent sha256).live_iff.mpr seed.unquarantined) next now events

/-- Along the same runs, ratifications return those rules: they do in every run. -/
theorem liveEvidence_iff (seed : Seed) (next now : ℕ) (events : List (Event ProposalCall)) :
    Runs.AllStates (step (proposalsSystem sha256 collation D unicode)) (fun w => LiveEvidence sha256 w.db)
        (World.initial seed.rows next now) events ∧
      Runs.AllSteps (step (proposalsSystem sha256 collation D unicode)) (ReturnsMeet append ReturnsActive)
        (World.initial seed.rows next now) events ↔
      Runs.AllSteps (step (proposalsSystem sha256 collation D unicode))
        (CommitsMeet fun db call _ => ShadowStands db call) (World.initial seed.rows next now) events := by
  have hreturns : Runs.AllSteps (step (proposalsSystem sha256 collation D unicode)) (ReturnsMeet append ReturnsActive)
      (World.initial seed.rows next now) events :=
    (proposals_outline sha256 collation D unicode).allSteps_returns (fun db call i startedAt r log h => by
      have hactive := returnsActive_commit h
      rwa [← view_eq] at hactive) (seed.consistent sha256) next now events
  rw [← evidence_states_iff sha256 collation D unicode seed]
  exact ⟨fun h => h.1, fun h => ⟨h, hreturns⟩⟩

end

/-- A proposal that always passes. -/
def oneProposal : Seed where
  rows := [.proposal ⟨5, 1, 3, .STRUCTURAL, .lit (.boolean true),
    hash checksum (AstNode.lit (.boolean true)).toJson, [], "p"⟩]
  unique := List.pairwise_singleton _ _
  seeds := fun _ hrow => List.mem_singleton.mp hrow ▸ trivial

/-- One call after the other: a backtest, the acceptance, the quarantine of the SHADOW version, its
ratification. -/
theorem quarantinedShadow_ratified :
    ¬ Runs.AllStates (step (proposalsSystem checksum compare Ref Unicode.ascii)) (fun w => LiveEvidence checksum w.db)
      (World.initial oneProposal.rows 1 0)
      [.begin (.backtestContractRuleProposals ⟨1, 3, 9, PROPOSAL_BACKTEST_CORPUS_SCHEMA_VERSION,
          [(5, [⟨"c", [], .PASS⟩])]⟩), .exec 1, .exec 1, .exec 1, .exec 1, .commit 1,
        .begin (.acceptContractRuleProposal ⟨1, 5, newId 1 0, 9, "as the clause says"⟩), .exec 2, .exec 2, .exec 2,
        .exec 2, .exec 2, .exec 2, .commit 2,
        .begin (.transitionRuleLifecycle ⟨newId 2 1, .QUARANTINED, "wrong", none, none⟩), .exec 3, .exec 3, .exec 3,
        .exec 3, .exec 3, .commit 3,
        .begin (.ratifyContractRuleProposal ⟨1, newId 2 2, 9, "as accepted"⟩), .exec 4, .exec 4, .exec 4, .exec 4,
        .exec 4, .exec 4, .exec 4, .commit 4] :=
  mt (evidence_states_iff _ _ _ _ oneProposal 1 0 _).mp (by decide +kernel)

end Contracts
