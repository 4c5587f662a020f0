import FreightAuditor.Contracts.Governance

/- What the operations on proposals insert.

   `Backed` says, of a row, what other rows it rests on. It only asks for rows, so that more
   rows never take it away; and what a call inserts is backed by the rows it has seen and
   inserted itself. -/
namespace Contracts

open AppendOnly DecimalJs JsText ReadCommitted
open Claims (AuditEvent AuditEventEvidence sameEvidence)
open RuleEngine (RuleLifecycle TransitionInput Verdict)

/-! ## What a row rests on -/

/-- The version says what the proposal says, and names a backtest of it that passed. -/
structure DerivedFrom (rows : Db) (v : RuleVersion) (p : ContractRuleProposal) (b : ContractRuleProposalBacktest) :
    Prop where
  proposal : Row.proposal p ∈ rows
  backtest : Row.backtest b ∈ rows
  source : v.sourceContractRuleProposalId = some p.id
  sourceBacktest : v.sourceContractRuleProposalBacktestId = some b.id
  ast : v.ast = p.ast.toJson
  astHash : v.astHash = p.astHash
  ofProposal : b.accountId = p.accountId ∧ b.proposalId = p.id ∧ b.proposalHash = p.proposalHash ∧
    b.astHash = p.astHash
  passed : b.passed = true

/-- The acceptance, its SHADOW version and its backtest, which passed. -/
structure Ratifiable (rows : Db) (a : ContractRuleProposalAcceptance) (shadow : RuleVersion)
    (b : ContractRuleProposalBacktest) : Prop where
  acceptance : Row.acceptance a ∈ rows
  shadowVersion : Row.ruleVersion shadow ∈ rows
  backtest : Row.backtest b ∈ rows
  accepted : shadow.id = a.shadowRuleVersionId ∧ shadow.lifecycleState = .SHADOW ∧ shadow.hardness = .AI_DOCS ∧
    shadow.sourceContractRuleProposalId = some a.proposalId ∧
    shadow.sourceContractRuleProposalBacktestId = some a.backtestId
  passed : b.id = a.backtestId ∧ b.accountId = a.accountId ∧ b.proposalId = a.proposalId ∧ b.passed = true

/-- The version was derived from the SHADOW version of an acceptance, by this human and for this reason. -/
structure RatifiedFrom (v : RuleVersion) (a : ContractRuleProposalAcceptance) (shadow : RuleVersion)
    (ratifiedBy : ℕ) (rationale : String) : Prop where
  predecessor : v.predecessorRuleVersionId = some shadow.id
  source : v.sourceContractRuleProposalId = some a.proposalId
  sourceBacktest : v.sourceContractRuleProposalBacktestId = some a.backtestId
  active : v.lifecycleState = .ACTIVE ∧ v.hardness = .FIRM_RULE
  human : v.humanRatifiedBy = some ratifiedBy ∧ v.humanRatificationRationale = some rationale

/-- What a retry of a ratification finds. -/
structure Recorded (sha256 : String → ℕ) (rows : Db) (r : ContractRuleProposalRatification) : Prop where
  rationale : parseRationale r.rationale = some r.rationale
  active : ∃ a shadow b v, Ratifiable rows a shadow b ∧ Row.ruleVersion v ∈ rows ∧
    RatifiedFrom v a shadow r.ratifiedBy r.rationale ∧ v.id = r.activeRuleVersionId ∧
    a.accountId = r.accountId ∧ a.id = r.acceptanceId ∧ a.proposalId = r.proposalId ∧
    a.backtestId = r.backtestId ∧ shadow.id = r.shadowRuleVersionId
  promoted : taken Row.keys rows (.promotion r.activeRuleVersionId .SHADOW .ACTIVE) = true
  event : ∃ e : AuditEvent, Row.auditEvent e ∈ rows ∧ e.id = ratifiedEventId sha256 r ∧
    sameEvidence e.toAuditEventEvidence (ratifiedEvidence r) = true

/-- Inserted by a ratification, the only one to name a human. -/
def RuleVersion.Ratified (v : RuleVersion) : Prop := v.humanRatifiedBy.isSome = true

instance (v : RuleVersion) : Decidable v.Ratified := inferInstanceAs (Decidable (_ = true))

def Backed (sha256 : String → ℕ) (rows : Db) : Row → Prop
  | .ruleVersion v =>
    (v.sourceContractRuleProposalId.isSome → ∃ p b, DerivedFrom rows v p b) ∧
      (v.Ratified → (∃ a shadow b ratifiedBy rationale, Ratifiable rows a shadow b ∧
        RatifiedFrom v a shadow ratifiedBy rationale) ∧
        ∃ r, Row.ratification r ∈ rows ∧ r.activeRuleVersionId = v.id)
  | .backtestCase c => ∃ b, Row.backtest b ∈ rows ∧ b.id = c.backtestId ∧
      (b.passed = true → c.actualVerdict = c.expectedVerdict)
  | .ratification r => Recorded sha256 rows r
  | _ => True

/-- Rows that rest on nothing. -/
def Row.Plain : Row → Prop
  | .ruleVersion v => v.sourceContractRuleProposalId = none ∧ v.humanRatifiedBy = none
  | .backtestCase _ | .ratification _ => False
  | _ => True

section

variable {sha256 : String → ℕ} {rows rows' : Db} {a : ContractRuleProposalAcceptance} {shadow : RuleVersion}
  {b : ContractRuleProposalBacktest}

theorem DerivedFrom.mono {v : RuleVersion} {p : ContractRuleProposal} (h : DerivedFrom rows v p b)
    (hsub : rows ⊆ rows') : DerivedFrom rows' v p b :=
  { h with proposal := hsub h.proposal, backtest := hsub h.backtest }

theorem Ratifiable.mono (h : Ratifiable rows a shadow b) (hsub : rows ⊆ rows') : Ratifiable rows' a shadow b :=
  { h with acceptance := hsub h.acceptance, shadowVersion := hsub h.shadowVersion, backtest := hsub h.backtest }

theorem Recorded.mono {r : ContractRuleProposalRatification} (h : Recorded sha256 rows r) (hsub : rows ⊆ rows') :
    Recorded sha256 rows' r := by
  obtain ⟨a, shadow, b, v, hratifiable, hv, hrest⟩ := h.active
  obtain ⟨e, he, hevent⟩ := h.event
  exact ⟨h.rationale, ⟨a, shadow, b, v, hratifiable.mono hsub, hsub hv, hrest⟩, taken_mono hsub h.promoted,
    ⟨e, hsub he, hevent⟩⟩

/-- More rows back no less. -/
theorem Backed.mono {row : Row} (h : Backed sha256 rows row) (hsub : rows ⊆ rows') : Backed sha256 rows' row := by
  cases row with
  | ruleVersion v =>
    refine ⟨fun hsource => ?_, fun hratified => ?_⟩
    · obtain ⟨p, b, hderived⟩ := h.1 hsource
      exact ⟨p, b, hderived.mono hsub⟩
    · obtain ⟨⟨a, shadow, b, ratifiedBy, rationale, hratifiable, hfrom⟩, r, hr, hactive⟩ := h.2 hratified
      exact ⟨⟨a, shadow, b, ratifiedBy, rationale, hratifiable.mono hsub, hfrom⟩, r, hsub hr, hactive⟩
  | backtestCase c =>
    obtain ⟨b, hb, hrest⟩ := h
    exact ⟨b, hsub hb, hrest⟩
  | ratification r => exact Recorded.mono h hsub
  | _ => trivial

theorem Row.Plain.backed {row : Row} (h : row.Plain) : Backed sha256 rows row := by
  cases row with
  | ruleVersion v =>
    refine ⟨fun hsource => ?_, fun hratified => ?_⟩
    · rw [h.1] at hsource
      cases hsource
    · rw [RuleVersion.Ratified, h.2] at hratified
      cases hratified
  | backtestCase c => exact h.elim
  | ratification r => exact h.elim
  | _ => trivial

end

/-- Of the tables that these operations write. -/
def Row.Written : Row → Prop
  | .contractClause _ | .contractAmendment _ | .proposal _ | .proposalClause _ => False
  | _ => True

/-! ## Bodies insert under the locks of their keys -/

section inserts

variable {sha256 : String → ℕ} {collation : String → String → Ordering} {D : Type} [Decimal D] {unicode : Unicode}
  {tx startedAt : ℕ}

theorem insertRow_inserts {target : List Key} {row : Row} (hrow : row.Written) :
    Inserts Row.keys Row.Written (insertRow target row) := inserts_insertUnless hrow

/-- An insert under a key that is taken. -/
theorem insertRow_finds {db : Db} {k : Key} {row : Row} (h : taken Row.keys db k = true) :
    Finds db (insertRow [k] row) false := Finds.insertOr ⟨k, List.mem_singleton_self k, h⟩ rfl

theorem writeAuditEvent_inserts {id : ℕ} {value : AuditEventEvidence} :
    Inserts Row.keys Row.Written (writeAuditEvent startedAt id value) := inserts_insertOr trivial

theorem insertPromotionEvent_inserts {event : RuleVersion → PromotionEvent} {id : ℕ} :
    Inserts Row.keys Row.Written (insertPromotionEvent event id) := by
  refine inserts_bind inserts_query fun found => ?_
  cases found with
  | none => exact inserts_pure
  | some v =>
    dsimp only
    split
    · trivial
    · exact inserts_bind (insertRow_inserts trivial) fun _ => inserts_pure

theorem transitionRuleLifecycle_inserts {id : ℕ} {input : TransitionInput} :
    Inserts Row.keys Row.Written (transitionRuleLifecycle id input) := by
  refine inserts_bind inserts_query fun found => ?_
  cases found with
  | none => trivial
  | some current =>
    dsimp only
    split
    · trivial
    · refine inserts_bind (insertRow_inserts trivial) fun created => inserts_bind inserts_query fun next => ?_
      cases next with
      | none => trivial
      | some nextId => exact inserts_bind insertPromotionEvent_inserts fun _ => inserts_pure

theorem recordCase_inserts {clientId backtestId : ℕ} {item : CaseEvidence} :
    Inserts Row.keys Row.Written (recordCase clientId backtestId item) := by
  refine inserts_bind (insertRow_inserts trivial) fun inserted => ?_
  split
  · exact inserts_pure
  · refine inserts_bind inserts_query fun found => ?_
    split
    · exact inserts_pure
    · trivial

theorem recordBacktest_inserts {row : ContractRuleProposalBacktest} : Inserts Row.keys Row.Written (recordBacktest row) := by
  refine inserts_bind (insertRow_inserts trivial) fun inserted => ?_
  split
  · exact inserts_pure
  · refine inserts_bind inserts_query fun existing => ?_
    cases existing with
    | none => trivial
    | some id => exact inserts_pure

theorem backtestProposal_inserts {input : BacktestInput} {entry : ContractRuleProposal × ℕ} :
    Inserts Row.keys Row.Written (backtestProposal sha256 D unicode tx input entry) := by
  rw [backtestProposal]
  split
  · trivial
  · exact inserts_bind inserts_ofExcept fun evidence => inserts_bind recordBacktest_inserts fun result =>
      inserts_bind (inserts_forM fun _ _ => recordCase_inserts) fun _ => inserts_pure

theorem backtestBatch_inserts {input : BacktestInput} (entries : List (ContractRuleProposal × ℕ)) :
    Inserts Row.keys Row.Written (backtestBatch sha256 D unicode tx input entries) := by
  induction entries with
  | nil => exact inserts_pure
  | cons entry rest ih =>
    exact inserts_bind backtestProposal_inserts fun _ => inserts_bind ih fun _ => inserts_pure

theorem backtestContractRuleProposals_inserts {untrusted : BacktestInput} :
    Inserts Row.keys Row.Written (backtestContractRuleProposals sha256 D unicode tx startedAt untrusted) := by
  rw [backtestContractRuleProposals]
  split
  · trivial
  dsimp only
  split
  · trivial
  refine inserts_bind inserts_query fun rows => ?_
  split
  · trivial
  · exact inserts_bind (backtestBatch_inserts _) fun batch => inserts_bind (inserts_insertOr trivial) fun _ => inserts_pure

theorem acceptContractRuleProposal_inserts {untrusted : AcceptInput} :
    Inserts Row.keys Row.Written (acceptContractRuleProposal sha256 collation tx startedAt untrusted) := by
  rw [acceptContractRuleProposal]
  split
  · trivial
  refine inserts_bind inserts_query fun found => ?_
  cases found with
  | none => trivial
  | some found =>
    refine inserts_bind inserts_query fun backtest => ?_
    cases backtest with
    | none => trivial
    | some b =>
      refine inserts_bind (inserts_insertOr trivial) fun rule => ?_
      dsimp only
      split
      · trivial
      refine inserts_bind (inserts_insertOr trivial) fun shadow => ?_
      cases shadow with
      | none => trivial
      | some shadow =>
        refine inserts_bind (inserts_insertOr trivial) fun acceptance => ?_
        cases acceptance with
        | none => trivial
        | some acceptance => exact inserts_bind (inserts_insertOr trivial) fun _ => inserts_pure

theorem recordRatification_inserts {row : ContractRuleProposalRatification} :
    Inserts Row.keys Row.Written (recordRatification sha256 startedAt row) := by
  refine inserts_bind (insertRow_inserts trivial) fun _ => inserts_bind (insertRow_inserts trivial) fun inserted => ?_
  refine inserts_bind inserts_query fun ratification => ?_
  cases ratification with
  | none => trivial
  | some id => exact inserts_bind writeAuditEvent_inserts fun _ => inserts_pure

theorem ratifyContractRuleProposal_inserts {untrusted : RatifyInput} :
    Inserts Row.keys Row.Written (ratifyContractRuleProposal sha256 tx startedAt untrusted) := by
  rw [ratifyContractRuleProposal]
  split
  · trivial
  refine inserts_bind inserts_query fun found => ?_
  cases found with
  | none => trivial
  | some found =>
    refine inserts_bind (inserts_bind (insertRow_inserts trivial) fun _ => inserts_query) fun active => ?_
    cases active with
    | none => trivial
    | some activeId => exact recordRatification_inserts

theorem body_inserts (call : ProposalCall) : Inserts Row.keys Row.Written (call.body sha256 collation D unicode tx startedAt) := by
  cases call <;> rw [ProposalCall.body]
  case backtestContractRuleProposals input =>
    exact inserts_bind backtestContractRuleProposals_inserts fun _ => inserts_pure
  case acceptContractRuleProposal input => exact inserts_bind acceptContractRuleProposal_inserts fun _ => inserts_pure
  case ratifyContractRuleProposal input => exact inserts_bind ratifyContractRuleProposal_inserts fun _ => inserts_pure
  case transitionRuleLifecycle input => exact inserts_bind transitionRuleLifecycle_inserts fun _ => inserts_pure

end inserts

end Contracts
