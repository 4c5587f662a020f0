import FreightAuditor.Contracts.RepeatedRetirements
import FreightAuditor.Discovery.Sources

/- Discovery run again.

   A trigger of a finding has the status that the finding had, and a detector only takes a
   trigger for its own where that is still the status. So discovery can be run again exactly
   while no unassessable finding of the run has another status than its trigger
   (`repeats_iff`): one that is disputed keeps its run from being detected again. -/
namespace Discovery

open AppendOnly Claims Contracts ExceptOk ReadCommitted

/-! ## The law -/

/-- The rows, with the runs that each amendment was run again for. -/
structure History where
  db : DiscoveryDb
  reruns : List (ℕ × List String)

inductive DiscoveryEvent where
  | detect (detector : Detector) (auditRunId : String)
  | rerunDiscoveryForAmendment (tx amendmentId : ℕ)
  | updateFindingStatus (findingId : String) (toStatus : VarianceStatus) (note actorUserId : Option String) (statusEventId : String)

section

variable (sha256 : String → String) (clientId : ℕ) (collation : String → String → Ordering)

/-- What throws is rolled back. -/
def step (s : History) : DiscoveryEvent → Option History
  | .detect detector auditRunId =>
    match detector.detect sha256 clientId s.db auditRunId with
    | .ok (_, db) => some { s with db }
    | .error _ => some s
  | .rerunDiscoveryForAmendment tx amendmentId =>
    match rerunDiscoveryForAmendment sha256 clientId collation s.db tx amendmentId with
    | .ok (result, db) => some ⟨db, (amendmentId, result.affectedAuditRunIds) :: s.reruns⟩
    | .error _ => some s
  | .updateFindingStatus findingId toStatus note actorUserId statusEventId =>
    match updateFindingStatus sha256 clientId s.db findingId toStatus note actorUserId statusEventId with
    | .ok db => some { s with db }
    | .error _ => some s

/-- The detector has run on the run, with these triggers. -/
def DiscoveryDb.Ran (db : DiscoveryDb) (detector : Detector) (auditRunId : String) (triggerIds : List ℕ) : Prop :=
  ∃ e ∈ db.auditEvents.rows, e.entityId = auditRunId ∧ e.detail = .detected detector triggerIds

/-- The amendment's versions can be retired. -/
def Retirable (contracts : Contracts.Db) (tx amendmentId : ℕ) : Prop :=
  Returns (retire clientId collation contracts tx amendmentId)

/-- A detector succeeds, with the triggers of its first time. An amendment runs discovery for the same runs, and finds nothing
new. -/
def Repeats (s : History) : DiscoveryEvent → Prop
  | .detect detector auditRunId => (s.db.auditRuns.find? auditRunId).isSome →
      ∃ result db, detector.detect sha256 clientId s.db auditRunId = .ok (result, db) ∧
        ∀ triggerIds, s.db.Ran detector auditRunId triggerIds → result = ⟨triggerIds, 0⟩
  | .rerunDiscoveryForAmendment tx amendmentId =>
      (Retirable clientId collation s.db.contracts tx amendmentId ∨ amendmentId ∈ s.reruns.map Prod.fst) →
      ∃ result db, rerunDiscoveryForAmendment sha256 clientId collation s.db tx amendmentId = .ok (result, db) ∧
        ∀ affected, (amendmentId, affected) ∈ s.reruns → result.affectedAuditRunIds = affected ∧ result.triggersCreated = 0
  | .updateFindingStatus .. => True

/-- The unassessable findings of the run have the status that their triggers say. -/
def DiscoveryDb.Unmoved (db : DiscoveryDb) (auditRunId : String) : Prop :=
  ∀ f ∈ unassessableFindings db auditRunId, ∀ t ∈ db.triggers.find? (.varianceFinding f.id),
    t.content.status? = some f.status

instance (db : DiscoveryDb) (auditRunId : String) : Decidable (db.Unmoved auditRunId) :=
  List.decidableBAll _ _

/-- A finding or a failure of the run cites the version. -/
def AuditRecord.Cites (record : AuditRecord) (auditRunId : String) (ruleVersionId : ℕ) : Prop :=
  (∃ c ∈ record.chargeFindings, c.auditRunId = auditRunId ∧ c.ruleVersionId = ruleVersionId) ∨
    ∃ g ∈ record.gateFailures.rows, g.auditRunId = auditRunId ∧ g.ruleVersionId = ruleVersionId

/-- The version cites a clause that the amendment changes or removes. -/
def AmendedVersion (contracts : Contracts.Db) (amendmentId ruleVersionId : ℕ) : Prop :=
  ∃ a supersedesVersionId newVersionId, findAmendment contracts ⟨clientId, amendmentId⟩ = some a ∧
    a.supersedesVersionId = some supersedesVersionId ∧ a.newVersionId = some newVersionId ∧
      ruleVersionId ∈ (retirements (impactsOf contracts (joinedClauses collation contracts supersedesVersionId newVersionId))).map
        Prod.snd

/-- Nothing that the unassessable detector is about to run on has moved. -/
def AtRest (s : History) : DiscoveryEvent → Prop
  | .detect .unassessable auditRunId => (s.db.auditRuns.find? auditRunId).isSome → s.db.Unmoved auditRunId
  | .rerunDiscoveryForAmendment tx amendmentId => Retirable clientId collation s.db.contracts tx amendmentId →
      ∀ ruleVersionId, AmendedVersion clientId collation s.db.contracts amendmentId ruleVersionId →
        ∀ auditRunId, s.db.Cites auditRunId ruleVersionId → s.db.Unmoved auditRunId
  | _ => True

end

/-! ## What a detector does -/

variable {sha256 : String → String} {clientId : ℕ} {collation : String → String → Ordering} {db db' : DiscoveryDb}
  {detector : Detector} {auditRunId : String}

theorem nul_not_mem_name (detail : DiscoveryDetail) : '\x00' ∉ detail.name.toList := by
  cases detail with
  | detected detector triggerIds =>
    show '\x00' ∉ detector.text.toList
    cases detector <;> decide
  | findingStatusChanged findingId fromStatus toStatus note actorUserId =>
    show '\x00' ∉ "finding.status_changed".toList
    decide

theorem text_injective : Function.Injective Detector.text := by
  intro a b h
  cases a <;> cases b <;> first | rfl | exact absurd h (by decide)

theorem text_ne_status (detector : Detector) : detector.text ≠ "finding.status_changed" := by
  cases detector <;> decide

theorem detect_eq_ok {result : Detected} : detector.detect sha256 clientId db auditRunId = .ok (result, db') ↔
    ∃ run triggers auditEvents, db.auditRuns.find? auditRunId = some run ∧
      insertTriggers auditRunId (detector.sources sha256 db run) db.triggers =
        some (result.triggerIds, result.createdCount, triggers) ∧
      db.auditEvents.write sha256 DiscoveryDetail.name (toString clientId) auditRunId (.detected detector result.triggerIds) =
        some auditEvents ∧
      db' = { db with triggers, auditEvents } := by
  constructor
  · intro h
    rw [Detector.detect] at h
    split at h
    · rename_i run hrun
      split at h
      · rename_i ids createdCount triggers hinsert
        split at h
        · rename_i auditEvents hwrite
          obtain ⟨rfl, rfl⟩ := Prod.mk.inj (pure_eq_ok.mp h)
          exact ⟨run, triggers, auditEvents, hrun, hinsert, hwrite, rfl⟩
        · cases h
      · cases h
    · cases h
  · intro h
    obtain ⟨run, triggers, auditEvents, hrun, hinsert, hwrite, rfl⟩ := h
    rw [Detector.detect, hrun]
    dsimp only
    rw [hinsert]
    dsimp only
    rw [hwrite]
    rfl

/-! ## What holds of the rows -/

variable (sha256 clientId) in
/-- Triggers say what their rows say, but for the status; and a detector that has run would find its triggers again. -/
structure Kept (db : DiscoveryDb) : Prop where
  named : db.auditEvents.WellNamed sha256 DiscoveryDetail.name (toString clientId)
  agree : ∀ t ∈ db.triggers.rows, ∀ content, Describes sha256 db t.source content → t.content.fixed = content.fixed
  found : ∀ detector auditRunId ids, db.Ran detector auditRunId ids → ∀ run ∈ db.auditRuns.find? auditRunId,
    ids.map some = (detector.sources sha256 db run).map fun p => (db.triggers.find? p.1).map Trigger.id

/-- Nothing is lost, and only triggers and events are new. -/
structure Grown (db db' : DiscoveryDb) : Prop where
  record : db'.toAuditRecord = db.toAuditRecord
  findings : db'.varianceFindings = db.varianceFindings
  contracts : db'.contracts = db.contracts
  ran : ∀ detector auditRunId ids, db.Ran detector auditRunId ids → db'.Ran detector auditRunId ids
  unmoved : ∀ auditRunId, db'.Unmoved auditRunId ↔ db.Unmoved auditRunId

theorem Grown.refl (db : DiscoveryDb) : Grown db db := ⟨rfl, rfl, rfl, fun _ _ _ h => h, fun _ => Iff.rfl⟩

theorem Grown.trans {db'' : DiscoveryDb} (h : Grown db db') (h' : Grown db' db'') : Grown db db'' :=
  ⟨h'.record.trans h.record, h'.findings.trans h.findings, h'.contracts.trans h.contracts,
    fun detector auditRunId ids hran => h'.ran detector auditRunId ids (h.ran detector auditRunId ids hran),
    fun auditRunId => (h'.unmoved auditRunId).trans (h.unmoved auditRunId)⟩

/-- The triggers of the sources pass the fallback exactly if no finding has moved. -/
theorem Kept.fallback_iff (hkept : Kept sha256 clientId db) {run : AuditRun} :
    (∀ p ∈ detector.sources sha256 db run, ∀ t ∈ db.triggers.find? p.1, fallback t.content p.2 = true) ↔
      (detector = .unassessable → db.Unmoved run.id) := by
  have hagree : ∀ p ∈ detector.sources sha256 db run, ∀ t ∈ db.triggers.find? p.1, t.content.fixed = p.2.fixed := by
    intro p hp t ht
    obtain ⟨hmem, hsource⟩ := KeyedTable.find?_sound ht
    exact hkept.agree t hmem p.2 (hsource ▸ sources_describe hp)
  cases detector with
  | unassessable =>
    constructor
    · intro h _ f hf t ht
      have hp : (TriggerSource.varianceFinding f.id, f.content sha256) ∈ unassessableSources sha256 db run.id :=
        mem_unassessableSources.mpr (.inr ⟨f, hf, rfl⟩)
      have hcontent : t.content = f.content sha256 := of_decide_eq_true (h _ hp t ht)
      rw [hcontent]
      rfl
    · intro h p hp t ht
      have hfixed := hagree p hp t ht
      rcases mem_unassessableSources.mp hp with ⟨g, -, rfl⟩ | ⟨f, hf, rfl⟩
      · exact decide_eq_true (TriggerContent.eq_of_gate hfixed)
      · exact decide_eq_true ((TriggerContent.eq_iff hfixed).mpr (h rfl f hf t ht))
  | unknownChargeCode =>
    refine iff_of_true (fun p hp t _ => ?_) fun h => by cases h
    obtain ⟨c, -, rfl⟩ := List.mem_map.mp hp
    rfl
  | suspiciousPass =>
    refine iff_of_true (fun p hp t _ => ?_) fun h => by cases h
    obtain ⟨m, -, rfl⟩ := List.mem_map.mp hp
    rfl

/-- The triggers that are found again are those of the first time. -/
theorem Kept.again (hkept : Kept sha256 clientId db) {run : AuditRun} {triggers : TriggerTable} {ids newIds : List ℕ}
    {createdCount : ℕ} (hrun : db.auditRuns.find? auditRunId = some run) (hran : db.Ran detector auditRunId ids)
    (h : insertTriggers auditRunId (detector.sources sha256 db run) db.triggers = some (newIds, createdCount, triggers)) :
    newIds = ids ∧ createdCount = 0 := by
  have hfound := hkept.found detector auditRunId ids hran run hrun
  have hspec := insertTriggers_cases h
  have hthere : ∀ p ∈ detector.sources sha256 db run, (db.triggers.find? p.1).isSome := by
    intro p hp
    have hmem : (db.triggers.find? p.1).map Trigger.id ∈ ids.map some := by
      rw [hfound]
      exact List.mem_map_of_mem (f := fun p => (db.triggers.find? p.1).map Trigger.id) hp
    obtain ⟨id, -, hid⟩ := List.mem_map.mp hmem
    exact Option.isSome_map.symm.trans (congrArg Option.isSome hid.symm)
  obtain ⟨hcount, rfl⟩ := hspec.again hthere
  refine ⟨?_, hcount⟩
  have hids := hspec.ids.trans hfound.symm
  exact List.map_injective_iff.mpr (Option.some_injective ℕ) hids

/-- What a detector that returns has done. -/
theorem Kept.detect (hkept : Kept sha256 clientId db) {result : Detected}
    (h : detector.detect sha256 clientId db auditRunId = .ok (result, db')) :
    Kept sha256 clientId db' ∧ Grown db db' ∧ db'.Ran detector auditRunId result.triggerIds ∧
      ∀ ids, db.Ran detector auditRunId ids → result = ⟨ids, 0⟩ := by
  obtain ⟨run, triggers, auditEvents, hrun, hinsert, hwrite, rfl⟩ := detect_eq_ok.mp h
  have hspec := insertTriggers_cases hinsert
  have hnamed := hkept.named.write hwrite
  have hran : ∀ k id ids, DiscoveryDb.Ran { db with triggers, auditEvents } k id ids ↔
      db.Ran k id ids ∨ auditRunId = id ∧ detector = k ∧ result.triggerIds = ids := by
    intro k id ids
    simp only [DiscoveryDb.Ran, NamedEvent.mem_write hkept.named hwrite]
    constructor
    · intro h
      obtain ⟨e, he, hentity, hdetail⟩ := h
      rcases he with he | rfl
      · exact .inl ⟨e, he, hentity, hdetail⟩
      · obtain ⟨rfl, rfl⟩ := DiscoveryDetail.detected.inj hdetail
        exact .inr ⟨hentity, rfl, rfl⟩
    · intro hran
      rcases hran with ⟨e, he, hentity, hdetail⟩ | ⟨rfl, rfl, rfl⟩
      · exact ⟨e, .inl he, hentity, hdetail⟩
      · exact ⟨_, .inr rfl, rfl, rfl⟩
  refine ⟨⟨hnamed, fun t ht content hcontent => ?_, fun k id ids hids => ?_⟩, ⟨rfl, rfl, rfl, fun k id ids hids => ?_, fun id => ?_⟩,
    (hran _ _ _).mpr (.inr ⟨rfl, rfl, rfl⟩), fun ids hids => ?_⟩
  · rcases hspec.new t ht with ht | hp
    · exact hkept.agree t ht content (hcontent.congr db rfl rfl)
    · exact congrArg TriggerContent.fixed ((sources_describe hp).unique (hcontent.congr db rfl rfl))
  · intro run' hrun'
    rcases (hran k id ids).mp hids with hids | ⟨rfl, rfl, rfl⟩
    · rw [hkept.found k id ids hids run' hrun']
      refine List.map_congr_left fun p hp => ?_
      have hmem : (db.triggers.find? p.1).map Trigger.id ∈ ids.map some := by
        rw [hkept.found k id ids hids run' hrun']
        exact List.mem_map_of_mem (f := fun p => (db.triggers.find? p.1).map Trigger.id) hp
      obtain ⟨i, -, hi⟩ := List.mem_map.mp hmem
      obtain ⟨t, ht, -⟩ := Option.map_eq_some_iff.mp hi.symm
      rw [ht, hspec.kept p.1 t ht]
    · obtain rfl := Option.some.inj (hrun.symm.trans hrun')
      exact hspec.ids
  · exact (hran k id ids).mpr (.inl hids)
  · refine forall₂_congr fun f hf => ?_
    constructor
    · intro hstatus t ht
      exact hstatus t (hspec.kept _ t ht)
    · intro hstatus t ht
      obtain ⟨hmem, hsource⟩ := KeyedTable.find?_sound ht
      rcases hspec.new t hmem with hold | hp
      · exact hstatus t (KeyedTable.find?_eq_some.mpr ⟨hold, hsource⟩)
      · -- a new trigger has the status of now
        have hcontent : t.content = f.content sha256 :=
          (sources_describe hp).unique (hsource ▸ .varianceFinding (List.mem_of_mem_filter hf))
        rw [hcontent]
        rfl
  · obtain ⟨hids', hcount⟩ := hkept.again hrun hids hinsert
    rw [← hids', ← hcount]

/-- On a run that is there, a detector returns unless an unassessable finding has moved. -/
theorem Kept.detect_returns (hsha : Function.Injective sha256) (hkept : Kept sha256 clientId db)
    (hrun : (db.auditRuns.find? auditRunId).isSome) :
    Returns (detector.detect sha256 clientId db auditRunId) ↔ (detector = .unassessable → db.Unmoved auditRunId) := by
  obtain ⟨run, hrun⟩ := Option.isSome_iff_exists.mp hrun
  obtain ⟨-, hid⟩ := KeyedTable.find?_sound hrun
  have hsome : (insertTriggers auditRunId (detector.sources sha256 db run) db.triggers).isSome ↔ _ :=
    insertTriggers_isSome sources_nodup
  rw [← hid, ← hkept.fallback_iff, ← hsome, hid]
  constructor
  · intro h
    obtain ⟨⟨result, db'⟩, h⟩ := h
    obtain ⟨run', triggers, auditEvents, hrun', hinsert, -⟩ := detect_eq_ok.mp h
    obtain rfl := Option.some.inj (hrun.symm.trans hrun')
    exact Option.isSome_iff_exists.mpr ⟨_, hinsert⟩
  · intro h
    obtain ⟨⟨ids, createdCount, triggers⟩, hinsert⟩ := Option.isSome_iff_exists.mp h
    have hwrite : (db.auditEvents.write sha256 DiscoveryDetail.name (toString clientId) auditRunId
        (.detected detector ids)).isSome := by
      refine (NamedEvent.write_isSome hsha nul_not_mem_name hkept.named).mpr fun e he hname hentity => ?_
      cases hdetail : e.detail with
      | detected other otherIds =>
        rw [hdetail] at hname
        obtain rfl := text_injective hname
        rw [(hkept.again hrun ⟨e, he, hentity, hdetail⟩ hinsert).1]
      | findingStatusChanged findingId fromStatus toStatus note actorUserId =>
        rw [hdetail] at hname
        exact absurd hname.symm (text_ne_status detector)
    obtain ⟨auditEvents, hwrite⟩ := Option.isSome_iff_exists.mp hwrite
    exact ⟨⟨⟨ids, createdCount⟩, { db with triggers, auditEvents }⟩,
      detect_eq_ok.mpr ⟨run, triggers, auditEvents, hrun, hinsert, hwrite, rfl⟩⟩

/-! ## What an amendment does -/

theorem detectAll_cons {rest : List String} {n : ℕ} :
    detectAll sha256 clientId (auditRunId :: rest) db = .ok (n, db') ↔
      ∃ unassessable db₁ unknownChargeCode db₂ suspiciousPass db₃ triggersCreated,
        Detector.unassessable.detect sha256 clientId db auditRunId = .ok (unassessable, db₁) ∧
        Detector.unknownChargeCode.detect sha256 clientId db₁ auditRunId = .ok (unknownChargeCode, db₂) ∧
        Detector.suspiciousPass.detect sha256 clientId db₂ auditRunId = .ok (suspiciousPass, db₃) ∧
        detectAll sha256 clientId rest db₃ = .ok (triggersCreated, db') ∧
        n = unassessable.createdCount + unknownChargeCode.createdCount + suspiciousPass.createdCount + triggersCreated := by
  simp only [detectAll, detectUnassessableTriggers, detectUnknownChargeCodeTriggers, detectSuspiciousPassTriggers, bind_eq_ok,
    pure_eq_ok, Prod.exists, Prod.mk.injEq]
  constructor
  · intro h
    obtain ⟨r₁, db₁, h₁, r₂, db₂, h₂, r₃, db₃, h₃, m, db₄, h₄, hn, hdb⟩ := h
    exact ⟨r₁, db₁, r₂, db₂, r₃, db₃, m, h₁, h₂, h₃, hdb ▸ h₄, hn.symm⟩
  · intro h
    obtain ⟨r₁, db₁, r₂, db₂, r₃, db₃, m, h₁, h₂, h₃, h₄, hn⟩ := h
    exact ⟨r₁, db₁, h₁, r₂, db₂, h₂, r₃, db₃, h₃, m, db', h₄, hn.symm, rfl⟩

/-- All three detectors have run. -/
def DiscoveryDb.RanAll (db : DiscoveryDb) (auditRunId : String) : Prop := ∀ detector : Detector, ∃ ids, db.Ran detector auditRunId ids

theorem Grown.ranAll (h : Grown db db') (hran : db.RanAll auditRunId) : db'.RanAll auditRunId := by
  intro detector
  obtain ⟨ids, hids⟩ := hran detector
  exact ⟨ids, h.ran detector auditRunId ids hids⟩

theorem Kept.detectAll {auditRunIds : List String} (hkept : Kept sha256 clientId db) {n : ℕ}
    (h : Discovery.detectAll sha256 clientId auditRunIds db = .ok (n, db')) :
    Kept sha256 clientId db' ∧ Grown db db' ∧ (∀ id ∈ auditRunIds, db'.RanAll id) ∧
      ((∀ id ∈ auditRunIds, db.RanAll id) → n = 0) := by
  induction auditRunIds generalizing db n with
  | nil =>
    cases h
    exact ⟨hkept, Grown.refl _, fun id hid => absurd hid List.not_mem_nil, fun _ => rfl⟩
  | cons auditRunId rest ih =>
    obtain ⟨r₁, db₁, r₂, db₂, r₃, db₃, m, h₁, h₂, h₃, hrest, rfl⟩ := detectAll_cons.mp h
    obtain ⟨hkept₁, hgrown₁, hran₁, hagain₁⟩ := hkept.detect h₁
    obtain ⟨hkept₂, hgrown₂, hran₂, hagain₂⟩ := hkept₁.detect h₂
    obtain ⟨hkept₃, hgrown₃, hran₃, hagain₃⟩ := hkept₂.detect h₃
    obtain ⟨hkept', hgrown', hran', hagain'⟩ := ih hkept₃ hrest
    have hgrown := (hgrown₁.trans hgrown₂).trans hgrown₃
    have hran : db₃.RanAll auditRunId := by
      intro detector
      cases detector with
      | unassessable => exact ⟨_, hgrown₃.ran _ _ _ (hgrown₂.ran _ _ _ hran₁)⟩
      | unknownChargeCode => exact ⟨_, hgrown₃.ran _ _ _ hran₂⟩
      | suspiciousPass => exact ⟨_, hran₃⟩
    refine ⟨hkept', hgrown.trans hgrown', List.forall_mem_cons.mpr ⟨hgrown'.ranAll hran, hran'⟩, fun hall => ?_⟩
    obtain ⟨hfirst, hothers⟩ := List.forall_mem_cons.mp hall
    obtain ⟨ids₁, hids₁⟩ := hfirst .unassessable
    obtain ⟨ids₂, hids₂⟩ := hfirst .unknownChargeCode
    obtain ⟨ids₃, hids₃⟩ := hfirst .suspiciousPass
    rw [hagain₁ _ hids₁, hagain₂ _ (hgrown₁.ran _ _ _ hids₂), hagain₃ _ (hgrown₂.ran _ _ _ (hgrown₁.ran _ _ _ hids₃)),
      hagain' fun id hid => hgrown.ranAll (hothers id hid)]
    rfl

/-- On runs that are there, all detectors return unless an unassessable finding has moved. -/
theorem Kept.detectAll_returns {auditRunIds : List String} (hsha : Function.Injective sha256)
    (hkept : Kept sha256 clientId db) (hruns : ∀ id ∈ auditRunIds, (db.auditRuns.find? id).isSome) :
    Returns (Discovery.detectAll sha256 clientId auditRunIds db) ↔ ∀ id ∈ auditRunIds, db.Unmoved id := by
  induction auditRunIds generalizing db with
  | nil => exact iff_of_true ⟨_, rfl⟩ fun id hid => absurd hid List.not_mem_nil
  | cons auditRunId rest ih =>
    obtain ⟨hrun, hothers⟩ := List.forall_mem_cons.mp hruns
    rw [List.forall_mem_cons]
    constructor
    · intro h
      obtain ⟨⟨n, db'⟩, h⟩ := h
      obtain ⟨r₁, db₁, r₂, db₂, r₃, db₃, m, h₁, h₂, h₃, hrest, -⟩ := detectAll_cons.mp h
      obtain ⟨hkept₁, hgrown₁, -⟩ := hkept.detect h₁
      obtain ⟨hkept₂, hgrown₂, -⟩ := hkept₁.detect h₂
      obtain ⟨hkept₃, hgrown₃, -⟩ := hkept₂.detect h₃
      have hgrown := (hgrown₁.trans hgrown₂).trans hgrown₃
      refine ⟨(hkept.detect_returns hsha hrun).mp ⟨_, h₁⟩ rfl, fun id hid => ?_⟩
      have hothers₃ : ∀ id ∈ rest, (db₃.auditRuns.find? id).isSome := by
        rw [hgrown.record]
        exact hothers
      exact (hgrown.unmoved id).mp ((ih hkept₃ hothers₃).mp ⟨_, hrest⟩ id hid)
    · intro h
      obtain ⟨hunmoved, hrest⟩ := h
      obtain ⟨⟨r₁, db₁⟩, h₁⟩ := (hkept.detect_returns hsha hrun).mpr fun _ => hunmoved
      obtain ⟨hkept₁, hgrown₁, -⟩ := hkept.detect h₁
      have hrun₁ : (db₁.auditRuns.find? auditRunId).isSome := by
        rw [hgrown₁.record]
        exact hrun
      have hsecond : Returns (Detector.unknownChargeCode.detect sha256 clientId db₁ auditRunId) :=
        (hkept₁.detect_returns hsha hrun₁).mpr fun h => by cases h
      obtain ⟨⟨r₂, db₂⟩, h₂⟩ := hsecond
      obtain ⟨hkept₂, hgrown₂, -⟩ := hkept₁.detect h₂
      have hrun₂ : (db₂.auditRuns.find? auditRunId).isSome := by
        rw [hgrown₂.record]
        exact hrun₁
      have hthird : Returns (Detector.suspiciousPass.detect sha256 clientId db₂ auditRunId) :=
        (hkept₂.detect_returns hsha hrun₂).mpr fun h => by cases h
      obtain ⟨⟨r₃, db₃⟩, h₃⟩ := hthird
      obtain ⟨hkept₃, hgrown₃, -⟩ := hkept₂.detect h₃
      have hgrown := (hgrown₁.trans hgrown₂).trans hgrown₃
      have hothers₃ : ∀ id ∈ rest, (db₃.auditRuns.find? id).isSome := by
        rw [hgrown.record]
        exact hothers
      obtain ⟨⟨m, db'⟩, h'⟩ := (ih hkept₃ hothers₃).mpr fun id hid => (hgrown.unmoved id).mpr (hrest id hid)
      exact ⟨_, detectAll_cons.mpr ⟨r₁, db₁, r₂, db₂, r₃, db₃, m, h₁, h₂, h₃, h', rfl⟩⟩

section

variable {tx amendmentId : ℕ} {contracts contracts' : Contracts.Db} {ts : List AmendedRuleTransition}

theorem retire_eq_ok : retire clientId collation contracts tx amendmentId = .ok (ts, contracts') ↔
    ∃ log, alone append contracts (retireAmendedRules collation tx ⟨clientId, amendmentId⟩) .empty = .ok (ts, log) ∧
      contracts' = contracts ++ log.writes := by
  rw [retire]
  constructor
  · intro h
    split at h
    · rename_i transitions log hretire
      obtain ⟨rfl, rfl⟩ := Prod.mk.inj (pure_eq_ok.mp h)
      exact ⟨log, hretire, rfl⟩
    · cases h
  · intro h
    obtain ⟨log, hretire, hcontracts⟩ := h
    rw [hretire, hcontracts]
    rfl

/-- A settled amendment is retired again, and nothing changes. -/
theorem retire_settled (h : Settled collation contracts ⟨clientId, amendmentId⟩ ts) :
    retire clientId collation contracts tx amendmentId = .ok (ts, contracts) := by
  have hfinds : Finds contracts (retireAmendedRules collation tx ⟨clientId, amendmentId⟩) ts := h.finds
  obtain ⟨log, hretire, hwrites⟩ := hfinds .empty rfl
  exact retire_eq_ok.mpr ⟨log, hretire, by rw [hwrites, List.append_nil]⟩

theorem retire_settles (h : retire clientId collation contracts tx amendmentId = .ok (ts, contracts')) :
    Settled collation contracts' ⟨clientId, amendmentId⟩ ts ∧ ∃ ws, Unread ws ∧ contracts' = contracts ++ ws := by
  obtain ⟨log, hretire, rfl⟩ := retire_eq_ok.mp h
  obtain ⟨hsettled, hunread⟩ := retireAmendedRules_settles hretire
  exact ⟨hsettled, log.writes, hunread, rfl⟩

/-- The versions that are retired are those that the amendment is about. -/
theorem settled_amended (h : Settled collation contracts ⟨clientId, amendmentId⟩ ts) {ruleVersionId : ℕ} :
    ruleVersionId ∈ (ts.map AmendedRuleTransition.oldRuleVersionId).dedup ↔
      AmendedVersion clientId collation contracts amendmentId ruleVersionId := by
  obtain ⟨a, supersedesVersionId, newVersionId, ha, hold, hnew, hrests⟩ := h.rests
  have hids : ts.map AmendedRuleTransition.oldRuleVersionId =
      (retirements (impactsOf contracts (joinedClauses collation contracts supersedesVersionId newVersionId))).map Prod.snd := by
    have hentries : ∀ {entries : List ((ClauseImpact × ℕ) × ℕ)} {ts : List AmendedRuleTransition},
        List.Forall₂ (fun entry t => Rests contracts entry.1 t) entries ts →
          ts.map AmendedRuleTransition.oldRuleVersionId = (entries.map Prod.fst).map Prod.snd := by
      intro entries ts h
      induction h with
      | nil => rfl
      | cons hentry _ ih => rw [List.map_cons, ih, hentry.version, List.map_cons, List.map_cons]
    rw [hentries hrests, List.zipIdx_map_fst]
  rw [List.mem_dedup, hids]
  constructor
  · intro hmem
    exact ⟨a, supersedesVersionId, newVersionId, ha, hold, hnew, hmem⟩
  · intro h
    obtain ⟨a', supersedesVersionId', newVersionId', ha', hold', hnew', hmem⟩ := h
    obtain rfl := Option.some.inj (ha.symm.trans ha')
    obtain rfl := Option.some.inj (hold.symm.trans hold')
    obtain rfl := Option.some.inj (hnew.symm.trans hnew')
    exact hmem

theorem mem_affectedAuditRunIds {ruleVersionIds : List ℕ} {id : String} :
    id ∈ affectedAuditRunIds db ruleVersionIds ↔ ∃ v ∈ ruleVersionIds, db.Cites id v := by
  simp only [affectedAuditRunIds, List.mem_insertionSort, List.mem_dedup, List.mem_append, List.mem_map, List.mem_filter,
    List.contains_iff_mem, AuditRecord.Cites]
  constructor
  · intro h
    rcases h with ⟨c, ⟨hc, hv⟩, rfl⟩ | ⟨g, ⟨hg, hv⟩, rfl⟩
    · exact ⟨c.ruleVersionId, hv, .inl ⟨c, hc, rfl, rfl⟩⟩
    · exact ⟨g.ruleVersionId, hv, .inr ⟨g, hg, rfl, rfl⟩⟩
  · intro h
    obtain ⟨v, hv, h⟩ := h
    rcases h with ⟨c, hc, rfl, rfl⟩ | ⟨g, hg, rfl, rfl⟩
    · exact .inl ⟨c, ⟨hc, hv⟩, rfl⟩
    · exact .inr ⟨g, ⟨hg, hv⟩, rfl⟩

/-- A run that cites a version is there. -/
theorem AuditRecord.Cites.run {record : AuditRecord} {id : String} {v : ℕ} (h : record.Cites id v) :
    (record.auditRuns.find? id).isSome := by
  rcases h with ⟨c, hc, rfl, -⟩ | ⟨g, hg, rfl, -⟩
  · exact record.charged c hc
  · exact record.gated g hg

theorem rerun_eq_ok {result : RerunDiscoveryForAmendmentResult} :
    rerunDiscoveryForAmendment sha256 clientId collation db tx amendmentId = .ok (result, db') ↔
      ∃ ts contracts affected n, retire clientId collation db.contracts tx amendmentId = .ok (ts, contracts) ∧
        affected = affectedAuditRunIds db (ts.map AmendedRuleTransition.oldRuleVersionId).dedup ∧
        detectAll sha256 clientId affected { db with contracts } = .ok (n, db') ∧ result = ⟨ts, affected, n⟩ := by
  have hempty : affectedAuditRunIds db [] = [] :=
    List.eq_nil_iff_forall_not_mem.mpr fun id hid => by
      obtain ⟨v, hv, -⟩ := mem_affectedAuditRunIds.mp hid
      exact absurd hv List.not_mem_nil
  rw [rerunDiscoveryForAmendment, bind_eq_ok]
  constructor
  · intro h
    obtain ⟨⟨ts, contracts⟩, hretire, h⟩ := h
    rw [mapError_eq_ok] at hretire
    dsimp only at h
    split at h
    · rename_i hnone
      obtain ⟨rfl, rfl⟩ := Prod.mk.inj (pure_eq_ok.mp h)
      exact ⟨ts, contracts, [], 0, hretire, by rw [hnone, hempty], rfl, rfl⟩
    · obtain ⟨⟨n, last⟩, hdetect, hresult⟩ := bind_eq_ok.mp h
      obtain ⟨rfl, rfl⟩ := Prod.mk.inj (pure_eq_ok.mp hresult)
      exact ⟨ts, contracts, _, n, hretire, rfl, hdetect, rfl⟩
  · intro h
    obtain ⟨ts, contracts, affected, n, hretire, haffected, hdetect, hresult⟩ := h
    refine ⟨(ts, contracts), mapError_eq_ok.mpr hretire, ?_⟩
    dsimp only
    split
    · rename_i hnone
      rw [hnone, hempty] at haffected
      rw [haffected] at hdetect hresult
      obtain ⟨rfl, rfl⟩ := Prod.mk.inj (pure_eq_ok.mp hdetect)
      rw [hresult]
      rfl
    · rw [haffected] at hdetect
      rw [hresult, haffected]
      exact bind_eq_ok.mpr ⟨(n, db'), hdetect, rfl⟩

end

/-! ## What happens to a history -/

theorem Kept.withContracts (hkept : Kept sha256 clientId db) (contracts : Contracts.Db) :
    Kept sha256 clientId { db with contracts } :=
  ⟨hkept.named, fun t ht content hcontent => hkept.agree t ht content (hcontent.congr db rfl rfl), hkept.found⟩

theorem updateFindingStatus_cases {findingId statusEventId : String} {toStatus : VarianceStatus}
    {note actorUserId : Option String}
    (h : updateFindingStatus sha256 clientId db findingId toStatus note actorUserId statusEventId = .ok db') :
    db' = db ∨ ∃ id fromStatus auditEvents, db.auditEvents.write sha256 DiscoveryDetail.name (toString clientId) statusEventId
      (.findingStatusChanged id fromStatus toStatus note actorUserId) = some auditEvents ∧
        db' = { db.move findingId toStatus with auditEvents } := by
  rw [updateFindingStatus] at h
  split at h
  · exact .inl (pure_eq_ok.mp h).symm
  · rename_i finding hfinding
    split at h
    · cases h
    · rename_i auditEvents hwrite
      exact .inr ⟨finding.id, finding.status, auditEvents, hwrite, (pure_eq_ok.mp h).symm⟩

/-- A status that moves is no run of a detector. -/
theorem Kept.update {findingId statusEventId id : String} {fromStatus toStatus : VarianceStatus}
    {note actorUserId : Option String} {auditEvents : NamedEvent.Log DiscoveryDetail} (hkept : Kept sha256 clientId db)
    (hwrite : db.auditEvents.write sha256 DiscoveryDetail.name (toString clientId) statusEventId
      (.findingStatusChanged id fromStatus toStatus note actorUserId) = some auditEvents) :
    Kept sha256 clientId { db.move findingId toStatus with auditEvents } ∧
      ∀ detector auditRunId ids, DiscoveryDb.Ran { db.move findingId toStatus with auditEvents } detector auditRunId ids ↔
        db.Ran detector auditRunId ids := by
  have hran : ∀ detector auditRunId ids, DiscoveryDb.Ran { db.move findingId toStatus with auditEvents } detector auditRunId ids ↔
      db.Ran detector auditRunId ids := by
    intro detector auditRunId ids
    simp only [DiscoveryDb.Ran, NamedEvent.mem_write hkept.named hwrite]
    constructor
    · intro h
      obtain ⟨e, he, hentity, hdetail⟩ := h
      rcases he with he | rfl
      · exact ⟨e, he, hentity, hdetail⟩
      · cases hdetail
    · intro h
      obtain ⟨e, he, hentity, hdetail⟩ := h
      exact ⟨e, .inl he, hentity, hdetail⟩
  refine ⟨⟨hkept.named.write hwrite, fun t ht content hcontent => ?_, fun detector auditRunId ids hids run hrun => ?_⟩, hran⟩
  · have hmoved : Describes sha256 (db.move findingId toStatus) t.source content := hcontent.congr _ rfl rfl
    obtain ⟨before, hbefore, hfixed⟩ := hmoved.fixed_move
    rw [hkept.agree t ht before hbefore, hfixed]
  · rw [hkept.found detector auditRunId ids ((hran detector auditRunId ids).mp hids) run hrun]
    have hkeys : (detector.sources sha256 (db.move findingId toStatus) run).map Prod.fst =
        (detector.sources sha256 db run).map Prod.fst := sources_move
    have hids := congrArg (List.map fun source => (db.triggers.find? source).map Trigger.id) hkeys
    rw [List.map_map, List.map_map] at hids
    exact hids.symm

variable (sha256 clientId collation) in
/-- What an amendment was run again for, it retires again, and the detectors have run there. -/
structure Consistent (s : History) : Prop where
  kept : Kept sha256 clientId s.db
  reruns : ∀ amendmentId affected, (amendmentId, affected) ∈ s.reruns → ∃ ts,
    Settled collation s.db.contracts ⟨clientId, amendmentId⟩ ts ∧
      affected = affectedAuditRunIds s.db (ts.map AmendedRuleTransition.oldRuleVersionId).dedup ∧ ∀ id ∈ affected, s.db.RanAll id

variable {s s' : History}

/-- What an amendment has found, it goes on finding. -/
theorem Consistent.grow (h : Consistent sha256 clientId collation s) (hkept : Kept sha256 clientId db')
    (hrecord : db'.toAuditRecord = s.db.toAuditRecord)
    (hran : ∀ detector auditRunId ids, s.db.Ran detector auditRunId ids → db'.Ran detector auditRunId ids)
    (hcontracts : ∃ ws, Unread ws ∧ db'.contracts = s.db.contracts ++ ws) :
    Consistent sha256 clientId collation { s with db := db' } := by
  refine ⟨hkept, fun amendmentId affected hmem => ?_⟩
  obtain ⟨ts, hsettled, haffected, hall⟩ := h.reruns amendmentId affected hmem
  obtain ⟨ws, hunread, hcontracts⟩ := hcontracts
  refine ⟨ts, ?_, ?_, fun id hid detector => ?_⟩
  · rw [hcontracts]
    exact hsettled.append hunread
  · rw [haffected]
    unfold affectedAuditRunIds
    rw [hrecord]
  · obtain ⟨ids, hids⟩ := hall id hid detector
    exact ⟨ids, hran detector id ids hids⟩

theorem unread_nil : Unread [] := ⟨rfl, rfl, fun _ hv => absurd hv List.not_mem_nil⟩

/-- What an amendment that is run again leaves. -/
theorem Consistent.rerun (h : Consistent sha256 clientId collation s) {tx amendmentId : ℕ}
    {result : RerunDiscoveryForAmendmentResult}
    (hrerun : rerunDiscoveryForAmendment sha256 clientId collation s.db tx amendmentId = .ok (result, db')) :
    Consistent sha256 clientId collation ⟨db', (amendmentId, result.affectedAuditRunIds) :: s.reruns⟩ ∧
      ∀ affected, (amendmentId, affected) ∈ s.reruns → result.affectedAuditRunIds = affected ∧ result.triggersCreated = 0 := by
  obtain ⟨ts, contracts, affected, n, hretire, haffected, hdetect, rfl⟩ := rerun_eq_ok.mp hrerun
  obtain ⟨hsettled, hgrows⟩ := retire_settles hretire
  obtain ⟨hkept, hgrown, hran, hagain⟩ := (h.kept.withContracts contracts).detectAll hdetect
  have hbefore : Consistent sha256 clientId collation { s with db := db' } := by
    refine h.grow hkept hgrown.record hgrown.ran ?_
    rw [hgrown.contracts]
    exact hgrows
  refine ⟨⟨hkept, fun id others hmem => ?_⟩, fun others hmem => ?_⟩
  · rcases List.mem_cons.mp hmem with heq | hmem
    · obtain ⟨rfl, rfl⟩ := Prod.mk.inj heq
      refine ⟨ts, ?_, ?_, hran⟩
      · rw [hgrown.contracts]
        exact hsettled
      · rw [haffected]
        unfold affectedAuditRunIds
        rw [hgrown.record]
    · exact hbefore.reruns id others hmem
  · -- the amendment was retired before, so it retires the same again
    obtain ⟨ts', hsettled', hothers, hall⟩ := h.reruns amendmentId others hmem
    rw [retire_settled hsettled'] at hretire
    obtain ⟨rfl, rfl⟩ := Prod.mk.inj (Except.ok.inj hretire)
    obtain rfl : affected = others := haffected.trans hothers.symm
    exact ⟨rfl, hagain hall⟩

theorem Consistent.step (h : Consistent sha256 clientId collation s) {e : DiscoveryEvent}
    (hstep : Discovery.step sha256 clientId collation s e = some s') : Consistent sha256 clientId collation s' := by
  cases e with
  | detect detector auditRunId =>
    simp only [Discovery.step] at hstep
    split at hstep
    · rename_i result db hdetect
      obtain rfl := Option.some.inj hstep
      obtain ⟨hkept, hgrown, -⟩ := h.kept.detect hdetect
      refine h.grow hkept hgrown.record hgrown.ran ⟨[], unread_nil, ?_⟩
      rw [hgrown.contracts, List.append_nil]
    · obtain rfl := Option.some.inj hstep
      exact h
  | rerunDiscoveryForAmendment tx amendmentId =>
    simp only [Discovery.step] at hstep
    split at hstep
    · rename_i result db hrerun
      obtain rfl := Option.some.inj hstep
      exact (h.rerun hrerun).1
    · obtain rfl := Option.some.inj hstep
      exact h
  | updateFindingStatus findingId toStatus note actorUserId statusEventId =>
    simp only [Discovery.step] at hstep
    split at hstep
    · rename_i db hupdate
      obtain rfl := Option.some.inj hstep
      rcases updateFindingStatus_cases hupdate with rfl | ⟨id, fromStatus, auditEvents, hwrite, rfl⟩
      · exact h
      · obtain ⟨hkept, hran⟩ := h.kept.update hwrite
        exact h.grow hkept rfl (fun detector auditRunId ids => (hran detector auditRunId ids).mpr)
          ⟨[], unread_nil, (List.append_nil _).symm⟩
    · obtain rfl := Option.some.inj hstep
      exact h

/-- The versions of an amendment stay the same. -/
theorem amendedVersion_append {contracts ws : Contracts.Db} (hws : Unread ws) {amendmentId ruleVersionId : ℕ} :
    AmendedVersion clientId collation (contracts ++ ws) amendmentId ruleVersionId ↔
      AmendedVersion clientId collation contracts amendmentId ruleVersionId := by
  unfold AmendedVersion
  simp only [hws.findAmendment, hws.impactsOf]

/-- Where the amendment's versions can be retired, discovery runs again unless an unassessable finding has moved. -/
theorem Consistent.rerun_returns (hsha : Function.Injective sha256) (h : Consistent sha256 clientId collation s)
    {tx amendmentId : ℕ} (hretirable : Retirable clientId collation s.db.contracts tx amendmentId) :
    Returns (rerunDiscoveryForAmendment sha256 clientId collation s.db tx amendmentId) ↔
      ∀ ruleVersionId, AmendedVersion clientId collation s.db.contracts amendmentId ruleVersionId →
        ∀ auditRunId, s.db.Cites auditRunId ruleVersionId → s.db.Unmoved auditRunId := by
  obtain ⟨⟨ts, contracts⟩, hretire⟩ := hretirable
  obtain ⟨hsettled, ws, hunread, rfl⟩ := retire_settles hretire
  have hruns : ∀ id ∈ affectedAuditRunIds s.db (ts.map AmendedRuleTransition.oldRuleVersionId).dedup,
      (s.db.auditRuns.find? id).isSome := by
    intro id hid
    obtain ⟨v, -, hcites⟩ := mem_affectedAuditRunIds.mp hid
    exact hcites.run
  have hdetect := (h.kept.withContracts (s.db.contracts ++ ws)).detectAll_returns hsha hruns
  have hversions : (∀ id ∈ affectedAuditRunIds s.db (ts.map AmendedRuleTransition.oldRuleVersionId).dedup, s.db.Unmoved id) ↔
      ∀ ruleVersionId, AmendedVersion clientId collation s.db.contracts amendmentId ruleVersionId →
        ∀ auditRunId, s.db.Cites auditRunId ruleVersionId → s.db.Unmoved auditRunId := by
    simp only [mem_affectedAuditRunIds, settled_amended hsettled, amendedVersion_append hunread]
    constructor
    · intro hall v hv id hcites
      exact hall id ⟨v, hv, hcites⟩
    · intro hall id ⟨v, hv, hcites⟩
      exact hall v hv id hcites
  rw [← hversions]
  refine Iff.trans ?_ hdetect
  constructor
  · intro h
    obtain ⟨⟨result, db'⟩, hrerun⟩ := h
    obtain ⟨ts', contracts', affected, n, hretire', rfl, hall, -⟩ := rerun_eq_ok.mp hrerun
    rw [hretire] at hretire'
    obtain ⟨rfl, rfl⟩ := Prod.mk.inj (Except.ok.inj hretire')
    exact ⟨_, hall⟩
  · intro h
    obtain ⟨⟨n, db'⟩, hall⟩ := h
    exact ⟨⟨_, db'⟩, rerun_eq_ok.mpr ⟨ts, _, _, n, hretire, rfl, hall, rfl⟩⟩

/-- What a step is to do it does unless a finding has moved. -/
theorem Consistent.step_repeats (hsha : Function.Injective sha256) (h : Consistent sha256 clientId collation s)
    (e : DiscoveryEvent) : Repeats sha256 clientId collation s e ↔ AtRest clientId collation s e := by
  cases e with
  | detect detector auditRunId =>
    have hreturns : Repeats sha256 clientId collation s (.detect detector auditRunId) ↔
        ((s.db.auditRuns.find? auditRunId).isSome → detector = .unassessable → s.db.Unmoved auditRunId) := by
      refine imp_congr_right fun hrun => Iff.trans ?_ (h.kept.detect_returns hsha hrun)
      constructor
      · intro h
        obtain ⟨result, db, hdetect, -⟩ := h
        exact ⟨(result, db), hdetect⟩
      · intro h
        obtain ⟨⟨result, db⟩, hdetect⟩ := h
        obtain ⟨-, -, -, hagain⟩ := h.kept.detect hdetect
        exact ⟨result, db, hdetect, hagain⟩
    rw [hreturns]
    cases detector with
    | unassessable => exact imp_congr_right fun _ => ⟨fun h => h rfl, fun h _ => h⟩
    | unknownChargeCode => exact iff_of_true (fun _ hdetector => by cases hdetector) trivial
    | suspiciousPass => exact iff_of_true (fun _ hdetector => by cases hdetector) trivial
  | rerunDiscoveryForAmendment tx amendmentId =>
    have hearlier : amendmentId ∈ s.reruns.map Prod.fst → Retirable clientId collation s.db.contracts tx amendmentId := by
      intro hmem
      obtain ⟨⟨id, affected⟩, hentry, rfl⟩ := List.mem_map.mp hmem
      obtain ⟨ts, hsettled, -⟩ := h.reruns id affected hentry
      exact ⟨_, retire_settled hsettled⟩
    have hreturns : Repeats sha256 clientId collation s (.rerunDiscoveryForAmendment tx amendmentId) ↔
        (Retirable clientId collation s.db.contracts tx amendmentId →
          Returns (rerunDiscoveryForAmendment sha256 clientId collation s.db tx amendmentId)) := by
      constructor
      · intro hall hretirable
        obtain ⟨result, db, hrerun, -⟩ := hall (.inl hretirable)
        exact ⟨_, hrerun⟩
      · intro hall hretirable
        obtain ⟨⟨result, db⟩, hrerun⟩ := hall (hretirable.elim id hearlier)
        exact ⟨result, db, hrerun, (h.rerun hrerun).2⟩
    rw [hreturns]
    exact imp_congr_right fun hretirable => h.rerun_returns hsha hretirable
  | updateFindingStatus findingId toStatus note actorUserId statusEventId => exact Iff.rfl

/-- Nothing was detected yet. -/
structure DiscoveryDb.Undetected (db : DiscoveryDb) : Prop where
  triggers : db.triggers = .empty
  auditEvents : db.auditEvents = .empty

theorem DiscoveryDb.Undetected.consistent (h : db.Undetected) : Consistent sha256 clientId collation ⟨db, []⟩ := by
  have hevents : ∀ e, e ∉ db.auditEvents.rows := by
    rw [h.auditEvents]
    exact fun e => List.not_mem_nil
  refine ⟨⟨fun e he => absurd he (hevents e), fun t ht => ?_, fun detector id ids hids => ?_⟩, fun id affected hmem => ?_⟩
  · rw [h.triggers] at ht
    exact absurd ht List.not_mem_nil
  · obtain ⟨e, he, -⟩ := hids
    exact absurd he (hevents e)
  · exact absurd hmem List.not_mem_nil

/-- Discovery can be run again as long as it is not run on an unassessable finding whose status is another than when its trigger was
made. -/
theorem repeats_iff (hsha : Function.Injective sha256) (hdb : db.Undetected) (events : List DiscoveryEvent) :
    Runs.AllSteps (Discovery.step sha256 clientId collation) (Repeats sha256 clientId collation) ⟨db, []⟩ events ↔
      Runs.AllSteps (Discovery.step sha256 clientId collation) (AtRest clientId collation) ⟨db, []⟩ events :=
  Runs.allSteps_iff (Consistent sha256 clientId collation) (fun _ _ _ h hstep => h.step hstep)
    (fun _ e _ h _ => h.step_repeats hsha e) events ⟨db, []⟩ hdb.consistent

/-! ## One unassessable finding -/

def oneFindingDb : DiscoveryDb where
  auditRuns := ⟨[⟨"run", "invoice"⟩], List.nodup_singleton _⟩
  gateFailures := .empty
  chargeFindings := []
  chargeFacts := .empty
  coverageMarkers := .empty
  gated := fun _ hg => absurd hg List.not_mem_nil
  charged := fun _ hc => absurd hc List.not_mem_nil
  varianceFindings := ⟨[⟨"finding", "run", "criterion", 1, .null, some "unassessable", .open⟩], List.nodup_singleton _⟩
  triggers := .empty
  auditEvents := .empty
  contracts := []

def detectRun : DiscoveryEvent := .detect .unassessable "run"

def dispute : DiscoveryEvent := .updateFindingStatus "finding" .disputed none none "status"

theorem disputed_unmoved : ∀ s₁ ∈ step id 1 compare ⟨oneFindingDb, []⟩ dispute, s₁.db.Unmoved "run" ∧
    ∀ s₂ ∈ step id 1 compare s₁ detectRun, s₂.db.Unmoved "run" := by
  decide +kernel

/-- Detected after it was disputed, the run can be detected again. -/
theorem disputed_repeats : Runs.AllSteps (step id 1 compare) (Repeats id 1 compare) ⟨oneFindingDb, []⟩
    [dispute, detectRun, detectRun] := by
  refine (repeats_iff Function.injective_id ⟨rfl, rfl⟩ _).mpr fun s₁ h₁ => ⟨trivial, fun s₂ h₂ => ⟨fun _ => ?_, fun s₃ _ => ?_⟩⟩
  · exact (disputed_unmoved s₁ h₁).1
  · exact ⟨fun _ => (disputed_unmoved s₁ h₁).2 s₂ h₂, trivial⟩

theorem detected_then_disputed : ∃ s₁ ∈ step id 1 compare ⟨oneFindingDb, []⟩ detectRun,
    ∃ s₂ ∈ step id 1 compare s₁ dispute, (s₂.db.auditRuns.find? "run").isSome ∧ (step id 1 compare s₂ detectRun).isSome ∧
      (detectUnassessableTriggers id 1 s₂.db "run").toOption.isNone := by
  decide +kernel

/-- Detected before it was disputed, it cannot. -/
theorem disputed_conflicts : ¬ Runs.AllSteps (step id 1 compare) (Repeats id 1 compare) ⟨oneFindingDb, []⟩
    [detectRun, dispute, detectRun] := by
  intro h
  obtain ⟨s₁, h₁, s₂, h₂, hrun, h₃, hnone⟩ := detected_then_disputed
  obtain ⟨s₃, h₃⟩ := Option.isSome_iff_exists.mp h₃
  obtain ⟨hrepeats, -⟩ := ((h s₁ h₁).2 s₂ h₂).2 s₃ h₃
  obtain ⟨result, db, hdetect, -⟩ := hrepeats hrun
  rw [detectUnassessableTriggers, hdetect] at hnone
  cases hnone

end Discovery
