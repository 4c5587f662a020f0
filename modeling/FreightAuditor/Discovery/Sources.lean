import FreightAuditor.Discovery.Triggers

/- What the detectors insert, and from which rows.

   The sources of a detector have different keys, and a key has one content; all of it but a
   finding's status stays (`Describes.fixed_update`). Triggers can be inserted exactly if those
   that are there pass the fallback, and are then the ones that their sources name
   (`insertTriggers_isSome`, `insertTriggers_cases`). -/
namespace Discovery

open Claims Json

variable {sha256 : String → String} {db : DiscoveryDb} {auditRunId : String}

/-! ## Inserting -/

section

variable {source : TriggerSource} {content : TriggerContent} {table table' : TriggerTable}
  {sources : List (TriggerSource × TriggerContent)} {id createdCount : ℕ} {created : Bool} {ids : List ℕ} {row : Trigger}

theorem insertIdempotent_isSome : (insertIdempotent table auditRunId source content).isSome ↔
    ∀ row ∈ table.find? source, fallback row.content content = true := by
  have hrecord := @KeyedTable.record_isSome _ _ _ Trigger.source (fun row value => fallback row.content value.content) table
    ⟨table.rows.length, auditRunId, source, content⟩
  refine Iff.trans ?_ hrecord
  cases h : table.record (fun row value => fallback row.content value.content)
    ⟨table.rows.length, auditRunId, source, content⟩ with
  | none =>
    rw [insertIdempotent, h]
    exact iff_of_false (by simp) (by simp)
  | some result =>
    obtain ⟨created, table'⟩ := result
    rw [insertIdempotent, h]
    refine iff_of_true ?_ rfl
    rcases KeyedTable.record_cases h with ⟨-, -, hinsert⟩ | ⟨-, rfl, row, hfound, -⟩
    · have hfound : table'.find? source = some ⟨table.rows.length, auditRunId, source, content⟩ := by
        rw [KeyedTable.find?_insert hinsert, if_pos rfl]
      simp [hfound]
    · have hfound : table'.find? source = some row := hfound
      simp [hfound]

/-- The source has the trigger, which is new or was there. -/
theorem insertIdempotent_cases (h : insertIdempotent table auditRunId source content = some (id, created, table')) :
    ∃ row, table'.find? source = some row ∧ row.id = id ∧
      (created = true ∧ table.find? source = none ∧ row.content = content ∧ table'.rows = table.rows ++ [row] ∨
        created = false ∧ table' = table) := by
  simp only [insertIdempotent, Option.bind_eq_bind, Option.bind_eq_some_iff, Prod.exists, Option.pure_def, Option.some.injEq,
    Prod.mk.injEq] at h
  obtain ⟨_, _, hrecord, row, hfound, rfl, rfl, rfl⟩ := h
  refine ⟨row, hfound, rfl, ?_⟩
  rcases KeyedTable.record_cases hrecord with ⟨rfl, hfree, hinsert⟩ | ⟨rfl, rfl, -⟩
  · rw [KeyedTable.find?_insert hinsert, if_pos rfl] at hfound
    obtain rfl := Option.some.inj hfound
    exact .inl ⟨rfl, hfree, rfl, (KeyedTable.insert_eq_some hinsert).2⟩
  · exact .inr ⟨rfl, rfl⟩

/-- Other sources keep what they have. -/
theorem insertIdempotent_other (h : insertIdempotent table auditRunId source content = some (id, created, table'))
    {other : TriggerSource} (hother : source ≠ other) : table'.find? other = table.find? other := by
  simp only [insertIdempotent, Option.bind_eq_bind, Option.bind_eq_some_iff, Prod.exists, Option.pure_def, Option.some.injEq,
    Prod.mk.injEq] at h
  obtain ⟨_, _, hrecord, row, hfound, rfl, rfl, rfl⟩ := h
  exact KeyedTable.record_other hrecord hother

theorem insertTriggers_cons : insertTriggers auditRunId ((source, content) :: sources) table = (do
    let (id, created, table) ← insertIdempotent table auditRunId source content
    let (ids, createdCount, table) ← insertTriggers auditRunId sources table
    return (id :: ids, (if created then 1 else 0) + createdCount, table)) := rfl

/-- Triggers can be inserted if those that are there pass. -/
theorem insertTriggers_isSome (hnodup : (sources.map Prod.fst).Nodup) :
    ∀ {table : TriggerTable}, (insertTriggers auditRunId sources table).isSome ↔
      ∀ p ∈ sources, ∀ row ∈ table.find? p.1, fallback row.content p.2 = true := by
  induction sources with
  | nil => exact fun {table} => iff_of_true rfl fun p hp => absurd hp List.not_mem_nil
  | cons p rest ih =>
    intro table
    obtain ⟨source, content⟩ := p
    obtain ⟨hfresh, hrest⟩ := List.nodup_cons.mp hnodup
    have hfirst : (insertIdempotent table auditRunId source content).isSome ↔ _ := insertIdempotent_isSome
    rw [insertTriggers_cons, List.forall_mem_cons, ← hfirst]
    cases h : insertIdempotent table auditRunId source content with
    | none => exact iff_of_false (by simp) (by simp)
    | some first =>
      obtain ⟨id, created, table'⟩ := first
      have hother : (∀ p ∈ rest, ∀ row ∈ table'.find? p.1, fallback row.content p.2 = true) ↔
          ∀ p ∈ rest, ∀ row ∈ table.find? p.1, fallback row.content p.2 = true := by
        refine forall₂_congr fun p hp => ?_
        have hsource : source ≠ p.1 := by
          intro heq
          have hmem : p.1 ∈ rest.map Prod.fst := List.mem_map_of_mem hp
          exact hfresh (heq ▸ hmem)
        rw [insertIdempotent_other h hsource]
      rw [← hother, ← ih hrest]
      cases hrests : insertTriggers auditRunId rest table' with
      | none => exact iff_of_false (by simp [hrests]) (by simp)
      | some result => exact iff_of_true (by simp [hrests]) ⟨rfl, rfl⟩

/-- What the inserts leave: the triggers of the sources, no others, and all that were there. -/
structure InsertedTriggers (sources : List (TriggerSource × TriggerContent)) (table : TriggerTable) (ids : List ℕ)
    (createdCount : ℕ) (table' : TriggerTable) : Prop where
  kept : ∀ source row, table.find? source = some row → table'.find? source = some row
  ids : ids.map some = sources.map fun p => (table'.find? p.1).map Trigger.id
  new : ∀ row ∈ table'.rows, row ∈ table.rows ∨ (row.source, row.content) ∈ sources
  again : (∀ p ∈ sources, (table.find? p.1).isSome) → createdCount = 0 ∧ table' = table

theorem insertTriggers_cases (h : insertTriggers auditRunId sources table = some (ids, createdCount, table')) :
    InsertedTriggers sources table ids createdCount table' := by
  induction sources generalizing table ids createdCount with
  | nil =>
    obtain ⟨rfl, rfl, rfl⟩ := h
    exact ⟨fun _ _ hrow => hrow, rfl, fun _ hrow => .inl hrow, fun _ => ⟨rfl, rfl⟩⟩
  | cons p rest ih =>
    obtain ⟨source, content⟩ := p
    simp only [insertTriggers_cons, Option.bind_eq_bind, Option.bind_eq_some_iff, Prod.exists, Option.pure_def,
      Option.some.injEq, Prod.mk.injEq] at h
    obtain ⟨id, created, mid, hfirst, restIds, restCount, last, hrest, rfl, rfl, rfl⟩ := h
    obtain ⟨row, hrow, rfl, hnew⟩ := insertIdempotent_cases hfirst
    have hspec := ih hrest
    have hkept : ∀ other old, table.find? other = some old → mid.find? other = some old := by
      intro other old hold
      by_cases hother : source = other
      · rcases hnew with ⟨-, hfree, -⟩ | ⟨-, rfl⟩
        · rw [← hother, hfree] at hold
          cases hold
        · exact hold
      · rw [insertIdempotent_other hfirst hother]
        exact hold
    refine ⟨fun other old hold => hspec.kept other old (hkept other old hold), ?_, fun old hold => ?_, fun hall => ?_⟩
    · rw [List.map_cons, List.map_cons, hspec.ids, hspec.kept source row hrow]
      rfl
    · rcases hspec.new old hold with hold | hold
      · rcases hnew with ⟨-, -, hcontent, hrows⟩ | ⟨-, rfl⟩
        · rw [hrows, List.mem_append, List.mem_singleton] at hold
          rcases hold with hold | rfl
          · exact .inl hold
          · rw [(KeyedTable.find?_sound hrow).2, hcontent]
            exact .inr List.mem_cons_self
        · exact .inl hold
      · exact .inr (List.mem_cons_of_mem _ hold)
    · obtain ⟨hthere, hrestThere⟩ := List.forall_mem_cons.mp hall
      rcases hnew with ⟨-, hfree, -⟩ | ⟨rfl, rfl⟩
      · rw [hfree] at hthere
        cases hthere
      · obtain ⟨rfl, rfl⟩ := hspec.again hrestThere
        exact ⟨rfl, rfl⟩

end

/-! ## Where sources come from -/

/-- Everything but the status of a finding. -/
def TriggerContent.fixed : TriggerContent → TriggerContent
  | .unassessableResult criterionId ruleVersionId hash (.finding classification _) =>
    .unassessableResult criterionId ruleVersionId hash (.finding classification .open)
  | content => content

/-- The status that a finding had. -/
def TriggerContent.status? : TriggerContent → Option VarianceStatus
  | .unassessableResult _ _ _ (.finding _ status) => some status
  | _ => none

theorem TriggerContent.eq_iff {content content' : TriggerContent} (h : content.fixed = content'.fixed) :
    content = content' ↔ content.status? = content'.status? := by
  constructor
  · intro heq
    rw [heq]
  · intro hstatus
    unfold TriggerContent.fixed at h
    unfold TriggerContent.status? at hstatus
    split at h <;> split at h <;> simp_all

/-- A failed gate has no status. -/
theorem TriggerContent.eq_of_gate {content : TriggerContent} {criterionId hash defect : String} {ruleVersionId : ℕ}
    {citation : Option String}
    (h : content.fixed = (unassessableResult criterionId ruleVersionId hash (.gate defect citation)).fixed) :
    content = unassessableResult criterionId ruleVersionId hash (.gate defect citation) := by
  unfold TriggerContent.fixed at h
  split at h
  · cases h
  · exact h

variable (sha256 db) in
/-- The row that has the key says this. -/
inductive Describes : TriggerSource → TriggerContent → Prop
  | varianceFinding {f : VarianceFinding} (h : f ∈ db.varianceFindings.rows) : Describes (.varianceFinding f.id) (f.content sha256)
  | gateFailure {g : GateFailure} (h : g ∈ db.gateFailures.rows) : Describes (.gateFailure g.id) (g.content sha256)
  | chargeFact {c : ChargeFact} (h : c ∈ db.chargeFacts.rows) : Describes (.chargeFact c.id) c.content
  | coverageMarker {m : CoverageMarker} (h : m ∈ db.coverageMarkers.rows) : Describes (.coverageMarker m.id) m.content

theorem Describes.congr {db' : DiscoveryDb} {source : TriggerSource} {content : TriggerContent}
    (h : Describes sha256 db' source content) (db : DiscoveryDb) (hrecord : db'.toAuditRecord = db.toAuditRecord)
    (hfindings : db'.varianceFindings = db.varianceFindings) : Describes sha256 db source content := by
  cases h with
  | varianceFinding hf => exact .varianceFinding (hfindings ▸ hf)
  | gateFailure hg => exact .gateFailure (hrecord ▸ hg)
  | chargeFact hc => exact .chargeFact (hrecord ▸ hc)
  | coverageMarker hm => exact .coverageMarker (hrecord ▸ hm)

/-- A key has one content. -/
theorem Describes.unique {source : TriggerSource} {content content' : TriggerContent} (h : Describes sha256 db source content)
    (h' : Describes sha256 db source content') : content = content' := by
  cases h with
  | varianceFinding hf =>
    generalize hsource : TriggerSource.varianceFinding _ = source at h'
    cases h' with
    | varianceFinding hf' => rw [KeyedTable.eq_of_key hf hf' (TriggerSource.varianceFinding.inj hsource)]
    | _ => cases hsource
  | gateFailure hg =>
    generalize hsource : TriggerSource.gateFailure _ = source at h'
    cases h' with
    | gateFailure hg' => rw [KeyedTable.eq_of_key hg hg' (TriggerSource.gateFailure.inj hsource)]
    | _ => cases hsource
  | chargeFact hc =>
    generalize hsource : TriggerSource.chargeFact _ = source at h'
    cases h' with
    | chargeFact hc' => rw [KeyedTable.eq_of_key hc hc' (TriggerSource.chargeFact.inj hsource)]
    | _ => cases hsource
  | coverageMarker hm =>
    generalize hsource : TriggerSource.coverageMarker _ = source at h'
    cases h' with
    | coverageMarker hm' => rw [KeyedTable.eq_of_key hm hm' (TriggerSource.coverageMarker.inj hsource)]
    | _ => cases hsource

variable {run : AuditRun} {detector : Detector}

theorem mem_unassessableSources {p : TriggerSource × TriggerContent} : p ∈ unassessableSources sha256 db auditRunId ↔
    (∃ g ∈ unassessableGates db auditRunId, p = (.gateFailure g.id, g.content sha256)) ∨
      ∃ f ∈ unassessableFindings db auditRunId, p = (.varianceFinding f.id, f.content sha256) := by
  simp [unassessableSources, eq_comm]

theorem sources_describe {p : TriggerSource × TriggerContent} (hp : p ∈ detector.sources sha256 db run) :
    Describes sha256 db p.1 p.2 := by
  cases detector with
  | unassessable =>
    rcases mem_unassessableSources.mp hp with ⟨g, hg, rfl⟩ | ⟨f, hf, rfl⟩
    · exact .gateFailure (List.mem_of_mem_filter hg)
    · exact .varianceFinding (List.mem_of_mem_filter hf)
  | unknownChargeCode =>
    obtain ⟨c, hc, rfl⟩ := List.mem_map.mp hp
    exact .chargeFact (List.mem_of_mem_filter ((List.mem_insertionSort _).mp hc))
  | suspiciousPass =>
    obtain ⟨m, hm, rfl⟩ := List.mem_map.mp hp
    exact .coverageMarker (List.mem_of_mem_filter ((List.mem_insertionSort _).mp hm))

/-- Sorted rows of a table have different keys. -/
theorem nodup_sorted {α : Type} {key : α → String} (t : KeyedTable α key) (p : α → Bool) (r : α → α → Prop) [DecidableRel r]
    (source : String → TriggerSource) (hsource : Function.Injective source) :
    (((t.rows.filter p).insertionSort r).map fun a => source (key a)).Nodup := by
  have hnodup : ((t.rows.filter p).map fun a => source (key a)).Nodup :=
    t.nodup_filter_map (fun a => source (key a)) p fun _ _ _ _ _ _ h => hsource h
  exact ((List.perm_insertionSort r _).map _).nodup_iff.mpr hnodup

theorem sources_nodup : ((detector.sources sha256 db run).map Prod.fst).Nodup := by
  cases detector with
  | unassessable =>
    rw [Detector.sources, unassessableSources, List.map_append, List.map_map, List.map_map]
    refine List.Nodup.append ?_ ?_ ?_
    · exact nodup_sorted db.gateFailures _ _ .gateFailure fun _ _ h => TriggerSource.gateFailure.inj h
    · exact nodup_sorted db.varianceFindings _ _ .varianceFinding fun _ _ h => TriggerSource.varianceFinding.inj h
    · intro source hgate hfinding
      obtain ⟨g, -, rfl⟩ := List.mem_map.mp hgate
      obtain ⟨f, -, hsource⟩ := List.mem_map.mp hfinding
      cases hsource
  | unknownChargeCode =>
    rw [Detector.sources, unknownChargeCodeSources, List.map_map]
    exact nodup_sorted db.chargeFacts _ _ .chargeFact fun _ _ h => TriggerSource.chargeFact.inj h
  | suspiciousPass =>
    rw [Detector.sources, suspiciousPassSources, List.map_map]
    exact nodup_sorted db.coverageMarkers _ _ .coverageMarker fun _ _ h => TriggerSource.coverageMarker.inj h

/-! ## When a finding moves -/

/-- The rows after a finding has moved. -/
def DiscoveryDb.move (db : DiscoveryDb) (findingId : String) (toStatus : VarianceStatus) : DiscoveryDb :=
  { db with varianceFindings :=
      db.varianceFindings.update (.withStatus findingId toStatus) (VarianceFinding.withStatus_id findingId toStatus) }

variable {findingId : String} {toStatus : VarianceStatus}

theorem VarianceFinding.withStatus_content (f : VarianceFinding) :
    ((f.withStatus findingId toStatus).content sha256).fixed = (f.content sha256).fixed := by
  unfold VarianceFinding.withStatus
  split
  · rfl
  · rfl

/-- What is fixed stays. -/
theorem Describes.fixed_move {source : TriggerSource} {content : TriggerContent}
    (h : Describes sha256 (db.move findingId toStatus) source content) :
    ∃ before, Describes sha256 db source before ∧ before.fixed = content.fixed := by
  cases h with
  | varianceFinding hf =>
    obtain ⟨before, hbefore, rfl⟩ := List.mem_map.mp hf
    rw [VarianceFinding.withStatus_id]
    exact ⟨before.content sha256, .varianceFinding hbefore, (VarianceFinding.withStatus_content before).symm⟩
  | gateFailure hg => exact ⟨_, .gateFailure hg, rfl⟩
  | chargeFact hc => exact ⟨_, .chargeFact hc, rfl⟩
  | coverageMarker hm => exact ⟨_, .coverageMarker hm, rfl⟩

/-- The keys of the sources stay, in their order. -/
theorem sources_move : (detector.sources sha256 (db.move findingId toStatus) run).map Prod.fst =
    (detector.sources sha256 db run).map Prod.fst := by
  cases detector with
  | unassessable =>
    have hfindings : unassessableFindings (db.move findingId toStatus) run.id =
        (unassessableFindings db run.id).map (.withStatus findingId toStatus) := by
      rw [unassessableFindings, DiscoveryDb.move, KeyedTable.update, List.filter_map, unassessableFindings]
      congr 1
      refine List.filter_congr fun f _ => ?_
      unfold VarianceFinding.withStatus
      simp only [Function.comp_apply]
      split
      · rfl
      · rfl
    have hsorted : (unassessableFindings (db.move findingId toStatus) run.id).insertionSort (fun a b => a.id ≤ b.id) =
        ((unassessableFindings db run.id).insertionSort fun a b => a.id ≤ b.id).map (.withStatus findingId toStatus) := by
      rw [hfindings]
      refine (List.map_insertionSort _ _ _ _ fun a _ b _ => ?_).symm
      rw [VarianceFinding.withStatus_id, VarianceFinding.withStatus_id]
    simp only [Detector.sources, unassessableSources, List.map_append, List.map_map]
    rw [hsorted, List.map_map]
    congr 1
    refine List.map_congr_left fun f _ => ?_
    exact congrArg TriggerSource.varianceFinding (VarianceFinding.withStatus_id findingId toStatus f)
  | unknownChargeCode => rfl
  | suspiciousPass => rfl

end Discovery
