import FreightAuditor.Workflow.QueueWrites

/- What one scan tick does to the committed rows, whatever runs beside it.

   The tick goes client by client, first over stale claims, then over due rows. Each pick
   locks its rows, so what it found holds of the committed rows (`WorkSince.evolve_eq`), and
   the rest of the tick keeps to what the invariant `Scanned` says: a row is reclaimed if it
   was stale, claimed if it was then due, and each claim has its job. -/
namespace WorkQueue

open Claims (AuditEvent)
open ReadCommitted ExceptOk

/-- The primary keys. -/
def Keyed (db : WorkDb) : Prop := ∀ table, ((db.rows table).map WorkItem.id).Nodup

theorem Keyed.eq_of_id {db : WorkDb} (h : Keyed db) {table : WorkTable} {a b : WorkItem} (ha : a ∈ db.rows table)
    (hb : b ∈ db.rows table) (hid : a.id = b.id) : a = b := List.inj_on_of_nodup_map (h table) ha hb hid

theorem Keyed.view {db : WorkDb} (h : Keyed db) {ws : List WorkWrite} (hws : ∀ w ∈ ws, w.inserted? = none) :
    Keyed (ReadCommitted.view applyWork db ws) := by
  intro table
  rw [view_rows, added_eq_nil hws, List.append_nil, List.map_map]
  simpa [Function.comp_def] using h table

/-! ## Picks -/

section pick

variable {rows : List WorkItem} {clientId : ℕ} {eligible : WorkItem → Bool} {key : WorkItem → ℕ} {skip : List ℕ}

theorem mem_pick {row : WorkItem} (h : row ∈ pick rows clientId eligible key skip) :
    row ∈ rows ∧ row.accountId = clientId ∧ eligible row = true := by
  have hsort := List.mem_of_mem_take h
  rw [List.mem_insertionSort, List.mem_filter] at hsort
  obtain ⟨hrow, hcond⟩ := hsort
  simp only [Bool.and_eq_true, beq_iff_eq] at hcond
  exact ⟨hrow, hcond.1.1, hcond.1.2⟩

theorem pick_nodup (h : (rows.map WorkItem.id).Nodup) :
    ((pick rows clientId eligible key skip).map WorkItem.id).Nodup := by
  have hfilter : ((rows.filter fun row => row.accountId == clientId && eligible row &&
      !skip.contains row.id).map WorkItem.id).Nodup := h.sublist (List.filter_sublist.map _)
  have hsort := ((List.perm_insertionSort (fun a b => key a ≤ key b) _).map WorkItem.id).nodup_iff.mpr hfilter
  exact hsort.sublist ((List.take_sublist _ _).map _)

/-- Where no more rows are eligible than the limit, a pick that passes none over takes them all. -/
theorem mem_pick_of_le {row : WorkItem} (hrow : row ∈ rows) (hclient : row.accountId = clientId)
    (heligible : eligible row = true)
    (hcount : (rows.filter fun row => row.accountId == clientId && eligible row).length ≤ batchLimit) :
    row ∈ pick rows clientId eligible key [] := by
  simp only [pick, List.contains_nil, Bool.not_false, Bool.and_true]
  rw [List.take_of_length_le (by rwa [List.length_insertionSort]), List.mem_insertionSort, List.mem_filter]
  simp [hrow, hclient, heligible]

end pick

/-! ## One client -/

/-- What a pick locked and wrote, with what followed it. -/
structure ScanUnit (table : WorkTable) (log log' : WorkLog) (picked : List WorkItem) (s : WorkDb)
    (writes : List WorkWrite) : Prop where
  seen : (s, log.held ++ itemLocks table picked) ∈ log'.seen
  held : ∀ k ∈ log.held ++ itemLocks table picked, k ∈ log'.held
  writes : log'.writes = log.writes ++ writes

/-- The log went on with audit events alone. -/
def Asides (log log' : WorkLog) : Prop :=
  log'.Extends log ∧ ∃ es : List AuditEvent, log'.writes = log.writes ++ es.map .insertAuditEvent

theorem Asides.refl (log : WorkLog) : Asides log log :=
  ⟨⟨List.prefix_rfl, List.prefix_rfl, List.prefix_rfl⟩, [], (List.append_nil _).symm⟩

theorem Asides.trans {a b c : WorkLog} (h : Asides a b) (h' : Asides b c) : Asides a c := by
  obtain ⟨hext, es, hw⟩ := h
  obtain ⟨hext', es', hw'⟩ := h'
  exact ⟨hext'.trans hext, es ++ es', by rw [hw', hw, List.map_append, List.append_assoc]⟩

theorem writeAuditEvent_asides {startedAt id : ℕ} {value : Claims.AuditEventEvidence} {created : Bool}
    {log log' : WorkLog} (h : Ends applyWork (writeAuditEvent startedAt id value) log created log') :
    Asides log log' := by
  refine ⟨h.extends, ?_⟩
  simp only [writeAuditEvent, ends_exec] at h
  obtain ⟨s, ws, hf, rfl⟩ := h
  split at hf
  · obtain ⟨-, rfl⟩ := Prod.mk.inj (Except.ok.inj hf)
    exact ⟨[_], rfl⟩
  · split at hf
    · obtain ⟨-, rfl⟩ := Prod.mk.inj (Except.ok.inj hf)
      exact ⟨[], rfl⟩
    · cases hf

theorem reclaimClient_ends {sha256 : String → ℕ} {table : WorkTable} {now startedAt clientId : ℕ}
    {skip : ℕ → List ℕ} {log log' : WorkLog}
    (h : Ends applyWork (reclaimClient sha256 table now startedAt skip clientId) log ⟨⟩ log') :
    ∃ s, ∃ es : List AuditEvent,
      ScanUnit table log log' (pickStale table clientId now (skip clientId) (view applyWork s log.writes)) s
        (.reclaim table ((pickStale table clientId now (skip clientId) (view applyWork s log.writes)).map WorkItem.id) ::
          es.map .insertAuditEvent) := by
  simp only [reclaimClient, reclaimStaleClaims, ends_bind, ends_exec] at h
  obtain ⟨rows, mid, ⟨s, ws, hf, rfl⟩, h⟩ := h
  obtain ⟨-, rfl⟩ := Prod.mk.inj (Except.ok.inj hf)
  have hrecord (row : WorkItem) (l l' : WorkLog)
      (hrun : Ends applyWork (recordReclaimed sha256 table startedAt clientId row) l ⟨⟩ l') : Asides l l' := by
    obtain ⟨created, mid, haudit, -, rfl⟩ := ends_bind.mp hrun
    exact writeAuditEvent_asides haudit
  obtain ⟨hext, es, hw⟩ := Ends.forM (P := fun _ l => Asides (log.add s _ _) l) (Q := fun _ => True)
    (fun _ row _ l l' hP hrun _ => hP.trans (hrecord row l l' hrun)) (.refl _) h (fun _ _ => trivial)
  refine ⟨s, es, hext.seen.subset (List.mem_append_right _ List.mem_cons_self), fun k hk => hext.held.subset hk, ?_⟩
  rw [hw, Log.add, List.append_assoc]
  rfl

/-- The job sent for a claimed row. -/
structure IsJobOf (hash : String → String) (table : WorkTable) (now : ℕ) (row : WorkItem) (job : Job) : Prop where
  data : parseJobPayload (row.jobPayload table now) = .ok job.data
  queue : job.table = table
  id : job.id = deterministicJobId hash table.jobName job.data.clientId
    ((row.jobIdKey table).getD job.data.idempotencyKey)

theorem enqueueInTransaction_ends {hash : String → String} {table : WorkTable} {clientId now : ℕ} {row : WorkItem}
    {log log' : WorkLog}
    (h : Ends applyWork (enqueueInTransaction hash table clientId (row.jobPayload table now) (row.jobIdKey table))
      log ⟨⟩ log') :
    log'.Extends log ∧ ∃ job, IsJobOf hash table now row job ∧ log'.writes = log.writes ++ [.sendJob job] := by
  refine ⟨h.extends, ?_⟩
  simp only [enqueueInTransaction, ends_bind, ends_ofExcept] at h
  obtain ⟨data, mid, ⟨hdata, rfl⟩, h⟩ := h
  split at h
  · exact (ends_fail h).elim
  · simp only [sendJob, ends_bind, ends_exec] at h
    obtain ⟨sent, mid', ⟨s, ws, hf, rfl⟩, -, rfl⟩ := h
    obtain ⟨-, rfl⟩ := Prod.mk.inj (Except.ok.inj hf)
    exact ⟨_, ⟨hdata, rfl, rfl⟩, rfl⟩

theorem scheduleClient_ends {hash : String → String} {table : WorkTable} {now clientId : ℕ} {skip : ℕ → List ℕ}
    {log log' : WorkLog} (h : Ends applyWork (scheduleClient hash table now skip clientId) log ⟨⟩ log') :
    ∃ s, ∃ jobs : List Job, ScanUnit table log log' (pickDue table clientId now (skip clientId) (view applyWork s log.writes)) s
        (.claim table ((pickDue table clientId now (skip clientId) (view applyWork s log.writes)).map WorkItem.id) now ::
          jobs.map .sendJob) ∧
      List.Forall₂ (IsJobOf hash table now)
        ((pickDue table clientId now (skip clientId) (view applyWork s log.writes)).map (WorkItem.claim now)) jobs := by
  simp only [scheduleClient, claimDue, ends_bind, ends_exec] at h
  obtain ⟨rows, mid, ⟨s, ws, hf, rfl⟩, h⟩ := h
  obtain ⟨rfl, rfl⟩ := Prod.mk.inj (Except.ok.inj hf)
  -- the jobs sent so far are those of the rows done
  obtain ⟨hext, jobs, hjobs, hw⟩ := Ends.forM
    (P := fun done l => l.Extends (log.add s _ _) ∧ ∃ jobs, List.Forall₂ (IsJobOf hash table now) done jobs ∧
      l.writes = (log.add s _ _).writes ++ jobs.map .sendJob) (Q := fun _ => True)
    (fun done row _ l l' hdone hrun _ => by
      obtain ⟨hext, jobs, hjobs, hw⟩ := hdone
      obtain ⟨hext', job, hjob, hw'⟩ := enqueueInTransaction_ends hrun
      refine ⟨hext'.trans hext, jobs ++ [job], List.rel_append hjobs (.cons hjob .nil), ?_⟩
      rw [hw', hw, List.map_append, List.append_assoc]
      rfl)
    ⟨⟨List.prefix_rfl, List.prefix_rfl, List.prefix_rfl⟩, [], .nil, (List.append_nil _).symm⟩ h
    (fun _ _ => trivial)
  refine ⟨s, jobs, ⟨hext.seen.subset (List.mem_append_right _ List.mem_cons_self),
    fun k hk => hext.held.subset hk, ?_⟩, hjobs⟩
  rw [hw, Log.add, List.append_assoc]
  rfl

/-! ## The invariant of a tick -/

/-- A stale claim returned or given up, or the row left alone. -/
def RowReclaimed (now : ℕ) (row row' : WorkItem) : Prop := row' = row ∨ row.isStale now = true ∧ row' = row.reclaim

/-- A due row claimed, possibly after it was reclaimed. -/
def RowClaimed (now : ℕ) (row row' : WorkItem) : Prop :=
  ∃ mid, RowReclaimed now row mid ∧ mid.isDue now = true ∧ row' = mid.claim now

/-- The writes of a tick. -/
def WorkWrite.OfScan (table : WorkTable) (now : ℕ) : WorkWrite → Prop
  | .reclaim table' _ => table' = table
  | .claim table' _ now' => table' = table ∧ now' = now
  | .sendJob _ => True
  | .insertAuditEvent _ => True
  | _ => False

/-- The jobs sent. -/
def sentJobs (log : WorkLog) : List Job := log.writes.filterMap WorkWrite.sent?

/-- What a tick has done so far to the committed rows. -/
structure Scanned (hash : String → String) (table : WorkTable) (now : ℕ) (db : WorkDb) (log : WorkLog) : Prop where
  kinds : ∀ w ∈ log.writes, w.OfScan table now
  covered : ∀ w ∈ log.writes, w.CoveredBy log.held
  rows : ∀ row ∈ db.rows table,
    RowReclaimed now row (row.evolve table log.writes) ∨ RowClaimed now row (row.evolve table log.writes)
  sent : ∀ job ∈ sentJobs log, ∃ row ∈ db.rows table, RowClaimed now row (row.evolve table log.writes) ∧
    IsJobOf hash table now (row.evolve table log.writes) job
  claimed : ∀ row ∈ db.rows table, RowClaimed now row (row.evolve table log.writes) →
    ∃ job ∈ sentJobs log, IsJobOf hash table now (row.evolve table log.writes) job
  items : ((sentJobs log).map (·.data.itemId)).Nodup

theorem WorkItem.isStale_iff {now : ℕ} {row : WorkItem} :
    row.isStale now = true ↔ row.status = .claimed ∧ ∃ at_, row.claimedAt = some at_ ∧ at_ + staleAfter ≤ now := by
  simp [WorkItem.isStale, Option.any_eq_true]

theorem WorkItem.isDue_iff {now : ℕ} {row : WorkItem} :
    row.isDue now = true ↔ row.status = .pending ∧ row.due ≤ now := by
  simp [WorkItem.isDue]

theorem WorkItem.reclaim_status_ne (row : WorkItem) : row.reclaim.status ≠ .claimed := by
  simp only [WorkItem.reclaim]
  split <;> simp

theorem RowClaimed.status {now : ℕ} {row row' : WorkItem} (h : RowClaimed now row row') : row'.status = .claimed := by
  obtain ⟨mid, -, -, rfl⟩ := h
  rfl

theorem RowReclaimed.attempts {now : ℕ} {row row' : WorkItem} (h : RowReclaimed now row row') :
    row'.attempts = row.attempts := by
  obtain rfl | ⟨-, rfl⟩ := h <;> rfl

theorem RowClaimed.attempts {now : ℕ} {row row' : WorkItem} (h : RowClaimed now row row') :
    row'.attempts = row.attempts + 1 := by
  obtain ⟨mid, hmid, -, rfl⟩ := h
  rw [← hmid.attempts]
  rfl

/-- A claim of this tick is not stale. -/
theorem RowClaimed.not_stale {now : ℕ} {row row' : WorkItem} (h : RowClaimed now row row') : row'.isStale now ≠ true := by
  obtain ⟨mid, -, -, rfl⟩ := h
  intro hstale
  obtain ⟨-, at_, hat, hle⟩ := WorkItem.isStale_iff.mp hstale
  obtain rfl := Option.some.inj hat
  simp only [staleAfter] at hle
  omega

theorem RowReclaimed.trans_stale {now : ℕ} {row mid : WorkItem} (h : RowReclaimed now row mid)
    (hstale : mid.isStale now = true) : RowReclaimed now row mid.reclaim := by
  obtain rfl | ⟨-, rfl⟩ := h
  · exact .inr ⟨hstale, rfl⟩
  · exact absurd (WorkItem.isStale_iff.mp hstale).1 row.reclaim_status_ne

theorem parseJobPayload_ok {data data' : JobPayload} (h : parseJobPayload data = .ok data') :
    data' = { data with idempotencyKey := JsText.trim data.idempotencyKey } := by
  simp only [parseJobPayload] at h
  split at h
  · cases h
  · exact (Except.ok.inj h).symm

theorem IsJobOf.itemId {hash : String → String} {table : WorkTable} {now : ℕ} {row : WorkItem} {job : Job}
    (h : IsJobOf hash table now row job) : job.data.itemId = row.id := by
  rw [parseJobPayload_ok h.data]
  rfl

theorem exists_of_forall₂_right {α β : Type} {R : α → β → Prop} {as : List α} {bs : List β}
    (h : List.Forall₂ R as bs) {b : β} (hb : b ∈ bs) : ∃ a ∈ as, R a b := by
  induction h with
  | nil => cases hb
  | cons hab _ ih =>
    rcases List.mem_cons.mp hb with rfl | hb
    · exact ⟨_, List.mem_cons_self, hab⟩
    · obtain ⟨a, ha, hr⟩ := ih hb
      exact ⟨a, List.mem_cons_of_mem _ ha, hr⟩

theorem exists_of_forall₂_left {α β : Type} {R : α → β → Prop} {as : List α} {bs : List β}
    (h : List.Forall₂ R as bs) {a : α} (ha : a ∈ as) : ∃ b ∈ bs, R a b :=
  exists_of_forall₂_right h.flip ha

theorem map_eq_map_of_forall₂ {α β γ : Type} {R : α → β → Prop} {f : α → γ} {g : β → γ} {as : List α} {bs : List β}
    (h : List.Forall₂ R as bs) (hR : ∀ a b, R a b → f a = g b) : as.map f = bs.map g := by
  have hmap := List.forall₂_map_left_iff.mpr (List.forall₂_map_right_iff.mpr (h.imp hR))
  rwa [List.forall₂_eq_eq_eq] at hmap

section unit

variable {hash : String → String} {table : WorkTable} {now : ℕ} {db s : WorkDb} {log log' : WorkLog}
  {writes : List WorkWrite} {ids : List ℕ}

theorem Scanned.not_inserted (h : Scanned hash table now db log) : ∀ w ∈ log.writes, w.inserted? = none := by
  intro w hw
  have hkind := h.kinds w hw
  cases w with
  | insertItem table' row => exact hkind.elim
  | _ => rfl

/-- A picked row is a committed row under the writes made so far. -/
theorem Scanned.picked (h : Scanned hash table now db log) {picked : List WorkItem}
    (hunit : ScanUnit table log log' picked s writes) (hseen : ∀ p ∈ log'.seen, WorkSince p.2 p.1 db)
    {m : WorkItem} (hm : m ∈ picked) (hfound : m ∈ (view applyWork s log.writes).rows table) :
    ∃ row ∈ db.rows table, row.evolve table log.writes = m :=
  (hseen _ hunit.seen).evolve_eq h.not_inserted hfound
    (List.mem_append_right _ (List.mem_map_of_mem (f := fun row => WorkLock.item table row.id) hm))

/-- A committed row of a picked id is the picked row. -/
theorem Scanned.evolve_picked (h : Scanned hash table now db log) (hkeyed : Keyed db) {picked : List WorkItem}
    (hunit : ScanUnit table log log' picked s writes) (hseen : ∀ p ∈ log'.seen, WorkSince p.2 p.1 db)
    (hfound : ∀ m ∈ picked, m ∈ (view applyWork s log.writes).rows table) {row : WorkItem}
    (hrow : row ∈ db.rows table) (hid : row.id ∈ picked.map WorkItem.id) : row.evolve table log.writes ∈ picked := by
  obtain ⟨m, hm, hmid⟩ := List.mem_map.mp hid
  obtain ⟨row', hrow', rfl⟩ := h.picked hunit hseen hm (hfound m hm)
  rw [WorkItem.evolve_id] at hmid
  rwa [hkeyed.eq_of_id hrow hrow' hmid.symm]

/-- The locks of a unit cover what it picked. -/
theorem ScanUnit.covers {picked : List WorkItem} (hunit : ScanUnit table log log' picked s writes) :
    ∀ id ∈ picked.map WorkItem.id, .item table id ∈ log'.held := by
  intro id hid
  obtain ⟨m, hm, rfl⟩ := List.mem_map.mp hid
  exact hunit.held _ (List.mem_append_right _ (List.mem_map_of_mem (f := fun row => WorkLock.item table row.id) hm))

theorem ScanUnit.covered {picked : List WorkItem} (hunit : ScanUnit table log log' picked s writes)
    (hcovered : ∀ w ∈ log.writes, w.CoveredBy log.held) (hnew : ∀ w ∈ writes, w.CoveredBy log'.held) :
    ∀ w ∈ log'.writes, w.CoveredBy log'.held := by
  intro w hw
  rw [hunit.writes, List.mem_append] at hw
  rcases hw with hw | hw
  · exact (hcovered w hw).mono fun k hk => hunit.held k (List.mem_append_left _ hk)
  · exact hnew w hw

/-- A unit acts on the rows of the ids it picked. -/
theorem ScanUnit.evolve {picked : List WorkItem} {first : WorkWrite} {f : WorkItem → WorkItem}
    (hunit : ScanUnit table log log' picked s (first :: writes)) (row : WorkItem)
    (hfirst : ∀ row : WorkItem, row.write table first = if row.id ∈ picked.map WorkItem.id then f row else row)
    (hrest : ∀ w ∈ writes, ∀ row : WorkItem, row.write table w = row) :
    row.evolve table log'.writes =
      if row.id ∈ picked.map WorkItem.id then f (row.evolve table log.writes) else row.evolve table log.writes := by
  rw [hunit.writes, WorkItem.evolve_append, WorkItem.evolve_cons, WorkItem.evolve_eq_self fun w hw => hrest w hw _,
    hfirst, WorkItem.evolve_id]

theorem sentJobs_append (h : log'.writes = log.writes ++ writes) :
    sentJobs log' = sentJobs log ++ writes.filterMap WorkWrite.sent? := by
  rw [sentJobs, h, List.filterMap_append]
  rfl

/-- A unit of stale claims: the rows of these ids are reclaimed, and no job is sent. -/
theorem Scanned.reclaim (h : Scanned hash table now db log) (hkeyed : Keyed db) {clientId : ℕ} {skip : List ℕ}
    {es : List AuditEvent} (hseen : ∀ p ∈ log'.seen, WorkSince p.2 p.1 db)
    (hunit : ScanUnit table log log' (pickStale table clientId now skip (view applyWork s log.writes)) s
      (.reclaim table ((pickStale table clientId now skip (view applyWork s log.writes)).map WorkItem.id) ::
        es.map .insertAuditEvent)) :
    Scanned hash table now db log' ∧ ∀ row ∈ db.rows table, row.evolve table log'.writes =
      if row.id ∈ (pickStale table clientId now skip (view applyWork s log.writes)).map WorkItem.id
      then (row.evolve table log.writes).reclaim else row.evolve table log.writes := by
  set picked := pickStale table clientId now skip (view applyWork s log.writes) with hpicked
  have hfound : ∀ m ∈ picked, m ∈ (view applyWork s log.writes).rows table := fun m hm => (mem_pick hm).1
  have hevolve (row : WorkItem) := hunit.evolve (f := WorkItem.reclaim) row
      (fun _ => by simp only [WorkItem.write, true_and]) fun w hw row => by
    obtain ⟨e, -, rfl⟩ := List.mem_map.mp hw
    rfl
  have hstale {row : WorkItem} (hrow : row ∈ db.rows table) (hid : row.id ∈ picked.map WorkItem.id) :
      (row.evolve table log.writes).isStale now = true :=
    (mem_pick (h.evolve_picked hkeyed hunit hseen hfound hrow hid)).2.2
  -- a claim of this tick is not picked
  have hclaimed {row : WorkItem} (hrow : row ∈ db.rows table)
      (hrowClaimed : RowClaimed now row (row.evolve table log.writes)) :
      row.evolve table log'.writes = row.evolve table log.writes := by
    rw [hevolve, if_neg fun hid => hrowClaimed.not_stale (hstale hrow hid)]
  have hsent : sentJobs log' = sentJobs log := by
    rw [sentJobs_append hunit.writes]
    simp [WorkWrite.sent?]
  refine ⟨⟨fun w hw => ?_, hunit.covered h.covered fun w hw => ?_, fun row hrow => ?_, fun job hjob => ?_,
    fun row hrow hrowClaimed => ?_, by rw [hsent]; exact h.items⟩, fun row _ => hevolve row⟩
  · rw [hunit.writes, List.mem_append, List.mem_cons] at hw
    rcases hw with hw | rfl | hw
    · exact h.kinds w hw
    · rfl
    · obtain ⟨e, -, rfl⟩ := List.mem_map.mp hw
      trivial
  · rcases List.mem_cons.mp hw with rfl | hw
    · exact hunit.covers
    · obtain ⟨e, -, rfl⟩ := List.mem_map.mp hw
      trivial
  · rcases h.rows row hrow with hrec | hcl
    · rw [hevolve]
      split
      · rename_i hid
        exact .inl (hrec.trans_stale (hstale hrow hid))
      · exact .inl hrec
    · rw [hclaimed hrow hcl]
      exact .inr hcl
  · rw [hsent] at hjob
    obtain ⟨row, hrow, hcl, hof⟩ := h.sent job hjob
    have hsame := hclaimed hrow hcl
    exact ⟨row, hrow, hsame ▸ hcl, hsame ▸ hof⟩
  · have hsame : row.evolve table log'.writes = row.evolve table log.writes := by
      rw [hevolve]
      split
      · rename_i hid
        rw [hevolve, if_pos hid] at hrowClaimed
        exact absurd hrowClaimed.status (WorkItem.reclaim_status_ne _)
      · rfl
    rw [hsame] at hrowClaimed ⊢
    rw [hsent]
    exact h.claimed row hrow hrowClaimed

/-- A unit of due rows: the rows of these ids are claimed, and each has its job. -/
theorem Scanned.claim (h : Scanned hash table now db log) (hkeyed : Keyed db) {clientId : ℕ} {skip : List ℕ}
    {jobs : List Job} (hseen : ∀ p ∈ log'.seen, WorkSince p.2 p.1 db ∧ Keyed p.1)
    (hunit : ScanUnit table log log' (pickDue table clientId now skip (view applyWork s log.writes)) s
      (.claim table ((pickDue table clientId now skip (view applyWork s log.writes)).map WorkItem.id) now ::
        jobs.map .sendJob))
    (hjobs : List.Forall₂ (IsJobOf hash table now)
      ((pickDue table clientId now skip (view applyWork s log.writes)).map (WorkItem.claim now)) jobs) :
    Scanned hash table now db log' ∧ ∀ row ∈ db.rows table, row.evolve table log'.writes =
      if row.id ∈ (pickDue table clientId now skip (view applyWork s log.writes)).map WorkItem.id
      then (row.evolve table log.writes).claim now else row.evolve table log.writes := by
  set picked := pickDue table clientId now skip (view applyWork s log.writes) with hpicked
  have hsince : ∀ p ∈ log'.seen, WorkSince p.2 p.1 db := fun p hp => (hseen p hp).1
  have hfound : ∀ m ∈ picked, m ∈ (view applyWork s log.writes).rows table := fun m hm => (mem_pick hm).1
  have hevolve (row : WorkItem) := hunit.evolve (f := WorkItem.claim now) row
      (fun _ => by simp only [WorkItem.write, true_and]) fun w hw row => by
    obtain ⟨job, -, rfl⟩ := List.mem_map.mp hw
    rfl
  have hdue {row : WorkItem} (hrow : row ∈ db.rows table) (hid : row.id ∈ picked.map WorkItem.id) :
      (row.evolve table log.writes).isDue now = true :=
    (mem_pick (h.evolve_picked hkeyed hunit hsince hfound hrow hid)).2.2
  -- a claim of this tick is not picked
  have hclaimed {row : WorkItem} (hrow : row ∈ db.rows table)
      (hrowClaimed : RowClaimed now row (row.evolve table log.writes)) : row.id ∉ picked.map WorkItem.id := by
    intro hid
    have hpending := (WorkItem.isDue_iff.mp (hdue hrow hid)).1
    rw [hrowClaimed.status] at hpending
    cases hpending
  have hold {row : WorkItem} (hrow : row ∈ db.rows table)
      (hrowClaimed : RowClaimed now row (row.evolve table log.writes)) :
      row.evolve table log'.writes = row.evolve table log.writes := by
    rw [hevolve, if_neg (hclaimed hrow hrowClaimed)]
  have hnew {row : WorkItem} (hrow : row ∈ db.rows table) (hid : row.id ∈ picked.map WorkItem.id) :
      RowClaimed now row (row.evolve table log'.writes) := by
    rw [hevolve, if_pos hid]
    rcases h.rows row hrow with hrec | hcl
    · exact ⟨_, hrec, hdue hrow hid, rfl⟩
    · exact absurd hid (hclaimed hrow hcl)
  have hsent : sentJobs log' = sentJobs log ++ jobs := by
    rw [sentJobs_append hunit.writes, List.filterMap_cons_none rfl, List.filterMap_map]
    exact congrArg (sentJobs log ++ ·) List.filterMap_some
  refine ⟨⟨fun w hw => ?_, hunit.covered h.covered fun w hw => ?_, fun row hrow => ?_, fun job hjob => ?_,
    fun row hrow hrowClaimed => ?_, ?_⟩, fun row _ => hevolve row⟩
  · rw [hunit.writes, List.mem_append, List.mem_cons] at hw
    rcases hw with hw | rfl | hw
    · exact h.kinds w hw
    · exact ⟨rfl, rfl⟩
    · obtain ⟨job, -, rfl⟩ := List.mem_map.mp hw
      trivial
  · rcases List.mem_cons.mp hw with rfl | hw
    · exact hunit.covers
    · obtain ⟨job, -, rfl⟩ := List.mem_map.mp hw
      trivial
  · by_cases hid : row.id ∈ picked.map WorkItem.id
    · exact .inr (hnew hrow hid)
    · rw [hevolve, if_neg hid]
      exact h.rows row hrow
  · rw [hsent, List.mem_append] at hjob
    rcases hjob with hjob | hjob
    · obtain ⟨row, hrow, hcl, hof⟩ := h.sent job hjob
      have hsame := hold hrow hcl
      exact ⟨row, hrow, hsame ▸ hcl, hsame ▸ hof⟩
    · obtain ⟨claimed, hmem, hof⟩ := exists_of_forall₂_right hjobs hjob
      obtain ⟨m, hm, rfl⟩ := List.mem_map.mp hmem
      obtain ⟨row, hrow, rfl⟩ := h.picked hunit hsince hm (hfound m hm)
      have hid : row.id ∈ picked.map WorkItem.id := List.mem_map.mpr ⟨_, hm, row.evolve_id table _⟩
      refine ⟨row, hrow, hnew hrow hid, ?_⟩
      rwa [hevolve, if_pos hid]
  · by_cases hid : row.id ∈ picked.map WorkItem.id
    · have hm := h.evolve_picked hkeyed hunit hsince hfound hrow hid
      obtain ⟨job, hjob, hof⟩ := exists_of_forall₂_left hjobs (List.mem_map_of_mem (f := WorkItem.claim now) hm)
      refine ⟨job, hsent ▸ List.mem_append_right _ hjob, ?_⟩
      rwa [hevolve, if_pos hid]
    · rw [hevolve, if_neg hid] at hrowClaimed ⊢
      obtain ⟨job, hjob, hof⟩ := h.claimed row hrow hrowClaimed
      exact ⟨job, hsent ▸ List.mem_append_left _ hjob, hof⟩
  · have hitems : picked.map WorkItem.id = jobs.map (·.data.itemId) := by
      have hids := map_eq_map_of_forall₂ hjobs fun _ _ hof => hof.itemId.symm
      rw [List.map_map] at hids
      exact hids
    rw [hsent, List.map_append, ← hitems, List.nodup_append]
    refine ⟨h.items, ?_, fun a ha b hb hab => ?_⟩
    · exact pick_nodup ((hseen _ hunit.seen).2.view h.not_inserted table)
    · obtain ⟨job, hjob, rfl⟩ := List.mem_map.mp ha
      obtain ⟨row, hrow, hcl, hof⟩ := h.sent job hjob
      refine hclaimed hrow hcl ?_
      rw [← row.evolve_id table log.writes, ← hof.itemId, hab]
      exact hb

/-- A finished tick, as its two loops over the clients. -/
theorem scan_ends {sha256 : String → ℕ} {startedAt : ℕ} {data : ScanPayload} {skips : Skips}
    (h : Ends applyWork (handleReclaimAndScanJob sha256 hash table startedAt data skips) .empty ⟨⟩ log) :
    ∃ s s' mid, (s, []) ∈ log.seen ∧ (s', mid.held) ∈ log.seen ∧ (∀ p ∈ mid.seen, p ∈ log.seen) ∧
      Ends applyWork ((activeClients s).forM (reclaimClient sha256 table data.requestedAt startedAt skips.stale))
        (Log.empty.add s [] []) ⟨⟩ mid ∧
      Ends applyWork ((activeClients (view applyWork s' mid.writes)).forM
        (scheduleClient hash table data.requestedAt skips.due)) (mid.add s' [] []) ⟨⟩ log := by
  simp only [handleReclaimAndScanJob, reclaimStaleClaimsForActiveClients, scheduleJobs, ends_bind, ends_ofExcept,
    ends_query] at h
  obtain ⟨data', l₀, ⟨hdata, rfl⟩, ⟨⟩, mid, ⟨clients, l₁, ⟨s, rfl, rfl⟩, hstale⟩, clients', l₂, ⟨s', rfl, rfl⟩, hdue⟩ := h
  have hparsed : data' = data := by
    simp only [parseScanPayload] at hdata
    split at hdata
    · cases hdata
    · exact (Except.ok.inj hdata).symm
  subst hparsed
  have hmid : ∀ p ∈ (mid.add s' [] []).seen, p ∈ log.seen := fun p hp => hdue.extends.seen.subset hp
  refine ⟨s, s', mid, ?_, hmid _ ?_, fun p hp => hmid p (List.mem_append_left _ hp), hstale, hdue⟩
  · exact hmid _ (List.mem_append_left _ (hstale.extends.seen.subset (by simp [Log.add, Log.empty])))
  · simp [Log.add]

theorem Scanned.of_no_writes (h : log.writes = []) : Scanned hash table now db log := by
  have hsent : sentJobs log = [] := by
    rw [sentJobs, h]
    rfl
  refine ⟨by simp [h], by simp [h], fun row _ => .inl (.inl ?_), by simp [hsent], fun row _ hclaimed => ?_,
    by simp [hsent]⟩
  · rw [h, WorkItem.evolve_nil]
  · have hattempts := hclaimed.attempts
    rw [h, WorkItem.evolve_nil] at hattempts
    omega

/-- A read changes nothing. -/
theorem Scanned.read (h : Scanned hash table now db log) (s : WorkDb) : Scanned hash table now db (log.add s [] []) := by
  obtain ⟨hkinds, hcovered, hrows, hsent, hclaimed, hitems⟩ := h
  have hwrites : (log.add s [] []).writes = log.writes := List.append_nil _
  have hheld : (log.add s [] []).held = log.held := List.append_nil _
  have hjobs : sentJobs (log.add s [] []) = sentJobs log := by rw [sentJobs, hwrites, sentJobs]
  constructor <;> simpa only [hwrites, hheld, hjobs]

/-- A finished tick, as it bears on the committed rows. -/
theorem scanned_ends {sha256 : String → ℕ} {startedAt : ℕ} {data : ScanPayload} {skips : Skips} (hkeyed : Keyed db)
    (h : Ends applyWork (handleReclaimAndScanJob sha256 hash table startedAt data skips) .empty ⟨⟩ log)
    (hseen : ∀ p ∈ log.seen, WorkSince p.2 p.1 db ∧ Keyed p.1) :
    Scanned hash table data.requestedAt db log := by
  obtain ⟨s, s', mid, -, -, hsub, hstale, hdue⟩ := scan_ends h
  have hmid : Scanned hash table data.requestedAt db mid :=
    Ends.forM (P := fun _ l => Scanned hash table data.requestedAt db l) (Q := fun p => WorkSince p.2 p.1 db)
      (fun _ clientId _ l l' hl hrun hQ => by
        obtain ⟨s, es, hunit⟩ := reclaimClient_ends hrun
        exact (hl.reclaim hkeyed hQ hunit).1)
      (.of_no_writes rfl) hstale fun p hp => (hseen p (hsub p hp)).1
  exact Ends.forM (P := fun _ l => Scanned hash table data.requestedAt db l)
    (Q := fun p => WorkSince p.2 p.1 db ∧ Keyed p.1)
    (fun _ clientId _ l l' hl hrun hQ => by
      obtain ⟨s, jobs, hunit, hjobs⟩ := scheduleClient_ends hrun
      exact (hl.claim hkeyed hQ hunit hjobs).1)
    (hmid.read s') hdue hseen

end unit

end WorkQueue
