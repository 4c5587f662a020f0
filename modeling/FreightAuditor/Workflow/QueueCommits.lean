import FreightAuditor.Workflow.ScanTick

/- What each call has done by the time it commits.

   A scan keeps to `Scanned`. Every other call adds new items, and completes at most one that
   is claimed or done already (`Advanced`). Their locks cover what they write, which is all that
   other transactions rely on (`WorkSince`). -/
namespace WorkQueue

open Claims (AuditEvent)
open ReadCommitted ExceptOk

/-! ## New items -/

theorem FreshItem.mono {log log' : WorkLog} (h : log'.Extends log) {table : WorkTable} {row : WorkItem}
    (hrow : FreshItem log table row) : FreshItem log' table row := by
  obtain ⟨p, hp, hlocked, hfree⟩ := hrow.free
  exact ⟨hrow.status, hrow.attempts, hrow.trimmed, ⟨p, h.seen.subset hp, hlocked, hfree⟩, h.held.subset hrow.held⟩

theorem OnlyAdds.empty : OnlyAdds .empty := ⟨fun _ h => (by cases h), List.nodup_nil⟩

/-- A write outside the queue. -/
def WorkWrite.IsAside : WorkWrite → Prop
  | .insertAuditEvent _ => True
  | .effect _ => True
  | _ => False

/-- A transaction that goes on outside the queue. -/
theorem OnlyAdds.extend {log log' : WorkLog} (h : OnlyAdds log) (hext : log'.Extends log) {ws : List WorkWrite}
    (hws : log'.writes = log.writes ++ ws) (haside : ∀ w ∈ ws, w.IsAside) : OnlyAdds log' := by
  refine ⟨fun w hw => ?_, ?_⟩
  · rw [hws, List.mem_append] at hw
    rcases hw with hw | hw
    · have hkind := h.kinds w hw
      cases w with
      | insertItem table row => exact hkind.mono hext
      | _ => exact hkind
    · have hkind := haside w hw
      cases w with
      | insertItem table row => exact hkind.elim
      | _ => exact hkind
  · have hnone : ws.filterMap WorkWrite.inserted? = [] := by
      rw [List.filterMap_eq_nil_iff]
      intro w hw
      have hkind := haside w hw
      cases w with
      | insertItem table row => exact hkind.elim
      | _ => rfl
    rw [hws, List.filterMap_append, hnone, List.append_nil]
    exact h.nodup

theorem OnlyAdds.read {log : WorkLog} (h : OnlyAdds log) (s : WorkDb) (locks : List WorkLock) :
    OnlyAdds (log.add s locks []) :=
  h.extend (Log.add_extends ..) rfl (by simp)

theorem OnlyAdds.asides {log log' : WorkLog} (h : OnlyAdds log) (hasides : Asides log log') : OnlyAdds log' := by
  obtain ⟨hext, es, hw⟩ := hasides
  refine h.extend hext hw fun w hmem => ?_
  obtain ⟨e, -, rfl⟩ := List.mem_map.mp hmem
  trivial

theorem OnlyAdds.effect {log : WorkLog} (h : OnlyAdds log) (s : WorkDb) (locks : List WorkLock) (text : String) :
    OnlyAdds (log.add s locks [.effect text]) :=
  h.extend (Log.add_extends ..) rfl fun w hw => by
    obtain rfl := List.mem_singleton.mp hw
    trivial

theorem id_mem_view {db : WorkDb} {ws : List WorkWrite} {table : WorkTable} {id : ℕ}
    (h : id ∈ (db.rows table).map WorkItem.id) : id ∈ ((view applyWork db ws).rows table).map WorkItem.id := by
  rw [view_rows, List.map_append, List.map_map]
  refine List.mem_append_left _ ?_
  simpa [Function.comp_def] using h

/-- The new rows by their ids. -/
theorem added_ids (table : WorkTable) (ws : List WorkWrite) : (added table ws).map WorkItem.id =
    ((ws.filterMap WorkWrite.inserted?).filter (·.1 = table)).map Prod.snd := by
  induction ws with
  | nil => rfl
  | cons w ws ih =>
    cases w with
    | insertItem table' row =>
      rw [added, List.filterMap_cons_some (f := WorkWrite.inserted?) (b := (table', row.id)) rfl, List.filter_cons]
      by_cases ht : table' = table
      · simp [ht, ih]
      · simp [ht, ih]
    | _ => exact ih

theorem OnlyAdds.insert {log : WorkLog} (h : OnlyAdds log) {s : WorkDb} {locks : List WorkLock} {table : WorkTable}
    {row : WorkItem} (hkey : .itemPkey table row.id ∈ locks)
    (hfree : ((view applyWork s log.writes).rows table).any (·.id == row.id) = false) (hstatus : row.status = .pending)
    (hattempts : row.attempts = 0) (htrim : JsText.trim row.dedupeKey = row.dedupeKey) :
    OnlyAdds (log.add s locks [.insertItem table row]) := by
  have hnotin : row.id ∉ ((view applyWork s log.writes).rows table).map WorkItem.id := by
    intro hmem
    obtain ⟨other, hother, hid⟩ := List.mem_map.mp hmem
    exact List.any_eq_false.mp hfree other hother (by rw [hid]; exact beq_self_eq_true _)
  refine ⟨fun w hw => ?_, ?_⟩
  · rcases List.mem_append.mp hw with hw | hw
    · have hkind := h.kinds w hw
      cases w with
      | insertItem table' row' => exact hkind.mono (Log.add_extends ..)
      | _ => exact hkind
    · obtain rfl := List.mem_singleton.mp hw
      exact ⟨hstatus, hattempts, htrim,
        ⟨_, List.mem_append_right _ List.mem_cons_self, List.mem_append_right _ hkey, fun hs => hnotin (id_mem_view hs)⟩,
        List.mem_append_right _ hkey⟩
  · simp only [Log.add, List.filterMap_append]
    rw [List.filterMap_cons_some (f := WorkWrite.inserted?) (b := (table, row.id)) rfl, List.filterMap_nil, List.nodup_append]
    refine ⟨h.nodup, List.nodup_singleton _, fun a ha b hb hab => hnotin ?_⟩
    -- a key inserted before is among the rows the statement saw
    have hmem : row.id ∈ (added table log.writes).map WorkItem.id := by
      rw [added_ids]
      refine List.mem_map.mpr ⟨(table, row.id), List.mem_filter.mpr ⟨?_, by simp⟩, rfl⟩
      rw [← List.mem_singleton.mp hb, ← hab]
      exact ha
    rw [view_rows, List.map_append]
    exact List.mem_append_right _ hmem

theorem recordOutboxMessage_onlyAdds {sha256 : String → ℕ} {tx startedAt : ℕ} {input : RecordOutboxMessageInput}
    {log log' : WorkLog} (h : OnlyAdds log)
    (hrun : Ends applyWork (recordOutboxMessage sha256 tx startedAt input) log ⟨⟩ log') : OnlyAdds log' := by
  simp only [recordOutboxMessage, ends_bind, ends_ofExcept, ends_query] at hrun
  obtain ⟨parsed, l₁, ⟨hparsed, rfl⟩, known, l₂, ⟨s₁, -, rfl⟩, hrun⟩ := hrun
  split at hrun
  · exact (ends_fail hrun).elim
  simp only [ends_bind, ends_exec] at hrun
  obtain ⟨inserted, l₃, ⟨s₂, ws, hinsert, rfl⟩, hrun⟩ := hrun
  split at hinsert
  · obtain ⟨rfl, rfl⟩ := Prod.mk.inj (Except.ok.inj hinsert)
    obtain ⟨-, rfl⟩ := hrun
    exact (h.read _ _).read _ _
  split at hinsert
  · cases hinsert
  split at hinsert
  · cases hinsert
  rename_i hfree
  obtain ⟨rfl, rfl⟩ := Prod.mk.inj (Except.ok.inj hinsert)
  simp only [if_true, ends_bind] at hrun
  obtain ⟨created, l₄, haudit, -, rfl⟩ := hrun
  have htrim : JsText.trim parsed.dedupeKey = parsed.dedupeKey := by
    simp only [parseRecordInput] at hparsed
    split at hparsed
    · cases hparsed
    · rw [← Except.ok.inj hparsed]
      exact JsText.trim_trim _
  refine OnlyAdds.asides ?_ (writeAuditEvent_asides haudit)
  exact (h.read s₁ []).insert (by simp) (by simpa using hfree) rfl rfl htrim

theorem trim_empty : JsText.trim "" = "" := by decide

theorem scheduleWorkflowCommand_onlyAdds {sha256 : String → ℕ} {tx startedAt : ℕ}
    {input : ScheduleWorkflowCommandInput} {log log' : WorkLog} (h : OnlyAdds log)
    (hrun : Ends applyWork (scheduleWorkflowCommand sha256 tx startedAt input) log ⟨⟩ log') : OnlyAdds log' := by
  unfold scheduleWorkflowCommand at hrun
  split at hrun
  · exact (ends_fail hrun).elim
  simp only [ends_bind, ends_query] at hrun
  obtain ⟨known, l₁, ⟨s₁, -, rfl⟩, hrun⟩ := hrun
  split at hrun
  · exact (ends_fail hrun).elim
  simp only [ends_bind, ends_exec] at hrun
  obtain ⟨inserted, l₂, ⟨s₂, ws, hinsert, rfl⟩, hrun⟩ := hrun
  split at hinsert
  · obtain ⟨rfl, rfl⟩ := Prod.mk.inj (Except.ok.inj hinsert)
    obtain ⟨-, rfl⟩ := hrun
    exact (h.read _ _).read _ _
  split at hinsert
  · cases hinsert
  rename_i hfree
  obtain ⟨rfl, rfl⟩ := Prod.mk.inj (Except.ok.inj hinsert)
  simp only [if_true, ends_bind] at hrun
  obtain ⟨created, l₃, haudit, -, rfl⟩ := hrun
  refine OnlyAdds.asides ?_ (writeAuditEvent_asides haudit)
  exact (h.read s₁ []).insert (by simp) (by simpa using hfree) rfl rfl trim_empty

/-! ## A delivery -/

/-- What a finished delivery did: the handler's statements, the completion under the rows it then saw,
and audit events. -/
structure DeliverRun (registry : WorkTable → String → Option Handler) (table : WorkTable) (tx startedAt : ℕ)
    (data : JobPayload) (log : WorkLog) where
  parsed : JobPayload
  handler : Handler
  mid : WorkLog
  saw : WorkDb
  events : List AuditEvent
  parse_ok : parseJobPayload data = .ok parsed
  registered : registry table parsed.typeKey = some handler
  ran : Ends applyWork (handler.run (buildCtx table parsed) tx startedAt) .empty ⟨⟩ mid
  seen : ∃ held rest, log.seen = mid.seen ++ (saw, held) :: rest ∧
    ((findCompletable table parsed (view applyWork saw mid.writes)).isSome → .item table parsed.itemId ∈ held)
  extends_mid : log.Extends mid
  locked : (findCompletable table parsed (view applyWork saw mid.writes)).isSome →
    .item table parsed.itemId ∈ log.held
  writes : log.writes = mid.writes ++
    ((if (findCompletable table parsed (view applyWork saw mid.writes)).isSome then [.complete table parsed.itemId]
      else []) ++ events.map .insertAuditEvent)

theorem complete_ends {sha256 : String → ℕ} {table : WorkTable} {startedAt : ℕ} {data : JobPayload} {found : Bool}
    {log log' : WorkLog} (h : Ends applyWork (complete sha256 table startedAt data) log found log') :
    ∃ s locks, ((findCompletable table data (view applyWork s log.writes)).isSome → .item table data.itemId ∈ locks) ∧
      Asides (log.add s locks
        (if (findCompletable table data (view applyWork s log.writes)).isSome then [.complete table data.itemId] else []))
        log' := by
  simp only [complete, ends_bind, ends_exec] at h
  obtain ⟨found', mid, ⟨s, ws, hf, rfl⟩, h⟩ := h
  obtain ⟨rfl, rfl⟩ := Prod.mk.inj (Except.ok.inj hf)
  refine ⟨s, if (findCompletable table data (view applyWork s log.writes)).isSome then [.item table data.itemId] else [],
    fun hsome => by simp [hsome], ?_⟩
  split at h
  · simp only [ends_bind] at h
    obtain ⟨created, l₂, haudit, -, rfl⟩ := h
    exact writeAuditEvent_asides haudit
  · obtain ⟨-, rfl⟩ := h
    exact .refl _

theorem deliver_ends {sha256 : String → ℕ} {registry : WorkTable → String → Option Handler} {table : WorkTable}
    {tx startedAt : ℕ} {data : JobPayload} {log : WorkLog}
    (h : Ends applyWork (handleJob sha256 registry table tx startedAt data) .empty ⟨⟩ log) :
    Nonempty (DeliverRun registry table tx startedAt data log) := by
  simp only [handleJob, ends_bind, ends_ofExcept] at h
  obtain ⟨parsed, l₀, ⟨hparse, rfl⟩, h⟩ := h
  cases hreg : registry table parsed.typeKey with
  | none => simp [dispatch, hreg] at h
  | some handler =>
    simp only [dispatch, hreg, ends_bind] at h
    obtain ⟨⟨⟩, mid, hran, found, l₂, hcomplete, created, l₃, haudit, -, rfl⟩ := h
    obtain ⟨s, locks, hlock, hasides⟩ := complete_ends hcomplete
    obtain ⟨hext, events, hw⟩ := hasides.trans (writeAuditEvent_asides haudit)
    obtain ⟨rest, hrest⟩ := hext.seen
    exact ⟨{
      parsed
      handler
      mid
      saw := s
      events
      parse_ok := hparse
      registered := hreg
      ran := hran
      seen := ⟨mid.held ++ locks, rest, by rw [← hrest]; simp [Log.add], fun hsome =>
        List.mem_append_right _ (hlock hsome)⟩
      extends_mid := hext.trans (Log.add_extends ..)
      locked := fun hsome => hext.held.subset (List.mem_append_right _ (hlock hsome))
      writes := by rw [hw, Log.add, List.append_assoc] }⟩

/-! ## What it comes to for the committed rows -/

/-- New items, and at most one completed that was claimed or done. -/
structure Advanced (db : WorkDb) (writes : List WorkWrite) : Prop where
  rows : ∀ table, ∀ row ∈ db.rows table, row.evolve table writes = row ∨
    (row.status = .claimed ∨ row.status = .done) ∧ row.evolve table writes = row.complete
  new : ∀ table, ∀ row ∈ added table writes, row.status = .pending ∧ row.attempts = 0 ∧
    JsText.trim row.dedupeKey = row.dedupeKey ∧ row.id ∉ (db.rows table).map WorkItem.id
  nodup : ∀ table, ((added table writes).map WorkItem.id).Nodup
  jobs : ∀ w ∈ writes, w.sent? = none

section advanced

variable {db : WorkDb} {log : WorkLog}

theorem OnlyAdds.passes (h : OnlyAdds log) (table : WorkTable) (row : WorkItem) :
    ∀ w ∈ log.writes, row.write table w = row := by
  intro w hw
  have hkind := h.kinds w hw
  cases w with
  | reclaim table' ids => exact hkind.elim
  | claim table' ids now => exact hkind.elim
  | complete table' id => exact hkind.elim
  | _ => rfl

/-- A new item's key is still free when the transaction commits. -/
theorem FreshItem.not_mem {table : WorkTable} {row : WorkItem} (h : FreshItem log table row)
    (hseen : ∀ p ∈ log.seen, WorkSince p.2 p.1 db) : row.id ∉ (db.rows table).map WorkItem.id := by
  obtain ⟨p, hp, hlocked, hfree⟩ := h.free
  exact fun hmem => hfree ((hseen p hp).pkey table row.id hlocked hmem)

theorem OnlyAdds.mem_added (h : OnlyAdds log) {table : WorkTable} {row : WorkItem}
    (hrow : row ∈ added table log.writes) : FreshItem log table row := by
  obtain ⟨new, ws', hnew, hsub, rfl⟩ := WorkQueue.mem_added hrow
  rw [WorkItem.evolve_eq_self fun w hw => h.passes table new w (hsub w hw)]
  exact h.kinds _ hnew

theorem OnlyAdds.nodup_added (h : OnlyAdds log) (table : WorkTable) :
    ((added table log.writes).map WorkItem.id).Nodup := by
  rw [added_ids]
  refine (List.Nodup.filter _ h.nodup).map_on fun a ha b hb hab => ?_
  exact Prod.ext ((of_decide_eq_true (List.mem_filter.mp ha).2).trans
    (of_decide_eq_true (List.mem_filter.mp hb).2).symm) hab

theorem OnlyAdds.not_sent (h : OnlyAdds log) : ∀ w ∈ log.writes, w.sent? = none := by
  intro w hw
  have hkind := h.kinds w hw
  cases w with
  | sendJob job => exact hkind.elim
  | _ => rfl

theorem OnlyAdds.covered (h : OnlyAdds log) : ∀ w ∈ log.writes, w.CoveredBy log.held := by
  intro w hw
  have hkind := h.kinds w hw
  cases w with
  | insertItem table row => exact hkind.held
  | insertAuditEvent row => trivial
  | effect text => trivial
  | _ => exact hkind.elim

theorem OnlyAdds.advanced (h : OnlyAdds log) (hseen : ∀ p ∈ log.seen, WorkSince p.2 p.1 db) :
    Advanced db log.writes where
  rows := fun table row _ => .inl (WorkItem.evolve_eq_self (h.passes table row))
  new := fun _ _ hrow =>
    have hfresh := h.mem_added hrow
    ⟨hfresh.status, hfresh.attempts, hfresh.trimmed, hfresh.not_mem hseen⟩
  nodup := h.nodup_added
  jobs := h.not_sent

theorem findCompletable_some {table : WorkTable} {data : JobPayload} {row : WorkItem}
    (h : findCompletable table data db = some row) : row ∈ db.rows table ∧ row.accountId = data.clientId ∧
      row.id = data.itemId ∧ (row.status = .claimed ∨ row.status = .done) := by
  have hcond := List.find?_some h
  simp only [Bool.and_eq_true, Bool.or_eq_true, beq_iff_eq] at hcond
  exact ⟨List.mem_of_find?_eq_some h, hcond.1.1, hcond.1.2, hcond.2⟩

variable {registry : WorkTable → String → Option Handler} {table : WorkTable} {tx startedAt : ℕ} {data : JobPayload}

theorem DeliverRun.onlyAdds (run : DeliverRun registry table tx startedAt data log) : OnlyAdds run.mid :=
  run.handler.onlyAdds _ _ _ _ run.ran

/-- The row a delivery completes is committed as the completion found it. -/
theorem DeliverRun.found (run : DeliverRun registry table tx startedAt data log)
    (hseen : ∀ p ∈ log.seen, WorkSince p.2 p.1 db)
    (hsome : (findCompletable table run.parsed (view applyWork run.saw run.mid.writes)).isSome) :
    ∃ row ∈ db.rows table, row.accountId = run.parsed.clientId ∧ row.id = run.parsed.itemId ∧
      (row.status = .claimed ∨ row.status = .done) := by
  obtain ⟨row, hfind⟩ := Option.isSome_iff_exists.mp hsome
  obtain ⟨hrow, haccount, hid, hstatus⟩ := findCompletable_some hfind
  rw [view_rows, List.mem_append] at hrow
  rcases hrow with hrow | hrow
  · obtain ⟨row', hrow', rfl⟩ := List.mem_map.mp hrow
    rw [WorkItem.evolve_eq_self (run.onlyAdds.passes table row')] at haccount hid hstatus
    obtain ⟨held, rest, hlogSeen, hlock⟩ := run.seen
    have hmem : (run.saw, held) ∈ log.seen := by
      rw [hlogSeen]
      exact List.mem_append_right _ List.mem_cons_self
    exact ⟨row', (hseen _ hmem).item table row' hrow' (hid ▸ hlock hsome), haccount, hid, hstatus⟩
  · -- an item the handler has just added is pending
    have hpending := (run.onlyAdds.mem_added hrow).status
    rcases hstatus with h | h <;> rw [h] at hpending <;> cases hpending

theorem DeliverRun.covered (run : DeliverRun registry table tx startedAt data log) :
    ∀ w ∈ log.writes, w.CoveredBy log.held := by
  intro w hw
  rw [run.writes, List.mem_append, List.mem_append] at hw
  rcases hw with hw | hw | hw
  · exact (run.onlyAdds.covered w hw).mono fun k hk => run.extends_mid.held.subset hk
  · split at hw
    · rename_i hsome
      obtain rfl := List.mem_singleton.mp hw
      exact run.locked hsome
    · cases hw
  · obtain ⟨e, -, rfl⟩ := List.mem_map.mp hw
    trivial

/-- A delivery completes the row it found, and passes the others by. -/
theorem DeliverRun.evolve (run : DeliverRun registry table tx startedAt data log) (table' : WorkTable)
    (row : WorkItem) : row.evolve table' log.writes =
      if (findCompletable table run.parsed (view applyWork run.saw run.mid.writes)).isSome = true ∧
        table = table' ∧ row.id = run.parsed.itemId then row.complete else row := by
  have hevents (row : WorkItem) : row.evolve table' (run.events.map .insertAuditEvent) = row :=
    WorkItem.evolve_eq_self fun w hw => by
      obtain ⟨e, -, rfl⟩ := List.mem_map.mp hw
      rfl
  rw [run.writes, WorkItem.evolve_append, WorkItem.evolve_append, hevents,
    WorkItem.evolve_eq_self (run.onlyAdds.passes table' row)]
  by_cases hsome : (findCompletable table run.parsed (view applyWork run.saw run.mid.writes)).isSome = true
  · simp only [hsome, if_true, true_and, WorkItem.evolve_cons, WorkItem.evolve_nil, WorkItem.write]
  · simp [hsome]

theorem DeliverRun.advanced (run : DeliverRun registry table tx startedAt data log) (hkeyed : Keyed db)
    (hseen : ∀ p ∈ log.seen, WorkSince p.2 p.1 db) : Advanced db log.writes := by
  have hinserted : log.writes.filterMap WorkWrite.inserted? = run.mid.writes.filterMap WorkWrite.inserted? := by
    rw [run.writes, List.filterMap_append, List.filterMap_append]
    split <;> simp [WorkWrite.inserted?]
  have hmid : ∀ p ∈ run.mid.seen, WorkSince p.2 p.1 db := fun p hp => hseen p (run.extends_mid.seen.subset hp)
  refine ⟨fun table' row hrow => ?_, fun table' row hrow => ?_, fun table' => ?_, fun w hw => ?_⟩
  · rw [run.evolve]
    split
    · rename_i hcond
      obtain ⟨hsome, rfl, hid⟩ := hcond
      obtain ⟨found, hfound, -, hfoundId, hstatus⟩ := run.found hseen hsome
      obtain rfl := hkeyed.eq_of_id hrow hfound (hid.trans hfoundId.symm)
      exact .inr ⟨hstatus, rfl⟩
    · exact .inl rfl
  · obtain ⟨new, ws', hnew, hsub, rfl⟩ := mem_added hrow
    have hnew' : .insertItem table' new ∈ run.mid.writes := by
      rw [run.writes, List.mem_append, List.mem_append] at hnew
      rcases hnew with hnew | hnew | hnew
      · exact hnew
      · split at hnew <;> simp at hnew
      · simp at hnew
    have hfresh : FreshItem run.mid table' new := run.onlyAdds.kinds _ hnew'
    have hfree := hfresh.not_mem hmid
    -- no later write is to a new row: what is completed was there before
    have hself : new.evolve table' ws' = new := WorkItem.evolve_eq_self fun w hw => by
      have hw' := hsub w hw
      rw [run.writes, List.mem_append, List.mem_append] at hw'
      rcases hw' with hw' | hw' | hw'
      · exact run.onlyAdds.passes table' new w hw'
      · split at hw'
        · rename_i hsome
          obtain rfl := List.mem_singleton.mp hw'
          obtain ⟨found, hfound, -, hfoundId, -⟩ := run.found hseen hsome
          refine if_neg fun ⟨ht, hid⟩ => hfree ?_
          exact List.mem_map.mpr ⟨found, ht ▸ hfound, hfoundId.trans hid.symm⟩
        · cases hw'
      · obtain ⟨e, -, rfl⟩ := List.mem_map.mp hw'
        rfl
    rw [hself]
    exact ⟨hfresh.status, hfresh.attempts, hfresh.trimmed, hfree⟩
  · rw [added_ids, hinserted, ← added_ids]
    exact run.onlyAdds.nodup_added table'
  · rw [run.writes, List.mem_append, List.mem_append] at hw
    rcases hw with hw | hw | hw
    · exact run.onlyAdds.not_sent w hw
    · split at hw
      · obtain rfl := List.mem_singleton.mp hw
        rfl
      · cases hw
    · obtain ⟨e, -, rfl⟩ := List.mem_map.mp hw
      rfl

end advanced

/-! ## Commits -/

section commits

variable {sha256 : String → ℕ} {hash : String → String} {registry : WorkTable → String → Option Handler}
  {db : WorkDb} {call : WorkCall} {tx startedAt : ℕ} {log : WorkLog}

/-- The effect of a call on the committed rows: a scan's, or an advance. -/
def Effect (hash : String → String) (db : WorkDb) (log : WorkLog) : WorkCall → Prop
  | .scan table data _ => Scanned hash table data.requestedAt db log
  | _ => Advanced db log.writes

/-- A finished call, as it bears on the committed rows. -/
theorem work_effect (hkeyed : Keyed db)
    (h : Ends applyWork ((workSystem sha256 hash registry).body call tx startedAt) .empty ⟨⟩ log)
    (hseen : ∀ p ∈ log.seen, WorkSince p.2 p.1 db ∧ Keyed p.1) : Effect hash db log call := by
  have hsince : ∀ p ∈ log.seen, WorkSince p.2 p.1 db := fun p hp => (hseen p hp).1
  cases call with
  | schedule input => exact (scheduleWorkflowCommand_onlyAdds .empty h).advanced hsince
  | record input => exact (recordOutboxMessage_onlyAdds .empty h).advanced hsince
  | scan table data skips => exact scanned_ends hkeyed h hseen
  | deliver table data =>
    obtain ⟨run⟩ := deliver_ends h
    exact run.advanced hkeyed hsince

theorem work_covered (hkeyed : Keyed db)
    (h : Ends applyWork ((workSystem sha256 hash registry).body call tx startedAt) .empty ⟨⟩ log)
    (hseen : ∀ p ∈ log.seen, WorkSince p.2 p.1 db ∧ Keyed p.1) : ∀ w ∈ log.writes, w.CoveredBy log.held := by
  cases call with
  | schedule input => exact (scheduleWorkflowCommand_onlyAdds .empty h).covered
  | record input => exact (recordOutboxMessage_onlyAdds .empty h).covered
  | scan table data skips => exact (scanned_ends hkeyed h hseen).covered
  | deliver table data =>
    obtain ⟨run⟩ := deliver_ends h
    exact run.covered

theorem Scanned.added (h : Scanned hash table now db log) (table' : WorkTable) : added table' log.writes = [] :=
  added_eq_nil h.not_inserted

theorem Effect.keyed (hkeyed : Keyed db) (h : Effect hash db log call) : Keyed (view applyWork db log.writes) := by
  have hadvanced (h : Advanced db log.writes) : Keyed (view applyWork db log.writes) := by
    intro table
    rw [view_rows, List.map_append, List.nodup_append]
    refine ⟨by simpa [Function.comp_def] using hkeyed table, h.nodup table, fun a ha b hb hab => ?_⟩
    obtain ⟨row, hrow, rfl⟩ := List.mem_map.mp hb
    refine (h.new table row hrow).2.2.2 (hab ▸ ?_)
    simpa [Function.comp_def] using ha
  cases call with
  | scan table data skips => exact hkeyed.view (Scanned.not_inserted h)
  | _ => exact hadvanced h

end commits

end WorkQueue
