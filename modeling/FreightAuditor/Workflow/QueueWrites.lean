import FreightAuditor.Workflow.Queue

/- What writes do to the queue, and what they leave alone.

   A write acts on each row by itself (`WorkItem.write`), so a transaction's writes act on a row
   by `WorkItem.evolve`, whatever the rows around it (`view_rows`). A row that a statement saw
   under its lock is committed as it saw it (`WorkSince.item`), so what the statement found of it
   holds of the committed row under the transaction's own writes (`WorkSince.evolve_eq`). -/
namespace WorkQueue

open ReadCommitted

/-! ## Rows -/

/-- The columns that no statement updates. -/
structure SameItem (row row' : WorkItem) : Prop where
  id : row'.id = row.id
  accountId : row'.accountId = row.accountId
  workflowInstanceId : row'.workflowInstanceId = row.workflowInstanceId
  commandId : row'.commandId = row.commandId
  dedupeKey : row'.dedupeKey = row.dedupeKey
  typeKey : row'.typeKey = row.typeKey
  payload : row'.payload = row.payload
  due : row'.due = row.due

theorem SameItem.refl (row : WorkItem) : SameItem row row := ⟨rfl, rfl, rfl, rfl, rfl, rfl, rfl, rfl⟩

theorem SameItem.trans {a b c : WorkItem} (h : SameItem a b) (h' : SameItem b c) : SameItem a c :=
  ⟨h'.id.trans h.id, h'.accountId.trans h.accountId, h'.workflowInstanceId.trans h.workflowInstanceId,
    h'.commandId.trans h.commandId, h'.dedupeKey.trans h.dedupeKey, h'.typeKey.trans h.typeKey,
    h'.payload.trans h.payload, h'.due.trans h.due⟩

theorem WorkItem.reclaim_same (row : WorkItem) : SameItem row row.reclaim := ⟨rfl, rfl, rfl, rfl, rfl, rfl, rfl, rfl⟩

theorem WorkItem.claim_same (now : ℕ) (row : WorkItem) : SameItem row (row.claim now) :=
  ⟨rfl, rfl, rfl, rfl, rfl, rfl, rfl, rfl⟩

theorem WorkItem.complete_same (row : WorkItem) : SameItem row row.complete :=
  ⟨rfl, rfl, rfl, rfl, rfl, rfl, rfl, rfl⟩

theorem WorkItem.write_same (table : WorkTable) (row : WorkItem) (w : WorkWrite) :
    SameItem row (row.write table w) := by
  cases w with
  | reclaim table' ids =>
    simp only [WorkItem.write]
    split
    · exact row.reclaim_same
    · exact .refl row
  | claim table' ids now =>
    simp only [WorkItem.write]
    split
    · exact row.claim_same now
    · exact .refl row
  | complete table' id =>
    simp only [WorkItem.write]
    split
    · exact row.complete_same
    · exact .refl row
  | _ => exact .refl row

/-- A row after the writes. -/
def WorkItem.evolve (table : WorkTable) (row : WorkItem) (writes : List WorkWrite) : WorkItem :=
  writes.foldl (WorkItem.write table) row

@[simp] theorem WorkItem.evolve_nil (table : WorkTable) (row : WorkItem) : row.evolve table [] = row := rfl

@[simp] theorem WorkItem.evolve_cons (table : WorkTable) (row : WorkItem) (w : WorkWrite) (ws : List WorkWrite) :
    row.evolve table (w :: ws) = (row.write table w).evolve table ws := rfl

theorem WorkItem.evolve_append (table : WorkTable) (row : WorkItem) (ws ws' : List WorkWrite) :
    row.evolve table (ws ++ ws') = (row.evolve table ws).evolve table ws' := List.foldl_append

theorem WorkItem.evolve_same (table : WorkTable) (ws : List WorkWrite) :
    ∀ row : WorkItem, SameItem row (row.evolve table ws) := by
  induction ws with
  | nil => exact .refl
  | cons w ws ih => exact fun row => (row.write_same table w).trans (ih _)

@[simp] theorem WorkItem.evolve_id (table : WorkTable) (row : WorkItem) (ws : List WorkWrite) :
    (row.evolve table ws).id = row.id := (row.evolve_same table ws).id

/-- Writes that pass a row by. -/
theorem WorkItem.evolve_eq_self {table : WorkTable} {ws : List WorkWrite} {row : WorkItem}
    (h : ∀ w ∈ ws, row.write table w = row) : row.evolve table ws = row := by
  induction ws with
  | nil => rfl
  | cons w ws ih =>
    rw [WorkItem.evolve_cons, h w List.mem_cons_self]
    exact ih (fun v hv => h v (List.mem_cons_of_mem _ hv))

/-- The rows the writes add, as later writes leave them. -/
def added (table : WorkTable) : List WorkWrite → List WorkItem
  | [] => []
  | .insertItem table' row :: ws => if table' = table then row.evolve table ws :: added table ws else added table ws
  | _ :: ws => added table ws

theorem view_rows (table : WorkTable) (ws : List WorkWrite) :
    ∀ db : WorkDb, (view applyWork db ws).rows table =
      (db.rows table).map (fun row => row.evolve table ws) ++ added table ws := by
  induction ws with
  | nil => exact fun db => by simp [added]
  | cons w ws ih =>
    intro db
    rw [view_cons, ih]
    cases w with
    | insertItem table' row =>
      by_cases ht : table' = table
      · subst ht
        simp [applyWork, added, WorkItem.write]
      · simp [applyWork, added, WorkItem.write, ht, Ne.symm ht]
    | sendJob job =>
      simp only [applyWork]
      split <;> simp [added, WorkItem.write]
    | _ => simp [applyWork, added, WorkItem.write]

theorem mem_added {table : WorkTable} {ws : List WorkWrite} {row : WorkItem} (h : row ∈ added table ws) :
    ∃ new ws', .insertItem table new ∈ ws ∧ (∀ w ∈ ws', w ∈ ws) ∧ row = new.evolve table ws' := by
  induction ws with
  | nil => cases h
  | cons w ws ih =>
    have hrest (h : row ∈ added table ws) : ∃ new ws', .insertItem table new ∈ w :: ws ∧
        (∀ v ∈ ws', v ∈ w :: ws) ∧ row = new.evolve table ws' := by
      obtain ⟨new, ws', hnew, hsub, he⟩ := ih h
      exact ⟨new, ws', List.mem_cons_of_mem _ hnew, fun v hv => List.mem_cons_of_mem _ (hsub v hv), he⟩
    cases w with
    | insertItem table' new =>
      rw [added] at h
      split at h
      · rename_i ht
        rcases List.mem_cons.mp h with rfl | h
        · exact ⟨new, ws, ht ▸ List.mem_cons_self, fun v hv => List.mem_cons_of_mem _ hv, rfl⟩
        · exact hrest h
      · exact hrest h
    | _ => exact hrest h

theorem added_eq_nil {table : WorkTable} {ws : List WorkWrite} (h : ∀ w ∈ ws, w.inserted? = none) :
    added table ws = [] := by
  rw [List.eq_nil_iff_forall_not_mem]
  intro row hrow
  obtain ⟨new, ws', hnew, -, -⟩ := mem_added hrow
  cases h _ hnew

/-! ## What other transactions may change -/

/-- The lock under which a write is made. -/
def WorkWrite.CoveredBy (locks : List WorkLock) : WorkWrite → Prop
  | .insertItem table row => .itemPkey table row.id ∈ locks
  | .reclaim table ids => ∀ id ∈ ids, .item table id ∈ locks
  | .claim table ids _ => ∀ id ∈ ids, .item table id ∈ locks
  | .complete table id => .item table id ∈ locks
  | _ => True

theorem WorkWrite.CoveredBy.mono {locks locks' : List WorkLock} (h : ∀ k ∈ locks, k ∈ locks') {w : WorkWrite}
    (hw : w.CoveredBy locks) : w.CoveredBy locks' := by
  cases w with
  | insertItem table row => exact h _ hw
  | reclaim table ids => exact fun id hid => h _ (hw id hid)
  | claim table ids now => exact fun id hid => h _ (hw id hid)
  | complete table id => exact h _ hw
  | _ => trivial

/-- Locked rows stay as they are, and no id is taken whose key is locked. -/
structure WorkSince (held : List WorkLock) (s db : WorkDb) : Prop where
  item : ∀ table, ∀ row ∈ s.rows table, .item table row.id ∈ held → row ∈ db.rows table
  pkey : ∀ table id, .itemPkey table id ∈ held → id ∈ (db.rows table).map WorkItem.id →
    id ∈ (s.rows table).map WorkItem.id

theorem WorkSince.refl (held : List WorkLock) (db : WorkDb) : WorkSince held db db :=
  ⟨fun _ _ h _ => h, fun _ _ _ h => h⟩

/-- A write under a lock passes by a row that another transaction has locked. -/
theorem WorkItem.write_eq_self {held locks : List WorkLock} (hdisjoint : ∀ k ∈ held, k ∉ locks) {w : WorkWrite}
    (hw : w.CoveredBy locks) {table : WorkTable} {row : WorkItem} (hrow : .item table row.id ∈ held) :
    row.write table w = row := by
  have hfree : .item table row.id ∉ locks := hdisjoint _ hrow
  cases w with
  | reclaim table' ids => exact if_neg fun ⟨ht, hid⟩ => hfree (ht ▸ hw _ hid)
  | claim table' ids now => exact if_neg fun ⟨ht, hid⟩ => hfree (ht ▸ hw _ hid)
  | complete table' id => exact if_neg fun ⟨ht, hid⟩ => hfree (hid ▸ ht ▸ hw)
  | _ => rfl

/-- What other transactions write under their locks keeps to it. -/
theorem WorkSince.view {held locks : List WorkLock} {s db : WorkDb} {ws : List WorkWrite} (h : WorkSince held s db)
    (hws : ∀ w ∈ ws, w.CoveredBy locks) (hdisjoint : ∀ k ∈ held, k ∉ locks) :
    WorkSince held s (view applyWork db ws) := by
  refine ⟨fun table row hrow hheld => ?_, fun table id hid hmem => ?_⟩
  · rw [view_rows]
    have hself : row.evolve table ws = row :=
      WorkItem.evolve_eq_self fun w hw => WorkItem.write_eq_self hdisjoint (hws w hw) hheld
    exact List.mem_append_left _ (List.mem_map.mpr ⟨row, h.item table row hrow hheld, hself⟩)
  · rw [view_rows, List.map_append, List.mem_append] at hmem
    rcases hmem with hmem | hmem
    · refine h.pkey table id hid ?_
      simpa [Function.comp_def] using hmem
    · -- the key of a new row is not free
      obtain ⟨row, hrow, hrowId⟩ := List.mem_map.mp hmem
      obtain ⟨new, ws', hnew, -, he⟩ := mem_added hrow
      have hnewId : new.id = id := by rw [← hrowId, he, WorkItem.evolve_id]
      exact absurd (hnewId ▸ hws _ hnew) (hdisjoint _ hid)

/-- What a statement finds of a row it locks is the committed row under the transaction's own writes. -/
theorem WorkSince.evolve_eq {held : List WorkLock} {s db : WorkDb} (h : WorkSince held s db)
    {ws : List WorkWrite} (hws : ∀ w ∈ ws, w.inserted? = none) {table : WorkTable} {found : WorkItem}
    (hfound : found ∈ (ReadCommitted.view applyWork s ws).rows table) (hheld : .item table found.id ∈ held) :
    ∃ row ∈ db.rows table, row.evolve table ws = found := by
  rw [view_rows, added_eq_nil hws, List.append_nil] at hfound
  obtain ⟨row, hrow, rfl⟩ := List.mem_map.mp hfound
  rw [WorkItem.evolve_id] at hheld
  exact ⟨row, h.item table row hrow hheld, rfl⟩

/-! ## Jobs -/

/-- The job a write sends. -/
def WorkWrite.sent? : WorkWrite → Option Job
  | .sendJob job => some job
  | _ => none

/-- Jobs with ids of their own are all sent. -/
theorem view_jobs {ws : List WorkWrite} :
    ∀ {db : WorkDb}, ((db.jobs ++ ws.filterMap WorkWrite.sent?).map Job.id).Nodup →
      (view applyWork db ws).jobs = db.jobs ++ ws.filterMap WorkWrite.sent? := by
  induction ws with
  | nil => exact fun _ => by simp
  | cons w ws ih =>
    intro db h
    cases w with
    | sendJob job =>
      have hnew : db.jobs.any (·.id == job.id) = false := by
        rw [List.any_eq_false]
        intro other hother heq
        simp only [List.filterMap_cons, WorkWrite.sent?, List.map_append, List.map_cons, List.nodup_append] at h
        exact h.2.2 _ (List.mem_map_of_mem hother) _ List.mem_cons_self (eq_of_beq heq)
      have happly : applyWork db (.sendJob job) = { db with jobs := db.jobs ++ [job] } := by
        simp [applyWork, hnew]
      rw [view_cons, happly, ih (by simpa [WorkWrite.sent?] using h)]
      simp [WorkWrite.sent?]
    | _ => exact ih h

theorem view_jobs_eq {ws : List WorkWrite} (h : ∀ w ∈ ws, w.sent? = none) (db : WorkDb) :
    (view applyWork db ws).jobs = db.jobs := by
  induction ws generalizing db with
  | nil => rfl
  | cons w ws ih =>
    rw [view_cons, ih (fun v hv => h v (List.mem_cons_of_mem _ hv))]
    cases w with
    | sendJob job => cases h _ List.mem_cons_self
    | _ => rfl

end WorkQueue
