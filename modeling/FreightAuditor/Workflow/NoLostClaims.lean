import FreightAuditor.Workflow.QueueCommits

/- No claim is lost: each claim of a row sends one job, whose id no job had before.

   A job's id is the hash of its queue, tenant, row and attempt, and these can be read back from
   the text (`attemptJobId_inj`). Every job sent belongs to an attempt its row has had
   (`QueueGood.jobs`), and a claim takes the next attempt, so its job is new, and the send that
   would skip a known id never skips it. -/
namespace WorkQueue

open ReadCommitted JsText

/-! ## Job ids -/

theorem attemptKey_toList (table : WorkTable) (id attempts : ℕ) : (attemptKey table id attempts).toList =
    table.keyPrefix.toList ++ (Nat.toDigits 10 id ++ ':' :: Nat.toDigits 10 attempts) := by
  have hcolon : ":".toList = [':'] := by decide
  simp only [attemptKey, String.toList_append, Nat.toString_eq_ofList_toDigits, String.toList_ofList, hcolon,
    List.append_assoc, List.singleton_append]

theorem keyPrefix_head (table : WorkTable) : table.keyPrefix.toList.head? = some 'w' := by
  cases table <;> decide

theorem trim_attemptKey (table : WorkTable) (id attempts : ℕ) :
    JsText.trim (attemptKey table id attempts) = attemptKey table id attempts := by
  refine trim_eq_self (fun c hc => ?_) (fun c hc => ?_)
  · rw [attemptKey_toList, List.head?_append, keyPrefix_head] at hc
    obtain rfl := Option.some.inj hc
    decide
  · obtain ⟨d, hd⟩ := Option.isSome_iff_exists.mp
      (List.getLast?_isSome.mpr (Nat.toDigits_ne_nil (n := attempts) (b := 10)))
    rw [attemptKey_toList, List.getLast?_append, List.getLast?_append, List.getLast?_cons, hd] at hc
    obtain rfl := Option.some.inj hc
    exact isWhiteSpace_of_isDigit (Nat.isDigit_of_mem_toDigits (by decide) (by decide) (List.mem_of_getLast? hd))

/-- The id of the job sent when a row is claimed for the n-th time. -/
def attemptJobId (hash : String → String) (table : WorkTable) (accountId id attempts : ℕ) : String :=
  deterministicJobId hash table.jobName accountId (attemptKey table id attempts)

theorem jobName_inj {table table' : WorkTable} (h : table.jobName = table'.jobName) : table = table' := by
  cases table <;> cases table' <;> first | rfl | exact absurd h (by decide)

theorem attemptJobId_inj {hash : String → String} (hhash : Function.Injective hash) {table table' : WorkTable}
    {accountId accountId' id id' attempts attempts' : ℕ}
    (h : attemptJobId hash table accountId id attempts = attemptJobId hash table' accountId' id' attempts') :
    table = table' ∧ id = id' ∧ attempts = attempts' := by
  have htext := congrArg String.toList (hhash h)
  have hnul : "\x00".toList = ['\x00'] := by decide
  have hname (table : WorkTable) : '\x00' ∉ table.jobName.toList := by cases table <;> decide
  simp only [String.toList_append, hnul, List.append_assoc, List.singleton_append, attemptKey_toList,
    Nat.toString_eq_ofList_toDigits, String.toList_ofList] at htext
  obtain ⟨hnames, hrest⟩ := append_delimiter_inj (hname table) (hname table') htext
  obtain rfl := jobName_inj (String.toList_inj.mp hnames)
  obtain ⟨-, hrest⟩ := append_delimiter_inj (not_mem_toDigits (by decide) _) (not_mem_toDigits (by decide) _) hrest
  obtain ⟨hid, hattempts⟩ := append_delimiter_inj (not_mem_toDigits (by decide) _) (not_mem_toDigits (by decide) _)
    (List.append_cancel_left hrest)
  exact ⟨rfl, toDigits_injective hid, toDigits_injective hattempts⟩

theorem IsJobOf.id_eq {hash : String → String} {table : WorkTable} {now : ℕ} {row : WorkItem} {job : Job}
    (h : IsJobOf hash table now row job) : job.id = attemptJobId hash table row.accountId row.id row.attempts := by
  rw [h.id, parseJobPayload_ok h.data]
  cases table with
  | workflowCommand =>
    simp only [WorkItem.jobIdKey, WorkItem.jobPayload, WorkItem.idempotencyKey, Option.getD_none, trim_attemptKey]
    rfl
  | workflowOutboxMessage => rfl

/-! ## Every job belongs to an attempt -/

/-- The job was sent for an attempt that its row has had, with the row's own key if it is a message's. -/
def JobOk (hash : String → String) (db : WorkDb) (job : Job) : Prop :=
  ∃ row ∈ db.rows job.table, job.data.itemId = row.id ∧
    (∃ n ≤ row.attempts, job.id = attemptJobId hash job.table row.accountId row.id n) ∧
    (job.table = .workflowOutboxMessage → job.data.idempotencyKey = row.dedupeKey)

structure QueueGood (hash : String → String) (db : WorkDb) : Prop where
  keyed : Keyed db
  trimmed : ∀ row ∈ db.rows .workflowOutboxMessage, JsText.trim row.dedupeKey = row.dedupeKey
  jobs : ∀ job ∈ db.jobs, JobOk hash db job
  jobIds : (db.jobs.map Job.id).Nodup

/-- The commit claims the row: it is claimed after it, and was not before at this attempt. -/
def Claims (row row' : WorkItem) : Prop :=
  row'.status = .claimed ∧ (row.status ≠ .claimed ∨ row'.attempts ≠ row.attempts)

instance (row row' : WorkItem) : Decidable (Claims row row') := inferInstanceAs (Decidable (_ ∧ _))

/-- A commit swallows no claim. -/
structure NoClaimSwallowed (hash : String → String) (call : WorkCall) (db db' : WorkDb) : Prop where
  /-- A claim takes the next attempt, and nothing else changes it. -/
  rows : ∀ table, ∀ row ∈ db.rows table, ∃ row' ∈ db'.rows table, SameItem row row' ∧
    (Claims row row' → row'.attempts = row.attempts + 1) ∧ (¬ Claims row row' → row'.attempts = row.attempts)
  new : ∀ table, ∀ row' ∈ db'.rows table, row'.id ∉ (db.rows table).map WorkItem.id →
    row'.status = .pending ∧ row'.attempts = 0
  /-- Only a scan gives a row up, a claimed one that has had its attempts. -/
  failed : ∀ table, ∀ row ∈ db.rows table, ∀ row' ∈ db'.rows table, row'.id = row.id → row'.status = .failed →
    row.status = .failed ∨
      (∃ data skips, call = .scan table data skips) ∧ row.status = .claimed ∧ maxAttempts ≤ row.attempts
  /-- Each claim has exactly one new job, under an id that was never used. -/
  jobs : ∃ sent, db'.jobs = db.jobs ++ sent ∧ ((db.jobs ++ sent).map Job.id).Nodup ∧
    (∀ table, ∀ row ∈ db.rows table, ∀ row' ∈ db'.rows table, row'.id = row.id → Claims row row' →
      (sent.filter fun job => job.table = table ∧ job.data.itemId = row.id).map Job.id =
        [attemptJobId hash table row.accountId row.id row'.attempts]) ∧
    ∀ job ∈ sent, ∃ row ∈ db.rows job.table, ∃ row' ∈ db'.rows job.table, row'.id = row.id ∧
      job.data.itemId = row.id ∧ Claims row row'

/-! ## One commit -/

theorem filter_eq_singleton {α β : Type} [DecidableEq β] {f : α → β} {l : List α} (h : (l.map f).Nodup) {a : α}
    (ha : a ∈ l) : l.filter (fun x => f x = f a) = [a] := by
  induction l with
  | nil => cases ha
  | cons x l ih =>
    rw [List.map_cons, List.nodup_cons] at h
    rcases List.mem_cons.mp ha with rfl | hmem
    · rw [List.filter_cons_of_pos (by simp), List.filter_eq_nil_iff.mpr]
      intro y hy he
      exact h.1 (of_decide_eq_true he ▸ List.mem_map_of_mem hy)
    · rw [List.filter_cons_of_neg, ih h.2 hmem]
      intro he
      exact h.1 (of_decide_eq_true he ▸ List.mem_map_of_mem hmem)

section commit

variable {hash : String → String} {db : WorkDb} {log : WorkLog}

theorem not_claims_self (row : WorkItem) : ¬ Claims row row := fun h => h.2.elim (· h.1) (· rfl)

theorem RowClaimed.claims {now : ℕ} {row row' : WorkItem} (h : RowClaimed now row row') : Claims row row' :=
  ⟨h.status, .inr (by rw [h.attempts]; omega)⟩

theorem RowReclaimed.not_claims {now : ℕ} {row row' : WorkItem} (h : RowReclaimed now row row') : ¬ Claims row row' := by
  obtain rfl | ⟨-, rfl⟩ := h
  · exact not_claims_self row'
  · exact fun hclaims => row.reclaim_status_ne hclaims.1

/-- A tick leaves the other table alone. -/
theorem Scanned.other {table : WorkTable} {now : ℕ} (h : Scanned hash table now db log) {table' : WorkTable}
    (hne : table' ≠ table) (row : WorkItem) : row.evolve table' log.writes = row :=
  WorkItem.evolve_eq_self fun w hw => by
    have hkind := h.kinds w hw
    cases w with
    | reclaim table'' ids => exact if_neg fun hc => hne (hc.1.symm.trans hkind)
    | claim table'' ids now' => exact if_neg fun hc => hne (hc.1.symm.trans hkind.1)
    | complete table'' id => exact hkind.elim
    | _ => rfl

/-- A row after a tick: reclaimed, left alone, or a claimed one of the tick's table. -/
theorem Scanned.row {table : WorkTable} {now : ℕ} (h : Scanned hash table now db log) {table' : WorkTable}
    {row : WorkItem} (hrow : row ∈ db.rows table') : RowReclaimed now row (row.evolve table' log.writes) ∨
      table' = table ∧ RowClaimed now row (row.evolve table' log.writes) := by
  by_cases ht : table' = table
  · subst ht
    exact (h.rows row hrow).imp_right fun hcl => ⟨rfl, hcl⟩
  · exact .inl (.inl (h.other ht row))

theorem Advanced.not_claims (h : Advanced db log.writes) {table : WorkTable} {row : WorkItem}
    (hrow : row ∈ db.rows table) : ¬ Claims row (row.evolve table log.writes) := by
  rcases h.rows table row hrow with he | ⟨-, he⟩
  · rw [he]
    exact not_claims_self row
  · rw [he]
    exact fun hc => (by cases hc.1)

theorem Effect.cases {call : WorkCall} (h : Effect hash db log call) : Advanced db log.writes ∨
    ∃ table data skips, call = .scan table data skips ∧ Scanned hash table data.requestedAt db log := by
  cases call with
  | scan table data skips => exact .inr ⟨table, data, skips, rfl, h⟩
  | _ => exact .inl h

/-- What a commit makes of a row: a claim, or no claim and the attempts as they were. -/
theorem Effect.row {call : WorkCall} (h : Effect hash db log call) {table : WorkTable} {row : WorkItem}
    (hrow : row ∈ db.rows table) :
    (Claims row (row.evolve table log.writes) ∧ (row.evolve table log.writes).attempts = row.attempts + 1) ∨
      ¬ Claims row (row.evolve table log.writes) ∧ (row.evolve table log.writes).attempts = row.attempts := by
  rcases h.cases with hadvanced | ⟨table', data, skips, -, hscan⟩
  · refine .inr ⟨hadvanced.not_claims hrow, ?_⟩
    rcases hadvanced.rows table row hrow with he | ⟨-, he⟩ <;> rw [he]
    rfl
  · rcases hscan.row hrow with hrec | ⟨-, hcl⟩
    · exact .inr ⟨hrec.not_claims, hrec.attempts⟩
    · exact .inl ⟨hcl.claims, hcl.attempts⟩

/-- A committed row of an old id is the old row as the writes left it. -/
theorem Effect.evolved {call : WorkCall} (h : Effect hash db log call) (hkeyed : Keyed db) {table : WorkTable}
    {row row' : WorkItem} (hrow : row ∈ db.rows table) (hrow' : row' ∈ (view applyWork db log.writes).rows table)
    (hid : row'.id = row.id) : row' = row.evolve table log.writes := by
  refine (h.keyed hkeyed).eq_of_id hrow' ?_ (hid.trans (row.evolve_id table _).symm)
  rw [view_rows]
  exact List.mem_append_left _ (List.mem_map_of_mem hrow)

theorem mem_view_of_mem {table : WorkTable} {row : WorkItem} (hrow : row ∈ db.rows table) (ws : List WorkWrite) :
    row.evolve table ws ∈ (view applyWork db ws).rows table := by
  rw [view_rows]
  exact List.mem_append_left _ (List.mem_map_of_mem hrow)

theorem Scanned.sent_queue {table : WorkTable} {now : ℕ} (h : Scanned hash table now db log) :
    ∀ job ∈ sentJobs log, job.table = table := by
  intro job hjob
  obtain ⟨row, -, -, hof⟩ := h.sent job hjob
  exact hof.queue

/-- The id of a sent job names its row and the attempt it takes. -/
theorem Scanned.sent_id {table : WorkTable} {now : ℕ} (h : Scanned hash table now db log) {job : Job}
    (hjob : job ∈ sentJobs log) : ∃ row ∈ db.rows table, job.data.itemId = row.id ∧
      job.id = attemptJobId hash table row.accountId row.id (row.attempts + 1) := by
  obtain ⟨row, hrow, hcl, hof⟩ := h.sent job hjob
  refine ⟨row, hrow, hof.itemId.trans (row.evolve_id table _), ?_⟩
  have hsame := row.evolve_same table log.writes
  rw [IsJobOf.id_eq hof, hsame.accountId, hsame.id, hcl.attempts]

/-- The ids of the jobs a tick sends are new, and no two are the same. -/
theorem Scanned.jobIds_nodup (hhash : Function.Injective hash) (hgood : QueueGood hash db) {table : WorkTable}
    {now : ℕ} (h : Scanned hash table now db log) : ((db.jobs ++ sentJobs log).map Job.id).Nodup := by
  rw [List.map_append, List.nodup_append]
  refine ⟨hgood.jobIds, ?_, ?_⟩
  · have hitems := h.items
    rw [List.Nodup, List.pairwise_map] at hitems ⊢
    refine hitems.imp_of_mem fun {a b} ha hb hne heq => hne ?_
    obtain ⟨row, -, hitem, hida⟩ := h.sent_id ha
    obtain ⟨row', -, hitem', hidb⟩ := h.sent_id hb
    obtain ⟨-, hid, -⟩ := attemptJobId_inj hhash (hida.symm.trans (heq.trans hidb))
    rw [hitem, hitem', hid]
  · intro id hold id' hnew heq
    subst heq
    obtain ⟨old, holdMem, rfl⟩ := List.mem_map.mp hold
    obtain ⟨new, hnewMem, hids⟩ := List.mem_map.mp hnew
    obtain ⟨row, hrow, -, hidNew⟩ := h.sent_id hnewMem
    obtain ⟨row', hrow', -, ⟨n, hn, hidOld⟩, -⟩ := hgood.jobs old holdMem
    obtain ⟨ht, hid, hattempts⟩ := attemptJobId_inj hhash (hidNew.symm.trans (hids.trans hidOld))
    -- the row has not had the attempt that the claim takes
    rw [← ht] at hrow'
    obtain rfl := hgood.keyed.eq_of_id hrow hrow' hid
    omega

theorem Scanned.view_jobs (hhash : Function.Injective hash) (hgood : QueueGood hash db) {table : WorkTable}
    {now : ℕ} (h : Scanned hash table now db log) : (view applyWork db log.writes).jobs = db.jobs ++ sentJobs log :=
  WorkQueue.view_jobs (h.jobIds_nodup hhash hgood)

/-- A claim has exactly one job among those the tick sends. -/
theorem Scanned.one_job {table : WorkTable} {now : ℕ} (h : Scanned hash table now db log) {row : WorkItem}
    (hrow : row ∈ db.rows table) (hclaimed : RowClaimed now row (row.evolve table log.writes)) :
    ((sentJobs log).filter fun job => job.table = table ∧ job.data.itemId = row.id).map Job.id =
      [attemptJobId hash table row.accountId row.id (row.evolve table log.writes).attempts] := by
  obtain ⟨job, hjob, hof⟩ := h.claimed row hrow hclaimed
  have hitem : job.data.itemId = row.id := hof.itemId.trans (row.evolve_id table _)
  have hfilter : ((sentJobs log).filter fun job => job.table = table ∧ job.data.itemId = row.id) = [job] := by
    rw [← filter_eq_singleton h.items hjob]
    refine List.filter_congr fun other hother => ?_
    simp only [h.sent_queue other hother, true_and, hitem]
  have hsame := row.evolve_same table log.writes
  rw [hfilter, List.map_singleton, IsJobOf.id_eq hof, hsame.accountId, hsame.id]

/-- Where a row has become failed, it was claimed and had had its attempts, or it was failed before. -/
theorem Effect.failed {call : WorkCall} (h : Effect hash db log call) {table : WorkTable} {row : WorkItem}
    (hrow : row ∈ db.rows table) (hfailed : (row.evolve table log.writes).status = .failed) :
    row.status = .failed ∨
      (∃ data skips, call = .scan table data skips) ∧ row.status = .claimed ∧ maxAttempts ≤ row.attempts := by
  rcases h.cases with hadvanced | ⟨table', data, skips, rfl, hscan⟩
  · rcases hadvanced.rows table row hrow with he | ⟨-, he⟩
    · exact .inl (he ▸ hfailed)
    · rw [he] at hfailed
      cases hfailed
  · by_cases ht : table = table'
    · subst ht
      rcases hscan.row hrow with (he | ⟨hstale, he⟩) | ⟨-, hcl⟩
      · exact .inl (he ▸ hfailed)
      · refine .inr ⟨⟨data, skips, rfl⟩, (WorkItem.isStale_iff.mp hstale).1, ?_⟩
        by_contra hlt
        rw [he, WorkItem.reclaim, if_neg hlt] at hfailed
        cases hfailed
      · rw [hcl.status] at hfailed
        cases hfailed
    · rw [hscan.other ht] at hfailed
      exact .inl hfailed

/-- The jobs a commit sends, against the claims it makes. -/
theorem Effect.jobs (hhash : Function.Injective hash) (hgood : QueueGood hash db) {call : WorkCall}
    (h : Effect hash db log call) : ∃ sent, (view applyWork db log.writes).jobs = db.jobs ++ sent ∧
      ((db.jobs ++ sent).map Job.id).Nodup ∧
      (∀ table, ∀ row ∈ db.rows table, Claims row (row.evolve table log.writes) →
        (sent.filter fun job => job.table = table ∧ job.data.itemId = row.id).map Job.id =
          [attemptJobId hash table row.accountId row.id (row.evolve table log.writes).attempts]) ∧
      ∀ job ∈ sent, ∃ now, ∃ row ∈ db.rows job.table, Claims row (row.evolve job.table log.writes) ∧
        IsJobOf hash job.table now (row.evolve job.table log.writes) job := by
  rcases h.cases with hadvanced | ⟨table', data, skips, -, hscan⟩
  · refine ⟨[], ?_, ?_, fun table row hrow hc => absurd hc (hadvanced.not_claims hrow), fun job hjob => (by cases hjob)⟩
    · rw [view_jobs_eq hadvanced.jobs, List.append_nil]
    · rw [List.append_nil]
      exact hgood.jobIds
  · refine ⟨sentJobs log, hscan.view_jobs hhash hgood, hscan.jobIds_nodup hhash hgood,
      fun table row hrow hc => ?_, fun job hjob => ?_⟩
    · rcases hscan.row hrow with hrec | ⟨rfl, hcl⟩
      · exact absurd hc hrec.not_claims
      · exact hscan.one_job hrow hcl
    · obtain ⟨row, hrow, hcl, hof⟩ := hscan.sent job hjob
      have hqueue := hof.queue
      subst hqueue
      exact ⟨_, row, hrow, hcl.claims, hof⟩

theorem Effect.noClaimSwallowed (hhash : Function.Injective hash) (hgood : QueueGood hash db) {call : WorkCall}
    (h : Effect hash db log call) : NoClaimSwallowed hash call db (view applyWork db log.writes) := by
  obtain ⟨sent, hjobs, hids, hone, hfor⟩ := h.jobs hhash hgood
  refine ⟨fun table row hrow => ?_, fun table row' hrow' hnew => ?_, fun table row hrow row' hrow' hid hfailed => ?_,
    sent, hjobs, hids, fun table row hrow row' hrow' hid hc => ?_, fun job hjob => ?_⟩
  · refine ⟨_, mem_view_of_mem hrow log.writes, row.evolve_same table _, fun hc => ?_, fun hc => ?_⟩
    · exact (h.row hrow).elim And.right fun hn => absurd hc hn.1
    · exact (h.row hrow).elim (fun hn => absurd hn.1 hc) And.right
  · rw [view_rows, List.mem_append] at hrow'
    rcases hrow' with hold | hadded
    · obtain ⟨row, hrow, rfl⟩ := List.mem_map.mp hold
      exact absurd (List.mem_map.mpr ⟨row, hrow, (row.evolve_id table _).symm⟩) hnew
    · rcases h.cases with hadvanced | ⟨table', data, skips, -, hscan⟩
      · obtain ⟨hstatus, hattempts, -⟩ := hadvanced.new table row' hadded
        exact ⟨hstatus, hattempts⟩
      · rw [hscan.added] at hadded
        cases hadded
  · rw [h.evolved hgood.keyed hrow hrow' hid] at hfailed
    exact h.failed hrow hfailed
  · rw [h.evolved hgood.keyed hrow hrow' hid] at hc ⊢
    exact hone table row hrow hc
  · obtain ⟨now, row, hrow, hc, hof⟩ := hfor job hjob
    exact ⟨row, hrow, _, mem_view_of_mem hrow log.writes, row.evolve_id _ _, hof.itemId.trans (row.evolve_id _ _), hc⟩

theorem IsJobOf.key_eq {table : WorkTable} {now : ℕ} {row : WorkItem} {job : Job} (h : IsJobOf hash table now row job)
    (htable : table = .workflowOutboxMessage) : job.data.idempotencyKey = JsText.trim row.dedupeKey := by
  subst htable
  rw [parseJobPayload_ok h.data]
  rfl

/-- Every commit keeps the jobs to attempts their rows have had. -/
theorem Effect.queueGood (hhash : Function.Injective hash) (hgood : QueueGood hash db) {call : WorkCall}
    (h : Effect hash db log call) : QueueGood hash (view applyWork db log.writes) := by
  obtain ⟨sent, hjobs, hids, -, hfor⟩ := h.jobs hhash hgood
  refine ⟨h.keyed hgood.keyed, fun row' hrow' => ?_, fun job hjob => ?_, by rw [hjobs]; exact hids⟩
  · rw [view_rows, List.mem_append] at hrow'
    rcases hrow' with hold | hadded
    · obtain ⟨row, hrow, rfl⟩ := List.mem_map.mp hold
      rw [(row.evolve_same _ _).dedupeKey]
      exact hgood.trimmed row hrow
    · rcases h.cases with hadvanced | ⟨table', data, skips, -, hscan⟩
      · exact (hadvanced.new _ row' hadded).2.2.1
      · rw [hscan.added] at hadded
        cases hadded
  · rw [hjobs, List.mem_append] at hjob
    rcases hjob with hold | hnew
    · -- a row never loses an attempt
      obtain ⟨row, hrow, hitem, ⟨n, hn, hid⟩, hkey⟩ := hgood.jobs job hold
      have hsame := row.evolve_same job.table log.writes
      refine ⟨_, mem_view_of_mem hrow log.writes, hitem.trans hsame.id.symm, ⟨n, ?_, ?_⟩, fun ht => ?_⟩
      · rcases h.row hrow with ⟨-, he⟩ | ⟨-, he⟩ <;> omega
      · rw [hsame.accountId, hsame.id]
        exact hid
      · rw [hsame.dedupeKey]
        exact hkey ht
    · obtain ⟨now, row, hrow, -, hof⟩ := hfor job hnew
      refine ⟨_, mem_view_of_mem hrow log.writes, hof.itemId, ⟨_, le_rfl, hof.id_eq⟩, fun ht => ?_⟩
      rw [hof.key_eq ht, (row.evolve_same _ _).dedupeKey, hgood.trimmed row (ht ▸ hrow)]

end commit

/-! ## Runs -/

section runs

variable (sha256 : String → ℕ) {hash : String → String} (registry : WorkTable → String → Option Handler)

theorem queue_outline (hhash : Function.Injective hash) :
    Outline (workSystem sha256 hash registry) (QueueGood hash) WorkSince (fun _ _ _ => True) where
  refl := WorkSince.refl
  good := by
    intro db call tx startedAt r log hcommit _
    have hseen : ∀ p ∈ log.seen, WorkSince p.2 p.1 db ∧ Keyed p.1 :=
      fun p hp => ⟨(hcommit.seen p hp).2, (hcommit.seen p hp).1.keyed⟩
    exact (work_effect hcommit.good.keyed hcommit.ends hseen).queueGood hhash hcommit.good
  rely := fun db call tx startedAt r log hcommit held s hdisjoint hs =>
    hs.view (work_covered hcommit.good.keyed hcommit.ends
      fun p hp => ⟨(hcommit.seen p hp).2, (hcommit.seen p hp).1.keyed⟩) hdisjoint

/-- In every interleaving of scans, deliveries and new items, no commit swallows a claim, and every job
ever sent is that of an attempt its row has had, with the row's own key if it is a message's. -/
theorem noClaimSwallowed_allSteps (hhash : Function.Injective hash) {db : WorkDb} (h : QueueGood hash db)
    (next now : ℕ) (events : List (Event WorkCall)) :
    Runs.AllSteps (step (workSystem sha256 hash registry))
        (CommitsMeet fun db call log => NoClaimSwallowed hash call db (view applyWork db log.writes))
        (World.initial db next now) events ∧
      Runs.AllStates (step (workSystem sha256 hash registry)) (fun w => QueueGood hash w.db)
        (World.initial db next now) events := by
  have outline := queue_outline sha256 registry hhash
  constructor
  · refine outline.allSteps (fun db call tx startedAt r log hcommit => ?_) h next now events
    exact (work_effect hcommit.good.keyed hcommit.ends fun p hp =>
      ⟨(hcommit.seen p hp).2, (hcommit.seen p hp).1.keyed⟩).noClaimSwallowed hhash hcommit.good
  · exact outline.allStates h (outline.allSteps (fun _ _ _ _ _ _ _ => trivial) h next now events)

end runs

/-! ## A run -/

/-- One client with one instance, and nothing queued. -/
def emptyQueue : WorkDb where
  accounts := [⟨7, true⟩]
  instances := [⟨3, 7, "dispute", "dispute", 1, "draft", 0, 0⟩]
  rows := fun _ => []
  jobs := []
  auditEvents := []
  effects := []

theorem emptyQueue_good (hash : String → String) : QueueGood hash emptyQueue :=
  ⟨fun _ => List.nodup_nil, fun _ h => (by cases h), fun _ h => (by cases h), List.nodup_nil⟩

/-- A command is scheduled; of two ticks at once, one claims it and the other passes it over. -/
def twoTicks : List (Event WorkCall) :=
  let scan (stale due : List ℕ) : WorkCall := .scan .workflowCommand ⟨1, 100⟩ ⟨fun _ => stale, fun _ => due⟩
  [.begin (.schedule ⟨7, 3, "deliver_dispute", [("disputeId", .str "d")], 50⟩), .exec 0, .exec 0, .exec 0, .commit 0,
    .begin (scan [] []), .begin (scan [0] [0]), .exec 1, .exec 1, .exec 1, .exec 1, .exec 2, .exec 2, .exec 2, .exec 2,
    .exec 1, .commit 2, .commit 1]

theorem twoTicks_swallow_none :
    let sys := workSystem Claims.textNumber id fun _ _ => none
    (Runs.final (step sys) (World.initial emptyQueue 0 0) twoTicks).any (fun w => w.db.jobs.map Job.id =
        ["freight.workflow.run-command.v1\x007\x00workflow-command:0:1"]) = true ∧
      Runs.AllSteps (step sys)
        (CommitsMeet fun db call log => NoClaimSwallowed id call db (view applyWork db log.writes))
        (World.initial emptyQueue 0 0) twoTicks ∧
      Runs.AllStates (step sys) (fun w => QueueGood id w.db) (World.initial emptyQueue 0 0) twoTicks :=
  ⟨by decide +kernel, noClaimSwallowed_allSteps Claims.textNumber (fun _ _ => none) Function.injective_id
    (emptyQueue_good id) 0 0 twoTicks⟩

end WorkQueue
