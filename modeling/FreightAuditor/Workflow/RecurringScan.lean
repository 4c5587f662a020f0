import FreightAuditor.Workflow.NoLostClaims

/- The recurring scan, fired by a cron with the data stored when the worker booted.

   The tick takes its `now` from that data, so every firing scans as of the boot. Run alone, with
   no client over the limit, it does to each row of an active client what `scanRow` says, as of
   the boot. So a firing overlooks nothing exactly when the boot sees as much as the firing
   (`SeenAtBoot`). -/
namespace WorkQueue

open ReadCommitted

/-! ## A tick on its own -/

/-- The row after the first loop. -/
def reclaimRow (clients : List ℕ) (now : ℕ) (row : WorkItem) : WorkItem :=
  if row.accountId ∈ clients ∧ row.isStale now = true then row.reclaim else row

/-- The row after both loops. -/
def scanRow (clients : List ℕ) (now : ℕ) (row : WorkItem) : WorkItem :=
  if row.accountId ∈ clients ∧ (reclaimRow clients now row).isDue now = true
  then (reclaimRow clients now row).claim now else reclaimRow clients now row

/-- At most as many of each active client's rows are due or stale as one tick takes. -/
def WithinLimit (table : WorkTable) (now : ℕ) (db : WorkDb) : Prop :=
  ∀ clientId ∈ activeClients db, ((db.rows table).filter fun row =>
    row.accountId == clientId && (row.isDue now || row.isStale now)).length ≤ batchLimit

theorem view_accounts (db : WorkDb) (ws : List WorkWrite) : (view applyWork db ws).accounts = db.accounts := by
  induction ws generalizing db with
  | nil => rfl
  | cons w ws ih =>
    rw [view_cons, ih]
    cases w with
    | sendJob job =>
      simp only [applyWork]
      split <;> rfl
    | _ => rfl

theorem activeClients_view (db : WorkDb) (ws : List WorkWrite) :
    activeClients (view applyWork db ws) = activeClients db := by
  rw [activeClients, view_accounts, activeClients]

section pass

variable {db : WorkDb} {table : WorkTable} {ws : List WorkWrite} {done : List ℕ} {clientId : ℕ}
  {eligible : WorkItem → Bool} (key : WorkItem → ℕ) {g f : WorkItem → WorkItem}

/-- One pass over the clients: a pick takes what is left of its client's eligible rows. -/
theorem mem_pick_iff (hkeyed : Keyed db) (hws : ∀ w ∈ ws, w.inserted? = none)
    (hevolve : ∀ row ∈ db.rows table, row.evolve table ws =
      if row.accountId ∈ done ∧ eligible (g row) = true then f (g row) else g row)
    (hf : ∀ row, eligible (f row) = false)
    (hcount : ((db.rows table).filter fun row => row.accountId == clientId && eligible (g row)).length ≤ batchLimit)
    {row : WorkItem} (hrow : row ∈ db.rows table) :
    row.id ∈ (pick ((view applyWork db ws).rows table) clientId eligible key []).map WorkItem.id ↔
      row.accountId = clientId ∧ row.accountId ∉ done ∧ eligible (g row) = true := by
  have heligible {row : WorkItem} (hrow : row ∈ db.rows table) (h : eligible (row.evolve table ws) = true) :
      row.accountId ∉ done ∧ eligible (g row) = true := by
    rw [hevolve row hrow] at h
    split at h
    · rw [hf] at h
      cases h
    · rename_i hdone
      exact ⟨fun hmem => hdone ⟨hmem, h⟩, h⟩
  have hview : (view applyWork db ws).rows table = (db.rows table).map fun row => row.evolve table ws := by
    rw [view_rows, added_eq_nil hws, List.append_nil]
  constructor
  · intro hid
    obtain ⟨m, hm, hmid⟩ := List.mem_map.mp hid
    obtain ⟨hmem, haccount, hel⟩ := mem_pick hm
    rw [hview] at hmem
    obtain ⟨row', hrow', rfl⟩ := List.mem_map.mp hmem
    rw [WorkItem.evolve_id] at hmid
    obtain rfl := hkeyed.eq_of_id hrow hrow' hmid.symm
    rw [(row.evolve_same table ws).accountId] at haccount
    exact ⟨haccount, heligible hrow hel⟩
  · rintro ⟨haccount, hdone, hel⟩
    have hself : row.evolve table ws = g row := by rw [hevolve row hrow, if_neg fun h => hdone h.1]
    refine List.mem_map.mpr ⟨row.evolve table ws, mem_pick_of_le ?_ ?_ ?_ ?_, row.evolve_id table ws⟩
    · exact hview ▸ List.mem_map_of_mem hrow
    · rw [(row.evolve_same table ws).accountId, haccount]
    · rw [hself, hel]
    · refine le_trans ?_ hcount
      rw [hview, List.filter_map, List.length_map, ← List.countP_eq_length_filter, ← List.countP_eq_length_filter]
      refine List.countP_mono_left fun row hrow h => ?_
      simp only [Function.comp_apply, Bool.and_eq_true, beq_iff_eq, (row.evolve_same table ws).accountId] at h ⊢
      exact ⟨h.1, (heligible hrow h.2).2⟩

/-- The rows after one more client. -/
theorem pass_step (hkeyed : Keyed db) (hws : ∀ w ∈ ws, w.inserted? = none) {ws' : List WorkWrite}
    (hevolve : ∀ row ∈ db.rows table, row.evolve table ws =
      if row.accountId ∈ done ∧ eligible (g row) = true then f (g row) else g row)
    (hf : ∀ row, eligible (f row) = false)
    (hcount : ((db.rows table).filter fun row => row.accountId == clientId && eligible (g row)).length ≤ batchLimit)
    (hstep : ∀ row ∈ db.rows table, row.evolve table ws' =
      if row.id ∈ (pick ((view applyWork db ws).rows table) clientId eligible key []).map WorkItem.id
      then f (row.evolve table ws) else row.evolve table ws) :
    ∀ row ∈ db.rows table, row.evolve table ws' =
      if row.accountId ∈ done ++ [clientId] ∧ eligible (g row) = true then f (g row) else g row := by
  intro row hrow
  rw [hstep row hrow, hevolve row hrow]
  by_cases hdone : row.accountId ∈ done ∧ eligible (g row) = true
  · have hnot := mt (mem_pick_iff key hkeyed hws hevolve hf hcount hrow).mp fun h => h.2.1 hdone.1
    rw [if_neg hnot, if_pos hdone, if_pos ⟨List.mem_append_left _ hdone.1, hdone.2⟩]
  · rw [if_neg hdone]
    by_cases hnow : row.accountId = clientId ∧ eligible (g row) = true
    · have hpicked := (mem_pick_iff key hkeyed hws hevolve hf hcount hrow).mpr
        ⟨hnow.1, fun h => hdone ⟨h, hnow.2⟩, hnow.2⟩
      rw [if_pos hpicked, if_pos ⟨List.mem_append_right _ (List.mem_singleton.mpr hnow.1), hnow.2⟩]
    · have hnot := mt (mem_pick_iff key hkeyed hws hevolve hf hcount hrow).mp fun h => hnow ⟨h.1, h.2.2⟩
      rw [if_neg hnot, if_neg]
      rintro ⟨hmem, hel⟩
      rcases List.mem_append.mp hmem with h | h
      · exact hdone ⟨h, hel⟩
      · exact hnow ⟨List.mem_singleton.mp h, hel⟩

end pass

theorem WorkItem.isStale_mono {now later : ℕ} (hle : now ≤ later) {row : WorkItem} (h : row.isStale now = true) :
    row.isStale later = true := by
  obtain ⟨hstatus, at_, hat, hstale⟩ := WorkItem.isStale_iff.mp h
  exact WorkItem.isStale_iff.mpr ⟨hstatus, at_, hat, hstale.trans hle⟩

theorem WorkItem.isDue_mono {now later : ℕ} (hle : now ≤ later) {row : WorkItem} (h : row.isDue now = true) :
    row.isDue later = true := by
  obtain ⟨hstatus, hdue⟩ := WorkItem.isDue_iff.mp h
  exact WorkItem.isDue_iff.mpr ⟨hstatus, hdue.trans hle⟩

theorem reclaim_not_stale (now : ℕ) (row : WorkItem) : row.reclaim.isStale now = false := by
  rw [Bool.eq_false_iff]
  exact fun h => row.reclaim_status_ne (WorkItem.isStale_iff.mp h).1

theorem claim_not_due (at_ now : ℕ) (row : WorkItem) : (row.claim at_).isDue now = false := by
  rw [Bool.eq_false_iff]
  intro h
  cases (WorkItem.isDue_iff.mp h).1

/-- A tick with nothing beside it and no client over the limit does to each row what `scanRow` says. -/
theorem scan_alone {sha256 : String → ℕ} {hash : String → String} {table : WorkTable} {startedAt later : ℕ}
    {data : ScanPayload} {db : WorkDb} {log : WorkLog} (hkeyed : Keyed db) (hle : data.requestedAt ≤ later)
    (hlimit : WithinLimit table later db)
    (h : alone applyWork db (handleReclaimAndScanJob sha256 hash table startedAt data ⟨fun _ => [], fun _ => []⟩)
      .empty = .ok (⟨⟩, log)) :
    Scanned hash table data.requestedAt db log ∧
      ∀ row ∈ db.rows table, row.evolve table log.writes = scanRow (activeClients db) data.requestedAt row := by
  set now := data.requestedAt with hnow
  obtain ⟨hends, hseen⟩ := alone_ends h (by simp [Log.empty])
  have hrely : ∀ p : WorkDb × List WorkLock, p.1 = db → WorkSince p.2 p.1 db ∧ Keyed p.1 :=
    fun p hp => by rw [hp]; exact ⟨.refl _ _, hkeyed⟩
  obtain ⟨s, s', mid, hs, hs', hsub, hstale, hdue⟩ := scan_ends hends
  obtain rfl : s = db := hseen _ hs
  obtain rfl : s' = s := hseen _ hs'
  -- the first loop
  obtain ⟨hmid, hrows⟩ : Scanned hash table now s' mid ∧ ∀ row ∈ s'.rows table,
      row.evolve table mid.writes = reclaimRow (activeClients s') now row := by
    refine Ends.forM (P := fun done l => Scanned hash table now s' l ∧ ∀ row ∈ s'.rows table,
      row.evolve table l.writes = reclaimRow done now row) (Q := fun p => p.1 = s')
      (fun done clientId hclient l l' hdone hrun hQ => ?_)
      ⟨.of_no_writes rfl, fun row _ => by simp [reclaimRow, Log.add, Log.empty]⟩ hstale fun p hp => hseen p (hsub p hp)
    obtain ⟨hl, hevolve⟩ := hdone
    obtain ⟨s, es, hunit⟩ := reclaimClient_ends hrun
    obtain rfl : s = s' := hQ _ hunit.seen
    obtain ⟨hl', hstep⟩ := hl.reclaim hkeyed (fun p hp => (hrely p (hQ p hp)).1) hunit
    refine ⟨hl', pass_step _ (g := id) hkeyed hl.not_inserted hevolve (reclaim_not_stale now) ?_ hstep⟩
    refine le_trans ?_ (hlimit clientId hclient)
    rw [← List.countP_eq_length_filter, ← List.countP_eq_length_filter]
    refine List.countP_mono_left fun row _ hrow => ?_
    simp only [id, Bool.and_eq_true, Bool.or_eq_true] at hrow ⊢
    exact ⟨hrow.1, .inr (WorkItem.isStale_mono hle hrow.2)⟩
  -- the second
  rw [activeClients_view] at hdue
  refine Ends.forM (P := fun done l => Scanned hash table now s' l ∧ ∀ row ∈ s'.rows table,
      row.evolve table l.writes =
        if row.accountId ∈ done ∧ (reclaimRow (activeClients s') now row).isDue now = true
        then (reclaimRow (activeClients s') now row).claim now else reclaimRow (activeClients s') now row)
    (Q := fun p => p.1 = s') (fun done clientId hclient l l' hdone hrun hQ => ?_)
    ⟨hmid.read s', fun row hrow => ?_⟩ hdue hseen
  · obtain ⟨hl, hevolve⟩ := hdone
    obtain ⟨s, jobs, hunit, hjobs⟩ := scheduleClient_ends hrun
    obtain rfl : s = s' := hQ _ hunit.seen
    obtain ⟨hl', hstep⟩ := hl.claim hkeyed (fun p hp => hrely p (hQ p hp)) hunit hjobs
    refine ⟨hl', pass_step _ hkeyed hl.not_inserted hevolve (claim_not_due now now) ?_ hstep⟩
    refine le_trans ?_ (hlimit clientId hclient)
    rw [← List.countP_eq_length_filter, ← List.countP_eq_length_filter]
    refine List.countP_mono_left fun row _ hrow => ?_
    simp only [Bool.and_eq_true, Bool.or_eq_true] at hrow ⊢
    refine ⟨hrow.1, ?_⟩
    have hel := hrow.2
    rw [reclaimRow] at hel
    split at hel
    · rename_i hst
      exact .inr (WorkItem.isStale_mono hle hst.2)
    · exact .inl (WorkItem.isDue_mono hle hel)
  · rw [if_neg (by simp), ← hrows row hrow]
    simp [Log.add]

/-! ## The cron -/

/-- The data that `registerJobConsumers` stores with the schedule when the worker boots. -/
def scheduledData (boot : ℕ) : ScanPayload := ⟨1, boot⟩

/-- The rows as they are, with the time of the boot and of the latest firing (at first, of the boot). -/
structure CronState where
  boot : ℕ
  previous : ℕ
  db : WorkDb

/-- A firing, which runs the scan alone with the stored data, or whatever else changes the rows. -/
inductive CronEvent where
  | fires (at_ : ℕ)
  | elapses (db : WorkDb)

instance (db : WorkDb) : Decidable (Keyed db) := by
  unfold Keyed
  infer_instance

/-- A scan that fails commits nothing. -/
def cronStep (sha256 : String → ℕ) (hash : String → String) (table : WorkTable) (s : CronState) :
    CronEvent → Option CronState
  | .fires at_ =>
    match alone applyWork s.db (handleReclaimAndScanJob sha256 hash table at_ (scheduledData s.boot)
      ⟨fun _ => [], fun _ => []⟩) .empty with
    | .ok (_, log) => some { s with previous := at_, db := view applyWork s.db log.writes }
    | .error _ => none
  | .elapses db => if Keyed db then some { s with db } else none

/-- Once the scan of a firing has committed, no due row of an active client is left pending, what it
claimed is stamped no earlier than the firing before it, and no stale claim stands. -/
structure NothingOverlooked (table : WorkTable) (previous firing : ℕ) (db db' : WorkDb) : Prop where
  due : ∀ row' ∈ db'.rows table, row'.accountId ∈ activeClients db → ¬ row'.isDue firing = true
  stamped : ∀ row ∈ db.rows table, ∀ row' ∈ db'.rows table, row'.id = row.id → Claims row row' →
    row'.claimedAt.any (previous ≤ ·) = true
  stale : ∀ row ∈ db.rows table, row.accountId ∈ activeClients db → row.isStale firing = true →
    ∀ row' ∈ db'.rows table, row'.id = row.id → row'.status = .claimed → row'.attempts ≠ row.attempts

/-- What is due or stale at the firing was so at the boot already, and nothing is to be claimed unless
the firing before was no later than the boot. -/
def SeenAtBoot (table : WorkTable) (boot previous firing : ℕ) (db : WorkDb) : Prop :=
  ∀ row ∈ db.rows table, row.accountId ∈ activeClients db →
    (row.isDue firing = true → row.due ≤ boot ∧ previous ≤ boot) ∧
      (row.isStale firing = true → row.isStale boot = true ∧
        (row.attempts < maxAttempts → row.due ≤ firing → row.due ≤ boot ∧ previous ≤ boot))

/-- The ways of a row of an active client through a scan: given up, claimed anew or returned if it is
stale, else claimed or left alone. -/
theorem scanRow_cases {clients : List ℕ} (now : ℕ) {row : WorkItem} (hactive : row.accountId ∈ clients) :
    (row.isStale now = true ∧ maxAttempts ≤ row.attempts ∧ scanRow clients now row = row.reclaim) ∨
      (row.isStale now = true ∧ row.attempts < maxAttempts ∧ row.due ≤ now ∧
        scanRow clients now row = row.reclaim.claim now) ∨
      (row.isStale now = true ∧ row.attempts < maxAttempts ∧ now < row.due ∧ scanRow clients now row = row.reclaim) ∨
      (row.isStale now ≠ true ∧ row.isDue now = true ∧ scanRow clients now row = row.claim now) ∨
      row.isStale now ≠ true ∧ row.isDue now ≠ true ∧ scanRow clients now row = row := by
  by_cases hstale : row.isStale now = true
  · have hmid : reclaimRow clients now row = row.reclaim := if_pos ⟨hactive, hstale⟩
    rcases Nat.lt_or_ge row.attempts maxAttempts with hmax | hmax
    · have hpending : row.reclaim.status = .pending := if_neg (Nat.not_le.mpr hmax)
      rcases Nat.lt_or_ge now row.due with hdue | hdue
      · refine .inr (.inr (.inl ⟨hstale, hmax, hdue, ?_⟩))
        have hnotDue : row.reclaim.isDue now ≠ true := fun h =>
          absurd (WorkItem.isDue_iff.mp h).2 (Nat.not_le.mpr (show now < row.reclaim.due from hdue))
        rw [scanRow, hmid, if_neg fun h => hnotDue h.2]
      · refine .inr (.inl ⟨hstale, hmax, hdue, ?_⟩)
        rw [scanRow, hmid, if_pos ⟨hactive, WorkItem.isDue_iff.mpr ⟨hpending, hdue⟩⟩]
    · have hfailed : row.reclaim.status = .failed := if_pos hmax
      refine .inl ⟨hstale, hmax, ?_⟩
      rw [scanRow, hmid, if_neg]
      rintro ⟨-, hdue⟩
      rw [(WorkItem.isDue_iff.mp hdue).1] at hfailed
      cases hfailed
  · have hmid : reclaimRow clients now row = row := if_neg fun h => hstale h.2
    by_cases hdue : row.isDue now = true
    · refine .inr (.inr (.inr (.inl ⟨hstale, hdue, ?_⟩)))
      rw [scanRow, hmid, if_pos ⟨hactive, hdue⟩]
    · refine .inr (.inr (.inr (.inr ⟨hstale, hdue, ?_⟩)))
      rw [scanRow, hmid, if_neg fun h => hdue h.2]

theorem WorkItem.not_due_of_stale {now later : ℕ} {row : WorkItem} (h : row.isStale now = true) :
    row.isDue later ≠ true := by
  intro hdue
  have hclaimed := (WorkItem.isStale_iff.mp h).1
  rw [(WorkItem.isDue_iff.mp hdue).1] at hclaimed
  cases hclaimed

/-- One row of an active client, through a scan as of the boot. -/
theorem scanRow_iff {clients : List ℕ} {boot previous firing : ℕ} (hle : boot ≤ firing) {row : WorkItem}
    (hactive : row.accountId ∈ clients) :
    (¬ (scanRow clients boot row).isDue firing = true ∧
        (Claims row (scanRow clients boot row) → (scanRow clients boot row).claimedAt.any (previous ≤ ·) = true) ∧
        (row.isStale firing = true → (scanRow clients boot row).status = .claimed →
          (scanRow clients boot row).attempts ≠ row.attempts)) ↔
      (row.isDue firing = true → row.due ≤ boot ∧ previous ≤ boot) ∧
        (row.isStale firing = true → row.isStale boot = true ∧
          (row.attempts < maxAttempts → row.due ≤ firing → row.due ≤ boot ∧ previous ≤ boot)) := by
  have hnext (row mid : WorkItem) (hattempts : mid.attempts = row.attempts) :
      (mid.claim boot).attempts ≠ row.attempts := by
    rw [WorkItem.claim, hattempts]
    exact Nat.succ_ne_self _
  obtain ⟨hstale, hmax, hscan⟩ | ⟨hstale, hmax, hdue, hscan⟩ | ⟨hstale, hmax, hdue, hscan⟩ | ⟨hstale, hdue, hscan⟩ |
    ⟨hstale, hdue, hscan⟩ := scanRow_cases boot hactive <;> rw [hscan]
  · -- given up
    have hfailed : row.reclaim.status = .failed := if_pos hmax
    refine iff_of_true ⟨fun h => ?_, fun h => absurd h.1 row.reclaim_status_ne, fun _ h => absurd h row.reclaim_status_ne⟩
      ⟨fun h => absurd h (WorkItem.not_due_of_stale hstale), fun _ => ⟨hstale, fun h => absurd h (Nat.not_lt.mpr hmax)⟩⟩
    rw [(WorkItem.isDue_iff.mp h).1] at hfailed
    cases hfailed
  · -- claimed anew
    constructor
    · rintro ⟨-, hstamp, -⟩
      have hprev : previous ≤ boot := of_decide_eq_true (hstamp ⟨rfl, .inr (hnext row row.reclaim rfl)⟩)
      exact ⟨fun h => absurd h (WorkItem.not_due_of_stale hstale), fun _ => ⟨hstale, fun _ _ => ⟨hdue, hprev⟩⟩⟩
    · rintro ⟨-, hcond⟩
      have hprev := ((hcond (WorkItem.isStale_mono hle hstale)).2 hmax (hdue.trans hle)).2
      exact ⟨by rw [claim_not_due]; exact Bool.false_ne_true, fun _ => decide_eq_true hprev,
        fun _ _ => hnext row row.reclaim rfl⟩
  · -- returned to pending
    have hpending : row.reclaim.status = .pending := if_neg (Nat.not_le.mpr hmax)
    constructor
    · rintro ⟨hleft, -, -⟩
      refine ⟨fun h => absurd h (WorkItem.not_due_of_stale hstale), fun _ => ⟨hstale, fun _ hfiring => ?_⟩⟩
      exact absurd (WorkItem.isDue_iff.mpr ⟨hpending, hfiring⟩) hleft
    · rintro ⟨-, hcond⟩
      refine ⟨fun h => ?_, fun h => absurd h.1 row.reclaim_status_ne, fun _ h => absurd h row.reclaim_status_ne⟩
      have hboot := ((hcond (WorkItem.isStale_mono hle hstale)).2 hmax (WorkItem.isDue_iff.mp h).2).1
      omega
  · -- claimed
    have hnotStale : row.isStale firing ≠ true := fun h => WorkItem.not_due_of_stale h hdue
    constructor
    · rintro ⟨-, hstamp, -⟩
      have hprev : previous ≤ boot := of_decide_eq_true (hstamp ⟨rfl, .inr (hnext row row rfl)⟩)
      exact ⟨fun _ => ⟨(WorkItem.isDue_iff.mp hdue).2, hprev⟩, fun h => absurd h hnotStale⟩
    · rintro ⟨hcond, -⟩
      exact ⟨by rw [claim_not_due]; exact Bool.false_ne_true,
        fun _ => decide_eq_true (hcond (WorkItem.isDue_mono hle hdue)).2, fun h => absurd h hnotStale⟩
  · -- left alone
    constructor
    · rintro ⟨hleft, -, hstands⟩
      exact ⟨fun h => absurd h hleft, fun h => absurd rfl (hstands h (WorkItem.isStale_iff.mp h).1)⟩
    · rintro ⟨hcond, hcondStale⟩
      refine ⟨fun h => hdue ?_, fun h => absurd h (not_claims_self row), fun h => absurd (hcondStale h).1 hstale⟩
      exact WorkItem.isDue_iff.mpr ⟨(WorkItem.isDue_iff.mp h).1, (hcond h).1⟩

theorem scanRow_inactive {clients : List ℕ} {now : ℕ} {row : WorkItem} (h : row.accountId ∉ clients) :
    scanRow clients now row = row := by
  have hmid : reclaimRow clients now row = row := if_neg fun hc => h hc.1
  rw [scanRow, hmid, if_neg fun hc => h hc.1]

/-- A committed scan overlooks nothing at its firing exactly when the boot saw as much. -/
theorem nothingOverlooked_iff {sha256 : String → ℕ} {hash : String → String} {table : WorkTable}
    {boot firing startedAt : ℕ} (previous : ℕ) {db : WorkDb} {log : WorkLog} (hkeyed : Keyed db) (hle : boot ≤ firing)
    (hlimit : WithinLimit table firing db)
    (h : alone applyWork db (handleReclaimAndScanJob sha256 hash table startedAt (scheduledData boot)
      ⟨fun _ => [], fun _ => []⟩) .empty = .ok (⟨⟩, log)) :
    NothingOverlooked table previous firing db (view applyWork db log.writes) ↔
      SeenAtBoot table boot previous firing db := by
  obtain ⟨hscanned, hrows⟩ := scan_alone hkeyed hle hlimit h
  have heffect : Effect hash db log (.scan table (scheduledData boot) ⟨fun _ => [], fun _ => []⟩) := hscanned
  have hview : (view applyWork db log.writes).rows table = (db.rows table).map (scanRow (activeClients db) boot) := by
    rw [view_rows, hscanned.added, List.append_nil]
    exact List.map_congr_left hrows
  have hmem {row : WorkItem} (hrow : row ∈ db.rows table) :
      scanRow (activeClients db) boot row ∈ (view applyWork db log.writes).rows table :=
    hview ▸ List.mem_map_of_mem hrow
  have hsame {row : WorkItem} (hrow : row ∈ db.rows table) : SameItem row (scanRow (activeClients db) boot row) :=
    hrows row hrow ▸ row.evolve_same table log.writes
  have hback {row row' : WorkItem} (hrow : row ∈ db.rows table)
      (hrow' : row' ∈ (view applyWork db log.writes).rows table) (hid : row'.id = row.id) :
      row' = scanRow (activeClients db) boot row :=
    (heffect.evolved hkeyed hrow hrow' hid).trans (hrows row hrow)
  constructor
  · intro hnone row hrow hactive
    refine (scanRow_iff hle hactive).mp ⟨?_, ?_, ?_⟩
    · exact hnone.due _ (hmem hrow) ((hsame hrow).accountId ▸ hactive)
    · exact hnone.stamped row hrow _ (hmem hrow) (hsame hrow).id
    · exact fun hstale => hnone.stale row hrow hactive hstale _ (hmem hrow) (hsame hrow).id
  · intro hseen
    refine ⟨fun row' hrow' hactive => ?_, fun row hrow row' hrow' hid hclaims => ?_,
      fun row hrow hactive hstale row' hrow' hid hstatus => ?_⟩
    · rw [hview] at hrow'
      obtain ⟨row, hrow, rfl⟩ := List.mem_map.mp hrow'
      rw [(hsame hrow).accountId] at hactive
      exact ((scanRow_iff hle hactive).mpr (hseen row hrow hactive)).1
    · rw [hback hrow hrow' hid] at hclaims ⊢
      by_cases hactive : row.accountId ∈ activeClients db
      · exact ((scanRow_iff hle hactive).mpr (hseen row hrow hactive)).2.1 hclaims
      · rw [scanRow_inactive hactive] at hclaims
        exact absurd hclaims (not_claims_self row)
    · rw [hback hrow hrow' hid] at hstatus ⊢
      exact ((scanRow_iff hle hactive).mpr (hseen row hrow hactive)).2.2 hstale hstatus

/-! ## Every firing after a boot -/

section cron

variable (sha256 : String → ℕ) (hash : String → String) (table : WorkTable)

/-- The scan of a later firing, no client over the limit, overlooks nothing. -/
def OverlooksNothing (s : CronState) : CronEvent → Prop
  | .fires firing => s.boot ≤ firing → WithinLimit table firing s.db →
      ∀ s' ∈ cronStep sha256 hash table s (.fires firing), NothingOverlooked table s.previous firing s.db s'.db
  | .elapses _ => True

def FiresSeenAtBoot (s : CronState) : CronEvent → Prop
  | .fires firing => s.boot ≤ firing → WithinLimit table firing s.db →
      SeenAtBoot table s.boot s.previous firing s.db
  | .elapses _ => True

theorem cronStep_keyed {s s' : CronState} {e : CronEvent} (hkeyed : Keyed s.db)
    (h : cronStep sha256 hash table s e = some s') : Keyed s'.db := by
  cases e with
  | fires firing =>
    simp only [cronStep] at h
    split at h
    · rename_i log halone
      obtain rfl := Option.some.inj h
      obtain ⟨hends, hseen⟩ := alone_ends halone (by simp [Log.empty])
      have hscanned := scanned_ends hkeyed hends fun p hp => by
        rw [hseen p hp]
        exact ⟨.refl _ _, hkeyed⟩
      exact hkeyed.view hscanned.not_inserted
    · cases h
  | elapses db =>
    simp only [cronStep] at h
    split at h
    · rename_i hdb
      obtain rfl := Option.some.inj h
      exact hdb
    · cases h

/-- After a boot, over all firings and whatever changes the rows between them, no scan overlooks due
work exactly when at each firing the boot saw as much. -/
theorem overlooksNothing_allSteps_iff {db : WorkDb} (h : Keyed db) (boot : ℕ) (events : List CronEvent) :
    Runs.AllSteps (cronStep sha256 hash table) (OverlooksNothing sha256 hash table) ⟨boot, boot, db⟩ events ↔
      Runs.AllSteps (cronStep sha256 hash table) (FiresSeenAtBoot table) ⟨boot, boot, db⟩ events := by
  refine Runs.allSteps_iff (fun s => Keyed s.db) (fun s e s' hkeyed hs => cronStep_keyed sha256 hash table hkeyed hs)
    (fun s e s' hkeyed hs => ?_) events _ h
  cases e with
  | elapses db => exact Iff.rfl
  | fires firing =>
    have hsteps := hs
    simp only [cronStep] at hsteps
    split at hsteps
    · rename_i log halone
      obtain rfl := Option.some.inj hsteps
      have hiff (hle : s.boot ≤ firing) (hlimit : WithinLimit table firing s.db) :=
        nothingOverlooked_iff s.previous hkeyed hle hlimit halone
      constructor
      · exact fun hF hle hlimit => (hiff hle hlimit).mp (hF hle hlimit _ hs)
      · intro hG hle hlimit s' hs'
        obtain rfl := Option.some.inj (hs.symm.trans hs')
        exact (hiff hle hlimit).mpr (hG hle hlimit)
    · cases hsteps

end cron

/-! ## A command that comes due after the boot -/

instance (table : WorkTable) (now : ℕ) (db : WorkDb) : Decidable (WithinLimit table now db) := by
  unfold WithinLimit
  infer_instance

instance (table : WorkTable) (previous firing : ℕ) (db db' : WorkDb) :
    Decidable (NothingOverlooked table previous firing db db') :=
  decidable_of_iff (_ ∧ _ ∧ _) ⟨fun h => ⟨h.1, h.2.1, h.2.2⟩, fun h => ⟨h.due, h.stamped, h.stale⟩⟩

instance (sha256 : String → ℕ) (hash : String → String) (table : WorkTable) (s : CronState) :
    ∀ e, Decidable (OverlooksNothing sha256 hash table s e)
  | .fires _ => inferInstanceAs (Decidable (_ → _ → _))
  | .elapses _ => .isTrue trivial

/-- A command due a minute after time 0. -/
def pendingCommand : WorkDb :=
  { emptyQueue with rows := fun
      | .workflowCommand => [{
          id := 0, accountId := 7, workflowInstanceId := 3, commandId := 0, dedupeKey := "",
          typeKey := "deliver_dispute", payload := .obj [("disputeId", .str "d")], due := 60000000, status := .pending,
          attempts := 0, claimedAt := none }]
      | .workflowOutboxMessage => [] }

/-- A worker that boots at time 0 leaves it pending at every firing. -/
theorem pendingCommand_overlooked :
    ¬ Runs.AllSteps (cronStep Claims.textNumber id .workflowCommand)
      (OverlooksNothing Claims.textNumber id .workflowCommand) ⟨0, 0, pendingCommand⟩
      [.fires 60000000, .fires 120000000] := by
  decide +kernel

/-- A worker that boots when it is due claims it at its first firing. -/
theorem pendingCommand_seen :
    Runs.AllSteps (cronStep Claims.textNumber id .workflowCommand) (FiresSeenAtBoot .workflowCommand)
      ⟨60000000, 60000000, pendingCommand⟩ [.fires 120000000, .fires 180000000] :=
  (overlooksNothing_allSteps_iff Claims.textNumber id .workflowCommand
    (show Keyed pendingCommand by decide) 60000000 [.fires 120000000, .fires 180000000]).mp (by decide +kernel)

end WorkQueue
