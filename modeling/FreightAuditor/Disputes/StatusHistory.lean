import FreightAuditor.Disputes.Creation
import FreightAuditor.Library.DecimalRef

/- The status of a finding and the history of its changes.

   `updateFindingStatus` reads the status it logs as the old one in the snapshot of its
   statement, and then waits for the row. `historyMatches_iff` says that the history leads
   to the present status along exactly those interleavings in which no other change of the
   finding comes in between. -/
namespace Disputes

open Claims (FindingStatusEvent VarianceStatus textNumber)
open DecimalJs ReadCommitted

/-- Where a history leads from a status, each change starting where the last one ended. -/
def statusChain : VarianceStatus → List FindingStatusEvent → Option VarianceStatus
  | status, [] => some status
  | status, e :: rest => if e.fromStatus = status then statusChain e.toStatus rest else none

theorem statusChain_append (status : VarianceStatus) (events : List FindingStatusEvent) (e : FindingStatusEvent) :
    statusChain status (events ++ [e]) =
      (statusChain status events).bind fun s => if e.fromStatus = s then some e.toStatus else none := by
  induction events generalizing status with
  | nil => rfl
  | cons head rest ih =>
    rw [List.cons_append, statusChain, statusChain]
    split
    · exact ih _
    · rfl

/-- The history of a finding. -/
def DisputeDb.historyOf (db : DisputeDb) (findingId : ℕ) : List FindingStatusEvent :=
  db.findingStatusEvents.filter (·.varianceFindingId = findingId)

/-- From the first status on, every history leads to the present one. -/
def HistoryMatches (initial : KeyedTable VarianceFinding VarianceFinding.id) (db : DisputeDb) : Prop :=
  ∀ f ∈ initial.rows, statusChain f.status (db.historyOf f.id) = (db.finding f.id).map VarianceFinding.status

instance (initial : KeyedTable VarianceFinding VarianceFinding.id) (db : DisputeDb) :
    Decidable (HistoryMatches initial db) :=
  inferInstanceAs (Decidable (∀ f ∈ initial.rows, _ = _))

/-- At an analyst's commit, the finding had in the statement's snapshot the status it has now. -/
def SnapshotCurrent (db : DisputeDb) (call : DisputeCall) (log : Log DisputeDb DisputeWrite LockKey) : Prop :=
  ∀ change ∈ call.statusChange?, ∀ p ∈ log.seen[0]?, ∀ old ∈ findFinding p.1 change.clientId change.findingId,
    (db.finding change.findingId).map VarianceFinding.status = some old.status

section

variable {initial : KeyedTable VarianceFinding VarianceFinding.id} {db : DisputeDb}

/-! ## What a commit changes -/

theorem finding_apply_unset (db : DisputeDb) (w : DisputeWrite) (id : ℕ) :
    ((apply db w).finding id).map VarianceFinding.unset = (db.finding id).map VarianceFinding.unset := by
  cases w with
  | updateFindingStatus findingId status =>
    rw [finding_update, Option.map_map]
    congr 1
    funext f
    simp only [Function.comp, VarianceFinding.updateStatus]
    split <;> rfl
  | _ => rfl

theorem FindingsOf.view (h : FindingsOf initial db) (ws : List DisputeWrite) :
    FindingsOf initial (view Disputes.apply db ws) := by
  induction ws generalizing db with
  | nil => exact h
  | cons w ws ih => exact ih fun id => (finding_apply_unset db w id).trans (h id)

theorem findingsOf_initial (initial : KeyedTable VarianceFinding VarianceFinding.id) :
    FindingsOf initial (DisputeDb.initial initial) := fun _ => rfl

theorem historyMatches_initial (initial : KeyedTable VarianceFinding VarianceFinding.id) :
    HistoryMatches initial (DisputeDb.initial initial) := by
  intro f hf
  rw [show (DisputeDb.initial initial).finding f.id = some f from KeyedTable.find?_eq_some.mpr ⟨hf, rfl⟩]
  rfl

/-- A change keeps histories exactly if it logs the status that the row had. -/
theorem historyMatches_status (db : DisputeDb) (hof : FindingsOf initial db) (hmatch : HistoryMatches initial db)
    {clientId findingId statusEventId : ℕ} {fromStatus toStatus : VarianceStatus} {note : Option String}
    {row : VarianceFinding} (hrow : db.finding findingId = some row) :
    HistoryMatches initial
        (view apply db (statusWrites clientId findingId fromStatus toStatus note statusEventId)) ↔
      fromStatus = row.status := by
  obtain ⟨db', hdb'⟩ : ∃ db', view apply db
    (statusWrites clientId findingId fromStatus toStatus note statusEventId) = db' := ⟨_, rfl⟩
  have hfinding (id : ℕ) : db'.finding id = (db.finding id).map (.updateStatus findingId toStatus) := by
    rw [← hdb']
    exact finding_update db findingId toStatus id
  have hevents : db'.findingStatusEvents = db.findingStatusEvents ++
      [⟨statusEventId, clientId, findingId, fromStatus, toStatus, .analyst, note⟩] := by
    rw [← hdb']
    rfl
  rw [hdb']
  have hid : row.id = findingId := (KeyedTable.find?_sound hrow).2
  -- the histories of the others stay
  have hother : ∀ f ∈ initial.rows, f.id ≠ findingId →
      statusChain f.status (db'.historyOf f.id) = (db'.finding f.id).map VarianceFinding.status := by
    intro f hf hne
    have hhistory : db'.historyOf f.id = db.historyOf f.id := by
      rw [DisputeDb.historyOf, hevents]
      exact filter_insert (by simpa [eq_comm] using hne)
    rw [hhistory, hmatch f hf, hfinding]
    cases hf' : db.finding f.id with
    | none => rfl
    | some g =>
      have hg : g.id = f.id := (KeyedTable.find?_sound hf').2
      rw [Option.map_some, Option.map_some, Option.map_some, VarianceFinding.updateStatus, if_neg (hg ▸ hne)]
  -- and the finding's own goes on
  have hown : ∀ f ∈ initial.rows, f.id = findingId →
      (statusChain f.status (db'.historyOf f.id) = (db'.finding f.id).map VarianceFinding.status ↔
        fromStatus = row.status) := by
    intro f hf hfid
    have hhistory : db'.historyOf f.id = db.historyOf f.id ++
        [⟨statusEventId, clientId, findingId, fromStatus, toStatus, .analyst, note⟩] := by
      rw [DisputeDb.historyOf, hevents, List.filter_append]
      simp [DisputeDb.historyOf, hfid]
    have hcur := hmatch f hf
    rw [hfid, hrow, Option.map_some] at hcur
    rw [hhistory, statusChain_append, hfid, hcur, hfinding, hrow, Option.map_some, Option.map_some,
      VarianceFinding.updateStatus, if_pos hid, Option.bind_some]
    by_cases hfrom : fromStatus = row.status
    · simp [hfrom]
    · simp [hfrom]
  constructor
  · intro h
    obtain ⟨f, hf, -⟩ := Option.map_eq_some_iff.mp ((hof findingId).symm.trans (by rw [hrow]; rfl))
    obtain ⟨hf, hfid⟩ := KeyedTable.find?_sound hf
    exact (hown f hf hfid).mp (h f hf)
  · intro h f hf
    by_cases hfid : f.id = findingId
    · exact (hown f hf hfid).mpr h
    · exact hother f hf hfid

/-- The lines of a dispute keep histories: their findings are as they were read. -/
theorem historyMatches_included {tx clientId disputeId : ℕ} (entries : List (VarianceFinding × ℕ)) :
    ∀ db : DisputeDb, FindingsOf initial db → HistoryMatches initial db →
      (entries.map fun e => e.1.id).Nodup → (∀ e ∈ entries, db.finding e.1.id = some e.1) →
      HistoryMatches initial (view apply db (entries.flatMap (included tx clientId disputeId))) := by
  induction entries with
  | nil => exact fun _ _ hmatch _ _ => hmatch
  | cons e rest ih =>
    intro db hof hmatch hnodup hrow
    rw [List.map_cons, List.nodup_cons] at hnodup
    rw [List.flatMap_cons, view_append]
    obtain ⟨mid, hmid⟩ : ∃ mid, view apply db (included tx clientId disputeId e) = mid := ⟨_, rfl⟩
    rw [hmid]
    refine ih mid (hmid ▸ hof.view _) ?_ hnodup.2 fun e' he' => ?_
    · rw [← hmid]
      exact (historyMatches_status (apply db (.insertDisputeLine _)) hof hmatch
        (hrow e List.mem_cons_self)).mpr rfl
    · rw [← hmid, finding_view_other, hrow e' (List.mem_cons_of_mem _ he')]
      have hne : e'.1.id ≠ e.1.id := fun h => hnodup.1 (List.mem_map.mpr ⟨e', he', h⟩)
      simp [included, statusWrites, DisputeWrite.locks, hne]

/-! ## Commits -/

variable {D : Type} [Decimal D] {sha256 : String → ℕ} {toISOString : ℤ → String} {tx startedAt : ℕ}
  {log : Log DisputeDb DisputeWrite LockKey} {call : DisputeCall} {r : DisputeResult}

theorem main_onDispute (db : DisputeDb) {ws : List DisputeWrite} (h : ∀ w ∈ ws, w.OnDispute) :
    (view apply db ws).finding = db.finding ∧ (view apply db ws).findingStatusEvents = db.findingStatusEvents := by
  induction ws generalizing db with
  | nil => exact ⟨rfl, rfl⟩
  | cons w ws ih =>
    obtain ⟨hfinding, hevents⟩ := ih (apply db w) fun v hv => h v (List.mem_cons_of_mem _ hv)
    have hw := h w List.mem_cons_self
    rw [view_cons, hfinding, hevents]
    cases w <;> first | exact ⟨rfl, rfl⟩ | exact hw.elim

theorem historyMatches_commit
    (h : Commit (disputesSystem sha256 D toISOString) (FindingsOf initial) Since db call tx startedAt r log)
    (hmatch : HistoryMatches initial db) :
    HistoryMatches initial (view apply db log.writes) ↔ SnapshotCurrent db call log := by
  obtain ⟨hof, hends, hseen⟩ := h
  have hmain : HistoryMatches initial (view apply db log.writes) ↔
      HistoryMatches initial (view apply db.main (mainWrites log.writes)) := by
    rw [← main_view]
    exact Iff.rfl
  cases hcall : call.statusChange? with
  | some change =>
    obtain ⟨snapshot, rest, hfirst, hcase⟩ := statusChange_ends hcall hends
    have hsnapshot : FindingsOf initial snapshot := (hseen (snapshot, []) (by rw [hfirst]; exact List.mem_cons_self)).1
    have hiff : SnapshotCurrent db call log ↔ ∀ old ∈ findFinding snapshot change.clientId change.findingId,
        (db.finding change.findingId).map VarianceFinding.status = some old.status := by
      simp [SnapshotCurrent, hcall, hfirst]
    rw [hmain, hiff]
    obtain ⟨hnone, hwrites⟩ | ⟨old, hold, hwrites⟩ := hcase
    · rw [hwrites, hnone]
      exact iff_of_true hmatch (fun old hold => by cases hold)
    · have hsome := hsnapshot.isSome_eq hof change.clientId change.findingId
      rw [hold, Option.isSome_some] at hsome
      obtain ⟨row, hrow⟩ := Option.isSome_iff_exists.mp hsome.symm
      rw [findFinding_eq, Option.filter_eq_some_iff] at hrow
      rw [hwrites, historyMatches_status db.main hof hmatch hrow.1, hold, hrow.1]
      simp [eq_comm]
  | none =>
    have htrue : SnapshotCurrent db call log := by
      intro change hchange
      rw [hcall] at hchange
      cases hchange
    refine iff_of_true ?_ htrue
    cases call with
    | createDisputeFromFindings input =>
      simp only [disputesSystem, DisputeCall.body, ends_bind, ends_pure] at hends
      obtain ⟨created, _, hends, -, rfl⟩ := hends
      obtain ⟨run⟩ := createDispute_ends hends hseen hof
      rw [hmain, run.writes, view_cons]
      have hrow : ∀ f ∈ run.claimed, db.finding f.id = some f := fun f hf => by
        have hpresent := run.present f hf
        rw [findFinding_eq, Option.filter_eq_some_iff] at hpresent
        exact hpresent.1
      refine historyMatches_included (run.claimed.zipIdx 1) (apply db.main (.insertDispute _)) hof hmatch ?_ ?_
      · have hnodup := run.nodup
        rwa [← List.zipIdx_map_fst 1 run.claimed, List.map_map] at hnodup
      · exact fun e he => hrow e.1 (List.fst_mem_of_mem_zipIdx he)
    | applyFindingAction clientId findingId action note actorUserId => cases hcall
    | patchFindingStatus clientId findingId status note actorUserId => cases hcall
    | _ =>
      obtain ⟨hfinding, hevents⟩ := main_onDispute db (onDispute_writes hends trivial)
      intro f hf
      rw [DisputeDb.historyOf, hevents, hfinding]
      exact hmatch f hf

end

/-! ## Every interleaving -/

section

variable (D : Type) [Decimal D] (sha256 : String → ℕ) (toISOString : ℤ → String)
  (initial : KeyedTable VarianceFinding VarianceFinding.id)

theorem findings_outline :
    Outline (disputesSystem sha256 D toISOString) (FindingsOf initial) Since (fun _ _ _ => True) :=
  disputes_outline fun _ _ _ _ _ log h => h.good.view log.writes

/-- The histories lead to the present statuses along a run exactly if, at each analyst's commit, the
finding has the status that the statement's snapshot had. -/
theorem historyMatches_iff (next now : ℕ) (events : List (Event DisputeCall)) :
    Runs.AllStates (step (disputesSystem sha256 D toISOString)) (fun w => HistoryMatches initial w.db)
        (World.initial (DisputeDb.initial initial) next now) events ↔
      Runs.AllSteps (step (disputesSystem sha256 D toISOString)) (CommitsMeet SnapshotCurrent)
        (World.initial (DisputeDb.initial initial) next now) events :=
  (findings_outline D sha256 toISOString initial).allStates_iff (HistoryMatches initial) SnapshotCurrent
    (fun _ _ _ _ _ _ h hmatch => historyMatches_commit h hmatch) (findingsOf_initial initial)
    (historyMatches_initial initial) next now events

end

theorem oneFinding_amount : |(500000 : ℤ)| < 10 ^ 18 := by decide

/-- One finding, open. -/
def oneFinding : KeyedTable VarianceFinding VarianceFinding.id :=
  ⟨[⟨7, 1, some 5, some "USD", some ⟨500000, oneFinding_amount⟩, some .OVERCHARGE, .open,
    fun _ _ h => Option.some.inj h ▸ Int.natCast_nonneg 500000⟩], List.nodup_singleton _⟩

def analystAction (action : FindingAction) : DisputeCall := .applyFindingAction 1 7 action none none

/-- Two analysts at once: the second logs a change from the status before the first. -/
theorem concurrentActions_diverge :
    ¬ Runs.AllStates (step (disputesSystem textNumber Ref toString))
      (fun w => HistoryMatches oneFinding w.db) (World.initial (DisputeDb.initial oneFinding) 1 0)
      [.begin (analystAction .escalate), .begin (analystAction .accept), .exec 1, .exec 2, .exec 1, .exec 1,
        .commit 1, .exec 2, .exec 2, .commit 2] := by
  decide +kernel

end Disputes
