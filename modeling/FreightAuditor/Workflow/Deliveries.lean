import FreightAuditor.Workflow.NoLostClaims

/- What a committed delivery leaves behind.

   The dispatcher runs the handler, asks for the completion, and commits whatever the
   completion found. The item is done exactly when the completion met it claimed or done
   (`Completed`), or another delivery had finished it in the meantime. A late retry of an item
   that has been given up commits the handler's effects and leaves the item failed
   (`lateRetry_leaves_failed`). -/
namespace WorkQueue

open ReadCommitted

/-! ## The handler registered for commands -/

/-- `handleDeliverDisputeCommand`: a message to the carrier, and a record of the communication. -/
def handleDeliverDisputeCommand (sha256 : String → ℕ) (ctx : HandlerCtx) (tx startedAt : ℕ) : WorkProg Unit :=
  match (ctx.payload.get? "disputeId").bind Json.Value.text? with
  | none | some "" => .fail (.handler ("deliver_dispute command payload missing disputeId (commandId=" ++
      toString ctx.commandId ++ ")"))
  | some disputeId => do
    recordOutboxMessage sha256 tx startedAt {
      clientId := ctx.clientId
      workflowInstanceId := ctx.workflowInstanceId
      commandId := ctx.commandId
      dedupeKey := "dispute-delivery:" ++ disputeId
      payload := [("disputeId", .str disputeId)]
      messageType := "dispute_delivery" }
    .exec (fun _ => []) fun _ =>
      .ok ((), [.effect ("Delivery to carrier initiated for dispute " ++ disputeId ++ ".")])

theorem handleDeliverDisputeCommand_onlyAdds (sha256 : String → ℕ) (ctx : HandlerCtx) (tx startedAt : ℕ) (log : WorkLog)
    (h : Ends applyWork (handleDeliverDisputeCommand sha256 ctx tx startedAt) .empty ⟨⟩ log) : OnlyAdds log := by
  unfold handleDeliverDisputeCommand at h
  split at h
  · exact (ends_fail h).elim
  · exact (ends_fail h).elim
  · simp only [ends_bind, ends_exec] at h
    obtain ⟨⟨⟩, mid, hrecord, s, ws, hf, rfl⟩ := h
    obtain ⟨-, rfl⟩ := Prod.mk.inj (Except.ok.inj hf)
    exact (recordOutboxMessage_onlyAdds .empty hrecord).effect s _ _

/-- The handlers registered at startup: one for commands, and no sender of messages. -/
def handlers (sha256 : String → ℕ) : WorkTable → String → Option Handler
  | .workflowCommand, "deliver_dispute" =>
    some ⟨handleDeliverDisputeCommand sha256, handleDeliverDisputeCommand_onlyAdds sha256⟩
  | _, _ => none

/-! ## What a delivery should leave -/

/-- The item of a committed delivery is done. -/
def LeavesDone (call : WorkCall) (db' : WorkDb) : Prop :=
  match call with
  | .deliver table data => ∃ row ∈ db'.rows table, row.accountId = data.clientId ∧ row.id = data.itemId ∧
      row.status = .done
  | _ => True

/-- An item that is done stays so. -/
def DoneStays (db db' : WorkDb) : Prop :=
  ∀ table, ∀ row ∈ db.rows table, row.status = .done → ∃ row' ∈ db'.rows table, row'.id = row.id ∧ row'.status = .done

/-- What a completion finds when it runs, in terms of the rows committed by then. -/
def Completed (registry : WorkTable → String → Option Handler) (table : WorkTable) (data : JobPayload)
    (tx startedAt : ℕ) (log : WorkLog) : Prop :=
  ∃ parsed handler mid saw held rest, parseJobPayload data = .ok parsed ∧
    registry table parsed.typeKey = some handler ∧
    Ends applyWork (handler.run (buildCtx table parsed) tx startedAt) .empty ⟨⟩ mid ∧
    log.seen = mid.seen ++ (saw, held) :: rest ∧
    (findCompletable table parsed (view applyWork saw mid.writes)).isSome

/-- The item is done when the delivery commits, or was claimed or done when its completion ran. -/
def MeetsItem (registry : WorkTable → String → Option Handler) (w : World WorkDb WorkWrite WorkLock WorkError Unit WorkCall)
    (e : Event WorkCall) : Prop :=
  ∀ i t table data, e = .commit i → w.opened i = some t → t.call = .deliver table data →
    LeavesDone t.call w.db ∨ Completed registry table data i t.startedAt t.log

instance (call : WorkCall) (db' : WorkDb) : Decidable (LeavesDone call db') := by
  unfold LeavesDone
  split <;> infer_instance

instance (db db' : WorkDb) : Decidable (DoneStays db db') := by
  unfold DoneStays
  infer_instance

section

variable {sha256 : String → ℕ} {hash : String → String} {registry : WorkTable → String → Option Handler} {db : WorkDb}
  {log : WorkLog}

/-- Done is absorbing, whatever commits. -/
theorem Effect.doneStays {call : WorkCall} (h : Effect hash db log call) : DoneStays db (view applyWork db log.writes) := by
  intro table row hrow hdone
  refine ⟨_, mem_view_of_mem hrow log.writes, row.evolve_id _ _, ?_⟩
  rcases h.cases with hadvanced | ⟨table', data, skips, -, hscan⟩
  · rcases hadvanced.rows table row hrow with he | ⟨-, he⟩ <;> rw [he]
    · exact hdone
    · rfl
  · have hnotStale : row.isStale data.requestedAt ≠ true := fun hs => by
      rw [(WorkItem.isStale_iff.mp hs).1] at hdone
      cases hdone
    rcases hscan.row hrow with (he | ⟨hs, -⟩) | ⟨-, mid, hmid, hdue, -⟩
    · rw [he]
      exact hdone
    · exact absurd hs hnotStale
    · obtain rfl | ⟨hs, -⟩ := hmid
      · rw [(WorkItem.isDue_iff.mp hdue).1] at hdone
        cases hdone
      · exact absurd hs hnotStale

theorem DeliverRun.completed_iff {table : WorkTable} {tx startedAt : ℕ} {data : JobPayload}
    (run : DeliverRun registry table tx startedAt data log) : Completed registry table data tx startedAt log ↔
      (findCompletable table run.parsed (view applyWork run.saw run.mid.writes)).isSome = true := by
  obtain ⟨held, rest, hseen, -⟩ := run.seen
  constructor
  · rintro ⟨parsed, handler, mid, saw, held', rest', hparse, hreg, hran, hseen', hsome⟩
    obtain rfl := Except.ok.inj (run.parse_ok.symm.trans hparse)
    obtain rfl := Option.some.inj (run.registered.symm.trans hreg)
    -- the handler's statements end where they end
    obtain ⟨-, hmid⟩ := run.ran.unique hran (hseen.symm.trans hseen')
    rw [hseen, ← hmid] at hseen'
    have hsaw := congrArg Prod.fst (List.cons.inj (List.append_cancel_left hseen')).1
    rwa [hmid, show run.saw = saw from hsaw]
  · exact fun hsome => ⟨run.parsed, run.handler, run.mid, run.saw, held, rest, run.parse_ok, run.registered, run.ran,
      hseen, hsome⟩

/-- A delivery leaves its item done exactly when the completion met it, or it is done already. -/
theorem DeliverRun.leavesDone_iff {table : WorkTable} {tx startedAt : ℕ} {data : JobPayload}
    (run : DeliverRun registry table tx startedAt data log) (hkeyed : Keyed db)
    (hseen : ∀ p ∈ log.seen, WorkSince p.2 p.1 db) :
    LeavesDone (.deliver table data) (view applyWork db log.writes) ↔
      LeavesDone (.deliver table data) db ∨ Completed registry table data tx startedAt log := by
  have hparsed := parseJobPayload_ok run.parse_ok
  rw [run.completed_iff]
  simp only [LeavesDone]
  by_cases hsome : (findCompletable table run.parsed (view applyWork run.saw run.mid.writes)).isSome = true
  · refine iff_of_true ?_ (.inr hsome)
    obtain ⟨row, hrow, haccount, hid, -⟩ := run.found hseen hsome
    have hevolve : row.evolve table log.writes = row.complete := by
      rw [run.evolve, if_pos ⟨hsome, rfl, hid⟩]
    refine ⟨row.complete, hevolve ▸ mem_view_of_mem hrow log.writes, ?_, ?_, rfl⟩
    · exact haccount.trans (by rw [hparsed])
    · exact hid.trans (by rw [hparsed])
  · have hevolve (row : WorkItem) : row.evolve table log.writes = row := by
      rw [run.evolve, if_neg fun h => hsome h.1]
    constructor
    · rintro ⟨row, hrow, haccount, hid, hdone⟩
      rw [view_rows, List.mem_append] at hrow
      rcases hrow with hold | hadded
      · obtain ⟨row', hrow', rfl⟩ := List.mem_map.mp hold
        rw [hevolve] at haccount hid hdone
        exact .inl ⟨row', hrow', haccount, hid, hdone⟩
      · -- a new item is pending
        rw [((run.advanced hkeyed hseen).new table row hadded).1] at hdone
        cases hdone
    · rintro (⟨row, hrow, haccount, hid, hdone⟩ | h)
      · exact ⟨row, hevolve row ▸ mem_view_of_mem hrow log.writes, haccount, hid, hdone⟩
      · exact absurd h hsome

variable (sha256 hash registry)

theorem keyed_outline : Outline (workSystem sha256 hash registry) Keyed WorkSince (fun _ _ _ => True) where
  refl := WorkSince.refl
  good := fun _ _ _ _ _ _ hcommit _ => (work_effect hcommit.good hcommit.ends fun p hp =>
    ⟨(hcommit.seen p hp).2, (hcommit.seen p hp).1⟩).keyed hcommit.good
  rely := fun _ _ _ _ _ _ hcommit _ _ hdisjoint hs => hs.view (work_covered hcommit.good hcommit.ends fun p hp =>
    ⟨(hcommit.seen p hp).2, (hcommit.seen p hp).1⟩) hdisjoint

/-- Along every run, all committed deliveries leave their item done, and done stays done, exactly when
each of them met its item: claimed or done when the completion ran, or done when the delivery commits. -/
theorem leavesDone_allSteps_iff (h : Keyed db) (next now : ℕ) (events : List (Event WorkCall)) :
    Runs.AllSteps (step (workSystem sha256 hash registry))
        (CommitsMeet fun db call log =>
          LeavesDone call (view applyWork db log.writes) ∧ DoneStays db (view applyWork db log.writes))
        (World.initial db next now) events ↔
      Runs.AllSteps (step (workSystem sha256 hash registry)) (MeetsItem registry) (World.initial db next now) events := by
  refine (keyed_outline sha256 hash registry).allSteps_iff (fun w e w' hw hs => ?_) h next now events
  by_cases hc : ∃ i, e = .commit i
  swap
  · exact iff_of_true (fun i _ he => absurd ⟨i, he⟩ hc) fun i _ _ _ he => absurd ⟨i, he⟩ hc
  obtain ⟨i, rfl⟩ := hc
  obtain ⟨t, r, ht, hr, -⟩ := step_commit hs
  have hcommit := hw.commit_of ht hr
  have hseen : ∀ p ∈ t.log.seen, WorkSince p.2 p.1 w.db ∧ Keyed p.1 :=
    fun p hp => ⟨(hcommit.seen p hp).2, (hcommit.seen p hp).1⟩
  have hstays : DoneStays w.db (view applyWork w.db t.log.writes) :=
    (work_effect hcommit.good hcommit.ends hseen).doneStays
  have hone : LeavesDone t.call (view applyWork w.db t.log.writes) ↔
      ∀ table data, t.call = .deliver table data →
        LeavesDone t.call w.db ∨ Completed registry table data i t.startedAt t.log := by
    cases hcall : t.call with
    | deliver table data =>
      have hends := hcommit.ends
      rw [hcall] at hends
      obtain ⟨run⟩ := deliver_ends hends
      rw [run.leavesDone_iff hcommit.good fun p hp => (hseen p hp).1]
      constructor
      · rintro hmet table' data' hsame
        cases hsame
        exact hmet
      · exact fun hmet => hmet table data rfl
    | _ => exact iff_of_true trivial fun _ _ hsame => (by cases hsame)
  constructor
  · intro hF j u table data he hu hcall
    obtain rfl := Event.commit.inj he
    obtain rfl := Option.some.inj (ht.symm.trans hu)
    exact hone.mp (hF i t rfl ht).1 table data hcall
  · intro hG j u he hu
    obtain rfl := Event.commit.inj he
    obtain rfl := Option.some.inj (ht.symm.trans hu)
    exact ⟨hone.mpr fun table data hcall => hG i t table data rfl ht hcall, hstays⟩

end

/-! ## A retry in time, and one too late -/

/-- A command that has been claimed this often. -/
def claimedCommand (attempts : ℕ) : WorkDb :=
  { emptyQueue with rows := fun
      | .workflowCommand => [{
          id := 0, accountId := 7, workflowInstanceId := 3, commandId := 0, dedupeKey := "",
          typeKey := "deliver_dispute", payload := .obj [("disputeId", .str "d")], due := 0, status := .claimed,
          attempts, claimedAt := some 0 }]
      | .workflowOutboxMessage => [] }

/-- The job of that claim. -/
def commandJob (key : String) : WorkCall :=
  .deliver .workflowCommand {
    schemaVersion := 1, clientId := 7, idempotencyKey := key, requestedAt := 0, itemId := 0, workflowInstanceId := 3,
    commandId := 0, typeKey := "deliver_dispute", payload := .obj [("disputeId", .str "d")] }

/-- A tick gives the command up after its fifth attempt, and then the job of that attempt is retried. -/
def lateRetry : List (Event WorkCall) :=
  [.begin (.scan .workflowCommand ⟨1, staleAfter⟩ ⟨fun _ => [], fun _ => []⟩), .exec 1, .exec 1, .exec 1, .exec 1,
    .exec 1, .commit 1, .begin (commandJob "workflow-command:0:5"), .exec 2, .exec 2, .exec 2, .exec 2, .exec 2, .exec 2,
    .commit 2]

theorem lateRetry_leaves_failed :
    let sys := workSystem Claims.textNumber id (handlers Claims.textNumber)
    (Runs.final (step sys) (World.initial (claimedCommand 5) 1 0) lateRetry).any (fun w =>
        (w.db.rows .workflowCommand).map (·.status) = [.failed] ∧
          w.db.effects = ["Delivery to carrier initiated for dispute d."]) = true ∧
      ¬ Runs.AllSteps (step sys) (CommitsMeet fun db call log =>
          LeavesDone call (view applyWork db log.writes) ∧ DoneStays db (view applyWork db log.writes))
        (World.initial (claimedCommand 5) 1 0) lateRetry := by
  decide +kernel

/-- The job of a first claim, delivered twice. -/
def deliveredTwice : List (Event WorkCall) :=
  [.begin (commandJob "workflow-command:0:1"), .begin (commandJob "workflow-command:0:1"), .exec 1, .exec 1, .exec 1,
    .exec 1, .exec 1, .exec 1, .commit 1, .exec 2, .exec 2, .exec 2, .exec 2, .exec 2, .commit 2]

theorem deliveredTwice_meets :
    Runs.AllSteps (step (workSystem Claims.textNumber id (handlers Claims.textNumber)))
      (MeetsItem (handlers Claims.textNumber)) (World.initial (claimedCommand 1) 1 0) deliveredTwice :=
  (leavesDone_allSteps_iff Claims.textNumber id (handlers Claims.textNumber)
    (show Keyed (claimedCommand 1) by unfold Keyed; decide) 1 0 deliveredTwice).mp (by decide +kernel)

end WorkQueue
