import FreightAuditor.Claims.Tables

/- The three operations on claims, each the body of one transaction:
   `createClaimFromDispute`, `recordPartialRecovery` and `resolveClaim`.

   For each there is one theorem saying what its log looks like when it finishes
   (`createClaimFromDispute_ends`, `recordPartialRecovery_ends`, `resolveClaim_ends`): the
   rows its statements saw, what they checked on them, and what was written. Everything
   about runs is derived from these. -/
namespace Claims

open DecimalJs DecimalText PgNumeric ReadCommitted ExceptOk

/-! ## Inputs -/

/-- `/^\d+(\.\d{1,4})?$/`. -/
def amountFormat (text : String) : Bool :=
  isPlainDecimal text.toList && decide (decimals text.toList ≤ 4)

structure CreateClaimInput where
  clientId : ℕ
  disputeId : ℕ
  actorUserId : Option ℕ

structure PartialRecoveryInput where
  clientId : ℕ
  claimId : ℕ
  amountRecovered : String
  currency : String
  varianceFindingId : Option ℕ

def PartialRecoveryInput.valid (input : PartialRecoveryInput) : Bool :=
  amountFormat input.amountRecovered && JsText.length input.currency == 3

structure ResolveClaimInput where
  clientId : ℕ
  claimId : ℕ
  kind : ClaimResolutionKind
  amountRecovered : Option String
  currency : Option String
  varianceFindingId : Option ℕ

def ResolveClaimInput.valid (input : ResolveClaimInput) : Bool :=
  input.amountRecovered.all amountFormat && input.currency.all (JsText.length · == 3)

inductive Call where
  | createClaimFromDispute (input : CreateClaimInput)
  | recordPartialRecovery (input : PartialRecoveryInput)
  | resolveClaim (input : ResolveClaimInput)

/-! ## Results -/

structure CreateClaimResult where
  claimId : ℕ
  disputeId : ℕ
  amountClaimed : String
  currency : String
  created : Bool
  deriving DecidableEq

structure PartialRecoveryResult where
  recoveryEventId : ℕ
  cumulativeRecovered : String
  isFinal : Bool
  deriving DecidableEq

structure ResolveClaimResult where
  claimId : ℕ
  kind : ClaimResolutionKind
  newStatus : ClaimStatus
  recoveryEventId : Option ℕ
  deriving DecidableEq

inductive Result where
  | createClaimFromDispute (result : CreateClaimResult)
  | recordPartialRecovery (result : PartialRecoveryResult)
  | resolveClaim (result : ResolveClaimResult)
  deriving DecidableEq

/-! ## Bodies -/

section

variable (D : Type) [Decimal D] (sha256 : String → ℕ)

def optionalText (text : Option String) : Json.Value := (text.map Json.Value.str).getD .null

/-- An event on a row, by an analyst. -/
def analystEvent (clientId : ℕ) (entity : String) (entityId : ℕ) (event : String) (actorUserId : Option ℕ)
    (detail : Json.Value) : AuditEventEvidence :=
  { clientId := some clientId, entity := entity, entityId := some entityId, event := event
    actorKind := .analyst, actorUserId := actorUserId, ruleVersionId := none, rubricSnapshotId := none
    detail := some detail }

/-- The claim of a dispute, as the operation reports it. -/
def selectExistingClaim (clientId disputeId : ℕ) : Statement (Option CreateClaimResult) :=
  .query fun db =>
    (db.claims.find? fun c => c.accountId == clientId && c.disputeId == some disputeId).map fun c =>
      ⟨c.id, disputeId, c.amountClaimed.text, c.currency.getD "", false⟩

/-- The findings of a dispute that stand on a line of another, already claimed one. -/
def conflictingFindings (db : Db) (clientId disputeId : ℕ) : List ℕ :=
  ((db.disputeLines.filter fun dl => dl.accountId == clientId && dl.disputeId == disputeId).filterMap
      DisputeLine.varianceFindingId).dedup.filter fun finding =>
    db.disputeLines.any fun other =>
      other.accountId == clientId && other.varianceFindingId == some finding &&
        other.disputeId != disputeId &&
        db.claims.any fun c => c.accountId == clientId && c.disputeId == some other.disputeId

def detectDuplicateClaimedFinding (clientId disputeId : ℕ) : Statement Unit := do
  let rows ← .query fun db => conflictingFindings db clientId disputeId
  if rows ≠ [] then .fail (.duplicateClaimedFinding rows)
  else return ()

/-- `INSERT INTO claim ... ON CONFLICT (account_id, dispute_id) DO NOTHING RETURNING id`. -/
def insertClaim (tx clientId disputeId : ℕ) (amountClaimed currency : String) : Statement (Option ℕ) :=
  let conflict (db : Db) := db.claims.any fun c => c.accountId == clientId && c.disputeId == some disputeId
  .exec (fun db => if conflict db then [] else [.claimDispute clientId disputeId, .claimPkey tx]) fun db => do
    let amount ← amountColumn amountClaimed
    if !currencyFormat currency then throw (.database "claim_currency_format_chk")
    if conflict db then return (none, [])
    if db.claims.any (·.id == tx) then throw (.database "claim_pkey")
    return (some tx, [.insertClaim ⟨tx, clientId, some disputeId, amount, some currency, .open⟩])

def createClaimFromDispute (tx startedAt : ℕ) (input : CreateClaimInput) : Statement CreateClaimResult := do
  let dispute ← .query fun db =>
    db.disputes.find? fun d => d.accountId == input.clientId && d.id == input.disputeId
  match dispute with
  | none => .fail .disputeNotFound
  | some dispute =>
    match ← selectExistingClaim input.clientId input.disputeId with
    | some existing => return existing
    | none =>
      let validated ← .ofExcept (validateClaimableDispute D
        ⟨dispute.id, dispute.status, dispute.amountClaimed.map Numeric.text, dispute.currency⟩)
      detectDuplicateClaimedFinding input.clientId input.disputeId
      match ← insertClaim tx input.clientId validated.disputeId validated.amountClaimed validated.currency with
      | none =>
        -- lost the race to a concurrent insert
        match ← selectExistingClaim input.clientId input.disputeId with
        | none => .fail (.unexpected "claim insert conflicted but no row was found on re-read")
        | some raced => return raced
      | some claimId =>
        let _ ← writeAuditEvent startedAt
          (deterministicAuditEventId sha256 [toString input.clientId, toString claimId, "claim.created"])
          (analystEvent input.clientId "claim" claimId "claim.created" input.actorUserId
            (.obj [("disputeId", .str (toString validated.disputeId)),
              ("amountClaimed", .str validated.amountClaimed), ("currency", .str validated.currency)]))
        return ⟨claimId, validated.disputeId, validated.amountClaimed, validated.currency, true⟩

def recordPartialRecovery (tx startedAt : ℕ) (input : PartialRecoveryInput) :
    Statement PartialRecoveryResult := do
  if !input.valid then .fail .schema
  else
    match ← selectClaim input.clientId input.claimId with
    | none => .fail .claimNotFound
    | some claim =>
      let priorTotal ← selectPriorTotal input.clientId input.claimId
      let validated ← .ofExcept (validatePartialRecovery D ⟨claim.id, claim.amountClaimed.text, claim.currency⟩
        input.amountRecovered (some input.currency) priorTotal)
      let recoveryEventId ← insertRecoveryEvent tx input.clientId input.claimId input.varianceFindingId
        validated.amountRecovered (some validated.currency)
      let _ ← writeAuditEvent startedAt
        (deterministicAuditEventId sha256
          [toString input.clientId, toString recoveryEventId, "recovery-event.recorded"])
        (analystEvent input.clientId "recovery_event" recoveryEventId "recovery_event.recorded" none
          (.obj [("claimId", .str (toString input.claimId)), ("amountRecovered", .str validated.amountRecovered),
            ("cumulativeRecovered", .str validated.cumulativeRecovered), ("isFinal", .bool validated.isFinal)]))
      return ⟨recoveryEventId, validated.cumulativeRecovered, validated.isFinal⟩

/-- A claim's outcome as a status of the finding it names, where it is one. -/
def findingStatusOf : ClaimStatus → Option VarianceStatus
  | .recovered => some .recovered
  | .written_off => some .written_off
  | _ => none

/-- The audit event of a claim reaching a status. -/
def claimEvent (status : ClaimStatus) : String := "claim." ++ status.text

def resolveClaim (tx startedAt : ℕ) (input : ResolveClaimInput) : Statement ResolveClaimResult := do
  if !input.valid then .fail .schema
  else
    match ← selectClaim input.clientId input.claimId with
    | none => .fail .claimNotFound
    | some claim =>
      let priorTotal ← selectPriorTotal input.clientId input.claimId
      let validated ← .ofExcept (validateClaimResolution D
        ⟨⟨claim.id, claim.amountClaimed.text, claim.currency⟩, claim.status⟩
        input.kind priorTotal input.amountRecovered input.currency)
      let recoveryEventId ← (match validated.amountRecovered with
        | none => return none
        | some amount => do
          let id ← insertRecoveryEvent tx input.clientId input.claimId input.varianceFindingId amount
            validated.currency
          return some id)
      updateClaimStatus input.clientId input.claimId validated.newStatus
      let _ ← (match input.varianceFindingId, findingStatusOf validated.newStatus with
        | some finding, some status => updateFindingStatus sha256 tx startedAt input.clientId finding status
            (some ("Claim resolved: " ++ validated.kind.text)) none
        | _, _ => return false)
      let _ ← writeAuditEvent startedAt
        (deterministicAuditEventId sha256
          [toString input.clientId, toString input.claimId, claimEvent validated.newStatus])
        (analystEvent input.clientId "claim" input.claimId (claimEvent validated.newStatus) none
          (.obj [("kind", .str validated.kind.text), ("amountRecovered", optionalText validated.amountRecovered),
            ("currency", optionalText validated.currency),
            ("recoveryEventId", optionalText (recoveryEventId.map toString))]))
      return ⟨input.claimId, validated.kind, validated.newStatus, recoveryEventId⟩

/-- The claim operations as transactions. -/
def claimsSystem : System Db Write LockKey ClaimsError Result Call where
  apply := apply
  body
    | .createClaimFromDispute input, tx, startedAt => do
      return .createClaimFromDispute (← createClaimFromDispute D sha256 tx startedAt input)
    | .recordPartialRecovery input, tx, startedAt => do
      return .recordPartialRecovery (← recordPartialRecovery D sha256 tx startedAt input)
    | .resolveClaim input, tx, startedAt => do
      return .resolveClaim (← resolveClaim D sha256 tx startedAt input)

end

/-! ## What a finished transaction has done -/

/-- The audit events that record a terminal status. -/
def claimTerminalEventNames : List String :=
  [claimEvent .recovered, claimEvent .denied, claimEvent .written_off]

def isTerminalEvent (e : AuditEvent) : Bool := e.entity == "claim" && claimTerminalEventNames.contains e.event

/-- A write that concerns neither claims, nor recoveries, nor their terminal events. -/
def Write.Aside : Write → Prop
  | .insertAuditEvent row => isTerminalEvent row = false
  | .insertFindingStatusEvent _ => True
  | .updateFindingStatus _ _ => True
  | _ => False

section aside

variable {db : Db} {ws : List Write}

theorem view_aside (h : ∀ w ∈ ws, w.Aside) :
    (view apply db ws).claims = db.claims ∧ (view apply db ws).recoveryEvents = db.recoveryEvents ∧
      (view apply db ws).auditEvents.filter isTerminalEvent = db.auditEvents.filter isTerminalEvent := by
  induction ws generalizing db with
  | nil => exact ⟨rfl, rfl, rfl⟩
  | cons w ws ih =>
    obtain ⟨hc, hr, ha⟩ := ih (fun v hv => h v (List.mem_cons_of_mem _ hv))
    have hw := h w List.mem_cons_self
    rw [view_cons, hc, hr, ha]
    cases w with
    | insertAuditEvent row =>
      have hrow : isTerminalEvent row = false := hw
      exact ⟨rfl, rfl, by simp [apply, hrow]⟩
    | insertFindingStatusEvent row => exact ⟨rfl, rfl, rfl⟩
    | updateFindingStatus id status => exact ⟨rfl, rfl, rfl⟩
    | insertClaim row => exact hw.elim
    | insertRecoveryEvent row => exact hw.elim
    | updateClaimStatus accountId claimId status => exact hw.elim

/-- Audit events are only ever added. -/
theorem view_auditEvents {row : AuditEvent} (h : row ∈ db.auditEvents) :
    row ∈ (view apply db ws).auditEvents := by
  induction ws generalizing db with
  | nil => exact h
  | cons w ws ih =>
    refine ih ?_
    cases w with
    | insertAuditEvent row' => exact List.mem_append_left _ h
    | _ => exact h

/-- No write touches disputes. -/
theorem view_disputes : (view apply db ws).disputes = db.disputes ∧
    (view apply db ws).disputeLines = db.disputeLines := by
  induction ws generalizing db with
  | nil => exact ⟨rfl, rfl⟩
  | cons w ws ih =>
    obtain ⟨hd, hl⟩ := ih
    rw [view_cons, hd, hl]
    cases w <;> exact ⟨rfl, rfl⟩

end aside

section ends

variable {D : Type} [Decimal D] {sha256 : String → ℕ} {tx startedAt : ℕ} {log log' : Log Db Write LockKey}

/-- Writing an audit event inserts it, unless it is there already. -/
theorem writeAuditEvent_ends {id : ℕ} {value : AuditEventEvidence} {created : Bool}
    (h : Ends apply (writeAuditEvent startedAt id value) log created log') :
    ∃ db event, log' = log.add db [.auditEvent id] event ∧
      (event = [.insertAuditEvent { value with id := id, recordedAt := startedAt }] ∧
          (∀ row ∈ (view apply db log.writes).auditEvents, row.id ≠ id) ∨
        event = [] ∧ ∃ row ∈ (view apply db log.writes).auditEvents, row.id = id ∧
          sameEvidence row.toAuditEventEvidence value = true) := by
  rw [writeAuditEvent, ends_exec] at h
  obtain ⟨db, event, hf, rfl⟩ := h
  refine ⟨db, event, rfl, ?_⟩
  split at hf
  · rename_i hnone
    obtain ⟨-, rfl⟩ := Prod.mk.inj (Except.ok.inj hf)
    left
    exact ⟨rfl, by simpa using hnone⟩
  · rename_i row hsome
    split at hf
    · rename_i hsame
      obtain ⟨-, rfl⟩ := Prod.mk.inj (Except.ok.inj hf)
      exact .inr ⟨rfl, row, List.mem_of_find?_eq_some hsome, by simpa using List.find?_some hsome, hsame⟩
    · cases hf

theorem amountColumn_ok {text : String} {n : Amount} : amountColumn text = .ok n ↔ ofText 18 4 text = some n := by
  rw [amountColumn]
  split <;> simp_all

/-- What is inserted is a recovery of a claim that exists. -/
theorem insertRecoveryEvent_ends {clientId claimId : ℕ} {finding : Option ℕ} {amount : String}
    {currency : Option String} {id : ℕ}
    (h : Ends apply (insertRecoveryEvent tx clientId claimId finding amount currency) log id log') :
    ∃ db n, id = tx ∧ ofText 18 4 amount = some n ∧ (∃ c ∈ (view apply db log.writes).claims, c.id = claimId) ∧
      log' = log.add db [] [.insertRecoveryEvent ⟨tx, clientId, some claimId, finding, n, currency⟩] := by
  rw [insertRecoveryEvent, ends_exec] at h
  obtain ⟨db, ws, hf, rfl⟩ := h
  simp only [bind_eq_ok, amountColumn_ok, throw_bind, ite_throw_eq_ok, pure_eq_ok, Prod.mk.injEq,
    Bool.not_eq_true', Bool.not_eq_false, List.any_eq_true, beq_iff_eq] at hf
  obtain ⟨n, hn, -, -, hclaim, -, rfl, rfl⟩ := hf
  exact ⟨db, n, rfl, hn, hclaim, rfl⟩

/-- The log of a finished `recordPartialRecovery`. -/
structure PartialRecoveryRun (tx : ℕ) (input : PartialRecoveryInput) (log : Log Db Write LockKey) where
  claimDb : Db
  totalDb : Db
  claim : Claim
  amount : Amount
  aside : List Write
  seen_claim : log.seen[0]? = some (claimDb, [])
  seen_total : log.seen[1]? = some (totalDb, [])
  found : findClaim claimDb input.clientId input.claimId = some claim
  positive : 0 < amount.units
  fits : recoveredTotal totalDb input.clientId input.claimId + amount.units ≤ claim.amountClaimed.units
  writes : log.writes = .insertRecoveryEvent ⟨tx, input.clientId, some input.claimId,
    input.varianceFindingId, amount, some input.currency⟩ :: aside
  aside_ok : ∀ w ∈ aside, w.Aside

theorem amountFormat_readsAs {text : String} (h : amountFormat text = true) : ∃ n : ℕ, ReadsAs 4 text n := by
  rw [amountFormat, Bool.and_eq_true, decide_eq_true_eq] at h
  exact readsAs_plain h.1 h.2

/-- An accepted amount is stored as it reads. -/
theorem amountFormat_stored {text : String} (h : amountFormat text = true) {n : Amount}
    (hn : ofText 18 4 text = some n) : ReadsAs 4 text n.units := by
  obtain ⟨m, hm⟩ := amountFormat_readsAs h
  exact (ofText_eq hm).mp hn ▸ hm

theorem recordPartialRecovery_ends {input : PartialRecoveryInput} {r : PartialRecoveryResult}
    (h : Ends apply (recordPartialRecovery D sha256 tx startedAt input) .empty r log) :
    Nonempty (PartialRecoveryRun tx input log) := by
  rw [recordPartialRecovery] at h
  split at h
  · exact h.elim
  rename_i hvalid
  rw [Bool.not_eq_true', Bool.not_eq_false, PartialRecoveryInput.valid, Bool.and_eq_true] at hvalid
  simp only [ends_bind, selectClaim, ends_query] at h
  obtain ⟨found, log₁, ⟨db₀, hfound, rfl⟩, h⟩ := h
  cases found with
  | none => exact h.elim
  | some claim =>
    simp only [ends_bind, selectPriorTotal, ends_query, ends_ofExcept, ends_pure] at h
    obtain ⟨total, log₂, ⟨db₁, rfl, rfl⟩, v, log₃, ⟨hv, rfl⟩, id, log₄, hinsert, created, log₅, haudit, -, rfl⟩ := h
    obtain ⟨hamount, hcurrency, hchecked⟩ := validatePartialRecovery_ok hv
    obtain ⟨db₂, n, rfl, hn, -, rfl⟩ := insertRecoveryEvent_ends hinsert
    obtain ⟨db₃, event, rfl, hevent⟩ := writeAuditEvent_ends haudit
    rw [hamount] at hn
    obtain ⟨hpos, hfits⟩ := hchecked claim.amountClaimed.inRange (readsAs_text _) (readsAs_sumText _)
      (amountFormat_stored hvalid.1 hn)
    exact ⟨{
      claimDb := db₀, totalDb := db₁, claim := claim, amount := n, aside := event
      seen_claim := rfl
      seen_total := rfl
      found := hfound.symm
      positive := hpos
      fits := hfits
      writes := by simp [Log.add, Log.empty, Option.some.inj hcurrency]
      aside_ok := by
        rcases hevent with ⟨rfl, -⟩ | ⟨rfl, -⟩
        · simp [Write.Aside, isTerminalEvent, analystEvent]
        · simp }⟩

/-- How a claim is resolved, from its total so far and the amount claimed. -/
inductive Outcome (prior claimed : ℤ) : ClaimResolutionKind → Option Amount → ClaimStatus → Prop
  | denial : Outcome prior claimed .DENIAL none .denied
  | abandoned : Outcome prior claimed .WRITE_OFF none .written_off
  | writeOff (n : Amount) : 0 < n.units → prior + n.units < claimed →
      Outcome prior claimed .WRITE_OFF (some n) .written_off
  | full (n : Amount) : 0 < n.units → prior + n.units = claimed →
      Outcome prior claimed .FULL_RECOVERY (some n) .recovered

theorem Outcome.not_open {prior claimed : ℤ} {kind : ClaimResolutionKind} {recovery : Option Amount}
    {status : ClaimStatus} (h : Outcome prior claimed kind recovery status) : status ≠ .open := by
  cases h <;> simp

theorem Outcome.fits {prior claimed : ℤ} {kind : ClaimResolutionKind} {n : Amount} {status : ClaimStatus}
    (h : Outcome prior claimed kind (some n) status) : prior + n.units ≤ claimed := by
  cases h with
  | writeOff _ _ hlt => exact hlt.le
  | full _ _ heq => exact heq.le

def terminalEventId (sha256 : String → ℕ) (clientId claimId : ℕ) (status : ClaimStatus) : ℕ :=
  deterministicAuditEventId sha256 [toString clientId, toString claimId, claimEvent status]

/-- The event is the one that records the claim's reaching the status. -/
def IsEventOf (clientId claimId : ℕ) (status : ClaimStatus) (e : AuditEvent) : Prop :=
  e.clientId = some clientId ∧ e.entity = "claim" ∧ e.entityId = some claimId ∧ e.event = claimEvent status

/-- The recovery a resolution with an amount inserts. -/
def ResolveClaimInput.recoveryRow (input : ResolveClaimInput) (tx : ℕ) (currency : Option String)
    (amount : Amount) : RecoveryEvent :=
  ⟨tx, input.clientId, some input.claimId, input.varianceFindingId, amount, currency⟩

/-- The log of a finished `resolveClaim`. -/
structure ResolveClaimRun (sha256 : String → ℕ) (tx startedAt : ℕ) (input : ResolveClaimInput)
    (log : Log Db Write LockKey) where
  claimDb : Db
  totalDb : Db
  eventDb : Db
  held : List LockKey
  claim : Claim
  newStatus : ClaimStatus
  recovery : Option Amount
  currency : Option String
  aside : List Write
  event : List Write
  seen_claim : log.seen[0]? = some (claimDb, [])
  seen_total : log.seen[1]? = some (totalDb, [])
  seen_event : (eventDb, held) ∈ log.seen
  holds : .auditEvent (terminalEventId sha256 input.clientId input.claimId newStatus) ∈ held
  found : findClaim claimDb input.clientId input.claimId = some claim
  wasOpen : claim.status = .open
  carriesAmount : recovery.isSome = input.amountRecovered.isSome
  outcome : Outcome (recoveredTotal totalDb input.clientId input.claimId) claim.amountClaimed.units
    input.kind recovery newStatus
  writes : log.writes = (recovery.toList.map (input.recoveryRow tx currency)).map .insertRecoveryEvent ++
    .updateClaimStatus input.clientId input.claimId newStatus :: aside ++ event
  aside_ok : ∀ w ∈ aside, w.Aside
  /-- The event is inserted where none has its id, or is there already. -/
  event_ok : (∃ e, event = [.insertAuditEvent e] ∧ IsEventOf input.clientId input.claimId newStatus e ∧
      e.id = terminalEventId sha256 input.clientId input.claimId newStatus ∧ e.recordedAt = startedAt ∧
      ∀ row ∈ eventDb.auditEvents, row.id ≠ e.id) ∨
    event = [] ∧ ∃ row ∈ eventDb.auditEvents, IsEventOf input.clientId input.claimId newStatus row

/-- The log goes on with writes that concern no claim. -/
def ContinuesAside (log log' : Log Db Write LockKey) : Prop :=
  ∃ seen aside held, log' = ⟨log.seen ++ seen, log.writes ++ aside, log.held ++ held⟩ ∧ ∀ w ∈ aside, w.Aside

theorem ContinuesAside.refl (log : Log Db Write LockKey) : ContinuesAside log log :=
  ⟨[], [], [], by simp, by simp⟩

theorem ContinuesAside.add {log log' : Log Db Write LockKey} (h : ContinuesAside log log') (db : Db)
    (locks : List LockKey) {ws : List Write} (hws : ∀ w ∈ ws, w.Aside) :
    ContinuesAside log (log'.add db locks ws) := by
  obtain ⟨seen, aside, held, rfl, haside⟩ := h
  refine ⟨seen ++ [(db, log.held ++ held ++ locks)], aside ++ ws, held ++ locks, by simp [Log.add], ?_⟩
  intro w hw
  rcases List.mem_append.mp hw with hw | hw
  · exact haside w hw
  · exact hws w hw

theorem updateFindingStatus_ends {clientId finding : ℕ} {status : VarianceStatus} {note : Option String}
    {actor : Option ℕ} {found : Bool}
    (h : Ends apply (updateFindingStatus sha256 tx startedAt clientId finding status note actor) log found log') :
    ContinuesAside log log' := by
  simp only [updateFindingStatus, ends_bind, ends_exec] at h
  obtain ⟨old, log₁, ⟨db, ws, hf, rfl⟩, h⟩ := h
  split at hf
  · obtain ⟨rfl, rfl⟩ := Prod.mk.inj (Except.ok.inj hf)
    obtain ⟨-, rfl⟩ := h
    exact (ContinuesAside.refl log).add db _ (by simp)
  · obtain ⟨rfl, rfl⟩ := Prod.mk.inj (Except.ok.inj hf)
    simp only [ends_bind, ends_pure] at h
    obtain ⟨created, log₂, haudit, -, rfl⟩ := h
    obtain ⟨db', event, rfl, hevent⟩ := writeAuditEvent_ends haudit
    refine ((ContinuesAside.refl log).add db _ (by simp [Write.Aside])).add db' _ ?_
    rcases hevent with ⟨rfl, -⟩ | ⟨rfl, -⟩
    · simp [Write.Aside, isTerminalEvent]
    · simp

theorem isTerminalEvent_of_isEventOf {clientId claimId : ℕ} {status : ClaimStatus} {e : AuditEvent}
    (hs : status ≠ .open) (h : IsEventOf clientId claimId status e) : isTerminalEvent e = true := by
  obtain ⟨-, hentity, -, hevent⟩ := h
  rw [isTerminalEvent, hentity, hevent]
  cases status with
  | «open» => exact absurd rfl hs
  | recovered => decide
  | denied => decide
  | written_off => decide

/-- Neither a recovery nor a new status is a terminal event. -/
theorem view_resolution {db : Db} {recovery : List RecoveryEvent} {clientId claimId : ℕ}
    {status : ClaimStatus} {aside : List Write} (h : ∀ w ∈ aside, w.Aside) :
    (view apply db (recovery.map .insertRecoveryEvent ++
      .updateClaimStatus clientId claimId status :: aside)).auditEvents.filter isTerminalEvent =
        db.auditEvents.filter isTerminalEvent := by
  rw [view_append, view_cons, (view_aside h).2.2]
  induction recovery generalizing db with
  | nil => rfl
  | cons r rs ih => exact ih

/-- The amounts of an accepted resolution. -/
theorem outcome_of_validated {claim : Claim} {kind : ClaimResolutionKind} {amount currency : Option String}
    {prior : ℤ} {total : String} {v : ValidatedClaimResolution} {recovery : Option Amount}
    (hv : validateClaimResolution D ⟨⟨claim.id, claim.amountClaimed.text, claim.currency⟩, claim.status⟩
      kind total amount currency = .ok v)
    (htotal : ReadsAs 4 total prior) (hformat : amount.all amountFormat = true)
    (hrecovery : v.amountRecovered.bind (ofText 18 4) = recovery)
    (hsome : recovery.isSome = v.amountRecovered.isSome) :
    claim.status = .open ∧ Outcome prior claim.amountClaimed.units kind recovery v.newStatus := by
  obtain ⟨hopen, hamount, -, hkind, hchecked⟩ := validateClaimResolution_ok hv
  rw [hamount] at hrecovery hsome
  refine ⟨hopen, ?_⟩
  cases amount with
  | none =>
    obtain rfl : none = recovery := hrecovery
    rcases hkind with ⟨rfl, -, hs⟩ | ⟨rfl, hs⟩ | ⟨-, hsome, -⟩
    · rw [hs]; exact .denial
    · rw [hs]; exact .abandoned
    · cases hsome
  | some text =>
    obtain ⟨n, rfl⟩ := Option.isSome_iff_exists.mp hsome
    have hread := amountFormat_stored (by simpa using hformat) hrecovery
    obtain ⟨hpos, hfull, hoff⟩ := hchecked rfl claim.amountClaimed.inRange (readsAs_text _) htotal hread
    rcases hkind with ⟨-, hnone, -⟩ | ⟨rfl, hs⟩ | ⟨rfl, -, hs⟩
    · cases hnone
    · rw [hs]; exact .writeOff n hpos (hoff rfl)
    · rw [hs]; exact .full n hpos (hfull rfl)

theorem resolveClaim_ends {input : ResolveClaimInput} {r : ResolveClaimResult}
    (h : Ends apply (resolveClaim D sha256 tx startedAt input) .empty r log) :
    Nonempty (ResolveClaimRun sha256 tx startedAt input log) := by
  rw [resolveClaim] at h
  split at h
  · exact h.elim
  rename_i hvalid
  rw [Bool.not_eq_true', Bool.not_eq_false, ResolveClaimInput.valid, Bool.and_eq_true] at hvalid
  simp only [ends_bind, selectClaim, ends_query] at h
  obtain ⟨found, log₁, ⟨db₀, hfound, rfl⟩, h⟩ := h
  cases found with
  | none => exact h.elim
  | some claim =>
    simp only [ends_bind, selectPriorTotal, ends_query, ends_ofExcept] at h
    obtain ⟨total, log₂, ⟨db₁, rfl, rfl⟩, v, log₃, ⟨hv, rfl⟩, recoveryEventId, log₄, hrecovery, h⟩ := h
    simp only [updateClaimStatus, ends_exec, ends_pure] at h
    obtain ⟨_, log₅, ⟨db₃, _, hupdate, hlog₅⟩, _, log₆, hfinding, _, log₇, haudit, -, rfl⟩ := h
    obtain rfl := (Prod.mk.inj (Except.ok.inj hupdate)).2
    -- the recovery, where the resolution carries an amount
    have hamount := (validateClaimResolution_ok hv).2.1
    obtain ⟨recovery, seen, hlog₄, hstored, hsome⟩ : ∃ (recovery : Option Amount) (seen : List (Db × List LockKey)),
        log₄ = ⟨[(db₀, []), (db₁, [])] ++ seen,
          (recovery.toList.map (input.recoveryRow tx v.currency)).map .insertRecoveryEvent, []⟩ ∧
        v.amountRecovered.bind (ofText 18 4) = recovery ∧ recovery.isSome = v.amountRecovered.isSome := by
      cases hv_amount : v.amountRecovered with
      | none =>
        rw [hv_amount] at hrecovery
        obtain ⟨-, rfl⟩ := hrecovery
        exact ⟨none, [], rfl, rfl, rfl⟩
      | some amount =>
        rw [hv_amount] at hrecovery
        simp only [ends_bind, ends_pure] at hrecovery
        obtain ⟨id, log', hinsert, -, rfl⟩ := hrecovery
        obtain ⟨db₂, n, -, hn, -, rfl⟩ := insertRecoveryEvent_ends hinsert
        exact ⟨some n, [(db₂, [])], rfl, hn, rfl⟩
    subst hlog₄
    have hcarries : recovery.isSome = input.amountRecovered.isSome := by rw [hsome, hamount]
    obtain ⟨hopen, houtcome⟩ := outcome_of_validated hv (readsAs_sumText _) hvalid.1 hstored hsome
    have haside : ContinuesAside log₅ log₆ := by
      split at hfinding
      · exact updateFindingStatus_ends hfinding
      · obtain ⟨-, rfl⟩ := hfinding
        exact ContinuesAside.refl _
    subst hlog₅
    obtain ⟨seen', aside, held, rfl, haside_ok⟩ := haside
    obtain ⟨eventDb, event, rfl, hevent⟩ := writeAuditEvent_ends haudit
    exact ⟨{
      claimDb := db₀, totalDb := db₁, eventDb := eventDb
      held := _
      claim := claim, newStatus := v.newStatus, recovery := recovery, currency := v.currency
      aside := aside, event := event
      seen_claim := rfl
      seen_total := rfl
      seen_event := List.mem_append_right _ (List.mem_singleton_self _)
      holds := List.mem_append_right _ (List.mem_singleton_self _)
      found := hfound.symm
      wasOpen := hopen
      carriesAmount := hcarries
      outcome := houtcome
      writes := by simp [Log.add]
      aside_ok := haside_ok
      event_ok := by
        rcases hevent with ⟨rfl, hfresh⟩ | ⟨rfl, row, hrow, -, hsame⟩
        · exact .inl ⟨_, rfl, ⟨rfl, rfl, rfl, rfl⟩, rfl, rfl, fun row hrow => hfresh row (view_auditEvents hrow)⟩
        · -- the row found is a terminal event, and this transaction has written none
          have hevent : IsEventOf input.clientId input.claimId v.newStatus row := by
            simp only [sameEvidence, analystEvent, Bool.and_eq_true, beq_iff_eq] at hsame
            obtain ⟨⟨⟨⟨⟨⟨⟨⟨h1, h2⟩, h3⟩, h4⟩, -⟩, -⟩, -⟩, -⟩, -⟩ := hsame
            exact ⟨h1, h2, h3, h4⟩
          have hmem := List.mem_filter.mpr ⟨hrow, isTerminalEvent_of_isEventOf houtcome.not_open hevent⟩
          simp only [Log.add, List.append_assoc, List.singleton_append] at hmem
          rw [view_resolution haside_ok] at hmem
          exact .inr ⟨rfl, row, (List.mem_filter.mp hmem).1, hevent⟩ }⟩

/-- The log of a `createClaimFromDispute` that inserted a claim. -/
structure CreateClaimRun (tx : ℕ) (input : CreateClaimInput) (log : Log Db Write LockKey) where
  disputeDb : Db
  checkDb : Db
  insertDb : Db
  held : List LockKey
  dispute : Dispute
  amount : Amount
  currency : String
  aside : List Write
  seen_dispute : log.seen[0]? = some (disputeDb, [])
  seen_check : log.seen[2]? = some (checkDb, [])
  seen_insert : log.seen[3]? = some (insertDb, held)
  holds : .claimDispute input.clientId input.disputeId ∈ held ∧ .claimPkey tx ∈ held
  found : (disputeDb.disputes.find? fun d => d.accountId == input.clientId && d.id == input.disputeId) = some dispute
  accepted : dispute.status = .accepted
  amount_eq : dispute.amountClaimed = some amount
  positive : 0 < amount.units
  noConflict : conflictingFindings checkDb input.clientId input.disputeId = []
  fresh : ∀ c ∈ insertDb.claims, c.id ≠ tx
  unclaimed : ∀ c ∈ insertDb.claims, ¬ (c.accountId = input.clientId ∧ c.disputeId = some input.disputeId)
  writes : log.writes = .insertClaim ⟨tx, input.clientId, some input.disputeId, amount, some currency, .open⟩ :: aside
  aside_ok : ∀ w ∈ aside, w.Aside

theorem detectDuplicateClaimedFinding_ends {clientId disputeId : ℕ} {u : Unit}
    (h : Ends apply (detectDuplicateClaimedFinding clientId disputeId) log u log') :
    ∃ db, log' = log.add db [] [] ∧ conflictingFindings (view apply db log.writes) clientId disputeId = [] := by
  simp only [detectDuplicateClaimedFinding, ends_bind, ends_query] at h
  obtain ⟨rows, mid, ⟨db, rfl, rfl⟩, h⟩ := h
  split at h
  · exact h.elim
  · rename_i hrows
    exact ⟨db, h.2, by simpa using hrows⟩

theorem created_not_terminal : "claim.created" ∉ claimTerminalEventNames := by decide

/-- It either found a claim of the dispute and wrote nothing, or inserted one. -/
theorem createClaimFromDispute_ends {input : CreateClaimInput} {r : CreateClaimResult}
    (h : Ends apply (createClaimFromDispute D sha256 tx startedAt input) .empty r log) :
    log.writes = [] ∨ Nonempty (CreateClaimRun tx input log) := by
  simp only [createClaimFromDispute, ends_bind, ends_query] at h
  obtain ⟨dispute, log₁, ⟨db₀, hdispute, rfl⟩, h⟩ := h
  cases dispute with
  | none => exact h.elim
  | some dispute =>
    simp only [ends_bind, selectExistingClaim, ends_query] at h
    obtain ⟨existing, log₂, ⟨db₁, -, rfl⟩, h⟩ := h
    cases existing with
    | some existing =>
      obtain ⟨-, rfl⟩ := h
      exact .inl rfl
    | none =>
      simp only [ends_bind, ends_ofExcept, insertClaim, ends_exec] at h
      obtain ⟨v, log₃, ⟨hv, rfl⟩, _, log₄, hcheck, inserted, log₅, ⟨db₃, ws, hinsert, rfl⟩, h⟩ := h
      obtain ⟨hid, haccepted, hamount, hcurrency, hpos⟩ := validateClaimableDispute_ok hv
      obtain ⟨db₂, rfl, hnone⟩ := detectDuplicateClaimedFinding_ends hcheck
      -- the amount read from the dispute is the one stored
      obtain ⟨n, hn, htext⟩ := Option.map_eq_some_iff.mp hamount
      have hdisputeId : dispute.id = input.disputeId := by
        have := List.find?_some hdispute.symm
        simp only [Bool.and_eq_true, beq_iff_eq] at this
        exact this.2
      have hv_id : v.disputeId = input.disputeId := hid.trans hdisputeId
      simp only [bind_eq_ok, amountColumn_ok, ← htext, ofText_text, Option.some.injEq, exists_eq_left',
        throw_bind, ite_throw_eq_ok, hv_id] at hinsert
      obtain ⟨-, hinsert⟩ := hinsert
      simp only [Log.add, Log.empty, List.append_nil, view_nil] at hinsert
      by_cases hconflict : db₃.claims.any fun c =>
          c.accountId == input.clientId && c.disputeId == some input.disputeId
      · rw [if_pos hconflict] at hinsert
        obtain ⟨rfl, rfl⟩ := Prod.mk.inj (pure_eq_ok.mp hinsert)
        simp only [ends_bind, ends_query] at h
        obtain ⟨raced, log₆, ⟨db₄, -, rfl⟩, h⟩ := h
        cases raced with
        | none => exact h.elim
        | some raced =>
          obtain ⟨-, rfl⟩ := h
          exact .inl rfl
      · rw [if_neg hconflict, ite_throw_eq_ok] at hinsert
        obtain ⟨hfresh, hinsert⟩ := hinsert
        obtain ⟨rfl, rfl⟩ := Prod.mk.inj (pure_eq_ok.mp hinsert)
        simp only [ends_bind, ends_pure] at h
        obtain ⟨created, log₆, haudit, -, rfl⟩ := h
        obtain ⟨db₄, event, rfl, hevent⟩ := writeAuditEvent_ends haudit
        exact .inr ⟨{
          disputeDb := db₀, checkDb := db₂, insertDb := db₃
          held := [.claimDispute input.clientId input.disputeId, .claimPkey tx]
          dispute := dispute, amount := n, currency := v.currency, aside := event
          seen_dispute := rfl
          seen_check := rfl
          seen_insert := by simp [Log.add, Log.empty, hv_id, hconflict]
          holds := ⟨List.mem_cons_self, List.mem_cons_of_mem _ (List.mem_singleton_self _)⟩
          found := hdispute.symm
          accepted := haccepted
          amount_eq := hn
          positive := hpos _ (htext ▸ readsAs_text n)
          noConflict := hnone
          fresh := by simpa using hfresh
          unclaimed := by simpa using hconflict
          writes := by simp [Log.add, Log.empty]
          aside_ok := by
            rcases hevent with ⟨rfl, -⟩ | ⟨rfl, -⟩
            · simpa [Write.Aside, isTerminalEvent, analystEvent] using created_not_terminal
            · simp }⟩

end ends

end Claims
