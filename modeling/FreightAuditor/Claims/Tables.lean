import FreightAuditor.Claims.Validation
import FreightAuditor.Library.Json
import FreightAuditor.Library.ReadCommitted

/- The tables behind claims, the writes on them, and the statements the claim operations
   are made of.

   Ids are numbers. A transaction inserts at most one row into each table but
   `audit_event`, and takes its own number as that row's id, which the primary key
   checks. Audit events have the id that `deterministicAuditEventId` hashes from their
   parts; the hash is a parameter, and nothing is assumed of it. -/
namespace Claims

open DecimalText PgNumeric ReadCommitted

inductive VarianceStatus where
  | open | in_review | accepted | waived | queued_for_dispute | disputed | recovered | written_off | closed
  deriving DecidableEq

def VarianceStatus.text : VarianceStatus → String
  | .open => "open" | .in_review => "in_review" | .accepted => "accepted" | .waived => "waived"
  | .queued_for_dispute => "queued_for_dispute" | .disputed => "disputed" | .recovered => "recovered"
  | .written_off => "written_off" | .closed => "closed"

inductive ActorKind where
  | analyst | ai | system | client
  deriving DecidableEq

/-- An amount of money as the tables hold it. -/
abbrev Amount := Numeric 18 4

/-! ## Rows -/

structure Dispute where
  id : ℕ
  accountId : ℕ
  status : DisputeStatus
  amountClaimed : Option Amount
  currency : Option String

structure DisputeLine where
  accountId : ℕ
  disputeId : ℕ
  varianceFindingId : Option ℕ
  deriving DecidableEq

structure Claim where
  id : ℕ
  accountId : ℕ
  disputeId : Option ℕ
  amountClaimed : Amount
  currency : Option String
  status : ClaimStatus
  deriving DecidableEq

structure RecoveryEvent where
  id : ℕ
  accountId : ℕ
  claimId : Option ℕ
  varianceFindingId : Option ℕ
  amountRecovered : Amount
  currency : Option String
  deriving DecidableEq

/-- The columns of `audit_event` that a retry must repeat. -/
structure AuditEventEvidence where
  clientId : Option ℕ
  entity : String
  entityId : Option ℕ
  event : String
  actorKind : ActorKind
  actorUserId : Option ℕ
  ruleVersionId : Option ℕ
  rubricSnapshotId : Option ℕ
  detail : Option Json.Value

structure AuditEvent extends AuditEventEvidence where
  id : ℕ
  recordedAt : ℕ

structure VarianceFinding where
  id : ℕ
  accountId : ℕ
  status : VarianceStatus

structure FindingStatusEvent where
  id : ℕ
  accountId : ℕ
  varianceFindingId : ℕ
  fromStatus : VarianceStatus
  toStatus : VarianceStatus
  actorKind : ActorKind
  note : Option String

structure Db where
  disputes : List Dispute
  disputeLines : List DisputeLine
  varianceFindings : List VarianceFinding
  claims : List Claim
  recoveryEvents : List RecoveryEvent
  auditEvents : List AuditEvent
  findingStatusEvents : List FindingStatusEvent

inductive Write where
  | insertClaim (row : Claim)
  | insertRecoveryEvent (row : RecoveryEvent)
  | insertAuditEvent (row : AuditEvent)
  | insertFindingStatusEvent (row : FindingStatusEvent)
  | updateClaimStatus (accountId claimId : ℕ) (status : ClaimStatus)
  | updateFindingStatus (findingId : ℕ) (status : VarianceStatus)

/-- A claim with a new status, where the update meets it. -/
def Claim.updateStatus (accountId claimId : ℕ) (status : ClaimStatus) (c : Claim) : Claim :=
  if c.accountId = accountId ∧ c.id = claimId then { c with status } else c

def apply (db : Db) : Write → Db
  | .insertClaim row => { db with claims := db.claims ++ [row] }
  | .insertRecoveryEvent row => { db with recoveryEvents := db.recoveryEvents ++ [row] }
  | .insertAuditEvent row => { db with auditEvents := db.auditEvents ++ [row] }
  | .insertFindingStatusEvent row => { db with findingStatusEvents := db.findingStatusEvents ++ [row] }
  | .updateClaimStatus accountId claimId status =>
    { db with claims := db.claims.map (Claim.updateStatus accountId claimId status) }
  | .updateFindingStatus findingId status =>
    let update (f : VarianceFinding) := if f.id = findingId then { f with status } else f
    { db with varianceFindings := db.varianceFindings.map update }

/-- What a statement may wait for: the row of a claim or finding it updates, or a unique key it
inserts. (A foreign key shares its lock with an update of other columns.) -/
inductive LockKey where
  | claim (id : ℕ)
  | claimPkey (id : ℕ)
  | claimDispute (accountId disputeId : ℕ)
  | varianceFinding (id : ℕ)
  | auditEvent (id : ℕ)
  deriving DecidableEq

abbrev Statement (R : Type) := Prog Db Write LockKey ClaimsError R

/-! ## Statements -/

/-- The recoveries of a claim. -/
def recoveriesOf (db : Db) (clientId claimId : ℕ) : List RecoveryEvent :=
  db.recoveryEvents.filter fun r => r.accountId == clientId && r.claimId == some claimId

/-- The SUM of a claim's recoveries, in units of the fourth decimal. -/
def recoveredTotal (db : Db) (clientId claimId : ℕ) : ℤ :=
  total ((recoveriesOf db clientId claimId).map RecoveryEvent.amountRecovered)

def findClaim (db : Db) (clientId claimId : ℕ) : Option Claim :=
  db.claims.find? fun c => c.accountId == clientId && c.id == claimId

/-- `SELECT ... FROM claim WHERE account_id = $1 AND id = $2`. -/
def selectClaim (clientId claimId : ℕ) : Statement (Option Claim) :=
  .query fun db => findClaim db clientId claimId

/-- `SELECT COALESCE(SUM(amount_recovered), 0)::text ...`. -/
def selectPriorTotal (clientId claimId : ℕ) : Statement String :=
  .query fun db => sumText ((recoveriesOf db clientId claimId).map RecoveryEvent.amountRecovered)

/-- The CHECK on currency columns: `^[A-Z]{3}$`. -/
def currencyFormat (currency : String) : Bool :=
  currency.toList.length == 3 && currency.toList.all Char.isUpper

/-- An amount given as text, as a `numeric(18,4)` column takes it. -/
def amountColumn (text : String) : Except ClaimsError Amount :=
  match ofText 18 4 text with
  | some n => .ok n
  | none => .error (.database "numeric field overflow")

/-- `INSERT INTO recovery_event ... RETURNING id`. -/
def insertRecoveryEvent (tx clientId claimId : ℕ) (varianceFindingId : Option ℕ)
    (amountRecovered : String) (currency : Option String) : Statement ℕ :=
  .exec (fun _ => []) fun db => do
    let amount ← amountColumn amountRecovered
    if currency.any (!currencyFormat ·) then throw (.database "recovery_event_currency_format_chk")
    if db.recoveryEvents.any (·.id == tx) then throw (.database "recovery_event_pkey")
    if !db.claims.any (·.id == claimId) then throw (.database "recovery_event_claim_id_fkey")
    if !varianceFindingId.all (fun f => db.varianceFindings.any (·.id == f)) then
      throw (.database "recovery_event_variance_finding_id_fkey")
    return (tx, [.insertRecoveryEvent ⟨tx, clientId, some claimId, varianceFindingId, amount, currency⟩])

/-- `UPDATE claim SET status = $3 ...`, which waits for the row. -/
def updateClaimStatus (clientId claimId : ℕ) (status : ClaimStatus) : Statement Unit :=
  .exec (fun _ => [.claim claimId]) fun _ => .ok ((), [.updateClaimStatus clientId claimId status])

section audit

variable (sha256 : String → ℕ)

def deterministicAuditEventId (parts : List String) : ℕ := sha256 ("\x00".intercalate parts)

/-- The bytes of a text as a number: a hash without collisions. -/
def textNumber (text : String) : ℕ := text.toList.foldl (fun n c => 256 * n + c.toNat) 0

/-- `IS NOT DISTINCT FROM` on every column, `detail` as `jsonb`. -/
def sameEvidence (a b : AuditEventEvidence) : Bool :=
  a.clientId == b.clientId && a.entity == b.entity && a.entityId == b.entityId && a.event == b.event &&
    a.actorKind == b.actorKind && a.actorUserId == b.actorUserId && a.ruleVersionId == b.ruleVersionId &&
    a.rubricSnapshotId == b.rubricSnapshotId &&
    a.detail.map Json.canonicalText == b.detail.map Json.canonicalText

/-- Insert the event, or find it there with the same evidence. The rows it reads back are those of
the moment the statement began: it never waits here on an event of a claim, since whoever writes
one holds the claim's row. -/
def writeAuditEvent (startedAt id : ℕ) (value : AuditEventEvidence) : Statement Bool :=
  .exec (fun _ => [.auditEvent id]) fun db =>
    match db.auditEvents.find? (·.id == id) with
    | none => .ok (true, [.insertAuditEvent { value with id := id, recordedAt := startedAt }])
    | some row =>
      if sameEvidence row.toAuditEventEvidence value then .ok (false, [])
      else .error .auditEventConflict

/-- Set a finding's status and log the change; `false` where the tenant has no such finding. -/
def updateFindingStatus (tx startedAt clientId findingId : ℕ) (toStatus : VarianceStatus)
    (note : Option String) (actorUserId : Option ℕ) : Statement Bool := do
  let find (db : Db) := db.varianceFindings.find? fun f => f.id == findingId && f.accountId == clientId
  let old ← .exec (fun db => if (find db).isSome then [.varianceFinding findingId] else []) fun db =>
    match find db with
    | none => .ok (none, [])
    | some f => .ok (some f.status, [.updateFindingStatus findingId toStatus,
        .insertFindingStatusEvent ⟨tx, clientId, findingId, f.status, toStatus, .analyst, note⟩])
  match old with
  | none => return false
  | some fromStatus =>
    let _ ← writeAuditEvent startedAt
      (deterministicAuditEventId sha256 [toString clientId, toString tx, "finding.status_changed"])
      { clientId := some clientId
        entity := "variance_finding"
        entityId := some findingId
        event := "finding.status_changed"
        actorKind := .analyst
        actorUserId := actorUserId
        ruleVersionId := none
        rubricSnapshotId := none
        detail := some (.obj [("fromStatus", .str fromStatus.text), ("toStatus", .str toStatus.text),
          ("note", (note.map Json.Value.str).getD .null), ("statusEventId", .str (toString tx))]) }
    return true

end audit

end Claims
