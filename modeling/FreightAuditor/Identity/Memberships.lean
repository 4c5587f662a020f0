import FreightAuditor.Claims.Tables
import FreightAuditor.Library.KeyedTable

/- Memberships of users in accounts, clients and vendors.

   A membership below the account carries the account all the same, as its ancestor. What is
   unique is the user with the entity that the membership is for, so a user can have several
   rows with one account. -/
namespace Identity

open Claims (ActorKind AuditEvent AuditEventEvidence sameEvidence)

inductive MembershipRole where
  | analyst | lead | account_viewer | account_admin
  | client_scope_viewer | client_scope_admin | vendor_scope_viewer | vendor_scope_admin
  deriving DecidableEq

def MembershipRole.text : MembershipRole → String
  | .analyst => "analyst" | .lead => "lead"
  | .account_viewer => "account_viewer" | .account_admin => "account_admin"
  | .client_scope_viewer => "client_scope_viewer" | .client_scope_admin => "client_scope_admin"
  | .vendor_scope_viewer => "vendor_scope_viewer" | .vendor_scope_admin => "vendor_scope_admin"

structure AppUser where
  id : ℕ
  email : String

structure Account where
  id : ℕ
  isActive : Bool

structure Client where
  id : ℕ
  accountId : ℕ

structure Vendor where
  id : ℕ
  accountId : ℕ
  clientId : ℕ

structure Membership where
  id : ℕ
  userId : ℕ
  accountId : ℕ
  clientId : Option ℕ
  vendorId : Option ℕ
  role : MembershipRole
  isActive : Bool
  deriving DecidableEq

/-- `(user_id, COALESCE(vendor_id, client_id, account_id))`. -/
def Membership.scopeKey (m : Membership) : ℕ × ℕ := (m.userId, (m.vendorId.or m.clientId).getD m.accountId)

/-- The rows of `memberships` are in their physical order. -/
structure IdentityDb where
  users : KeyedTable AppUser AppUser.email
  accounts : KeyedTable Account Account.id
  clients : KeyedTable Client Client.id
  vendors : KeyedTable Vendor Vendor.id
  memberships : KeyedTable Membership Membership.scopeKey
  auditEvents : KeyedTable AuditEvent AuditEvent.id

inductive IdentityError where
  | sql
  | auditEventConflict
  deriving DecidableEq

/-! ## Writing memberships -/

structure CreateMembershipInput where
  clientId : ℕ
  email : String
  role : MembershipRole
  scopeClientId : Option ℕ
  scopeVendorId : Option ℕ

inductive CreateMembershipResult where
  | created (membershipId userId : ℕ) (isNewUser : Bool)
  | already_member
  deriving DecidableEq

/-- The rows that the membership refers to are there. -/
def IdentityDb.hasParents (db : IdentityDb) (m : Membership) : Bool :=
  (db.accounts.find? m.accountId).isSome && m.clientId.all (fun id => (db.clients.find? id).isSome) &&
    m.vendorId.all fun id => (db.vendors.find? id).isSome

/-- The database picks the two ids. -/
def createMembership (db : IdentityDb) (input : CreateMembershipInput) (newUserId newMembershipId : ℕ) :
    Except IdentityError (CreateMembershipResult × IdentityDb) :=
  let isNewUser := (db.users.find? input.email).isNone
  let (user, users) := db.users.getOrInsert ⟨newUserId, input.email⟩
  let row : Membership := ⟨newMembershipId, user.id, input.clientId, input.scopeClientId, input.scopeVendorId, input.role, true⟩
  match db.memberships.insert row with
  -- `ON CONFLICT DO NOTHING`
  | none => .ok (.already_member, { db with users })
  | some memberships =>
    if db.hasParents row then .ok (.created newMembershipId user.id isNewUser, { db with users, memberships })
    else .error .sql

structure UpdateTenantMembershipInput where
  role : Option MembershipRole
  isActive : Option Bool

/-- What the update sets. -/
def UpdateTenantMembershipInput.applyTo (input : UpdateTenantMembershipInput) (m : Membership) : Membership :=
  { m with role := input.role.getD m.role, isActive := input.isActive.getD m.isActive }

def isMembershipOf (clientId membershipId : ℕ) (m : Membership) : Bool := m.id = membershipId && m.accountId = clientId

theorem applyTo_scopeKey (clientId membershipId : ℕ) (input : UpdateTenantMembershipInput) (m : Membership) :
    (if isMembershipOf clientId membershipId m then input.applyTo m else m).scopeKey = m.scopeKey := by
  split <;> rfl

section

variable (sha256 : String → ℕ)

/-- The event of a new role, unless it is there with the same evidence. -/
def writeRoleChange (db : IdentityDb) (old : Membership) (role : MembershipRole) (actorUserId : Option ℕ) (now : ℕ) :
    Except IdentityError IdentityDb :=
  let event := "membership.role_changed_to_" ++ role.text
  let evidence : AuditEventEvidence :=
    { clientId := some old.accountId, entity := "membership", entityId := some old.id, event
      actorKind := .analyst, actorUserId, ruleVersionId := none, rubricSnapshotId := none
      detail := some (.obj [("fromRole", .str old.role.text), ("toRole", .str role.text)]) }
  let id := Claims.deterministicAuditEventId sha256 [toString old.accountId, toString old.id, event]
  match db.auditEvents.find? id with
  | none => .ok { db with auditEvents := (db.auditEvents.insert { evidence with id, recordedAt := now }).getD db.auditEvents }
  | some row => if sameEvidence row.toAuditEventEvidence evidence then .ok db else .error .auditEventConflict

/-- `none` where the account has no such membership. An input that sets nothing reads the row. -/
def updateTenantMembership (db : IdentityDb) (clientId membershipId : ℕ) (input : UpdateTenantMembershipInput)
    (actorUserId : Option ℕ) (now : ℕ) : Except IdentityError (Option Membership × IdentityDb) :=
  match db.memberships.rows.find? (isMembershipOf clientId membershipId) with
  | none => .ok (none, db)
  | some old =>
    let memberships := db.memberships.update
      (fun m => if isMembershipOf clientId membershipId m then input.applyTo m else m) (applyTo_scopeKey clientId membershipId input)
    let updated : IdentityDb := { db with memberships }
    match input.role with
    | none => .ok (some (input.applyTo old), updated)
    | some role =>
      if role = old.role then .ok (some (input.applyTo old), updated)
      else (writeRoleChange sha256 updated old role actorUserId now).map fun db => (some (input.applyTo old), db)

end

end Identity
