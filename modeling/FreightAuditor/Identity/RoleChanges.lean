import FreightAuditor.AuditLedger.WriteAuditEvent
import FreightAuditor.Identity.Memberships

/- Changes of a membership's role, from the portal and from the tenant administration.

   Both write the new role and then an audit event whose id is made of the account, the
   membership and the new role, while its evidence also has the old role, the actor and the
   surface. So a change goes through exactly if the log has no event of a change to the same
   role with other evidence (`roleChanges_iff`): a role that was once given by one actor cannot
   be given back by another. -/
namespace Identity

open AuditLedger (Bindable Bound writeAuditEvent writeAuditEvent_isSome writeAuditEvent_bound)
open Claims (ActorKind AuditEvent AuditEventEvidence deterministicAuditEventId sameEvidence)

inductive PortalRole where
  | account_viewer | account_admin
  deriving DecidableEq

def PortalRole.role : PortalRole → MembershipRole
  | .account_viewer => .account_viewer
  | .account_admin => .account_admin

def PORTAL_ROLES : List MembershipRole := [.account_viewer, .account_admin]

/-- The old row with the evidence of a change to the new role. -/
def roleChange (old : Membership) (newRole : MembershipRole) (actorKind : ActorKind) (actorUserId : Option ℕ) :
    AuditEventEvidence :=
  { clientId := some old.accountId
    entity := "membership"
    entityId := some old.id
    event := "membership.role_changed_to_" ++ newRole.text
    actorKind
    actorUserId
    ruleVersionId := none
    rubricSnapshotId := none
    detail := some (.obj [("fromRole", .str old.role.text), ("toRole", .str newRole.text)]) }

/-- `{ db with memberships }`, the membership's row changed. -/
def IdentityDb.setMembership (db : IdentityDb) (clientId membershipId : ℕ) (input : UpdateTenantMembershipInput) :
    IdentityDb :=
  { db with
    memberships := db.memberships.update
      (fun m => if isMembershipOf clientId membershipId m then input.applyTo m else m)
      (applyTo_scopeKey clientId membershipId input) }

section

variable (sha256 : String → ℕ)

def roleChangeId (old : Membership) (newRole : MembershipRole) : ℕ :=
  deterministicAuditEventId sha256
    [toString old.accountId, toString old.id, "membership.role_changed_to_" ++ newRole.text]

/-- `found`; the row is looked up among those with a portal role. -/
def updatePortalMemberRole (db : IdentityDb) (clientId membershipId : ℕ) (newRole : PortalRole)
    (actorUserId : Option ℕ) (now : ℕ) : Except IdentityError (Bool × IdentityDb) :=
  match db.memberships.rows.find? fun m => isMembershipOf clientId membershipId m && PORTAL_ROLES.contains m.role with
  | none => .ok (false, db)
  | some old =>
    match writeAuditEvent db.auditEvents (roleChangeId sha256 old newRole.role)
        (roleChange old newRole.role .client actorUserId) now with
    | none => .error .auditEventConflict
    | some (_, auditEvents) =>
      .ok (true, { db.setMembership clientId membershipId ⟨some newRole.role, none⟩ with auditEvents })

/-! ## Histories -/

/-- What a surface is asked to do. -/
inductive RoleInput where
  | portal (newRole : PortalRole)
  | tenant (input : UpdateTenantMembershipInput)

structure RoleCall where
  clientId : ℕ
  membershipId : ℕ
  input : RoleInput
  actorUserId : Option ℕ
  now : ℕ

def RoleInput.actorKind : RoleInput → ActorKind
  | .portal _ => .client
  | .tenant _ => .analyst

/-- The new role, if the input names one. -/
def RoleInput.newRole : RoleInput → Option MembershipRole
  | .portal newRole => some newRole.role
  | .tenant input => input.role

/-- The surface manages memberships of this role. -/
def RoleInput.Manages : RoleInput → MembershipRole → Prop
  | .portal _, role => role ∈ PORTAL_ROLES
  | .tenant _, _ => True

instance (role : MembershipRole) : ∀ input : RoleInput, Decidable (input.Manages role)
  | .portal _ => inferInstanceAs (Decidable (role ∈ PORTAL_ROLES))
  | .tenant _ => .isTrue trivial

/-- The surface writes an event for the change: the portal also where the role stays. -/
def RoleInput.Records : RoleInput → MembershipRole → MembershipRole → Prop
  | .portal _, _, _ => True
  | .tenant _, oldRole, newRole => newRole ≠ oldRole

instance (oldRole newRole : MembershipRole) : ∀ input : RoleInput, Decidable (input.Records oldRole newRole)
  | .portal _ => .isTrue trivial
  | .tenant _ => inferInstanceAs (Decidable (newRole ≠ oldRole))

def RoleCall.run (call : RoleCall) (db : IdentityDb) : Except IdentityError (Bool × IdentityDb) :=
  match call.input with
  | .portal newRole => updatePortalMemberRole sha256 db call.clientId call.membershipId newRole call.actorUserId call.now
  | .tenant input =>
    (updateTenantMembership sha256 db call.clientId call.membershipId input call.actorUserId call.now).map
      fun r => (r.1.isSome, r.2)

/-- A call that throws is rolled back. -/
def roleStep (db : IdentityDb) (call : RoleCall) : Option IdentityDb :=
  match call.run sha256 db with
  | .ok (_, db') => some db'
  | .error _ => some db

/-- The membership that the call is about. -/
def IdentityDb.membershipOf (db : IdentityDb) (call : RoleCall) : Option Membership :=
  db.memberships.rows.find? (isMembershipOf call.clientId call.membershipId)

/-- The call goes through where its surface manages the membership: the role is set, and the log has the event
of the transition. -/
def ChangesRole (db : IdentityDb) (call : RoleCall) : Prop :=
  call.run sha256 db ≠ .error .auditEventConflict ∧
    ∀ old newRole, db.membershipOf call = some old → call.input.newRole = some newRole → call.input.Manages old.role →
      ∃ db' new, call.run sha256 db = .ok (true, db') ∧ db'.membershipOf call = some new ∧ new.role = newRole ∧
        (newRole ≠ old.role → Bound db'.auditEvents (roleChangeId sha256 old newRole)
          (roleChange old newRole call.input.actorKind call.actorUserId))

/-- The log has no event of a change of the membership to this role from another role, by another actor or from
the other surface. -/
def Unopposed (db : IdentityDb) (call : RoleCall) : Prop :=
  ∀ old ∈ db.membershipOf call, ∀ newRole ∈ call.input.newRole, call.input.Manages old.role →
    call.input.Records old.role newRole → Bindable db.auditEvents (roleChangeId sha256 old newRole)
      (roleChange old newRole call.input.actorKind call.actorUserId)

instance (db : IdentityDb) (call : RoleCall) : Decidable (Unopposed sha256 db call) :=
  inferInstanceAs (Decidable (∀ old ∈ db.membershipOf call, ∀ newRole ∈ call.input.newRole, _ → _ → _))

/-- The primary key. -/
def IdentityDb.IdsUnique (db : IdentityDb) : Prop := (db.memberships.rows.map Membership.id).Nodup

end

section

variable {sha256 : String → ℕ} {db db' : IdentityDb} {clientId membershipId now : ℕ} {actorUserId : Option ℕ}
  {old : Membership} {call : RoleCall}

theorem isMembershipOf_iff {m : Membership} : isMembershipOf clientId membershipId m = true ↔ m.id = membershipId ∧ m.accountId = clientId := by
  simp [isMembershipOf]

/-- The row of a membership is the only one with its id. -/
theorem find?_managed (hids : db.IdsUnique) {p : Membership → Bool}
    (hold : db.memberships.rows.find? (isMembershipOf clientId membershipId) = some old) :
    db.memberships.rows.find? (fun m => isMembershipOf clientId membershipId m && p m) =
      if p old then some old else none := by
  have hmem := List.mem_of_find?_eq_some hold
  have hid := isMembershipOf_iff.mp (List.find?_some hold)
  have honly : ∀ m ∈ db.memberships.rows, isMembershipOf clientId membershipId m = true → m = old := by
    intro m hm hm'
    exact List.inj_on_of_nodup_map hids hm hmem ((isMembershipOf_iff.mp hm').1.trans hid.1.symm)
  cases hfound : db.memberships.rows.find? fun m => isMembershipOf clientId membershipId m && p m with
  | some m =>
    have hm := Bool.and_eq_true_iff.mp (List.find?_some (p := fun m => isMembershipOf clientId membershipId m && p m) hfound)
    obtain rfl := honly m (List.mem_of_find?_eq_some hfound) hm.1
    rw [if_pos hm.2]
  | none =>
    have hnone := List.find?_eq_none.mp hfound old hmem
    rw [List.find?_some hold, Bool.true_and] at hnone
    rw [if_neg hnone]

theorem setMembership_find? (input : UpdateTenantMembershipInput) :
    (db.setMembership clientId membershipId input).memberships.rows.find? (isMembershipOf clientId membershipId) =
      (db.memberships.rows.find? (isMembershipOf clientId membershipId)).map input.applyTo := by
  have hsame : (isMembershipOf clientId membershipId ∘ fun m =>
      if isMembershipOf clientId membershipId m then input.applyTo m else m) = isMembershipOf clientId membershipId := by
    funext m
    rw [Function.comp_apply]
    split <;> rfl
  rw [IdentityDb.setMembership, KeyedTable.update, List.find?_map, hsame]
  cases hold : db.memberships.rows.find? (isMembershipOf clientId membershipId) with
  | none => rfl
  | some m => rw [Option.map_some, Option.map_some, if_pos (List.find?_some hold)]

theorem setMembership_ids (input : UpdateTenantMembershipInput) (hids : db.IdsUnique) :
    (db.setMembership clientId membershipId input).IdsUnique := by
  have hsame : (Membership.id ∘ fun m => if isMembershipOf clientId membershipId m then input.applyTo m else m) = Membership.id := by
    funext m
    rw [Function.comp_apply]
    split <;> rfl
  rwa [IdentityDb.IdsUnique, IdentityDb.setMembership, KeyedTable.update, List.map_map, hsame]

/-- The event of the tenant administration is written as any other. -/
theorem writeRoleChange_eq (old : Membership) (role : MembershipRole) :
    writeRoleChange sha256 db old role actorUserId now =
      match writeAuditEvent db.auditEvents (roleChangeId sha256 old role) (roleChange old role .analyst actorUserId) now with
      | none => .error .auditEventConflict
      | some (_, auditEvents) => .ok { db with auditEvents } := by
  simp only [writeRoleChange]
  cases hfound : db.auditEvents.find? (roleChangeId sha256 old role) with
  | none =>
    obtain ⟨log, hwrite, hinsert⟩ := AuditLedger.writeAuditEvent_free hfound (roleChange old role .analyst actorUserId) now
    rw [hwrite]
    simp only [roleChangeId, roleChange] at hfound hinsert ⊢
    rw [hfound, hinsert]
    rfl
  | some row =>
    rw [AuditLedger.writeAuditEvent_found hfound]
    simp only [roleChangeId, roleChange] at hfound ⊢
    rw [hfound]
    simp only
    split
    · rename_i hsame
      simp only [hsame, if_true]
    · rename_i hdiffers
      simp only [hdiffers, Bool.false_eq_true, if_false]

variable (sha256) in
/-- A change that writes its event. -/
theorem run_records (hids : db.IdsUnique) {newRole : MembershipRole} (hold : db.membershipOf call = some old)
    (hrole : call.input.newRole = some newRole) (hmanages : call.input.Manages old.role)
    (hrecords : call.input.Records old.role newRole) :
    ∃ input : UpdateTenantMembershipInput, input.role = some newRole ∧ call.run sha256 db =
      match writeAuditEvent db.auditEvents (roleChangeId sha256 old newRole)
          (roleChange old newRole call.input.actorKind call.actorUserId) call.now with
      | none => .error .auditEventConflict
      | some (_, auditEvents) =>
        .ok (true, { db.setMembership call.clientId call.membershipId input with auditEvents }) := by
  obtain ⟨clientId, membershipId, input, actorUserId, now⟩ := call
  cases input with
  | portal portalRole =>
    obtain rfl := Option.some.inj hrole
    have hfound := find?_managed hids (p := fun m => PORTAL_ROLES.contains m.role) hold
    rw [if_pos (List.contains_iff_mem.mpr hmanages)] at hfound
    refine ⟨⟨some portalRole.role, none⟩, rfl, ?_⟩
    simp only [RoleCall.run, updatePortalMemberRole, hfound, RoleInput.actorKind]
  | tenant input =>
    refine ⟨input, hrole, ?_⟩
    have hfound : db.memberships.rows.find? (isMembershipOf clientId membershipId) = some old := hold
    have hinput : input.role = some newRole := hrole
    have hne : newRole ≠ old.role := hrecords
    simp only [RoleCall.run, updateTenantMembership, hfound, hinput, if_neg hne, writeRoleChange_eq, RoleInput.actorKind]
    cases writeAuditEvent db.auditEvents (roleChangeId sha256 old newRole)
        (roleChange old newRole .analyst actorUserId) now with
    | none => rfl
    | some r => rfl

variable (sha256) in
/-- A call that writes no event: where the membership is managed, its row is set. -/
theorem run_silent (hids : db.IdsUnique)
    (h : ∀ old newRole, db.membershipOf call = some old → call.input.newRole = some newRole →
      call.input.Manages old.role → ¬ call.input.Records old.role newRole) :
    call.run sha256 db = .ok (false, db) ∧
        (∀ old, db.membershipOf call = some old → ¬ call.input.Manages old.role) ∨
      ∃ input : UpdateTenantMembershipInput, input.role = call.input.newRole ∧
        call.run sha256 db = .ok (true, db.setMembership call.clientId call.membershipId input) := by
  obtain ⟨clientId, membershipId, input, actorUserId, now⟩ := call
  cases hold : db.membershipOf ⟨clientId, membershipId, input, actorUserId, now⟩ with
  | none =>
    have hnone : db.memberships.rows.find? (isMembershipOf clientId membershipId) = none := hold
    refine .inl ⟨?_, fun old hold => (by cases hold)⟩
    cases input with
    | portal portalRole =>
      have hnone' : db.memberships.rows.find?
          (fun m => isMembershipOf clientId membershipId m && PORTAL_ROLES.contains m.role) = none := by
        rw [List.find?_eq_none] at hnone ⊢
        intro m hm hand
        exact hnone m hm (Bool.and_eq_true_iff.mp hand).1
      simp only [RoleCall.run, updatePortalMemberRole, hnone']
    | tenant input =>
      simp only [RoleCall.run, updateTenantMembership, hnone]
      rfl
  | some old =>
    have hfound : db.memberships.rows.find? (isMembershipOf clientId membershipId) = some old := hold
    cases input with
    | portal portalRole =>
      have hunmanaged : old.role ∉ PORTAL_ROLES := fun hmem => h old portalRole.role hold rfl hmem trivial
      have hnone := find?_managed hids (p := fun m => PORTAL_ROLES.contains m.role) hfound
      rw [if_neg (by simpa using hunmanaged)] at hnone
      refine .inl ⟨?_, fun old' hold' => ?_⟩
      · simp only [RoleCall.run, updatePortalMemberRole, hnone]
      · obtain rfl := Option.some.inj hold'
        exact hunmanaged
    | tenant input =>
      refine .inr ⟨input, rfl, ?_⟩
      simp only [RoleCall.run, updateTenantMembership, hfound]
      cases hrole : input.role with
      | none => rfl
      | some role =>
        have hsame : role = old.role := by
          by_contra hne
          exact h old role hold hrole trivial hne
        simp only
        rw [if_pos hsame]
        rfl

/-! ## The law -/

/-- A call that sets the membership's row does so. -/
theorem membershipOf_set {input : UpdateTenantMembershipInput} {auditEvents : AuditLedger.AuditLog}
    (hold : db.membershipOf call = some old) :
    IdentityDb.membershipOf { db.setMembership call.clientId call.membershipId input with auditEvents } call =
      some (input.applyTo old) := by
  have hset := @setMembership_find? db call.clientId call.membershipId input
  rw [show db.memberships.rows.find? (isMembershipOf call.clientId call.membershipId) = some old from hold] at hset
  exact hset

theorem changesRole_iff (hids : db.IdsUnique) : ChangesRole sha256 db call ↔ Unopposed sha256 db call := by
  constructor
  · rintro ⟨hnoconflict, -⟩ old hold newRole hrole hmanages hrecords
    obtain ⟨input, -, hrun⟩ := run_records sha256 hids hold hrole hmanages hrecords
    rw [← @writeAuditEvent_isSome _ _ _ call.now]
    cases hwrite : writeAuditEvent db.auditEvents (roleChangeId sha256 old newRole)
        (roleChange old newRole call.input.actorKind call.actorUserId) call.now with
    | none =>
      rw [hwrite] at hrun
      exact absurd hrun hnoconflict
    | some r => rfl
  · intro hfree
    by_cases hrecords : ∃ old newRole, db.membershipOf call = some old ∧ call.input.newRole = some newRole ∧
        call.input.Manages old.role ∧ call.input.Records old.role newRole
    · obtain ⟨old, newRole, hold, hrole, hmanages, hrecords⟩ := hrecords
      obtain ⟨input, hinput, hrun⟩ := run_records sha256 hids hold hrole hmanages hrecords
      have hbindable := hfree old hold newRole hrole hmanages hrecords
      rw [← @writeAuditEvent_isSome _ _ _ call.now] at hbindable
      obtain ⟨⟨created, log⟩, hwrite⟩ := Option.isSome_iff_exists.mp hbindable
      rw [hwrite] at hrun
      refine ⟨fun hconflict => ?_, fun old' newRole' hold' hrole' _ => ?_⟩
      · rw [hconflict] at hrun
        cases hrun
      · obtain rfl := Option.some.inj (hold.symm.trans hold')
        obtain rfl := Option.some.inj (hrole.symm.trans hrole')
        refine ⟨_, input.applyTo old, hrun, membershipOf_set hold, ?_, fun _ => writeAuditEvent_bound hwrite⟩
        rw [UpdateTenantMembershipInput.applyTo, hinput]
        rfl
    · have hsilent : ∀ old newRole, db.membershipOf call = some old → call.input.newRole = some newRole →
          call.input.Manages old.role → ¬ call.input.Records old.role newRole :=
        fun old newRole hold hrole hmanages hrec => hrecords ⟨old, newRole, hold, hrole, hmanages, hrec⟩
      rcases run_silent sha256 hids hsilent with ⟨hrun, hunmanaged⟩ | ⟨input, hinput, hrun⟩
      · refine ⟨fun hconflict => ?_, fun old newRole hold _ hmanages => absurd hmanages (hunmanaged old hold)⟩
        rw [hconflict] at hrun
        cases hrun
      · refine ⟨fun hconflict => ?_, fun old newRole hold hrole hmanages => ?_⟩
        · rw [hconflict] at hrun
          cases hrun
        · refine ⟨_, input.applyTo old, hrun, membershipOf_set hold, ?_, fun hne => ?_⟩
          · rw [UpdateTenantMembershipInput.applyTo, hinput, hrole]
            rfl
          · have hstays := hsilent old newRole hold hrole hmanages
            cases hin : call.input with
            | portal portalRole =>
              rw [hin] at hstays
              exact absurd trivial hstays
            | tenant input =>
              rw [hin] at hstays
              exact absurd hne hstays

theorem roleStep_ids (hids : db.IdsUnique) (h : roleStep sha256 db call = some db') : db'.IdsUnique := by
  by_cases hrecords : ∃ old newRole, db.membershipOf call = some old ∧ call.input.newRole = some newRole ∧
      call.input.Manages old.role ∧ call.input.Records old.role newRole
  · obtain ⟨old, newRole, hold, hrole, hmanages, hrecords⟩ := hrecords
    obtain ⟨input, -, hrun⟩ := run_records sha256 hids hold hrole hmanages hrecords
    rw [roleStep, hrun] at h
    cases hwrite : writeAuditEvent db.auditEvents (roleChangeId sha256 old newRole)
        (roleChange old newRole call.input.actorKind call.actorUserId) call.now with
    | none =>
      rw [hwrite] at h
      obtain rfl := Option.some.inj h
      exact hids
    | some r =>
      rw [hwrite] at h
      obtain rfl := Option.some.inj h
      exact setMembership_ids input hids
  · have hsilent : ∀ old newRole, db.membershipOf call = some old → call.input.newRole = some newRole →
        call.input.Manages old.role → ¬ call.input.Records old.role newRole :=
      fun old newRole hold hrole hmanages hrec => hrecords ⟨old, newRole, hold, hrole, hmanages, hrec⟩
    rcases run_silent sha256 hids hsilent with ⟨hrun, -⟩ | ⟨input, -, hrun⟩
    · rw [roleStep, hrun] at h
      obtain rfl := Option.some.inj h
      exact hids
    · rw [roleStep, hrun] at h
      obtain rfl := Option.some.inj h
      exact setMembership_ids input hids

end

/-- Along a history, every change of a role goes through exactly if none meets an event of a change to the same
role from another role, by another actor or from the other surface. -/
theorem roleChanges_iff (sha256 : String → ℕ) (db : IdentityDb) (hids : db.IdsUnique) (calls : List RoleCall) :
    Runs.AllSteps (roleStep sha256) (ChangesRole sha256) db calls ↔
      Runs.AllSteps (roleStep sha256) (Unopposed sha256) db calls :=
  Runs.allSteps_iff IdentityDb.IdsUnique (fun _ _ _ hids h => roleStep_ids hids h)
    (fun _ _ _ hids _ => changesRole_iff hids) calls db hids

/-- One viewer of account 1. -/
def oneViewer : IdentityDb :=
  ⟨.empty, .empty, .empty, .empty, ⟨[⟨20, 10, 1, none, none, .account_viewer, true⟩], List.nodup_singleton _⟩, .empty⟩

theorem oneViewer_ids : oneViewer.IdsUnique := List.nodup_singleton _

/-- The portal's admins, by user. -/
def portalCall (newRole : PortalRole) (actorUserId : ℕ) : RoleCall := ⟨1, 20, .portal newRole, some actorUserId, 0⟩

/-- One admin promotes and demotes, as often as they like. -/
theorem sameAdmin_changes :
    Runs.AllSteps (roleStep Claims.textNumber) (ChangesRole Claims.textNumber) oneViewer
      [portalCall .account_admin 11, portalCall .account_viewer 11, portalCall .account_admin 11] := by
  refine (roleChanges_iff Claims.textNumber oneViewer oneViewer_ids _).mpr ?_
  decide +kernel

/-- A member whom one admin promoted and demoted cannot be promoted by another. -/
theorem secondAdmin_blocked :
    ¬ Runs.AllSteps (roleStep Claims.textNumber) (ChangesRole Claims.textNumber) oneViewer
        [portalCall .account_admin 11, portalCall .account_viewer 11, portalCall .account_admin 12] := by
  intro h
  have hfree := (Runs.allSteps_iff IdentityDb.IdsUnique (fun _ _ _ hids h => roleStep_ids hids h)
    (fun _ _ _ hids _ => changesRole_iff hids) _ oneViewer oneViewer_ids).mp h
  exact absurd hfree (by decide +kernel)

end Identity
