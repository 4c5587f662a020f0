import FreightAuditor.Identity.Memberships

/- Who may open an account.

   Three resolvers look up a membership of the user with the account and take the first row
   that the database gives them, in whatever order. Only one of them asks whether the
   membership is active, and none whether it is for the account itself. So they keep to the
   active account-level membership exactly if the user's other rows with the account have
   nothing else to say (`opensLawfully_iff`). -/
namespace Identity

/-! ## Requests -/

inductive HeaderValue where
  | text (value : String)
  | list (values : List String)

/-- What the resolvers read of a request, and what `getSession` answers for it. -/
structure Request where
  /-- `process.env.DEV_AUTH_HEADERS === '1'`. -/
  devAuthHeaders : Bool
  accountHeader : Option HeaderValue
  userHeader : Option HeaderValue
  cookie : Option String
  sessionUserId : Option String

/-- The value, unless it is missing or empty. -/
def readHeader : Option HeaderValue → Option String
  | none => none
  | some (.text value) => if value = "" then none else some value
  | some (.list values) => values.head?.filter (· ≠ "")

/-- The user and the account of a request: from two headers, or from the session and one header. -/
def resolveIdentity (request : Request) : Option (String × String) := do
  if request.devAuthHeaders then
    let clientId ← readHeader request.accountHeader
    let userId ← readHeader request.userHeader
    return (userId, clientId)
  else
    let _ ← request.cookie.filter (· ≠ "")
    let userId ← request.sessionUserId
    let clientId ← readHeader request.accountHeader
    return (userId, clientId)

structure TenantContext where
  clientIds : List String
  internal : Bool
  deriving DecidableEq

/-- The context, with what the resolver notes in the request. -/
structure Grant where
  context : TenantContext
  actorUserId : String
  actorRole : Option MembershipRole
  deriving DecidableEq

/-! ## Resolvers -/

def IdentityDb.isActiveAccount (db : IdentityDb) (id : ℕ) : Bool := (db.accounts.find? id).any (·.isActive)

/-- The row meets the conditions of a lookup. -/
def IdentityDb.isLookedUp (db : IdentityDb) (extra : Membership → Bool) (userId accountId : ℕ) (m : Membership) : Bool :=
  m.userId = userId && m.accountId = accountId && db.isActiveAccount m.accountId && extra m

section

/- The value of a `uuid` parameter; `none` where the database rejects its text. -/
variable (uuidIn : String → Option ℕ)

/-- `LIMIT 1`, in the physical order. -/
def lookupRole (extra : Membership → Bool) (db : IdentityDb) (userId clientId : String) :
    Except IdentityError (Option MembershipRole) :=
  match uuidIn userId, uuidIn clientId with
  | some u, some a => .ok ((db.memberships.rows.find? (db.isLookedUp extra u a)).map Membership.role)
  | _, _ => .error .sql

/-- Of `account-admin-auth.ts`, and of `account-viewer-auth.ts`. -/
def lookupMembershipRole := lookupRole uuidIn fun _ => true

/-- Of `tenant-auth.ts`. -/
def lookupMembership := lookupRole uuidIn Membership.isActive

/-- A resolver that asks for one role. -/
def resolveRoleContext (required : MembershipRole) (db : IdentityDb) (request : Request) :
    Except IdentityError (Option Grant) :=
  match resolveIdentity request with
  | none => .ok none
  | some (userId, clientId) =>
    (lookupMembershipRole uuidIn db userId clientId).map fun role =>
      if role = some required then some ⟨⟨[clientId], false⟩, userId, none⟩ else none

def resolveAccountAdminContext := resolveRoleContext uuidIn .account_admin

def resolveAccountViewerContext := resolveRoleContext uuidIn .account_viewer

def resolveAuthorizedTenantContext (db : IdentityDb) (request : Request) : Except IdentityError (Option Grant) :=
  match resolveIdentity request with
  | none => .ok none
  | some (userId, clientId) =>
    (lookupMembership uuidIn db userId clientId).map fun role =>
      role.map fun role => ⟨⟨[clientId], false⟩, userId, some role⟩

end

/-! ## The law -/

/-- The same rows in another physical order. -/
def IdentityDb.Reordered (db db' : IdentityDb) : Prop :=
  ∃ memberships, memberships.rows.Perm db.memberships.rows ∧ db' = { db with memberships }

/-- The user's rows with the account, of any scope. -/
def IdentityDb.rowsOf (db : IdentityDb) (u a : ℕ) : List Membership :=
  db.memberships.rows.filter fun m => m.userId = u ∧ m.accountId = a

/-- Active, and for the account itself. -/
def Membership.opensAccount (m : Membership) : Bool := m.clientId.isNone && m.vendorId.isNone && m.isActive

/-- The user's active account-level membership in the active account. -/
def IdentityDb.AccountMembership (db : IdentityDb) (u a : ℕ) (m : Membership) : Prop :=
  m ∈ db.rowsOf u a ∧ m.opensAccount = true ∧ db.isActiveAccount a = true

section

variable (uuidIn : String → Option ℕ) (db : IdentityDb) (request : Request)

/-- The three resolvers open the account to its active members, and to no others. -/
structure OpensToMembers (clientId : String) (u a : ℕ) : Prop where
  admin : (∃ grant, resolveAccountAdminContext uuidIn db request = .ok (some grant) ∧ grant.context = ⟨[clientId], false⟩) ↔
    ∃ m, db.AccountMembership u a m ∧ m.role = .account_admin
  viewer : (∃ grant, resolveAccountViewerContext uuidIn db request = .ok (some grant) ∧ grant.context = ⟨[clientId], false⟩) ↔
    ∃ m, db.AccountMembership u a m ∧ m.role = .account_viewer
  tenant : ∀ grant, resolveAuthorizedTenantContext uuidIn db request = .ok (some grant) →
    grant.context = ⟨[clientId], false⟩ ∧ ∃ m, db.AccountMembership u a m ∧ grant.actorRole = some m.role

/-- They do in every order of the rows, and answer the same in all of them. -/
def OpensLawfully : Prop :=
  ∀ userId clientId u a, resolveIdentity request = some (userId, clientId) → uuidIn userId = some u → uuidIn clientId = some a →
    ∀ db', db.Reordered db' → OpensToMembers uuidIn db' request clientId u a ∧
      resolveAccountAdminContext uuidIn db' request = resolveAccountAdminContext uuidIn db request ∧
      resolveAccountViewerContext uuidIn db' request = resolveAccountViewerContext uuidIn db request ∧
      resolveAuthorizedTenantContext uuidIn db' request = resolveAuthorizedTenantContext uuidIn db request

/-- If one of the user's rows with the account has the role, all of them have, and one is active and for the account. -/
def OneRole (u a : ℕ) (role : MembershipRole) : Prop :=
  (∃ m ∈ db.rowsOf u a, m.role = role) →
    (∀ m ∈ db.rowsOf u a, m.role = role) ∧ ∃ m ∈ db.rowsOf u a, m.opensAccount = true

/-- If one of the user's rows with the account is active, one is active and for the account, and the active ones
have its role. -/
def ActiveAgree (u a : ℕ) : Prop :=
  (∃ m ∈ db.rowsOf u a, m.isActive = true) →
    ∃ m ∈ db.rowsOf u a, m.opensAccount = true ∧ ∀ m' ∈ db.rowsOf u a, m'.isActive = true → m'.role = m.role

/-- The user's rows with the account, if it is active, have nothing to say but what the account-level one says. -/
def RowsAgree : Prop :=
  ∀ userId clientId u a, resolveIdentity request = some (userId, clientId) → uuidIn userId = some u → uuidIn clientId = some a →
    db.isActiveAccount a = true → OneRole db u a .account_admin ∧ OneRole db u a .account_viewer ∧ ActiveAgree db u a

end

section

variable {uuidIn : String → Option ℕ} {db db' : IdentityDb} {request : Request} {extra : Membership → Bool} {u a : ℕ}

theorem exists_perm_find? {α : Type} {l : List α} {p : α → Bool} {x : α} (hx : x ∈ l) (hp : p x = true) :
    ∃ l' : List α, l'.Perm l ∧ l'.find? p = some x := by
  obtain ⟨s, t, rfl⟩ := List.append_of_mem hx
  exact ⟨x :: (s ++ t), List.perm_middle.symm, List.find?_cons_of_pos hp⟩

theorem mem_rowsOf {m : Membership} : m ∈ db.rowsOf u a ↔ m ∈ db.memberships.rows ∧ m.userId = u ∧ m.accountId = a := by
  rw [IdentityDb.rowsOf, List.mem_filter, decide_eq_true_iff]

theorem isLookedUp_iff {m : Membership} (hm : m ∈ db.memberships.rows) :
    db.isLookedUp extra u a m = true ↔ m ∈ db.rowsOf u a ∧ db.isActiveAccount a = true ∧ extra m = true := by
  rw [mem_rowsOf]
  simp only [IdentityDb.isLookedUp, Bool.and_eq_true, decide_eq_true_eq]
  constructor
  · rintro ⟨⟨⟨rfl, rfl⟩, hactive⟩, hextra⟩
    exact ⟨⟨hm, rfl, rfl⟩, hactive, hextra⟩
  · rintro ⟨⟨-, rfl, rfl⟩, hactive, hextra⟩
    exact ⟨⟨⟨rfl, rfl⟩, hactive⟩, hextra⟩

theorem IdentityDb.Reordered.rowsOf (h : db.Reordered db') {m : Membership} : m ∈ db'.rowsOf u a ↔ m ∈ db.rowsOf u a := by
  obtain ⟨memberships, hperm, rfl⟩ := h
  rw [mem_rowsOf, mem_rowsOf, hperm.mem_iff]

theorem IdentityDb.Reordered.isActiveAccount (h : db.Reordered db') : db'.isActiveAccount a = db.isActiveAccount a := by
  obtain ⟨memberships, -, rfl⟩ := h
  rfl

theorem IdentityDb.Reordered.accountMembership (h : db.Reordered db') {m : Membership} :
    db'.AccountMembership u a m ↔ db.AccountMembership u a m := by
  rw [IdentityDb.AccountMembership, IdentityDb.AccountMembership, h.rowsOf, h.isActiveAccount]

/-- The role a lookup finds. -/
def IdentityDb.firstRole (db : IdentityDb) (extra : Membership → Bool) (u a : ℕ) : Option MembershipRole :=
  (db.memberships.rows.find? (db.isLookedUp extra u a)).map Membership.role

/-- A lookup finds the role of a row that meets its conditions. -/
theorem firstRole_sound {role : MembershipRole} (h : db.firstRole extra u a = some role) :
    ∃ m ∈ db.rowsOf u a, db.isActiveAccount a = true ∧ extra m = true ∧ m.role = role := by
  obtain ⟨m, hfind, hrole⟩ := Option.map_eq_some_iff.mp h
  obtain ⟨hm, hactive, hextra⟩ := (isLookedUp_iff (List.mem_of_find?_eq_some hfind)).mp (List.find?_some hfind)
  exact ⟨m, hm, hactive, hextra, hrole⟩

variable (extra) in
theorem firstRole_isSome {m : Membership} (hm : m ∈ db.rowsOf u a) (hactive : db.isActiveAccount a = true)
    (hextra : extra m = true) : ∃ role, db.firstRole extra u a = some role := by
  cases hfind : db.memberships.rows.find? (db.isLookedUp extra u a) with
  | some first => exact ⟨first.role, by rw [IdentityDb.firstRole, hfind]; rfl⟩
  | none =>
    have hmem := (mem_rowsOf.mp hm).1
    exact absurd ((isLookedUp_iff hmem).mpr ⟨hm, hactive, hextra⟩) (List.find?_eq_none.mp hfind m hmem)

variable (extra) in
/-- Every row that meets the conditions comes first in some order. -/
theorem firstRole_anyRow {m : Membership} (hm : m ∈ db.rowsOf u a) (hactive : db.isActiveAccount a = true)
    (hextra : extra m = true) : ∃ db', db.Reordered db' ∧ db'.firstRole extra u a = some m.role := by
  have hmem := (mem_rowsOf.mp hm).1
  obtain ⟨rows, hperm, hfind⟩ := exists_perm_find? hmem ((isLookedUp_iff hmem).mpr ⟨hm, hactive, hextra⟩)
  refine ⟨{ db with memberships := ⟨rows, (hperm.map _).nodup_iff.mpr db.memberships.unique⟩ }, ⟨_, hperm, rfl⟩, ?_⟩
  exact congrArg (Option.map Membership.role) hfind

/-- One membership of the user is for the account itself, at most. -/
theorem opensAccount_unique {m m' : Membership} (hm : m ∈ db.rowsOf u a) (hm' : m' ∈ db.rowsOf u a)
    (h : m.opensAccount = true) (h' : m'.opensAccount = true) : m = m' := by
  obtain ⟨hmem, rfl, rfl⟩ := mem_rowsOf.mp hm
  obtain ⟨hmem', huser, haccount⟩ := mem_rowsOf.mp hm'
  simp only [Membership.opensAccount, Bool.and_eq_true, Option.isNone_iff_eq_none] at h h'
  refine KeyedTable.eq_of_key hmem hmem' ?_
  rw [Membership.scopeKey, Membership.scopeKey, h.1.1, h.1.2, h'.1.1, h'.1.2, huser, Option.or_none, Option.getD_none,
    Option.getD_none, haccount]

/-! ## One resolver -/

theorem resolveRoleContext_eq {userId clientId : String} (hid : resolveIdentity request = some (userId, clientId))
    (hu : uuidIn userId = some u) (ha : uuidIn clientId = some a) (required : MembershipRole) (db : IdentityDb) :
    resolveRoleContext uuidIn required db request =
      .ok (if db.firstRole (fun _ => true) u a = some required then some ⟨⟨[clientId], false⟩, userId, none⟩ else none) := by
  simp only [resolveRoleContext, hid, lookupMembershipRole, lookupRole, hu, ha]
  rfl

theorem resolveAuthorizedTenantContext_eq {userId clientId : String} (hid : resolveIdentity request = some (userId, clientId))
    (hu : uuidIn userId = some u) (ha : uuidIn clientId = some a) (db : IdentityDb) :
    resolveAuthorizedTenantContext uuidIn db request =
      .ok ((db.firstRole Membership.isActive u a).map fun role => ⟨⟨[clientId], false⟩, userId, some role⟩) := by
  simp only [resolveAuthorizedTenantContext, hid, lookupMembership, lookupRole, hu, ha]
  rfl

theorem grantsRole_iff {userId clientId : String} (hid : resolveIdentity request = some (userId, clientId))
    (hu : uuidIn userId = some u) (ha : uuidIn clientId = some a) (required : MembershipRole) (db : IdentityDb) :
    (∃ grant, resolveRoleContext uuidIn required db request = .ok (some grant) ∧ grant.context = ⟨[clientId], false⟩) ↔
      db.firstRole (fun _ => true) u a = some required := by
  rw [resolveRoleContext_eq hid hu ha]
  constructor
  · rintro ⟨grant, hgrant, -⟩
    by_contra hother
    rw [if_neg hother] at hgrant
    cases hgrant
  · intro h
    rw [if_pos h]
    exact ⟨_, rfl, rfl⟩

/-- The first row has the role in every order just if it should. -/
theorem firstRole_lawful_iff (required : MembershipRole) :
    (∀ db', db.Reordered db' → (db'.firstRole (fun _ => true) u a = some required ↔
        ∃ m, db.AccountMembership u a m ∧ m.role = required)) ↔
      (db.isActiveAccount a = true → OneRole db u a required) := by
  constructor
  · rintro h hactive ⟨m, hm, hrole⟩
    obtain ⟨db', hdb', hfirst⟩ := firstRole_anyRow (fun _ => true) hm hactive rfl
    obtain ⟨opener, ⟨hopener, hopens, -⟩, hrequired⟩ := (h db' hdb').mp (hrole ▸ hfirst)
    refine ⟨fun m' hm' => ?_, opener, hopener, hopens⟩
    obtain ⟨db', hdb', hfirst⟩ := firstRole_anyRow (fun _ => true) hm' hactive rfl
    exact Option.some.inj (hfirst.symm.trans ((h db' hdb').mpr ⟨opener, ⟨hopener, hopens, hactive⟩, hrequired⟩))
  · intro h db' hdb'
    constructor
    · intro hfirst
      obtain ⟨m, hm, hactive, -, hrole⟩ := firstRole_sound hfirst
      rw [hdb'.rowsOf] at hm
      rw [hdb'.isActiveAccount] at hactive
      obtain ⟨hall, opener, hopener, hopens⟩ := h hactive ⟨m, hm, hrole⟩
      exact ⟨opener, ⟨hopener, hopens, hactive⟩, hall opener hopener⟩
    · rintro ⟨m, ⟨hm, hopens, hactive⟩, hrole⟩
      obtain ⟨role, hfirst⟩ := firstRole_isSome (fun _ => true) (hdb'.rowsOf.mpr hm)
        (hdb'.isActiveAccount.trans hactive) rfl
      obtain ⟨m', hm', -, -, hrole'⟩ := firstRole_sound hfirst
      rw [hfirst, ← hrole', (h hactive ⟨m, hm, hrole⟩).1 m' (hdb'.rowsOf.mp hm')]

theorem firstActive_lawful_iff :
    (∀ db', db.Reordered db' → ∀ role, db'.firstRole Membership.isActive u a = some role →
        ∃ m, db.AccountMembership u a m ∧ role = m.role) ↔
      (db.isActiveAccount a = true → ActiveAgree db u a) := by
  constructor
  · rintro h hactive ⟨m, hm, hmActive⟩
    obtain ⟨db', hdb', hfirst⟩ := firstRole_anyRow _ hm hactive hmActive
    obtain ⟨opener, ⟨hopener, hopens, -⟩, -⟩ := h db' hdb' _ hfirst
    refine ⟨opener, hopener, hopens, fun m' hm' hmActive' => ?_⟩
    obtain ⟨db', hdb', hfirst⟩ := firstRole_anyRow _ hm' hactive hmActive'
    obtain ⟨opener', ⟨hopener', hopens', -⟩, hrole⟩ := h db' hdb' _ hfirst
    rw [hrole, opensAccount_unique hopener hopener' hopens hopens']
  · intro h db' hdb' role hfirst
    obtain ⟨m, hm, hactive, hmActive, hrole⟩ := firstRole_sound hfirst
    rw [hdb'.rowsOf] at hm
    rw [hdb'.isActiveAccount] at hactive
    obtain ⟨opener, hopener, hopens, hall⟩ := h hactive ⟨m, hm, hmActive⟩
    exact ⟨opener, ⟨hopener, hopens, hactive⟩, hrole ▸ hall m hm hmActive⟩

/-- Active rows that agree are found in every order or in none. -/
theorem firstActive_reordered (h : db.isActiveAccount a = true → ActiveAgree db u a) (hdb' : db.Reordered db') :
    db'.firstRole Membership.isActive u a = db.firstRole Membership.isActive u a := by
  have hself : db.Reordered db := ⟨db.memberships, List.Perm.refl _, rfl⟩
  have hsame : ∀ {x y : IdentityDb}, db.Reordered x → db.Reordered y → ∀ role,
      x.firstRole Membership.isActive u a = some role → y.firstRole Membership.isActive u a = some role := by
    intro x y hx hy role hrole
    obtain ⟨m, hm, hactive, hmActive, -⟩ := firstRole_sound hrole
    obtain ⟨opener, ⟨hopener, hopens, -⟩, hopenerRole⟩ := firstActive_lawful_iff.mpr h x hx role hrole
    obtain ⟨role', hrole'⟩ := firstRole_isSome _ (hy.rowsOf.mpr (hx.rowsOf.mp hm))
      (hy.isActiveAccount.trans (hx.isActiveAccount.symm.trans hactive)) hmActive
    obtain ⟨opener', ⟨hopener', hopens', -⟩, hopenerRole'⟩ := firstActive_lawful_iff.mpr h y hy role' hrole'
    rw [hrole', hopenerRole, hopenerRole', opensAccount_unique hopener hopener' hopens hopens']
  exact Option.ext fun role => ⟨hsame hdb' hself role, hsame hself hdb' role⟩

/-! ## The three -/

variable (uuidIn db request) in
/-- The resolvers open accounts to their active members, in every order of the rows, exactly if the rows of the
user with the account agree. -/
theorem opensLawfully_iff : OpensLawfully uuidIn db request ↔ RowsAgree uuidIn db request := by
  constructor
  · intro h userId clientId u a hid hu ha hactive
    have hlaw := fun db' hdb' => (h userId clientId u a hid hu ha db' hdb').1
    refine ⟨(firstRole_lawful_iff _).mp (fun db' hdb' => ?_) hactive, (firstRole_lawful_iff _).mp (fun db' hdb' => ?_) hactive,
      firstActive_lawful_iff.mp (fun db' hdb' role hrole => ?_) hactive⟩
    · have hadmin := (hlaw db' hdb').admin
      simp only [hdb'.accountMembership] at hadmin
      exact (grantsRole_iff hid hu ha _ db').symm.trans hadmin
    · have hviewer := (hlaw db' hdb').viewer
      simp only [hdb'.accountMembership] at hviewer
      exact (grantsRole_iff hid hu ha _ db').symm.trans hviewer
    · obtain ⟨-, m, hm, hmRole⟩ := (hlaw db' hdb').tenant ⟨⟨[clientId], false⟩, userId, some role⟩
        (by rw [resolveAuthorizedTenantContext_eq hid hu ha, hrole]; rfl)
      exact ⟨m, hdb'.accountMembership.mp hm, Option.some.inj hmRole⟩
  · intro h userId clientId u a hid hu ha db' hdb'
    have hrows := h userId clientId u a hid hu ha
    have hadmin := (firstRole_lawful_iff .account_admin).mpr fun hactive => (hrows hactive).1
    have hviewer := (firstRole_lawful_iff .account_viewer).mpr fun hactive => (hrows hactive).2.1
    have htenant := firstActive_lawful_iff.mpr fun hactive => (hrows hactive).2.2
    have hself : db.Reordered db := ⟨db.memberships, List.Perm.refl _, rfl⟩
    refine ⟨⟨?_, ?_, ?_⟩, ?_, ?_, ?_⟩
    · simp only [hdb'.accountMembership]
      exact (grantsRole_iff hid hu ha _ db').trans (hadmin db' hdb')
    · simp only [hdb'.accountMembership]
      exact (grantsRole_iff hid hu ha _ db').trans (hviewer db' hdb')
    · intro grant hgrant
      rw [resolveAuthorizedTenantContext_eq hid hu ha] at hgrant
      obtain ⟨role, hrole, rfl⟩ := Option.map_eq_some_iff.mp (Except.ok.inj hgrant)
      obtain ⟨m, hm, rfl⟩ := htenant db' hdb' role hrole
      exact ⟨rfl, m, hdb'.accountMembership.mpr hm, rfl⟩
    · rw [resolveAccountAdminContext, resolveRoleContext_eq hid hu ha, resolveRoleContext_eq hid hu ha]
      simp only [(hadmin db' hdb').trans (hadmin db hself).symm]
    · rw [resolveAccountViewerContext, resolveRoleContext_eq hid hu ha, resolveRoleContext_eq hid hu ha]
      simp only [(hviewer db' hdb').trans (hviewer db hself).symm]
    · rw [resolveAuthorizedTenantContext_eq hid hu ha, resolveAuthorizedTenantContext_eq hid hu ha,
        firstActive_reordered (fun hactive => (hrows hactive).2.2) hdb']

end

/-- An active account, and nothing else. -/
def oneAccount : IdentityDb := ⟨.empty, ⟨[⟨1, true⟩], List.nodup_singleton 1⟩, .empty, .empty, .empty, .empty⟩

/-- Two ids by their texts. -/
def twoIds (text : String) : Option ℕ := [("account", 1), ("admin", 10)].lookup text

def adminRequest : Request := ⟨true, some (.text "account"), some (.text "admin"), none, none⟩

/-- An admin is made, and disabled; the account stays open to them. -/
theorem disabledAdmin_opens :
    ∃ made db disabled db', createMembership oneAccount ⟨1, "a@b.c", .account_admin, none, none⟩ 10 20 = .ok (made, db) ∧
      updateTenantMembership Claims.textNumber db 1 20 ⟨none, some false⟩ none 0 = .ok (disabled, db') ∧
      ¬ OpensLawfully twoIds db' adminRequest := by
  refine ⟨_, _, _, _, rfl, rfl, fun h => ?_⟩
  have hopens := (h "admin" "account" 10 1 (by decide +kernel) (by decide +kernel) (by decide +kernel) _
    ⟨_, List.Perm.refl _, rfl⟩).1.admin
  obtain ⟨m, ⟨hm, hactive, -⟩, -⟩ := hopens.mp ⟨⟨⟨["account"], false⟩, "admin", none⟩, by decide +kernel, rfl⟩
  obtain rfl := List.mem_singleton.mp (mem_rowsOf.mp hm).1
  cases hactive

end Identity
