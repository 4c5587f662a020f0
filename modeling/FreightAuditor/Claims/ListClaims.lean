import FreightAuditor.Library.KeyedTable
import FreightAuditor.Shared.CursorPagination

/- The list of claims.

   Claims of the account, the newest first and of one time by their id. The query after a cursor reads the
   time of the cursor's row anew, to the microsecond that the time in the cursor has lost. -/
namespace ClaimLists

open CursorPagination KeysetPages

structure Claim where
  id : Uuid
  accountId : ℕ
  disputeId : Option Uuid
  amountClaimed : String
  currency : Option String
  status : String
  openedAt : Timestamp
  agingDeadlineAt : Option Timestamp

structure ClaimRow where
  id : Uuid
  disputeId : Option Uuid
  amountClaimed : String
  currency : Option String
  status : String
  openedAt : ℤ
  agingDeadlineAt : Option ℤ
  deriving DecidableEq

def toClaimRow (r : Claim) : ClaimRow :=
  { id := r.id, disputeId := r.disputeId, amountClaimed := r.amountClaimed, currency := r.currency, status := r.status,
    openedAt := r.openedAt.toDate, agingDeadlineAt := r.agingDeadlineAt.map Timestamp.toDate }

/-- The conditions besides the cursor's; an empty status is none. -/
def conditions (clientId : ℕ) (status : Option String) (row : Claim) : Bool :=
  row.accountId = clientId && (status.filter (· ≠ "")).all (row.status = ·)

def listClaims (claims : KeyedTable Claim Claim.id) (clientId : ℕ) (status : Option String) (options : PageOptions) :
    List ClaimRow :=
  let rows := claims.rows.filter (conditions clientId status)
  let selected := match options.cursor with
    | none => rows
    | some cursorId => keysetTieBreak Claim.openedAt Claim.id rows
        (keysetAnchorFrom Claim.openedAt Claim.id claims.rows (fun row => row.accountId = clientId) cursorId)
  (limitOffsetClause options (sorted Claim.openedAt Claim.id selected)).map toClaimRow

def keyOf (r : ClaimRow) : KeysetCursor := rowKey r.openedAt r.id

/-- `GET /api/claims`. -/
def getClaims (otherForms : String → Bool) (claims : KeyedTable Claim Claim.id) (clientId : ℕ) (status : Option String)
    (limit offset : Option ℕ) (cursor : Option String) : Except PageRefusal (List ClaimRow × Option String) :=
  answerPage otherForms (listClaims claims clientId status) keyOf limit offset cursor

section

variable {claims : KeyedTable Claim Claim.id} {clientId : ℕ} {status : Option String}

theorem filter_nodup : ((claims.rows.filter (conditions clientId status)).map Claim.id).Nodup :=
  claims.unique.sublist (List.filter_sublist.map Claim.id)

theorem listClaims_lists : Lists Claim.openedAt Claim.id (claims.rows.filter (conditions clientId status)) toClaimRow
    (listClaims claims clientId status) := by
  refine ⟨fun limit => rfl, fun limit a ha => ?_⟩
  obtain ⟨hmem, hkept⟩ := List.mem_filter.mp ha
  have haccount : decide (a.accountId = clientId) = true := (Bool.and_eq_true _ _ ▸ hkept).1
  have hanchor : keysetAnchorFrom Claim.openedAt Claim.id claims.rows (fun row => row.accountId = clientId) a.id =
      [(a.openedAt, a.id)] := keysetAnchorFrom_eq claims.unique hmem haccount
  simp only [listClaims, hanchor, keysetTieBreak_singleton]
  rfl

theorem listClaims_keys (options : PageOptions) : ∀ row ∈ listClaims claims clientId status options,
    ∃ t : Timestamp, ∃ id, keyOf row = rowKey t.toDate id := by
  intro row hrow
  obtain ⟨claim, -, rfl⟩ := List.mem_map.mp hrow
  exact ⟨claim.openedAt, claim.id, rfl⟩

end

end ClaimLists
