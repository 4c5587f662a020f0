import FreightAuditor.Claims.Tables
import FreightAuditor.Evaluator.EvaluateInvoice
import FreightAuditor.Library.KeyedTable
import FreightAuditor.Library.OffsetPages

/- The lists of findings.

   A listing joins a finding with its charge, run, invoice and carrier, and with the newest
   expected charge and description, and sorts by the variance or by the age alone. Which
   row comes first among those that tie is up to the database, each time anew. -/
namespace Findings

open Claims (VarianceStatus)
open Evaluator (Direction)

/-! ## The tables -/

structure VarianceFinding where
  id : ℕ
  accountId : ℕ
  auditRunId : ℕ
  criterionId : Option ℕ
  chargeFactId : Option ℕ
  varianceAmount : Option ℚ
  direction : Option Direction
  status : VarianceStatus
  createdAt : ℤ
  assignedToUserId : Option ℕ
  deriving DecidableEq

structure ChargeFact where
  id : ℕ
  invoiceId : ℕ
  category : Option String
  amount : ℚ
  deriving DecidableEq

structure AuditRun where
  id : ℕ
  invoiceId : ℕ
  deriving DecidableEq

structure Invoice where
  id : ℕ
  invoiceNumber : Option String
  carrierId : Option ℕ
  deriving DecidableEq

structure Carrier where
  id : ℕ
  name : String
  deriving DecidableEq

structure ExpectedCharge where
  chargeFactId : Option ℕ
  expectedAmount : Option ℚ
  createdAt : ℤ
  deriving DecidableEq

structure CriterionVersion where
  criterionId : ℕ
  description : Option String
  recordedAt : ℤ
  deriving DecidableEq

/-- The invoice is that of the charge, else that of the run. -/
def invoiceIdOf (chargeFact : Option ChargeFact) (auditRun : AuditRun) : ℕ :=
  (chargeFact.map ChargeFact.invoiceId).getD auditRun.invoiceId

/-- The rows a request sees. Runs, and the invoices of runs and charges, are there. -/
structure FindingsDb where
  varianceFindings : KeyedTable VarianceFinding VarianceFinding.id
  chargeFacts : KeyedTable ChargeFact ChargeFact.id
  auditRuns : KeyedTable AuditRun AuditRun.id
  invoices : KeyedTable Invoice Invoice.id
  carriers : KeyedTable Carrier Carrier.id
  expectedCharges : List ExpectedCharge
  criterionVersions : List CriterionVersion
  auditRunKept : ∀ f ∈ varianceFindings.rows, (auditRuns.find? f.auditRunId).isSome
  chargeInvoiceKept : ∀ c ∈ chargeFacts.rows, (invoices.find? c.invoiceId).isSome
  runInvoiceKept : ∀ r ∈ auditRuns.rows, (invoices.find? r.invoiceId).isSome

/-! ## Options -/

inductive FindingsSortKey where
  | variance | age
  deriving DecidableEq

inductive FindingsSortDir where
  | asc | desc
  deriving DecidableEq

structure ListAccountFindingsOptions where
  carrier : Option String
  status : Option VarianceStatus
  minAmount : Option ℚ
  limit : Option ℕ
  offset : Option ℕ
  sort : Option FindingsSortKey
  sortDir : Option FindingsSortDir

structure ListFindingsOptions extends ListAccountFindingsOptions where
  assignedToUserId : Option ℕ
  minAgeDays : Option ℕ
  category : Option String

def DEFAULT_LIMIT : ℕ := 50

/-- An empty text is no filter. -/
def truthy (text : Option String) : Option String := text.filter (· != "")

/-! ## A query -/

structure JoinedRow where
  finding : VarianceFinding
  chargeFact : Option ChargeFact
  auditRun : AuditRun
  invoice : Invoice
  carrier : Option Carrier
  expectedCharge : Option ExpectedCharge
  criterionVersion : Option CriterionVersion
  deriving DecidableEq

/-- The time of one query, and the orders in which the database comes by its rows. -/
structure Plan where
  now : ℤ
  joinedRows : List JoinedRow → List JoinedRow
  expectedCharges : List ExpectedCharge → List ExpectedCharge
  criterionVersions : List CriterionVersion → List CriterionVersion
  joinedRows_perm : ∀ l, (joinedRows l).Perm l
  expectedCharges_perm : ∀ l, (expectedCharges l).Perm l
  criterionVersions_perm : ∀ l, (criterionVersions l).Perm l

/-- Where no row matches, one of `NULL`s. -/
def leftJoin {α : Type} (rows : List α) : List (Option α) := if rows.isEmpty then [none] else rows.map some

/-- `LEFT JOIN LATERAL (… ORDER BY … DESC LIMIT 1) ON true`. -/
def leftJoinNewest {α : Type} (recordedAt : α → ℤ) (rows : List α) : List (Option α) :=
  leftJoin ((rows.insertionSort fun a b => recordedAt b ≤ recordedAt a).take 1)

/-- What both listings join with a finding. -/
def joinedWith (plan : Plan) (db : FindingsDb) (finding : VarianceFinding) : List JoinedRow :=
  (leftJoin (db.chargeFacts.rows.filter fun row => some row.id = finding.chargeFactId)).flatMap fun chargeFact =>
  (db.auditRuns.rows.filter fun row => row.id = finding.auditRunId).flatMap fun auditRun =>
  (db.invoices.rows.filter fun row => row.id = invoiceIdOf chargeFact auditRun).flatMap fun invoice =>
  (leftJoin (db.carriers.rows.filter fun row => some row.id = invoice.carrierId)).flatMap fun carrier =>
  (leftJoinNewest ExpectedCharge.createdAt (plan.expectedCharges (db.expectedCharges.filter fun row =>
    chargeFact.any fun charge => row.chargeFactId = some charge.id))).flatMap fun expectedCharge =>
  (leftJoinNewest CriterionVersion.recordedAt (plan.criterionVersions (db.criterionVersions.filter fun row =>
    some row.criterionId = finding.criterionId))).map fun criterionVersion =>
  ⟨finding, chargeFact, auditRun, invoice, carrier, expectedCharge, criterionVersion⟩

def joined (plan : Plan) (db : FindingsDb) : List JoinedRow := db.varianceFindings.rows.flatMap (joinedWith plan db)

/-- `WHERE` and `ORDER BY` of a listing. -/
structure Query where
  conditions : ℤ → VarianceFinding → Option ChargeFact → Option Carrier → Bool
  sort : Option FindingsSortKey
  sortDir : Option FindingsSortDir

/-- Descending unless asked otherwise. -/
def directed {κ : Type} [LE κ] (sortDir : Option FindingsSortDir) (a b : κ) : Prop :=
  (sortDir = some .asc → a ≤ b) ∧ (sortDir ≠ some .asc → b ≤ a)

/-- `NULLS LAST`. -/
def nullsLast (sortDir : Option FindingsSortDir) : Option ℚ → Option ℚ → Prop
  | _, none => True
  | none, some _ => False
  | some a, some b => directed sortDir a b

/-- The order that a request asks for. -/
def ordered (sort : Option FindingsSortKey) (sortDir : Option FindingsSortDir) (amount amount' : Option ℚ)
    (createdAt createdAt' : ℤ) : Prop :=
  (sort = some .variance → nullsLast sortDir amount amount') ∧ (sort ≠ some .variance → directed sortDir createdAt createdAt')

instance {κ : Type} [LE κ] [DecidableLE κ] (sortDir : Option FindingsSortDir) (a b : κ) : Decidable (directed sortDir a b) :=
  inferInstanceAs (Decidable (_ ∧ _))

instance (sortDir : Option FindingsSortDir) : ∀ a b, Decidable (nullsLast sortDir a b)
  | _, none => .isTrue trivial
  | none, some _ => .isFalse id
  | some a, some b => inferInstanceAs (Decidable (directed sortDir a b))

instance (sort : Option FindingsSortKey) (sortDir : Option FindingsSortDir) (amount amount' : Option ℚ)
    (createdAt createdAt' : ℤ) : Decidable (ordered sort sortDir amount amount' createdAt createdAt') :=
  inferInstanceAs (Decidable (_ ∧ _))

/-- Whether a finding may stand before another. -/
def Query.le (query : Query) (a b : VarianceFinding) : Prop :=
  ordered query.sort query.sortDir a.varianceAmount b.varianceAmount a.createdAt b.createdAt

instance (query : Query) : DecidableRel query.le := fun _ _ => inferInstanceAs (Decidable (ordered _ _ _ _ _ _))

def Query.rows (query : Query) (plan : Plan) (db : FindingsDb) : List JoinedRow :=
  (plan.joinedRows (joined plan db)).filter fun row => query.conditions plan.now row.finding row.chargeFact row.carrier

def Query.select (query : Query) (plan : Plan) (db : FindingsDb) (limit offset : Option ℕ) : List JoinedRow :=
  OffsetPages.page (fun a b => query.le a.finding b.finding) (query.rows plan db) (limit.getD DEFAULT_LIMIT)
    (offset.getD 0)

/-! ## The two listings -/

structure AccountFindingRow where
  id : ℕ
  auditRunId : ℕ
  invoiceId : ℕ
  invoiceNumber : Option String
  carrierName : Option String
  billed : Option ℚ
  expected : Option ℚ
  varianceAmount : Option ℚ
  direction : Option Direction
  status : VarianceStatus
  createdAt : ℤ
  ruleDescription : Option String

structure FindingRow extends AccountFindingRow where
  assignedToUserId : Option ℕ

def accountFindingRow (row : JoinedRow) : AccountFindingRow where
  id := row.finding.id
  auditRunId := row.finding.auditRunId
  invoiceId := row.invoice.id
  invoiceNumber := row.invoice.invoiceNumber
  carrierName := row.carrier.map Carrier.name
  billed := row.chargeFact.map ChargeFact.amount
  expected := row.expectedCharge.bind ExpectedCharge.expectedAmount
  varianceAmount := row.finding.varianceAmount
  direction := row.finding.direction
  status := row.finding.status
  createdAt := row.finding.createdAt
  ruleDescription := row.criterionVersion.bind CriterionVersion.description

def findingRow (row : JoinedRow) : FindingRow :=
  { accountFindingRow row with assignedToUserId := row.finding.assignedToUserId }

/-- The conditions that the listings share. -/
def filters (options : ListAccountFindingsOptions) (finding : VarianceFinding) (carrier : Option Carrier) : Bool :=
  (truthy options.carrier).all (fun name => carrier.any fun row => row.name = name) &&
  options.status.all (fun status => finding.status = status) &&
  options.minAmount.all (fun minAmount => finding.varianceAmount.any fun amount => minAmount ≤ amount)

def accountQuery (clientId : ℕ) (options : ListAccountFindingsOptions) : Query where
  conditions := fun _ finding _ carrier => finding.accountId = clientId && filters options finding carrier
  sort := options.sort
  sortDir := options.sortDir

def dayInMicroseconds : ℤ := 24 * 60 * 60 * 1000000

def findingsQuery (options : ListFindingsOptions) : Query where
  conditions := fun now finding chargeFact carrier =>
    filters options.toListAccountFindingsOptions finding carrier &&
    options.assignedToUserId.all (fun id => finding.assignedToUserId = some id) &&
    options.minAgeDays.all (fun days => finding.createdAt ≤ now - days * dayInMicroseconds) &&
    (truthy options.category).all (fun category => chargeFact.any fun row => row.category = some category)
  sort := options.sort
  sortDir := options.sortDir

def listAccountFindings (plan : Plan) (db : FindingsDb) (clientId : ℕ) (options : ListAccountFindingsOptions) :
    List AccountFindingRow :=
  ((accountQuery clientId options).select plan db options.limit options.offset).map accountFindingRow

def listFindings (plan : Plan) (db : FindingsDb) (options : ListFindingsOptions) : List FindingRow :=
  ((findingsQuery options).select plan db options.limit options.offset).map findingRow

/-- A listing with everything but its page. -/
inductive Listing where
  | account (clientId : ℕ) (options : ListAccountFindingsOptions)
  | findings (options : ListFindingsOptions)

def Listing.query : Listing → Query
  | .account clientId options => accountQuery clientId options
  | .findings options => findingsQuery options

/-- The rows of one page, without the column that only one listing has. -/
def Listing.page (listing : Listing) (plan : Plan) (db : FindingsDb) (limit offset : ℕ) : List AccountFindingRow :=
  match listing with
  | .account clientId options => listAccountFindings plan db clientId { options with limit, offset }
  | .findings options => (listFindings plan db { options with limit, offset }).map FindingRow.toAccountFindingRow

/-- The first `n` pages. -/
def Listing.pages (listing : Listing) (plans : ℕ → Plan) (db : FindingsDb) (limit n : ℕ) : List AccountFindingRow :=
  (List.range n).flatMap fun i => listing.page (plans i) db limit (i * limit)

end Findings
