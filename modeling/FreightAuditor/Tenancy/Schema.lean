import FreightAuditor.Library.RowSecurity

/- The tables, as the migrations leave them: which rows of a table the policy
   `tenant_isolation` ties to an account, and what the role `freight_app` may do with it.

   `Scope.policy` is what a transaction under a scope may see and change. -/
namespace Tenancy

open RowSecurity

inductive Table where
  | account | app_user | membership | client | vendor
  | ba_session | ba_account | ba_verification | passkey
  | carrier | carrier_charge_code | charge_code_crosswalk | source_document
  | external_source | external_value | external_publication | audit_external_value_pin
  | contract | contract_version | contract_amendment | contract_clause | contract_rate | rate_cell
  | criterion | criterion_alias | criterion_version | rule | rule_version | human_override | promotion_event
  | promotion_policy | rubric | rubric_version | criterion_membership | criterion_rule | rubric_snapshot
  | resolution_conflict
  | transport_document | shipment | raw_edi_document | invoice | invoice_draft | charge_fact
  | sftp_connection | sftp_intake | raw_document_analysis | extraction_field | clarifying_question
  | audit_run | audit_replay_manifest | coverage_marker | expected_charge | computation_trace
  | gate_failure | charge_finding | charge_alignment | charge_alignment_member | variance_finding | scorecard
  | finding_status_event | finding_assignment_event
  | dispute | dispute_line | dispute_comm | payment_gate_decision | claim | recovery_event | audit_event
  | rule_backtest | rule_backtest_case | verified_contract_version
  | contract_rule_proposal | contract_rule_proposal_clause | contract_rule_proposal_backtest
  | contract_rule_proposal_backtest_case | contract_rule_proposal_acceptance | contract_rule_proposal_ratification
  | discovery_trigger | suspicious_pass_trigger | unknown_charge_code_trigger | extraction_quality_trigger
  | discovery_rule_proposal | discovery_rule_proposal_backtest | discovery_rule_proposal_backtest_case
  | discovery_rule_proposal_acceptance
  | workflow_instance | workflow_command | workflow_transition | workflow_outbox_message
  | account_payment_policy | export_acknowledgement | customer_branding
  deriving DecidableEq

/-- The uuid columns that policies compare. -/
inductive Column where
  | id | account_id | scope_account_id | tenant_id | client_id
  deriving DecidableEq

/-- The policy of a table. -/
inductive TablePolicy where
  /-- None: every session sees every row. -/
  | off
  /-- `apply_tenant_rls(_table, _col)`: a row without an account is shared. -/
  | tenant (col : Column)
  /-- The policies written out in 0019 and 0035, which share no row. -/
  | owned (col : Column)
  /-- `apply_hierarchical_tenant_rls(_table, _account_col, _client_expr, _vendor_expr)`. -/
  | hierarchical (account_col client_expr : Column) (vendor_expr : Option Column)
  deriving DecidableEq

def rowSecurity : Table → TablePolicy
  | .account | .app_user | .ba_session | .ba_account | .ba_verification | .passkey | .carrier | .carrier_charge_code
  | .external_source | .external_value | .external_publication | .criterion | .criterion_alias | .criterion_version
  | .rule | .rule_version | .promotion_event | .rubric_version | .criterion_membership | .criterion_rule => .off
  | .rubric => .tenant .scope_account_id
  | .rubric_snapshot | .resolution_conflict => .tenant .tenant_id
  | .audit_replay_manifest | .raw_document_analysis => .owned .account_id
  | .client => .hierarchical .account_id .id none
  | .vendor => .hierarchical .account_id .client_id (some .id)
  | _ => .tenant .account_id

/-- What may be updated of a row: nothing, columns that no policy compares, or all of it. -/
inductive UpdateGrant where
  | none | columns | all
  deriving DecidableEq

/-- What `freight_app` may do with the rows of a table, besides reading and inserting. -/
structure Grants where
  update : UpdateGrant
  delete : Bool
  deriving DecidableEq

/-- `GRANT SELECT, INSERT`. -/
def Grants.appendOnly : Grants := ⟨.none, false⟩

/-- `GRANT SELECT, INSERT, UPDATE, DELETE`. -/
def Grants.full : Grants := ⟨.all, true⟩

def grants : Table → Grants
  -- full CRUD: what 0010 found that is not in its `append_only` and that no later migration narrows, and later grants
  | .account | .app_user | .membership | .client | .vendor | .ba_session | .ba_account | .ba_verification | .passkey
  | .carrier | .carrier_charge_code | .charge_code_crosswalk | .external_source | .contract | .contract_amendment
  | .contract_clause | .contract_rate | .criterion | .rule | .promotion_policy | .rubric | .criterion_membership
  | .criterion_rule | .rubric_snapshot | .transport_document | .shipment | .invoice | .invoice_draft | .charge_fact
  | .sftp_connection | .sftp_intake | .audit_run | .variance_finding | .scorecard | .dispute | .dispute_line | .claim
  | .workflow_instance | .workflow_command => .full
  -- `GRANT UPDATE (…)` of some columns
  | .clarifying_question | .account_payment_policy | .customer_branding => ⟨.columns, false⟩
  | .workflow_outbox_message => ⟨.all, false⟩
  | _ => .appendOnly

/-- Tables with rows whose deletion takes others along (`ON DELETE CASCADE` in 0014, 0015, 0019 and 0020). -/
def cascades : Table → Bool
  | .app_user | .audit_run => true
  | _ => false

/-- A row of the table may be deleted. No statement of the program deletes one that takes others along, and none is
modelled. -/
def grantsDelete (t : Table) : Bool := (grants t).delete && !cascades t

/-- A row, with the columns that policies compare apart from its other data. -/
structure TableRow (D : Type) where
  column : Column → Option ℕ
  data : D

/-- A row is named by its table and its primary key. -/
abbrev RowId := Table × ℕ

variable {D : Type}

/-- The value of a column; `id` is the primary key. -/
def value (k : RowId) (row : TableRow D) : Column → Option ℕ
  | .id => some k.2
  | col => row.column col

/-- The account of a row, where its table has one. -/
def accountOf (k : RowId) (row : TableRow D) : Option ℕ :=
  match rowSecurity k.1 with
  | .off => none
  | .tenant col => value k row col
  | .owned col => value k row col
  | .hierarchical account_col _ _ => value k row account_col

/-- A row of the shared catalog: its table is one of accounts' rows, but it has none. -/
def isShared (k : RowId) (row : TableRow D) : Bool :=
  match rowSecurity k.1 with
  | .tenant col => (value k row col).isNone
  | _ => false

/-! ## Scopes -/

/-- What the policies read of a transaction's settings. -/
structure Scope where
  current_account_ids : List ℕ
  is_internal : Bool
  current_scoped_client_ids : List ℕ
  current_scoped_vendor_ids : List ℕ
  deriving DecidableEq

namespace Scope

variable (s : Scope)

/-- `value = ANY (ids)`, which is not true of a null. -/
def any (value : Option ℕ) (ids : List ℕ) : Bool := value.any ids.contains

/-- `WITH CHECK`. -/
def check (k : RowId) (row : TableRow D) : Bool :=
  match rowSecurity k.1 with
  | .off => true
  | .tenant col => s.is_internal || any (value k row col) s.current_account_ids
  | .owned col => s.is_internal || any (value k row col) s.current_account_ids
  | .hierarchical account_col client_expr vendor_expr =>
    s.is_internal || any (value k row account_col) s.current_account_ids ||
      any (value k row client_expr) s.current_scoped_client_ids ||
      vendor_expr.any fun expr => any (value k row expr) s.current_scoped_vendor_ids

/-- `USING`. -/
def visible (k : RowId) (row : TableRow D) : Bool := isShared k row || s.check k row

/-- The columns of policies are the same in both rows. -/
def sameColumns (old new : TableRow D) : Bool :=
  [Column.account_id, .scope_account_id, .tenant_id, .client_id].all fun col => old.column col = new.column col

/-- The grants allow the update. -/
def grantsUpdate (t : Table) (old new : TableRow D) : Bool :=
  match (grants t).update with
  | .none => false
  | .columns => sameColumns old new
  | .all => true

/-- What a transaction under the scope sees and may do. -/
def policy : Policy RowId (TableRow D) where
  sees := s.visible
  inserts := s.check
  updates := fun k old new => grantsUpdate k.1 old new && s.check k new
  deletes := fun k _ => grantsDelete k.1
  sees_inserted := fun k new h => by simp [visible, h]
  sees_updated := fun k old new h => by simp [visible, (Bool.and_eq_true_iff.mp h).2]

end Scope

/-! ## Calls -/

/-- A transaction of the application: any body, under some scope. -/
structure Call (D E R : Type) where
  scope : Scope
  body : ℕ → ℕ → Body RowId (TableRow D) E R

variable {E R : Type}

/-- The database: its constraints, and the error of a statement that is not permitted. -/
def database (constraints : Rows RowId (TableRow D) → Bool) (denied : E) :
    Service RowId (TableRow D) E R (Call D E R) where
  policy := fun call => call.scope.policy
  constraints := constraints
  denied := denied
  body := Call.body

end Tenancy
