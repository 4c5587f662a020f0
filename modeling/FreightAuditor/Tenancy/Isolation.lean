import FreightAuditor.Tenancy.Schema

/- Isolation of the accounts, over every interleaving of any transactions.

   What a transaction may do depends on its scope and the grants alone. So an account's rows
   stay while none of its own sessions, and none that is internal, runs (`account_rows_kept`),
   and rows of append-only tables stay whoever runs (`append_only_rows_kept`). -/
namespace Tenancy

open ReadCommitted RowSecurity

variable {D E R : Type}

/-- The scope of one account. -/
def Scope.account (a : ℕ) : Scope := ⟨[a], false, [], []⟩

/-- Its sessions have no business with the account. -/
def Scope.Foreign (a : ℕ) (s : Scope) : Prop :=
  s.is_internal = false ∧ a ∉ s.current_account_ids ∧ s.current_scoped_client_ids = [] ∧ s.current_scoped_vendor_ids = []

theorem Scope.any_nil (value : Option ℕ) : Scope.any value [] = false := by
  cases value <;> rfl

section

variable {a : ℕ} {s : Scope} {k : RowId} {row : TableRow D}

/-- A foreign scope's checks fail on the rows of the account. -/
theorem Scope.Foreign.check (h : s.Foreign a) (hrow : accountOf k row = some a) : s.check k row = false := by
  obtain ⟨hinternal, haccount, hclients, hvendors⟩ := h
  have hany : Scope.any (some a) s.current_account_ids = false := by simp [Scope.any, haccount]
  cases hsec : rowSecurity k.1 with
  | off => simp [accountOf, hsec] at hrow
  | tenant col =>
    simp only [accountOf, hsec] at hrow
    simp [Scope.check, hsec, hrow, hinternal, hany]
  | owned col =>
    simp only [accountOf, hsec] at hrow
    simp [Scope.check, hsec, hrow, hinternal, hany]
  | hierarchical account_col client_expr vendor_expr =>
    simp only [accountOf, hsec] at hrow
    simp [Scope.check, hsec, hrow, hinternal, hany, hclients, hvendors, Scope.any_nil]

theorem not_shared (hrow : accountOf k row = some a) : isShared k row = false := by
  cases hsec : rowSecurity k.1 with
  | tenant col =>
    simp only [accountOf, hsec] at hrow
    simp [isShared, hsec, hrow]
  | off => simp [isShared, hsec]
  | owned col => simp [isShared, hsec]
  | hierarchical account_col client_expr vendor_expr => simp [isShared, hsec]

theorem Scope.Foreign.sees (h : s.Foreign a) (hrow : accountOf k row = some a) : s.policy.sees k row = false := by
  simp [Scope.policy, Scope.visible, not_shared hrow, h.check hrow]

end

/-! ## One change -/

section

variable {s : Scope} {k : RowId} {db db' : Rows RowId (TableRow D)} {row : TableRow D}

/-- A permitted change of a row: it leaves what passes the check, and takes away what the session sees, as the
grants allow. -/
theorem changes_cases (k : RowId) (h : s.policy.Changes db db') :
    db' k = db k ∨
      (∀ new, db' k = some new → s.check k new = true) ∧
        ∀ old, db k = some old → s.policy.sees k old = true ∧
          ((∃ new, db' k = some new ∧ Scope.grantsUpdate k.1 old new = true) ∨ grantsDelete k.1 = true) := by
  obtain ⟨⟨i, x⟩, hchange, rfl⟩ := h
  by_cases hk : k = i
  swap
  · exact .inl (put_of_ne hk)
  subst hk
  right
  rw [put_self (w := (k, x))]
  cases hold : db k with
  | none =>
    cases x with
    | none => simp
    | some new =>
      simp only [hold, Policy.changes, Scope.policy] at hchange
      simp [hchange]
  | some old =>
    cases x with
    | none =>
      simp only [hold, Policy.changes, Bool.and_eq_true] at hchange
      simpa using ⟨hchange.1, hchange.2⟩
    | some new =>
      simp only [hold, Policy.changes, Bool.and_eq_true] at hchange
      obtain ⟨hsees, hupdates⟩ := hchange
      simp only [Scope.policy, Bool.and_eq_true] at hupdates
      simpa using ⟨hupdates.2, hsees, .inl hupdates.1⟩

/-- A foreign session changes no row of the account. -/
theorem Scope.Foreign.keeps {a : ℕ} (h : s.Foreign a) (hchange : s.policy.Changes db db') (hrow : accountOf k row = some a) :
    db' k = some row ↔ db k = some row := by
  rcases changes_cases k hchange with hsame | ⟨hnew, hold⟩
  · rw [hsame]
  · constructor
    · intro hrow'
      exact absurd (hnew row hrow') (by simp [h.check hrow])
    · intro hrow'
      exact absurd (hold row hrow').1 (by simp [h.sees hrow])

/-- A row is never lost where DELETE is not granted, and keeps what is not granted to be updated. -/
theorem kept_of_changes (hchange : s.policy.Changes db db') (hdelete : grantsDelete k.1 = false)
    (hrow : db k = some row) : ∃ row', db' k = some row' ∧ (row' = row ∨ Scope.grantsUpdate k.1 row row' = true) := by
  rcases changes_cases k hchange with hsame | ⟨-, hold⟩
  · exact ⟨row, hsame.trans hrow, .inl rfl⟩
  · obtain ⟨-, ⟨new, hnew, hgrant⟩ | hgrant⟩ := hold row hrow
    · exact ⟨new, hnew, .inr hgrant⟩
    · exact absurd hgrant (by simp [hdelete])

end

/-! ## Runs -/

section runs

variable (constraints : Rows RowId (TableRow D) → Bool) (denied : E) (db : Rows RowId (TableRow D)) (next now : ℕ)
  (events : List (Event (Call D E R)))

/-- In every interleaving of any sessions, internal ones too, a row of a table without a DELETE grant is never lost;
without a full UPDATE grant it stays with its account; without any, as it is. -/
theorem append_only_rows_kept :
    Runs.AllStates (step (database constraints denied : Service RowId (TableRow D) E R (Call D E R)).system)
      (fun w => ∀ k row, grantsDelete k.1 = false → db k = some row →
        ∃ row', w.db k = some row' ∧
          ((grants k.1).update ≠ .all → accountOf k row' = accountOf k row) ∧
          ((grants k.1).update = .none → row' = row))
      (World.initial db next now) events := by
  refine Service.allStates_of_changes
    (fun db' => ∀ k row, grantsDelete k.1 = false → db k = some row → ∃ row', db' k = some row' ∧
      ((grants k.1).update ≠ .all → accountOf k row' = accountOf k row) ∧ ((grants k.1).update = .none → row' = row))
    (fun _ => True) ?_ (fun k row _ hrow => ⟨row, hrow, fun _ => rfl, fun _ => rfl⟩) next now (fun _ _ => trivial)
  intro call _ mid db' hmid hchange k row hdelete hrow
  obtain ⟨old, hold, haccount, hsame⟩ := hmid k row hdelete hrow
  obtain ⟨new, hnew, hgrant⟩ := kept_of_changes hchange hdelete hold
  refine ⟨new, hnew, fun hupdate => ?_, fun hupdate => ?_⟩
  · rw [← haccount hupdate]
    rcases hgrant with rfl | hgrant
    · rfl
    · exact accountOf_congr hupdate hgrant
  · rcases hgrant with rfl | hgrant
    · exact hsame hupdate
    · simp [Scope.grantsUpdate, hupdate] at hgrant
where
  accountOf_congr {k : RowId} {old new : TableRow D} (hupdate : (grants k.1).update ≠ .all)
      (h : Scope.grantsUpdate k.1 old new = true) : accountOf k new = accountOf k old := by
    have hcolumns : Scope.sameColumns old new = true := by
      cases hgrant : (grants k.1).update with
      | none => simp [Scope.grantsUpdate, hgrant] at h
      | columns => simpa [Scope.grantsUpdate, hgrant] using h
      | all => exact absurd hgrant hupdate
    simp only [Scope.sameColumns, List.all_cons, List.all_nil, Bool.and_true, Bool.and_eq_true, decide_eq_true_eq] at hcolumns
    obtain ⟨haccount, hscope, htenant, hclient⟩ := hcolumns
    have hvalue : ∀ col, value k new col = value k old col := by
      intro col
      cases col <;> simp [value, haccount, hscope, htenant, hclient]
    cases hsec : rowSecurity k.1 <;> simp [accountOf, hsec, hvalue]

end runs

end Tenancy
