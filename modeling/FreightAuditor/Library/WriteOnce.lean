import FreightAuditor.Library.KeyedTable

/- Rows that are written once and never changed.

   `record` inserts a row under its key, or finds a row there that `same` takes for it; where
   the key has another row, it refuses. So a row can be recorded exactly if its key is free or
   has it already (`record_isSome`), and what was recorded stays (`record_kept`). -/
namespace KeyedTable

variable {α κ : Type} [DecidableEq κ] {key : α → κ}

/-- `true` where the row is new; `none` where the key has another one. -/
def record (same : α → α → Bool) (t : KeyedTable α key) (a : α) : Option (Bool × KeyedTable α key) :=
  match t.find? (key a) with
  | none => (t.insert a).map fun t' => (true, t')
  | some row => if same row a then some (false, t) else none

/-- The key of the row is free, or has it already. -/
def Recordable (same : α → α → Bool) (t : KeyedTable α key) (a : α) : Prop :=
  ∀ row ∈ t.find? (key a), same row a = true

instance (same : α → α → Bool) (t : KeyedTable α key) (a : α) : Decidable (Recordable same t a) :=
  inferInstanceAs (Decidable (∀ row ∈ t.find? (key a), _))

variable {same : α → α → Bool} {t t' : KeyedTable α key} {a b : α} {created : Bool} {k : κ}

theorem record_free (h : t.find? (key a) = none) : ∃ t', t.record same a = some (true, t') ∧ t.insert a = some t' := by
  obtain ⟨t', ht'⟩ := insert_fresh h
  exact ⟨t', by rw [record, h, ht']; rfl, ht'⟩

theorem record_found (h : t.find? (key a) = some b) :
    t.record same a = if same b a then some (false, t) else none := by
  rw [record, h]

/-- A row is new under a free key; else its key had it, and nothing changes. -/
theorem record_cases (h : t.record same a = some (created, t')) :
    created = true ∧ t.find? (key a) = none ∧ t.insert a = some t' ∨
      created = false ∧ t' = t ∧ ∃ row, t.find? (key a) = some row ∧ same row a = true := by
  cases hfound : t.find? (key a) with
  | none =>
    obtain ⟨t₁, hrecord, hinsert⟩ := @record_free α κ _ key same t a hfound
    obtain ⟨rfl, rfl⟩ := Prod.mk.inj (Option.some.inj (hrecord.symm.trans h))
    exact .inl ⟨rfl, rfl, hinsert⟩
  | some row =>
    rw [record_found hfound] at h
    split at h
    · rename_i hsame
      obtain ⟨rfl, rfl⟩ := Prod.mk.inj (Option.some.inj h)
      exact .inr ⟨rfl, rfl, row, rfl, hsame⟩
    · cases h

theorem record_isSome : (t.record same a).isSome ↔ Recordable same t a := by
  cases hfound : t.find? (key a) with
  | none =>
    obtain ⟨t', hrecord, -⟩ := @record_free α κ _ key same t a hfound
    rw [hrecord, Recordable, hfound]
    exact iff_of_true rfl (by simp)
  | some row =>
    rw [record_found hfound, Recordable, hfound]
    by_cases hsame : same row a = true
    · simp [hsame]
    · simp [hsame]

/-- Recorded rows stay under their keys. -/
theorem record_kept (h : t.record same a = some (created, t')) (hb : t.find? k = some b) : t'.find? k = some b := by
  rcases record_cases h with ⟨-, hfree, hinsert⟩ | ⟨-, rfl, -⟩
  · rw [find?_insert hinsert]
    split
    · rename_i hkey
      rw [hkey, hb] at hfree
      cases hfree
    · exact hb
  · exact hb

/-- Other keys keep what they have, or stay free. -/
theorem record_other (h : t.record same a = some (created, t')) (hk : key a ≠ k) : t'.find? k = t.find? k := by
  rcases record_cases h with ⟨-, -, hinsert⟩ | ⟨-, rfl, -⟩
  · rw [find?_insert hinsert, if_neg hk]
  · rfl

/-- The row is there afterwards. -/
theorem record_there (hrefl : same a a = true) (h : t.record same a = some (created, t')) :
    ∃ row, t'.find? (key a) = some row ∧ same row a = true := by
  rcases record_cases h with ⟨-, -, hinsert⟩ | ⟨-, rfl, hrow⟩
  · exact ⟨a, by rw [find?_insert hinsert, if_pos rfl], hrefl⟩
  · exact hrow

end KeyedTable
