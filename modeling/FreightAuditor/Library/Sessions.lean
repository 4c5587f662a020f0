import Mathlib.Data.List.Basic

/- A session in one transaction, whose program may catch its own errors.

   A statement that fails leaves the transaction aborted, and from then on every statement
   fails: catching the error does not bring the transaction back, and what the program did
   before stays done until the transaction ends. `transact` ends it: it commits where the
   program returned and nothing failed, and rolls back otherwise. -/
namespace Sessions

variable {DB E A B : Type}

/-- The rows as the transaction sees them. -/
structure Session (DB : Type) where
  db : DB
  aborted : Bool

/-- A program on a session: it returns or throws, and either way leaves the session changed. -/
abbrev Program (DB E A : Type) := ExceptT E (StateM (Session DB)) A

def exec (m : Program DB E A) (s : Session DB) : Except E A × Session DB := StateT.run (ExceptT.run m) s

/-- A statement; `none` where the database refuses it. -/
def statement (error : E) (f : DB → Option (A × DB)) : Program DB E A := do
  let s ← get
  if s.aborted then throw error
  match f s.db with
  | some (a, db) =>
    set { s with db }
    return a
  | none =>
    set { s with aborted := true }
    throw error

/-- What the program returned or threw, and the rows once the transaction has ended. -/
def transact (m : Program DB E A) (db : DB) : Except E A × DB :=
  match exec m ⟨db, false⟩ with
  | (.ok a, s) => (.ok a, if s.aborted then db else s.db)
  | (.error e, _) => (.error e, db)

@[simp] theorem exec_pure (a : A) (s : Session DB) : exec (pure a : Program DB E A) s = (.ok a, s) := rfl

@[simp] theorem exec_throw (e : E) (s : Session DB) : exec (throw e : Program DB E A) s = (.error e, s) := rfl

theorem exec_bind (m : Program DB E A) (f : A → Program DB E B) (s : Session DB) :
    exec (m >>= f) s =
      match exec m s with
      | (.ok a, s') => exec (f a) s'
      | (.error e, s') => (.error e, s') := by
  simp only [exec, ExceptT.run_bind, StateT.run_bind]
  rcases h : StateT.run (ExceptT.run m) s with ⟨⟨e⟩ | ⟨a⟩, s'⟩
  · rfl
  · rfl

theorem exec_bind_ok {m : Program DB E A} {f : A → Program DB E B} {s s' : Session DB} {a : A}
    (h : exec m s = (.ok a, s')) : exec (m >>= f) s = exec (f a) s' := by
  rw [exec_bind, h]

theorem exec_bind_error {m : Program DB E A} {f : A → Program DB E B} {s s' : Session DB} {e : E}
    (h : exec m s = (.error e, s')) : exec (m >>= f) s = (.error e, s') := by
  rw [exec_bind, h]

/-- The handler goes on in the session as the failed part left it. -/
theorem exec_tryCatch (m : Program DB E A) (f : E → Program DB E A) (s : Session DB) :
    exec (tryCatch m f) s =
      match exec m s with
      | (.ok a, s') => (.ok a, s')
      | (.error e, s') => exec (f e) s' := by
  change StateT.run (ExceptT.run (ExceptT.tryCatch m f)) s = _
  simp only [exec, ExceptT.tryCatch, ExceptT.run_mk, StateT.run_bind]
  rcases h : StateT.run (ExceptT.run m) s with ⟨⟨e⟩ | ⟨a⟩, s'⟩
  · rw [show StateT.run m s = (.error e, s') from h]
    rfl
  · rw [show StateT.run m s = (.ok a, s') from h]
    rfl

theorem exec_statement (error : E) (f : DB → Option (A × DB)) (s : Session DB) :
    exec (statement error f) s =
      if s.aborted then (.error error, s)
      else match f s.db with
        | some (a, db) => (.ok a, { s with db })
        | none => (.error error, { s with aborted := true }) := by
  obtain ⟨db, _ | _⟩ := s
  · rw [if_neg Bool.false_ne_true]
    change exec (match f db with
      | some (a, db) => do
        set { db, aborted := false : Session DB }
        return a
      | none => do
        set { db, aborted := true : Session DB }
        throw error) ⟨db, false⟩ = _
    cases h : f db with
    | none => rfl
    | some p => rfl
  · rfl

section

variable {error : E} {f : DB → Option (A × DB)} {db db' : DB} {a : A}

theorem exec_statement_some (h : f db = some (a, db')) :
    exec (statement error f) ⟨db, false⟩ = (.ok a, ⟨db', false⟩) := by
  rw [exec_statement, if_neg Bool.false_ne_true, h]

theorem exec_statement_none (h : f db = none) :
    exec (statement error f) ⟨db, false⟩ = (.error error, ⟨db, true⟩) := by
  rw [exec_statement, if_neg Bool.false_ne_true, h]

/-- Nothing runs in an aborted transaction. -/
theorem exec_statement_aborted : exec (statement error f) ⟨db, true⟩ = (.error error, ⟨db, true⟩) := rfl

end

end Sessions
