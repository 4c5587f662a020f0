import Mathlib.Data.List.Basic
import Mathlib.Logic.Function.Basic
import FreightAuditor.Library.Runs

/- Transactions at READ COMMITTED.

   A `Prog` is the body of a transaction: statements, each of which sees rows, writes
   rows, and may wait for locks. A statement sees what is committed when it runs, with
   the transaction's own writes on top; two statements of one transaction may see
   different rows. Locks are exclusive, taken by a statement and kept to the end of the
   transaction. An error rolls the transaction back.

   `World` is the committed database with the open transactions, and `step` lets any of
   them move: every interleaving is a run. `alone` runs one body with nothing in
   between, and is one of the interleavings (`alone_run`).

   To reason about runs: `Ends` says what a body may have seen and written when it
   finishes, over any snapshots at all. An `Outline` gives, per commit, what holds of
   the database and what a commit may change behind the back of a transaction that holds
   some locks; `Outline.step` turns it into an invariant of the world. -/
namespace ReadCommitted

/-- The body of a transaction over a database `DB`: writes are `W`, lock keys `K`. -/
inductive Prog (DB W K E R : Type) where
  | done (result : R)
  | fail (error : E)
  | stmt (locks : DB → List K) (writes : DB → List W) (next : DB → Prog DB W K E R)

/-- What a transaction has done so far: the committed rows each statement saw, with the
locks held once it had run; its writes; and the locks it holds. -/
structure Log (DB W K : Type) where
  seen : List (DB × List K)
  writes : List W
  held : List K

variable {DB W K E R S C : Type}

namespace Prog

def bind : Prog DB W K E R → (R → Prog DB W K E S) → Prog DB W K E S
  | .done r, f => f r
  | .fail e, _ => .fail e
  | .stmt locks writes next, f => .stmt locks writes (fun db => (next db).bind f)

instance : Monad (Prog DB W K E) where
  pure := .done
  bind := bind

/-- A statement that only reads. -/
def query (f : DB → R) : Prog DB W K E R := .stmt (fun _ => []) (fun _ => []) (fun db => .done (f db))

/-- A statement that writes under locks and returns what it did, or fails. -/
def exec (locks : DB → List K) (f : DB → Except E (R × List W)) : Prog DB W K E R :=
  .stmt locks (fun db => match f db with | .ok (_, ws) => ws | .error _ => [])
    (fun db => match f db with | .ok (r, _) => .done r | .error e => .fail e)

def ofExcept : Except E R → Prog DB W K E R
  | .ok r => .done r
  | .error e => .fail e

end Prog

def Log.empty : Log DB W K := ⟨[], [], []⟩

/-- The log after one more statement. -/
def Log.add (log : Log DB W K) (db : DB) (locks : List K) (writes : List W) : Log DB W K :=
  ⟨log.seen ++ [(db, log.held ++ locks)], log.writes ++ writes, log.held ++ locks⟩

@[simp] theorem Log.add_writes (log : Log DB W K) (db : DB) (locks : List K) (writes : List W) :
    (log.add db locks writes).writes = log.writes ++ writes := rfl

theorem Log.last_seen (log : Log DB W K) (db : DB) (locks : List K) (writes : List W) :
    (db, log.held ++ locks) ∈ (log.add db locks writes).seen :=
  List.mem_append_right _ (List.mem_singleton_self _)

theorem Log.mem_seen_add {log : Log DB W K} {s : DB × List K} (h : s ∈ log.seen) (db : DB) (locks : List K)
    (writes : List W) : s ∈ (log.add db locks writes).seen :=
  List.mem_append_left _ h

/-- Committed rows with a transaction's own writes on top. -/
def view (apply : DB → W → DB) (db : DB) (writes : List W) : DB := writes.foldl apply db

section

variable (apply : DB → W → DB)

theorem view_append (db : DB) (ws ws' : List W) :
    view apply db (ws ++ ws') = view apply (view apply db ws) ws' := List.foldl_append

@[simp] theorem view_nil (db : DB) : view apply db [] = db := rfl
@[simp] theorem view_cons (db : DB) (w : W) (ws : List W) :
    view apply db (w :: ws) = view apply (apply db w) ws := rfl

end

/-- A database with a kind of writes, and the calls that run on it as transactions. A body is
given the transaction's number, from which the ids of its rows come, and its start time. -/
structure System (DB W K E R C : Type) where
  apply : DB → W → DB
  body : C → ℕ → ℕ → Prog DB W K E R

/-- An open transaction. -/
structure Tx (DB W K E R C : Type) where
  call : C
  startedAt : ℕ
  log : Log DB W K
  rest : Prog DB W K E R

/-- The committed database, a clock, and the open transactions by number; `next` is the
number of the next one. -/
structure World (DB W K E R C : Type) where
  db : DB
  now : ℕ
  next : ℕ
  opened : ℕ → Option (Tx DB W K E R C)

/-- The world with no transaction open. -/
def World.initial (db : DB) (next now : ℕ) : World DB W K E R C := ⟨db, now, next, fun _ => none⟩

/-- Transaction `i` now stands at `t`, or is closed. -/
def World.set (w : World DB W K E R C) (i : ℕ) (t : Option (Tx DB W K E R C)) : World DB W K E R C :=
  { w with opened := Function.update w.opened i t }

section

variable (w : World DB W K E R C) (i : ℕ) (t u : Option (Tx DB W K E R C))

@[simp] theorem World.set_self : (w.set i t).opened i = t := Function.update_self ..
@[simp] theorem World.set_set : (w.set i t).set i u = w.set i u := by
  simp [World.set, Function.update_idem]
@[simp] theorem World.set_db : (w.set i t).db = w.db := rfl

end

theorem World.set_opened {w : World DB W K E R C} {i j : ℕ} {t : Option (Tx DB W K E R C)}
    {u : Tx DB W K E R C} (h : (w.set i t).opened j = some u) :
    j = i ∧ t = some u ∨ j ≠ i ∧ w.opened j = some u := by
  by_cases hji : j = i
  · subst hji
    exact .inl ⟨rfl, by simpa [World.set] using h⟩
  · exact .inr ⟨hji, by simpa [World.set, Function.update_of_ne hji] using h⟩

/-- What a finished body returned. -/
def Tx.result? (t : Tx DB W K E R C) : Option R :=
  match t.rest with
  | .done r => some r
  | _ => none

theorem Tx.result?_eq {t : Tx DB W K E R C} {r : R} : t.result? = some r ↔ t.rest = .done r := by
  cases h : t.rest <;> simp [Tx.result?, h]

inductive Event (C : Type) where
  | begin (call : C)
  | exec (i : ℕ)
  | commit (i : ℕ)
  | rollback (i : ℕ)
  | tick

section step

variable (sys : System DB W K E R C) [DecidableEq K]

/-- Another open transaction holds one of the locks. -/
def blocked (w : World DB W K E R C) (i : ℕ) (locks : List K) : Bool :=
  (List.range w.next).any fun j =>
    j != i && (w.opened j).any fun t => locks.any (t.log.held.contains ·)

def step (w : World DB W K E R C) : Event C → Option (World DB W K E R C)
  | .tick => some { w with now := w.now + 1 }
  | .begin call =>
    let t := ⟨call, w.now, .empty, sys.body call w.next w.now⟩
    some { w.set w.next (some t) with next := w.next + 1 }
  | .exec i =>
    match w.opened i with
    | none => none
    | some t =>
      match t.rest with
      | .done _ => none
      | .fail _ => some (w.set i none)
      | .stmt locks writes next =>
        let v := view sys.apply w.db t.log.writes
        -- a statement waits for locks that others hold
        if blocked w i (locks v) then none
        else
          let t' := { t with log := t.log.add w.db (locks v) (writes v), rest := next v }
          some (w.set i (some t'))
  | .commit i =>
    match w.opened i with
    | none => none
    | some t =>
      match t.rest with
      | .done _ => some { w.set i none with db := view sys.apply w.db t.log.writes }
      | _ => none
  | .rollback i => if (w.opened i).isSome then some (w.set i none) else none

end step

/-! ## What a body may do -/

section ends

variable (apply : DB → W → DB)

/-- The body, standing at `log`, may finish with a result and a log, whatever rows its
remaining statements see. -/
def Ends : Prog DB W K E R → Log DB W K → R → Log DB W K → Prop
  | .done r, log, r', log' => r' = r ∧ log' = log
  | .fail _, _, _, _ => False
  | .stmt locks writes next, log, r, log' =>
    ∃ db, Ends (next (view apply db log.writes))
      (log.add db (locks (view apply db log.writes)) (writes (view apply db log.writes))) r log'

variable {apply} {log log' : Log DB W K}

@[simp] theorem ends_pure {r r' : R} :
    Ends apply (pure r : Prog DB W K E R) log r' log' ↔ r' = r ∧ log' = log := Iff.rfl

@[simp] theorem ends_fail {e : E} {r : R} : ¬ Ends apply (.fail e) log r log' := id

@[simp] theorem ends_ofExcept {x : Except E R} {r : R} :
    Ends apply (.ofExcept x) log r log' ↔ x = .ok r ∧ log' = log := by
  cases x with
  | ok r' => simp [Prog.ofExcept, Ends, eq_comm]
  | error e => simp [Prog.ofExcept]

/-- A sequence finishes where its second part does, from where its first part did. -/
@[simp] theorem ends_bind {p : Prog DB W K E R} {f : R → Prog DB W K E S} {s : S} :
    Ends apply (p >>= f) log s log' ↔ ∃ r mid, Ends apply p log r mid ∧ Ends apply (f r) mid s log' := by
  change Ends apply (p.bind f) log s log' ↔ _
  induction p generalizing log with
  | done r =>
    constructor
    · exact fun h => ⟨r, log, ⟨rfl, rfl⟩, h⟩
    · rintro ⟨r', mid, ⟨rfl, rfl⟩, h⟩
      exact h
  | fail e => exact ⟨False.elim, fun ⟨_, _, h, _⟩ => h⟩
  | stmt locks writes next ih =>
    simp only [Prog.bind, Ends, ih]
    constructor
    · rintro ⟨db, r, mid, h, h'⟩
      exact ⟨r, mid, ⟨db, h⟩, h'⟩
    · rintro ⟨r, mid, ⟨db, h⟩, h'⟩
      exact ⟨db, r, mid, h, h'⟩

/-- A read returns what it computes from rows committed at some moment. -/
@[simp] theorem ends_query {f : DB → R} {r : R} :
    Ends apply (.query f : Prog DB W K E R) log r log' ↔
      ∃ db, r = f (view apply db log.writes) ∧ log' = log.add db [] [] := Iff.rfl

@[simp] theorem ends_exec {locks : DB → List K} {f : DB → Except E (R × List W)} {r : R} :
    Ends apply (.exec locks f) log r log' ↔
      ∃ db ws, f (view apply db log.writes) = .ok (r, ws) ∧
        log' = log.add db (locks (view apply db log.writes)) ws := by
  simp only [Prog.exec, Ends]
  constructor
  · rintro ⟨db, h⟩
    cases hf : f (view apply db log.writes) with
    | error e => rw [hf] at h; exact h.elim
    | ok p =>
      rw [hf] at h
      obtain ⟨rfl, rfl⟩ := h
      exact ⟨db, p.2, hf, rfl⟩
  · rintro ⟨db, ws, hf, rfl⟩
    exact ⟨db, by rw [hf]; exact ⟨rfl, rfl⟩⟩

/-- One log goes on where the other stands. -/
structure Log.Extends (log' log : Log DB W K) : Prop where
  seen : log.seen <+: log'.seen
  writes : log.writes <+: log'.writes
  held : log.held <+: log'.held

theorem Log.add_extends (db : DB) (locks : List K) (writes : List W) : (log.add db locks writes).Extends log :=
  ⟨List.prefix_append .., List.prefix_append .., List.prefix_append ..⟩

theorem Log.Extends.trans {log'' : Log DB W K} (h : log''.Extends log') (h' : log'.Extends log) :
    log''.Extends log :=
  ⟨h'.seen.trans h.seen, h'.writes.trans h.writes, h'.held.trans h.held⟩

theorem Ends.extends {p : Prog DB W K E R} {r : R} (h : Ends apply p log r log') : log'.Extends log := by
  induction p generalizing log with
  | done r' =>
    obtain ⟨-, rfl⟩ := h
    exact ⟨List.prefix_rfl, List.prefix_rfl, List.prefix_rfl⟩
  | fail e => exact h.elim
  | stmt locks writes next ih =>
    obtain ⟨db, h⟩ := h
    exact (ih _ h).trans (Log.add_extends ..)

/-- What a body returns and does is settled by the rows its statements see, one after the other. -/
theorem Ends.unique {p : Prog DB W K E R} {r r₁ : R} {log₁ : Log DB W K} {rest rest₁ : List (DB × List K)}
    (h : Ends apply p log r log') (h₁ : Ends apply p log r₁ log₁) (hseen : log'.seen ++ rest = log₁.seen ++ rest₁) :
    r = r₁ ∧ log' = log₁ := by
  induction p generalizing log with
  | done r' =>
    obtain ⟨rfl, rfl⟩ := h
    obtain ⟨rfl, rfl⟩ := h₁
    exact ⟨rfl, rfl⟩
  | fail e => exact h.elim
  | stmt locks writes next ih =>
    obtain ⟨db, h⟩ := h
    obtain ⟨db₁, h₁⟩ := h₁
    have hdb : db = db₁ := by
      obtain ⟨t, ht⟩ := h.extends.seen
      obtain ⟨t₁, ht₁⟩ := h₁.extends.seen
      rw [← ht, ← ht₁] at hseen
      simp only [Log.add, List.append_assoc, List.singleton_append] at hseen
      exact congrArg Prod.fst (List.cons.inj (List.append_cancel_left hseen)).1
    subst hdb
    exact ih _ h h₁

theorem Ends.forM_from {A : Type} {f : A → Prog DB W K E PUnit} {P : List A → Log DB W K → Prop}
    {Q : DB × List K → Prop} :
    ∀ {todo done : List A} {log log' : Log DB W K},
      (∀ done, ∀ a ∈ todo, ∀ log log', P done log → Ends apply (f a) log ⟨⟩ log' → (∀ p ∈ log'.seen, Q p) →
        P (done ++ [a]) log') →
      P done log → Ends apply (todo.forM f) log ⟨⟩ log' → (∀ p ∈ log'.seen, Q p) → P (done ++ todo) log'
  | [], done, _, _, _, hP, h, _ => by
    obtain ⟨-, rfl⟩ := h
    rwa [List.append_nil]
  | a :: todo, done, log, log', hstep, hP, h, hQ => by
    obtain ⟨⟨⟩, mid, ha, h⟩ := ends_bind.mp (h : Ends apply (f a >>= fun _ => todo.forM f) log ⟨⟩ log')
    have hmid := hstep done a List.mem_cons_self log mid hP ha fun p hp => hQ p (h.extends.seen.subset hp)
    have hrest := Ends.forM_from (fun done b hb => hstep done b (List.mem_cons_of_mem _ hb)) hmid h hQ
    rwa [List.append_assoc] at hrest

/-- The rule for a loop: an invariant of the elements done and the log. `Q` is what is known of all
that the finished loop has seen. -/
theorem Ends.forM {A : Type} {f : A → Prog DB W K E PUnit} {P : List A → Log DB W K → Prop}
    {Q : DB × List K → Prop} {as : List A}
    (hstep : ∀ done, ∀ a ∈ as, ∀ log log', P done log → Ends apply (f a) log ⟨⟩ log' → (∀ p ∈ log'.seen, Q p) →
      P (done ++ [a]) log')
    (hP : P [] log) (h : Ends apply (as.forM f) log ⟨⟩ log') (hQ : ∀ p ∈ log'.seen, Q p) : P as log' :=
  Ends.forM_from hstep hP h hQ

/-- Every write of the body is covered by the locks of its statement. -/
def Covered (Cov : List K → W → Prop) : Prog DB W K E R → Prop
  | .done _ => True
  | .fail _ => True
  | .stmt locks writes next => ∀ db, (∀ w ∈ writes db, Cov (locks db) w) ∧ Covered Cov (next db)

section covered

variable {Cov : List K → W → Prop}

theorem covered_bind {p : Prog DB W K E R} {f : R → Prog DB W K E S} (hp : Covered Cov p)
    (hf : ∀ r, Covered Cov (f r)) : Covered Cov (p >>= f) := by
  change Covered Cov (p.bind f)
  induction p with
  | done r => exact hf r
  | fail e => trivial
  | stmt locks writes next ih => exact fun db => ⟨(hp db).1, ih db (hp db).2⟩

theorem covered_pure {r : R} : Covered Cov (pure r : Prog DB W K E R) := trivial

theorem covered_query {f : DB → R} : Covered Cov (.query f : Prog DB W K E R) :=
  fun _ => ⟨fun _ hw => (by cases hw), trivial⟩

/-- After a check, only what passes it goes on. -/
theorem covered_ofExcept {x : Except E R} {f : R → Prog DB W K E S}
    (hf : ∀ r, x = .ok r → Covered Cov (f r)) : Covered Cov (.ofExcept x >>= f) := by
  cases x with
  | ok r => exact hf r rfl
  | error e => trivial

theorem covered_exec {locks : DB → List K} {f : DB → Except E (R × List W)}
    (h : ∀ db r ws, f db = .ok (r, ws) → ∀ w ∈ ws, Cov (locks db) w) :
    Covered Cov (.exec locks f : Prog DB W K E R) := by
  intro db
  simp only
  cases hf : f db with
  | error e => exact ⟨fun w hw => (by cases hw), trivial⟩
  | ok p => exact ⟨h db p.1 p.2 hf, trivial⟩

/-- The locks held at the end cover all writes. -/
theorem Covered.ends (hmono : ∀ ks ks' w, (∀ k ∈ ks, k ∈ ks') → Cov ks w → Cov ks' w)
    {p : Prog DB W K E R} (hp : Covered Cov p) {r : R} {log log' : Log DB W K}
    (h : Ends apply p log r log') (hlog : ∀ w ∈ log.writes, Cov log.held w) :
    ∀ w ∈ log'.writes, Cov log'.held w := by
  induction p generalizing log with
  | done r' =>
    obtain ⟨-, rfl⟩ := h
    exact hlog
  | fail e => exact h.elim
  | stmt locks writes next ih =>
    obtain ⟨db, h⟩ := h
    obtain ⟨hw, hnext⟩ := hp (view apply db log.writes)
    refine ih _ hnext h (fun w hmem => ?_)
    rcases List.mem_append.mp hmem with hmem | hmem
    · exact hmono _ _ w (fun k hk => List.mem_append_left _ hk) (hlog w hmem)
    · exact hmono _ _ w (fun k hk => List.mem_append_right _ hk) (hw w hmem)

end covered

end ends

/-! ## Steps -/

section inversion

variable {sys : System DB W K E R C} [DecidableEq K]

/-- A commit needs a finished body and publishes its writes. -/
theorem step_commit {w w' : World DB W K E R C} {i : ℕ} (h : step sys w (.commit i) = some w') :
    ∃ t r, w.opened i = some t ∧ t.rest = .done r ∧
      w' = { w.set i none with db := view sys.apply w.db t.log.writes } := by
  simp only [step] at h
  cases ht : w.opened i with
  | none => simp [ht] at h
  | some t =>
    cases hr : t.rest with
    | done r =>
      simp only [ht, hr, Option.some.injEq] at h
      exact ⟨t, r, rfl, hr, h.symm⟩
    | fail e => simp [ht, hr] at h
    | stmt locks writes next => simp [ht, hr] at h

/-- A statement runs under locks that no other transaction holds, or the error of a failed body
rolls it back. -/
theorem step_exec {w w' : World DB W K E R C} {i : ℕ} (h : step sys w (.exec i) = some w') :
    ∃ t, w.opened i = some t ∧
      ((∃ e, t.rest = .fail e ∧ w' = w.set i none) ∨
        ∃ locks writes next, t.rest = .stmt locks writes next ∧
          blocked w i (locks (view sys.apply w.db t.log.writes)) = false ∧
          w' = w.set i (some { t with
            log := t.log.add w.db (locks (view sys.apply w.db t.log.writes))
              (writes (view sys.apply w.db t.log.writes))
            rest := next (view sys.apply w.db t.log.writes) })) := by
  simp only [step] at h
  cases ht : w.opened i with
  | none => simp [ht] at h
  | some t =>
    refine ⟨t, rfl, ?_⟩
    cases hr : t.rest with
    | done r => simp [ht, hr] at h
    | fail e =>
      simp only [ht, hr, Option.some.injEq] at h
      exact .inl ⟨e, rfl, h.symm⟩
    | stmt locks writes next =>
      simp only [ht, hr] at h
      split at h
      · cases h
      · rename_i hb
        exact .inr ⟨locks, writes, next, rfl, by simpa using hb, (Option.some.inj h).symm⟩

theorem step_rollback {w w' : World DB W K E R C} {i : ℕ} (h : step sys w (.rollback i) = some w') :
    w' = w.set i none := by
  simp only [step] at h
  split at h
  · exact (Option.some.inj h).symm
  · cases h

/-- Only a commit changes the committed rows. -/
theorem step_db {w w' : World DB W K E R C} {e : Event C} (h : step sys w e = some w')
    (hc : ∀ i, e ≠ .commit i) : w'.db = w.db := by
  cases e with
  | tick => cases h; rfl
  | begin call => cases h; rfl
  | exec i =>
    obtain ⟨t, -, ⟨e, -, rfl⟩ | ⟨locks, writes, next, -, -, rfl⟩⟩ := step_exec h <;> rfl
  | commit i => exact absurd rfl (hc i)
  | rollback i => rw [step_rollback h]; rfl

theorem not_blocked {w : World DB W K E R C} {i j : ℕ} {locks : List K} {t : Tx DB W K E R C}
    (h : blocked w i locks = false) (hj : j < w.next) (hij : j ≠ i) (ht : w.opened j = some t) :
    ∀ k ∈ locks, k ∉ t.log.held := by
  intro k hk hheld
  rw [blocked, List.any_eq_false] at h
  have := h j (List.mem_range.mpr hj)
  simp only [hij, bne_iff_ne, ne_eq, not_false_eq_true, ht, Option.any_some, List.any_eq_true,
    Bool.and_eq_true, true_and, not_exists, not_and, List.contains_iff_mem, not_exists] at this
  exact this k hk hheld

theorem blocked_eq_false {w : World DB W K E R C} {i : ℕ} {locks : List K}
    (h : ∀ j t, j ≠ i → w.opened j = some t → ∀ k ∈ locks, k ∉ t.log.held) : blocked w i locks = false := by
  rw [blocked, List.any_eq_false]
  rintro j -
  rw [Bool.and_eq_true, bne_iff_ne, not_and]
  intro hji hany
  rw [Option.any_eq_true] at hany
  obtain ⟨t, ht, hlocks⟩ := hany
  obtain ⟨k, hk, hheld⟩ := List.any_eq_true.mp hlocks
  exact h j t hji ht k hk (List.contains_iff_mem.mp hheld)

end inversion

/-! ## Invariants of the world -/

section outline

variable (sys : System DB W K E R C) (Good : DB → Prop) (Rely : List K → DB → DB → Prop)

/-- What is known when a transaction commits: its body has finished, and each of its statements
saw good rows, from which the others have come to the present ones as `Rely` allows under the
locks held since. -/
structure Commit (db : DB) (call : C) (i startedAt : ℕ) (result : R) (log : Log DB W K) : Prop where
  good : Good db
  ends : Ends sys.apply (sys.body call i startedAt) .empty result log
  seen : ∀ p ∈ log.seen, Good p.1 ∧ Rely p.2 p.1 db

/-- A commit that meets the guard leaves a good database; and whatever it changes, it changes
within what others rely on who hold none of its locks. -/
structure Outline (Guard : DB → C → Log DB W K → Prop) : Prop where
  refl : ∀ held db, Rely held db db
  good : ∀ db call i startedAt r log, Commit sys Good Rely db call i startedAt r log →
    Guard db call log → Good (view sys.apply db log.writes)
  rely : ∀ db call i startedAt r log, Commit sys Good Rely db call i startedAt r log →
    ∀ held s, (∀ k ∈ held, k ∉ log.held) → Rely held s db → Rely held s (view sys.apply db log.writes)

/-- The condition on a run that every commit along it meets the guard. -/
def CommitsMeet (Guard : DB → C → Log DB W K → Prop) (w : World DB W K E R C) (e : Event C) : Prop :=
  ∀ i t, e = .commit i → w.opened i = some t → Guard w.db t.call t.log

/-- The condition on a run on what its committed calls return, and the state each leaves. -/
def ReturnsMeet (apply : DB → W → DB) (F : DB → C → R → Prop) (w : World DB W K E R C) (e : Event C) : Prop :=
  ∀ i t r, e = .commit i → w.opened i = some t → t.rest = .done r → F (view apply w.db t.log.writes) t.call r

instance (Guard : DB → C → Log DB W K → Prop) [∀ db call log, Decidable (Guard db call log)]
    (w : World DB W K E R C) : ∀ e, Decidable (CommitsMeet Guard w e)
  | .commit i =>
    match h : w.opened i with
    | none => .isTrue (fun j t hj ht => by cases hj; rw [h] at ht; cases ht)
    | some t => decidable_of_iff (Guard w.db t.call t.log)
        ⟨fun hg j u hj hu => by cases hj; rw [h] at hu; cases hu; exact hg, fun hg => hg i t rfl h⟩
  | .begin _ => .isTrue (fun _ _ h => by cases h)
  | .exec _ => .isTrue (fun _ _ h => by cases h)
  | .rollback _ => .isTrue (fun _ _ h => by cases h)
  | .tick => .isTrue (fun _ _ h => by cases h)

/-- The invariant of an open transaction. -/
structure TxInv (db : DB) (i : ℕ) (t : Tx DB W K E R C) : Prop where
  ends : ∀ r log, Ends sys.apply t.rest t.log r log →
    Ends sys.apply (sys.body t.call i t.startedAt) .empty r log
  seen : ∀ p ∈ t.log.seen, Good p.1 ∧ Rely p.2 p.1 db ∧ ∀ k ∈ p.2, k ∈ t.log.held

structure Inv (w : World DB W K E R C) : Prop where
  good : Good w.db
  lt : ∀ i t, w.opened i = some t → i < w.next
  tx : ∀ i t, w.opened i = some t → TxInv sys Good Rely w.db i t
  exclusive : ∀ i j t u, i ≠ j → w.opened i = some t → w.opened j = some u →
    ∀ k ∈ t.log.held, k ∉ u.log.held

variable {sys Good Rely}

theorem inv_initial {db : DB} (h : Good db) (next now : ℕ) :
    Inv sys Good Rely (World.initial db next now) :=
  ⟨h, fun _ _ h => (by cases h), fun _ _ h => (by cases h), fun _ _ _ _ _ h => (by cases h)⟩

/-- Closing a transaction keeps the invariant. -/
theorem Inv.close {w : World DB W K E R C} (h : Inv sys Good Rely w) (i : ℕ) :
    Inv sys Good Rely (w.set i none) := by
  have hsub : ∀ j t, (w.set i none).opened j = some t → w.opened j = some t := by
    intro j t ht
    rcases World.set_opened ht with ⟨-, h⟩ | ⟨-, h⟩
    · cases h
    · exact h
  exact ⟨h.good, fun j t ht => h.lt j t (hsub j t ht), fun j t ht => h.tx j t (hsub j t ht),
    fun j k t u hjk ht hu => h.exclusive j k t u hjk (hsub j t ht) (hsub k u hu)⟩

theorem Inv.commit_of {w : World DB W K E R C} (h : Inv sys Good Rely w) {i : ℕ}
    {t : Tx DB W K E R C} {r : R} (ht : w.opened i = some t) (hr : t.rest = .done r) :
    Commit sys Good Rely w.db t.call i t.startedAt r t.log where
  good := h.good
  ends := (h.tx i t ht).ends r t.log (by rw [hr]; exact ⟨rfl, rfl⟩)
  seen := fun p hp => ⟨((h.tx i t ht).seen p hp).1, ((h.tx i t ht).seen p hp).2.1⟩

variable [DecidableEq K] {Guard : DB → C → Log DB W K → Prop}

theorem Inv.begin {w w' : World DB W K E R C} (h : Inv sys Good Rely w) {call : C}
    (hs : step sys w (.begin call) = some w') : Inv sys Good Rely w' := by
  obtain rfl := Option.some.inj hs
  refine ⟨h.good, fun i t ht => ?_, fun i t ht => ?_, fun i j t u hij ht hu k hk hk' => ?_⟩
  · rcases World.set_opened ht with ⟨rfl, -⟩ | ⟨-, hold⟩
    · exact Nat.lt_succ_self _
    · exact Nat.lt_succ_of_lt (h.lt i t hold)
  · rcases World.set_opened ht with ⟨rfl, hnew⟩ | ⟨-, hold⟩
    · obtain rfl := Option.some.inj hnew
      exact ⟨fun r log hr => hr, fun p hp => absurd hp (by simp [Log.empty])⟩
    · exact h.tx i t hold
  · -- a fresh transaction holds nothing
    rcases World.set_opened ht with ⟨rfl, hnew⟩ | ⟨-, hold⟩
    · obtain rfl := Option.some.inj hnew
      exact absurd hk (by simp [Log.empty])
    · rcases World.set_opened hu with ⟨rfl, hnew⟩ | ⟨-, hold'⟩
      · obtain rfl := Option.some.inj hnew
        exact absurd hk' (by simp [Log.empty])
      · exact h.exclusive i j t u hij hold hold' k hk hk'

theorem Inv.exec (O : Outline sys Good Rely Guard) {w w' : World DB W K E R C}
    (h : Inv sys Good Rely w) {i : ℕ} (hs : step sys w (.exec i) = some w') :
    Inv sys Good Rely w' := by
  obtain ⟨t, ht, ⟨e, -, rfl⟩ | ⟨locks, writes, next, hrest, hfree, rfl⟩⟩ := step_exec hs
  · exact h.close i
  refine ⟨h.good, fun j u hu => ?_, fun j u hu => ?_, fun j k u v hjk hu hv x hx hx' => ?_⟩
  · rcases World.set_opened hu with ⟨rfl, -⟩ | ⟨-, hold⟩
    · exact h.lt j t ht
    · exact h.lt j u hold
  · rcases World.set_opened hu with ⟨rfl, hnew⟩ | ⟨-, hold⟩
    · obtain rfl := Option.some.inj hnew
      refine ⟨fun r log hr => (h.tx j t ht).ends r log ?_, fun p hp => ?_⟩
      · rw [hrest]
        exact ⟨w.db, hr⟩
      · rcases List.mem_append.mp hp with hp | hp
        · obtain ⟨hg, hrel, hheld⟩ := (h.tx j t ht).seen p hp
          exact ⟨hg, hrel, fun k hk => List.mem_append_left _ (hheld k hk)⟩
        · obtain rfl := List.mem_singleton.mp hp
          exact ⟨h.good, O.refl _ _, fun k hk => hk⟩
    · exact h.tx j u hold
  · -- the locks taken now are free of all the others
    have hothers : ∀ m v, m ≠ i → w.opened m = some v →
        ∀ y ∈ t.log.held ++ locks (view sys.apply w.db t.log.writes), y ∉ v.log.held := by
      intro m v hmi hv y hy
      rcases List.mem_append.mp hy with hy | hy
      · exact h.exclusive i m t v (Ne.symm hmi) ht hv y hy
      · exact not_blocked hfree (h.lt m v hv) hmi hv y hy
    rcases World.set_opened hu with ⟨rfl, hnew⟩ | ⟨hji, hold⟩
    · obtain rfl := Option.some.inj hnew
      rcases World.set_opened hv with ⟨rfl, -⟩ | ⟨hki, hold⟩
      · exact hjk rfl
      · exact hothers k v hki hold x hx hx'
    · rcases World.set_opened hv with ⟨rfl, hnew⟩ | ⟨-, hold'⟩
      · obtain rfl := Option.some.inj hnew
        exact hothers j u hji hold x hx' hx
      · exact h.exclusive j k u v hjk hold hold' x hx hx'

theorem Inv.commit (O : Outline sys Good Rely Guard) {w w' : World DB W K E R C}
    (h : Inv sys Good Rely w) {i : ℕ} (hg : CommitsMeet Guard w (.commit i))
    (hs : step sys w (.commit i) = some w') : Inv sys Good Rely w' := by
  obtain ⟨t, r, ht, hr, rfl⟩ := step_commit hs
  have hc := h.commit_of ht hr
  have hclosed := h.close i
  refine ⟨O.good _ _ _ _ _ _ hc (hg i t rfl ht), hclosed.lt, fun j u hu => ?_, hclosed.exclusive⟩
  obtain ⟨hends, hseen⟩ := hclosed.tx j u hu
  rcases World.set_opened hu with ⟨-, hnone⟩ | ⟨hji, hold⟩
  · cases hnone
  refine ⟨hends, fun p hp => ?_⟩
  obtain ⟨hgood, hrel, hheld⟩ := hseen p hp
  exact ⟨hgood, O.rely _ _ _ _ _ _ hc p.2 p.1
    (fun k hk => h.exclusive j i u t hji hold ht k (hheld k hk)) hrel, hheld⟩

/-- A step whose commit meets the guard keeps the invariant. -/
theorem Outline.step (O : Outline sys Good Rely Guard) {w w' : World DB W K E R C} {e : Event C}
    (h : Inv sys Good Rely w) (hg : CommitsMeet Guard w e) (hs : ReadCommitted.step sys w e = some w') :
    Inv sys Good Rely w' := by
  cases e with
  | tick =>
    obtain rfl := Option.some.inj hs
    exact ⟨h.good, h.lt, h.tx, h.exclusive⟩
  | begin call => exact h.begin hs
  | exec i => exact h.exec O hs
  | commit i => exact h.commit O hg hs
  | rollback i => rw [step_rollback hs]; exact h.close i

/-- Along a run whose commits meet the guard, every committed state is good. -/
theorem Outline.allStates (O : Outline sys Good Rely Guard) {db : DB} (h : Good db) {next now : ℕ}
    {events : List (Event C)}
    (hg : Runs.AllSteps (ReadCommitted.step sys) (CommitsMeet Guard) (World.initial db next now) events) :
    Runs.AllStates (ReadCommitted.step sys) (fun w => Good w.db) (World.initial db next now) events :=
  Runs.allStates_of_allSteps (Inv sys Good Rely) (fun _ _ _ h hg hs => O.step h hg hs)
    (fun _ h => h.good) events _ (inv_initial h next now) hg

/-- Two conditions on steps that agree where the invariant holds are met by the same runs. -/
theorem Outline.allSteps_iff (O : Outline sys Good Rely (fun _ _ _ => True))
    {F G : World DB W K E R C → Event C → Prop}
    (hexact : ∀ w e w', Inv sys Good Rely w → ReadCommitted.step sys w e = some w' → (F w e ↔ G w e))
    {db : DB} (h : Good db) (next now : ℕ) (events : List (Event C)) :
    Runs.AllSteps (ReadCommitted.step sys) F (World.initial db next now) events ↔
      Runs.AllSteps (ReadCommitted.step sys) G (World.initial db next now) events :=
  Runs.allSteps_iff (Inv sys Good Rely) (fun _ _ _ h hs => O.step h (fun _ _ _ _ => trivial) hs) hexact
    events _ (inv_initial h next now)

/-- Two conditions on commits that agree where the invariant holds are met by the same runs. -/
theorem Outline.commitsMeet_iff (O : Outline sys Good Rely (fun _ _ _ => True)) {F G : DB → C → Log DB W K → Prop}
    (hexact : ∀ db call i startedAt r log, Commit sys Good Rely db call i startedAt r log →
      (F db call log ↔ G db call log))
    {db : DB} (h : Good db) (next now : ℕ) (events : List (Event C)) :
    Runs.AllSteps (ReadCommitted.step sys) (CommitsMeet F) (World.initial db next now) events ↔
      Runs.AllSteps (ReadCommitted.step sys) (CommitsMeet G) (World.initial db next now) events := by
  refine O.allSteps_iff (fun w e w' hw hs => ?_) h next now events
  refine forall_congr' fun i => forall_congr' fun t => forall_congr' fun he => forall_congr' fun ht => ?_
  subst he
  obtain ⟨t', r, ht', hr, -⟩ := step_commit hs
  obtain rfl := Option.some.inj (ht.symm.trans ht')
  exact hexact _ _ _ _ _ _ (hw.commit_of ht hr)

/-- What every commit meets. -/
theorem Outline.allSteps (O : Outline sys Good Rely (fun _ _ _ => True)) {F : DB → C → Log DB W K → Prop}
    (hF : ∀ db call i startedAt r log, Commit sys Good Rely db call i startedAt r log → F db call log)
    {db : DB} (h : Good db) (next now : ℕ) (events : List (Event C)) :
    Runs.AllSteps (ReadCommitted.step sys) (CommitsMeet F) (World.initial db next now) events := by
  refine (O.allSteps_iff (G := fun _ _ => True) (fun w e w' hw hs => ?_) h next now events).mpr
    (Runs.allSteps_true _ events)
  refine iff_of_true (fun i t he ht => ?_) trivial
  subst he
  obtain ⟨t', r, ht', hr, -⟩ := step_commit hs
  obtain rfl := Option.some.inj (ht.symm.trans ht')
  exact hF _ _ _ _ _ _ (hw.commit_of ht hr)

/-- What every committed call returns. -/
theorem Outline.allSteps_returns (O : Outline sys Good Rely (fun _ _ _ => True)) {F : DB → C → R → Prop}
    (hF : ∀ db call i startedAt r log, Commit sys Good Rely db call i startedAt r log →
      F (view sys.apply db log.writes) call r)
    {db : DB} (h : Good db) (next now : ℕ) (events : List (Event C)) :
    Runs.AllSteps (ReadCommitted.step sys) (ReturnsMeet sys.apply F) (World.initial db next now) events := by
  refine (O.allSteps_iff (G := fun _ _ => True) (fun w e w' hw _ => ?_) h next now events).mpr
    (Runs.allSteps_true _ events)
  exact iff_of_true (fun i t r _ ht hr => hF _ _ _ _ _ _ (hw.commit_of ht hr)) trivial

/-- Where a commit keeps a property exactly when it meets `G`, a run keeps it exactly when all its
commits do. -/
theorem Outline.allStates_iff (O : Outline sys Good Rely (fun _ _ _ => True)) (P : DB → Prop)
    (G : DB → C → Log DB W K → Prop)
    (hexact : ∀ db call i startedAt r log, Commit sys Good Rely db call i startedAt r log → P db →
      (P (view sys.apply db log.writes) ↔ G db call log))
    {db : DB} (h : Good db) (hP : P db) (next now : ℕ) (events : List (Event C)) :
    Runs.AllStates (ReadCommitted.step sys) (fun w => P w.db) (World.initial db next now) events ↔
      Runs.AllSteps (ReadCommitted.step sys) (CommitsMeet G) (World.initial db next now) events := by
  refine Runs.allStates_iff_allSteps (Inv sys Good Rely)
    (fun _ _ _ h hs => O.step h (fun _ _ _ _ => trivial) hs) (fun w e w' hw hPw hs => ?_) events _
    (inv_initial h next now) hP
  by_cases hc : ∃ i, e = .commit i
  · obtain ⟨i, rfl⟩ := hc
    obtain ⟨t, r, ht, hr, rfl⟩ := step_commit hs
    refine (hexact _ _ _ _ _ _ (hw.commit_of ht hr) hPw).trans ⟨fun hG j u hj hu => ?_, fun hG => hG i t rfl ht⟩
    obtain rfl := Event.commit.inj hj
    rw [ht] at hu
    obtain rfl := Option.some.inj hu
    exact hG
  · rw [step_db hs (fun i hi => hc ⟨i, hi⟩)]
    exact ⟨fun _ i t hi => absurd ⟨i, hi⟩ hc, fun _ => hPw⟩

end outline

/-! ## One transaction at a time -/

section alone

variable (apply : DB → W → DB) (db : DB)

/-- The body run with nothing in between: every statement sees the same committed rows. -/
def alone : Prog DB W K E R → Log DB W K → Except E (R × Log DB W K)
  | .done r, log => .ok (r, log)
  | .fail e, _ => .error e
  | .stmt locks writes next, log =>
    alone (next (view apply db log.writes))
      (log.add db (locks (view apply db log.writes)) (writes (view apply db log.writes)))

variable {apply db}

@[simp] theorem alone_pure {r : R} {log : Log DB W K} :
    alone apply db (pure r : Prog DB W K E R) log = .ok (r, log) := rfl

/-- The second part goes on where the first one ended. -/
@[simp] theorem alone_bind {p : Prog DB W K E R} {f : R → Prog DB W K E S} {log : Log DB W K} :
    alone apply db (p >>= f) log = alone apply db p log >>= fun x => alone apply db (f x.1) x.2 := by
  change alone apply db (p.bind f) log = _
  induction p generalizing log with
  | done r => rfl
  | fail e => rfl
  | stmt locks writes next ih => exact ih _

@[simp] theorem alone_query {f : DB → R} {log : Log DB W K} :
    alone apply db (.query f : Prog DB W K E R) log = .ok (f (view apply db log.writes), log.add db [] []) := rfl

theorem alone_exec_ok {locks : DB → List K} {f : DB → Except E (R × List W)} {log log' : Log DB W K} {r : R} :
    alone apply db (.exec locks f) log = .ok (r, log') ↔ ∃ ws, f (view apply db log.writes) = .ok (r, ws) ∧
      log' = log.add db (locks (view apply db log.writes)) ws := by
  simp only [Prog.exec, alone]
  constructor
  · intro h
    cases hf : f (view apply db log.writes) with
    | error e => rw [hf] at h; cases h
    | ok p =>
      rw [hf] at h
      cases h
      exact ⟨p.2, rfl, rfl⟩
  · rintro ⟨ws, hf, rfl⟩
    rw [hf]
    rfl

theorem alone_ends {p : Prog DB W K E R} {log log' : Log DB W K} {r : R}
    (h : alone apply db p log = .ok (r, log')) (hlog : ∀ s ∈ log.seen, s.1 = db) :
    Ends apply p log r log' ∧ ∀ s ∈ log'.seen, s.1 = db := by
  induction p generalizing log with
  | done r' =>
    cases h
    exact ⟨⟨rfl, rfl⟩, hlog⟩
  | fail e => cases h
  | stmt locks writes next ih =>
    obtain ⟨hends, hseen⟩ := ih _ h (fun s hs => by
      rcases List.mem_append.mp hs with hs | hs
      · exact hlog s hs
      · rw [List.mem_singleton.mp hs])
    exact ⟨⟨db, hends⟩, hseen⟩

end alone

section serial

/-- The database and the number of the next transaction, where calls run one after the other. -/
structure Serial (DB : Type) where
  db : DB
  next : ℕ

variable (sys : System DB W K E R C)

/-- The world between two such calls. -/
def Serial.world (s : Serial DB) : World DB W K E R C := .initial s.db s.next s.next

/-- A call that succeeds publishes its writes; one that fails leaves no trace. -/
def serialStep (s : Serial DB) (call : C) : Option (Serial DB) :=
  match alone sys.apply s.db (sys.body call s.next s.next) .empty with
  | .ok (_, log) => some ⟨view sys.apply s.db log.writes, s.next + 1⟩
  | .error _ => none

variable {sys}

theorem serialStep_alone {s s' : Serial DB} {call : C} (h : serialStep sys s call = some s') :
    ∃ r log, alone sys.apply s.db (sys.body call s.next s.next) .empty = .ok (r, log) ∧
      s' = ⟨view sys.apply s.db log.writes, s.next + 1⟩ := by
  simp only [serialStep] at h
  split at h
  · rename_i r log ha
    exact ⟨r, log, ha, (Option.some.inj h).symm⟩
  · cases h

/-- What a call did alone, as a commit whose statements saw only the present rows. -/
theorem alone_commit {Good : DB → Prop} {Rely : List K → DB → DB → Prop} (hrefl : ∀ held db, Rely held db db)
    {db : DB} {call : C} {i startedAt : ℕ} {r : R} {log : Log DB W K} (hgood : Good db)
    (h : alone sys.apply db (sys.body call i startedAt) .empty = .ok (r, log)) :
    Commit sys Good Rely db call i startedAt r log ∧ ∀ p ∈ log.seen, p.1 = db := by
  obtain ⟨hends, hseen⟩ := alone_ends h (by simp [Log.empty])
  exact ⟨⟨hgood, hends, fun p hp => by rw [hseen p hp]; exact ⟨hgood, hrefl _ _⟩⟩, hseen⟩

/-- An accepted call is a commit whose statements saw the present rows. -/
theorem serialStep_commit {Good : DB → Prop} {Rely : List K → DB → DB → Prop}
    (hrefl : ∀ held db, Rely held db db) {s s' : Serial DB} {call : C} (hgood : Good s.db)
    (h : serialStep sys s call = some s') :
    ∃ r log, Commit sys Good Rely s.db call s.next s.next r log ∧ (∀ p ∈ log.seen, p.1 = s.db) ∧
      s' = ⟨view sys.apply s.db log.writes, s.next + 1⟩ := by
  obtain ⟨r, log, halone, hs'⟩ := serialStep_alone h
  obtain ⟨hcommit, hseen⟩ := alone_commit hrefl hgood halone
  exact ⟨r, log, hcommit, hseen, hs'⟩

variable [DecidableEq K]

/-- With no other transaction open, the statements of a body run one after the other to what
`alone` computes. -/
theorem alone_exec {i : ℕ} (w : World DB W K E R C) (hother : ∀ j, j ≠ i → w.opened j = none)
    {p : Prog DB W K E R} : ∀ {log log' : Log DB W K} {r : R} {call : C} {startedAt : ℕ},
      alone sys.apply w.db p log = .ok (r, log') →
      ∃ events : List (Event C), Runs.final (step sys) (w.set i (some ⟨call, startedAt, log, p⟩)) events =
        some (w.set i (some ⟨call, startedAt, log', .done r⟩)) := by
  induction p with
  | done r' =>
    intro log log' r call startedAt h
    cases h
    exact ⟨[], rfl⟩
  | fail e => intro log log' r call startedAt h; cases h
  | stmt locks writes next ih =>
    intro log log' r call startedAt h
    obtain ⟨events, hev⟩ := ih _ h
    refine ⟨.exec i :: events, ?_⟩
    have hfree : ∀ ks, blocked (w.set i (some ⟨call, startedAt, log, .stmt locks writes next⟩)) i ks = false := by
      intro ks
      rw [blocked, List.any_eq_false]
      intro j _
      by_cases hji : j = i
      · simp [hji]
      · simp [World.set, Function.update_of_ne hji, hother j hji]
    have hstep : step sys (w.set i (some ⟨call, startedAt, log, .stmt locks writes next⟩)) (.exec i) =
        some (w.set i (some ⟨call, startedAt,
          log.add w.db (locks (view sys.apply w.db log.writes)) (writes (view sys.apply w.db log.writes)),
          next (view sys.apply w.db log.writes)⟩)) := by
      simp [step, hfree]
    rw [Runs.final, List.foldlM_cons, hstep]
    exact hev

/-- An accepted call is one of the interleavings. -/
theorem serialStep_run {s s' : Serial DB} {call : C} (h : serialStep sys s call = some s') :
    ∃ events : List (Event C), Runs.final (step sys) (s.world : World DB W K E R C) events = some s'.world := by
  simp only [serialStep] at h
  split at h
  · rename_i r log ha
    obtain rfl := Option.some.inj h
    let w : World DB W K E R C := ⟨s.db, s.next, s.next + 1, fun _ => none⟩
    obtain ⟨events, hev⟩ := alone_exec (i := s.next) w (fun _ _ => rfl)
      ha
    refine ⟨.begin call :: (events ++ [.commit s.next, .tick]), ?_⟩
    have hclosed : ∀ t : Option (Tx DB W K E R C),
        Function.update (Function.update (fun _ => none) s.next t) s.next none = fun _ => none := by
      intro t
      rw [Function.update_idem]
      exact Function.update_eq_self s.next (fun _ => none)
    calc Runs.final (step sys) s.world (.begin call :: (events ++ [.commit s.next, .tick]))
        = Runs.final (step sys) (w.set s.next (some ⟨call, s.next, .empty, sys.body call s.next s.next⟩))
            (events ++ [.commit s.next, .tick]) := rfl
      _ = Runs.final (step sys) (w.set s.next (some ⟨call, s.next, log, .done r⟩))
            [.commit s.next, .tick] := by
          rw [Runs.final, List.foldlM_append]
          rw [Runs.final] at hev
          rw [hev]
          rfl
      _ = some (Serial.world ⟨view sys.apply s.db log.writes, s.next + 1⟩) := by
          simp [Runs.final, step, World.set, Serial.world, World.initial, w, hclosed]
  · cases h

end serial

end ReadCommitted
