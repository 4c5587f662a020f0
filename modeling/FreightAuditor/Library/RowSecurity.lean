import Mathlib.Logic.Relation
import FreightAuditor.Library.ReadCommitted

/- Row security over transactions at READ COMMITTED.

   A `Policy` says which rows a session sees and which changes of a row it may make. A
   `Body` is a transaction written for the rows of its session: its statements see only
   those, and learn of all others one thing, whether they stand in the way. `secured` is
   the program that the database runs for it.

   Over every interleaving, a commit changes the rows only as the policy of its session
   permits (`secured_permitted`), so what the permitted changes of all sessions keep, every
   run keeps (`allStates_of_changes`). -/
namespace RowSecurity

open ReadCommitted

/-- Rows by their ids. -/
abbrev Rows (I Row : Type) := I → Option Row

/-- A row put, or one taken away. -/
abbrev Write (I Row : Type) := I × Option Row

variable {I Row E R C : Type}

section

variable [DecidableEq I]

def put (db : Rows I Row) (w : Write I Row) : Rows I Row := Function.update db w.1 w.2

@[simp] theorem put_self (db : Rows I Row) (w : Write I Row) : put db w w.1 = w.2 := Function.update_self ..

theorem put_of_ne {db : Rows I Row} {w : Write I Row} {i : I} (h : i ≠ w.1) : put db w i = db i :=
  Function.update_of_ne h ..

/-- Writes elsewhere leave a row alone. -/
theorem view_of_notMem {ws : List (Write I Row)} {db : Rows I Row} {i : I} (h : ∀ w ∈ ws, w.1 ≠ i) :
    view put db ws i = db i := by
  induction ws generalizing db with
  | nil => rfl
  | cons w ws ih =>
    calc view put (put db w) ws i
        = put db w i := ih fun w' hw' => h w' (List.mem_cons_of_mem _ hw')
      _ = db i := put_of_ne (Ne.symm (h w List.mem_cons_self))

end

/-! ## Policies -/

/-- What a session sees, and may do. What it puts it can see. -/
structure Policy (I Row : Type) where
  sees : I → Row → Bool
  inserts : I → Row → Bool
  updates : I → Row → Row → Bool
  deletes : I → Row → Bool
  sees_inserted : ∀ i new, inserts i new = true → sees i new = true
  sees_updated : ∀ i old new, updates i old new = true → sees i new = true

namespace Policy

variable (p : Policy I Row)

/-- The visible rows. -/
def view (db : Rows I Row) : Rows I Row := fun i => (db i).filter (p.sees i)

/-- The change of one row that the session may make. -/
def changes (i : I) : Option Row → Option Row → Bool
  | none, none => true
  | none, some new => p.inserts i new
  | some old, none => p.sees i old && p.deletes i old
  | some old, some new => p.sees i old && p.updates i old new

variable {p}

/-- A write lands on a row that the session does not see. -/
def hides (p : Policy I Row) (db : Rows I Row) (ws : List (Write I Row)) : Bool :=
  ws.any fun w => (db w.1).any fun row => !p.sees w.1 row

/-- A row that is not hidden is as the session sees it. -/
theorem view_of_not_hides {db : Rows I Row} {ws : List (Write I Row)} (h : p.hides db ws = false) :
    ∀ w ∈ ws, p.view db w.1 = db w.1 := by
  intro w hw
  have hrow := List.any_eq_false.mp h w hw
  cases hdb : db w.1 with
  | none => simp [view, hdb]
  | some row => simpa [view, hdb] using hrow

variable [DecidableEq I]

/-- The writes are permitted one after the other. -/
def permits (p : Policy I Row) : Rows I Row → List (Write I Row) → Bool
  | _, [] => true
  | db, w :: ws => p.changes w.1 (db w.1) w.2 && permits p (put db w) ws

/-- Only the written rows matter to what is permitted. -/
theorem permits_congr {ws : List (Write I Row)} {db db' : Rows I Row} (h : ∀ w ∈ ws, db w.1 = db' w.1) :
    p.permits db ws = p.permits db' ws := by
  induction ws generalizing db db' with
  | nil => rfl
  | cons w ws ih =>
    have hrest : ∀ w' ∈ ws, put db w w'.1 = put db' w w'.1 := by
      intro w' hw'
      by_cases hsame : w'.1 = w.1
      · rw [hsame, put_self, put_self]
      · rw [put_of_ne hsame, put_of_ne hsame]
        exact h w' (List.mem_cons_of_mem _ hw')
    rw [permits, permits, h w List.mem_cons_self, ih hrest]

variable (p) in
/-- One permitted change of one row. -/
def Changes (db db' : Rows I Row) : Prop := ∃ w, p.changes w.1 (db w.1) w.2 = true ∧ db' = put db w

variable (p) in
/-- One permitted change after the other. -/
def Permitted : Rows I Row → Rows I Row → Prop := Relation.ReflTransGen p.Changes

/-- What one permitted change keeps, they all keep. -/
theorem Permitted.keeps {Q : Rows I Row → Prop} {db db' : Rows I Row} (h : p.Permitted db db')
    (hkeep : ∀ db db', Q db → p.Changes db db' → Q db') (hQ : Q db) : Q db' := by
  induction h with
  | refl => exact hQ
  | tail _ hchange ih => exact hkeep _ _ ih hchange

theorem permitted_of_permits {ws : List (Write I Row)} {db : Rows I Row} (h : p.permits db ws = true) :
    p.Permitted db (ReadCommitted.view put db ws) := by
  induction ws generalizing db with
  | nil => exact Relation.ReflTransGen.refl
  | cons w ws ih =>
    obtain ⟨hfirst, hrest⟩ := Bool.and_eq_true_iff.mp h
    exact Relation.ReflTransGen.head ⟨w, hfirst, rfl⟩ (ih hrest)

end Policy

/-! ## Bodies -/

/-- A transaction over the rows of its session. A statement writes where the database lets it, and goes on with
whether it did. -/
inductive Body (I Row E R : Type) where
  | done (result : R)
  | fail (error : E)
  | stmt (locks : Rows I Row → List I) (writes : Rows I Row → List (Write I Row))
      (next : Bool → Rows I Row → Body I Row E R)

namespace Body

def bind {S : Type} : Body I Row E R → (R → Body I Row E S) → Body I Row E S
  | .done r, f => f r
  | .fail e, _ => .fail e
  | .stmt locks writes next, f => .stmt locks writes fun ok db => (next ok db).bind f

/-- A statement that writes, or fails where the database refuses it. -/
def write (refused : E) (writes : Rows I Row → List (Write I Row)) : Body I Row E PUnit :=
  .stmt (fun _ => []) writes fun ok _ => if ok then .done ⟨⟩ else .fail refused

end Body

section secured

variable [DecidableEq I] (p : Policy I Row) (constraints : Rows I Row → Bool) (denied : E)

/-- The database takes the writes: none of them lands on a hidden row, and its constraints hold after them. It is
the one thing that depends on hidden rows. -/
def takes (db : Rows I Row) (ws : List (Write I Row)) : Bool := !p.hides db ws && constraints (view put db ws)

/-- The transaction as the database runs it. Its statements lock the rows that they write, and a write that the
policy does not permit ends it. -/
def secured : Body I Row E R → Prog (Rows I Row) (Write I Row) I E R
  | .done r => .done r
  | .fail e => .fail e
  | .stmt locks writes next =>
    .stmt (fun db => locks (p.view db) ++ (writes (p.view db)).map Prod.fst)
      (fun db => if p.permits (p.view db) (writes (p.view db)) && takes p constraints db (writes (p.view db)) then
        writes (p.view db) else [])
      (fun db => if p.permits (p.view db) (writes (p.view db)) then
        secured (next (takes p constraints db (writes (p.view db))) (p.view db)) else .fail denied)

variable {p constraints denied}

/-- What a statement writes is permitted on the rows as they are. -/
theorem permits_of_takes {db : Rows I Row} {ws : List (Write I Row)} (hp : p.permits (p.view db) ws = true)
    (ht : takes p constraints db ws = true) : p.permits db ws = true := by
  have hhides : p.hides db ws = false := by simpa using (Bool.and_eq_true_iff.mp ht).1
  rw [← Policy.permits_congr (Policy.view_of_not_hides hhides), hp]

/-- A written row is a locked row. -/
theorem secured_covered (b : Body I Row E R) :
    Covered (fun ks w => w.1 ∈ ks) (secured p constraints denied b) := by
  induction b with
  | done r => trivial
  | fail e => trivial
  | stmt locks writes next ih =>
    intro db
    refine ⟨fun w hw => ?_, ?_⟩
    · simp only at hw
      split at hw
      · exact List.mem_append_right _ (List.mem_map_of_mem hw)
      · exact absurd hw List.not_mem_nil
    · simp only
      split
      · exact ih _ _
      · trivial

/-- A finished body has made permitted changes to rows that have stayed since they were locked. -/
theorem secured_permitted {db : Rows I Row} (b : Body I Row E R) {log log' : Log (Rows I Row) (Write I Row) I} {r : R}
    (h : Ends put (secured p constraints denied b) log r log')
    (hkept : ∀ s ∈ log'.seen, ∀ i ∈ s.2, s.1 i = db i) :
    p.Permitted (view put db log.writes) (view put db log'.writes) := by
  induction b generalizing log with
  | done r' =>
    obtain ⟨-, rfl⟩ := h
    exact Relation.ReflTransGen.refl
  | fail e => exact h.elim
  | stmt locks writes next ih =>
    obtain ⟨seen, h⟩ := h
    generalize hv : view put seen log.writes = rows at h
    by_cases hp : p.permits (p.view rows) (writes (p.view rows)) = true
    swap
    · simp only [hp] at h
      exact h.elim
    simp only [hp, if_true, Bool.true_and] at h
    refine Relation.ReflTransGen.trans ?_ (ih _ _ h)
    rw [Log.add_writes, view_append]
    split
    swap
    · exact Relation.ReflTransGen.refl
    · rename_i ht
      -- the rows written now are as they were seen, with the same writes on top
      have hsame : ∀ w ∈ writes (p.view rows), rows w.1 = view put db log.writes w.1 := by
        intro w hw
        have hlocked := hkept _ (h.extends.seen.subset (Log.last_seen ..)) w.1
          (List.mem_append_right _ (List.mem_append_right _ (List.mem_map_of_mem hw)))
        rw [← hv]
        exact view_same hlocked
      refine Policy.permitted_of_permits ?_
      rw [← Policy.permits_congr hsame]
      exact permits_of_takes hp ht
where
  view_same {db db' : Rows I Row} {ws : List (Write I Row)} {i : I} (h : db i = db' i) :
      view put db ws i = view put db' ws i := by
    induction ws generalizing db db' with
    | nil => exact h
    | cons w ws ih =>
      refine ih ?_
      by_cases hi : i = w.1
      · rw [hi, put_self, put_self]
      · rw [put_of_ne hi, put_of_ne hi, h]

end secured

/-! ## Services -/

/-- The calls of a program, each in a session with its policy. -/
structure Service (I Row E R C : Type) where
  policy : C → Policy I Row
  constraints : Rows I Row → Bool
  denied : E
  body : C → ℕ → ℕ → Body I Row E R

namespace Service

variable [DecidableEq I] (sys : Service I Row E R C)

/-- The calls as the database runs them. -/
def system : System (Rows I Row) (Write I Row) I E R C where
  apply := put
  body call i startedAt := secured (sys.policy call) sys.constraints sys.denied (sys.body call i startedAt)

/-- The rows that a transaction has locked stay as they are. -/
def KeepsLocked (held : List I) (seen db : Rows I Row) : Prop := ∀ i ∈ held, seen i = db i

variable {sys}

theorem outline : Outline sys.system (fun _ => True) KeepsLocked (fun _ _ _ => True) where
  refl := fun _ _ _ _ => rfl
  good := fun _ _ _ _ _ _ _ _ => trivial
  rely := by
    intro db call i startedAt r log hcommit held seen hfree hseen k hk
    have hcovered : Covered (fun ks w => w.1 ∈ ks) (sys.system.body call i startedAt) := secured_covered _
    have hlocked : ∀ w ∈ log.writes, w.1 ∈ log.held :=
      hcovered.ends (fun _ _ w hsub hw => hsub w.1 hw) hcommit.ends (by simp [Log.empty])
    refine (hseen k hk).trans (view_of_notMem fun w hw hwk => hfree k hk ?_).symm
    rw [← hwk]
    exact hlocked w hw

/-- The calls of all open transactions. -/
def OpenedAre (Allowed : C → Prop) (w : World (Rows I Row) (Write I Row) I E R C) : Prop :=
  ∀ i t, w.opened i = some t → Allowed t.call

theorem OpenedAre.step {Allowed : C → Prop} {w w' : World (Rows I Row) (Write I Row) I E R C} {e : Event C}
    (h : OpenedAre Allowed w) (hbegin : ∀ call, e = .begin call → Allowed call) (hs : step sys.system w e = some w') :
    OpenedAre Allowed w' := by
  have hclose : ∀ i, OpenedAre Allowed (w.set i none) := by
    intro i j t ht
    rcases World.set_opened ht with ⟨-, hnone⟩ | ⟨-, hold⟩
    · cases hnone
    · exact h j t hold
  cases e with
  | tick =>
    obtain rfl := Option.some.inj hs
    exact h
  | begin call =>
    obtain rfl := Option.some.inj hs
    intro i t ht
    rcases World.set_opened ht with ⟨-, hnew⟩ | ⟨-, hold⟩
    · obtain rfl := Option.some.inj hnew
      exact hbegin call rfl
    · exact h i t hold
  | exec i =>
    obtain ⟨t, ht, ⟨_, -, rfl⟩ | ⟨locks, writes, next, -, -, rfl⟩⟩ := step_exec hs
    · exact hclose i
    · intro j u hu
      rcases World.set_opened hu with ⟨-, hnew⟩ | ⟨-, hold⟩
      · obtain rfl := Option.some.inj hnew
        exact h i t ht
      · exact h j u hold
  | commit i =>
    obtain ⟨t, r, -, -, rfl⟩ := step_commit hs
    exact hclose i
  | rollback i =>
    rw [step_rollback hs]
    exact hclose i

/-- What the permitted changes of its session keep, a step keeps. -/
theorem step_keeps {Q : Rows I Row → Prop} {w w' : World (Rows I Row) (Write I Row) I E R C} {e : Event C}
    (hw : Inv sys.system (fun _ => True) KeepsLocked w) (hs : step sys.system w e = some w') (hQ : Q w.db)
    (hkeep : ∀ i t, w.opened i = some t → ∀ db db', Q db → (sys.policy t.call).Changes db db' → Q db') : Q w'.db := by
  by_cases hc : ∃ i, e = .commit i
  · obtain ⟨i, rfl⟩ := hc
    obtain ⟨t, r, ht, hr, rfl⟩ := step_commit hs
    have hcommit := hw.commit_of ht hr
    have hpermitted := secured_permitted (sys.body t.call i t.startedAt) hcommit.ends
      fun s hs => (hcommit.seen s hs).2
    exact hpermitted.keeps (hkeep i t ht) hQ
  · rw [step_db hs fun i hi => hc ⟨i, hi⟩]
    exact hQ

/-- What the permitted changes of all sessions of a run keep, the run keeps. -/
theorem allStates_of_changes (Q : Rows I Row → Prop) (Allowed : C → Prop)
    (hkeep : ∀ call, Allowed call → ∀ db db', Q db → (sys.policy call).Changes db db' → Q db')
    {db : Rows I Row} (hQ : Q db) (next now : ℕ) {events : List (Event C)}
    (hcalls : ∀ call, .begin call ∈ events → Allowed call) :
    Runs.AllStates (step sys.system) (fun w => Q w.db) (World.initial db next now) events := by
  have hrun : ∀ events w, Inv sys.system (fun _ => True) KeepsLocked w → OpenedAre Allowed w → Q w.db →
      (∀ call, Event.begin call ∈ events → Allowed call) → Runs.AllStates (step sys.system) (fun w => Q w.db) w events := by
    intro events
    induction events with
    | nil => exact fun w _ _ hQ _ => hQ
    | cons e rest ih =>
      intro w hw hopened hQ hcalls
      refine ⟨hQ, fun w' hs => ih w' ?_ ?_ ?_ fun call hc => hcalls call (List.mem_cons_of_mem _ hc)⟩
      · exact outline.step hw (fun _ _ _ _ => trivial) hs
      · exact hopened.step (fun call he => hcalls call (he ▸ List.mem_cons_self)) hs
      · exact step_keeps hw hs hQ fun i t ht => hkeep t.call (hopened i t ht)
  exact hrun events _ (inv_initial trivial next now) (fun _ _ h => nomatch h) hQ hcalls

end Service

end RowSecurity
