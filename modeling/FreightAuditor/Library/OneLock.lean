import FreightAuditor.Library.ReadCommitted

/- Transactions that all begin by taking the same lock.

   `after db m` is where a body stands once `m` statements have run on the rows `db` with
   nothing in between. If every body takes the lock `k` with its first statement, each open
   transaction stands where it would stand alone on the present rows (`Solo.step`): it has not
   begun, or the rows have stood still since. -/
namespace ReadCommitted

variable {DB W K E R C : Type}

section

variable (apply : DB → W → DB) (db : DB)

/-- One statement; what has ended stays. -/
def advance : Prog DB W K E R × Log DB W K → Prog DB W K E R × Log DB W K
  | (.stmt locks writes next, log) =>
    let v := view apply db log.writes
    (next v, log.add db (locks v) (writes v))
  | p => p

def after : ℕ → Prog DB W K E R × Log DB W K → Prog DB W K E R × Log DB W K
  | 0, p => p
  | m + 1, p => advance apply db (after m p)

theorem advance_exec {S : Type} (locks : DB → List K) (f : DB → Except E (R × List W)) (g : R → Prog DB W K E S)
    (log : Log DB W K) :
    advance apply db (Prog.exec locks f >>= g, log) =
      match f (view apply db log.writes) with
      | .ok (r, writes) => (g r, log.add db (locks (view apply db log.writes)) writes)
      | .error e => (.fail e, log.add db (locks (view apply db log.writes)) []) := by
  change advance apply db (Prog.bind (Prog.exec locks f) g, log) = _
  simp only [Prog.exec, Prog.bind, advance]
  cases f (view apply db log.writes) with
  | ok p => rfl
  | error e => rfl

end

/-- The first statement takes the lock. -/
def TakesFirst (k : K) : Prog DB W K E R → Prop
  | .stmt locks _ _ => ∀ db, k ∈ locks db
  | _ => True

theorem takesFirst_exec {S : Type} {k : K} {locks : DB → List K} {f : DB → Except E (R × List W)}
    {g : R → Prog DB W K E S} (h : ∀ db, k ∈ locks db) : TakesFirst k (Prog.exec locks f >>= g) := h

/-- Every transaction stands where it would stand alone, and at most one has begun. -/
structure Solo (sys : System DB W K E R C) (k : K) (w : World DB W K E R C) : Prop where
  lt : ∀ i t, w.opened i = some t → i < w.next
  stands : ∀ i t, w.opened i = some t →
    (t.rest, t.log) = after sys.apply w.db t.log.seen.length (sys.body t.call i t.startedAt, .empty)
  holds : ∀ i t, w.opened i = some t → t.log.seen ≠ [] → k ∈ t.log.held
  exclusive : ∀ i j t u, i ≠ j → w.opened i = some t → w.opened j = some u → k ∈ t.log.held → k ∉ u.log.held

variable {sys : System DB W K E R C} {k : K} {w w' : World DB W K E R C}

theorem Solo.close (h : Solo sys k w) (i : ℕ) : Solo sys k (w.set i none) := by
  have hsub : ∀ j t, (w.set i none).opened j = some t → w.opened j = some t := by
    intro j t ht
    rcases World.set_opened ht with ⟨-, h⟩ | ⟨-, h⟩
    · cases h
    · exact h
  exact ⟨fun j t ht => h.lt j t (hsub j t ht), fun j t ht => h.stands j t (hsub j t ht),
    fun j t ht => h.holds j t (hsub j t ht), fun i j t u hij ht hu => h.exclusive i j t u hij (hsub i t ht) (hsub j u hu)⟩

/-- One that has not begun stands so on any rows. -/
theorem Solo.begun_or (h : Solo sys k w) {i : ℕ} {t : Tx DB W K E R C} (ht : w.opened i = some t) :
    k ∈ t.log.held ∨ t.log = .empty ∧ t.rest = sys.body t.call i t.startedAt := by
  by_cases hseen : t.log.seen = []
  · have hstands := h.stands i t ht
    rw [hseen] at hstands
    obtain ⟨hrest, hlog⟩ := Prod.mk.inj hstands
    exact .inr ⟨hlog, hrest⟩
  · exact .inl (h.holds i t ht hseen)

theorem Solo.begin (h : Solo sys k w) {call : C} [DecidableEq K] (hs : step sys w (.begin call) = some w') :
    Solo sys k w' := by
  obtain rfl := Option.some.inj hs
  refine ⟨fun i t ht => ?_, fun i t ht => ?_, fun i t ht hseen => ?_, fun i j t u hij ht hu hk hk' => ?_⟩
  · rcases World.set_opened ht with ⟨rfl, -⟩ | ⟨-, hold⟩
    · exact Nat.lt_succ_self _
    · exact Nat.lt_succ_of_lt (h.lt i t hold)
  · rcases World.set_opened ht with ⟨rfl, hnew⟩ | ⟨-, hold⟩
    · obtain rfl := Option.some.inj hnew
      rfl
    · exact h.stands i t hold
  · rcases World.set_opened ht with ⟨rfl, hnew⟩ | ⟨-, hold⟩
    · obtain rfl := Option.some.inj hnew
      exact absurd rfl hseen
    · exact h.holds i t hold hseen
  · -- a fresh transaction holds nothing
    rcases World.set_opened ht with ⟨rfl, hnew⟩ | ⟨-, hold⟩
    · obtain rfl := Option.some.inj hnew
      cases hk
    · rcases World.set_opened hu with ⟨rfl, hnew⟩ | ⟨-, hold'⟩
      · obtain rfl := Option.some.inj hnew
        cases hk'
      · exact h.exclusive i j t u hij hold hold' hk hk'

theorem Solo.exec (hfirst : ∀ call i startedAt, TakesFirst k (sys.body call i startedAt)) (h : Solo sys k w)
    [DecidableEq K] {i : ℕ} (hs : step sys w (.exec i) = some w') : Solo sys k w' := by
  obtain ⟨t, ht, ⟨e, -, rfl⟩ | ⟨locks, writes, next, hrest, hfree, rfl⟩⟩ := step_exec hs
  · exact h.close i
  -- the statement has the lock already, or takes it now
  have hlock : k ∈ t.log.held ∨ k ∈ locks (view sys.apply w.db t.log.writes) := by
    refine (h.begun_or ht).imp_right fun hbegin => ?_
    have hbody := hfirst t.call i t.startedAt
    rw [← hbegin.2, hrest] at hbody
    exact hbody _
  have hothers : ∀ j u, j ≠ i → w.opened j = some u → k ∉ u.log.held := by
    intro j u hji hu
    rcases hlock with hheld | htaken
    · exact h.exclusive i j t u (Ne.symm hji) ht hu hheld
    · exact not_blocked hfree (h.lt j u hu) hji hu k htaken
  refine ⟨fun j u hu => ?_, fun j u hu => ?_, fun j u hu hseen => ?_, fun j l u v hjl hu hv hk hk' => ?_⟩
  · rcases World.set_opened hu with ⟨rfl, -⟩ | ⟨-, hold⟩
    · exact h.lt j t ht
    · exact h.lt j u hold
  · rcases World.set_opened hu with ⟨rfl, hnew⟩ | ⟨-, hold⟩
    · obtain rfl := Option.some.inj hnew
      have hstands := h.stands j t ht
      simp only [Log.add, List.length_append, List.length_singleton]
      rw [after, World.set_db, ← hstands, hrest]
      rfl
    · exact h.stands j u hold
  · rcases World.set_opened hu with ⟨rfl, hnew⟩ | ⟨-, hold⟩
    · obtain rfl := Option.some.inj hnew
      exact List.mem_append.mpr hlock
    · exact h.holds j u hold hseen
  · rcases World.set_opened hu with ⟨rfl, hnew⟩ | ⟨hji, hold⟩
    · rcases World.set_opened hv with ⟨rfl, -⟩ | ⟨hli, hold'⟩
      · exact hjl rfl
      · exact hothers l v hli hold' hk'
    · exact hothers j u hji hold hk

theorem Solo.commit (h : Solo sys k w) [DecidableEq K] {i : ℕ} (hs : step sys w (.commit i) = some w') :
    Solo sys k w' := by
  obtain ⟨t, r, ht, hr, rfl⟩ := step_commit hs
  have hclosed := h.close i
  refine ⟨hclosed.lt, fun j u hu => ?_, hclosed.holds, hclosed.exclusive⟩
  rcases h.begun_or ht with hheld | ⟨hempty, -⟩
  · -- the others have not begun
    rcases World.set_opened hu with ⟨-, hnone⟩ | ⟨hji, hold⟩
    · cases hnone
    · rcases h.begun_or hold with hheld' | ⟨hlog, hrest⟩
      · exact absurd hheld' (h.exclusive i j t u (Ne.symm hji) ht hold hheld)
      · rw [hlog, hrest]
        rfl
  · have hstands := hclosed.stands j u hu
    rw [hempty]
    exact hstands

/-- Along every interleaving, a transaction stands where it would stand alone. -/
theorem Solo.step (hfirst : ∀ call i startedAt, TakesFirst k (sys.body call i startedAt)) [DecidableEq K]
    (h : Solo sys k w) {e : Event C} (hs : ReadCommitted.step sys w e = some w') : Solo sys k w' := by
  cases e with
  | tick =>
    obtain rfl := Option.some.inj hs
    exact ⟨h.lt, h.stands, h.holds, h.exclusive⟩
  | begin call => exact h.begin hs
  | exec i => exact h.exec hfirst hs
  | commit i => exact h.commit hs
  | rollback i => rw [step_rollback hs]; exact h.close i

end ReadCommitted
