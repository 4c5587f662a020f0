import Mathlib.Data.List.MinMax
import Mathlib.Logic.Function.Basic
import FreightAuditor.Library.Runs

/- Rows stamped with the start of the transaction that inserts them, and read as of a time.

   A transaction begins, inserts rows and commits, with any others in between; its rows are there from the
   commit on, and carry the time at which it began. `Latest` takes the greatest of the rows known by a cutoff
   that a request is about. What it takes is the same from one moment on, exactly if no transaction that
   began by the cutoff commits a greater one (`stable_iff`). -/
namespace StampedRows

variable {Row α β : Type}

/-! ## Transactions -/

structure OpenTx (Row : Type) where
  startedAt : ℤ
  inserted : List Row

/-- The committed rows in the order of their commits, the clock, and the open transactions. -/
structure World (Row : Type) where
  now : ℤ
  committed : List Row
  opened : ℕ → Option (OpenTx Row)

def World.initial (now : ℤ) (committed : List Row) : World Row := ⟨now, committed, fun _ => none⟩

inductive Event (Row : Type) where
  | pass (time : ℕ)
  | start (tx : ℕ)
  | insert (tx : ℕ) (row : Row)
  | commit (tx : ℕ)
  | rollback (tx : ℕ)
  deriving DecidableEq

def World.set (w : World Row) (tx : ℕ) (t : Option (OpenTx Row)) : World Row :=
  { w with opened := Function.update w.opened tx t }

theorem World.set_self {w : World Row} {tx : ℕ} {t : Option (OpenTx Row)} : (w.set tx t).opened tx = t :=
  Function.update_self ..

theorem World.set_other {w : World Row} {tx tx' : ℕ} {t : Option (OpenTx Row)} (h : tx' ≠ tx) :
    (w.set tx t).opened tx' = w.opened tx' := Function.update_of_ne h ..

variable (stamp : ℤ → Row → Row)

/-- The rows that the commit of a transaction adds. -/
def OpenTx.rows (t : OpenTx Row) : List Row := t.inserted.map (stamp t.startedAt)

def step (w : World Row) : Event Row → Option (World Row)
  | .pass time => some { w with now := w.now + time }
  | .start tx =>
    match w.opened tx with
    | none => some (w.set tx (some ⟨w.now, []⟩))
    | some _ => none
  | .insert tx row => (w.opened tx).map fun t => w.set tx (some { t with inserted := t.inserted ++ [row] })
  | .commit tx => (w.opened tx).map fun t => { w.set tx none with committed := w.committed ++ t.rows stamp }
  | .rollback tx => (w.opened tx).map fun _ => w.set tx none

/-! ## Reading as of a time -/

/-- `SELECT ... WHERE ... ORDER BY key DESC LIMIT 1`: the rows a request is about, and their order. -/
structure Latest (Row α β : Type) where
  candidate : Row → Option α
  key : α → β

variable [LinearOrder β]

def Latest.read (r : Latest Row α β) (rows : List Row) : Option α := (rows.filterMap r.candidate).argmax r.key

/-- Every row taken is known by the cutoff, whatever else it says. -/
def Latest.KnownBy (r : Latest Row α β) (cutoff : ℤ) : Prop :=
  ∀ startedAt row, (r.candidate (stamp startedAt row)).isSome → startedAt ≤ cutoff

/-- A transaction that began by the cutoff commits only such rows of the request as do not go before all of
the committed ones. -/
def Latest.LateOnesBelow (r : Latest Row α β) (cutoff : ℤ) (w : World Row) (e : Event Row) : Prop :=
  ∀ tx t, e = .commit tx → w.opened tx = some t → t.startedAt ≤ cutoff →
    ∀ row ∈ t.rows stamp, ∀ a, r.candidate row = some a → ∃ row' ∈ w.committed, ∃ b, r.candidate row' = some b ∧ r.key a ≤ r.key b

/-- Elements that follow change the first greatest exactly if one of them is above all before. -/
theorem argmax_append_eq_iff (key : α → β) (l new : List α) :
    (l ++ new).argmax key = l.argmax key ↔ ∀ a ∈ new, ∃ b ∈ l, key a ≤ key b := by
  have hfirst {a : α} {l new : List α} (h : (l ++ new).argmax key = l.argmax key) (ha : a ∈ new) : ∃ b ∈ l, key a ≤ key b := by
    cases hmax : l.argmax key with
    | none =>
      rw [hmax, List.argmax_eq_none] at h
      rw [(List.append_eq_nil_iff.mp h).2] at ha
      cases ha
    | some m =>
      rw [hmax] at h
      exact ⟨m, List.argmax_mem hmax, List.le_of_mem_argmax (List.mem_append_right l ha) h⟩
  refine ⟨fun h a => hfirst h, fun h => ?_⟩
  induction new using List.reverseRecOn with
  | nil => rw [List.append_nil]
  | append_singleton new a ih =>
    have hsame := ih fun b hb => h b (List.mem_append_left _ hb)
    obtain ⟨b, hb, hle⟩ := h a (List.mem_append_right _ (List.mem_singleton_self a))
    rw [← List.append_assoc, List.argmax_concat, hsame]
    cases hmax : l.argmax key with
    | none =>
      rw [List.argmax_eq_none.mp hmax] at hb
      cases hb
    | some m => exact if_neg (not_lt.mpr (hle.trans (List.le_of_mem_argmax hb hmax)))

variable {stamp} {r : Latest Row α β} {cutoff : ℤ} {w w' : World Row}

theorem Latest.read_append_eq_iff (rows new : List Row) :
    r.read (rows ++ new) = r.read rows ↔
      ∀ row ∈ new, ∀ a, r.candidate row = some a → ∃ row' ∈ rows, ∃ b, r.candidate row' = some b ∧ r.key a ≤ r.key b := by
  rw [Latest.read, Latest.read, List.filterMap_append, argmax_append_eq_iff]
  constructor
  · intro h row hrow a ha
    obtain ⟨b, hb, hle⟩ := h a (List.mem_filterMap.mpr ⟨row, hrow, ha⟩)
    obtain ⟨row', hrow', hb⟩ := List.mem_filterMap.mp hb
    exact ⟨row', hrow', b, hb, hle⟩
  · intro h a ha
    obtain ⟨row, hrow, ha⟩ := List.mem_filterMap.mp ha
    obtain ⟨row', hrow', b, hb, hle⟩ := h row hrow a ha
    exact ⟨b, List.mem_filterMap.mpr ⟨row', hrow', hb⟩, hle⟩

/-- What a step commits. -/
theorem step_committed {e : Event Row} (h : step stamp w e = some w') :
    (∃ tx t, e = .commit tx ∧ w.opened tx = some t ∧ w'.committed = w.committed ++ t.rows stamp) ∨
      (∀ tx, e ≠ .commit tx) ∧ w'.committed = w.committed := by
  cases e with
  | pass time =>
    cases h
    exact .inr ⟨fun tx he => (by cases he), rfl⟩
  | start tx =>
    rw [step] at h
    split at h
    · cases h
      exact .inr ⟨fun tx he => (by cases he), rfl⟩
    · cases h
  | insert tx row =>
    obtain ⟨t, -, rfl⟩ := Option.map_eq_some_iff.mp h
    exact .inr ⟨fun tx he => (by cases he), rfl⟩
  | commit tx =>
    obtain ⟨t, ht, rfl⟩ := Option.map_eq_some_iff.mp h
    exact .inl ⟨tx, t, rfl, ht, rfl⟩
  | rollback tx =>
    obtain ⟨t, -, rfl⟩ := Option.map_eq_some_iff.mp h
    exact .inr ⟨fun tx he => (by cases he), rfl⟩

/-- A step leaves what is read as it is, exactly if it commits nothing late above it. -/
theorem Latest.read_step_iff {e : Event Row} (hknown : r.KnownBy stamp cutoff) (h : step stamp w e = some w') :
    r.read w'.committed = r.read w.committed ↔ r.LateOnesBelow stamp cutoff w e := by
  rcases step_committed h with ⟨tx, t, rfl, ht, hrows⟩ | ⟨hother, hrows⟩
  · rw [hrows, Latest.read_append_eq_iff]
    constructor
    · intro hbelow tx' t' he ht' _
      cases he
      rw [ht] at ht'
      cases ht'
      exact hbelow
    · intro hbelow row hrow a ha
      refine hbelow tx t rfl ht ?_ row hrow a ha
      -- a row that the request is about was stamped by the cutoff
      obtain ⟨inserted, -, rfl⟩ := List.mem_map.mp hrow
      exact hknown t.startedAt inserted (Option.isSome_iff_exists.mpr ⟨a, ha⟩)
  · rw [hrows]
    exact iff_of_true rfl fun tx _ he _ => absurd he (hother tx)

/-- What is read as of a cutoff is the same from a moment on, exactly if no transaction that began by the
cutoff commits a row above it. -/
theorem stable_iff (hknown : r.KnownBy stamp cutoff) (events : List (Event Row)) (w : World Row) :
    Runs.AllStates (step stamp) (fun s => r.read s.committed = r.read w.committed) w events ↔
      Runs.AllSteps (step stamp) (r.LateOnesBelow stamp cutoff) w events :=
  Runs.allStates_iff_allSteps (fun _ => True) (fun _ _ _ _ _ => trivial)
    (fun s e s' _ hs hstep => by rw [← Latest.read_step_iff hknown hstep, hs]) events w trivial rfl

/-! ## Cutoffs before every open transaction -/

/-- Every open transaction began after the cutoff, which is past. -/
structure World.After (w : World Row) (cutoff : ℤ) : Prop where
  past : cutoff < w.now
  opened : ∀ tx t, w.opened tx = some t → cutoff < t.startedAt

theorem World.After.set (h : w.After cutoff) {tx : ℕ} {t : Option (OpenTx Row)}
    (ht : ∀ u, t = some u → cutoff < u.startedAt) : (w.set tx t).After cutoff := by
  refine ⟨h.past, fun tx' u hu => ?_⟩
  by_cases heq : tx' = tx
  · rw [heq, World.set_self] at hu
    exact ht u hu
  · rw [World.set_other heq] at hu
    exact h.opened tx' u hu

theorem World.After.step {e : Event Row} (h : w.After cutoff) (hstep : step stamp w e = some w') : w'.After cutoff := by
  cases e with
  | pass time =>
    cases hstep
    exact ⟨lt_of_lt_of_le h.past (Int.le_add_of_nonneg_right (Int.natCast_nonneg time)), h.opened⟩
  | start tx =>
    rw [StampedRows.step] at hstep
    split at hstep
    · cases hstep
      refine h.set fun u hu => ?_
      cases hu
      exact h.past
    · cases hstep
  | insert tx row =>
    obtain ⟨t, ht, rfl⟩ := Option.map_eq_some_iff.mp hstep
    refine h.set fun u hu => ?_
    cases hu
    exact h.opened tx t ht
  | commit tx =>
    obtain ⟨t, -, rfl⟩ := Option.map_eq_some_iff.mp hstep
    have hclosed : (w.set tx none).After cutoff := h.set fun u hu => by cases hu
    exact ⟨hclosed.past, hclosed.opened⟩
  | rollback tx =>
    obtain ⟨t, -, rfl⟩ := Option.map_eq_some_iff.mp hstep
    exact h.set fun u hu => by cases hu

/-- Once all the transactions that began by a cutoff are closed, what is read as of it stays. -/
theorem World.After.stable (hknown : r.KnownBy stamp cutoff) (h : w.After cutoff) (events : List (Event Row)) :
    Runs.AllStates (StampedRows.step stamp) (fun s => r.read s.committed = r.read w.committed) w events := by
  refine Runs.allStates_of_invariant (fun s => s.After cutoff ∧ r.read s.committed = r.read w.committed)
    (fun s e s' hs hstep => ⟨hs.1.step hstep, ?_⟩) (fun s hs => hs.2) events w ⟨h, rfl⟩
  rw [(Latest.read_step_iff hknown hstep).mpr, hs.2]
  intro tx t he ht hlate
  exact absurd (hs.1.opened tx t ht) (not_lt.mpr hlate)

end StampedRows
