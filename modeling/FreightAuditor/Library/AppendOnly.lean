import Mathlib.Data.List.Pairwise
import FreightAuditor.Library.LockedRows

/- Append-only tables with unique indexes, at READ COMMITTED.

   The database is the sequence of the rows inserted, whatever table each belongs to, in
   the order of their commits. `keys` gives the entries of a row in the unique indexes. An
   insert holds the entries of its row to the end of the transaction, and finds none of
   them taken (`Inserts`); so no two committed rows share one (`unique_commit`), and a
   transaction finds all that it has seen, in the order it has seen it (`append_outline`). -/
namespace AppendOnly

open ReadCommitted

variable {Row K E R S C : Type}

/-- A row joins the rows there are. -/
def append (db : List Row) (row : Row) : List Row := db ++ [row]

theorem view_eq (db ws : List Row) : view append db ws = db ++ ws := by
  induction ws generalizing db with
  | nil => exact (List.append_nil db).symm
  | cons w ws ih => rw [view_cons, ih, append, List.append_assoc, List.singleton_append]

section

variable (keys : Row → List K)

/-- No two rows share a key. -/
def Unique (db : List Row) : Prop := db.Pairwise fun a b => ∀ k ∈ keys a, k ∉ keys b

theorem Unique.eq_of_key {db : List Row} {keys : Row → List K} (h : Unique keys db) {a b : Row} {k : K}
    (ha : a ∈ db) (hb : b ∈ db) (hka : k ∈ keys a) (hkb : k ∈ keys b) : a = b := by
  by_contra hne
  have hsymm : Std.Symm fun a b => ∀ k ∈ keys a, k ∉ keys b := ⟨fun _ _ h k hkb hka => h k hka hkb⟩
  exact List.Pairwise.forall h ha hb hne k hka hkb

variable [DecidableEq K]

/-- The rows with a key. -/
def holders (k : K) (db : List Row) : List Row := db.filter (k ∈ keys ·)

def taken (db : List Row) (k : K) : Bool := db.any (k ∈ keys ·)

/-- `INSERT ... ON CONFLICT (target) DO NOTHING`, where a key of the target that is taken gives what
`found` makes of the rows there are. -/
def insertOr (target : List K) (violation : E) (row : Row) (found : List Row → Except E R) (inserted : R) :
    Prog (List Row) Row K E R :=
  .exec (fun _ => keys row) fun db =>
    if target.any (taken keys db) then (found db).map (·, [])
    else if (keys row).any (taken keys db) then .error violation
    else .ok (inserted, [row])

/-- The same; `true` where the row went in. -/
def insertUnless (target : List K) (violation : E) (row : Row) : Prog (List Row) Row K E Bool :=
  insertOr keys target violation row (fun _ => .ok false) true

end

variable {keys : Row → List K} [DecidableEq K] {db db' : List Row} {k : K}

theorem holders_append : holders keys k (db ++ db') = holders keys k db ++ holders keys k db' :=
  List.filter_append ..

theorem taken_eq_false : taken keys db k = false ↔ ∀ row ∈ db, k ∉ keys row := by
  simp [taken]

theorem taken_eq_true : taken keys db k = true ↔ ∃ row ∈ db, k ∈ keys row := by
  simp [taken]

theorem not_taken {row : Row} (h : taken keys db k = false) (hrow : row ∈ db) : k ∉ keys row :=
  taken_eq_false.mp h row hrow

theorem holders_eq_nil : holders keys k db = [] ↔ taken keys db k = false := by
  rw [taken_eq_false, holders, List.filter_eq_nil_iff]
  simp

/-- Looking for the only element that a test accepts. -/
theorem find?_unique {α : Type} {l : List α} {p : α → Bool} {a : α} (ha : a ∈ l) (hp : p a = true)
    (h : ∀ b ∈ l, p b = true → b = a) : l.find? p = some a := by
  cases hfind : l.find? p with
  | none => exact absurd hp (by simpa using List.find?_eq_none.mp hfind a ha)
  | some b => rw [h b (List.mem_of_find?_eq_some hfind) (List.find?_some hfind)]

/-- A row and those before it are among the first rows, or the row comes after all of them. -/
theorem prefix_append_cases {before ws : List Row} {db : List Row} {row : Row} (h : before ++ [row] <+: db ++ ws) :
    before ++ [row] <+: db ∨ ∃ ws₁, before = db ++ ws₁ ∧ ws₁ ++ [row] <+: ws := by
  rcases Nat.lt_or_ge db.length (before ++ [row]).length with hlt | hle
  · rw [List.length_append, List.length_singleton] at hlt
    obtain ⟨ws₁, rfl⟩ : db <+: before := List.prefix_of_prefix_length_le (List.prefix_append db ws)
      ((List.prefix_append before [row]).trans h) (by omega)
    refine .inr ⟨ws₁, rfl, ?_⟩
    rwa [List.append_assoc, List.prefix_append_right_inj] at h
  · exact .inl (List.prefix_of_prefix_length_le h (List.prefix_append db ws) hle)

/-- The rows of one table, tagged by `tag`. -/
theorem mem_table {α : Type} {tag : α → Row} {table : Row → Option α}
    (h : ∀ row a, table row = some a ↔ row = tag a) {db : List Row} {a : α} :
    a ∈ db.filterMap table ↔ tag a ∈ db := by
  rw [List.mem_filterMap]
  constructor
  · rintro ⟨row, hrow, hrowa⟩
    exact (h row a).mp hrowa ▸ hrow
  · exact fun hmem => ⟨tag a, hmem, (h _ a).mpr rfl⟩

/-! ## What a body inserts -/

/-- Every row is of an allowed kind, and goes in under the lock of its keys, where none of them is taken. -/
def Inserts (keys : Row → List K) (allowed : Row → Prop) : Prog (List Row) Row K E R → Prop
  | .done _ => True
  | .fail _ => True
  | .stmt locks writes next => ∀ db,
    (∀ w ∈ writes db, allowed w ∧ ∀ k ∈ keys w, k ∈ locks db ∧ taken keys db k = false) ∧ Unique keys (writes db) ∧
      Inserts keys allowed (next db)

section

variable {allowed : Row → Prop}

theorem inserts_bind {p : Prog (List Row) Row K E R} {f : R → Prog (List Row) Row K E S} (hp : Inserts keys allowed p)
    (hf : ∀ r, Inserts keys allowed (f r)) : Inserts keys allowed (p >>= f) := by
  change Inserts keys allowed (p.bind f)
  induction p with
  | done r => exact hf r
  | fail e => trivial
  | stmt locks writes next ih => exact fun db => ⟨(hp db).1, (hp db).2.1, ih db (hp db).2.2⟩

theorem inserts_pure {r : R} : Inserts keys allowed (pure r : Prog (List Row) Row K E R) := trivial

theorem inserts_query {f : List Row → R} : Inserts keys allowed (.query f : Prog (List Row) Row K E R) :=
  fun _ => ⟨fun _ hw => absurd hw List.not_mem_nil, List.Pairwise.nil, trivial⟩

theorem inserts_ofExcept {x : Except E R} : Inserts keys allowed (.ofExcept x : Prog (List Row) Row K E R) := by
  cases x <;> trivial

theorem inserts_insertOr {target : List K} {violation : E} {row : Row} {found : List Row → Except E R}
    {inserted : R} (hrow : allowed row) : Inserts keys allowed (insertOr keys target violation row found inserted) := by
  intro db
  dsimp only
  by_cases htarget : target.any (taken keys db)
  · rw [if_pos htarget]
    cases found db with
    | error e => exact ⟨fun _ hw => absurd hw List.not_mem_nil, List.Pairwise.nil, trivial⟩
    | ok r => exact ⟨fun _ hw => absurd hw List.not_mem_nil, List.Pairwise.nil, trivial⟩
  rw [if_neg htarget]
  by_cases hkeys : (keys row).any (taken keys db)
  · rw [if_pos hkeys]
    exact ⟨fun _ hw => absurd hw List.not_mem_nil, List.Pairwise.nil, trivial⟩
  · rw [if_neg hkeys]
    refine ⟨fun w hw => ?_, List.pairwise_singleton _ _, trivial⟩
    obtain rfl := List.mem_singleton.mp hw
    refine ⟨hrow, fun k hk => ?_⟩
    exact ⟨hk, by simpa using (List.any_eq_false.mp (Bool.not_eq_true _ ▸ hkeys)) k hk⟩

theorem inserts_insertUnless {target : List K} {violation : E} {row : Row} (hrow : allowed row) :
    Inserts keys allowed (insertUnless keys target violation row) := inserts_insertOr hrow

theorem covered_insertOr {Cov : List K → Row → Prop} {target : List K} {violation : E} {row : Row}
    {found : List Row → Except E R} {inserted : R} (hrow : Cov (keys row) row) :
    Covered Cov (insertOr keys target violation row found inserted) := by
  refine covered_exec fun db r ws hf w hw => ?_
  split at hf
  · cases hfound : found db with
    | error e => rw [hfound] at hf; cases hf
    | ok r' =>
      rw [hfound] at hf
      cases hf
      cases hw
  · split at hf
    · cases hf
    · cases hf
      obtain rfl := List.mem_singleton.mp hw
      exact hrow

theorem inserts_forM {A : Type} {f : A → Prog (List Row) Row K E PUnit} {as : List A}
    (hf : ∀ a ∈ as, Inserts keys allowed (f a)) : Inserts keys allowed (as.forM f) := by
  induction as with
  | nil => exact inserts_pure
  | cons a rest ih =>
    exact inserts_bind (hf a List.mem_cons_self) fun _ => ih fun b hb => hf b (List.mem_cons_of_mem _ hb)

/-- All that a transaction inserts is allowed. -/
theorem Inserts.writes {p : Prog (List Row) Row K E R} (hp : Inserts keys allowed p) {log log' : Log (List Row) Row K}
    {r : R} (h : Ends append p log r log') (hlog : ∀ w ∈ log.writes, allowed w) : ∀ w ∈ log'.writes, allowed w := by
  induction p generalizing log with
  | done r' =>
    obtain ⟨-, rfl⟩ := h
    exact hlog
  | fail e => exact h.elim
  | stmt locks writes next ih =>
    obtain ⟨s, h⟩ := h
    obtain ⟨hnew, -, hnext⟩ := hp (view append s log.writes)
    refine ih _ hnext h fun w hw => ?_
    rcases List.mem_append.mp hw with hw | hw
    · exact hlog w hw
    · exact (hnew w hw).1

end

/-- A key of the target is taken, or the row is new. -/
theorem insertOr_ok {target : List K} {violation : E} {row : Row} {found : List Row → Except E R} {inserted r : R}
    {ws : List Row} :
    (if target.any (taken keys db) then (found db).map (·, [])
      else if (keys row).any (taken keys db) then .error violation
      else .ok (inserted, [row])) = Except.ok (r, ws) ↔
      found db = .ok r ∧ (∃ k ∈ target, taken keys db k = true) ∧ ws = [] ∨
        r = inserted ∧ (∀ k ∈ target ++ keys row, taken keys db k = false) ∧ ws = [row] := by
  by_cases htarget : target.any (taken keys db)
  · have hsome := List.any_eq_true.mp htarget
    rw [if_pos htarget]
    constructor
    · intro h
      cases hf : found db with
      | error e => rw [hf] at h; cases h
      | ok r' =>
        rw [hf] at h
        cases h
        exact .inl ⟨rfl, hsome, rfl⟩
    · rintro (⟨hfound, -, rfl⟩ | ⟨-, hfree, -⟩)
      · rw [hfound]
        rfl
      · obtain ⟨k, hk, hkt⟩ := hsome
        rw [hfree k (List.mem_append_left _ hk)] at hkt
        cases hkt
  have hnone : ∀ k ∈ target, taken keys db k = false := by simpa using htarget
  have hnot : ¬ ∃ k ∈ target, taken keys db k = true := by
    rintro ⟨k, hk, hkt⟩
    rw [hnone k hk] at hkt
    cases hkt
  rw [if_neg htarget]
  by_cases hkeys : (keys row).any (taken keys db)
  · rw [if_pos hkeys]
    constructor
    · intro h
      cases h
    · rintro (⟨-, hsome, -⟩ | ⟨-, hfree, -⟩)
      · exact absurd hsome hnot
      · obtain ⟨k, hk, hkt⟩ := List.any_eq_true.mp hkeys
        rw [hfree k (List.mem_append_right _ hk)] at hkt
        cases hkt
  · have hfree : ∀ k ∈ target ++ keys row, taken keys db k = false := by
      intro k hk
      rcases List.mem_append.mp hk with hk | hk
      · exact hnone k hk
      · simpa using (List.any_eq_false.mp (Bool.not_eq_true _ ▸ hkeys)) k hk
    rw [if_neg hkeys]
    constructor
    · intro h
      cases h
      exact .inr ⟨rfl, hfree, rfl⟩
    · rintro (⟨-, hsome, -⟩ | ⟨rfl, -, rfl⟩)
      · exact absurd hsome hnot
      · rfl

theorem ends_insertOr {target : List K} {violation : E} {row : Row} {found : List Row → Except E R} {inserted r : R}
    {log log' : Log (List Row) Row K} :
    Ends append (insertOr keys target violation row found inserted) log r log' ↔
      ∃ db, (found (db ++ log.writes) = .ok r ∧ (∃ k ∈ target, taken keys (db ++ log.writes) k = true) ∧
          log' = log.add db (keys row) []) ∨
        (r = inserted ∧ (∀ k ∈ target ++ keys row, taken keys (db ++ log.writes) k = false) ∧
          log' = log.add db (keys row) [row]) := by
  simp only [insertOr, ends_exec, view_eq]
  refine exists_congr fun db => ?_
  simp only [insertOr_ok]
  constructor
  · rintro ⟨ws, ⟨hfound, hsome, rfl⟩ | ⟨hr, hfree, rfl⟩, rfl⟩
    · exact .inl ⟨hfound, hsome, rfl⟩
    · exact .inr ⟨hr, hfree, rfl⟩
  · rintro (⟨hfound, hsome, rfl⟩ | ⟨hr, hfree, rfl⟩)
    · exact ⟨[], .inl ⟨hfound, hsome, rfl⟩, rfl⟩
    · exact ⟨[row], .inr ⟨hr, hfree, rfl⟩, rfl⟩

/-- All that the log has seen and written is among the rows. -/
structure Within (rows : List Row) (log : Log (List Row) Row K) : Prop where
  seen : ∀ s ∈ log.seen, s.1 ⊆ rows
  writes : log.writes ⊆ rows

section

omit [DecidableEq K]

variable {rows : List Row} {log log' : Log (List Row) Row K}

/-- What a statement sees, the log keeps. -/
theorem mem_seen_add (log : Log (List Row) Row K) (s : List Row) (locks : List K) (ws : List Row) :
    (s, log.held ++ locks) ∈ (log.add s locks ws).seen := List.mem_append_right _ (List.mem_singleton_self _)

theorem Within.before (h : Within rows log') (hext : log'.Extends log) : Within rows log :=
  ⟨fun s hs => h.seen s (hext.seen.subset hs), fun _ hw => h.writes (hext.writes.subset hw)⟩

theorem Within.view {s : List Row} {locks : List K} {ws : List Row} (h : Within rows (log.add s locks ws)) :
    s ++ log.writes ⊆ rows := by
  refine List.append_subset.mpr ⟨h.seen (s, _) (List.mem_append_right _ (List.mem_singleton_self _)), ?_⟩
  exact fun _ hw => h.writes (List.mem_append_left _ hw)

end

theorem taken_mono {rows : List Row} (hsub : db ⊆ rows) (h : taken keys db k = true) : taken keys rows k = true := by
  obtain ⟨row, hrow, hk⟩ := taken_eq_true.mp h
  exact taken_eq_true.mpr ⟨row, hsub hrow, hk⟩

/-- What an insert did, seen from rows that hold all of it. -/
theorem insertUnless_within {target : List K} {violation : E} {row : Row} {rows : List Row}
    {log log' : Log (List Row) Row K} {r : Bool} (h : Ends append (insertUnless keys target violation row) log r log')
    (hin : Within rows log') :
    (r = true ∧ row ∈ rows ∧ log'.writes = log.writes ++ [row]) ∨
      (r = false ∧ (∃ k ∈ target, taken keys rows k = true) ∧ log'.writes = log.writes) := by
  obtain ⟨s, ⟨hr, ⟨k, hk, htaken⟩, rfl⟩ | ⟨rfl, -, rfl⟩⟩ := ends_insertOr.mp h
  · exact .inr ⟨(Except.ok.inj hr).symm, ⟨k, hk, taken_mono hin.view htaken⟩, List.append_nil _⟩
  · exact .inl ⟨rfl, hin.writes (List.mem_append_right _ (List.mem_singleton_self _)), rfl⟩

/-! ## One call at a time -/

/-- With nothing in between, a key of the target is taken or the row is new. -/
theorem alone_insertOr {target : List K} {violation : E} {row : Row} {found : List Row → Except E R} {inserted r : R}
    {log log' : Log (List Row) Row K}
    (h : alone append db (insertOr keys target violation row found inserted) log = .ok (r, log')) :
    (found (db ++ log.writes) = .ok r ∧ (∃ k ∈ target, taken keys (db ++ log.writes) k = true) ∧
        log'.writes = log.writes) ∨
      (r = inserted ∧ (∀ k ∈ target ++ keys row, taken keys (db ++ log.writes) k = false) ∧
        log'.writes = log.writes ++ [row]) := by
  rw [insertOr, alone_exec_ok] at h
  obtain ⟨ws, hrow, rfl⟩ := h
  simp only [view_eq, insertOr_ok] at hrow
  obtain ⟨hfound, hsome, rfl⟩ | ⟨hr, hfree, rfl⟩ := hrow
  · exact .inl ⟨hfound, hsome, List.append_nil _⟩
  · exact .inr ⟨hr, hfree, rfl⟩

/-- Run alone, the body returns `r` and inserts nothing. -/
def Finds (db : List Row) (p : Prog (List Row) Row K E R) (r : R) : Prop :=
  ∀ log : Log (List Row) Row K, log.writes = [] →
    ∃ log', alone append db p log = .ok (r, log') ∧ log'.writes = []

section

omit [DecidableEq K]

theorem Finds.pure (r : R) : Finds db (Pure.pure r : Prog (List Row) Row K E R) r := fun log hlog => ⟨log, rfl, hlog⟩

theorem Finds.bind {p : Prog (List Row) Row K E R} {f : R → Prog (List Row) Row K E S} {r : R} {s : S}
    (hp : Finds db p r) (hf : Finds db (f r) s) : Finds db (p >>= f) s := by
  intro log hlog
  obtain ⟨mid, hrun, hmid⟩ := hp log hlog
  obtain ⟨last, hrun', hlast⟩ := hf mid hmid
  refine ⟨last, ?_, hlast⟩
  rw [alone_bind, hrun]
  exact hrun'

theorem Finds.query (f : List Row → R) : Finds db (Prog.query f : Prog (List Row) Row K E R) (f db) := by
  intro log hlog
  refine ⟨log.add db [] [], ?_, by rw [Log.add_writes, hlog]; rfl⟩
  rw [alone_query, view_eq, hlog, List.append_nil]

end

/-- An insert whose target is taken. -/
theorem Finds.insertOr {target : List K} {violation : E} {row : Row} {found : List Row → Except E R} {inserted r : R}
    (h : ∃ k ∈ target, taken keys db k = true) (hfound : found db = .ok r) :
    Finds db (insertOr keys target violation row found inserted) r := by
  intro log hlog
  have htarget : target.any (taken keys db) = true := List.any_eq_true.mpr h
  refine ⟨log.add db (keys row) [], ?_, by rw [Log.add_writes, hlog]; rfl⟩
  simp only [AppendOnly.insertOr, Prog.exec, alone, view_eq, hlog, List.append_nil, htarget, if_true, hfound]
  rfl

/-! ## What a transaction can count on -/

variable (keys) in
/-- The rows with the key are the same. -/
def Same (k : K) (db db' : List Row) : Prop := holders keys k db' = holders keys k db

def Grows (db db' : List Row) : Prop := db <+: db'

theorem append_parts : Parts append (Same keys) Grows where
  refl := fun _ _ => rfl
  trans := fun _ _ _ _ h h' => h'.trans h
  grows_refl := fun _ => List.prefix_rfl
  grows_trans := fun _ _ _ h h' => List.IsPrefix.trans h h'
  grows_apply := fun _ _ => List.prefix_append ..

theorem guarded_keys (row : Row) : Guarded append (Same keys) (keys row) row := by
  intro k hk db
  have hnone : holders keys k [row] = [] := by simp [holders, hk]
  rw [Same, append, holders_append, hnone, List.append_nil]

theorem Inserts.covered {allowed : Row → Prop} {p : Prog (List Row) Row K E R} (h : Inserts keys allowed p) :
    Covered (Guarded append (Same keys)) p := by
  induction p with
  | done r => trivial
  | fail e => trivial
  | stmt locks writes next ih =>
    intro db
    obtain ⟨hkeys, -, hnext⟩ := h db
    exact ⟨fun w hw => guarded_mono (fun k hk => ((hkeys w hw).2 k hk).1) (guarded_keys w), ih db hnext⟩

/-- What a transaction has seen, it has seen of a beginning of the rows now committed. -/
abbrev Since (keys : Row → List K) : List K → List Row → List Row → Prop := Kept (Same keys) Grows

theorem unique_ends {allowed : Row → Prop} {p : Prog (List Row) Row K E R} {r : R} {log log' : Log (List Row) Row K}
    (hp : Inserts keys allowed p)
    (h : Ends append p log r log') (hseen : ∀ s ∈ log'.seen, Since keys s.2 s.1 db)
    (hfresh : ∀ w ∈ log.writes, ∀ k ∈ keys w, taken keys db k = false) (hunique : Unique keys log.writes) :
    (∀ w ∈ log'.writes, ∀ k ∈ keys w, taken keys db k = false) ∧ Unique keys log'.writes := by
  induction p generalizing log with
  | done r' =>
    obtain ⟨-, rfl⟩ := h
    exact ⟨hfresh, hunique⟩
  | fail e => exact h.elim
  | stmt locks writes next ih =>
    obtain ⟨s, h⟩ := h
    obtain ⟨hkeys, hwrites, hnext⟩ := hp (view append s log.writes)
    have hs : Since keys (log.held ++ locks (view append s log.writes)) s db :=
      hseen (s, _) (h.extends.seen.subset (List.mem_append_right _ (List.mem_singleton_self _)))
    -- a key taken now was not taken in the snapshot, nor by an earlier insert
    have hfree : ∀ w ∈ writes (view append s log.writes), ∀ k ∈ keys w, taken keys db k = false ∧
        ∀ v ∈ log.writes, k ∉ keys v := by
      intro w hw k hk
      obtain ⟨hlock, htaken⟩ := (hkeys w hw).2 k hk
      rw [view_eq, taken_eq_false] at htaken
      refine ⟨?_, fun v hv => htaken v (List.mem_append_right _ hv)⟩
      have hsame : holders keys k db = holders keys k s := hs.same k (List.mem_append_right _ hlock)
      rw [← holders_eq_nil, hsame, holders_eq_nil, taken_eq_false]
      exact fun v hv => htaken v (List.mem_append_left _ hv)
    refine ih _ hnext h (fun w hw => ?_) ?_
    · rcases List.mem_append.mp hw with hw | hw
      · exact hfresh w hw
      · exact fun k hk => (hfree w hw k hk).1
    · refine List.pairwise_append.mpr ⟨hunique, hwrites, fun v hv w hw k hkv hkw => ?_⟩
      exact (hfree w hw k hkw).2 v hv hkv

section

variable {sys : System (List Row) Row K E R C} {Good : List Row → Prop} {call : C} {i startedAt : ℕ} {r : R}
  {log : Log (List Row) Row K} {allowed : Row → Prop}

/-- What a commit saw is a beginning of what it finds. -/
theorem seen_initial (h : Commit sys Good (Since keys) db call i startedAt r log) {s : List Row × List K}
    (hs : s ∈ log.seen) : s.1 <+: db := (h.seen s hs).2.grows

theorem commit_within (h : Commit sys Good (Since keys) db call i startedAt r log) :
    Within (db ++ log.writes) log :=
  ⟨fun _ hs => List.Subset.trans (seen_initial h hs).subset (List.subset_append_left _ _),
    List.subset_append_right _ _⟩

/-- A commit leaves the keys unique. -/
theorem unique_commit (happly : sys.apply = append) (hinserts : Inserts keys allowed (sys.body call i startedAt))
    (h : Commit sys Good (Since keys) db call i startedAt r log) (hunique : Unique keys db) :
    (∀ w ∈ log.writes, ∀ k ∈ keys w, taken keys db k = false) ∧ Unique keys (db ++ log.writes) := by
  have hends : Ends append (sys.body call i startedAt) .empty r log := happly ▸ h.ends
  obtain ⟨hfresh, hwrites⟩ := unique_ends hinserts hends (fun s hs => (h.seen s hs).2)
    (fun w hw => absurd hw List.not_mem_nil) List.Pairwise.nil
  refine ⟨hfresh, List.pairwise_append.mpr ⟨hunique, hwrites, fun v hv w hw k hkv hkw => ?_⟩⟩
  exact taken_eq_false.mp (hfresh w hw k hkw) v hv hkv

/-- A system of such bodies, with an invariant that its commits keep. -/
theorem append_outline (happly : sys.apply = append)
    (hinserts : ∀ call i startedAt, Inserts keys allowed (sys.body call i startedAt))
    (hgood : ∀ db call i startedAt r log, Commit sys Good (Since keys) db call i startedAt r log →
      Good (db ++ log.writes)) :
    Outline sys Good (Since keys) (fun _ _ _ => True) := by
  refine outline ?_ (fun call i startedAt => ?_) fun db call i startedAt r log h => ?_
  · rw [happly]
    exact append_parts
  · rw [happly]
    exact (hinserts call i startedAt).covered
  · rw [happly, view_eq]
    exact hgood db call i startedAt r log h

end

end AppendOnly
