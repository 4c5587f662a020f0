import FreightAuditor.Library.ReadCommitted

/- Rows that stand still while their lock is held.

   `Same k db db'` says that the rows under the lock `k` are in `db'` what they are in
   `db`, and `Grows db db'` what no write ever undoes. Where every statement holds the
   locks of the rows it changes (`Guarded`), a transaction finds the rows under its locks
   as it left them (`outline`). -/
namespace ReadCommitted

variable {DB W K E R C : Type}

section

variable (apply : DB → W → DB) (Same : K → DB → DB → Prop) (Grows : DB → DB → Prop)

/-- The write changes only rows under these locks. -/
def Guarded (locks : List K) (w : W) : Prop := ∀ k, k ∉ locks → ∀ db, Same k db (apply db w)

/-- What a transaction can count on that has held the locks since it saw `db`. -/
structure Kept (held : List K) (db db' : DB) : Prop where
  same : ∀ k ∈ held, Same k db db'
  grows : Grows db db'

/-- What the two relations have to satisfy. -/
structure Parts : Prop where
  refl : ∀ k db, Same k db db
  trans : ∀ k db db' db'', Same k db db' → Same k db' db'' → Same k db db''
  grows_refl : ∀ db, Grows db db
  grows_trans : ∀ db db' db'', Grows db db' → Grows db' db'' → Grows db db''
  grows_apply : ∀ db w, Grows db (apply db w)

end

variable {apply : DB → W → DB} {Same : K → DB → DB → Prop} {Grows : DB → DB → Prop}

theorem guarded_mono {locks locks' : List K} {w : W} (hsub : ∀ k ∈ locks, k ∈ locks')
    (hw : Guarded apply Same locks w) : Guarded apply Same locks' w :=
  fun k hk db => hw k (fun hmem => hk (hsub k hmem)) db

theorem Covered.mono {Cov Cov' : List K → W → Prop} (hmono : ∀ locks w, Cov locks w → Cov' locks w)
    {p : Prog DB W K E R} (hp : Covered Cov p) : Covered Cov' p := by
  induction p with
  | done r => trivial
  | fail e => trivial
  | stmt locks writes next ih => exact fun db => ⟨fun w hw => hmono _ _ ((hp db).1 w hw), ih db (hp db).2⟩

theorem covered_forM {Cov : List K → W → Prop} {A : Type} {f : A → Prog DB W K E PUnit} {as : List A}
    (hf : ∀ a ∈ as, Covered Cov (f a)) : Covered Cov (as.forM f) := by
  induction as with
  | nil => exact covered_pure
  | cons a rest ih =>
    exact covered_bind (hf a List.mem_cons_self) fun _ => ih fun b hb => hf b (List.mem_cons_of_mem _ hb)

theorem forM_split_from {A : Type} {f : A → Prog DB W K E PUnit} {as : List A}
    {P : List A → Log DB W K → Prop} {Q : DB × List K → Prop}
    (hstep : ∀ done a todo, done ++ a :: todo = as → ∀ log log', P done log → Ends apply (f a) log ⟨⟩ log' →
      (∀ p ∈ log'.seen, Q p) → P (done ++ [a]) log') :
    ∀ (todo done : List A) {log log' : Log DB W K}, done ++ todo = as → P done log →
      Ends apply (todo.forM f) log ⟨⟩ log' → (∀ p ∈ log'.seen, Q p) → P as log'
  | [], done, log, log', has, hP, h, _ => by
    obtain ⟨-, rfl⟩ := h
    rwa [← has, List.append_nil]
  | a :: todo, done, log, log', has, hP, h, hQ => by
    obtain ⟨⟨⟩, mid, ha, h⟩ := ends_bind.mp (h : Ends apply (f a >>= fun _ => todo.forM f) log ⟨⟩ log')
    have hmid := hstep done a todo has log mid hP ha fun p hp => hQ p (h.extends.seen.subset hp)
    exact forM_split_from hstep todo (done ++ [a]) (by rw [List.append_assoc]; exact has) hmid h hQ

/-- The rule for a loop whose step needs to know the elements still to come. -/
theorem Ends.forM_split {A : Type} {f : A → Prog DB W K E PUnit} {as : List A}
    {P : List A → Log DB W K → Prop} {Q : DB × List K → Prop}
    (hstep : ∀ done a todo, done ++ a :: todo = as → ∀ log log', P done log → Ends apply (f a) log ⟨⟩ log' →
      (∀ p ∈ log'.seen, Q p) → P (done ++ [a]) log')
    {log log' : Log DB W K} (hP : P [] log) (h : Ends apply (as.forM f) log ⟨⟩ log') (hQ : ∀ p ∈ log'.seen, Q p) :
    P as log' :=
  forM_split_from hstep as [] rfl hP h hQ

/-- What a finished body has written, it has written under the locks it holds. -/
theorem guarded_ends {p : Prog DB W K E R} (hp : Covered (Guarded apply Same) p) {r : R} {log : Log DB W K}
    (h : Ends apply p .empty r log) : ∀ w ∈ log.writes, Guarded apply Same log.held w := by
  have hmono : ∀ ks ks' w, (∀ k ∈ ks, k ∈ ks') → Guarded apply Same ks w → Guarded apply Same ks' w :=
    fun _ _ _ hsub hw => guarded_mono hsub hw
  exact hp.ends hmono h (fun w hw => absurd hw List.not_mem_nil)

namespace Parts

variable (parts : Parts apply Same Grows)

include parts

theorem grows_view (db : DB) (ws : List W) : Grows db (view apply db ws) := by
  induction ws generalizing db with
  | nil => exact parts.grows_refl db
  | cons w ws ih => exact parts.grows_trans _ _ _ (parts.grows_apply db w) (ih (apply db w))

theorem same_view {k : K} {db : DB} {ws : List W} (hws : ∀ w ∈ ws, ∀ db, Same k db (apply db w)) :
    Same k db (view apply db ws) := by
  induction ws generalizing db with
  | nil => exact parts.refl k db
  | cons w ws ih =>
    exact parts.trans _ _ _ _ (hws w List.mem_cons_self db) (ih fun v hv => hws v (List.mem_cons_of_mem _ hv))

theorem kept_refl (held : List K) (db : DB) : Kept Same Grows held db db :=
  ⟨fun k _ => parts.refl k db, parts.grows_refl db⟩

/-- Writes under locks disjoint from those held. -/
theorem kept_view {held locks : List K} {s db : DB} {ws : List W} (h : Kept Same Grows held s db)
    (hws : ∀ w ∈ ws, Guarded apply Same locks w) (hdisjoint : ∀ k ∈ held, k ∉ locks) :
    Kept Same Grows held s (view apply db ws) := by
  constructor
  · intro k hk
    exact parts.trans _ _ _ _ (h.same k hk) (parts.same_view fun w hw => hws w hw k (hdisjoint k hk))
  · exact parts.grows_trans _ _ _ h.grows (parts.grows_view db ws)

end Parts

/-- A system whose statements hold the locks of what they change, with an invariant that its commits
keep. -/
theorem outline {sys : System DB W K E R C} (parts : Parts sys.apply Same Grows)
    (hcovered : ∀ call i startedAt, Covered (Guarded sys.apply Same) (sys.body call i startedAt))
    {Good : DB → Prop}
    (hgood : ∀ db call i startedAt r log, Commit sys Good (Kept Same Grows) db call i startedAt r log →
      Good (view sys.apply db log.writes)) :
    Outline sys Good (Kept Same Grows) (fun _ _ _ => True) where
  refl := parts.kept_refl
  good := fun db call i startedAt r log h _ => hgood db call i startedAt r log h
  rely := fun _ _ _ _ _ _ h _ _ hdisjoint hkept =>
    parts.kept_view hkept (guarded_ends (hcovered _ _ _) h.ends) hdisjoint

end ReadCommitted
