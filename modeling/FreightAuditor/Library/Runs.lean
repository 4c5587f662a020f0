/- Runs of a system given by a step function.

   `step s e` is the state after event `e`, or `none` where `e` is refused. A run is a
   list of events. `AllStates` says that every state along it has a property, `AllSteps`
   that every step along it meets a condition on the state before and the event.

   Two rules connect them: `allStates_of_allSteps` derives the states' property from an
   invariant kept by the steps that meet the condition, and `allStates_iff_allSteps`
   makes the condition exact, from what one step does. -/
namespace Runs

variable {S E : Type}

section

variable (step : S → E → Option S)

/-- The state after all the events, if none is refused. -/
def final (s : S) (events : List E) : Option S := events.foldlM step s

/-- Every state reached along the run, the first included, has the property. -/
def AllStates (P : S → Prop) : S → List E → Prop
  | s, [] => P s
  | s, e :: rest => P s ∧ ∀ s', step s e = some s' → AllStates P s' rest

/-- Every step along the run meets the condition. -/
def AllSteps (G : S → E → Prop) : S → List E → Prop
  | _, [] => True
  | s, e :: rest => ∀ s', step s e = some s' → G s e ∧ AllSteps G s' rest

instance instDecidableAllStates (P : S → Prop) [DecidablePred P] : ∀ s events, Decidable (AllStates step P s events)
  | s, [] => inferInstanceAs (Decidable (P s))
  | s, e :: rest =>
    match h : step s e with
    | none => decidable_of_iff (P s) (by simp [AllStates, h])
    | some s' =>
      have := instDecidableAllStates P s' rest
      decidable_of_iff (P s ∧ AllStates step P s' rest) (by simp [AllStates, h])

instance instDecidableAllSteps (G : S → E → Prop) [∀ s e, Decidable (G s e)] : ∀ s events, Decidable (AllSteps step G s events)
  | _, [] => .isTrue trivial
  | s, e :: rest =>
    match h : step s e with
    | none => .isTrue (by simp [AllSteps, h])
    | some s' =>
      have := instDecidableAllSteps G s' rest
      decidable_of_iff (G s e ∧ AllSteps step G s' rest) (by simp [AllSteps, h])

end

variable {step : S → E → Option S}

theorem AllStates.head {P : S → Prop} {s : S} {events : List E} (h : AllStates step P s events) :
    P s := by
  cases events with
  | nil => exact h
  | cons e rest => exact h.1

theorem AllStates.mono {P Q : S → Prop} (hPQ : ∀ s, P s → Q s) {events : List E} :
    ∀ {s : S}, AllStates step P s events → AllStates step Q s events := by
  induction events with
  | nil => exact fun h => hPQ _ h
  | cons e rest ih => exact fun h => ⟨hPQ _ h.1, fun s' hs' => ih (h.2 s' hs')⟩

/-- What holds of every state along a run holds of its last one. -/
theorem AllStates.final {P : S → Prop} {events : List E} :
    ∀ {s t : S}, AllStates step P s events → Runs.final step s events = some t → P t := by
  induction events with
  | nil =>
    intro s t h hf
    cases hf
    exact h
  | cons e rest ih =>
    intro s t h hf
    rw [Runs.final, List.foldlM_cons] at hf
    cases hstep : step s e with
    | none => rw [hstep] at hf; cases hf
    | some s' =>
      rw [hstep] at hf
      exact ih (h.2 s' hstep) hf

theorem allSteps_true (s : S) (events : List E) : AllSteps step (fun _ _ => True) s events := by
  induction events generalizing s with
  | nil => trivial
  | cons e rest ih => exact fun s' _ => ⟨trivial, ih s'⟩

/-- An invariant kept by the steps that meet the condition gives the property of every state. -/
theorem allStates_of_allSteps {P : S → Prop} {G : S → E → Prop} (Inv : S → Prop)
    (hstep : ∀ s e s', Inv s → G s e → step s e = some s' → Inv s') (hP : ∀ s, Inv s → P s)
    (events : List E) : ∀ s, Inv s → AllSteps step G s events → AllStates step P s events := by
  induction events with
  | nil => exact fun s hs _ => hP s hs
  | cons e rest ih =>
    intro s hs h
    refine ⟨hP s hs, fun s' hs' => ?_⟩
    obtain ⟨hG, hrest⟩ := h s' hs'
    exact ih s' (hstep s e s' hs hG hs') hrest

/-- An invariant of all steps. -/
theorem allStates_of_invariant {P : S → Prop} (Inv : S → Prop)
    (hstep : ∀ s e s', Inv s → step s e = some s' → Inv s') (hP : ∀ s, Inv s → P s)
    (events : List E) (s : S) (hs : Inv s) : AllStates step P s events := by
  refine allStates_of_allSteps (G := fun _ _ => True) Inv (fun s e s' h _ => hstep s e s' h) hP events s hs ?_
  exact allSteps_true s events

/-- If, from a state with the property, a step keeps it and meets `F` exactly where it meets `G`, then
every state along a run has the property and every step meets `F` exactly when every step meets `G`. -/
theorem allStates_and_allSteps_iff {P : S → Prop} {F G : S → E → Prop} (Inv : S → Prop)
    (hinv : ∀ s e s', Inv s → step s e = some s' → Inv s')
    (hexact : ∀ s e s', Inv s → P s → step s e = some s' → (P s' ∧ F s e ↔ G s e)) (events : List E) :
    ∀ s, Inv s → P s →
      (AllStates step P s events ∧ AllSteps step F s events ↔ AllSteps step G s events) := by
  induction events with
  | nil => exact fun s _ hP => ⟨fun _ => trivial, fun _ => ⟨hP, trivial⟩⟩
  | cons e rest ih =>
    intro s hs hP
    constructor
    · rintro ⟨hstates, hsteps⟩ s' hs'
      have hP' : P s' := (hstates.2 s' hs').head
      obtain ⟨hF, hrest⟩ := hsteps s' hs'
      exact ⟨(hexact s e s' hs hP hs').mp ⟨hP', hF⟩,
        (ih s' (hinv s e s' hs hs') hP').mp ⟨hstates.2 s' hs', hrest⟩⟩
    · intro h
      have hnext : ∀ s', step s e = some s' →
          AllStates step P s' rest ∧ F s e ∧ AllSteps step F s' rest := by
        intro s' hs'
        obtain ⟨hG, hrest⟩ := h s' hs'
        obtain ⟨hP', hF⟩ := (hexact s e s' hs hP hs').mpr hG
        obtain ⟨hstates, hsteps⟩ := (ih s' (hinv s e s' hs hs') hP').mpr hrest
        exact ⟨hstates, hF, hsteps⟩
      exact ⟨⟨hP, fun s' hs' => (hnext s' hs').1⟩, fun s' hs' => (hnext s' hs').2⟩

/-- The same without a condition on steps. -/
theorem allStates_iff_allSteps {P : S → Prop} {G : S → E → Prop} (Inv : S → Prop)
    (hinv : ∀ s e s', Inv s → step s e = some s' → Inv s')
    (hexact : ∀ s e s', Inv s → P s → step s e = some s' → (P s' ↔ G s e)) (events : List E)
    (s : S) (hs : Inv s) (hP : P s) : AllStates step P s events ↔ AllSteps step G s events := by
  have h := allStates_and_allSteps_iff (F := fun _ _ => True) Inv hinv
    (fun s e s' hi hp hst => by rw [and_true]; exact hexact s e s' hi hp hst) events s hs hP
  exact ⟨fun hstates => h.mp ⟨hstates, allSteps_true s events⟩, fun hsteps => (h.mpr hsteps).1⟩

/-- Two conditions that agree wherever the invariant holds are met by the same runs. -/
theorem allSteps_iff {F G : S → E → Prop} (Inv : S → Prop)
    (hinv : ∀ s e s', Inv s → step s e = some s' → Inv s')
    (hexact : ∀ s e s', Inv s → step s e = some s' → (F s e ↔ G s e)) (events : List E)
    (s : S) (hs : Inv s) : AllSteps step F s events ↔ AllSteps step G s events := by
  have h := allStates_and_allSteps_iff (P := fun _ => True) (F := F) (G := G) Inv hinv
    (fun s e s' hi _ hst => by rw [true_and]; exact hexact s e s' hi hst) events s hs trivial
  have htrue : AllStates step (fun _ => True) s events :=
    allStates_of_invariant (fun _ => True) (fun _ _ _ _ _ => trivial) (fun _ h => h) events s trivial
  rw [← h]
  exact ⟨fun hF => ⟨htrue, hF⟩, fun hF => hF.2⟩

end Runs
