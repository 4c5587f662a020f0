import Mathlib.Data.List.Perm.Basic

/- When a block in `Except` accepts, and with which value. -/
namespace ExceptOk

variable {ε α β : Type}

@[simp] theorem bind_eq_ok {x : Except ε α} {f : α → Except ε β} {b : β} :
    (x >>= f) = .ok b ↔ ∃ a, x = .ok a ∧ f a = .ok b := by
  cases x with
  | ok a => simp [bind, Except.bind]
  | error e => simp [bind, Except.bind]

@[simp] theorem ok_bind {a : α} {f : α → Except ε β} : (Except.ok a >>= f) = f a := rfl

@[simp] theorem throw_ne_ok {e : ε} {a : α} : (throw e : Except ε α) ≠ .ok a :=
  fun h => by cases h

@[simp] theorem throw_bind {e : ε} {f : α → Except ε β} : (throw e >>= f) = throw e := rfl

@[simp] theorem pure_eq_ok {a b : α} : (pure a : Except ε α) = .ok b ↔ a = b := Except.ok.injEq a b ▸ Iff.rfl

theorem map_eq_ok {x : Except ε α} {f : α → β} {b : β} : f <$> x = .ok b ↔ ∃ a, x = .ok a ∧ f a = b := by
  cases x with
  | ok a => simp
  | error e => simp

theorem mapError_eq_ok {ε' : Type} {x : Except ε α} {f : ε → ε'} {a : α} : x.mapError f = .ok a ↔ x = .ok a := by
  cases x with
  | ok b => exact ⟨fun h => congrArg Except.ok (Except.ok.inj h), fun h => congrArg Except.ok (Except.ok.inj h)⟩
  | error e => exact iff_of_false (fun h => by cases h) fun h => by cases h

@[simp] theorem ite_throw_eq_ok {c : Prop} [Decidable c] {e : ε} {x : Except ε α} {a : α} :
    (if c then throw e else x) = .ok a ↔ ¬ c ∧ x = .ok a := by
  split <;> simp_all

theorem mem_mapM {f : α → Except ε β} {l : List α} {out : List β} (h : l.mapM f = .ok out) {b : β} :
    b ∈ out ↔ ∃ a ∈ l, f a = .ok b := by
  induction l generalizing out with
  | nil =>
    cases h
    exact iff_of_false List.not_mem_nil fun ⟨_, ha, _⟩ => absurd ha List.not_mem_nil
  | cons a rest ih =>
    rw [List.mapM_cons] at h
    obtain ⟨first, hfirst, h⟩ := bind_eq_ok.mp h
    obtain ⟨others, hothers, h⟩ := bind_eq_ok.mp h
    obtain rfl := pure_eq_ok.mp h
    rw [List.mem_cons, ih hothers]
    constructor
    · rintro (rfl | ⟨c, hc, hcb⟩)
      · exact ⟨a, List.mem_cons_self, hfirst⟩
      · exact ⟨c, List.mem_cons_of_mem _ hc, hcb⟩
    · rintro ⟨c, hc, hcb⟩
      rcases List.mem_cons.mp hc with rfl | hc
      · exact .inl (Except.ok.inj (hcb.symm.trans hfirst))
      · exact .inr ⟨c, hc, hcb⟩

theorem exists_of_mapM {f : α → Except ε β} {l : List α} {out : List β} (h : l.mapM f = .ok out) {a : α}
    (ha : a ∈ l) : ∃ b ∈ out, f a = .ok b := by
  induction l generalizing out with
  | nil => exact absurd ha List.not_mem_nil
  | cons first rest ih =>
    rw [List.mapM_cons] at h
    obtain ⟨b, hb, h⟩ := bind_eq_ok.mp h
    obtain ⟨others, hothers, h⟩ := bind_eq_ok.mp h
    obtain rfl := pure_eq_ok.mp h
    rcases List.mem_cons.mp ha with rfl | ha
    · exact ⟨b, List.mem_cons_self, hb⟩
    · obtain ⟨c, hc, hac⟩ := ih hothers ha
      exact ⟨c, List.mem_cons_of_mem _ hc, hac⟩

theorem mapM_forall₂ {f : α → Except ε β} {l : List α} {out : List β} (h : l.mapM f = .ok out) :
    List.Forall₂ (fun a b => f a = .ok b) l out := by
  induction l generalizing out with
  | nil =>
    cases h
    exact .nil
  | cons a rest ih =>
    rw [List.mapM_cons] at h
    obtain ⟨b, hb, h⟩ := bind_eq_ok.mp h
    obtain ⟨bs, hbs, h⟩ := bind_eq_ok.mp h
    obtain rfl := pure_eq_ok.mp h
    exact .cons hb (ih hbs)

theorem mapM_of_forall₂ {f : α → Except ε β} {l : List α} {out : List β}
    (h : List.Forall₂ (fun a b => f a = .ok b) l out) : l.mapM f = .ok out := by
  induction h with
  | nil => rfl
  | cons hab _ ih => rw [List.mapM_cons, hab, ok_bind, ih]; rfl

theorem mapM_iff_forall₂ {f : α → Except ε β} {l : List α} {out : List β} :
    l.mapM f = .ok out ↔ List.Forall₂ (fun a b => f a = .ok b) l out :=
  ⟨mapM_forall₂, mapM_of_forall₂⟩

/-- What is made of a list in another order is made in that order. -/
theorem mapM_perm {f : α → Except ε β} {l l' : List α} {out : List β} (hperm : l'.Perm l) (h : l.mapM f = .ok out) :
    ∃ out', l'.mapM f = .ok out' ∧ out'.Perm out := by
  obtain ⟨out', hout', hperm'⟩ := List.perm_comp_forall₂ hperm (mapM_forall₂ h)
  exact ⟨out', mapM_of_forall₂ hout', hperm'⟩

theorem mapM_self {f : α → Except ε α} {l : List α} (h : ∀ a ∈ l, f a = .ok a) : l.mapM f = .ok l := by
  induction l with
  | nil => rfl
  | cons a rest ih =>
    obtain ⟨ha, hrest⟩ := List.forall_mem_cons.mp h
    rw [List.mapM_cons, ha, ok_bind, ih hrest]
    rfl

theorem mapM_congr_middle {f : α → Except ε β} {a a' : α} {front back : List α} (h : f a' = f a) :
    (front ++ a' :: back).mapM f = (front ++ a :: back).mapM f := by
  rw [List.mapM_append, List.mapM_append, List.mapM_cons, List.mapM_cons, h]

/-- A map that fails where `p` does not hold, and else is `g`. -/
theorem mapM_eq_ok_iff {f : α → Except ε β} {p : α → Prop} {g : α → β} {l : List α} {out : List β}
    (h : ∀ a ∈ l, ∀ b, f a = .ok b ↔ p a ∧ b = g a) : l.mapM f = .ok out ↔ (∀ a ∈ l, p a) ∧ out = l.map g := by
  induction l generalizing out with
  | nil =>
    rw [List.mapM_nil, pure_eq_ok]
    exact ⟨fun h => ⟨fun a ha => absurd ha List.not_mem_nil, h.symm⟩, fun h => h.2.symm⟩
  | cons a rest ih =>
    obtain ⟨ha, hrest⟩ := List.forall_mem_cons.mp h
    simp only [List.mapM_cons, bind_eq_ok, pure_eq_ok, ha, ih hrest, List.forall_mem_cons, List.map_cons]
    constructor
    · rintro ⟨_, ⟨hp, rfl⟩, _, ⟨hps, rfl⟩, rfl⟩
      exact ⟨⟨hp, hps⟩, rfl⟩
    · rintro ⟨⟨hp, hps⟩, rfl⟩
      exact ⟨_, ⟨hp, rfl⟩, _, ⟨hps, rfl⟩, rfl⟩

/-- Each element of one list goes with one of the other. -/
theorem exists_of_forall₂ {R : α → β → Prop} {l : List α} {m : List β} (h : List.Forall₂ R l m) :
    (∀ a ∈ l, ∃ b ∈ m, R a b) ∧ ∀ b ∈ m, ∃ a ∈ l, R a b := by
  induction h with
  | nil => exact ⟨fun _ h => absurd h List.not_mem_nil, fun _ h => absurd h List.not_mem_nil⟩
  | cons hab _ ih =>
    refine ⟨List.forall_mem_cons.mpr ⟨⟨_, List.mem_cons_self, hab⟩, fun a ha => ?_⟩,
      List.forall_mem_cons.mpr ⟨⟨_, List.mem_cons_self, hab⟩, fun b hb => ?_⟩⟩
    · obtain ⟨b, hb, hR⟩ := ih.1 a ha
      exact ⟨b, List.mem_cons_of_mem _ hb, hR⟩
    · obtain ⟨a, ha, hR⟩ := ih.2 b hb
      exact ⟨a, List.mem_cons_of_mem _ ha, hR⟩

/-- What can be told from each result can be told from what it was made of. -/
theorem map_of_mapM {γ : Type} {f : α → Except ε β} {g : β → γ} {k : α → γ} (hf : ∀ a b, f a = .ok b → g b = k a)
    {l : List α} {out : List β} (h : l.mapM f = .ok out) : out.map g = l.map k := by
  have hmade := mapM_forall₂ h
  clear h
  induction hmade with
  | nil => rfl
  | cons hb _ ih => rw [List.map_cons, List.map_cons, hf _ _ hb, ih]

/-! ## Blocks that return -/

/-- The block does not throw. -/
def Returns (x : Except ε α) : Prop := ∃ a, x = .ok a

@[simp] theorem returns_ok {a : α} : Returns (.ok a : Except ε α) := ⟨a, rfl⟩

@[simp] theorem returns_pure {a : α} : Returns (pure a : Except ε α) := ⟨a, rfl⟩

@[simp] theorem not_returns_throw {e : ε} : ¬ Returns (throw e : Except ε α) := fun h => by
  obtain ⟨a, ha⟩ := h
  exact throw_ne_ok ha

theorem returns_bind {x : Except ε α} {f : α → Except ε β} : Returns (x >>= f) ↔ ∃ a, x = .ok a ∧ Returns (f a) := by
  constructor
  · rintro ⟨b, h⟩
    obtain ⟨a, ha, hb⟩ := bind_eq_ok.mp h
    exact ⟨a, ha, b, hb⟩
  · rintro ⟨a, ha, b, hb⟩
    exact ⟨b, bind_eq_ok.mpr ⟨a, ha, hb⟩⟩

/-- A step that the later ones only take a value from. -/
theorem returns_bind_of_forall {x : Except ε α} {f : α → Except ε β} {p : Prop}
    (h : ∀ a, x = .ok a → (Returns (f a) ↔ p)) : Returns (x >>= f) ↔ Returns x ∧ p := by
  rw [returns_bind]
  constructor
  · rintro ⟨a, ha, hf⟩
    exact ⟨⟨a, ha⟩, (h a ha).mp hf⟩
  · rintro ⟨⟨a, ha⟩, hp⟩
    exact ⟨a, ha, (h a ha).mpr hp⟩

theorem returns_map {x : Except ε α} {f : α → β} : Returns (f <$> x) ↔ Returns x := by
  cases x with
  | ok a => exact iff_of_true ⟨f a, rfl⟩ ⟨a, rfl⟩
  | error e => exact iff_of_false (fun h => by obtain ⟨_, h⟩ := h; cases h) (fun h => by obtain ⟨_, h⟩ := h; cases h)

theorem returns_ite {c : Prop} [Decidable c] {x : Except ε α} {e : ε} :
    Returns (if c then x else throw e) ↔ c ∧ Returns x := by
  split
  · simp [*]
  · simp [*]

theorem returns_mapM {f : α → Except ε β} {l : List α} : Returns (l.mapM f) ↔ ∀ a ∈ l, Returns (f a) := by
  induction l with
  | nil => exact iff_of_true ⟨[], rfl⟩ (by simp)
  | cons a rest ih =>
    rw [List.mapM_cons, List.forall_mem_cons, ← ih]
    exact returns_bind_of_forall fun b _ => (returns_bind_of_forall fun _ _ => iff_of_true returns_pure trivial).trans
      (iff_of_eq (and_true _))

/-! ## Errors that a block does not throw -/

theorem bind_ne_error {x : Except ε α} {f : α → Except ε β} {e : ε} (hx : x ≠ .error e)
    (hf : ∀ a, x = .ok a → f a ≠ .error e) : (x >>= f) ≠ .error e := by
  cases x with
  | ok a => exact hf a rfl
  | error e' => exact fun h => hx (congrArg Except.error (Except.error.inj h))

theorem map_ne_error {x : Except ε α} {f : α → β} {e : ε} (hx : x ≠ .error e) : f <$> x ≠ .error e := by
  cases x with
  | ok a => exact fun h => by cases h
  | error e' => exact fun h => hx (congrArg Except.error (Except.error.inj h))

theorem foldlM_ne_error {σ : Type} {f : σ → α → Except ε σ} {l : List α} {e : ε} (h : ∀ s, ∀ a ∈ l, f s a ≠ .error e) :
    ∀ s, l.foldlM f s ≠ .error e := by
  induction l with
  | nil => exact fun s hs => by cases hs
  | cons a rest ih =>
    intro s
    rw [List.foldlM_cons]
    exact bind_ne_error (h s a List.mem_cons_self) fun s' _ => ih (fun s b hb => h s b (List.mem_cons_of_mem _ hb)) s'

theorem mapM_ne_error {f : α → Except ε β} {l : List α} {e : ε} (h : ∀ a ∈ l, f a ≠ .error e) : l.mapM f ≠ .error e := by
  induction l with
  | nil => exact fun h => by cases h
  | cons a rest ih =>
    obtain ⟨ha, hrest⟩ := List.forall_mem_cons.mp h
    rw [List.mapM_cons]
    exact bind_ne_error ha fun _ _ => bind_ne_error (ih hrest) fun _ _ h => by cases h

end ExceptOk
