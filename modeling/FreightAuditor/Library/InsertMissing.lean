import FreightAuditor.Library.KeyedTable

/- Many rows at once, where a taken key is passed over.

   `assign` makes a row of what is to be stored and of how many rows there are. If no key is
   taken, every row is stored (`insertMissing_fresh`); if every key is, none is
   (`insertMissing_taken`). -/
namespace KeyedTable

variable {α κ γ : Type} [DecidableEq κ] {key : α → κ}

/-- `INSERT ... SELECT ... ON CONFLICT DO NOTHING`: how many rows are new, and the table. -/
def insertMissing (assign : ℕ → γ → α) : List γ → KeyedTable α key → ℕ × KeyedTable α key
  | [], t => (0, t)
  | c :: rest, t =>
    match t.insert (assign t.rows.length c) with
    | some t' => ((insertMissing assign rest t').1 + 1, (insertMissing assign rest t').2)
    | none => insertMissing assign rest t

variable {assign : ℕ → γ → α} {keyOf : γ → κ} {t : KeyedTable α key} {cs : List γ}

theorem insertMissing_taken (hkey : ∀ n c, key (assign n c) = keyOf c) (htaken : ∀ c ∈ cs, ∃ a ∈ t.rows, key a = keyOf c) :
    insertMissing assign cs t = (0, t) := by
  induction cs with
  | nil => rfl
  | cons c rest ih =>
    obtain ⟨hfirst, hrest⟩ := List.forall_mem_cons.mp htaken
    have hnone : t.insert (assign t.rows.length c) = none := by
      cases hinsert : t.insert (assign t.rows.length c) with
      | none => rfl
      | some t' =>
        obtain ⟨a, ha, hak⟩ := hfirst
        exact absurd (hak.trans (hkey _ c).symm) (find?_eq_none.mp (insert_eq_some hinsert).1 a ha)
    rw [insertMissing, hnone]
    exact ih hrest

theorem insertMissing_fresh (hkey : ∀ n c, key (assign n c) = keyOf c) (hfree : ∀ c ∈ cs, ∀ a ∈ t.rows, key a ≠ keyOf c)
    (hnodup : (cs.map keyOf).Nodup) :
    (insertMissing assign cs t).1 = cs.length ∧
      ∃ inserted, (insertMissing assign cs t).2.rows = t.rows ++ inserted ∧
        List.Forall₂ (fun c a => ∃ n, a = assign n c) cs inserted := by
  induction cs generalizing t with
  | nil => exact ⟨rfl, [], (List.append_nil _).symm, .nil⟩
  | cons c rest ih =>
    obtain ⟨hfirst, hrest⟩ := List.forall_mem_cons.mp hfree
    obtain ⟨hout, hnodup⟩ := List.nodup_cons.mp hnodup
    obtain ⟨t', hinsert⟩ := insert_fresh (t := t) (a := assign t.rows.length c)
      (find?_eq_none.mpr fun a ha h => hfirst a ha (h.trans (hkey _ c)))
    have hrows := (insert_eq_some hinsert).2
    have hfree' : ∀ d ∈ rest, ∀ a ∈ t'.rows, key a ≠ keyOf d := by
      intro d hd a ha h
      rw [hrows, List.mem_append, List.mem_singleton] at ha
      cases ha with
      | inl ha => exact hrest d hd a ha h
      | inr ha =>
        rw [ha, hkey] at h
        exact hout (h ▸ List.mem_map_of_mem hd)
    obtain ⟨hcount, inserted, hstored, hmade⟩ := ih hfree' hnodup
    rw [insertMissing, hinsert]
    refine ⟨congrArg (· + 1) hcount, assign t.rows.length c :: inserted, ?_, .cons ⟨_, rfl⟩ hmade⟩
    rw [hstored, hrows, List.append_assoc, List.singleton_append]

end KeyedTable
