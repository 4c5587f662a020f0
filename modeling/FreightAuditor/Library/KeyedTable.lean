import Mathlib.Data.List.Nodup

/- Tables with a unique key.

   `key` gives each row its key, and no two rows share one. An insert refuses a row whose
   key is taken; looking a key up finds the row that has it, if there is one. -/

structure KeyedTable (α : Type) {κ : Type} (key : α → κ) where
  rows : List α
  unique : (rows.map key).Nodup

namespace KeyedTable

variable {α κ : Type} [DecidableEq κ] {key : α → κ}

def empty : KeyedTable α key := ⟨[], List.nodup_nil⟩

def find? (t : KeyedTable α key) (k : κ) : Option α := t.rows.find? fun a => key a = k

/-- `none` where the key is taken. -/
def insert (t : KeyedTable α key) (a : α) : Option (KeyedTable α key) :=
  if h : key a ∈ t.rows.map key then none
  else some ⟨t.rows ++ [a], by
    rw [List.map_append, List.map_singleton, List.nodup_append_comm]
    exact List.nodup_cons.mpr ⟨h, t.unique⟩⟩

/-- The row with the key of this one, which is inserted where there is none. -/
def getOrInsert (t : KeyedTable α key) (a : α) : α × KeyedTable α key :=
  match t.find? (key a) with
  | some row => (row, t)
  | none => (a, (t.insert a).getD t)

/-- Every row changed where it is; keys stay. -/
def update (t : KeyedTable α key) (f : α → α) (hf : ∀ a, key (f a) = key a) : KeyedTable α key :=
  ⟨t.rows.map f, by
    rw [List.map_map, show key ∘ f = key from funext hf]
    exact t.unique⟩

variable {t t' : KeyedTable α key} {a b : α} {k : κ}

omit [DecidableEq κ] in
theorem eq_of_key (ha : a ∈ t.rows) (hb : b ∈ t.rows) (h : key a = key b) : a = b :=
  List.inj_on_of_nodup_map t.unique ha hb h

theorem find?_sound (h : t.find? k = some a) : a ∈ t.rows ∧ key a = k :=
  ⟨List.mem_of_find?_eq_some h, by simpa using List.find?_some (p := fun a => decide (key a = k)) h⟩

theorem find?_eq_some : t.find? k = some a ↔ a ∈ t.rows ∧ key a = k := by
  refine ⟨find?_sound, fun h => ?_⟩
  cases hfound : t.find? k with
  | none => exact absurd h.2 (by simpa using List.find?_eq_none.mp hfound a h.1)
  | some b =>
    obtain ⟨hb, hkey⟩ := find?_sound hfound
    rw [eq_of_key hb h.1 (hkey.trans h.2.symm)]

theorem find?_eq_none : t.find? k = none ↔ ∀ a ∈ t.rows, key a ≠ k := by
  simp [find?, List.find?_eq_none]

theorem insert_eq_some (h : t.insert a = some t') : t.find? (key a) = none ∧ t'.rows = t.rows ++ [a] := by
  unfold insert at h
  split at h
  · cases h
  · rename_i hfresh
    cases h
    refine ⟨find?_eq_none.mpr fun b hb hkey => hfresh ?_, rfl⟩
    exact hkey ▸ List.mem_map_of_mem hb

theorem insert_fresh (h : t.find? (key a) = none) : ∃ t', t.insert a = some t' := by
  unfold insert
  split
  · rename_i htaken
    obtain ⟨b, hb, hkey⟩ := List.mem_map.mp htaken
    exact absurd hkey (find?_eq_none.mp h b hb)
  · exact ⟨_, rfl⟩

theorem find?_update (t : KeyedTable α key) (f : α → α) (hf : ∀ a, key (f a) = key a) (k : κ) :
    (t.update f hf).find? k = (t.find? k).map f := by
  rw [find?, update, List.find?_map, find?]
  congr 2
  funext a
  simp [hf]

theorem find?_insert (h : t.insert a = some t') (k : κ) : t'.find? k = if key a = k then some a else t.find? k := by
  obtain ⟨hfree, hrows⟩ := insert_eq_some h
  split
  · rename_i hkey
    exact find?_eq_some.mpr ⟨by rw [hrows]; exact List.mem_append_right _ (List.mem_singleton_self a), hkey⟩
  · rename_i hkey
    rw [find?, hrows, List.find?_append, List.find?_singleton, if_neg (by simpa using hkey), Option.or_none, find?]

omit [DecidableEq κ] in
/-- Rows with a property that only rows of one key have. -/
theorem filter_eq_singleton {p : α → Bool} (ha : a ∈ t.rows) (hp : p a = true)
    (honly : ∀ b ∈ t.rows, p b = true → key b = key a) : t.rows.filter p = [a] := by
  have hnodup : (t.rows.filter p).Nodup := (List.Nodup.of_map key t.unique).filter p
  refine List.perm_singleton.mp ((List.perm_ext_iff_of_nodup hnodup (List.nodup_singleton a)).mpr fun b => ?_)
  rw [List.mem_filter, List.mem_singleton]
  constructor
  · intro hb
    exact eq_of_key hb.1 ha (honly b hb.1 hb.2)
  · intro hb
    rw [hb]
    exact ⟨ha, hp⟩

/-- A join by the key finds the one row that has it. -/
theorem filter_key (t : KeyedTable α key) (k : κ) : (t.rows.filter fun a => decide (key a = k)) = (t.find? k).toList := by
  cases hfound : t.find? k with
  | none => exact List.filter_eq_nil_iff.mpr fun a ha => by simpa using find?_eq_none.mp hfound a ha
  | some a =>
    obtain ⟨ha, hkey⟩ := find?_sound hfound
    exact filter_eq_singleton ha (decide_eq_true hkey) fun b _ hb => (of_decide_eq_true hb).trans hkey.symm

omit [DecidableEq κ] in
/-- Rows that have equal keys where a part of theirs is equal have different parts. -/
theorem nodup_filter_map {β : Type} (part : α → β) (p : α → Bool)
    (hinj : ∀ a ∈ t.rows, ∀ b ∈ t.rows, p a = true → p b = true → part a = part b → key a = key b) :
    ((t.rows.filter p).map part).Nodup := by
  refine List.Nodup.map_on (fun a ha b hb h => ?_) (List.Nodup.of_map key t.unique |>.filter p)
  obtain ⟨ha, hpa⟩ := List.mem_filter.mp ha
  obtain ⟨hb, hpb⟩ := List.mem_filter.mp hb
  exact eq_of_key ha hb (hinj a ha b hb hpa hpb h)

end KeyedTable
