import Mathlib.Algebra.BigOperators.Group.List.Basic
import Mathlib.Data.List.Induction
import Mathlib.Data.List.Nodup
import FreightAuditor.Library.ExceptOk

/- Grouping a list into buckets by a key, in the order in which the keys appear.

   `group` folds the elements into a map that keeps insertion order, one bucket a key; the
   fold may fail. `group_collected` says what is in it: one bucket for each key there is,
   each the fold of the elements with its key. `sum_of_buckets` adds a column over buckets. -/
namespace Buckets

open ExceptOk

variable {α κ γ β E : Type} [DecidableEq κ] [DecidableEq γ]

/-- Update the bucket of a key, which is made if there is none. -/
def place (key : κ) (new : β) (update : β → Except E β) : List (κ × β) → Except E (List (κ × β))
  | [] => do return [(key, ← update new)]
  | (k, b) :: rest =>
    if k = key then do return (k, ← update b) :: rest
    else do return (k, b) :: (← place key new update rest)

section

variable (key : α → κ) (new : α → β) (add : β → α → Except E β)

def group (xs : List α) : Except E (List (κ × β)) :=
  xs.foldlM (fun buckets x => place (key x) (new x) (add · x) buckets) []

/-- The elements of one bucket. -/
def ofKey (xs : List α) (k : κ) : List α := xs.filter (fun x => key x = k)

/-- One bucket for each key of the elements, folded from the elements with that key, the first of
which makes it. -/
structure Collected (xs : List α) (buckets : List (κ × β)) : Prop where
  nodup : (buckets.map Prod.fst).Nodup
  keys : ∀ k, k ∈ buckets.map Prod.fst ↔ k ∈ xs.map key
  folded : ∀ p ∈ buckets, ∃ x, (ofKey key xs p.1).head? = some x ∧
    (ofKey key xs p.1).foldlM add (new x) = .ok p.2

end

/-! ## One element -/

theorem place_ok {k : κ} {new : β} {update : β → Except E β} {buckets buckets' : List (κ × β)}
    (h : place k new update buckets = .ok buckets') :
    (∃ l b b' r, buckets = l ++ (k, b) :: r ∧ buckets' = l ++ (k, b') :: r ∧ update b = .ok b') ∨
      (k ∉ buckets.map Prod.fst ∧ ∃ b', buckets' = buckets ++ [(k, b')] ∧ update new = .ok b') := by
  induction buckets generalizing buckets' with
  | nil =>
    simp only [place, bind_eq_ok, pure_eq_ok] at h
    obtain ⟨b', hb', rfl⟩ := h
    exact .inr ⟨by simp, b', rfl, hb'⟩
  | cons p rest ih =>
    obtain ⟨k₀, b⟩ := p
    simp only [place] at h
    split at h
    · rename_i hk
      subst hk
      simp only [bind_eq_ok, pure_eq_ok] at h
      obtain ⟨b', hb', rfl⟩ := h
      exact .inl ⟨[], b, b', rest, rfl, rfl, hb'⟩
    · rename_i hk
      simp only [bind_eq_ok, pure_eq_ok] at h
      obtain ⟨rest', hrest', rfl⟩ := h
      obtain ⟨l, b₀, b', r, rfl, rfl, hb'⟩ | ⟨hnew, b', rfl, hb'⟩ := ih hrest'
      · exact .inl ⟨(k₀, b) :: l, b₀, b', r, rfl, rfl, hb'⟩
      · exact .inr ⟨by simpa [Ne.symm hk] using hnew, b', rfl, hb'⟩

theorem place_total {k : κ} {new : β} {update : β → Except E β} (h : ∀ b, ∃ b', update b = .ok b') :
    ∀ buckets : List (κ × β), ∃ buckets', place k new update buckets = .ok buckets'
  | [] => by
    obtain ⟨b', hb'⟩ := h new
    exact ⟨[(k, b')], by simp only [place, hb']; rfl⟩
  | (k₀, b) :: rest => by
    obtain ⟨b', hb'⟩ := h b
    obtain ⟨rest', hrest'⟩ := place_total h rest
    simp only [place]
    split
    · exact ⟨(k₀, b') :: rest, by rw [hb']; rfl⟩
    · exact ⟨(k₀, b) :: rest', by rw [hrest']; rfl⟩

/-! ## All elements -/

section group

variable {key : α → κ} {new : α → β} {add : β → α → Except E β}

theorem ofKey_append (xs ys : List α) (k : κ) : ofKey key (xs ++ ys) k = ofKey key xs k ++ ofKey key ys k :=
  List.filter_append ..

theorem mem_ofKey {xs : List α} {k : κ} {x : α} : x ∈ ofKey key xs k ↔ x ∈ xs ∧ key x = k := by
  simp [ofKey]

/-- Placing one more element keeps the buckets collected. -/
theorem Collected.place {xs : List α} {x : α} {buckets buckets' : List (κ × β)}
    (h : Collected key new add xs buckets)
    (hplace : Buckets.place (key x) (new x) (add · x) buckets = .ok buckets') :
    Collected key new add (xs ++ [x]) buckets' := by
  have hother : ∀ k, k ≠ key x → ofKey key (xs ++ [x]) k = ofKey key xs k := fun k hk => by
    rw [ofKey_append]
    simp [ofKey, Ne.symm hk]
  have hself : ofKey key (xs ++ [x]) (key x) = ofKey key xs (key x) ++ [x] := by
    rw [ofKey_append]
    simp [ofKey]
  obtain ⟨l, b, b', r, rfl, rfl, hb'⟩ | ⟨hnew, b', rfl, hb'⟩ := place_ok hplace
  · have hnodup := h.nodup
    simp only [List.map_append, List.map_cons] at hnodup
    have hkey := (h.keys (key x)).mp (by simp)
    refine ⟨by simpa using hnodup, fun k => ?_, fun p hp => ?_⟩
    · have hk := h.keys k
      simp only [List.map_append, List.map_cons, List.mem_append] at hk ⊢
      rw [hk, List.map_nil, List.mem_singleton]
      exact ⟨.inl, fun h => h.elim id (fun h => h ▸ hkey)⟩
    · by_cases hpk : p.1 = key x
      · -- the bucket of the new element, which is the only one with its key
        have hpb : p = (key x, b') := by
          rcases List.mem_append.mp hp with hp | hp
          · exact absurd (List.mem_map_of_mem (f := Prod.fst) hp)
              (hpk ▸ fun hmem => List.disjoint_of_nodup_append hnodup hmem (List.mem_cons_self ..))
          · rcases List.mem_cons.mp hp with rfl | hp
            · rfl
            · exact absurd (List.mem_map_of_mem (f := Prod.fst) hp)
                (hpk ▸ (List.nodup_cons.mp (List.nodup_append.mp hnodup).2.1).1)
        subst hpb
        obtain ⟨first, hfirst, hfold⟩ := h.folded (key x, b) (by simp)
        refine ⟨first, ?_, ?_⟩
        · rw [hself, List.head?_append, hfirst]
          rfl
        · rw [hself, List.foldlM_append, hfold]
          simp [hb']
      · rw [hother p.1 hpk]
        refine h.folded p ?_
        simp only [List.mem_append, List.mem_cons] at hp ⊢
        exact hp.imp id (fun h => h.imp (fun h => absurd (congrArg Prod.fst h) hpk) id)
  · have hnone : ofKey key xs (key x) = [] := by
      rw [ofKey, List.filter_eq_nil_iff]
      intro y hy hyk
      exact hnew ((h.keys _).mpr (List.mem_map.mpr ⟨y, hy, by simpa using hyk⟩))
    refine ⟨?_, fun k => ?_, fun p hp => ?_⟩
    · rw [List.map_append, List.nodup_append]
      refine ⟨h.nodup, by simp, fun k hk k' hk' => ?_⟩
      obtain rfl := List.mem_singleton.mp hk'
      rintro rfl
      exact hnew hk
    · simp only [List.map_append, List.mem_append, h.keys k]
      rfl
    · rcases List.mem_append.mp hp with hp | hp
      · have hpk : p.1 ≠ key x := fun heq => hnew (heq ▸ List.mem_map_of_mem hp)
        rw [hother p.1 hpk]
        exact h.folded p hp
      · obtain rfl := List.mem_singleton.mp hp
        refine ⟨x, ?_, ?_⟩
        · rw [hself, hnone]
          rfl
        · rw [hself, hnone]
          simp [hb']

theorem group_collected {xs : List α} {buckets : List (κ × β)} (h : group key new add xs = .ok buckets) :
    Collected key new add xs buckets := by
  induction xs using List.reverseRecOn generalizing buckets with
  | nil =>
    cases h
    exact ⟨List.nodup_nil, fun k => Iff.rfl, fun p hp => by cases hp⟩
  | append_singleton xs x ih =>
    rw [group, List.foldlM_append, bind_eq_ok] at h
    obtain ⟨mid, hmid, hlast⟩ := h
    exact (ih hmid).place (by simpa using hlast)

/-- Grouping fails only where an element cannot be added. -/
theorem group_total {xs : List α} (h : ∀ x ∈ xs, ∀ b, ∃ b', add b x = .ok b') :
    ∃ buckets, group key new add xs = .ok buckets := by
  induction xs using List.reverseRecOn with
  | nil => exact ⟨[], rfl⟩
  | append_singleton xs x ih =>
    obtain ⟨mid, hmid⟩ := ih (fun y hy => h y (List.mem_append_left _ hy))
    obtain ⟨buckets, hb⟩ := place_total (h x (by simp)) mid
    refine ⟨buckets, ?_⟩
    rw [group] at hmid ⊢
    rw [List.foldlM_append, hmid]
    simpa using hb

/-- A label is carried through a fold. -/
theorem foldlM_labelled {ι : Type} (f : β → α → Except E β) (xs : List α) (l : ι) (b : β) :
    xs.foldlM (fun p x => do return (p.1, ← f p.2 x)) (l, b) = (do return (l, ← xs.foldlM f b)) := by
  induction xs generalizing b with
  | nil => rfl
  | cons x xs ih =>
    rw [List.foldlM_cons, List.foldlM_cons]
    cases f b x with
    | ok b' => exact ih b'
    | error e => rfl

end group

/-! ## Which element is where -/

/-- The elements with one of the keys, key after key. -/
theorem flatMap_ofKey_perm (key : α → κ) {ks : List κ} (hnodup : ks.Nodup) (xs : List α) :
    (ks.flatMap (ofKey key xs)).Perm (xs.filter fun x => key x ∈ ks) := by
  induction ks with
  | nil => rw [List.filter_eq_nil_iff.mpr fun x _ => by simp]; exact .refl _
  | cons k ks ih =>
    obtain ⟨hk, hks⟩ := List.nodup_cons.mp hnodup
    have hmatch : (xs.filter fun x => key x ∈ k :: ks).filter (fun x => key x = k) = ofKey key xs k := by
      rw [List.filter_filter, ofKey]
      refine List.filter_congr fun x _ => ?_
      by_cases hx : key x = k <;> simp [hx]
    have hrest : (xs.filter fun x => key x ∈ k :: ks).filter (fun x => !decide (key x = k)) =
        xs.filter fun x => key x ∈ ks := by
      rw [List.filter_filter]
      refine List.filter_congr fun x _ => ?_
      by_cases hx : key x = k
      · simp [hx, hk]
      · simp [hx]
    have hsplit := List.filter_append_perm (fun x => decide (key x = k)) (xs.filter fun x => key x ∈ k :: ks)
    rw [hmatch, hrest] at hsplit
    exact ((ih hks).append_left _).trans hsplit

/-- Every element is in one bucket. -/
theorem flatMap_ofKey_all {key : α → κ} {ks : List κ} (hnodup : ks.Nodup) {xs : List α} (hall : ∀ x ∈ xs, key x ∈ ks) :
    (ks.flatMap (ofKey key xs)).Perm xs := by
  have hfilter : (xs.filter fun x => key x ∈ ks) = xs := List.filter_eq_self.mpr fun x hx => by simpa using hall x hx
  have hperm := flatMap_ofKey_perm key hnodup xs
  rwa [hfilter] at hperm

/-! ## Sums -/

section sums

variable {M : Type} [AddCommMonoid M]

theorem sum_ite_eq (m : M) {ks : List κ} (hnodup : ks.Nodup) (k : κ) :
    (ks.map fun k' => if k = k' then m else 0).sum = if k ∈ ks then m else 0 := by
  induction ks with
  | nil => rfl
  | cons k' ks ih =>
    obtain ⟨hk', hks⟩ := List.nodup_cons.mp hnodup
    rw [List.map_cons, List.sum_cons, ih hks]
    by_cases hk : k = k'
    · subst hk
      simp [hk']
    · simp [hk]

/-- The sums by key add up to the sum of the elements with one of the keys. -/
theorem sum_ofKey {key : α → κ} (f : α → M) {ks : List κ} (hnodup : ks.Nodup) (xs : List α) :
    (ks.map fun k => ((ofKey key xs k).map f).sum).sum = ((xs.filter fun x => key x ∈ ks).map f).sum := by
  induction xs with
  | nil => simp [ofKey]
  | cons x xs ih =>
    have hstep : ∀ k, ((ofKey key (x :: xs) k).map f).sum =
        (if key x = k then f x else 0) + ((ofKey key xs k).map f).sum := fun k => by
      by_cases hk : key x = k <;> simp [ofKey, hk]
    simp only [hstep, List.sum_map_add, ih, sum_ite_eq _ hnodup]
    by_cases hx : key x ∈ ks <;> simp [hx]

/-- The sums of the buckets whose key lies over `g` add up to the sum of the elements that do. -/
theorem sum_of_buckets {key : α → κ} (coarse : κ → γ) (f : α → M) {ks : List κ} (hnodup : ks.Nodup)
    {xs : List α} (hks : ∀ x ∈ xs, key x ∈ ks) (g : γ) :
    ((ks.filter (coarse · = g)).map fun k => ((ofKey key xs k).map f).sum).sum =
      ((ofKey (fun x => coarse (key x)) xs g).map f).sum := by
  rw [sum_ofKey f (hnodup.filter _), ofKey]
  congr 2
  refine List.filter_congr (fun x hx => ?_)
  simp [hks x hx]

end sums

end Buckets
