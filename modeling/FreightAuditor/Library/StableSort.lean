import Mathlib.Data.List.Sort
import Mathlib.Data.List.Pairwise
import Mathlib.Order.Basic

/- A stable sort by a comparison under which different elements may tie.

   Such a comparison is a locale's collation of texts. What comes out depends on the order of
   what goes in exactly if two elements tie (`sort_canonical_iff`): elements that tie keep the order they
   came in. -/
namespace StableSort

variable {α β : Type} {cmp : α → α → Ordering} {l l' : List α}

/-- Not after. -/
def Le (cmp : α → α → Ordering) (a b : α) : Prop := cmp a b ≠ .gt

instance : DecidableRel (Le cmp) := fun a b => inferInstanceAs (Decidable (cmp a b ≠ .gt))

def sort (cmp : α → α → Ordering) (l : List α) : List α := l.insertionSort (Le cmp)

/-- No two elements tie. -/
def Untied (cmp : α → α → Ordering) (l : List α) : Prop := l.Pairwise fun a b => cmp a b ≠ .eq

instance (l : List α) : Decidable (Untied cmp l) := inferInstanceAs (Decidable (l.Pairwise _))

theorem sort_perm (l : List α) : (sort cmp l).Perm l := List.perm_insertionSort _ l

@[simp] theorem mem_sort {a : α} : a ∈ sort cmp l ↔ a ∈ l := (sort_perm l).mem_iff

/-- Sorting by a key sorts the keys. -/
theorem map_sort (cmp : α → α → Ordering) (key : β → α) (l : List β) :
    (sort (fun a b => cmp (key a) (key b)) l).map key = sort cmp (l.map key) :=
  List.map_insertionSort _ _ key l fun _ _ _ _ => Iff.rfl

theorem le_of_eq {a b : α} (h : cmp a b = .eq) : Le cmp a b := by
  rw [Le, h]
  exact nofun

/-- One that comes first and goes before all others stays first. -/
theorem sort_cons_of_le {a : α} (h : ∀ b ∈ l, Le cmp a b) : sort cmp (a :: l) = a :: sort cmp l := by
  have hhead : ∀ b ∈ sort cmp l, Le cmp a b := fun b hb => h b (mem_sort.mp hb)
  show (sort cmp l).orderedInsert (Le cmp) a = _
  generalize sort cmp l = sorted at hhead ⊢
  cases sorted with
  | nil => rfl
  | cons b rest => exact List.orderedInsert_cons_of_le (Le cmp) rest (hhead b List.mem_cons_self)

/-- Two that tie come out as they went in. -/
theorem pair_sublist_sort {a b : α} (htie : cmp a b = .eq) (h : [a, b].Sublist l) : [a, b].Sublist (sort cmp l) :=
  List.pair_sublist_insertionSort (le_of_eq htie) h

/-- Elements that all tie come out as they went in. -/
theorem filter_sort {p : α → Bool} (htie : ∀ a ∈ l, ∀ b ∈ l, p a = true → p b = true → cmp a b = .eq) :
    (sort cmp l).filter p = l.filter p := by
  have hinsert {a : α} {s : List α} (hs : ∀ b ∈ s, p a = true → p b = true → cmp a b = .eq) :
      (s.orderedInsert (Le cmp) a).filter p = (a :: s).filter p := by
    induction s with
    | nil => rfl
    | cons b s ih =>
      obtain ⟨hb, hs⟩ := List.forall_mem_cons.mp hs
      rw [List.orderedInsert]
      split
      · rfl
      · rename_i hafter
        by_cases hpb : p b = true
        · have hpa : ¬ p a = true := fun hpa => hafter (le_of_eq (hb hpa hpb))
          rw [List.filter_cons_of_pos hpb, ih hs, List.filter_cons_of_neg hpa, List.filter_cons_of_neg hpa,
            List.filter_cons_of_pos hpb]
        · rw [List.filter_cons_of_neg hpb, ih hs, List.filter_cons, List.filter_cons, List.filter_cons_of_neg hpb]
  induction l with
  | nil => rfl
  | cons a rest ih =>
    have hrest := ih fun b hb c hc => htie b (List.mem_cons_of_mem _ hb) c (List.mem_cons_of_mem _ hc)
    show ((sort cmp rest).orderedInsert (Le cmp) a).filter p = _
    rw [hinsert fun b hb => htie a List.mem_cons_self b (List.mem_cons_of_mem _ (mem_sort.mp hb)), List.filter_cons,
      List.filter_cons, hrest]

theorem pair_sublist_of_mem {a b : α} (hne : a ≠ b) (ha : a ∈ l) (hb : b ∈ l) : [a, b].Sublist l ∨ [b, a].Sublist l := by
  induction l with
  | nil => exact absurd ha List.not_mem_nil
  | cons x rest ih =>
    rcases List.mem_cons.mp ha with rfl | harest
    · have hbrest : b ∈ rest := (List.mem_cons.mp hb).resolve_left (Ne.symm hne)
      exact .inl (List.Sublist.cons_cons _ (List.singleton_sublist.mpr hbrest))
    · rcases List.mem_cons.mp hb with rfl | hbrest
      · exact .inr (List.Sublist.cons_cons _ (List.singleton_sublist.mpr harest))
      · exact (ih harest hbrest).imp (.cons _) (.cons _)

section

variable [Std.TransCmp cmp]

/-- A comparison of keys. -/
theorem transCmp_key (key : β → α) : Std.TransCmp fun a b => cmp (key a) (key b) where
  eq_swap := Std.OrientedCmp.eq_swap
  isLE_trans := Std.TransCmp.isLE_trans

theorem le_total (a b : α) : Le cmp a b ∨ Le cmp b a := by
  by_cases hgt : cmp a b = .gt
  · right
    have hlt : cmp b a = .lt := Std.OrientedCmp.gt_iff_lt.mp hgt
    rw [Le, hlt]
    exact nofun
  · exact .inl hgt

theorem le_trans {a b c : α} (hab : Le cmp a b) (hbc : Le cmp b c) : Le cmp a c :=
  Ordering.ne_gt_iff_isLE.mpr
    (Std.TransCmp.isLE_trans (Ordering.ne_gt_iff_isLE.mp hab) (Ordering.ne_gt_iff_isLE.mp hbc))

theorem eq_of_le {a b : α} (hab : Le cmp a b) (hba : Le cmp b a) : cmp a b = .eq :=
  Std.OrientedCmp.isLE_antisymm (Ordering.ne_gt_iff_isLE.mp hab) (Ordering.ne_gt_iff_isLE.mp hba)

theorem sort_pairwise (l : List α) : (sort cmp l).Pairwise (Le cmp) := by
  have : IsTrans α (Le cmp) := ⟨fun _ _ _ => le_trans⟩
  have : Std.Total (Le cmp) := ⟨le_total⟩
  exact List.pairwise_insertionSort (Le cmp) l

theorem sort_sort (l : List α) : sort cmp (sort cmp l) = sort cmp l :=
  (sort_pairwise l).insertionSort_eq

/-- Elements of an untied list that tie are one. -/
theorem Untied.eq_of_tie (h : Untied cmp l) {a b : α} (ha : a ∈ l) (hb : b ∈ l) (htie : cmp a b = .eq) : a = b := by
  have hsymm : Std.Symm fun a b : α => cmp a b ≠ .eq := ⟨fun a b hab hba => hab (Std.OrientedCmp.eq_comm.mp hba)⟩
  by_contra hne
  exact List.Pairwise.forall h ha hb hne htie

/-- No order of the list shows in the sort exactly if elements that tie are one. -/
theorem sort_perm_invariant_iff :
    (∀ l', l'.Perm l → sort cmp l' = sort cmp l) ↔ ∀ a ∈ l, ∀ b ∈ l, cmp a b = .eq → a = b := by
  constructor
  · intro h a ha b hb htie
    -- of those that tie with `a`, the sort keeps the one that came first
    have hfirst {x : α} (hx : x ∈ l) (htie : cmp a x = .eq) :
        ((sort cmp l).filter (cmp a · == .eq)).head? = some x := by
      obtain ⟨front, back, heq⟩ := List.append_of_mem hx
      have hperm : (x :: (front ++ back)).Perm l := heq ▸ List.perm_middle.symm
      have htrue : (cmp a x == .eq) = true := beq_iff_eq.mpr htie
      rw [← h _ hperm, filter_sort, List.filter_cons, if_pos htrue, List.head?_cons]
      intro c _ d _ hc hd
      exact Std.TransCmp.eq_trans (Std.OrientedCmp.eq_symm (beq_iff_eq.mp hc)) (beq_iff_eq.mp hd)
    exact Option.some.inj ((hfirst ha Std.ReflCmp.compare_self).symm.trans (hfirst hb htie))
  · intro h l' hperm
    have hsame : (sort cmp l').Perm (sort cmp l) := (sort_perm l').trans (hperm.trans (sort_perm l).symm)
    refine hsame.eq_of_pairwise (fun a b ha hb hab hba => ?_) (sort_pairwise l') (sort_pairwise l)
    exact h a (hperm.mem_iff.mp (mem_sort.mp ha)) b (mem_sort.mp hb) (eq_of_le hab hba)

/-- Where none tie, every order of the list is sorted to the same list. -/
theorem Untied.sort_eq (h : Untied cmp l) (hperm : l'.Perm l) : sort cmp l' = sort cmp l :=
  sort_perm_invariant_iff.mpr (fun _ ha _ hb htie => h.eq_of_tie ha hb htie) l' hperm

theorem not_both_orders {a b : α} (hnodup : l.Nodup) (hab : [a, b].Sublist l) : ¬ [b, a].Sublist l := by
  intro hba
  induction l with
  | nil => cases hab
  | cons x rest ih =>
    obtain ⟨hx, hrest⟩ := List.nodup_cons.mp hnodup
    have hhead {c d : α} (h : [c, d].Sublist (x :: rest)) : [c, d].Sublist rest ∨ c = x ∧ d ∈ rest := by
      cases h with
      | cons _ h => exact .inl h
      | cons_cons _ h => exact .inr ⟨rfl, List.singleton_sublist.mp h⟩
    rcases hhead hab with hab' | ⟨rfl, hb⟩
    · rcases hhead hba with hba' | ⟨rfl, ha⟩
      · exact ih hrest hab' hba'
      · exact hx (hab'.subset (List.mem_cons_of_mem _ (List.mem_singleton_self _)))
    · rcases hhead hba with hba' | ⟨rfl, ha⟩
      · exact hx (hba'.subset (List.mem_cons_of_mem _ (List.mem_singleton_self _)))
      · exact hx hb

/-- Among elements that tie, what holds of the order they came in holds of the order they come out. -/
theorem sort_pairwise_tied {R : α → α → Prop} (hnodup : l.Nodup) (h : l.Pairwise R) :
    (sort cmp l).Pairwise fun a b => cmp a b = .eq → R a b := by
  have hsorted : (sort cmp l).Nodup := (sort_perm l).nodup_iff.mpr hnodup
  refine List.pairwise_iff_forall_sublist.mpr fun {a b} hab htie => ?_
  have hne : a ≠ b := fun heq => not_both_orders hsorted hab (heq ▸ hab)
  have ha : a ∈ l := mem_sort.mp (hab.subset List.mem_cons_self)
  have hb : b ∈ l := mem_sort.mp (hab.subset (List.mem_cons_of_mem _ (List.mem_singleton_self b)))
  rcases pair_sublist_of_mem hne ha hb with hbefore | hafter
  · exact List.pairwise_iff_forall_sublist.mp h hbefore
  · exact absurd (pair_sublist_sort (Std.OrientedCmp.eq_comm.mp htie) hafter) (not_both_orders hsorted hab)

/-- The list and its reverse are sorted alike only where none tie. -/
theorem untied_of_reverse (hnodup : l.Nodup) (h : sort cmp l.reverse = sort cmp l) : Untied cmp l := by
  refine List.pairwise_iff_forall_sublist.mpr fun {a b} hab htie => ?_
  have hforward := pair_sublist_sort htie hab
  have hbackward : [b, a].Sublist (sort cmp l.reverse) := by
    refine pair_sublist_sort (Std.OrientedCmp.eq_comm.mp htie) ?_
    have hreverse := hab.reverse
    exact hreverse
  rw [h] at hbackward
  exact not_both_orders ((sort_perm l).nodup_iff.mpr hnodup) hforward hbackward

/-- The order of a list of different elements shows in no sort exactly if none tie. -/
theorem sort_canonical_iff (hnodup : l.Nodup) :
    (∀ l', l'.Perm l → sort cmp l' = sort cmp l) ↔ Untied cmp l :=
  ⟨fun h => untied_of_reverse hnodup (h _ (List.reverse_perm l)), fun h _ hperm => h.sort_eq hperm⟩

end

end StableSort
