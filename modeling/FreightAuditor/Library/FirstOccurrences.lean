import Mathlib.Data.List.Basic
import Mathlib.Data.List.Pairwise

/- Collecting the elements of a list that do not repeat an earlier one.

   A program does it with an accumulator: an element joins unless one that `r` calls the
   same is there. `foldl_add` says that this is `List.eraseDupsBy` of the elements that
   the accumulator does not have. -/
namespace FirstOccurrences

variable {α : Type} {r : α → α → Bool}

/-- The element joins unless one like it is there. -/
def add (r : α → α → Bool) (l : List α) (a : α) : List α := if l.any (r a) then l else l ++ [a]

theorem foldl_add (as : List α) :
    ∀ l, as.foldl (add r) l = l ++ (as.filter (fun a => !l.any (r a))).eraseDupsBy r := by
  induction as with
  | nil => intro l; exact (List.append_nil l).symm
  | cons a rest ih =>
    intro l
    rw [List.foldl_cons, ih, add]
    cases hthere : l.any (r a) with
    | true => rw [if_pos rfl, List.filter_cons_of_neg (by rw [hthere]; decide)]
    | false =>
      rw [if_neg (by decide), List.filter_cons_of_pos (by rw [hthere]; rfl), List.eraseDupsBy_cons, List.filter_filter,
        List.append_assoc]
      refine congrArg (l ++ a :: List.eraseDupsBy r ·) (List.filter_congr fun b _ => ?_)
      rw [List.any_append, List.any_cons, List.any_nil, Bool.or_false, Bool.not_or, Bool.and_comm]
      cases r b a with
      | true => rfl
      | false => rfl

theorem add_ne_nil {l : List α} (h : l ≠ []) (a : α) : add r l a ≠ [] := by
  rw [add]
  split
  · exact h
  · simp

theorem mem_of_mem_eraseDupsBy {a : α} : ∀ {l : List α}, a ∈ l.eraseDupsBy r → a ∈ l
  | [], h => h
  | b :: rest, h => by
    rw [List.eraseDupsBy_cons] at h
    rcases List.mem_cons.mp h with rfl | h
    · exact List.mem_cons_self
    · exact List.mem_cons_of_mem _ (List.mem_of_mem_filter (mem_of_mem_eraseDupsBy h))
  termination_by l => l.length
  decreasing_by exact Nat.lt_succ_of_le (List.length_filter_le _ _)

/-- No element is like an earlier one. -/
theorem pairwise_eraseDupsBy : ∀ l : List α, (l.eraseDupsBy r).Pairwise (fun a b => r b a = false)
  | [] => .nil
  | a :: rest => by
    rw [List.eraseDupsBy_cons]
    refine List.pairwise_cons.mpr ⟨fun b hb => ?_, pairwise_eraseDupsBy _⟩
    have hunlike := (List.mem_filter.mp (mem_of_mem_eraseDupsBy hb)).2
    exact of_decide_eq_true hunlike
  termination_by l => l.length
  decreasing_by exact Nat.lt_succ_of_le (List.length_filter_le _ _)

theorem nodup_eraseDups [BEq α] [LawfulBEq α] (l : List α) : l.eraseDups.Nodup :=
  (pairwise_eraseDupsBy l).imp fun h heq => by
    rw [heq, beq_self_eq_true] at h
    cases h

/-- Where it is not there yet, an element comes last. -/
theorem eraseDups_concat [BEq α] [LawfulBEq α] (l : List α) (a : α) :
    (l ++ [a]).eraseDups = add (· == ·) l.eraseDups a := by
  have hany : l.eraseDups.any (a == ·) = l.contains a := by
    rw [List.contains_eq_any_beq]
    exact Bool.eq_iff_iff.mpr (by simp)
  rw [List.eraseDups_append, add, hany]
  cases hthere : l.contains a with
  | true =>
    have hnone : [a].removeAll l = [] := List.filter_eq_nil_iff.mpr (by simpa using hthere)
    rw [hnone, if_pos rfl, List.eraseDups_nil, List.append_nil]
  | false =>
    have hall : [a].removeAll l = [a] := List.filter_eq_self.mpr (by simpa using hthere)
    have hone : [a].eraseDups = [a] := by rw [List.eraseDups_cons]; rfl
    rw [hall, hone, if_neg (by decide)]

/-- What comes up first comes first. -/
theorem pair_sublist_eraseDups [BEq α] [LawfulBEq α] {a b : α} {front back : List α} (hne : a ≠ b) (ha : a ∉ front)
    (hb : b ∉ front) (hback : b ∈ back) : [a, b].Sublist (front ++ a :: back).eraseDups := by
  have hlater : b ∈ (((a :: back).removeAll front).tail.filter fun c => !c == a).eraseDups := by
    rw [List.mem_eraseDups, List.mem_filter, List.removeAll, List.filter_cons_of_pos (by simpa using ha), List.tail_cons,
      List.mem_filter]
    exact ⟨⟨hback, by simpa using hb⟩, by simpa using Ne.symm hne⟩
  rw [List.removeAll, List.filter_cons_of_pos (by simpa using ha), List.tail_cons] at hlater
  rw [List.eraseDups_append, List.removeAll, List.filter_cons_of_pos (by simpa using ha), List.eraseDups_cons]
  exact (List.Sublist.cons_cons _ (List.singleton_sublist.mpr hlater)).trans (List.sublist_append_right _ _)

end FirstOccurrences
