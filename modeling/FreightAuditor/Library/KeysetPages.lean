import Mathlib.Data.List.Sort
import Mathlib.Order.Defs.LinearOrder

/- Pages of a sorted query, each from the last row of the one before.

   Rows are sorted by their time, the newest first, and rows of one time by their id. As no two rows have
   one id, the rows after one of them are a tail of the sorted rows (`filter_after`). So where each
   page is cut from the rows after the cursor's, and a cursor is given exactly if a row is left,
   following the cursors ends and shows the sorted rows (`follow_all`). -/
namespace KeysetPages

section

variable {α τ ι : Type} [LinearOrder τ] [LinearOrder ι] (time : α → τ) (id : α → ι)

/-- `ORDER BY time DESC, id ASC`. -/
def le (a b : α) : Prop := time b < time a ∨ time a = time b ∧ id a ≤ id b

/-- The row comes after one of this time and id. -/
def After (anchorTime : τ) (anchorId : ι) (row : α) : Prop :=
  time row < anchorTime ∨ time row = anchorTime ∧ anchorId < id row

instance : DecidableRel (le time id) := fun _ _ => inferInstanceAs (Decidable (_ ∨ _))

instance (anchorTime : τ) (anchorId : ι) : DecidablePred (After time id anchorTime anchorId) :=
  fun _ => inferInstanceAs (Decidable (_ ∨ _))

/-- `ORDER BY`. -/
def sorted (rows : List α) : List α := rows.insertionSort (le time id)

variable {time id} {a b c : α} {rows s : List α}

theorem trans_le (hab : le time id a b) (hbc : le time id b c) : le time id a c := by
  rcases hab with hab | ⟨hab, hid⟩
  · rcases hbc with hbc | ⟨hbc, -⟩
    · exact .inl (hbc.trans hab)
    · exact .inl (hbc ▸ hab)
  · rcases hbc with hbc | ⟨hbc, hid'⟩
    · exact .inl (hab ▸ hbc)
    · exact .inr ⟨hab.trans hbc, hid.trans hid'⟩

theorem total_le (a b : α) : le time id a b ∨ le time id b a := by
  rcases lt_trichotomy (time a) (time b) with hlt | heq | hgt
  · exact .inr (.inl hlt)
  · rcases le_total (id a) (id b) with hid | hid
    · exact .inl (.inr ⟨heq, hid⟩)
    · exact .inr (.inr ⟨heq.symm, hid⟩)
  · exact .inl (.inl hgt)

instance : IsTrans α (le time id) := ⟨fun _ _ _ => trans_le⟩

instance : Std.Total (le time id) := ⟨total_le⟩

theorem id_eq_of_le (hab : le time id a b) (hba : le time id b a) : id a = id b := by
  rcases hab with hab | ⟨heq, hid⟩
  · rcases hba with hba | ⟨heq, -⟩
    · exact absurd hab hba.asymm
    · exact absurd heq hab.ne
  · rcases hba with hba | ⟨-, hid'⟩
    · exact absurd heq.symm hba.ne'
    · exact le_antisymm hid hid'

/-- A row comes after another exactly if it is not sorted before it. -/
theorem after_iff (a b : α) : After time id (time a) (id a) b ↔ ¬ le time id b a := by
  simp only [After, le, not_or, not_and, not_lt, not_le]
  constructor
  · rintro (hlt | ⟨heq, hid⟩)
    · exact ⟨hlt.le, fun heq => absurd heq hlt.ne⟩
    · exact ⟨heq.le, fun _ => hid⟩
  · rintro ⟨hle, hid⟩
    rcases hle.lt_or_eq with hlt | heq
    · exact .inl hlt
    · exact .inr ⟨heq, hid heq⟩

theorem sorted_perm (rows : List α) : (sorted time id rows).Perm rows := List.perm_insertionSort _ rows

theorem sorted_pairwise (rows : List α) : (sorted time id rows).Pairwise (le time id) := List.pairwise_insertionSort _ rows

/-- Rows without a common id are sorted in one way. -/
theorem eq_of_perm {s t : List α} (hnodup : (s.map id).Nodup) (hs : s.Pairwise (le time id)) (ht : t.Pairwise (le time id))
    (hperm : s.Perm t) : s = t := by
  refine hperm.eq_of_pairwise (fun a b ha hb hab hba => ?_) hs ht
  exact List.inj_on_of_nodup_map hnodup ha (hperm.mem_iff.mpr hb) (id_eq_of_le hab hba)

/-- Selecting rows and sorting them may change places. -/
theorem sorted_filter (hnodup : (rows.map id).Nodup) (p : α → Bool) :
    sorted time id (rows.filter p) = (sorted time id rows).filter p := by
  refine eq_of_perm ?_ (sorted_pairwise _) ((sorted_pairwise rows).filter p) ?_
  · exact ((sorted_perm _).map id).nodup_iff.mpr (hnodup.sublist (List.filter_sublist.map id))
  · exact (sorted_perm _).trans ((sorted_perm rows).filter p).symm

/-- The rows after one of the sorted rows are those that stand behind it. -/
theorem filter_after_append {l r : List α} (hnodup : ((l ++ a :: r).map id).Nodup) (hs : (l ++ a :: r).Pairwise (le time id)) :
    ((l ++ a :: r).filter fun row => After time id (time a) (id a) row) = r := by
  obtain ⟨-, htail, hbefore⟩ := List.pairwise_append.mp hs
  have hbehind := (List.pairwise_cons.mp htail).1
  have hnone : ∀ b ∈ l, ¬ After time id (time a) (id a) b := by
    intro b hb hafter
    exact (after_iff a b).mp hafter (hbefore b hb a List.mem_cons_self)
  have hself : ¬ After time id (time a) (id a) a := fun hafter => (after_iff a a).mp hafter ((total_le a a).elim (·) (·))
  have hall : ∀ b ∈ r, After time id (time a) (id a) b := by
    intro b hb
    refine (after_iff a b).mpr fun hba => ?_
    have hid : id a = id b := id_eq_of_le (hbehind b hb) hba
    rw [List.map_append, List.map_cons] at hnodup
    refine (List.nodup_cons.mp (List.nodup_append.mp hnodup).2.1).1 ?_
    exact hid ▸ List.mem_map_of_mem hb
  rw [List.filter_append, List.filter_eq_nil_iff.mpr fun b hb => by simpa using hnone b hb, List.nil_append,
    List.filter_cons_of_neg (by simpa using hself), List.filter_eq_self.mpr fun b hb => by simpa using hall b hb]

theorem filter_after (hnodup : (s.map id).Nodup) (hs : s.Pairwise (le time id)) {i : ℕ} (hi : i < s.length) :
    (s.filter fun row => After time id (time s[i]) (id s[i]) row) = s.drop (i + 1) := by
  have hsplit : s.take i ++ s[i] :: s.drop (i + 1) = s := by
    rw [List.getElem_cons_drop, List.take_append_drop]
  have h := filter_after_append (l := s.take i) (r := s.drop (i + 1)) (hsplit.symm ▸ hnodup) (hsplit.symm ▸ hs)
  rwa [hsplit] at h

end

section

variable {α κ : Type}

/-- The first `limit` of the rows, and the cursor of the last of them if there are more. -/
def paginate (cursorOf : α → κ) (rows : List α) (limit : ℕ) : List α × Option κ :=
  if rows.length > limit then (rows.take limit, (rows.take limit).getLast?.map cursorOf) else (rows, none)

/-- Asks for a page, then for that of its cursor, until there is none; `none` where a page is refused or
    `fuel` is used up. -/
def follow (getPage : Option κ → Option (List α × Option κ)) : ℕ → Option κ → Option (List α)
  | 0, _ => none
  | fuel + 1, cursor =>
    match getPage cursor with
    | none => none
    | some (page, none) => some page
    | some (page, some next) => (follow getPage fuel (some next)).map (page ++ ·)

variable {getPage : Option κ → Option (List α × Option κ)} {cursorOf : α → κ} {s : List α} {limit : ℕ}

/-- From a page on, the pages are the rows that are left. -/
theorem follow_from (hlimit : 1 ≤ limit)
    (hnext : ∀ i (hi : i < s.length), getPage (some (cursorOf s[i])) =
      some (paginate cursorOf ((s.drop (i + 1)).take (limit + 1)) limit))
    {fuel i : ℕ} (hfuel : s.length - i < fuel) {cursor : Option κ}
    (hpage : getPage cursor = some (paginate cursorOf ((s.drop i).take (limit + 1)) limit)) :
    follow getPage fuel cursor = some (s.drop i) := by
  induction fuel generalizing i cursor with
  | zero => exact absurd hfuel (Nat.not_lt_zero _)
  | succ fuel ih =>
    by_cases hmore : limit < s.length - i
    · -- a row is left, and the next page starts behind the last of this one
      have hlast : i + limit - 1 < s.length := by omega
      have htake : ((s.drop i).take (limit + 1)).take limit = (s.drop i).take limit := by
        rw [List.take_take, Nat.min_eq_left (Nat.le_succ limit)]
      have hcursor : ((s.drop i).take limit).getLast? = some s[i + limit - 1] := by
        have hget : (s.drop i)[limit - 1]? = some s[i + limit - 1] := by
          rw [List.getElem?_drop, ← Nat.add_sub_assoc hlimit, List.getElem?_eq_getElem hlast]
        rw [List.getLast?_take, if_neg (by omega), hget, Option.some_or]
      have hthis : paginate cursorOf ((s.drop i).take (limit + 1)) limit =
          ((s.drop i).take limit, some (cursorOf s[i + limit - 1])) := by
        have hlength : ((s.drop i).take (limit + 1)).length > limit := by
          rw [List.length_take, List.length_drop]
          omega
        rw [paginate, if_pos hlength, htake, hcursor]
        rfl
      have hrest := ih (i := i + limit) (by omega) (by
        have h := hnext (i + limit - 1) hlast
        rwa [Nat.sub_add_cancel (by omega)] at h)
      rw [follow, hpage, hthis]
      simp only [hrest, Option.map_some]
      rw [← List.drop_drop, List.take_append_drop]
    · have hall : (s.drop i).take (limit + 1) = s.drop i := List.take_of_length_le (by rw [List.length_drop]; omega)
      have hthis : paginate cursorOf ((s.drop i).take (limit + 1)) limit = (s.drop i, none) := by
        rw [hall, paginate, if_neg (by rw [List.length_drop]; omega)]
      rw [follow, hpage, hthis]

/-- Following the cursors from the first page ends, and shows each row once and in order. -/
theorem follow_all (hlimit : 1 ≤ limit) (hfirst : getPage none = some (paginate cursorOf (s.take (limit + 1)) limit))
    (hnext : ∀ i (hi : i < s.length), getPage (some (cursorOf s[i])) =
      some (paginate cursorOf ((s.drop (i + 1)).take (limit + 1)) limit))
    {fuel : ℕ} (hfuel : s.length < fuel) : follow getPage fuel none = some s :=
  follow_from (i := 0) hlimit hnext hfuel hfirst

end

end KeysetPages
