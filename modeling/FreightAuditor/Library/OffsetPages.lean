import Mathlib.Data.List.Perm.Basic
import Mathlib.Data.List.Sort

/- Pages of a sorted query.

   A query answers its rows sorted; rows that tie come in any order, and in another one the
   next time. A page is what one query answers from an offset on. So the pages of as many
   queries show each row once, and in order, exactly if the rows that tie never stand on
   two pages (`showsEachOnce_iff`). -/
namespace OffsetPages

variable {α : Type} (le : α → α → Prop) [DecidableRel le]

/-- What a query answers that comes by its rows in this order. -/
def page (rows : List α) (limit offset : ℕ) : List α := ((rows.insertionSort le).drop offset).take limit

/-- The first `n` pages; the i-th query comes by its rows in the order of `order i`. -/
def pages (order : ℕ → List α) (limit n : ℕ) : List α :=
  (List.range n).flatMap fun i => page le (order i) limit (i * limit)

/-- Whatever the orders, the pages show each row once, and in order. -/
def ShowsEachOnce (rows : List α) (limit n : ℕ) : Prop :=
  ∀ order : ℕ → List α, (∀ i, (order i).Perm rows) →
    (pages le order limit n).Perm rows ∧ (pages le order limit n).Pairwise le

/-- How many rows come before this one, however those that tie with it are ordered. -/
def before (rows : List α) (a : α) : ℕ := rows.countP fun b => ¬ le a b

/-- How many come before it or tie with it. -/
def upTo (rows : List α) (a : α) : ℕ := rows.countP fun b => le b a

/-- The first and the last of the rows that tie with this one stand on one page. -/
def OnOnePage (rows : List α) (limit : ℕ) (a : α) : Prop := before le rows a / limit = (upTo le rows a - 1) / limit

instance (rows : List α) (limit : ℕ) (a : α) : Decidable (OnOnePage le rows limit a) :=
  inferInstanceAs (Decidable (_ = _))

/-! ## Where the rows with a property end -/

section

variable {p : α → Bool} {s : List α}

/-- A property that only the first rows have is that of the first so many. -/
theorem take_countP (h : s.Pairwise fun a b => p b = true → p a = true) : s.take (s.countP p) = s.filter p := by
  induction s with
  | nil => rfl
  | cons a s ih =>
    obtain ⟨ha, hs⟩ := List.pairwise_cons.mp h
    by_cases hp : p a = true
    · rw [List.countP_cons_of_pos hp, List.take_succ_cons, List.filter_cons_of_pos hp, ih hs]
    · have hnone : ∀ b ∈ a :: s, ¬ p b = true := by
        intro b hb
        rcases List.mem_cons.mp hb with rfl | hb
        · exact hp
        · exact fun hpb => hp (ha b hb hpb)
      rw [List.countP_eq_zero.mpr hnone, List.take_zero, List.filter_eq_nil_iff.mpr hnone]

theorem getElem_iff_lt_countP (h : s.Pairwise fun a b => p b = true → p a = true) :
    ∀ (j : ℕ) (hj : j < s.length), p s[j] = true ↔ j < s.countP p := by
  induction s with
  | nil => exact fun j hj => absurd hj (Nat.not_lt_zero j)
  | cons a s ih =>
    obtain ⟨ha, hs⟩ := List.pairwise_cons.mp h
    intro j hj
    by_cases hp : p a = true
    · rw [List.countP_cons_of_pos hp]
      cases j with
      | zero => exact iff_of_true hp (Nat.succ_pos _)
      | succ j => exact (ih hs j (Nat.lt_of_succ_lt_succ hj)).trans Nat.succ_lt_succ_iff.symm
    · have hnone : ∀ b ∈ a :: s, ¬ p b = true := by
        intro b hb
        rcases List.mem_cons.mp hb with rfl | hb
        · exact hp
        · exact fun hpb => hp (ha b hb hpb)
      rw [List.countP_eq_zero.mpr hnone]
      exact iff_of_false (hnone _ (List.getElem_mem hj)) (Nat.not_lt_zero j)

end

section

variable {le} {rows s s' : List α} {limit n : ℕ}

theorem mem_page {s : List α} {offset j : ℕ} (hj : j < s.length) (hfrom : offset ≤ j) (hto : j < offset + limit) :
    s[j] ∈ (s.drop offset).take limit := by
  obtain ⟨d, rfl⟩ := Nat.exists_eq_add_of_le hfrom
  have hd : d < ((s.drop offset).take limit).length := by
    rw [List.length_take, List.length_drop]
    omega
  have hget : ((s.drop offset).take limit)[d] = s[offset + d] := by
    rw [List.getElem_take, List.getElem_drop]
  exact hget ▸ List.getElem_mem hd

section

variable [IsTrans α le]

theorem pairwise_before (hs : s.Pairwise le) (a : α) :
    s.Pairwise fun b c => decide (¬ le a c) = true → decide (¬ le a b) = true := by
  refine hs.imp fun {b c} hbc hc => ?_
  rw [decide_eq_true_eq] at hc ⊢
  exact fun hab => hc (trans_of le hab hbc)

theorem pairwise_upTo (hs : s.Pairwise le) (a : α) :
    s.Pairwise fun b c => decide (le c a) = true → decide (le b a) = true := by
  refine hs.imp fun {b c} hbc hc => ?_
  rw [decide_eq_true_eq] at hc ⊢
  exact trans_of le hbc hc

/-- In any order, a row stands among those that tie with `a` exactly between these positions. -/
theorem getElem_ties_iff (hs : s.Pairwise le) (hperm : s.Perm rows) (a : α) {j : ℕ} (hj : j < s.length) :
    (le a s[j] ↔ before le rows a ≤ j) ∧ (le s[j] a ↔ j < upTo le rows a) := by
  have hfirst := getElem_iff_lt_countP (pairwise_before hs a) j hj
  have hlast := getElem_iff_lt_countP (pairwise_upTo hs a) j hj
  rw [hperm.countP_eq, decide_eq_true_eq] at hfirst hlast
  exact ⟨by rw [← Nat.not_lt, before, ← hfirst, not_not], hlast⟩

variable [Std.Refl le]

/-- Where no page ends between rows that tie, the first pages have the same rows in any order. -/
theorem take_perm (hone : ∀ a ∈ rows, OnOnePage le rows limit a) (hlimit : 0 < limit) (hs : s.Pairwise le)
    (hperm : s.Perm rows) (hs' : s'.Pairwise le) (hperm' : s'.Perm rows) (i : ℕ) :
    (s.take (i * limit)).Perm (s'.take (i * limit)) := by
  by_cases hend : i * limit < s'.length
  · -- the row after the page's end comes after all those that stand before it
    obtain ⟨hbefore, hupTo⟩ := getElem_ties_iff hs' hperm' s'[i * limit] hend
    have hrefl : le s'[i * limit] s'[i * limit] := refl_of le _
    have hfrom := hbefore.mp hrefl
    have hto := hupTo.mp hrefl
    have hpage : before le rows s'[i * limit] = i * limit := by
      have hsame := hone s'[i * limit] (hperm'.mem_iff.mp (List.getElem_mem hend))
      have hhigh : i ≤ (upTo le rows s'[i * limit] - 1) / limit := by
        rw [Nat.le_div_iff_mul_le hlimit]
        omega
      have hexact : i ≤ before le rows s'[i * limit] / limit := hsame ▸ hhigh
      rw [Nat.le_div_iff_mul_le hlimit] at hexact
      exact Nat.le_antisymm hfrom hexact
    have htake {t : List α} (ht : t.Pairwise le) (hpermt : t.Perm rows) :
        (t.take (i * limit)).Perm (rows.filter fun b => ¬ le s'[i * limit] b) := by
      have hcount := take_countP (pairwise_before ht s'[i * limit])
      rw [hpermt.countP_eq, ← before, hpage] at hcount
      rw [hcount]
      exact hpermt.filter _
    exact (htake hs hperm).trans (htake hs' hperm').symm
  · have hlength : s.length = s'.length := hperm.length_eq.trans hperm'.length_eq.symm
    rw [List.take_of_length_le (by omega), List.take_of_length_le (by omega)]
    exact hperm.trans hperm'.symm

/-- So have single pages. -/
theorem page_perm (hone : ∀ a ∈ rows, OnOnePage le rows limit a) (hlimit : 0 < limit) (hs : s.Pairwise le)
    (hperm : s.Perm rows) (hs' : s'.Pairwise le) (hperm' : s'.Perm rows) (i : ℕ) :
    ((s.drop (i * limit)).take limit).Perm ((s'.drop (i * limit)).take limit) := by
  have hnext := take_perm hone hlimit hs hperm hs' hperm' (i + 1)
  have hprefix := take_perm hone hlimit hs hperm hs' hperm' i
  rw [Nat.succ_mul, List.take_add, List.take_add] at hnext
  exact (List.perm_append_left_iff _).mp (((List.Perm.append_right _ hprefix).symm).trans hnext)

end

/-- The pages of one order. -/
theorem flatMap_pages (s : List α) (limit n : ℕ) :
    ((List.range n).flatMap fun i => (s.drop (i * limit)).take limit) = s.take (n * limit) := by
  induction n with
  | zero => simp
  | succ n ih => rw [List.range_succ, List.flatMap_append, ih, List.flatMap_singleton, Nat.succ_mul, List.take_add]

omit [DecidableRel le] in
theorem pairwise_swap {l r : List α} {a b : α} (h : (l ++ a :: b :: r).Pairwise le) (hba : le b a) :
    (l ++ b :: a :: r).Pairwise le := by
  simp only [List.pairwise_append, List.pairwise_cons, List.forall_mem_cons] at h ⊢
  obtain ⟨hl, ⟨⟨-, har⟩, hbr, hr⟩, hlr⟩ := h
  refine ⟨hl, ⟨⟨hba, hbr⟩, har, hr⟩, fun c hc => ?_⟩
  obtain ⟨hca, hcb, hcr⟩ := hlr c hc
  exact ⟨hcb, hca, hcr⟩

variable [IsTrans α le] [Std.Total le]

theorem showsEachOnce_of_onOnePage (hone : ∀ a ∈ rows, OnOnePage le rows limit a) (hlimit : 0 < limit)
    (hn : rows.length ≤ n * limit) : ShowsEachOnce le rows limit n := by
  intro order horder
  have hsorted (i : ℕ) : ((order i).insertionSort le).Pairwise le := List.pairwise_insertionSort le _
  have hperm (i : ℕ) : ((order i).insertionSort le).Perm rows := (List.perm_insertionSort le _).trans (horder i)
  have hpage (i : ℕ) : (page le (order i) limit (i * limit)).Perm
      ((((order 0).insertionSort le).drop (i * limit)).take limit) :=
    page_perm hone hlimit (hsorted i) (hperm i) (hsorted 0) (hperm 0) i
  have hall : ((List.range n).flatMap fun i => (((order 0).insertionSort le).drop (i * limit)).take limit) =
      (order 0).insertionSort le := by
    rw [flatMap_pages]
    exact List.take_of_length_le (by rw [(hperm 0).length_eq]; exact hn)
  constructor
  · refine (List.Perm.flatMap_left _ fun i _ => hpage i).trans ?_
    rw [hall]
    exact hperm 0
  · have hpairs := hsorted 0
    rw [← hall, List.pairwise_flatMap] at hpairs
    refine List.pairwise_flatMap.mpr ⟨fun i _ => ?_, hpairs.2.imp fun {i j} hij a ha b hb => ?_⟩
    · exact (hsorted i).sublist ((List.take_sublist _ _).trans (List.drop_sublist _ _))
    · exact hij a ((hpage i).mem_iff.mp ha) b ((hpage j).mem_iff.mp hb)

/-- Two rows that tie across a page's end change places from one query to the next, and one is shown twice. -/
theorem onOnePage_of_showsEachOnce (hnodup : rows.Nodup) (hlimit : 0 < limit) (hn : rows.length ≤ n * limit)
    (h : ShowsEachOnce le rows limit n) : ∀ a ∈ rows, OnOnePage le rows limit a := by
  intro a ha
  by_contra hnot
  let s := rows.insertionSort le
  have hs : s.Pairwise le := List.pairwise_insertionSort le rows
  have hperm : s.Perm rows := List.perm_insertionSort le rows
  -- `i` is the page of the last that ties, `k` where it begins
  let i := (upTo le rows a - 1) / limit
  let k := i * limit
  have hk : k ≤ upTo le rows a - 1 := Nat.div_mul_le_self _ _
  have hupTo : upTo le rows a ≤ s.length := hperm.length_eq ▸ List.countP_le_length
  obtain ⟨j, hj, hget⟩ := List.getElem_of_mem (hperm.mem_iff.mpr ha)
  have hties := getElem_ties_iff hs hperm a hj
  rw [hget] at hties
  have hfrom := hties.1.mp (refl_of le a)
  have hto := hties.2.mp (refl_of le a)
  have hlt : before le rows a / limit < i := by
    refine lt_of_le_of_ne (Nat.div_le_div_right (by omega)) ?_
    exact hnot
  have hbefore : before le rows a < k := (Nat.div_lt_iff_lt_mul hlimit).mp hlt
  have hkLength : k < s.length := by omega
  have hprev : k - 1 < s.length := by omega
  have hback : le s[k] s[k - 1] := by
    have hfirst := (getElem_ties_iff hs hperm a hkLength).2.mpr (by omega)
    have hsecond := (getElem_ties_iff hs hperm a hprev).1.mpr (by omega)
    exact trans_of le hfirst hsecond
  have hsplit : s = s.take (k - 1) ++ s[k - 1] :: s[k] :: s.drop (k + 1) := by
    have hlast : s.drop k = s[k] :: s.drop (k + 1) := List.drop_eq_getElem_cons hkLength
    have hfirst : s.drop (k - 1) = s[k - 1] :: s.drop (k - 1 + 1) := List.drop_eq_getElem_cons hprev
    rw [Nat.sub_add_cancel (by omega), hlast] at hfirst
    rw [← hfirst, List.take_append_drop]
  let swapped := s.take (k - 1) ++ s[k] :: s[k - 1] :: s.drop (k + 1)
  have hswapped : swapped.Pairwise le := by
    refine pairwise_swap ?_ hback
    rw [← hsplit]
    exact hs
  have hpermSwapped : swapped.Perm rows := by
    have hswap : swapped.Perm s := by
      conv_rhs => rw [hsplit]
      exact (List.Perm.swap _ _ _).append_left _
    exact hswap.trans hperm
  have hgetSwapped : ∃ hlength : k < swapped.length, swapped[k] = s[k - 1] := by
    have hlength : k < swapped.length := by rw [hpermSwapped.length_eq, ← hperm.length_eq]; exact hkLength
    refine ⟨hlength, ?_⟩
    have htake : (s.take (k - 1)).length = k - 1 := List.length_take_of_le (by omega)
    rw [List.getElem_append_right (by omega)]
    simp only [htake, show k - (k - 1) = 1 by omega, List.getElem_cons_succ, List.getElem_cons_zero]
  let order : ℕ → List α := fun j => if j < i then s else swapped
  obtain ⟨hshown, -⟩ := h order fun j => by
    show (if j < i then s else swapped).Perm rows
    split
    · exact hperm
    · exact hpermSwapped
  have hpages := hshown.nodup_iff.mpr hnodup
  obtain ⟨-, hdisjoint⟩ := List.nodup_flatMap.mp hpages
  have hi : i < n := by
    have hreach : i * limit < n * limit := by
      rw [← hperm.length_eq] at hn
      exact lt_of_lt_of_le hkLength hn
    exact Nat.lt_of_mul_lt_mul_right hreach
  have hpos : 0 < i := Nat.pos_of_ne_zero fun hzero => by
    have hk0 : k = 0 := by show i * limit = 0; rw [hzero, Nat.zero_mul]
    omega
  have hstep : k = (i - 1) * limit + limit := by
    show i * limit = _
    rw [← Nat.succ_mul, Nat.succ_eq_add_one, Nat.sub_add_cancel hpos]
  have hone : s[k - 1] ∈ page le (order (i - 1)) limit ((i - 1) * limit) := by
    have hfirst : order (i - 1) = s := if_pos (by omega)
    rw [page, hfirst, hs.insertionSort_eq]
    exact mem_page hprev (by omega) (by omega)
  have htwo : s[k - 1] ∈ page le (order i) limit (i * limit) := by
    obtain ⟨hlength, hmoved⟩ := hgetSwapped
    have hsecond : order i = swapped := if_neg (lt_irrefl i)
    rw [page, hsecond, hswapped.insertionSort_eq, ← hmoved]
    exact mem_page hlength (le_refl k) (by omega)
  have hapart := List.pairwise_iff_getElem.mp hdisjoint (i - 1) i (by rw [List.length_range]; omega)
    (by rw [List.length_range]; exact hi) (by omega)
  rw [List.getElem_range, List.getElem_range] at hapart
  exact hapart hone htwo

/-- The pages show each row once, and in order, if and only if the rows that tie stand on one page. -/
theorem showsEachOnce_iff (hnodup : rows.Nodup) (hlimit : 0 < limit) (hn : rows.length ≤ n * limit) :
    ShowsEachOnce le rows limit n ↔ ∀ a ∈ rows, OnOnePage le rows limit a :=
  ⟨onOnePage_of_showsEachOnce hnodup hlimit hn, fun hone => showsEachOnce_of_onOnePage hone hlimit hn⟩

end

end OffsetPages
