import Mathlib.Data.Prod.Lex
import Mathlib.Order.Bounds.Basic
import FreightAuditor.Library.Buckets
import FreightAuditor.Library.FirstOccurrences
import FreightAuditor.Library.StableSort
import FreightAuditor.Library.UuidText
import FreightAuditor.RubricResolver.Cascade

/- The fold of the selected rubric layers into operations, one list a criterion.

   `foldRubricTiers` sorts three times: the layers by tier, the memberships of a layer by
   their order and key, the criteria by their least order and key. In between a map
   groups by key and keeps the order in which the keys come up. Keys are compared by a
   collation, which may call different keys equal.

   What is proved here: whatever order the selection returns, the fold keeps each
   membership once, under its trimmed key and in tier order; and the order does not show
   in the result exactly if no sort is left with a choice (`foldRubricTiers_asSet_iff`):
   two memberships of one criterion and order in one layer, or two criteria that the
   collation calls equal and that come first at the same place. -/
namespace RubricResolver

open ExceptOk StableSort

/-! ## The layers -/

structure RubricMembership where
  criterionKey : String
  criterionVersionId : Option String
  overrideVerb : OverrideVerb
  overridePayload : Option Json.Value
  evalOrder : ℤ

structure RubricLayer where
  tier : RubricTier
  rubricId : String
  rubricVersionId : String
  memberships : List RubricMembership

/-- Its code is `RUBRIC_FOLD_INVALID`. -/
structure RubricFoldInputError where
  message : String
  deriving DecidableEq

/-- The place in `TIERS`. -/
def RubricTier.index : RubricTier → ℕ
  | .STANDARD => 0
  | .CLIENT => 1
  | .CONTRACT => 2

/-- `z.string().uuid()`: a version from 1 to 8 and the variant of the standard, or one of the two
special uuids. -/
def isUuid (text : String) : Bool :=
  (Uuid.wellFormed text.toList && ['1', '2', '3', '4', '5', '6', '7', '8'].contains (text.toList.getD 14 ' ') &&
      ['8', '9', 'a', 'b', 'A', 'B'].contains (text.toList.getD 19 ' ')) ||
    text == "00000000-0000-0000-0000-000000000000" || text == "ffffffff-ffff-ffff-ffff-ffffffffffff"

def RubricMembership.accepted (m : RubricMembership) : Bool :=
  JsText.trim m.criterionKey ≠ "" && m.criterionVersionId.all isUuid && m.evalOrder.natAbs < 2 ^ 53

/-- `LayerSchema` accepts the layer. -/
def RubricLayer.accepted (l : RubricLayer) : Bool :=
  isUuid l.rubricId && isUuid l.rubricVersionId && l.memberships.all RubricMembership.accepted

/-- What `LayerSchema` makes of a membership. -/
def RubricMembership.parsed (m : RubricMembership) : RubricMembership :=
  { m with criterionKey := JsText.trim m.criterionKey }

def RubricLayer.parsed (l : RubricLayer) : RubricLayer :=
  { l with memberships := l.memberships.map RubricMembership.parsed }

/-! ## The fold -/

def operationOf (layer : RubricLayer) (m : RubricMembership) : Operation :=
  ⟨m.criterionKey, m.criterionVersionId, m.overrideVerb, m.overridePayload, m.evalOrder, layer.tier,
    layer.rubricVersionId⟩

/-- The operation joins those of its criterion, in a map that keeps the order of its keys. -/
def pushOperation : List FoldedCriterionOperations → Operation → List FoldedCriterionOperations
  | [], o => [⟨o.criterionKey, [o]⟩]
  | c :: rest, o =>
    if c.criterionKey = o.criterionKey then ⟨c.criterionKey, c.operations ++ [o]⟩ :: rest
    else c :: pushOperation rest o

/-- The least order of the operations of a criterion; there is one. -/
def leastOrder (c : FoldedCriterionOperations) : ℤ := ((c.operations.map (·.evalOrder)).min?).getD 0

def compareTiers (a b : RubricLayer) : Ordering := compare a.tier.index b.tier.index

section

variable (localeCompare : String → String → Ordering)

def compareMemberships (a b : RubricMembership) : Ordering :=
  (compare a.evalOrder b.evalOrder).then (localeCompare a.criterionKey b.criterionKey)

def compareCriteria (a b : FoldedCriterionOperations) : Ordering :=
  (compare (leastOrder a) (leastOrder b)).then (localeCompare a.criterionKey b.criterionKey)

def layerOperations (layer : RubricLayer) : List Operation :=
  (sort (compareMemberships localeCompare) layer.memberships).map (operationOf layer)

/-- Build the deterministic cascade; verb semantics are applied by later stages. -/
def foldRubricTiers (untrustedLayers : List RubricLayer) :
    Except RubricFoldInputError (List FoldedCriterionOperations) := do
  if ¬ untrustedLayers.all RubricLayer.accepted then throw ⟨"Invalid rubric tier fold input"⟩
  let layers := sort compareTiers (untrustedLayers.map RubricLayer.parsed)
  if ¬ (layers.map (·.tier)).Nodup then throw ⟨"Multiple selected rubric versions for one tier"⟩
  let grouped := layers.foldl (fun grouped layer => (layerOperations localeCompare layer).foldl pushOperation grouped) []
  return sort (compareCriteria localeCompare) grouped

end

/-! ## The map of criteria -/

def operationsFor (ops : List Operation) (key : String) : List Operation := ops.filter (·.criterionKey = key)

/-- The criteria in the order in which they come up, each with its operations. -/
def criteria (ops : List Operation) : List FoldedCriterionOperations :=
  (ops.map (·.criterionKey)).eraseDups.map fun key => ⟨key, operationsFor ops key⟩

theorem pushOperation_map {keys : List String} {F : String → List Operation} {o : Operation} (hnodup : keys.Nodup)
    (hnew : o.criterionKey ∉ keys → F o.criterionKey = []) :
    pushOperation (keys.map fun key => ⟨key, F key⟩) o =
      (FirstOccurrences.add (· == ·) keys o.criterionKey).map fun key =>
        ⟨key, F key ++ if o.criterionKey = key then [o] else []⟩ := by
  induction keys with
  | nil =>
    have hempty := hnew List.not_mem_nil
    simp [pushOperation, FirstOccurrences.add, hempty]
  | cons key rest ih =>
    obtain ⟨hkey, hrest⟩ := List.nodup_cons.mp hnodup
    rw [List.map_cons, pushOperation]
    by_cases hsame : key = o.criterionKey
    · subst hsame
      have hthere : FirstOccurrences.add (· == ·) (o.criterionKey :: rest) o.criterionKey = o.criterionKey :: rest :=
        if_pos (by simp)
      rw [if_pos rfl, hthere, List.map_cons, if_pos rfl]
      refine congrArg (_ :: ·) (List.map_congr_left fun key hmem => ?_)
      have hother : o.criterionKey ≠ key := fun heq => hkey (heq ▸ hmem)
      rw [if_neg hother, List.append_nil]
    · have hadd : FirstOccurrences.add (· == ·) (key :: rest) o.criterionKey =
          key :: FirstOccurrences.add (· == ·) rest o.criterionKey := by
        have hne : (o.criterionKey == key) = false := beq_false_of_ne (Ne.symm hsame)
        rw [FirstOccurrences.add, FirstOccurrences.add, List.any_cons, hne, Bool.false_or]
        split
        · rfl
        · rfl
      rw [if_neg hsame, ih hrest fun h => hnew fun hmem => ?_, hadd, List.map_cons, if_neg (Ne.symm hsame), List.append_nil]
      rcases List.mem_cons.mp hmem with heq | hmem
      · exact hsame heq.symm
      · exact h hmem

/-- Operation by operation the map comes out as the criteria. -/
theorem foldl_pushOperation (ops : List Operation) : ops.foldl pushOperation [] = criteria ops := by
  induction ops using List.reverseRecOn with
  | nil => rfl
  | append_singleton ops o ih =>
    rw [List.foldl_concat, ih, criteria, pushOperation_map, criteria, List.map_append, List.map_singleton,
      FirstOccurrences.eraseDups_concat]
    · refine List.map_congr_left fun key _ => ?_
      rw [operationsFor, operationsFor, List.filter_append, List.filter_singleton]
      simp
    · exact FirstOccurrences.nodup_eraseDups _
    · intro hnew
      refine List.filter_eq_nil_iff.mpr fun o' ho' => ?_
      have hkey : o'.criterionKey ∈ ops.map (·.criterionKey) := List.mem_map_of_mem ho'
      simp only [decide_eq_true_eq]
      intro heq
      exact hnew (List.mem_eraseDups.mpr (heq ▸ hkey))

theorem mem_criteria {ops : List Operation} {c : FoldedCriterionOperations} :
    c ∈ criteria ops ↔
      c.criterionKey ∈ ops.map (·.criterionKey) ∧ c.operations = operationsFor ops c.criterionKey := by
  rw [criteria, List.mem_map]
  constructor
  · rintro ⟨key, hkey, rfl⟩
    exact ⟨List.mem_eraseDups.mp hkey, rfl⟩
  · rintro ⟨hkey, hoperations⟩
    exact ⟨c.criterionKey, List.mem_eraseDups.mpr hkey, by rw [← hoperations]⟩

theorem criteria_keys (ops : List Operation) :
    (criteria ops).map (·.criterionKey) = (ops.map (·.criterionKey)).eraseDups := by
  rw [criteria, List.map_map]
  exact List.map_id _

theorem criteria_keys_nodup (ops : List Operation) : ((criteria ops).map (·.criterionKey)).Nodup := by
  rw [criteria_keys]
  exact FirstOccurrences.nodup_eraseDups _

theorem operationsFor_append (ops ops' : List Operation) (key : String) :
    operationsFor (ops ++ ops') key = operationsFor ops key ++ operationsFor ops' key :=
  List.filter_append ..

theorem mem_operationsFor {ops : List Operation} {key : String} {o : Operation} :
    o ∈ operationsFor ops key ↔ o ∈ ops ∧ o.criterionKey = key := by
  rw [operationsFor, List.mem_filter, decide_eq_true_eq]

theorem operationsFor_ne_nil {ops : List Operation} {key : String} (h : key ∈ ops.map (·.criterionKey)) :
    operationsFor ops key ≠ [] := by
  obtain ⟨o, ho, rfl⟩ := List.mem_map.mp h
  exact List.ne_nil_of_mem (mem_operationsFor.mpr ⟨ho, rfl⟩)

/-! ## Where an operation comes -/

/-- Its tier, and its order in it. -/
def seat (o : Operation) : ℕ ×ₗ ℤ := toLex (o.tier.index, o.evalOrder)

/-- The orders of the operations of a criterion. -/
def ordersOf (ops : List Operation) (key : String) : Set ℤ := { n | ∃ o ∈ ops, o.criterionKey = key ∧ o.evalOrder = n }

/-- The seats of the operations of a criterion. -/
def seatsOf (ops : List Operation) (key : String) : Set (ℕ ×ₗ ℤ) :=
  { s | ∃ o ∈ ops, o.criterionKey = key ∧ seat o = s }

theorem leastOrder_isLeast {ops : List Operation} {c : FoldedCriterionOperations} (h : c ∈ criteria ops) :
    IsLeast (ordersOf ops c.criterionKey) (leastOrder c) := by
  obtain ⟨hkey, hoperations⟩ := mem_criteria.mp h
  have hne : c.operations.map (·.evalOrder) ≠ [] := by
    rw [hoperations]
    exact fun hnil => operationsFor_ne_nil hkey (List.map_eq_nil_iff.mp hnil)
  obtain ⟨n, hn⟩ := Option.ne_none_iff_exists'.mp fun hnone => hne (List.min?_eq_none_iff.mp hnone)
  obtain ⟨hmem, hle⟩ := List.min?_eq_some_iff.mp hn
  rw [leastOrder, hn, Option.getD_some]
  constructor
  · obtain ⟨o, ho, horder⟩ := List.mem_map.mp hmem
    rw [hoperations, mem_operationsFor] at ho
    exact ⟨o, ho.1, ho.2, horder⟩
  · rintro m ⟨o, ho, hokey, rfl⟩
    refine hle _ (List.mem_map_of_mem ?_)
    rw [hoperations]
    exact mem_operationsFor.mpr ⟨ho, hokey⟩

/-- Among operations in the order of their seats the first of a criterion has its least seat. -/
theorem head_isLeast {ops : List Operation} (hseats : ops.Pairwise fun o o' => seat o ≤ seat o') {key : String}
    {o : Operation} (h : (operationsFor ops key).head? = some o) : IsLeast (seatsOf ops key) (seat o) := by
  obtain ⟨later, hlater⟩ := List.head?_eq_some_iff.mp h
  have hmem : o ∈ operationsFor ops key := hlater ▸ List.mem_cons_self
  refine ⟨⟨o, (mem_operationsFor.mp hmem).1, (mem_operationsFor.mp hmem).2, rfl⟩, ?_⟩
  rintro s ⟨o', ho', hkey, rfl⟩
  have hsorted : (o :: later).Pairwise fun o o' => seat o ≤ seat o' := hlater ▸ hseats.filter _
  have ho'mem : o' ∈ o :: later := hlater ▸ mem_operationsFor.mpr ⟨ho', hkey⟩
  rcases List.mem_cons.mp ho'mem with rfl | ho'mem
  · exact le_refl _
  · exact (List.pairwise_cons.mp hsorted).1 o' ho'mem

/-- The criteria come up in the order of the seats of their first operations. -/
theorem criteria_pairwise {ops : List Operation} (hseats : ops.Pairwise fun o o' => seat o ≤ seat o') :
    (criteria ops).Pairwise fun c c' => ∀ o ∈ c.operations.head?, ∀ o' ∈ c'.operations.head?, seat o ≤ seat o' := by
  rw [criteria, List.pairwise_map]
  induction ops using List.reverseRecOn with
  | nil => exact .nil
  | append_singleton ops o ih =>
    obtain ⟨hbefore, -, hlast⟩ := List.pairwise_append.mp hseats
    -- who has an operation keeps its first
    have hhead : ∀ key ∈ (ops.map (·.criterionKey)).eraseDups,
        (operationsFor (ops ++ [o]) key).head? = (operationsFor ops key).head? := by
      intro key hkey
      have hne := operationsFor_ne_nil (List.mem_eraseDups.mp hkey)
      rw [operationsFor_append, List.head?_append_of_ne_nil _ hne]
    have hkept : (ops.map (·.criterionKey)).eraseDups.Pairwise fun key key' =>
        ∀ a ∈ (operationsFor (ops ++ [o]) key).head?, ∀ b ∈ (operationsFor (ops ++ [o]) key').head?, seat a ≤ seat b := by
      refine (ih hbefore).imp_of_mem fun {key key'} hkey hkey' h => ?_
      rw [hhead key hkey, hhead key' hkey']
      exact h
    rw [List.map_append, List.map_singleton, FirstOccurrences.eraseDups_concat, FirstOccurrences.add]
    split
    · exact hkept
    · rename_i hnew
      refine List.pairwise_append.mpr ⟨hkept, List.pairwise_singleton _ _, fun key hkey key' hkey' a ha b hb => ?_⟩
      obtain rfl := List.mem_singleton.mp hkey'
      have ha' : a ∈ ops := by
        rw [hhead key hkey] at ha
        exact (mem_operationsFor.mp (List.mem_of_mem_head? ha)).1
      rcases List.mem_append.mp (mem_operationsFor.mp (List.mem_of_mem_head? hb)).1 with hb' | hb'
      · have hthere : o.criterionKey ∈ (ops.map (·.criterionKey)).eraseDups :=
          List.mem_eraseDups.mpr (List.mem_map.mpr ⟨b, hb', (mem_operationsFor.mp (List.mem_of_mem_head? hb)).2⟩)
        exact absurd (List.any_eq_true.mpr ⟨_, hthere, beq_self_eq_true _⟩) hnew
      · exact hlast a ha' b hb'

/-! ## What no sort decides -/

section

variable {localeCompare : String → String → Ordering}

/-- Two criteria that the collation calls equal and that come first at one place: neither their least
orders nor their least seats tell them apart. -/
structure Contested (localeCompare : String → String → Ordering) (ops : List Operation) (key key' : String) : Prop where
  differ : key ≠ key'
  collate : localeCompare key key' = .eq
  sameOrder : ∃ n, IsLeast (ordersOf ops key) n ∧ IsLeast (ordersOf ops key') n
  sameSeat : ∃ s, IsLeast (seatsOf ops key) s ∧ IsLeast (seatsOf ops key') s

/-- Operations of one criterion and one seat are the same, and no criteria are contested. -/
structure OrderDecided (localeCompare : String → String → Ordering) (ops : List Operation) : Prop where
  operations : ∀ o ∈ ops, ∀ o' ∈ ops, o.criterionKey = o'.criterionKey → seat o = seat o' → o = o'
  criteria : ∀ key key', ¬ Contested localeCompare ops key key'

theorem ordersOf_perm {ops ops' : List Operation} (h : ops.Perm ops') (key : String) :
    ordersOf ops key = ordersOf ops' key := by
  ext n
  simp only [ordersOf, h.mem_iff, Set.mem_ofPred_eq]

theorem seatsOf_perm {ops ops' : List Operation} (h : ops.Perm ops') (key : String) :
    seatsOf ops key = seatsOf ops' key := by
  ext s
  simp only [seatsOf, h.mem_iff, Set.mem_ofPred_eq]

theorem OrderDecided.perm {ops ops' : List Operation} (h : OrderDecided localeCompare ops) (hperm : ops.Perm ops') :
    OrderDecided localeCompare ops' where
  operations o ho o' ho' := h.operations o (hperm.mem_iff.mpr ho) o' (hperm.mem_iff.mpr ho')
  criteria key key' hcontested := by
    refine h.criteria key key' ⟨hcontested.differ, hcontested.collate, ?_, ?_⟩
    · rw [ordersOf_perm hperm, ordersOf_perm hperm]
      exact hcontested.sameOrder
    · rw [seatsOf_perm hperm, seatsOf_perm hperm]
      exact hcontested.sameSeat

/-- Both in the order of their seats, the same operations make the same criteria. -/
theorem operationsFor_eq {ops ops' : List Operation} (hdecided : OrderDecided localeCompare ops)
    (hperm : ops'.Perm ops) (hseats : ops.Pairwise fun o o' => seat o ≤ seat o')
    (hseats' : ops'.Pairwise fun o o' => seat o ≤ seat o') (key : String) :
    operationsFor ops' key = operationsFor ops key := by
  refine (hperm.filter _).eq_of_pairwise (fun o o' ho ho' hle hge => ?_) (hseats'.filter _) (hseats.filter _)
  obtain ⟨hmem, hkey⟩ := mem_operationsFor.mp ho
  obtain ⟨hmem', hkey'⟩ := mem_operationsFor.mp ho'
  exact hdecided.operations o (hperm.mem_iff.mp hmem) o' hmem' (hkey.trans hkey'.symm) (le_antisymm hle hge)

theorem criteria_perm {ops ops' : List Operation} (hdecided : OrderDecided localeCompare ops)
    (hperm : ops'.Perm ops) (hseats : ops.Pairwise fun o o' => seat o ≤ seat o')
    (hseats' : ops'.Pairwise fun o o' => seat o ≤ seat o') : (criteria ops').Perm (criteria ops) := by
  refine (List.perm_ext_iff_of_nodup ?_ ?_).mpr fun c => ?_
  · exact (criteria_keys_nodup ops').of_map _
  · exact (criteria_keys_nodup ops).of_map _
  · rw [mem_criteria, mem_criteria, operationsFor_eq hdecided hperm hseats hseats', (hperm.map _).mem_iff]

theorem eq_of_criterionKey {ops : List Operation} {c c' : FoldedCriterionOperations} (h : c ∈ criteria ops)
    (h' : c' ∈ criteria ops) (hkey : c.criterionKey = c'.criterionKey) : c = c' :=
  List.inj_on_of_nodup_map (criteria_keys_nodup ops) h h' hkey

theorem compareCriteria_eq {c c' : FoldedCriterionOperations} :
    compareCriteria localeCompare c c' = .eq ↔
      leastOrder c = leastOrder c' ∧ localeCompare c.criterionKey c'.criterionKey = .eq := by
  rw [compareCriteria, Ordering.then_eq_eq, Std.compare_eq_iff_eq]

theorem compareMemberships_eq {m m' : RubricMembership} :
    compareMemberships localeCompare m m' = .eq ↔
      m.evalOrder = m'.evalOrder ∧ localeCompare m.criterionKey m'.criterionKey = .eq := by
  rw [compareMemberships, Ordering.then_eq_eq, Std.compare_eq_iff_eq]

variable [Std.TransCmp localeCompare]

instance : Std.TransCmp (compareCriteria localeCompare) :=
  have : Std.TransCmp fun a b : FoldedCriterionOperations => compare (leastOrder a) (leastOrder b) :=
    transCmp_key leastOrder
  have : Std.TransCmp fun a b : FoldedCriterionOperations => localeCompare a.criterionKey b.criterionKey :=
    transCmp_key FoldedCriterionOperations.criterionKey
  inferInstanceAs (Std.TransCmp (compareLex _ _))

instance : Std.TransCmp (compareMemberships localeCompare) :=
  have : Std.TransCmp fun a b : RubricMembership => compare a.evalOrder b.evalOrder :=
    transCmp_key RubricMembership.evalOrder
  have : Std.TransCmp fun a b : RubricMembership => localeCompare a.criterionKey b.criterionKey :=
    transCmp_key RubricMembership.criterionKey
  inferInstanceAs (Std.TransCmp (compareLex _ _))

instance : Std.TransCmp compareTiers := transCmp_key fun l : RubricLayer => l.tier.index

/-- Criteria that no sort is left to choose between come out in one order. -/
theorem sort_criteria_eq {ops ops' : List Operation} (hdecided : OrderDecided localeCompare ops)
    (hperm : ops'.Perm ops) (hseats : ops.Pairwise fun o o' => seat o ≤ seat o')
    (hseats' : ops'.Pairwise fun o o' => seat o ≤ seat o') :
    sort (compareCriteria localeCompare) (criteria ops') = sort (compareCriteria localeCompare) (criteria ops) := by
  have hsame := criteria_perm hdecided hperm hseats hseats'
  have htied {ops : List Operation} (h : ops.Pairwise fun o o' => seat o ≤ seat o') :=
    (@sort_pairwise _ (compareCriteria localeCompare) _ (criteria ops)).and
      (sort_pairwise_tied ((criteria_keys_nodup ops).of_map _) (criteria_pairwise h))
  refine ((sort_perm _).trans (hsame.trans (sort_perm _).symm)).eq_of_pairwise ?_ (htied hseats') (htied hseats)
  rintro c c' hc hc' ⟨hle, hfirst⟩ ⟨hge, hfirst'⟩
  have hmem : c ∈ criteria ops := hsame.mem_iff.mp (mem_sort.mp hc)
  have hmem' : c' ∈ criteria ops := mem_sort.mp hc'
  have htie := eq_of_le hle hge
  obtain ⟨horder, hcollate⟩ := compareCriteria_eq.mp htie
  refine eq_of_criterionKey hmem hmem' (by_contra fun hne => hdecided.criteria c.criterionKey c'.criterionKey ?_)
  obtain ⟨o, ho⟩ : ∃ o, (operationsFor ops c.criterionKey).head? = some o :=
    Option.ne_none_iff_exists'.mp fun h => operationsFor_ne_nil (mem_criteria.mp hmem).1 (List.head?_eq_none_iff.mp h)
  obtain ⟨o', ho'⟩ : ∃ o, (operationsFor ops c'.criterionKey).head? = some o :=
    Option.ne_none_iff_exists'.mp fun h => operationsFor_ne_nil (mem_criteria.mp hmem').1 (List.head?_eq_none_iff.mp h)
  have hhead : c.operations.head? = some o := by rw [(mem_criteria.mp hmem).2, ho]
  have hhead' : c'.operations.head? = some o' := by rw [(mem_criteria.mp hmem').2, ho']
  have hseat : seat o = seat o' :=
    le_antisymm (hfirst htie o hhead o' hhead') (hfirst' (Std.OrientedCmp.eq_comm.mp htie) o' hhead' o hhead)
  refine ⟨hne, hcollate, ⟨leastOrder c, leastOrder_isLeast hmem, horder ▸ leastOrder_isLeast hmem'⟩, seat o,
    head_isLeast hseats ho, ?_⟩
  rw [hseat]
  exact head_isLeast hseats ho'

/-! ## The layers in order -/

/-- The operations of the selection, in the order it returns them. -/
def operationsOf (layers : List RubricLayer) : List Operation :=
  layers.flatMap fun l => l.memberships.map fun m => operationOf l m.parsed

/-- The operations in the order in which the map takes them. -/
def ordered (localeCompare : String → String → Ordering) (layers : List RubricLayer) : List Operation :=
  (sort compareTiers (layers.map RubricLayer.parsed)).flatMap (layerOperations localeCompare)

/-- The same layers with the same memberships, both in any order. -/
def SameSelection (layers layers' : List RubricLayer) : Prop :=
  ∃ mid, layers.Perm mid ∧
    List.Forall₂ (fun l l' : RubricLayer => ∃ memberships, memberships.Perm l.memberships ∧
      l' = { l with memberships := memberships }) mid layers'

theorem index_injective : Function.Injective RubricTier.index := by
  intro t t' h
  cases t <;> cases t' <;> first | rfl | cases h

theorem mem_operationsOf {layers : List RubricLayer} {o : Operation} :
    o ∈ operationsOf layers ↔ ∃ l ∈ layers, ∃ m ∈ l.memberships, operationOf l m.parsed = o := by
  simp only [operationsOf, List.mem_flatMap, List.mem_map]

omit [Std.TransCmp localeCompare] in
theorem ordered_perm (layers : List RubricLayer) : (ordered localeCompare layers).Perm (operationsOf layers) := by
  have hlayers := (@sort_perm _ compareTiers (layers.map RubricLayer.parsed)).flatMap_right (layerOperations localeCompare)
  refine hlayers.trans ?_
  rw [operationsOf, List.flatMap_map]
  refine List.Perm.flatMap_left _ fun l _ => ?_
  have hsorted := (@sort_perm _ (compareMemberships localeCompare) l.parsed.memberships).map (operationOf l.parsed)
  exact hsorted.trans (List.Perm.of_eq (List.map_map ..))

/-- Where no tier is there twice, the operations come in the order of their seats. -/
theorem ordered_seats {layers : List RubricLayer} (htiers : (layers.map (·.tier)).Nodup) :
    (ordered localeCompare layers).Pairwise fun o o' => seat o ≤ seat o' := by
  have hsorted : (sort compareTiers (layers.map RubricLayer.parsed)).Pairwise fun l l' => l.tier.index < l'.tier.index := by
    have hnodup : ((sort compareTiers (layers.map RubricLayer.parsed)).map (·.tier)).Nodup := by
      refine ((sort_perm _).map _).nodup_iff.mpr ?_
      rw [List.map_map]
      exact htiers
    refine ((sort_pairwise _).and (List.pairwise_map.mp hnodup)).imp fun {l l'} h => ?_
    have hle : l.tier.index ≤ l'.tier.index := Std.isLE_compare.mp (Ordering.ne_gt_iff_isLE.mp h.1)
    exact lt_of_le_of_ne hle fun heq => h.2 (index_injective heq)
  refine List.pairwise_flatMap.mpr ⟨fun l _ => ?_, hsorted.imp fun {l l'} hlt o ho o' ho' => ?_⟩
  · refine List.pairwise_map.mpr ((sort_pairwise l.memberships).imp fun {m m'} h => ?_)
    have horder : compare m.evalOrder m'.evalOrder ≠ .gt := fun hgt => h (by rw [compareMemberships, hgt]; rfl)
    exact Prod.Lex.toLex_le_toLex.mpr (.inr ⟨rfl, Std.isLE_compare.mp (Ordering.ne_gt_iff_isLE.mp horder)⟩)
  · obtain ⟨m, -, rfl⟩ := List.mem_map.mp ho
    obtain ⟨m', -, rfl⟩ := List.mem_map.mp ho'
    exact Prod.Lex.toLex_le_toLex.mpr (.inl hlt)

omit [Std.TransCmp localeCompare] in
theorem foldRubricTiers_eq_ok {layers : List RubricLayer} {out : List FoldedCriterionOperations} :
    foldRubricTiers localeCompare layers = .ok out ↔
      (∀ l ∈ layers, l.accepted = true) ∧ (layers.map (·.tier)).Nodup ∧
        sort (compareCriteria localeCompare) (criteria (ordered localeCompare layers)) = out := by
  have hnodup : ((sort compareTiers (layers.map RubricLayer.parsed)).map (·.tier)).Nodup ↔ (layers.map (·.tier)).Nodup := by
    rw [((sort_perm _).map _).nodup_iff, List.map_map]
    rfl
  rw [foldRubricTiers]
  simp only [throw_bind, ite_throw_eq_ok, pure_eq_ok, not_not, hnodup, ← List.foldl_flatMap, foldl_pushOperation,
    List.all_eq_true, ordered]

/-! ## Another order of the selection -/

theorem SameSelection.operationsOf_perm {layers layers' : List RubricLayer} (h : SameSelection layers layers') :
    (operationsOf layers').Perm (operationsOf layers) := by
  obtain ⟨mid, hperm, hmid⟩ := h
  refine List.Perm.trans ?_ (hperm.flatMap_right _).symm
  clear hperm
  induction hmid with
  | nil => exact .nil
  | cons hl _ ih =>
    obtain ⟨memberships, hmemberships, rfl⟩ := hl
    rw [operationsOf, List.flatMap_cons, List.flatMap_cons]
    exact (hmemberships.map _).append ih

theorem SameSelection.tiers_perm {layers layers' : List RubricLayer} (h : SameSelection layers layers') :
    (layers'.map (·.tier)).Perm (layers.map (·.tier)) := by
  obtain ⟨mid, hperm, hmid⟩ := h
  refine List.Perm.trans (List.Perm.of_eq ?_) (hperm.map _).symm
  clear hperm
  induction hmid with
  | nil => rfl
  | cons hl _ ih =>
    obtain ⟨memberships, -, rfl⟩ := hl
    rw [List.map_cons, List.map_cons, ih]

theorem SameSelection.accepted {layers layers' : List RubricLayer} (h : SameSelection layers layers')
    (haccepted : ∀ l ∈ layers, l.accepted = true) : ∀ l ∈ layers', l.accepted = true := by
  obtain ⟨mid, hperm, hmid⟩ := h
  intro l' hl'
  obtain ⟨l, hl, memberships, hmemberships, rfl⟩ := (exists_of_forall₂ hmid).2 l' hl'
  have hall := haccepted l (hperm.mem_iff.mpr hl)
  rw [RubricLayer.accepted, hmemberships.all_eq]
  exact hall

omit [Std.TransCmp localeCompare] in
/-- The selection that returns a membership before the others of its layer. -/
theorem moved_first {layers : List RubricLayer} (htiers : (layers.map (·.tier)).Nodup) {l : RubricLayer} (hl : l ∈ layers)
    {m : RubricMembership} (hm : m ∈ l.memberships) {p : Operation → Bool} (hp : p (operationOf l m.parsed) = true)
    (htie : ∀ o o', p o = true → p o' = true → o.evalOrder = o'.evalOrder ∧
      localeCompare o.criterionKey o'.criterionKey = .eq) :
    ∃ layers', SameSelection layers layers' ∧
      ((ordered localeCompare layers').filter fun o => o.tier = l.tier && p o).head? =
        some (operationOf l m.parsed) := by
  obtain ⟨before, after, rfl⟩ := List.append_of_mem hl
  obtain ⟨front, back, hmemberships⟩ := List.append_of_mem hm
  let moved : RubricLayer := { l with memberships := m :: (front ++ back) }
  have hsame : SameSelection (before ++ l :: after) (before ++ moved :: after) := by
    refine ⟨_, .refl _, List.rel_append (List.forall₂_same.mpr fun l _ => ⟨l.memberships, .refl _, rfl⟩)
      (.cons ⟨_, ?_, rfl⟩ (List.forall₂_same.mpr fun l _ => ⟨l.memberships, .refl _, rfl⟩))⟩
    rw [hmemberships]
    exact List.perm_middle.symm
  refine ⟨_, hsame, ?_⟩
  set sorted := sort compareTiers ((before ++ moved :: after).map RubricLayer.parsed) with hsorted
  have hmem : moved.parsed ∈ sorted := mem_sort.mpr (List.mem_map_of_mem (List.mem_append_right _ List.mem_cons_self))
  have hnodup : (sorted.map (·.tier)).Nodup := by
    refine ((sort_perm _).map _).nodup_iff.mpr ?_
    rw [List.map_map]
    exact hsame.tiers_perm.nodup_iff.mpr htiers
  obtain ⟨front', back', hsplit⟩ := List.append_of_mem hmem
  rw [hsplit, List.map_append, List.map_cons, List.nodup_append] at hnodup
  obtain ⟨-, hback, hfront⟩ := hnodup
  have hnone {ls : List RubricLayer} (hls : ∀ l' ∈ ls, l'.tier ≠ l.tier) :
      (ls.flatMap fun l' => (layerOperations localeCompare l').filter fun o => o.tier = l.tier && p o) = [] := by
    refine List.flatMap_eq_nil_iff.mpr fun l' hl' => List.filter_eq_nil_iff.mpr fun o ho => ?_
    obtain ⟨m', -, rfl⟩ := List.mem_map.mp ho
    have hother : decide ((operationOf l' m').tier = l.tier) = false := decide_eq_false (hls l' hl')
    rw [hother, Bool.false_and]
    decide
  have hbefore : ∀ l' ∈ front', l'.tier ≠ l.tier :=
    fun l' hl' => hfront _ (List.mem_map_of_mem hl') _ List.mem_cons_self
  have hafter : ∀ l' ∈ back', l'.tier ≠ l.tier :=
    fun l' hl' heq => (List.nodup_cons.mp hback).1 (List.mem_map.mpr ⟨l', hl', heq⟩)
  rw [ordered, ← hsorted, hsplit, List.filter_flatMap, List.flatMap_append, List.flatMap_cons, hnone hbefore, hnone hafter,
    List.nil_append, List.append_nil, layerOperations, List.filter_map, filter_sort]
  · have hfirst : ((fun o : Operation => decide (o.tier = l.tier) && p o) ∘ operationOf moved.parsed) m.parsed = true :=
      Bool.and_eq_true_iff.mpr ⟨decide_eq_true rfl, hp⟩
    show (List.map _ (List.filter _ (m.parsed :: _))).head? = _
    rw [List.filter_cons_of_pos hfirst]
    rfl
  · intro a _ b _ ha hb
    obtain ⟨horder, hkey⟩ := htie _ _ (Bool.and_eq_true_iff.mp ha).2 (Bool.and_eq_true_iff.mp hb).2
    exact compareMemberships_eq.mpr ⟨horder, hkey⟩

/-! ## Both orders of two that tie -/

omit [Std.TransCmp localeCompare] in
/-- Lists of criteria that are sorted alike have the same operations. -/
theorem operationsFor_of_sort_eq {ops ops' : List Operation} {out : List FoldedCriterionOperations}
    (h : sort (compareCriteria localeCompare) (criteria ops) = out)
    (h' : sort (compareCriteria localeCompare) (criteria ops') = out) {key : String} (hkey : key ∈ ops.map (·.criterionKey)) :
    operationsFor ops key = operationsFor ops' key := by
  have hmem : ⟨key, operationsFor ops key⟩ ∈ out := h ▸ mem_sort.mpr (mem_criteria.mpr ⟨hkey, rfl⟩)
  rw [← h', mem_sort] at hmem
  exact (mem_criteria.mp hmem).2

theorem same_layer {layers : List RubricLayer} (htiers : (layers.map (·.tier)).Nodup) {l l' : RubricLayer}
    (hl : l ∈ layers) (hl' : l' ∈ layers) {o o' : Operation} (ho : o.tier = l.tier) (ho' : o'.tier = l'.tier)
    (hseat : seat o = seat o') : l = l' := by
  have hindex : o.tier.index = o'.tier.index := (Prod.ext_iff.mp (toLex_inj.mp hseat)).1
  exact List.inj_on_of_nodup_map htiers hl hl' (ho ▸ ho' ▸ index_injective hindex)

variable {layers : List RubricLayer} {out : List FoldedCriterionOperations}

/-- Where the order does not show, two operations of one criterion and seat are one. -/
theorem operations_decided (h : foldRubricTiers localeCompare layers = .ok out)
    (hinvariant : ∀ layers', SameSelection layers layers' → foldRubricTiers localeCompare layers' = .ok out)
    {o o' : Operation} (ho : o ∈ operationsOf layers) (ho' : o' ∈ operationsOf layers)
    (hkey : o.criterionKey = o'.criterionKey) (hseat : seat o = seat o') : o = o' := by
  obtain ⟨-, htiers, -⟩ := foldRubricTiers_eq_ok.mp h
  obtain ⟨l, hl, m, hm, rfl⟩ := mem_operationsOf.mp ho
  obtain ⟨l', hl', m', hm', rfl⟩ := mem_operationsOf.mp ho'
  obtain rfl := same_layer htiers hl hl' rfl rfl hseat
  have horder : m.evalOrder = m'.evalOrder := (Prod.ext_iff.mp (toLex_inj.mp hseat)).2
  -- the class of the two: one criterion and one order
  let p : Operation → Bool := fun x => x.evalOrder = m.evalOrder && x.criterionKey = m.parsed.criterionKey
  have hp {x : Operation} : p x = true ↔ x.evalOrder = m.evalOrder ∧ x.criterionKey = m.parsed.criterionKey := by
    simp only [p, Bool.and_eq_true, decide_eq_true_eq]
  have htie (x y : Operation) (hx : p x = true) (hy : p y = true) :
      x.evalOrder = y.evalOrder ∧ localeCompare x.criterionKey y.criterionKey = .eq := by
    obtain ⟨hxorder, hxkey⟩ := hp.mp hx
    obtain ⟨hyorder, hykey⟩ := hp.mp hy
    rw [hxorder, hyorder, hxkey, hykey]
    exact ⟨rfl, Std.ReflCmp.compare_self⟩
  obtain ⟨layers₁, hsame₁, hhead₁⟩ := moved_first htiers hl hm (hp.mpr ⟨rfl, rfl⟩) htie
  obtain ⟨layers₂, hsame₂, hhead₂⟩ := moved_first htiers hl hm' (hp.mpr ⟨horder.symm, hkey.symm⟩) htie
  obtain ⟨-, -, hout₁⟩ := foldRubricTiers_eq_ok.mp (hinvariant _ hsame₁)
  obtain ⟨-, -, hout₂⟩ := foldRubricTiers_eq_ok.mp (hinvariant _ hsame₂)
  have hclass (ops : List Operation) : (ops.filter fun x => x.tier = l.tier && p x) =
      (operationsFor ops m.parsed.criterionKey).filter fun x => x.tier = l.tier && x.evalOrder = m.evalOrder := by
    rw [operationsFor, List.filter_filter]
    refine List.filter_congr fun x _ => ?_
    rw [Bool.and_assoc]
  have hthere : m.parsed.criterionKey ∈ (ordered localeCompare layers₁).map (·.criterionKey) :=
    List.mem_map.mpr ⟨_, (ordered_perm _).mem_iff.mpr (hsame₁.operationsOf_perm.mem_iff.mpr ho), rfl⟩
  rw [hclass, operationsFor_of_sort_eq hout₁ hout₂ hthere, ← hclass, hhead₂] at hhead₁
  exact (Option.some.inj hhead₁).symm

/-- Of two contested criteria the one that has an operation before all others of their class comes out first. -/
theorem contested_sublist {ops : List Operation} (hseats : ops.Pairwise fun o o' => seat o ≤ seat o')
    {key key' : String} (hcontested : Contested localeCompare ops key key') {o : Operation} (hkey : o.criterionKey = key)
    {p : Operation → Bool} (hp : ∀ x, p x = true ↔ seat x = seat o ∧ localeCompare x.criterionKey key = .eq)
    (hleast : IsLeast (seatsOf ops key) (seat o)) (hhead : (ops.filter p).head? = some o) :
    [key, key'].Sublist ((sort (compareCriteria localeCompare) (criteria ops)).map (·.criterionKey)) := by
  obtain ⟨s, hs, hs'⟩ := hcontested.sameSeat
  obtain rfl := hleast.unique hs
  rw [List.head?_filter, List.find?_eq_some_iff_append] at hhead
  obtain ⟨-, front, back, rfl, hfront⟩ := hhead
  have hbefore : ∀ x ∈ front, localeCompare x.criterionKey key = .eq → ¬ seat o ≤ seat x := by
    intro x hx hcollate hge
    have hle : seat x ≤ seat o := (List.pairwise_append.mp hseats).2.2 x hx o List.mem_cons_self
    have hpx := (hp x).mpr ⟨le_antisymm hle hge, hcollate⟩
    have hnot := hfront x hx
    rw [hpx] at hnot
    cases hnot
  have hnot : key ∉ front.map (·.criterionKey) := by
    intro hmem
    obtain ⟨x, hx, rfl⟩ := List.mem_map.mp hmem
    exact hbefore x hx Std.ReflCmp.compare_self (hs.2 ⟨x, List.mem_append_left _ hx, rfl, rfl⟩)
  have hnot' : key' ∉ front.map (·.criterionKey) := by
    intro hmem
    obtain ⟨x, hx, rfl⟩ := List.mem_map.mp hmem
    exact hbefore x hx (Std.OrientedCmp.eq_comm.mp hcontested.collate) (hs'.2 ⟨x, List.mem_append_left _ hx, rfl, rfl⟩)
  have hback : key' ∈ back.map (·.criterionKey) := by
    obtain ⟨x, hx, rfl, -⟩ := hs'.1
    rcases List.mem_append.mp hx with hx | hx
    · exact absurd (List.mem_map_of_mem hx) hnot'
    · rcases List.mem_cons.mp hx with rfl | hx
      · exact absurd hkey.symm hcontested.differ
      · exact List.mem_map_of_mem hx
  have hpair : [key, key'].Sublist ((criteria (front ++ o :: back)).map (·.criterionKey)) := by
    rw [criteria_keys, List.map_append, List.map_cons, hkey]
    exact FirstOccurrences.pair_sublist_eraseDups hcontested.differ hnot hnot' hback
  obtain ⟨pair, hpair, hkeys⟩ := List.sublist_map_iff.mp hpair
  obtain ⟨c, rest, rfl, hc, hrest⟩ := List.map_eq_cons_iff.mp hkeys.symm
  obtain ⟨c', rest, rfl, hc', hrest⟩ := List.map_eq_cons_iff.mp hrest
  obtain rfl := List.map_eq_nil_iff.mp hrest
  obtain ⟨n, hn, hn'⟩ := hcontested.sameOrder
  have hmem : c ∈ criteria (front ++ o :: back) := hpair.subset List.mem_cons_self
  have hmem' : c' ∈ criteria (front ++ o :: back) := hpair.subset (List.mem_cons_of_mem _ List.mem_cons_self)
  have horder : leastOrder c = leastOrder c' := by
    rw [(leastOrder_isLeast hmem).unique (hc ▸ hn), (leastOrder_isLeast hmem').unique (hc' ▸ hn')]
  have htie := compareCriteria_eq.mpr ⟨horder, hc ▸ hc' ▸ hcontested.collate⟩
  exact List.sublist_map_iff.mpr ⟨_, pair_sublist_sort htie hpair, hkeys⟩

theorem criteria_decided (h : foldRubricTiers localeCompare layers = .ok out)
    (hinvariant : ∀ layers', SameSelection layers layers' → foldRubricTiers localeCompare layers' = .ok out)
    (key key' : String) : ¬ Contested localeCompare (operationsOf layers) key key' := by
  intro hcontested
  obtain ⟨-, htiers, hout⟩ := foldRubricTiers_eq_ok.mp h
  obtain ⟨s, hs, hs'⟩ := hcontested.sameSeat
  obtain ⟨o, ho, hokey, rfl⟩ := hs.1
  obtain ⟨o', ho', hokey', hseat⟩ := hs'.1
  obtain ⟨l, hl, m, hm, hmo⟩ := mem_operationsOf.mp ho
  obtain ⟨l', hl', m', hm', hmo'⟩ := mem_operationsOf.mp ho'
  have htier : o.tier = l.tier := by rw [← hmo]; rfl
  have htier' : o'.tier = l'.tier := by rw [← hmo']; rfl
  obtain rfl := same_layer htiers hl hl' htier htier' hseat.symm
  -- the class of the two: the seat, and what the collation calls `key`
  let p : Operation → Bool := fun x => x.evalOrder = o.evalOrder && localeCompare x.criterionKey key = .eq
  have hp {x : Operation} : p x = true ↔ x.evalOrder = o.evalOrder ∧ localeCompare x.criterionKey key = .eq := by
    simp only [p, Bool.and_eq_true, decide_eq_true_eq]
  have hclass (x : Operation) : (x.tier = l.tier && p x) = true ↔ seat x = seat o ∧ localeCompare x.criterionKey key = .eq := by
    rw [Bool.and_eq_true, decide_eq_true_eq, hp, ← and_assoc]
    refine and_congr_left fun _ => ?_
    rw [seat, seat, toLex_inj, Prod.mk.injEq, htier, index_injective.eq_iff]
  have htie (x y : Operation) (hx : p x = true) (hy : p y = true) :
      x.evalOrder = y.evalOrder ∧ localeCompare x.criterionKey y.criterionKey = .eq :=
    ⟨(hp.mp hx).1.trans (hp.mp hy).1.symm,
      Std.TransCmp.eq_trans (hp.mp hx).2 (Std.OrientedCmp.eq_comm.mp (hp.mp hy).2)⟩
  have hcollate' : localeCompare key' key = .eq := Std.OrientedCmp.eq_comm.mp hcontested.collate
  have hpo : p o = true := hp.mpr ⟨rfl, hokey ▸ Std.ReflCmp.compare_self⟩
  have hpo' : p o' = true := hp.mpr ⟨(Prod.ext_iff.mp (toLex_inj.mp hseat)).2, hokey' ▸ hcollate'⟩
  obtain ⟨layers₁, hsame₁, hhead₁⟩ := moved_first htiers hl hm (hmo ▸ hpo) htie
  obtain ⟨layers₂, hsame₂, hhead₂⟩ := moved_first htiers hl hm' (hmo' ▸ hpo') htie
  obtain ⟨-, htiers₁, hout₁⟩ := foldRubricTiers_eq_ok.mp (hinvariant _ hsame₁)
  obtain ⟨-, htiers₂, hout₂⟩ := foldRubricTiers_eq_ok.mp (hinvariant _ hsame₂)
  have hperm₁ := (hsame₁.operationsOf_perm.symm).trans (@ordered_perm localeCompare layers₁).symm
  have hperm₂ := (hsame₂.operationsOf_perm.symm).trans (@ordered_perm localeCompare layers₂).symm
  have hforward : [key, key'].Sublist (out.map (·.criterionKey)) := by
    rw [← hout₁]
    refine contested_sublist (ordered_seats htiers₁) ⟨hcontested.differ, hcontested.collate, ?_, ?_⟩ hokey hclass ?_ (hmo ▸ hhead₁)
    · rw [← ordersOf_perm hperm₁, ← ordersOf_perm hperm₁]
      exact hcontested.sameOrder
    · rw [← seatsOf_perm hperm₁, ← seatsOf_perm hperm₁]
      exact hcontested.sameSeat
    · rw [← seatsOf_perm hperm₁]
      exact hs
  have hbackward : [key', key].Sublist (out.map (·.criterionKey)) := by
    rw [← hout₂]
    refine contested_sublist (ordered_seats htiers₂) ⟨hcontested.differ.symm, hcollate', ?_, ?_⟩ hokey' (fun x => ?_) ?_
      (hmo' ▸ hhead₂)
    · rw [← ordersOf_perm hperm₂, ← ordersOf_perm hperm₂]
      obtain ⟨n, hn, hn'⟩ := hcontested.sameOrder
      exact ⟨n, hn', hn⟩
    · rw [← seatsOf_perm hperm₂, ← seatsOf_perm hperm₂]
      exact ⟨_, hs', hs⟩
    · rw [hclass, hseat]
      exact and_congr_right fun _ => ⟨fun hx => Std.TransCmp.eq_trans hx hcontested.collate,
        fun hx => Std.TransCmp.eq_trans hx hcollate'⟩
    · rw [← seatsOf_perm hperm₂, hseat]
      exact hs'
  have hnodup : (out.map (·.criterionKey)).Nodup := by
    rw [← hout]
    exact ((sort_perm _).map _).nodup_iff.mpr (criteria_keys_nodup _)
  exact not_both_orders hnodup hforward hbackward

/-! ## The fold as a function of the set of memberships -/

/-- The fold depends on the memberships only, keeps each once under its trimmed key, and each
criterion in the order of the tiers. -/
structure FoldsAsSet (localeCompare : String → String → Ordering) (layers : List RubricLayer)
    (out : List FoldedCriterionOperations) : Prop where
  invariant : ∀ layers', SameSelection layers layers' → foldRubricTiers localeCompare layers' = .ok out
  resolution : ∀ layers', SameSelection layers layers' → ∀ folded, foldRubricTiers localeCompare layers' = .ok folded →
    applyReplace folded = applyReplace out
  once : (out.flatMap (·.operations)).Perm (operationsOf layers)
  underKey : ∀ c ∈ out, ∀ o ∈ c.operations, o.criterionKey = c.criterionKey
  oneOfAKey : (out.map (·.criterionKey)).Nodup
  tierOrder : ∀ c ∈ out, c.operations.Pairwise fun o o' => o.tier.index ≤ o'.tier.index

omit [Std.TransCmp localeCompare] in
theorem fold_once (h : foldRubricTiers localeCompare layers = .ok out) :
    (out.flatMap (·.operations)).Perm (operationsOf layers) := by
  obtain ⟨-, -, rfl⟩ := foldRubricTiers_eq_ok.mp h
  refine ((sort_perm _).flatMap_right _).trans (List.Perm.trans ?_ (@ordered_perm localeCompare layers))
  rw [criteria, List.flatMap_map]
  exact Buckets.flatMap_ofKey_all (FirstOccurrences.nodup_eraseDups _)
    fun o ho => List.mem_eraseDups.mpr (List.mem_map_of_mem ho)

/-- The order of the selection does not show exactly if no sort is left with a choice; the rest holds of
every selection that is accepted. -/
theorem foldRubricTiers_asSet_iff (h : foldRubricTiers localeCompare layers = .ok out) :
    FoldsAsSet localeCompare layers out ↔ OrderDecided localeCompare (operationsOf layers) := by
  obtain ⟨haccepted, htiers, hout⟩ := foldRubricTiers_eq_ok.mp h
  have hseats := @ordered_seats localeCompare _ layers htiers
  have hmem {c : FoldedCriterionOperations} (hc : c ∈ out) :
      c.operations = operationsFor (ordered localeCompare layers) c.criterionKey := by
    rw [← hout, mem_sort] at hc
    exact (mem_criteria.mp hc).2
  constructor
  · intro hset
    exact ⟨fun o ho o' ho' => operations_decided h hset.invariant ho ho', criteria_decided h hset.invariant⟩
  · intro hdecided
    have hinvariant : ∀ layers', SameSelection layers layers' → foldRubricTiers localeCompare layers' = .ok out := by
      intro layers' hsame
      have htiers' := hsame.tiers_perm.nodup_iff.mpr htiers
      have hperm := (@ordered_perm localeCompare layers').trans
        (hsame.operationsOf_perm.trans (@ordered_perm localeCompare layers).symm)
      rw [foldRubricTiers_eq_ok, ← hout]
      exact ⟨hsame.accepted haccepted, htiers',
        sort_criteria_eq (hdecided.perm (ordered_perm layers).symm) hperm hseats (ordered_seats htiers')⟩
    refine ⟨hinvariant, fun layers' hsame folded hfolded => ?_, fold_once h, fun c hc o ho => ?_, ?_, fun c hc => ?_⟩
    · rw [hinvariant layers' hsame] at hfolded
      rw [← Except.ok.inj hfolded]
    · rw [hmem hc] at ho
      exact (mem_operationsFor.mp ho).2
    · rw [← hout]
      exact ((sort_perm _).map _).nodup_iff.mpr (criteria_keys_nodup _)
    · rw [hmem hc]
      refine (hseats.filter _).imp fun hle => ?_
      rcases Prod.Lex.toLex_le_toLex.mp hle with hlt | ⟨heq, -⟩
      · exact hlt.le
      · exact heq.le

end

/-! ## Two selections -/

def standardVersion : String := "21111111-1111-4111-8111-111111111111"

def contractVersion : String := "61111111-1111-4111-8111-111111111111"

/-- A membership of order 10. -/
def onAmount (criterionKey : String) (verb : OverrideVerb) (criterionVersionId : String) : RubricMembership :=
  ⟨criterionKey, some criterionVersionId, verb, none, 10⟩

/-- A STANDARD layer. -/
def standardLayer (memberships : List RubricMembership) : RubricLayer :=
  ⟨.STANDARD, "11111111-1111-4111-8111-111111111111", standardVersion, memberships⟩

/-- An INHERIT of STANDARD and a REPLACE of CONTRACT, of one criterion and one order. -/
def twoTiers : List RubricLayer :=
  [⟨.CONTRACT, "51111111-1111-4111-8111-111111111111", contractVersion,
      [onAmount "STD.AMOUNT_STATED" .REPLACE "71111111-1111-4111-8111-111111111111"]⟩,
    standardLayer [onAmount "STD.AMOUNT_STATED" .INHERIT "71111111-1111-4111-8111-111111111111"]]

theorem twoTiers_decided : OrderDecided compare (operationsOf twoTiers) where
  operations o ho o' ho' _ hseat := by
    obtain ⟨l, hl, m, hm, rfl⟩ := mem_operationsOf.mp ho
    obtain ⟨l', hl', m', hm', rfl⟩ := mem_operationsOf.mp ho'
    obtain rfl := same_layer (by decide) hl hl' rfl rfl hseat
    have hsingle : ∀ l ∈ twoTiers, l.memberships.length = 1 := by decide
    obtain ⟨only, honly⟩ := List.length_eq_one_iff.mp (hsingle l hl)
    rw [honly, List.mem_singleton] at hm hm'
    rw [hm, hm']
  criteria key key' hcontested := hcontested.differ (Std.compare_eq_iff_eq.mp hcontested.collate)

theorem twoTiers_asSet : ∃ out, foldRubricTiers compare twoTiers = .ok out ∧ FoldsAsSet compare twoTiers out := by
  have haccepted : ∀ l ∈ twoTiers, l.accepted = true := by decide +kernel
  have htiers : (twoTiers.map (·.tier)).Nodup := by decide
  have hfold := (@foldRubricTiers_eq_ok compare twoTiers _).mpr ⟨haccepted, htiers, rfl⟩
  exact ⟨_, hfold, (foldRubricTiers_asSet_iff hfold).mpr twoTiers_decided⟩

def added : RubricMembership := onAmount "STD.AMOUNT_STATED" .ADD "71111111-1111-4111-8111-111111111111"

/-- Its key differs from that of `added` by the space at the end. -/
def replaced : RubricMembership := onAmount "STD.AMOUNT_STATED " .REPLACE "81111111-1111-4111-8111-111111111111"

/-- Returned one way the cascade ends with the replacing version, the other way it fails. -/
theorem sharedSeat_fails :
    ∃ out, foldRubricTiers compare [standardLayer [added, replaced]] = .ok out ∧
      applyReplace out = .ok [⟨"STD.AMOUNT_STATED",
        [⟨"81111111-1111-4111-8111-111111111111", .STANDARD, standardVersion, .REPLACE⟩]⟩] ∧
      ¬ FoldsAsSet compare [standardLayer [added, replaced]] out := by
  have hone : (foldRubricTiers compare [standardLayer [added, replaced]]).map applyReplace =
      .ok (.ok [⟨"STD.AMOUNT_STATED", [⟨"81111111-1111-4111-8111-111111111111", .STANDARD, standardVersion, .REPLACE⟩]⟩]) := by
    decide +kernel
  have hother : (foldRubricTiers compare [standardLayer [replaced, added]]).map applyReplace =
      .ok (.error (replaceInvalid "STD.AMOUNT_STATED" "REPLACE requires an upstream criterion")) := by
    decide +kernel
  have hsame : SameSelection [standardLayer [added, replaced]] [standardLayer [replaced, added]] :=
    ⟨_, .refl _, .cons ⟨_, .swap _ _ _, rfl⟩ .nil⟩
  cases hout : foldRubricTiers compare [standardLayer [added, replaced]] with
  | error e =>
    rw [hout] at hone
    cases hone
  | ok out =>
    rw [hout] at hone
    have hresolved := Except.ok.inj hone
    refine ⟨out, rfl, hresolved, fun hset => ?_⟩
    cases hfolded : foldRubricTiers compare [standardLayer [replaced, added]] with
    | error e =>
      rw [hfolded] at hother
      cases hother
    | ok folded =>
      rw [hfolded] at hother
      have hfailed := Except.ok.inj hother
      rw [hset.resolution _ hsame folded hfolded, hresolved] at hfailed
      cases hfailed

end RubricResolver
