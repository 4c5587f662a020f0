import FreightAuditor.Library.FirstOccurrences
import FreightAuditor.RubricResolver.Cascade

/- What the cascade of one criterion means, and that both loops compute it.

   `applyReplace` and `applyInheritAdd` walk the operations with the members so far: an
   INHERIT is skipped once there is a member, a REPLACE drops what there is, a version
   that is there is not added again. `meaning` says what is left without a walk: the last
   REPLACE and the versions added after it, each once, from the operation that comes
   first with it.

   The walk is carried by one fact about a list of operations none of which is skipped
   (`foldl_push_replaced`, `foldl_push_kept`): whether a REPLACE is in it decides if the
   members it starts from still show. -/
namespace RubricResolver

open ExceptOk FirstOccurrences

/-! ## INHERIT and ADD alone -/

/-- Its code is `INHERIT_ADD_INVALID`. -/
structure InheritAddResolutionError where
  criterionKey : String
  message : String
  deriving DecidableEq

def inheritAddInvalid (criterionKey reason : String) : InheritAddResolutionError :=
  ⟨criterionKey, "Cannot resolve " ++ criterionKey ++ ": " ++ reason⟩

/-- The members so far, and the versions they pin. -/
structure InheritAddState where
  members : List ResolvedCriterionMember
  pinned : List String

def inheritAddStep (criterionKey : String) (state : InheritAddState) (operation : Operation) :
    Except InheritAddResolutionError InheritAddState :=
  let verb := operation.overrideVerb
  if verb ≠ .INHERIT ∧ verb ≠ .ADD then
    .error (inheritAddInvalid criterionKey ("unsupported verb " ++ verb.text))
  else if verb = .INHERIT ∧ state.members ≠ [] then .ok state
  else
    match operation.criterionVersionId with
    | none => .error (inheritAddInvalid criterionKey (verb.text ++ " requires a criterion version pin"))
    | some pin =>
      if pin ∈ state.pinned then .ok state
      else .ok ⟨state.members ++ [⟨pin, operation.tier, operation.rubricVersionId, verb⟩], state.pinned ++ [pin]⟩

/-- Apply only INHERIT and ADD operations. -/
def applyInheritAdd (folded : List FoldedCriterionOperations) :
    Except InheritAddResolutionError (List InheritAddCriterion) :=
  folded.mapM (fun criterion => do
    let state ← criterion.operations.foldlM (inheritAddStep criterion.criterionKey) ⟨[], []⟩
    if state.members = [] then
      throw (inheritAddInvalid criterion.criterionKey "no inherited or added criterion version")
    else return ⟨criterion.criterionKey, state.members⟩)

/-! ## The meaning -/

/-- The verbs of the cascade. -/
def IsCascadeVerb (verb : OverrideVerb) : Prop := verb = .INHERIT ∨ verb = .ADD ∨ verb = .REPLACE

instance (verb : OverrideVerb) : Decidable (IsCascadeVerb verb) :=
  inferInstanceAs (Decidable (_ ∨ _ ∨ _))

/-- The operations that are not skipped: the first, and all others but the INHERITs. -/
def counted : List Operation → List Operation
  | [] => []
  | first :: later => first :: later.filter (·.overrideVerb ≠ .INHERIT)

/-- There is an operation, the first is not a REPLACE, and what is not skipped pins a version. -/
structure Resolvable (operations : List Operation) : Prop where
  nonempty : operations ≠ []
  first : ∀ o ∈ operations.head?, o.overrideVerb ≠ .REPLACE
  pinned : ∀ o ∈ counted operations, o.criterionVersionId.isSome

/-- The member an operation introduces. -/
def member (o : Operation) : Option ResolvedCriterionMember :=
  o.criterionVersionId.map (⟨·, o.tier, o.rubricVersionId, o.overrideVerb⟩)

/-- The last REPLACE and what comes after it; everything, where there is no REPLACE. -/
def sinceReplace : List Operation → List Operation
  | [] => []
  | o :: later => if later.any (·.overrideVerb = .REPLACE) then sinceReplace later else o :: later

/-- Two members of one version. -/
def sameVersion (m m' : ResolvedCriterionMember) : Bool := m.criterionVersionId = m'.criterionVersionId

/-- The members of the operations since the last REPLACE, each version from the first of them. -/
def meaning (operations : List Operation) : List ResolvedCriterionMember :=
  ((sinceReplace (counted operations)).filterMap member).eraseDupsBy sameVersion

/-! ## The walk without errors -/

/-- The member of the operation joins the members, or replaces them. -/
def push (members : List ResolvedCriterionMember) (o : Operation) : List ResolvedCriterionMember :=
  match member o with
  | none => members
  | some m => if o.overrideVerb = .REPLACE then [m] else add sameVersion members m

theorem member_of_pin {o : Operation} {pin : String} (h : o.criterionVersionId = some pin) :
    member o = some ⟨pin, o.tier, o.rubricVersionId, o.overrideVerb⟩ := by
  rw [member, h]
  rfl

theorem push_of_pin {o : Operation} {pin : String} (h : o.criterionVersionId = some pin)
    (members : List ResolvedCriterionMember) :
    push members o =
      if o.overrideVerb = .REPLACE then [⟨pin, o.tier, o.rubricVersionId, o.overrideVerb⟩]
      else add sameVersion members ⟨pin, o.tier, o.rubricVersionId, o.overrideVerb⟩ := by
  rw [push, member_of_pin h]

theorem push_ne_nil {members : List ResolvedCriterionMember} (h : members ≠ []) (o : Operation) :
    push members o ≠ [] := by
  rw [push]
  split
  · exact h
  · split
    · exact List.cons_ne_nil _ _
    · exact add_ne_nil h _

theorem foldl_push_ne_nil (ops : List Operation) :
    ∀ {members : List ResolvedCriterionMember}, members ≠ [] → ops.foldl push members ≠ [] := by
  induction ops with
  | nil => exact fun h => h
  | cons o later ih => exact fun h => ih (push_ne_nil h o)

/-- Where nothing is replaced, the versions that are not there yet are added, each once. -/
theorem foldl_push_kept {ops : List Operation} (hkept : ∀ o ∈ ops, o.overrideVerb ≠ .REPLACE) :
    ∀ members, ops.foldl push members = (ops.filterMap member).foldl (add sameVersion) members := by
  induction ops with
  | nil => exact fun _ => rfl
  | cons o later ih =>
    intro members
    obtain ⟨ho, hlater⟩ := List.forall_mem_cons.mp hkept
    rw [List.foldl_cons, ih hlater, push]
    cases hmember : member o with
    | none => rw [List.filterMap_cons_none hmember]
    | some m =>
      rw [List.filterMap_cons_some hmember, List.foldl_cons]
      exact congrArg (List.foldl _ · _) (if_neg ho)

/-- After a REPLACE the members it started from do not show. -/
theorem foldl_push_replaced {ops : List Operation} (hpinned : ∀ o ∈ ops, o.criterionVersionId.isSome)
    (hreplaced : ops.any (·.overrideVerb = .REPLACE) = true) :
    ∀ members, ops.foldl push members = ((sinceReplace ops).filterMap member).eraseDupsBy sameVersion := by
  induction ops with
  | nil => cases hreplaced
  | cons o later ih =>
    intro members
    obtain ⟨ho, hlater⟩ := List.forall_mem_cons.mp hpinned
    rw [List.foldl_cons, sinceReplace]
    by_cases hagain : later.any (·.overrideVerb = .REPLACE) = true
    · rw [if_pos hagain]
      exact ih hlater hagain _
    · -- `o` is the last REPLACE
      have hverb : o.overrideVerb = .REPLACE := by simpa [hagain] using hreplaced
      have hkept : ∀ o' ∈ later, o'.overrideVerb ≠ .REPLACE := by simpa using hagain
      obtain ⟨pin, hpin⟩ := Option.isSome_iff_exists.mp ho
      rw [if_neg hagain, foldl_push_kept hkept, foldl_add, push_of_pin hpin, if_pos hverb,
        List.filterMap_cons_some (member_of_pin hpin), List.eraseDupsBy_cons, List.singleton_append]
      refine congrArg (_ :: List.eraseDupsBy sameVersion ·) (List.filter_congr fun m _ => ?_)
      rw [List.any_cons, List.any_nil, Bool.or_false]
      cases sameVersion m _ with
      | true => rfl
      | false => rfl

/-- From no member the walk arrives at the meaning. -/
theorem foldl_push_counted {ops : List Operation} (hpinned : ∀ o ∈ counted ops, o.criterionVersionId.isSome) :
    (counted ops).foldl push [] = meaning ops := by
  rw [meaning]
  generalize counted ops = all at hpinned
  by_cases hreplaced : all.any (·.overrideVerb = .REPLACE) = true
  · exact foldl_push_replaced hpinned hreplaced []
  · have hkept : ∀ o ∈ all, o.overrideVerb ≠ .REPLACE := by simpa using hreplaced
    have hall : sinceReplace all = all := by
      cases all with
      | nil => rfl
      | cons o later =>
        rw [List.any_cons, Bool.or_eq_true, not_or] at hreplaced
        rw [sinceReplace, if_neg hreplaced.2]
    rw [foldl_push_kept hkept, foldl_add, hall, List.nil_append]
    exact congrArg (List.eraseDupsBy sameVersion ·) (List.filter_eq_self.mpr fun _ _ => rfl)

theorem meaning_versions_nodup (ops : List Operation) : ((meaning ops).map (·.criterionVersionId)).Nodup := by
  rw [List.Nodup, List.pairwise_map]
  refine (pairwise_eraseDupsBy _).imp fun h hsame => ?_
  exact of_decide_eq_false h hsame.symm

/-! ## The walk of `applyReplace` -/

/-- An operation that is neither skipped nor a REPLACE of nothing fails only for want of a pin. -/
theorem replaceStep_iff {key : String} {members next : List ResolvedCriterionMember} {o : Operation}
    (hverb : IsCascadeVerb o.overrideVerb) (hcounts : o.overrideVerb = .INHERIT → members = [])
    (hupstream : o.overrideVerb = .REPLACE → members ≠ []) :
    replaceStep key members o = .ok next ↔ o.criterionVersionId.isSome ∧ next = push members o := by
  have hsupported : ¬ (o.overrideVerb = .TIGHTEN ∨ o.overrideVerb = .EXEMPT) := by
    rcases hverb with h | h | h
    · rw [h]; decide
    · rw [h]; decide
    · rw [h]; decide
  rw [replaceStep, if_neg hsupported, if_neg fun h => h.2 (hcounts h.1)]
  cases hpin : o.criterionVersionId with
  | none => exact iff_of_false (fun h => by cases h) fun h => by cases h.1
  | some pin =>
    have hsame : ∀ m : ResolvedCriterionMember, decide (m.criterionVersionId = pin) =
        sameVersion ⟨pin, o.tier, o.rubricVersionId, o.overrideVerb⟩ m :=
      fun m => decide_eq_decide.mpr eq_comm
    rw [push_of_pin hpin]
    by_cases hreplace : o.overrideVerb = .REPLACE
    · simp only [hreplace, if_true, if_neg (hupstream hreplace), Except.ok.injEq, Option.isSome_some, true_and,
        eq_comm]
    · simp only [hreplace, if_false, hsame, add]
      split
      · simp only [Except.ok.injEq, Option.isSome_some, true_and, eq_comm]
      · simp only [Except.ok.injEq, Option.isSome_some, true_and, eq_comm]

theorem replaceStep_skips {key : String} {members : List ResolvedCriterionMember} {o : Operation}
    (hverb : o.overrideVerb = .INHERIT) (hmembers : members ≠ []) : replaceStep key members o = .ok members := by
  rw [replaceStep, if_neg (by rw [hverb]; decide), if_pos ⟨hverb, hmembers⟩]

/-- Once there is a member, only a missing pin stops the walk. -/
theorem runReplace_iff {key : String} {ops : List Operation} (hverbs : ∀ o ∈ ops, IsCascadeVerb o.overrideVerb) :
    ∀ {members out : List ResolvedCriterionMember}, members ≠ [] → (runReplace key members ops = .ok out ↔
      (∀ o ∈ ops.filter (·.overrideVerb ≠ .INHERIT), o.criterionVersionId.isSome) ∧
        out = (ops.filter (·.overrideVerb ≠ .INHERIT)).foldl push members) := by
  induction ops with
  | nil =>
    intro members out _
    rw [runReplace, List.foldlM_nil, pure_eq_ok]
    exact ⟨fun h => ⟨fun o ho => absurd ho List.not_mem_nil, h.symm⟩, fun h => h.2.symm⟩
  | cons o later ih =>
    intro members out hmembers
    obtain ⟨ho, hlater⟩ := List.forall_mem_cons.mp hverbs
    rw [runReplace, List.foldlM_cons]
    by_cases hinherit : o.overrideVerb = .INHERIT
    · rw [replaceStep_skips hinherit hmembers, ok_bind, List.filter_cons_of_neg (by simp [hinherit])]
      exact ih hlater hmembers
    · rw [List.filter_cons_of_pos (by simpa using hinherit), List.forall_mem_cons, List.foldl_cons, bind_eq_ok,
        and_assoc, ← ih hlater (push_ne_nil hmembers o)]
      constructor
      · rintro ⟨next, hstep, hrun⟩
        obtain ⟨hpin, rfl⟩ := (replaceStep_iff ho (absurd · hinherit) fun _ => hmembers).mp hstep
        exact ⟨hpin, hrun⟩
      · intro h
        exact ⟨_, (replaceStep_iff ho (absurd · hinherit) fun _ => hmembers).mpr ⟨h.1, rfl⟩, h.2⟩

/-- The walk over one criterion. -/
theorem runReplace_meaning {key : String} {ops : List Operation}
    (hverbs : ∀ o ∈ ops, IsCascadeVerb o.overrideVerb) {out : List ResolvedCriterionMember} :
    runReplace key [] ops = .ok out ∧ out ≠ [] ↔ Resolvable ops ∧ out = meaning ops := by
  cases ops with
  | nil =>
    refine iff_of_false (fun h => ?_) fun h => h.1.nonempty rfl
    have hnil : out = [] := (Except.ok.inj h.1).symm
    exact h.2 hnil
  | cons first later =>
    obtain ⟨hfirst, hlater⟩ := List.forall_mem_cons.mp hverbs
    rw [runReplace, List.foldlM_cons, bind_eq_ok]
    by_cases hreplace : first.overrideVerb = .REPLACE
    · -- there is nothing to replace
      refine iff_of_false (fun h => ?_) fun h => h.1.first first rfl hreplace
      obtain ⟨⟨next, hstep, -⟩, -⟩ := h
      rw [replaceStep, if_neg (by rw [hreplace]; decide), if_neg (by simp)] at hstep
      split at hstep
      · cases hstep
      · rw [if_pos hreplace, if_pos rfl] at hstep
        cases hstep
    · have hstep {next} := @replaceStep_iff key [] next first hfirst (fun _ => rfl) (absurd · hreplace)
      have hone (hpin : first.criterionVersionId.isSome) : push [] first ≠ [] := by
        obtain ⟨pin, hpin⟩ := Option.isSome_iff_exists.mp hpin
        rw [push_of_pin hpin, if_neg hreplace]
        exact List.cons_ne_nil _ _
      constructor
      · rintro ⟨⟨next, hnext, hrun⟩, -⟩
        obtain ⟨hpin, rfl⟩ := hstep.mp hnext
        obtain ⟨hpins, rfl⟩ := (runReplace_iff hlater (hone hpin)).mp hrun
        have hpinned : ∀ o ∈ counted (first :: later), o.criterionVersionId.isSome :=
          List.forall_mem_cons.mpr ⟨hpin, hpins⟩
        refine ⟨⟨List.cons_ne_nil _ _, fun o ho => ?_, hpinned⟩, foldl_push_counted hpinned⟩
        obtain rfl := Option.some.inj ho
        exact hreplace
      · rintro ⟨hresolvable, rfl⟩
        have hpinned := hresolvable.pinned
        obtain ⟨hpin, hpins⟩ := List.forall_mem_cons.mp hpinned
        rw [← foldl_push_counted hpinned]
        exact ⟨⟨_, hstep.mpr ⟨hpin, rfl⟩, (runReplace_iff hlater (hone hpin)).mpr ⟨hpins, rfl⟩⟩,
          foldl_push_ne_nil (later.filter (·.overrideVerb ≠ .INHERIT)) (hone hpin)⟩

/-! ## The walk of `applyInheritAdd` -/

/-- The state that pins the versions of its members. -/
def pinning (members : List ResolvedCriterionMember) : InheritAddState :=
  ⟨members, members.map (·.criterionVersionId)⟩

theorem any_version_iff {members : List ResolvedCriterionMember} {pin : String} :
    members.any (fun m => m.criterionVersionId = pin) = true ↔ pin ∈ members.map (·.criterionVersionId) := by
  simp only [List.any_eq_true, decide_eq_true_eq, List.mem_map]

/-- On INHERIT and ADD both walks do the same. -/
theorem inheritAddStep_iff {key : String} {members : List ResolvedCriterionMember} {o : Operation}
    (hverb : o.overrideVerb = .INHERIT ∨ o.overrideVerb = .ADD) {next : InheritAddState} :
    inheritAddStep key (pinning members) o = .ok next ↔
      ∃ members', replaceStep key members o = .ok members' ∧ next = pinning members' := by
  have hsupported : ¬ (o.overrideVerb ≠ .INHERIT ∧ o.overrideVerb ≠ .ADD) := by tauto
  have hcascade : ¬ (o.overrideVerb = .TIGHTEN ∨ o.overrideVerb = .EXEMPT) := by
    rcases hverb with h | h
    · rw [h]; decide
    · rw [h]; decide
  have hkept : o.overrideVerb ≠ .REPLACE := by
    rcases hverb with h | h
    · rw [h]; decide
    · rw [h]; decide
  have hok {members' : List ResolvedCriterionMember} :
      Except.ok (pinning members') = (.ok next : Except InheritAddResolutionError _) ↔
        ∃ members'', (.ok members' : Except ResolutionError _) = .ok members'' ∧ next = pinning members'' := by
    constructor
    · intro h
      exact ⟨members', rfl, (Except.ok.inj h).symm⟩
    · rintro ⟨members'', h, hnext⟩
      obtain rfl := Except.ok.inj h
      rw [hnext]
  rw [inheritAddStep, replaceStep, if_neg hsupported, if_neg hcascade]
  by_cases hskip : o.overrideVerb = .INHERIT ∧ (pinning members).members ≠ []
  · rw [if_pos hskip, if_pos (show o.overrideVerb = .INHERIT ∧ members ≠ [] from hskip)]
    exact hok
  · rw [if_neg hskip, if_neg (show ¬ (o.overrideVerb = .INHERIT ∧ members ≠ []) from hskip)]
    cases o.criterionVersionId with
    | none => exact iff_of_false (fun h => by cases h) fun h => by obtain ⟨_, h, -⟩ := h; cases h
    | some pin =>
      simp only [if_neg hkept]
      by_cases hthere : pin ∈ (pinning members).pinned
      · rw [if_pos hthere, if_pos (any_version_iff.mpr hthere)]
        exact hok
      · rw [if_neg hthere, if_neg fun h => hthere (any_version_iff.mp h), ← hok, pinning, pinning, List.map_append]
        rfl

theorem inheritAdd_run_iff {key : String} {ops : List Operation}
    (hverbs : ∀ o ∈ ops, o.overrideVerb = .INHERIT ∨ o.overrideVerb = .ADD) :
    ∀ {members : List ResolvedCriterionMember} {out : InheritAddState},
      ops.foldlM (inheritAddStep key) (pinning members) = .ok out ↔
        ∃ members', runReplace key members ops = .ok members' ∧ out = pinning members' := by
  induction ops with
  | nil =>
    intro members out
    simp only [List.foldlM_nil, runReplace, pure_eq_ok]
    constructor
    · intro h
      exact ⟨members, rfl, h.symm⟩
    · rintro ⟨_, rfl, h⟩
      exact h.symm
  | cons o later ih =>
    intro members out
    obtain ⟨ho, hlater⟩ := List.forall_mem_cons.mp hverbs
    rw [List.foldlM_cons, runReplace, List.foldlM_cons]
    simp only [bind_eq_ok, inheritAddStep_iff ho]
    constructor
    · rintro ⟨_, ⟨members', hstep, rfl⟩, hrun⟩
      obtain ⟨members'', hrest, hout⟩ := (ih hlater).mp hrun
      exact ⟨members'', ⟨members', hstep, hrest⟩, hout⟩
    · rintro ⟨members'', ⟨members', hstep, hrest⟩, hout⟩
      exact ⟨_, ⟨members', hstep, rfl⟩, (ih hlater).mpr ⟨members'', hrest, hout⟩⟩

/-! ## The list of criteria -/

/-- What a criterion resolves to. -/
def resolved (c : FoldedCriterionOperations) : InheritAddCriterion := ⟨c.criterionKey, meaning c.operations⟩

theorem applyReplace_iff {folded : List FoldedCriterionOperations}
    (hverbs : ∀ c ∈ folded, ∀ o ∈ c.operations, IsCascadeVerb o.overrideVerb) {out : List InheritAddCriterion} :
    applyReplace folded = .ok out ↔ (∀ c ∈ folded, Resolvable c.operations) ∧ out = folded.map resolved := by
  refine mapM_eq_ok_iff fun c hc b => ?_
  have hmeaning {out} := @runReplace_meaning c.criterionKey c.operations (hverbs c hc) out
  rw [bind_eq_ok]
  constructor
  · rintro ⟨members, hrun, hb⟩
    split at hb
    · cases hb
    · rename_i hmembers
      obtain rfl := pure_eq_ok.mp hb
      obtain ⟨hresolvable, rfl⟩ := hmeaning.mp ⟨hrun, hmembers⟩
      exact ⟨hresolvable, rfl⟩
  · rintro ⟨hresolvable, rfl⟩
    obtain ⟨hrun, hmembers⟩ := hmeaning.mpr ⟨hresolvable, rfl⟩
    exact ⟨_, hrun, by rw [if_neg hmembers]; rfl⟩

theorem applyInheritAdd_iff {folded : List FoldedCriterionOperations}
    (hverbs : ∀ c ∈ folded, ∀ o ∈ c.operations, o.overrideVerb = .INHERIT ∨ o.overrideVerb = .ADD)
    {out : List InheritAddCriterion} :
    applyInheritAdd folded = .ok out ↔ (∀ c ∈ folded, Resolvable c.operations) ∧ out = folded.map resolved := by
  refine mapM_eq_ok_iff fun c hc b => ?_
  have hcascade : ∀ o ∈ c.operations, IsCascadeVerb o.overrideVerb :=
    fun o ho => (hverbs c hc o ho).elim .inl fun h => .inr (.inl h)
  have hmeaning {out} := @runReplace_meaning c.criterionKey c.operations hcascade out
  have hrun {state} := @inheritAdd_run_iff c.criterionKey c.operations (hverbs c hc) [] state
  rw [bind_eq_ok]
  constructor
  · rintro ⟨state, hstate, hb⟩
    obtain ⟨hmembers, hb⟩ := ite_throw_eq_ok.mp hb
    obtain rfl := pure_eq_ok.mp hb
    obtain ⟨members, hrunReplace, rfl⟩ := hrun.mp hstate
    obtain ⟨hresolvable, rfl⟩ := hmeaning.mp ⟨hrunReplace, hmembers⟩
    exact ⟨hresolvable, rfl⟩
  · rintro ⟨hresolvable, rfl⟩
    obtain ⟨hrunReplace, hmembers⟩ := hmeaning.mpr ⟨hresolvable, rfl⟩
    exact ⟨_, hrun.mpr ⟨_, hrunReplace, rfl⟩, ite_throw_eq_ok.mpr ⟨hmembers, rfl⟩⟩

/-- The cascade succeeds exactly on resolvable criteria and returns their meaning, in which every
version is there once. Without REPLACE both implementations accept the same criteria and return the
same members. -/
theorem cascade_means (folded : List FoldedCriterionOperations)
    (hverbs : ∀ c ∈ folded, ∀ o ∈ c.operations, IsCascadeVerb o.overrideVerb) :
    (∀ out, applyReplace folded = .ok out ↔
        (∀ c ∈ folded, Resolvable c.operations) ∧ out = folded.map fun c => ⟨c.criterionKey, meaning c.operations⟩) ∧
      (∀ out, applyReplace folded = .ok out → ∀ c ∈ out, (c.members.map (·.criterionVersionId)).Nodup) ∧
      ((∀ c ∈ folded, ∀ o ∈ c.operations, o.overrideVerb ≠ .REPLACE) →
        ∀ out, applyInheritAdd folded = .ok out ↔ applyReplace folded = .ok out) := by
  refine ⟨fun out => applyReplace_iff hverbs, fun out h c hc => ?_, fun hkept out => ?_⟩
  · obtain ⟨-, rfl⟩ := (applyReplace_iff hverbs).mp h
    obtain ⟨c', -, rfl⟩ := List.mem_map.mp hc
    exact meaning_versions_nodup _
  · have hadd : ∀ c ∈ folded, ∀ o ∈ c.operations, o.overrideVerb = .INHERIT ∨ o.overrideVerb = .ADD := by
      intro c hc o ho
      rcases hverbs c hc o ho with h | h | h
      · exact .inl h
      · exact .inr h
      · exact absurd h (hkept c hc o ho)
    rw [applyInheritAdd_iff hadd, applyReplace_iff hverbs]

/-- An INHERIT, a REPLACE, an INHERIT without a pin, and two ADDs of which one is of a version that
the REPLACE removed. -/
def replacedGate : List Operation :=
  [onGate .STANDARD .INHERIT "v1", onGate .CLIENT .REPLACE "v2",
    ⟨"STD.GATE", none, .INHERIT, none, 1, .CLIENT, "rubric"⟩, onGate .CONTRACT .ADD "v2", onGate .CONTRACT .ADD "v1"]

theorem replacedGate_means :
    applyReplace [⟨"STD.GATE", replacedGate⟩] =
      .ok [⟨"STD.GATE", [⟨"v2", .CLIENT, "rubric", .REPLACE⟩, ⟨"v1", .CONTRACT, "rubric", .ADD⟩]⟩] :=
  ((cascade_means [⟨"STD.GATE", replacedGate⟩] (by decide)).1 _).mpr
    ⟨List.forall_mem_singleton.mpr ⟨by decide, by decide, by decide⟩, by decide +kernel⟩

end RubricResolver
