import FreightAuditor.Library.JsText
import FreightAuditor.RubricResolver.Rubrics
import FreightAuditor.RuleEngine.Lifecycle

/- The rubric cascade of one criterion: INHERIT, ADD and REPLACE operations in tier
   order (`applyReplace`), then an EXEMPT (`applyExempt`) behind the policy that a
   HARD STANDARD gate cannot be exempted (`applyPermittedExempt`).

   The policy looks at the members that came out of the cascade and the tier each is
   stamped with. What is proved here: a member survives operations without REPLACE with
   its stamp (`run_keeps`), a REPLACE leaves only members stamped by the replacing and
   later tiers (`run_replaced`), and so a criterion whose STANDARD operations leave a
   hard gate is refused exactly while no later tier has replaced it
   (`applyPermittedExempt_refuses_iff`). -/
namespace RubricResolver

inductive RubricTier where
  | STANDARD | CLIENT | CONTRACT
  deriving DecidableEq

inductive OverrideVerb where
  | INHERIT | ADD | REPLACE | TIGHTEN | EXEMPT
  deriving DecidableEq

def OverrideVerb.text : OverrideVerb → String
  | .INHERIT => "INHERIT" | .ADD => "ADD" | .REPLACE => "REPLACE" | .TIGHTEN => "TIGHTEN"
  | .EXEMPT => "EXEMPT"

/-- A membership of one criterion, with the layer it comes from. -/
structure Operation where
  criterionKey : String
  criterionVersionId : Option String
  overrideVerb : OverrideVerb
  overridePayload : Option Json.Value
  evalOrder : ℤ
  tier : RubricTier
  rubricVersionId : String

structure FoldedCriterionOperations where
  criterionKey : String
  operations : List Operation

structure ResolvedCriterionMember where
  criterionVersionId : String
  introducedBy : RubricTier
  rubricVersionId : String
  sourceVerb : OverrideVerb
  deriving DecidableEq

structure InheritAddCriterion where
  criterionKey : String
  members : List ResolvedCriterionMember
  deriving DecidableEq

/-- An error with its code, the criterion it names, and its message. -/
inductive ResolutionError where
  | REPLACE_INVALID (criterionKey message : String)
  | EXEMPT_INVALID (criterionKey message : String)
  | EXEMPT_HARD_STANDARD_GATE (criterionKey message : String)
  deriving DecidableEq

def replaceInvalid (criterionKey reason : String) : ResolutionError :=
  .REPLACE_INVALID criterionKey ("Cannot resolve " ++ criterionKey ++ ": " ++ reason)

def exemptInvalid (criterionKey reason : String) : ResolutionError :=
  .EXEMPT_INVALID criterionKey ("Cannot exempt " ++ criterionKey ++ ": " ++ reason)

def hardStandardGate (criterionKey : String) : ResolutionError :=
  .EXEMPT_HARD_STANDARD_GATE criterionKey "HARD STANDARD gates cannot be exempted"

/-! ## INHERIT, ADD and REPLACE -/

/-- One operation on the members so far. -/
def replaceStep (criterionKey : String) (members : List ResolvedCriterionMember) (operation : Operation) :
    Except ResolutionError (List ResolvedCriterionMember) :=
  let verb := operation.overrideVerb
  if verb = .TIGHTEN ∨ verb = .EXEMPT then
    .error (replaceInvalid criterionKey ("unsupported verb " ++ verb.text))
  else if verb = .INHERIT ∧ members ≠ [] then .ok members
  else
    match operation.criterionVersionId with
    | none => .error (replaceInvalid criterionKey (verb.text ++ " requires a criterion version pin"))
    | some pin =>
      let member := ⟨pin, operation.tier, operation.rubricVersionId, verb⟩
      if verb = .REPLACE then
        if members = [] then .error (replaceInvalid criterionKey "REPLACE requires an upstream criterion")
        else .ok [member]
      else if members.any (fun m => m.criterionVersionId = pin) then .ok members
      else .ok (members ++ [member])

/-- The members after a list of operations. -/
def runReplace (criterionKey : String) (members : List ResolvedCriterionMember)
    (operations : List Operation) : Except ResolutionError (List ResolvedCriterionMember) :=
  operations.foldlM (replaceStep criterionKey) members

/-- Apply INHERIT, ADD and REPLACE in tier order. -/
def applyReplace (folded : List FoldedCriterionOperations) :
    Except ResolutionError (List InheritAddCriterion) :=
  folded.mapM (fun criterion => do
    let members ← runReplace criterion.criterionKey [] criterion.operations
    if members = [] then .error (replaceInvalid criterion.criterionKey "no resolved criterion version")
    else return ⟨criterion.criterionKey, members⟩)

/-! ## EXEMPT -/

structure ExemptedCriterion where
  criterionKey : String
  priorMembers : List ResolvedCriterionMember
  reason : String
  authority : String
  tier : RubricTier
  rubricVersionId : String
  deriving DecidableEq

/-- A required text of the payload: trimmed, not empty, and of bounded length. -/
def payloadText (max : ℕ) : Option Json.Value → Option String
  | some (.str s) =>
    if 1 ≤ JsText.length (JsText.trim s) ∧ JsText.length (JsText.trim s) ≤ max then some (JsText.trim s)
    else none
  | _ => none

/-- `PayloadSchema.safeParse`: an object with a reason and an authority and no other field. -/
def exemptPayload : Option Json.Value → Option (String × String)
  | some (.obj fields) =>
    if fields.all (fun f => f.1 = "reason" ∨ f.1 = "authority") then
      match payloadText 1000 (fields.lookup "reason"), payloadText 255 (fields.lookup "authority") with
      | some reason, some authority => some (reason, authority)
      | _, _ => none
    else none
  | _ => none

/-- Apply one EXEMPT operation to an already resolved criterion. -/
def applyExempt (current : Option InheritAddCriterion) (operation : Operation) :
    Except ResolutionError ExemptedCriterion :=
  if operation.overrideVerb ≠ .EXEMPT then
    .error (exemptInvalid operation.criterionKey
      ("expected EXEMPT, received " ++ operation.overrideVerb.text))
  else
    match current with
    | none => .error (exemptInvalid operation.criterionKey "no upstream criterion exists")
    | some current =>
      if current.members = [] then
        .error (exemptInvalid operation.criterionKey "no upstream criterion exists")
      else if operation.tier = .STANDARD then
        .error (exemptInvalid operation.criterionKey "STANDARD cannot exempt its own criterion")
      else
        match exemptPayload operation.overridePayload with
        | none => .error (exemptInvalid operation.criterionKey "reason and authority are required")
        | some (reason, authority) =>
          .ok ⟨operation.criterionKey, current.members, reason, authority, operation.tier,
            operation.rubricVersionId⟩

structure CriterionProtectionMetadata where
  criterionVersionId : String
  kind : CriterionKind
  hardness : RuleEngine.RuleHardness
  deriving DecidableEq

/-- The protection of a version: a later entry for it overrides an earlier one. -/
def protectionOf (metadata : List CriterionProtectionMetadata) (criterionVersionId : String) :
    Option CriterionProtectionMetadata :=
  metadata.reverse.find? (fun m => m.criterionVersionId = criterionVersionId)

/-- The check of one member. -/
def checkMember (criterionKey : String) (metadata : List CriterionProtectionMetadata)
    (member : ResolvedCriterionMember) : Except ResolutionError Unit :=
  match protectionOf metadata member.criterionVersionId with
  | none =>
    .error (.EXEMPT_HARD_STANDARD_GATE criterionKey "Criterion protection metadata is unavailable")
  | some protection =>
    if member.introducedBy = .STANDARD ∧ protection.kind = .GATING ∧ protection.hardness = .FIRM_RULE then
      .error (hardStandardGate criterionKey)
    else .ok ()

def applyPermittedExempt (current : InheritAddCriterion) (operation : Operation)
    (metadata : List CriterionProtectionMetadata) : Except ResolutionError ExemptedCriterion := do
  current.members.forM (checkMember current.criterionKey metadata)
  applyExempt (some current) operation

/-- The version is a gate under a firm rule. -/
def isHardGate (metadata : List CriterionProtectionMetadata) (criterionVersionId : String) : Bool :=
  match protectionOf metadata criterionVersionId with
  | some protection => protection.kind = .GATING ∧ protection.hardness = .FIRM_RULE
  | none => false

/-! ## What the cascade keeps of a member -/

/-- Everything one accepted operation can do to the members. -/
theorem replaceStep_cases {key : String} {members members' : List ResolvedCriterionMember}
    {o : Operation} (h : replaceStep key members o = .ok members') :
    (o.overrideVerb ≠ .REPLACE ∧ members' = members) ∨
      (o.overrideVerb ≠ .REPLACE ∧ ∃ pin, o.criterionVersionId = some pin ∧
        members' = members ++ [⟨pin, o.tier, o.rubricVersionId, o.overrideVerb⟩]) ∨
      (o.overrideVerb = .REPLACE ∧ ∃ pin, o.criterionVersionId = some pin ∧
        members' = [⟨pin, o.tier, o.rubricVersionId, o.overrideVerb⟩]) := by
  simp only [replaceStep] at h
  split at h
  · cases h
  split at h
  · rename_i hinherit
    cases h
    exact .inl ⟨by rw [hinherit.1]; decide, rfl⟩
  split at h
  · cases h
  rename_i pin hpin
  split at h
  · rename_i hreplace
    split at h
    · cases h
    · cases h
      exact .inr (.inr ⟨hreplace, pin, hpin, rfl⟩)
  · rename_i hverb
    split at h
    · cases h
      exact .inl ⟨hverb, rfl⟩
    · cases h
      exact .inr (.inl ⟨hverb, pin, hpin, rfl⟩)

theorem runReplace_cons {key : String} {members out : List ResolvedCriterionMember} {o : Operation}
    {rest : List Operation} (h : runReplace key members (o :: rest) = .ok out) :
    ∃ next, replaceStep key members o = .ok next ∧ runReplace key next rest = .ok out := by
  rw [runReplace, List.foldlM_cons] at h
  cases hstep : replaceStep key members o with
  | error e => rw [hstep] at h; cases h
  | ok next => exact ⟨next, rfl, by rw [hstep] at h; exact h⟩

theorem runReplace_append {key : String} {members out : List ResolvedCriterionMember}
    {before after : List Operation} (h : runReplace key members (before ++ after) = .ok out) :
    ∃ mid, runReplace key members before = .ok mid ∧ runReplace key mid after = .ok out := by
  rw [runReplace, List.foldlM_append] at h
  cases hmid : runReplace key members before with
  | error e =>
    rw [runReplace] at hmid
    rw [hmid] at h
    cases h
  | ok mid =>
    rw [runReplace] at hmid
    rw [hmid] at h
    exact ⟨mid, rfl, h⟩

/-- Without REPLACE a member survives, with its stamp. -/
theorem run_keeps {key : String} {operations : List Operation} :
    ∀ {members out : List ResolvedCriterionMember}, runReplace key members operations = .ok out →
      (∀ o ∈ operations, o.overrideVerb ≠ .REPLACE) → ∀ m ∈ members, m ∈ out := by
  induction operations with
  | nil =>
    intro members out h _ m hm
    cases h
    exact hm
  | cons o rest ih =>
    intro members out h hno m hm
    obtain ⟨next, hstep, hrest⟩ := runReplace_cons h
    refine ih hrest (fun o ho => hno o (List.mem_cons_of_mem _ ho)) m ?_
    rcases replaceStep_cases hstep with ⟨-, rfl⟩ | ⟨-, pin, -, rfl⟩ | ⟨hrep, -⟩
    · exact hm
    · exact List.mem_append_left _ hm
    · exact absurd hrep (hno o (by simp))

/-- A member of the result was there before, or an operation stamped it with its tier. -/
theorem run_stamps {key : String} {operations : List Operation} :
    ∀ {members out : List ResolvedCriterionMember}, runReplace key members operations = .ok out →
      ∀ m ∈ out, m ∈ members ∨ ∃ o ∈ operations, m.introducedBy = o.tier := by
  induction operations with
  | nil =>
    intro members out h m hm
    cases h
    exact .inl hm
  | cons o rest ih =>
    intro members out h m hm
    obtain ⟨next, hstep, hrest⟩ := runReplace_cons h
    rcases ih hrest m hm with hnext | ⟨o', ho', htier⟩
    · rcases replaceStep_cases hstep with ⟨-, rfl⟩ | ⟨-, pin, -, rfl⟩ | ⟨-, pin, -, rfl⟩
      · exact .inl hnext
      · rcases List.mem_append.mp hnext with hm | hm
        · exact .inl hm
        · exact .inr ⟨o, by simp, by rw [List.mem_singleton.mp hm]⟩
      · exact .inr ⟨o, by simp, by rw [List.mem_singleton.mp hnext]⟩
    · exact .inr ⟨o', List.mem_cons_of_mem _ ho', htier⟩

/-- After a REPLACE every member is stamped by one of the operations. -/
theorem run_replaced {key : String} {operations : List Operation} :
    ∀ {members out : List ResolvedCriterionMember}, runReplace key members operations = .ok out →
      (∃ o ∈ operations, o.overrideVerb = .REPLACE) →
        ∀ m ∈ out, ∃ o ∈ operations, m.introducedBy = o.tier := by
  induction operations with
  | nil => rintro _ _ _ ⟨o, ho, -⟩; cases ho
  | cons o rest ih =>
    intro members out h hrep m hm
    obtain ⟨next, hstep, hrest⟩ := runReplace_cons h
    by_cases hlater : ∃ o ∈ rest, o.overrideVerb = .REPLACE
    · obtain ⟨o', ho', htier⟩ := ih hrest hlater m hm
      exact ⟨o', List.mem_cons_of_mem _ ho', htier⟩
    · -- `o` itself replaces, and leaves nothing of what was there
      have hthis : o.overrideVerb = .REPLACE := by
        obtain ⟨o', ho', hv⟩ := hrep
        rcases List.mem_cons.mp ho' with rfl | ho'
        · exact hv
        · exact absurd ⟨o', ho', hv⟩ hlater
      rcases run_stamps hrest m hm with hnext | ⟨o', ho', htier⟩
      · rcases replaceStep_cases hstep with ⟨hv, -⟩ | ⟨hv, -⟩ | ⟨-, pin, -, rfl⟩
        · exact absurd hthis hv
        · exact absurd hthis hv
        · exact ⟨o, by simp, by rw [List.mem_singleton.mp hnext]⟩
      · exact ⟨o', List.mem_cons_of_mem _ ho', htier⟩

theorem applyReplace_singleton {key : String} {operations : List Operation}
    {current : InheritAddCriterion} (h : applyReplace [⟨key, operations⟩] = .ok [current]) :
    current.criterionKey = key ∧ runReplace key [] operations = .ok current.members := by
  simp only [applyReplace, List.mapM_cons, List.mapM_nil] at h
  cases hrun : runReplace key [] operations with
  | error e => rw [hrun] at h; cases h
  | ok members =>
    rw [hrun] at h
    by_cases hempty : members = []
    · simp [hempty, bind, Except.bind] at h
    · simp only [bind, Except.bind, hempty, if_false, pure, Except.pure, Except.ok.injEq,
        List.cons.injEq, and_true] at h
      subst h
      exact ⟨rfl, rfl⟩

/-! ## When the policy refuses -/

/-- The exemption is refused as one of a HARD STANDARD gate. -/
def refuses (result : Except ResolutionError ExemptedCriterion) : Prop :=
  ∃ key message, result = .error (.EXEMPT_HARD_STANDARD_GATE key message)

theorem forM_error_iff {α ε : Type} {f : α → Except ε Unit} {e : ε} {l : List α}
    (h : ∀ a ∈ l, f a = .ok () ∨ f a = .error e) :
    (l.forM f = .ok () ∧ ∀ a ∈ l, f a = .ok ()) ∨ (l.forM f = .error e ∧ ∃ a ∈ l, f a = .error e) := by
  induction l with
  | nil => exact .inl ⟨rfl, by simp⟩
  | cons a rest ih =>
    have hcons : (a :: rest).forM f = (f a >>= fun _ => rest.forM f) := rfl
    rcases h a (by simp) with ha | ha
    · rcases ih (fun b hb => h b (List.mem_cons_of_mem _ hb)) with ⟨hr, hall⟩ | ⟨hr, b, hb, hbad⟩
      · exact .inl ⟨by rw [hcons, ha]; exact hr, by simpa [ha] using hall⟩
      · exact .inr ⟨by rw [hcons, ha]; exact hr, b, List.mem_cons_of_mem _ hb, hbad⟩
    · exact .inr ⟨by rw [hcons, ha]; rfl, a, by simp, ha⟩

theorem applyExempt_not_refuses (current : Option InheritAddCriterion) (operation : Operation) :
    ¬ refuses (applyExempt current operation) := by
  rintro ⟨key, message, h⟩
  unfold applyExempt exemptInvalid at h
  split at h
  · cases h
  split at h
  · cases h
  split at h
  · cases h
  split at h
  · cases h
  split at h <;> cases h

/-- With complete metadata the policy refuses exactly where a member stamped STANDARD is a hard
gate. -/
theorem applyPermittedExempt_refuses {current : InheritAddCriterion} {operation : Operation}
    {metadata : List CriterionProtectionMetadata}
    (hcomplete : ∀ m ∈ current.members, (protectionOf metadata m.criterionVersionId).isSome) :
    refuses (applyPermittedExempt current operation metadata) ↔
      ∃ m ∈ current.members, m.introducedBy = .STANDARD ∧ isHardGate metadata m.criterionVersionId := by
  have hmember : ∀ m ∈ current.members,
      (checkMember current.criterionKey metadata m = .error (hardStandardGate current.criterionKey) ∧
        (m.introducedBy = .STANDARD ∧ isHardGate metadata m.criterionVersionId)) ∨
      (checkMember current.criterionKey metadata m = .ok () ∧
        ¬ (m.introducedBy = .STANDARD ∧ isHardGate metadata m.criterionVersionId)) := by
    intro m hm
    obtain ⟨p, hp⟩ := Option.isSome_iff_exists.mp (hcomplete m hm)
    unfold checkMember isHardGate
    simp only [hp]
    split
    · rename_i hhard
      exact .inl ⟨rfl, hhard.1, by simp [hhard.2]⟩
    · rename_i hsoft
      exact .inr ⟨rfl, by simpa using hsoft⟩
  have hcheck : ∀ m ∈ current.members, checkMember current.criterionKey metadata m = .ok () ∨
      checkMember current.criterionKey metadata m = .error (hardStandardGate current.criterionKey) :=
    fun m hm => (hmember m hm).elim (fun h => .inr h.1) (fun h => .inl h.1)
  unfold applyPermittedExempt
  rcases forM_error_iff hcheck with ⟨hok, hall⟩ | ⟨herr, m, hm, hbad⟩
  · rw [hok]
    simp only [bind, Except.bind, applyExempt_not_refuses, false_iff]
    rintro ⟨m, hm, hhard⟩
    rcases hmember m hm with ⟨hbad, -⟩ | ⟨-, hsoft⟩
    · rw [hall m hm] at hbad
      cases hbad
    · exact hsoft hhard
  · rw [herr]
    refine ⟨fun _ => ⟨m, hm, ?_⟩, fun _ => ⟨_, _, rfl⟩⟩
    rcases hmember m hm with ⟨-, hhard⟩ | ⟨hgood, -⟩
    · exact hhard
    · rw [hgood] at hbad
      cases hbad

/-- A criterion whose STANDARD operations leave a hard gate cannot be exempted after any CLIENT and
CONTRACT operations, unless one of them is a REPLACE; after a REPLACE the policy does not refuse. -/
theorem applyPermittedExempt_refuses_iff (key : String) (standard later : List Operation)
    (gate current : InheritAddCriterion) (operation : Operation)
    (metadata : List CriterionProtectionMetadata)
    (hstandard : ∀ o ∈ standard, o.tier = .STANDARD) (hlater : ∀ o ∈ later, o.tier ≠ .STANDARD)
    (hgate : applyReplace [⟨key, standard⟩] = .ok [gate])
    (hhard : ∃ m ∈ gate.members, isHardGate metadata m.criterionVersionId)
    (hcurrent : applyReplace [⟨key, standard ++ later⟩] = .ok [current])
    (hcomplete : ∀ m ∈ current.members, (protectionOf metadata m.criterionVersionId).isSome) :
    refuses (applyPermittedExempt current operation metadata) ↔
      ∀ o ∈ later, o.overrideVerb ≠ .REPLACE := by
  obtain ⟨-, hgaterun⟩ := applyReplace_singleton hgate
  obtain ⟨-, hrun⟩ := applyReplace_singleton hcurrent
  obtain ⟨mid, hmid, hrest⟩ := runReplace_append hrun
  rw [hgaterun, Except.ok.injEq] at hmid
  subst hmid
  rw [applyPermittedExempt_refuses hcomplete]
  constructor
  · rintro ⟨m, hm, hstamp, -⟩ o ho hrep
    obtain ⟨o', ho', htier⟩ := run_replaced hrest ⟨o, ho, hrep⟩ m hm
    exact hlater o' ho' (htier ▸ hstamp)
  · intro hno
    obtain ⟨m, hm, hhardm⟩ := hhard
    refine ⟨m, run_keeps hrest hno m hm, ?_, hhardm⟩
    -- the STANDARD operations start from no member, so each is stamped by one of them
    rcases run_stamps hgaterun m hm with hnil | ⟨o, ho, htier⟩
    · cases hnil
    · rw [htier, hstandard o ho]

/-! ## Two cascades over one gate -/

/-- An operation on `STD.GATE` pinning version `v`. -/
def onGate (tier : RubricTier) (verb : OverrideVerb) (v : String) : Operation :=
  ⟨"STD.GATE", some v, verb, none, 1, tier, "rubric"⟩

/-- A CLIENT exemption of `STD.GATE`. -/
def exemptGate : Operation :=
  ⟨"STD.GATE", none, .EXEMPT,
    some (.obj [("reason", .str "Allowed policy exception"), ("authority", .str "Client policy")]), 1,
    .CLIENT, "rubric"⟩

def gateMetadata : List CriterionProtectionMetadata :=
  [⟨"gate", .GATING, .FIRM_RULE⟩, ⟨"extra", .SCORING, .FIRM_RULE⟩]

/-- A CLIENT ADD next to the gate does not open it. -/
theorem added_gate_refused :
    refuses (applyPermittedExempt
      ⟨"STD.GATE", [⟨"gate", .STANDARD, "rubric", .ADD⟩, ⟨"extra", .CLIENT, "rubric", .ADD⟩]⟩
      exemptGate gateMetadata) :=
  (applyPermittedExempt_refuses_iff "STD.GATE" [onGate .STANDARD .ADD "gate"]
    [onGate .CLIENT .ADD "extra"] ⟨"STD.GATE", [⟨"gate", .STANDARD, "rubric", .ADD⟩]⟩ _ exemptGate
    gateMetadata (by decide) (by decide) (by decide) ⟨_, List.mem_singleton_self _, by decide⟩
    (by decide) (by decide)).mpr (by decide)

/-- A CLIENT REPLACE of the gate by its own version, and then the exemption: it is exempted. -/
theorem replaced_gate_exempted :
    applyReplace [⟨"STD.GATE", [onGate .STANDARD .ADD "gate"]⟩] =
        .ok [⟨"STD.GATE", [⟨"gate", .STANDARD, "rubric", .ADD⟩]⟩] ∧
      isHardGate gateMetadata "gate" = true ∧
      applyReplace [⟨"STD.GATE", [onGate .STANDARD .ADD "gate", onGate .CLIENT .REPLACE "gate"]⟩] =
        .ok [⟨"STD.GATE", [⟨"gate", .CLIENT, "rubric", .REPLACE⟩]⟩] ∧
      applyPermittedExempt ⟨"STD.GATE", [⟨"gate", .CLIENT, "rubric", .REPLACE⟩]⟩ exemptGate gateMetadata =
        .ok ⟨"STD.GATE", [⟨"gate", .CLIENT, "rubric", .REPLACE⟩], "Allowed policy exception",
          "Client policy", .CLIENT, "rubric"⟩ := by
  decide +kernel

end RubricResolver
