import FreightAuditor.Evaluator.FactBundle
import FreightAuditor.Library.Buckets
import FreightAuditor.Library.CodeUnits

/- Tier 1 of the charge alignment: exact one-to-one category and currency only.

   Billed and expected charges are put into buckets by category and currency. A bucket with one
   charge on each side is an alignment, any other is an issue, and so is each charge without
   a category or currency. The key of a bucket is a concatenated text; that the currency at
   its end has three letters is what keeps two classifications from sharing one. -/
namespace RateEngine

open Buckets ExceptOk JsText
open Evaluator (isCurrencyCode)

structure BilledChargeForAlignment where
  chargeFactId : String
  category : Option String
  currency : Option String
  deriving DecidableEq

structure ExpectedChargeForAlignment where
  expectedChargeId : String
  category : Option String
  currency : Option String
  deriving DecidableEq

structure Tier1Alignment where
  key : String
  category : String
  currency : String
  chargeFactId : String
  expectedChargeId : String
  deriving DecidableEq

inductive AlignmentReason where
  | MISSING_CLASSIFICATION | BILLED_ONLY | EXPECTED_ONLY | AMBIGUOUS
  deriving DecidableEq

structure AlignmentIssue where
  key : String
  reason : AlignmentReason
  chargeFactIds : List String
  expectedChargeIds : List String
  deriving DecidableEq

structure Tier1AlignmentResult where
  alignments : List Tier1Alignment
  unassessable : List AlignmentIssue
  deriving DecidableEq

inductive Side where
  | billed | expected
  deriving DecidableEq

def Side.text : Side → String
  | .billed => "billed"
  | .expected => "expected"

structure Member where
  side : Side
  id : String
  deriving DecidableEq

/-- The text of an `Error`. -/
structure RateEngineError where
  message : String
  deriving DecidableEq

structure Canonical where
  key : String
  category : String
  currency : String
  deriving DecidableEq

structure Bucket where
  category : String
  currency : String
  members : List Member
  deriving DecidableEq

/-- What `add` has collected. -/
structure Adding where
  ids : List String
  buckets : List (String × Bucket)
  missing : List AlignmentIssue

section

variable (toUpperCase : String → String)

def canonicalKey (category currency : Option String) : Option Canonical :=
  let canonicalCategory := (category.map fun text => toUpperCase (trim text)).getD ""
  let canonicalCurrency := (currency.map fun text => toUpperCase (trim text)).getD ""
  if canonicalCategory ≠ "" ∧ isCurrencyCode canonicalCurrency = true then
    some ⟨canonicalCategory ++ "|" ++ canonicalCurrency, canonicalCategory, canonicalCurrency⟩
  else none

def scopedId (side : Side) (cleanId : String) : String := side.text ++ ":" ++ cleanId

def missingIssue (side : Side) (cleanId : String) : AlignmentIssue where
  key := scopedId side cleanId
  reason := .MISSING_CLASSIFICATION
  chargeFactIds := if side = .billed then [cleanId] else []
  expectedChargeIds := if side = .expected then [cleanId] else []

def Bucket.push (member : Member) (bucket : Bucket) : Except RateEngineError Bucket :=
  .ok { bucket with members := bucket.members ++ [member] }

def add (side : Side) (state : Adding) (id : String) (category currency : Option String) : Except RateEngineError Adding := do
  let cleanId := trim id
  if cleanId = "" then throw ⟨side.text ++ " charge id is required"⟩
  if scopedId side cleanId ∈ state.ids then throw ⟨"duplicate " ++ side.text ++ " charge id: " ++ cleanId⟩
  let state := { state with ids := scopedId side cleanId :: state.ids }
  match canonicalKey toUpperCase category currency with
  | none => return { state with missing := state.missing ++ [missingIssue side cleanId] }
  | some canonical =>
    let buckets ← place canonical.key ⟨canonical.category, canonical.currency, []⟩ (Bucket.push ⟨side, cleanId⟩) state.buckets
    return { state with buckets := buckets }

end

def Bucket.sideIds (side : Side) (bucket : Bucket) : List String :=
  sortTexts ((bucket.members.filter fun m => m.side = side).map Member.id)

/-- What becomes of a bucket. -/
def outcome (entry : String × Bucket) : Tier1Alignment ⊕ AlignmentIssue :=
  match entry.2.sideIds .billed, entry.2.sideIds .expected with
  | [chargeFactId], [expectedChargeId] =>
    .inl ⟨entry.1, entry.2.category, entry.2.currency, chargeFactId, expectedChargeId⟩
  | chargeFactIds, expectedChargeIds =>
    let reason := if chargeFactIds.length = 0 then .EXPECTED_ONLY
      else if expectedChargeIds.length = 0 then .BILLED_ONLY else .AMBIGUOUS
    .inr ⟨entry.1, reason, chargeFactIds, expectedChargeIds⟩

section

variable (toUpperCase : String → String) (localeCompare : String → String → Ordering)

def alignTier1Charges (billed : List BilledChargeForAlignment) (expected : List ExpectedChargeForAlignment) :
    Except RateEngineError Tier1AlignmentResult := do
  let state ← billed.foldlM (fun state row => add toUpperCase .billed state row.chargeFactId row.category row.currency)
    ⟨[], [], []⟩
  let state ← expected.foldlM (fun state row => add toUpperCase .expected state row.expectedChargeId row.category row.currency)
    state
  let outcomes := (StableSort.sort (fun a b => localeCompare a.1 b.1) state.buckets).map outcome
  let unassessable := state.missing ++ outcomes.filterMap Sum.getRight?
  return ⟨outcomes.filterMap Sum.getLeft?, StableSort.sort (fun a b => localeCompare a.key b.key) unassessable⟩

end

/-! ## What a partition is -/

def BilledChargeForAlignment.cleanId (row : BilledChargeForAlignment) : String := trim row.chargeFactId

def ExpectedChargeForAlignment.cleanId (row : ExpectedChargeForAlignment) : String := trim row.expectedChargeId

/-- The sizes of the two sides that a reason is given for. -/
def AlignmentReason.Matches (billed expected : ℕ) : AlignmentReason → Prop
  | .MISSING_CLASSIFICATION => billed + expected = 1
  | .BILLED_ONLY => 0 < billed ∧ expected = 0
  | .EXPECTED_ONLY => billed = 0 ∧ 0 < expected
  | .AMBIGUOUS => 0 < billed ∧ 0 < expected ∧ ¬ (billed = 1 ∧ expected = 1)

section

variable (toUpperCase : String → String)

def BilledChargeForAlignment.canonical (row : BilledChargeForAlignment) : Option Canonical :=
  canonicalKey toUpperCase row.category row.currency

def ExpectedChargeForAlignment.canonical (row : ExpectedChargeForAlignment) : Option Canonical :=
  canonicalKey toUpperCase row.category row.currency

/-- The two share category and currency, and no other charge has these. -/
def OnlyPair (billed : List BilledChargeForAlignment) (expected : List ExpectedChargeForAlignment)
    (b : BilledChargeForAlignment) (e : ExpectedChargeForAlignment) : Prop :=
  ∃ classification, billed.filter (fun row => row.canonical toUpperCase = some classification) = [b] ∧
    expected.filter (fun row => row.canonical toUpperCase = some classification) = [e]

/-- Sound, and complete. -/
structure Partitions (billed : List BilledChargeForAlignment) (expected : List ExpectedChargeForAlignment)
    (result : Tier1AlignmentResult) : Prop where
  billedIds : (billed.map BilledChargeForAlignment.cleanId).Nodup
  expectedIds : (expected.map ExpectedChargeForAlignment.cleanId).Nodup
  billedOnce : (result.alignments.map Tier1Alignment.chargeFactId ++ result.unassessable.flatMap AlignmentIssue.chargeFactIds).Perm
    (billed.map BilledChargeForAlignment.cleanId)
  expectedOnce : (result.alignments.map Tier1Alignment.expectedChargeId ++
    result.unassessable.flatMap AlignmentIssue.expectedChargeIds).Perm (expected.map ExpectedChargeForAlignment.cleanId)
  aligned : ∀ b ∈ billed, ∀ e ∈ expected,
    (∃ a ∈ result.alignments, a.chargeFactId = b.cleanId ∧ a.expectedChargeId = e.cleanId) ↔
      OnlyPair toUpperCase billed expected b e
  reasons : ∀ issue ∈ result.unassessable, issue.reason.Matches issue.chargeFactIds.length issue.expectedChargeIds.length

end

/-! ## What `add` collects -/

/-- One call of `add`. -/
structure Charge where
  side : Side
  id : String
  category : Option String
  currency : Option String

def Charge.cleanId (charge : Charge) : String := trim charge.id

def Charge.scopedId (charge : Charge) : String := RateEngine.scopedId charge.side charge.cleanId

def Charge.member (charge : Charge) : Member := ⟨charge.side, charge.cleanId⟩

def BilledChargeForAlignment.charge (row : BilledChargeForAlignment) : Charge :=
  ⟨.billed, row.chargeFactId, row.category, row.currency⟩

def ExpectedChargeForAlignment.charge (row : ExpectedChargeForAlignment) : Charge :=
  ⟨.expected, row.expectedChargeId, row.category, row.currency⟩

def allCharges (billed : List BilledChargeForAlignment) (expected : List ExpectedChargeForAlignment) : List Charge :=
  billed.map BilledChargeForAlignment.charge ++ expected.map ExpectedChargeForAlignment.charge

section

variable (toUpperCase : String → String)

def Charge.canonical (charge : Charge) : Option Canonical := canonicalKey toUpperCase charge.category charge.currency

def classified (charges : List Charge) : List (Canonical × Member) :=
  charges.filterMap fun charge => (charge.canonical toUpperCase).map fun canonical => (canonical, charge.member)

def unclassified (charges : List Charge) : List AlignmentIssue :=
  (charges.filter fun charge => charge.canonical toUpperCase = none).map fun charge => missingIssue charge.side charge.cleanId

def grouped (members : List (Canonical × Member)) : Except RateEngineError (List (String × Bucket)) :=
  group (fun x => x.1.key) (fun x => ⟨x.1.category, x.1.currency, []⟩) (fun bucket x => bucket.push x.2) members

/-- After the charges. -/
structure Added (charges : List Charge) (state : Adding) : Prop where
  present : ∀ charge ∈ charges, charge.cleanId ≠ ""
  nodup : (charges.map Charge.scopedId).Nodup
  ids : ∀ id, id ∈ state.ids ↔ id ∈ charges.map Charge.scopedId
  missing : state.missing = unclassified toUpperCase charges
  buckets : grouped (classified toUpperCase charges) = .ok state.buckets

def addCharge (state : Adding) (charge : Charge) : Except RateEngineError Adding :=
  add toUpperCase charge.side state charge.id charge.category charge.currency

end

section

variable {toUpperCase : String → String} {charges : List Charge} {charge : Charge} {state state' : Adding}

/-- What a call of `add` needs and what it does. -/
theorem add_eq_ok : addCharge toUpperCase state charge = .ok state' ↔
    charge.cleanId ≠ "" ∧ charge.scopedId ∉ state.ids ∧ ∃ buckets,
      state' = ⟨charge.scopedId :: state.ids, buckets, state.missing ++ unclassified toUpperCase [charge]⟩ ∧
      (classified toUpperCase [charge]).foldlM (fun buckets x =>
        place x.1.key ⟨x.1.category, x.1.currency, []⟩ (Bucket.push x.2) buckets) state.buckets = .ok buckets := by
  cases hkey : charge.canonical toUpperCase with
  | none =>
    have hclassified : classified toUpperCase [charge] = [] := by simp [classified, hkey]
    have hunclassified : unclassified toUpperCase [charge] = [missingIssue charge.side charge.cleanId] := by
      simp [unclassified, hkey]
    rw [Charge.canonical] at hkey
    simp only [addCharge, add, hkey, hclassified, hunclassified, List.foldlM_nil, throw_bind, ite_throw_eq_ok, pure_eq_ok]
    exact and_congr_right fun _ => and_congr_right fun _ =>
      ⟨fun h => ⟨_, h.symm, rfl⟩, fun h => by obtain ⟨_, rfl, rfl⟩ := h; rfl⟩
  | some canonical =>
    have hclassified : classified toUpperCase [charge] = [(canonical, charge.member)] := by simp [classified, hkey]
    have hunclassified : unclassified toUpperCase [charge] = [] := by simp [unclassified, hkey]
    rw [Charge.canonical] at hkey
    simp only [addCharge, add, hkey, hclassified, hunclassified, List.foldlM_cons, List.foldlM_nil, List.append_nil,
      throw_bind, ite_throw_eq_ok, bind_pure, bind_eq_ok, pure_eq_ok]
    exact and_congr_right fun _ => and_congr_right fun _ =>
      ⟨fun h => by obtain ⟨b, hb, rfl⟩ := h; exact ⟨b, rfl, hb⟩, fun h => by obtain ⟨b, rfl, hb⟩ := h; exact ⟨b, hb, rfl⟩⟩

theorem classified_append (front back : List Charge) :
    classified toUpperCase (front ++ back) = classified toUpperCase front ++ classified toUpperCase back :=
  List.filterMap_append

theorem unclassified_append (front back : List Charge) :
    unclassified toUpperCase (front ++ back) = unclassified toUpperCase front ++ unclassified toUpperCase back := by
  rw [unclassified, List.filter_append, List.map_append]
  rfl

/-- One more charge. -/
theorem Added.add (h : Added toUpperCase charges state) (hadd : addCharge toUpperCase state charge = .ok state') :
    Added toUpperCase (charges ++ [charge]) state' := by
  obtain ⟨hpresent, hnew, buckets, rfl, hbuckets⟩ := add_eq_ok.mp hadd
  have hnew' : charge.scopedId ∉ charges.map Charge.scopedId := fun hmem => hnew ((h.ids _).mpr hmem)
  refine ⟨fun c hc => ?_, ?_, fun id => ?_, ?_, ?_⟩
  · rcases List.mem_append.mp hc with hc | hc
    · exact h.present c hc
    · exact List.mem_singleton.mp hc ▸ hpresent
  · rw [List.map_append, List.map_singleton]
    exact List.nodup_append.mpr ⟨h.nodup, List.nodup_singleton _, fun a ha b hb hab =>
      hnew' (List.mem_singleton.mp hb ▸ hab ▸ ha)⟩
  · rw [List.map_append, List.mem_append, List.mem_cons, h.ids, List.map_singleton, List.mem_singleton]
    exact or_comm
  · rw [unclassified_append, ← h.missing]
  · rw [grouped, group, classified_append, List.foldlM_append, bind_eq_ok]
    exact ⟨state.buckets, h.buckets, hbuckets⟩

theorem added_nil : Added toUpperCase [] ⟨[], [], []⟩ :=
  ⟨List.forall_mem_nil _, List.nodup_nil, fun _ => Iff.rfl, rfl, rfl⟩

/-- All charges, one after the other. -/
theorem added_of_foldlM {state : Adding} (h : charges.foldlM (addCharge toUpperCase) ⟨[], [], []⟩ = .ok state) :
    Added toUpperCase charges state := by
  induction charges using List.reverseRecOn generalizing state with
  | nil => exact pure_eq_ok.mp h ▸ added_nil
  | append_singleton front charge ih =>
    rw [List.foldlM_append, bind_eq_ok] at h
    obtain ⟨mid, hmid, hlast⟩ := h
    simp only [List.foldlM_cons, List.foldlM_nil, bind_pure] at hlast
    exact (ih hmid).add hlast

theorem grouped_total (members : List (Canonical × Member)) : ∃ buckets, grouped members = .ok buckets :=
  group_total fun _ _ bucket => ⟨{ bucket with members := bucket.members ++ [_] }, rfl⟩

/-- Nothing but a missing or repeated id is refused. -/
theorem foldlM_of_ids (hpresent : ∀ c ∈ charges, c.cleanId ≠ "") (hnodup : (charges.map Charge.scopedId).Nodup) :
    ∃ state, charges.foldlM (addCharge toUpperCase) ⟨[], [], []⟩ = .ok state := by
  induction charges using List.reverseRecOn with
  | nil => exact ⟨_, rfl⟩
  | append_singleton front charge ih =>
    rw [List.map_append, List.map_singleton] at hnodup
    obtain ⟨hfront, -, hapart⟩ := List.nodup_append.mp hnodup
    obtain ⟨mid, hmid⟩ := ih (fun c hc => hpresent c (List.mem_append_left _ hc)) hfront
    have hadded := added_of_foldlM hmid
    have hnew : charge.scopedId ∉ mid.ids := fun hmem =>
      hapart _ ((hadded.ids _).mp hmem) _ (List.mem_singleton_self _) rfl
    obtain ⟨buckets, hbuckets⟩ := grouped_total (classified toUpperCase (front ++ [charge]))
    rw [grouped, group, classified_append, List.foldlM_append, bind_eq_ok] at hbuckets
    obtain ⟨before, hbefore, hbuckets⟩ := hbuckets
    obtain rfl : before = mid.buckets := Except.ok.inj (hbefore.symm.trans hadded.buckets)
    obtain ⟨state, hstate⟩ : ∃ state, addCharge toUpperCase mid charge = .ok state := ⟨_, add_eq_ok.mpr
      ⟨hpresent charge (List.mem_append_right _ (List.mem_singleton_self _)), hnew, buckets, rfl, hbuckets⟩⟩
    refine ⟨state, ?_⟩
    rw [List.foldlM_append, hmid, ok_bind]
    simp only [List.foldlM_cons, List.foldlM_nil, bind_pure]
    exact hstate

end

/-! ## The buckets -/

def Tier1Alignment.idOf (a : Tier1Alignment) : Side → String
  | .billed => a.chargeFactId
  | .expected => a.expectedChargeId

def AlignmentIssue.idsOf (issue : AlignmentIssue) : Side → List String
  | .billed => issue.chargeFactIds
  | .expected => issue.expectedChargeIds

def outcomeKey : Tier1Alignment ⊕ AlignmentIssue → String
  | .inl a => a.key
  | .inr issue => issue.key

def outcomeIds (side : Side) : Tier1Alignment ⊕ AlignmentIssue → List String
  | .inl a => [a.idOf side]
  | .inr issue => issue.idsOf side

theorem outcome_inl {entry : String × Bucket} {a : Tier1Alignment} : outcome entry = .inl a ↔
    entry.2.sideIds .billed = [a.chargeFactId] ∧ entry.2.sideIds .expected = [a.expectedChargeId] ∧
      a.key = entry.1 ∧ a.category = entry.2.category ∧ a.currency = entry.2.currency := by
  unfold outcome
  split
  · rename_i chargeFactId expectedChargeId hbilled hexpected
    rw [hbilled, hexpected, Sum.inl.injEq, List.singleton_inj, List.singleton_inj]
    constructor
    · rintro rfl
      exact ⟨rfl, rfl, rfl, rfl, rfl⟩
    · rintro ⟨rfl, rfl, hkey, hcategory, hcurrency⟩
      rw [← hkey, ← hcategory, ← hcurrency]
  · rename_i hnot
    exact iff_of_false (fun h => by cases h) fun h => hnot _ _ h.1 h.2.1

theorem outcome_inr {entry : String × Bucket} {issue : AlignmentIssue} (h : outcome entry = .inr issue) :
    issue.key = entry.1 ∧ issue.chargeFactIds = entry.2.sideIds .billed ∧
      issue.expectedChargeIds = entry.2.sideIds .expected ∧
      ¬ (issue.chargeFactIds.length = 1 ∧ issue.expectedChargeIds.length = 1) ∧
      issue.reason = if issue.chargeFactIds.length = 0 then .EXPECTED_ONLY
        else if issue.expectedChargeIds.length = 0 then .BILLED_ONLY else .AMBIGUOUS := by
  unfold outcome at h
  split at h
  · cases h
  · rename_i hnot
    obtain rfl := Sum.inr.inj h
    refine ⟨rfl, rfl, rfl, fun hone => ?_, rfl⟩
    obtain ⟨x, hx⟩ := List.length_eq_one_iff.mp hone.1
    obtain ⟨y, hy⟩ := List.length_eq_one_iff.mp hone.2
    exact hnot x y hx hy

theorem outcomeKey_outcome (entry : String × Bucket) : outcomeKey (outcome entry) = entry.1 := by
  cases h : outcome entry with
  | inl a => exact (outcome_inl.mp h).2.2.1
  | inr issue => exact (outcome_inr h).1

theorem outcomeIds_outcome (side : Side) (entry : String × Bucket) :
    outcomeIds side (outcome entry) = entry.2.sideIds side := by
  cases h : outcome entry with
  | inl a =>
    obtain ⟨hbilled, hexpected, -⟩ := outcome_inl.mp h
    cases side with
    | billed => exact hbilled.symm
    | expected => exact hexpected.symm
  | inr issue =>
    obtain ⟨-, hbilled, hexpected, -⟩ := outcome_inr h
    cases side with
    | billed => exact hbilled
    | expected => exact hexpected

/-- Nothing else of a bucket shows. -/
theorem outcome_congr {entry entry' : String × Bucket} (hkey : entry.1 = entry'.1)
    (hcategory : entry.2.category = entry'.2.category) (hcurrency : entry.2.currency = entry'.2.currency)
    (hids : ∀ side, entry.2.sideIds side = entry'.2.sideIds side) : outcome entry = outcome entry' := by
  simp only [outcome, hkey, hcategory, hcurrency, hids]

theorem isCurrencyCode_length {currency : String} (h : isCurrencyCode currency = true) : currency.toList.length = 3 := by
  rw [isCurrencyCode, Bool.and_eq_true] at h
  exact eq_of_beq h.1

/-- The alignments and issues of what has been collected. -/
def resultOf (localeCompare : String → String → Ordering) (state : Adding) : Tier1AlignmentResult :=
  let outcomes := (StableSort.sort (fun a b => localeCompare a.1 b.1) state.buckets).map outcome
  ⟨outcomes.filterMap Sum.getLeft?,
    StableSort.sort (fun a b => localeCompare a.key b.key) (state.missing ++ outcomes.filterMap Sum.getRight?)⟩

section

variable {toUpperCase : String → String} {charges charges' : List Charge} {state state' : Adding}

theorem canonicalKey_eq {category currency : Option String} {c : Canonical}
    (h : canonicalKey toUpperCase category currency = some c) :
    c.key = c.category ++ "|" ++ c.currency ∧ isCurrencyCode c.currency = true := by
  unfold canonicalKey at h
  simp only [Option.ite_none_right_eq_some, Option.some.injEq] at h
  obtain ⟨⟨-, hcurrency⟩, rfl⟩ := h
  exact ⟨rfl, hcurrency⟩

/-- The three letters at the end of a key are the currency, whatever the category is. -/
theorem canonicalKey_inj {category currency category' currency' : Option String} {c c' : Canonical}
    (h : canonicalKey toUpperCase category currency = some c)
    (h' : canonicalKey toUpperCase category' currency' = some c') (hkey : c.key = c'.key) : c = c' := by
  obtain ⟨htext, hcurrency⟩ := canonicalKey_eq h
  obtain ⟨htext', hcurrency'⟩ := canonicalKey_eq h'
  have hsame := congrArg String.toList (htext.symm.trans (hkey.trans htext'))
  rw [String.toList_append, String.toList_append, String.toList_append, String.toList_append] at hsame
  have hlength : c.currency.toList.length = c'.currency.toList.length := by
    rw [isCurrencyCode_length hcurrency, isCurrencyCode_length hcurrency']
  obtain ⟨hfront, hback⟩ := List.append_inj' hsame hlength
  have hcategory := List.append_cancel_right hfront
  cases c with
  | mk key category currency =>
    cases c' with
    | mk key' category' currency' =>
      rw [Canonical.mk.injEq]
      exact ⟨hkey, String.toList_inj.mp hcategory, String.toList_inj.mp hback⟩

theorem fold_push (members : List (Canonical × Member)) (bucket : Bucket) :
    members.foldlM (fun bucket x => bucket.push x.2) bucket =
      .ok { bucket with members := bucket.members ++ members.map Prod.snd } := by
  induction members generalizing bucket with
  | nil => rw [List.map_nil, List.append_nil]; rfl
  | cons x rest ih =>
    rw [List.foldlM_cons, Bucket.push, ok_bind, ih, List.map_cons, List.append_assoc, List.singleton_append]

/-- The charges of one side with a key. -/
def idsAt (toUpperCase : String → String) (charges : List Charge) (side : Side) (key : String) : List String :=
  (charges.filter fun c => c.side = side ∧ (c.canonical toUpperCase).map Canonical.key = some key).map Charge.cleanId

theorem members_idsAt (charges : List Charge) (side : Side) (key : String) :
    (((ofKey (fun x => x.1.key) (classified toUpperCase charges) key).map Prod.snd).filter fun m => m.side = side).map Member.id =
      idsAt toUpperCase charges side key := by
  induction charges with
  | nil => rfl
  | cons charge rest ih =>
    have hids (matches' : Bool) (h : decide (charge.side = side ∧ (charge.canonical toUpperCase).map Canonical.key = some key) = matches') :
        idsAt toUpperCase (charge :: rest) side key =
          if matches' then charge.cleanId :: idsAt toUpperCase rest side key else idsAt toUpperCase rest side key := by
      rw [idsAt, List.filter_cons, h]
      cases matches' <;> rfl
    cases hkey : charge.canonical toUpperCase with
    | none =>
      have hclassified : classified toUpperCase (charge :: rest) = classified toUpperCase rest :=
        List.filterMap_cons_none (by rw [hkey]; rfl)
      rw [hclassified, ih, hids false (by rw [hkey]; simp)]
      rfl
    | some canonical =>
      have hclassified : classified toUpperCase (charge :: rest) = (canonical, charge.member) :: classified toUpperCase rest :=
        List.filterMap_cons_some (by rw [hkey]; rfl)
      rw [hclassified, ofKey, List.filter_cons]
      by_cases hk : canonical.key = key
      · by_cases hside : charge.side = side
        · rw [hids true (by rw [hkey]; simp [hk, hside])]
          simp only [hk, decide_true, if_true, List.map_cons, List.filter_cons, Charge.member, hside]
          exact congrArg (charge.cleanId :: ·) ih
        · rw [hids false (by rw [hkey]; simp [hside])]
          simp only [hk, decide_true, if_true, List.map_cons, List.filter_cons, Charge.member, hside, decide_false]
          exact ih
      · rw [hids false (by rw [hkey]; simp [hk])]
        simp only [hk, decide_false]
        exact ih

/-- What is in a bucket. -/
theorem Added.bucket (h : Added toUpperCase charges state) {entry : String × Bucket} (hentry : entry ∈ state.buckets) :
    (∃ c ∈ charges, ∃ canonical, c.canonical toUpperCase = some canonical ∧ canonical.key = entry.1 ∧
      canonical.category = entry.2.category ∧ canonical.currency = entry.2.currency) ∧
    ∀ side, entry.2.sideIds side = sortTexts (idsAt toUpperCase charges side entry.1) := by
  obtain ⟨x, hx, hfold⟩ := (group_collected h.buckets).folded entry hentry
  rw [fold_push] at hfold
  obtain hbucket := Except.ok.inj hfold
  constructor
  · obtain ⟨hmem, hkey⟩ := mem_ofKey.mp (List.mem_of_mem_head? hx)
    obtain ⟨c, hc, hcx⟩ := List.mem_filterMap.mp hmem
    obtain ⟨canonical, hcanonical, rfl⟩ := Option.map_eq_some_iff.mp hcx
    exact ⟨c, hc, canonical, hcanonical, hkey, congrArg Bucket.category hbucket, congrArg Bucket.currency hbucket⟩
  · intro side
    rw [Bucket.sideIds, ← hbucket, List.nil_append, members_idsAt]

/-- The keys of the buckets. -/
theorem Added.keys (h : Added toUpperCase charges state) (key : String) :
    key ∈ state.buckets.map Prod.fst ↔ ∃ c ∈ charges, (c.canonical toUpperCase).map Canonical.key = some key := by
  rw [(group_collected h.buckets).keys, List.mem_map]
  constructor
  · rintro ⟨x, hx, rfl⟩
    obtain ⟨c, hc, hcx⟩ := List.mem_filterMap.mp hx
    obtain ⟨canonical, hcanonical, rfl⟩ := Option.map_eq_some_iff.mp hcx
    exact ⟨c, hc, by rw [hcanonical]; rfl⟩
  · rintro ⟨c, hc, hkey⟩
    obtain ⟨canonical, hcanonical, rfl⟩ := Option.map_eq_some_iff.mp hkey
    exact ⟨(canonical, c.member), List.mem_filterMap.mpr ⟨c, hc, by rw [hcanonical]; rfl⟩, rfl⟩

theorem alignments_perm (localeCompare : String → String → Ordering) (state : Adding) :
    (resultOf localeCompare state).alignments.Perm ((state.buckets.map outcome).filterMap Sum.getLeft?) :=
  ((StableSort.sort_perm _).map _).filterMap _

theorem unassessable_perm (localeCompare : String → String → Ordering) (state : Adding) :
    (resultOf localeCompare state).unassessable.Perm
      (state.missing ++ (state.buckets.map outcome).filterMap Sum.getRight?) :=
  (StableSort.sort_perm _).trans ((((StableSort.sort_perm _).map _).filterMap _).append_left _)

/-- The ids of the outcomes, whichever they are. -/
theorem outcomes_ids (side : Side) (outcomes : List (Tier1Alignment ⊕ AlignmentIssue)) :
    ((outcomes.filterMap Sum.getLeft?).map (Tier1Alignment.idOf · side) ++
      (outcomes.filterMap Sum.getRight?).flatMap (AlignmentIssue.idsOf · side)).Perm (outcomes.flatMap (outcomeIds side)) := by
  induction outcomes with
  | nil => exact .refl _
  | cons o rest ih =>
    cases o with
    | inl a => exact ih.cons _
    | inr issue =>
      show (_ ++ (issue.idsOf side ++ _)).Perm (issue.idsOf side ++ _)
      refine List.Perm.trans ?_ (ih.append_left _)
      rw [← List.append_assoc, ← List.append_assoc]
      exact List.perm_append_comm.append_right _

/-- The ids of the issues for charges without classification. -/
theorem unclassified_ids (charges : List Charge) (side : Side) :
    (unclassified toUpperCase charges).flatMap (AlignmentIssue.idsOf · side) =
      (charges.filter fun c => c.side = side ∧ c.canonical toUpperCase = none).map Charge.cleanId := by
  have hissue (c : Charge) : (missingIssue c.side c.cleanId).idsOf side = if c.side = side then [c.cleanId] else [] := by
    cases hside : c.side <;> cases side <;> rfl
  induction charges with
  | nil => rfl
  | cons charge rest ih =>
    rw [← List.singleton_append, unclassified_append, List.flatMap_append, ih, List.filter_append, List.map_append]
    congr 1
    by_cases hnone : charge.canonical toUpperCase = none
    · have hids := hissue charge
      by_cases hside : charge.side = side <;> simp_all [unclassified]
    · simp [unclassified, hnone]

/-- The ids in the buckets. -/
theorem Added.classified_ids (h : Added toUpperCase charges state) (side : Side) :
    ((state.buckets.map outcome).flatMap (outcomeIds side)).Perm
      ((charges.filter fun c => c.side = side ∧ ¬ c.canonical toUpperCase = none).map Charge.cleanId) := by
  have hbuckets : ∀ entry ∈ state.buckets, (outcomeIds side (outcome entry)).Perm
      (idsAt toUpperCase charges side entry.1) := by
    intro entry hentry
    rw [outcomeIds_outcome, (h.bucket hentry).2 side]
    exact sortTexts_perm _
  have hkeys : ((state.buckets.map outcome).flatMap (outcomeIds side)).Perm
      ((state.buckets.map Prod.fst).flatMap (idsAt toUpperCase charges side)) := by
    rw [List.flatMap_map, List.flatMap_map]
    exact List.Perm.flatMap_left _ hbuckets
  refine hkeys.trans ?_
  have hat (key : String) : idsAt toUpperCase charges side key = (ofKey (fun c => (c.canonical toUpperCase).map Canonical.key)
      (charges.filter fun c => c.side = side ∧ ¬ c.canonical toUpperCase = none) (some key)).map Charge.cleanId := by
    rw [idsAt, ofKey, List.filter_filter]
    refine congrArg _ (List.filter_congr fun c _ => ?_)
    cases hc : c.canonical toUpperCase <;> simp [Bool.and_comm]
  have hsome : ((state.buckets.map Prod.fst).map some).Nodup :=
    (group_collected h.buckets).nodup.map fun _ _ heq => Option.some.inj heq
  have hall : ∀ c ∈ charges.filter fun c => c.side = side ∧ ¬ c.canonical toUpperCase = none,
      (c.canonical toUpperCase).map Canonical.key ∈ (state.buckets.map Prod.fst).map some := by
    intro c hc
    obtain ⟨hc, hpresent⟩ := List.mem_filter.mp hc
    obtain ⟨canonical, hcanonical⟩ := Option.ne_none_iff_exists'.mp (of_decide_eq_true hpresent).2
    rw [hcanonical]
    exact List.mem_map_of_mem ((h.keys _).mpr ⟨c, hc, by rw [hcanonical]; rfl⟩)
  have hpartition := (flatMap_ofKey_all hsome hall).map Charge.cleanId
  rw [List.flatMap_map, List.map_flatMap] at hpartition
  rw [funext hat]
  exact hpartition

/-- Every id once. -/
theorem Added.once (h : Added toUpperCase charges state) (localeCompare : String → String → Ordering) (side : Side) :
    ((resultOf localeCompare state).alignments.map (Tier1Alignment.idOf · side) ++
      (resultOf localeCompare state).unassessable.flatMap (AlignmentIssue.idsOf · side)).Perm
    ((charges.filter fun c => c.side = side).map Charge.cleanId) := by
  have hissues := (unassessable_perm localeCompare state).flatMap_right (AlignmentIssue.idsOf · side)
  have hall := ((alignments_perm localeCompare state).map (Tier1Alignment.idOf · side)).append hissues
  have hsplit := (List.filter_append_perm (fun c : Charge => decide (c.canonical toUpperCase = none))
    (charges.filter fun c => c.side = side)).map Charge.cleanId
  have hcomplement (p : Charge → Prop) [DecidablePred p] : (charges.filter fun c => c.side = side).filter (fun c => decide (p c)) =
      charges.filter fun c => c.side = side ∧ p c := by
    rw [List.filter_filter]
    refine List.filter_congr fun c _ => ?_
    rw [Bool.decide_and, Bool.and_comm]
  have hnot : (fun c : Charge => !decide (c.canonical toUpperCase = none)) =
      fun c : Charge => decide (¬ c.canonical toUpperCase = none) := funext fun c => decide_not.symm
  rw [hnot, hcomplement, hcomplement, List.map_append] at hsplit
  rw [List.flatMap_append, h.missing, unclassified_ids] at hall
  refine hall.trans (List.Perm.trans ?_ hsplit)
  -- the missing ones to the front
  rw [← List.append_assoc]
  refine (List.perm_append_comm.append_right _).trans ?_
  rw [List.append_assoc]
  exact ((outcomes_ids side _).trans (h.classified_ids side)).append_left _

theorem sortTexts_eq_singleton {ids : List String} {id : String} : sortTexts ids = [id] ↔ ids = [id] := by
  have hperm := sortTexts_perm ids
  constructor
  · intro h
    rw [h] at hperm
    exact (List.singleton_perm.mp hperm).symm
  · intro h
    rw [h] at hperm ⊢
    exact List.perm_singleton.mp hperm

/-- Which ids are aligned. -/
theorem Added.aligned (h : Added toUpperCase charges state) (localeCompare : String → String → Ordering) (x y : String) :
    (∃ a ∈ (resultOf localeCompare state).alignments, a.chargeFactId = x ∧ a.expectedChargeId = y) ↔
      ∃ key, idsAt toUpperCase charges .billed key = [x] ∧ idsAt toUpperCase charges .expected key = [y] := by
  constructor
  · rintro ⟨a, ha, rfl, rfl⟩
    have hmem := (alignments_perm localeCompare state).mem_iff.mp ha
    obtain ⟨o, ho, hleft⟩ := List.mem_filterMap.mp hmem
    obtain ⟨entry, hentry, rfl⟩ := List.mem_map.mp ho
    obtain ⟨hbilled, hexpected, -⟩ := outcome_inl.mp (Sum.getLeft?_eq_some_iff.mp hleft)
    rw [(h.bucket hentry).2] at hbilled hexpected
    exact ⟨entry.1, sortTexts_eq_singleton.mp hbilled, sortTexts_eq_singleton.mp hexpected⟩
  · rintro ⟨key, hbilled, hexpected⟩
    have hx : x ∈ idsAt toUpperCase charges .billed key := hbilled ▸ List.mem_singleton_self x
    obtain ⟨c, hc, -⟩ := List.mem_map.mp hx
    obtain ⟨hc, hkey⟩ := List.mem_filter.mp hc
    obtain ⟨entry, hentry, rfl⟩ := List.mem_map.mp ((h.keys key).mpr ⟨c, hc, (of_decide_eq_true hkey).2⟩)
    have hsides := (h.bucket hentry).2
    have houtcome : outcome entry = .inl ⟨entry.1, entry.2.category, entry.2.currency, x, y⟩ :=
      outcome_inl.mpr ⟨by rw [hsides, hbilled]; exact sortTexts_eq_singleton.mpr rfl,
        by rw [hsides, hexpected]; exact sortTexts_eq_singleton.mpr rfl, rfl, rfl, rfl⟩
    have hleft : (outcome entry).getLeft? = some ⟨entry.1, entry.2.category, entry.2.currency, x, y⟩ := by
      rw [houtcome]
      rfl
    have hmem := List.mem_filterMap.mpr ⟨_, List.mem_map_of_mem hentry, hleft⟩
    exact ⟨_, (alignments_perm localeCompare state).mem_iff.mpr hmem, rfl, rfl⟩

theorem missingIssue_matches (side : Side) (cleanId : String) :
    (missingIssue side cleanId).reason.Matches (missingIssue side cleanId).chargeFactIds.length
      (missingIssue side cleanId).expectedChargeIds.length := by
  cases side <;> rfl

/-- A bucket has a charge, so that one side is not empty. -/
theorem Added.bucket_pos (h : Added toUpperCase charges state) {entry : String × Bucket} (hentry : entry ∈ state.buckets) :
    0 < (entry.2.sideIds .billed).length ∨ 0 < (entry.2.sideIds .expected).length := by
  obtain ⟨⟨c, hc, canonical, hcanonical, hkey, -⟩, hsides⟩ := h.bucket hentry
  have hmem : c.cleanId ∈ entry.2.sideIds c.side := by
    rw [hsides, (sortTexts_perm _).mem_iff]
    exact List.mem_map_of_mem (List.mem_filter.mpr ⟨hc, by simp [hcanonical, hkey]⟩)
  cases hside : c.side with
  | billed => exact .inl (List.length_pos_of_mem (hside ▸ hmem))
  | expected => exact .inr (List.length_pos_of_mem (hside ▸ hmem))

theorem Added.reasons (h : Added toUpperCase charges state) (localeCompare : String → String → Ordering) :
    ∀ issue ∈ (resultOf localeCompare state).unassessable,
      issue.reason.Matches issue.chargeFactIds.length issue.expectedChargeIds.length := by
  intro issue hissue
  rcases List.mem_append.mp ((unassessable_perm localeCompare state).mem_iff.mp hissue) with hissue | hissue
  · rw [h.missing] at hissue
    obtain ⟨c, -, rfl⟩ := List.mem_map.mp hissue
    exact missingIssue_matches c.side c.cleanId
  · obtain ⟨o, ho, hright⟩ := List.mem_filterMap.mp hissue
    obtain ⟨entry, hentry, rfl⟩ := List.mem_map.mp ho
    obtain ⟨-, hbilled, hexpected, hone, hreason⟩ := outcome_inr (Sum.getRight?_eq_some_iff.mp hright)
    have hpos := h.bucket_pos hentry
    rw [← hbilled, ← hexpected] at hpos
    rw [hreason]
    split
    · rename_i hzero
      exact ⟨hzero, hpos.resolve_left (by omega)⟩
    · split
      · rename_i hbilled hzero
        exact ⟨by omega, hzero⟩
      · exact ⟨by omega, by omega, hone⟩

/-- On one side no id is there twice. -/
theorem Added.side_nodup (h : Added toUpperCase charges state) (side : Side) :
    ((charges.filter fun c => c.side = side).map Charge.cleanId).Nodup := by
  have hscoped : ((charges.filter fun c => c.side = side).map Charge.scopedId).Nodup :=
    h.nodup.sublist (List.filter_sublist.map _)
  have hids : (charges.filter fun c => c.side = side).map Charge.scopedId =
      ((charges.filter fun c => c.side = side).map Charge.cleanId).map (scopedId side) := by
    rw [List.map_map]
    refine List.map_congr_left fun c hc => ?_
    have hside := of_decide_eq_true (List.mem_filter.mp hc).2
    exact congrArg (RateEngine.scopedId · c.cleanId) hside
  rw [hids] at hscoped
  exact hscoped.of_map

theorem Added.idsAt_nodup (h : Added toUpperCase charges state) (side : Side) (key : String) :
    (idsAt toUpperCase charges side key).Nodup := by
  have hat : idsAt toUpperCase charges side key = ((charges.filter fun c => c.side = side).filter
      fun c => (c.canonical toUpperCase).map Canonical.key = some key).map Charge.cleanId := by
    rw [idsAt, List.filter_filter]
    refine congrArg _ (List.filter_congr fun c _ => ?_)
    rw [Bool.decide_and, Bool.and_comm]
  rw [hat]
  exact (h.side_nodup side).sublist (List.filter_sublist.map _)

/-- In another order the charges make the same buckets. -/
theorem Added.outcomes (h : Added toUpperCase charges state) (h' : Added toUpperCase charges' state')
    (hperm : charges'.Perm charges) {entry' : String × Bucket} (hentry' : entry' ∈ state'.buckets) :
    outcome entry' ∈ state.buckets.map outcome := by
  obtain ⟨⟨c', hc', canonical', hcanonical', hkey', hcategory', hcurrency'⟩, hsides'⟩ := h'.bucket hentry'
  have hmem : entry'.1 ∈ state.buckets.map Prod.fst :=
    (h.keys _).mpr ⟨c', hperm.mem_iff.mp hc', by rw [hcanonical', ← hkey']; rfl⟩
  obtain ⟨entry, hentry, hsame⟩ := List.mem_map.mp hmem
  obtain ⟨⟨c, hc, canonical, hcanonical, hkey, hcategory, hcurrency⟩, hsides⟩ := h.bucket hentry
  obtain rfl : canonical = canonical' := canonicalKey_inj hcanonical hcanonical' (hkey.trans (hsame.trans hkey'.symm))
  refine List.mem_map.mpr ⟨entry, hentry, outcome_congr hsame (hcategory.symm.trans hcategory')
    (hcurrency.symm.trans hcurrency') fun side => ?_⟩
  rw [hsides, hsides', hsame]
  exact (sortTexts_eq (h.idsAt_nodup side entry'.1) ((hperm.filter _).map _)).symm

theorem Added.outcomes_nodup (h : Added toUpperCase charges state) : (state.buckets.map outcome).Nodup := by
  refine List.Nodup.of_map outcomeKey ?_
  rw [List.map_map]
  have hkeys : outcomeKey ∘ outcome = Prod.fst := funext outcomeKey_outcome
  rw [hkeys]
  exact (group_collected h.buckets).nodup

/-- The order of the charges shows in the order of the results only. -/
theorem Added.same (h : Added toUpperCase charges state) (h' : Added toUpperCase charges' state')
    (hperm : charges'.Perm charges) (localeCompare : String → String → Ordering) :
    (resultOf localeCompare state').alignments.Perm (resultOf localeCompare state).alignments ∧
      (resultOf localeCompare state').unassessable.Perm (resultOf localeCompare state).unassessable := by
  have houtcomes : (state'.buckets.map outcome).Perm (state.buckets.map outcome) := by
    refine (List.perm_ext_iff_of_nodup h'.outcomes_nodup h.outcomes_nodup).mpr fun o => ⟨fun ho => ?_, fun ho => ?_⟩
    · obtain ⟨entry', hentry', rfl⟩ := List.mem_map.mp ho
      exact h.outcomes h' hperm hentry'
    · obtain ⟨entry, hentry, rfl⟩ := List.mem_map.mp ho
      exact h'.outcomes h hperm.symm hentry
  have hmissing : state'.missing.Perm state.missing := by
    rw [h.missing, h'.missing]
    exact (hperm.filter _).map _
  constructor
  · exact (alignments_perm _ _).trans ((houtcomes.filterMap _).trans (alignments_perm _ _).symm)
  · exact (unassessable_perm _ _).trans ((hmissing.append (houtcomes.filterMap _)).trans (unassessable_perm _ _).symm)

/-! ## The two lists -/

variable {billed billed' : List BilledChargeForAlignment} {expected expected' : List ExpectedChargeForAlignment}
  {localeCompare : String → String → Ordering} {result : Tier1AlignmentResult}

theorem align_eq_ok : alignTier1Charges toUpperCase localeCompare billed expected = .ok result ↔
    ∃ state, (allCharges billed expected).foldlM (addCharge toUpperCase) ⟨[], [], []⟩ = .ok state ∧
      resultOf localeCompare state = result := by
  rw [alignTier1Charges, allCharges, List.foldlM_append, List.foldlM_map, ← bind_assoc]
  simp only [List.foldlM_map, bind_eq_ok, pure_eq_ok]
  rfl

theorem billed_filter (p : Charge → Prop) [DecidablePred p] :
    ((allCharges billed expected).filter fun c => c.side = .billed ∧ p c).map Charge.cleanId =
      (billed.filter fun row => p row.charge).map BilledChargeForAlignment.cleanId := by
  have hside : Side.expected ≠ Side.billed := by decide
  have hbilled : (fun c : Charge => decide (c.side = .billed ∧ p c)) ∘ BilledChargeForAlignment.charge =
      fun row => decide (p row.charge) := funext fun row => decide_eq_decide.mpr (and_iff_right rfl)
  have hexpected : (fun c : Charge => decide (c.side = .billed ∧ p c)) ∘ ExpectedChargeForAlignment.charge =
      fun _ => false := funext fun row => by
    have hnot : ¬ (row.charge.side = .billed ∧ p row.charge) := fun h => absurd h.1 hside
    exact decide_eq_false hnot
  rw [allCharges, List.filter_append, List.filter_map, List.filter_map, hbilled, hexpected,
    List.filter_eq_nil_iff.mpr fun _ _ => Bool.false_ne_true, List.map_nil, List.append_nil, List.map_map]
  rfl

theorem expected_filter (p : Charge → Prop) [DecidablePred p] :
    ((allCharges billed expected).filter fun c => c.side = .expected ∧ p c).map Charge.cleanId =
      (expected.filter fun row => p row.charge).map ExpectedChargeForAlignment.cleanId := by
  have hside : Side.billed ≠ Side.expected := by decide
  have hbilled : (fun c : Charge => decide (c.side = .expected ∧ p c)) ∘ BilledChargeForAlignment.charge =
      fun _ => false := funext fun row => by
    have hnot : ¬ (row.charge.side = .expected ∧ p row.charge) := fun h => absurd h.1 hside
    exact decide_eq_false hnot
  have hexpected : (fun c : Charge => decide (c.side = .expected ∧ p c)) ∘ ExpectedChargeForAlignment.charge =
      fun row => decide (p row.charge) := funext fun row => decide_eq_decide.mpr (and_iff_right rfl)
  rw [allCharges, List.filter_append, List.filter_map, List.filter_map, hbilled, hexpected,
    List.filter_eq_nil_iff.mpr fun _ _ => Bool.false_ne_true, List.map_nil, List.nil_append, List.map_map]
  rfl

theorem billed_all : ((allCharges billed expected).filter fun c => c.side = .billed).map Charge.cleanId =
    billed.map BilledChargeForAlignment.cleanId := by
  have hall := @billed_filter billed expected (fun _ => True) _
  simpa using hall

theorem expected_all : ((allCharges billed expected).filter fun c => c.side = .expected).map Charge.cleanId =
    expected.map ExpectedChargeForAlignment.cleanId := by
  have hall := @expected_filter billed expected (fun _ => True) _
  simpa using hall

/-- A list with different ids, filtered to one id. -/
theorem filter_eq_singleton {α : Type} {id : α → String} {rows : List α} (hnodup : (rows.map id).Nodup) {p : α → Bool} {row : α}
    (hrow : row ∈ rows) : (rows.filter p).map id = [id row] ↔ rows.filter p = [row] := by
  constructor
  · intro h
    obtain ⟨row', hfilter, hid⟩ := List.map_eq_singleton_iff.mp h
    have hrow' : row' ∈ rows := List.mem_of_mem_filter (hfilter ▸ List.mem_singleton_self row')
    rw [hfilter, List.inj_on_of_nodup_map hnodup hrow' hrow hid]
  · intro h
    rw [h, List.map_singleton]

/-- The key of a classification is its alone. -/
theorem filter_key {α : Type} {canonical : α → Option Canonical} {category currency : α → Option String}
    (hcanonical : ∀ row, canonical row = canonicalKey toUpperCase (category row) (currency row)) {c : Canonical}
    {category' currency' : Option String} (hc : canonicalKey toUpperCase category' currency' = some c) (rows : List α) :
    (rows.filter fun row => (canonical row).map Canonical.key = some c.key) = rows.filter fun row => canonical row = some c := by
  refine List.filter_congr fun row _ => decide_eq_decide.mpr ⟨fun h => ?_, fun h => by rw [h]; rfl⟩
  obtain ⟨c', hc', hkey⟩ := Option.map_eq_some_iff.mp h
  rw [hc', canonicalKey_inj ((hcanonical row).symm.trans hc') hc hkey]

theorem onlyPair_iff (hbilled : (billed.map BilledChargeForAlignment.cleanId).Nodup)
    (hexpected : (expected.map ExpectedChargeForAlignment.cleanId).Nodup) {b : BilledChargeForAlignment} (hb : b ∈ billed)
    {e : ExpectedChargeForAlignment} (he : e ∈ expected) :
    (∃ key, idsAt toUpperCase (allCharges billed expected) .billed key = [b.cleanId] ∧
      idsAt toUpperCase (allCharges billed expected) .expected key = [e.cleanId]) ↔ OnlyPair toUpperCase billed expected b e := by
  have hids (key : String) : (idsAt toUpperCase (allCharges billed expected) .billed key = [b.cleanId] ↔
      (billed.filter fun row => (row.canonical toUpperCase).map Canonical.key = some key) = [b]) ∧
      (idsAt toUpperCase (allCharges billed expected) .expected key = [e.cleanId] ↔
        (expected.filter fun row => (row.canonical toUpperCase).map Canonical.key = some key) = [e]) := by
    rw [idsAt, idsAt, billed_filter, expected_filter]
    exact ⟨filter_eq_singleton hbilled hb, filter_eq_singleton hexpected he⟩
  have hkey (c : Canonical) {category currency : Option String} (hc : canonicalKey toUpperCase category currency = some c) :
      (billed.filter fun row => (row.canonical toUpperCase).map Canonical.key = some c.key) =
        (billed.filter fun row => row.canonical toUpperCase = some c) ∧
      (expected.filter fun row => (row.canonical toUpperCase).map Canonical.key = some c.key) =
        expected.filter fun row => row.canonical toUpperCase = some c :=
    ⟨filter_key (fun _ => rfl) hc billed, filter_key (fun _ => rfl) hc expected⟩
  constructor
  · rintro ⟨key, hb', he'⟩
    rw [(hids key).1] at hb'
    rw [(hids key).2] at he'
    have hkeyed := List.mem_filter.mp (hb' ▸ List.mem_singleton_self b)
    obtain ⟨c, hc, rfl⟩ := Option.map_eq_some_iff.mp (of_decide_eq_true hkeyed.2)
    exact ⟨c, (hkey c hc).1 ▸ hb', (hkey c hc).2 ▸ he'⟩
  · rintro ⟨c, hb', he'⟩
    have hmem : b ∈ billed.filter fun row => row.canonical toUpperCase = some c := hb' ▸ List.mem_singleton_self b
    have hc := of_decide_eq_true (List.mem_filter.mp hmem).2
    exact ⟨c.key, (hids c.key).1.mpr ((hkey c hc).1 ▸ hb'), (hids c.key).2.mpr ((hkey c hc).2 ▸ he')⟩

/-- Every charge is aligned or an issue, once; aligned are the only pairs; and nothing depends on the order
of the charges but the order of the results. -/
theorem alignTier1Charges_partitions (h : alignTier1Charges toUpperCase localeCompare billed expected = .ok result) :
    Partitions toUpperCase billed expected result ∧
      ∀ billed' expected', billed'.Perm billed → expected'.Perm expected →
        ∃ result', alignTier1Charges toUpperCase localeCompare billed' expected' = .ok result' ∧
          result'.alignments.Perm result.alignments ∧ result'.unassessable.Perm result.unassessable := by
  obtain ⟨state, hstate, rfl⟩ := align_eq_ok.mp h
  have hadded := added_of_foldlM hstate
  have hbilled : (billed.map BilledChargeForAlignment.cleanId).Nodup := by
    have hnodup := hadded.side_nodup .billed
    rwa [billed_all] at hnodup
  have hexpected : (expected.map ExpectedChargeForAlignment.cleanId).Nodup := by
    have hnodup := hadded.side_nodup .expected
    rwa [expected_all] at hnodup
  refine ⟨⟨hbilled, hexpected, ?_, ?_, fun b hb e he => ?_, hadded.reasons localeCompare⟩, fun billed' expected' hb he => ?_⟩
  · have honce := hadded.once localeCompare .billed
    rwa [billed_all] at honce
  · have honce := hadded.once localeCompare .expected
    rwa [expected_all] at honce
  · exact (hadded.aligned localeCompare b.cleanId e.cleanId).trans (onlyPair_iff hbilled hexpected hb he)
  · have hperm : (allCharges billed' expected').Perm (allCharges billed expected) := (hb.map _).append (he.map _)
    obtain ⟨state', hstate'⟩ := @foldlM_of_ids toUpperCase _
      (fun c hc => hadded.present c (hperm.mem_iff.mp hc)) ((hperm.map _).nodup_iff.mpr hadded.nodup)
    exact ⟨_, align_eq_ok.mpr ⟨state', hstate', rfl⟩, hadded.same (added_of_foldlM hstate') hperm localeCompare⟩

end

/-- `toUpperCase` of texts of ASCII characters. -/
def asciiUpper (text : String) : String := String.ofList (text.toList.map Char.toUpper)

/-- Line haul is aligned, fuel has two candidates, and one charge has no category. -/
def billedCharges : List BilledChargeForAlignment :=
  [⟨"b-line", some " linehaul ", some "usd"⟩, ⟨"b-fuel", some "FUEL", some "USD"⟩, ⟨"b-other", none, some "USD"⟩]

def expectedCharges : List ExpectedChargeForAlignment :=
  [⟨"e-fuel-2", some "FUEL", some "USD"⟩, ⟨"e-line", some "LINEHAUL", some "USD"⟩, ⟨"e-fuel-1", some "fuel", some "usd"⟩]

def alignedCharges : Tier1AlignmentResult where
  alignments := [⟨"LINEHAUL|USD", "LINEHAUL", "USD", "b-line", "e-line"⟩]
  unassessable := [⟨"FUEL|USD", .AMBIGUOUS, ["b-fuel"], ["e-fuel-1", "e-fuel-2"]⟩,
    ⟨"billed:b-other", .MISSING_CLASSIFICATION, ["b-other"], []⟩]

theorem billedCharges_aligned : Partitions asciiUpper billedCharges expectedCharges alignedCharges :=
  (@alignTier1Charges_partitions asciiUpper billedCharges expectedCharges compare alignedCharges rfl).1

end RateEngine
