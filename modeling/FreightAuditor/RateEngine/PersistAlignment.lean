import FreightAuditor.Library.KeyedTable
import FreightAuditor.Library.Runs
import FreightAuditor.Library.UuidText
import FreightAuditor.RateEngine.GroupedVariance

/- The rows of an attribution and of its members.

   An attribution is found again by its level and key. If it is there, its three totals are
   compared with those of the call, and nothing else; its members are inserted either way, and
   a member that is there is passed over. A call of the same totals can so add members to the
   row of another attribution, or be taken for it in another currency
   (`alignments_describe_iff`). -/
namespace RateEngine

open DecimalJs ExceptOk Json PgNumeric
open Evaluator (isCurrencyCode)

/-! ## The tables -/

/-- A row of `charge_alignment`, with the attribution of the call that wrote it. -/
structure ChargeAlignment where
  id : ℕ
  accountId : String
  auditRunId : String
  label : String
  level : VarianceLevel
  attributionKey : String
  currency : String
  billedTotal : Numeric 18 4
  expectedTotal : Numeric 18 4
  varianceAmount : Numeric 18 4
  idempotencyKey : String
  made : VarianceAttribution
  deriving DecidableEq

/-- `charge_alignment_dedup_idx`. -/
def ChargeAlignment.dedupKey (row : ChargeAlignment) : String × String × String :=
  (row.accountId, row.auditRunId, row.idempotencyKey)

/-- The one side a member is of. -/
inductive AlignedSide where
  | chargeFact (id : Uuid)
  | expectedCharge (id : Uuid)
  deriving DecidableEq

/-- A row of `charge_alignment_member`. -/
structure ChargeAlignmentMember where
  accountId : String
  alignmentId : ℕ
  side : AlignedSide
  deriving DecidableEq

/-- `charge_alignment_member_fact_idx` and `charge_alignment_member_expected_idx`. -/
def ChargeAlignmentMember.sideKey (m : ChargeAlignmentMember) : ℕ × AlignedSide := (m.alignmentId, m.side)

structure AlignmentTables where
  alignments : KeyedTable ChargeAlignment ChargeAlignment.dedupKey
  members : KeyedTable ChargeAlignmentMember ChargeAlignmentMember.sideKey

def AlignmentTables.empty : AlignmentTables := ⟨KeyedTable.empty, KeyedTable.empty⟩

/-! ## A call -/

/-- A call of `persistChargeAlignment`, and which charges there are when it is made. -/
structure AlignmentCall where
  clientId : String
  auditRunId : String
  attribution : VarianceAttribution
  exists? : AlignedSide → Bool

inductive PersistAlignmentError where
  | sourceConflict (message : String)
  | database
  deriving DecidableEq

def sourceConflict (a : VarianceAttribution) : PersistAlignmentError :=
  .sourceConflict ("charge-alignment source conflict: " ++ a.level.text ++ "|" ++ a.key)

section

variable (sha256 : String → String) (uuidIn : String → Option Uuid)

def alignmentKey (level : VarianceLevel) (key : String) : String :=
  sha256 (String.ofList (render (.obj [("level", .str level.text), ("key", .str key)])))

/-- The values of the first insert: the totals as `numeric(18,4)`, the currency checked. -/
def alignmentRow (id : ℕ) (clientId auditRunId : String) (a : VarianceAttribution) : Option ChargeAlignment :=
  match ofText 18 4 a.billedTotal, ofText 18 4 a.expectedTotal, ofText 18 4 a.varianceAmount with
  | some billedTotal, some expectedTotal, some varianceAmount =>
    if isCurrencyCode a.currency = true then
      some ⟨id, clientId, auditRunId, a.level.text ++ ":" ++ a.key, a.level, a.key, a.currency, billedTotal,
        expectedTotal, varianceAmount, alignmentKey sha256 a.level a.key, a⟩
    else none
  | _, _, _ => none

/-- The row has the totals of the attribution, as texts. -/
def ChargeAlignment.hasTotals (row : ChargeAlignment) (a : VarianceAttribution) : Bool :=
  row.billedTotal.text == a.billedTotal && row.expectedTotal.text == a.expectedTotal &&
    row.varianceAmount.text == a.varianceAmount

/-- The members of an attribution, as texts with the side they are of. -/
def memberTexts (a : VarianceAttribution) : List ((Uuid → AlignedSide) × String) :=
  a.billedIds.map (AlignedSide.chargeFact, ·) ++ a.expectedIds.map (AlignedSide.expectedCharge, ·)

/-- One member: a uuid of a charge there is, inserted unless it is there. -/
def insertMember (call : AlignmentCall) (alignmentId : ℕ) (members : KeyedTable ChargeAlignmentMember ChargeAlignmentMember.sideKey)
    (text : (Uuid → AlignedSide) × String) :
    Except PersistAlignmentError (KeyedTable ChargeAlignmentMember ChargeAlignmentMember.sideKey) :=
  match uuidIn text.2 with
  | none => .error .database
  | some id =>
    if call.exists? (text.1 id) = true then
      .ok ((members.insert ⟨call.clientId, alignmentId, text.1 id⟩).getD members)
    else .error .database

def persistChargeAlignment (s : AlignmentTables) (call : AlignmentCall) :
    Except PersistAlignmentError (AlignmentTables × ℕ) :=
  match alignmentRow sha256 s.alignments.rows.length call.clientId call.auditRunId call.attribution with
  | none => .error .database
  | some row =>
    match s.alignments.insert row with
    | some alignments => do
      let members ← (memberTexts call.attribution).foldlM (insertMember uuidIn call row.id) s.members
      return (⟨alignments, members⟩, row.id)
    | none =>
      match s.alignments.find? row.dedupKey with
      | none => .error (sourceConflict call.attribution)
      | some existing =>
        if existing.hasTotals call.attribution = true then do
          let members ← (memberTexts call.attribution).foldlM (insertMember uuidIn call existing.id) s.members
          return (⟨s.alignments, members⟩, existing.id)
        else .error (sourceConflict call.attribution)

/-- A call that throws is rolled back. -/
def afterCall (s : AlignmentTables) (call : AlignmentCall) : Option AlignmentTables :=
  match persistChargeAlignment sha256 uuidIn s call with
  | .ok (s', _) => some s'
  | .error _ => some s

/-! ## What a row describes -/

/-- The side is a member of the attribution. -/
def IsMember (a : VarianceAttribution) (side : AlignedSide) : Prop :=
  ∃ text ∈ memberTexts a, ∃ id, uuidIn text.2 = some id ∧ text.1 id = side

/-- The row has the currency and the totals of the attribution that created it, and its members. -/
structure ChargeAlignment.Describes (members : List ChargeAlignmentMember) (row : ChargeAlignment) : Prop where
  currency : row.currency = row.made.currency
  billedTotal : ofText 18 4 row.made.billedTotal = some row.billedTotal
  expectedTotal : ofText 18 4 row.made.expectedTotal = some row.expectedTotal
  varianceAmount : ofText 18 4 row.made.varianceAmount = some row.varianceAmount
  members : ∀ side, (∃ m ∈ members, m.alignmentId = row.id ∧ m.side = side) ↔ IsMember uuidIn row.made side

def Described (s : AlignmentTables) : Prop := ∀ row ∈ s.alignments.rows, row.Describes uuidIn s.members.rows

/-- The same members, currency and totals. -/
structure SameAttribution (a b : VarianceAttribution) : Prop where
  members : ∀ side, IsMember uuidIn a side ↔ IsMember uuidIn b side
  currency : a.currency = b.currency
  billedTotal : a.billedTotal = b.billedTotal
  expectedTotal : a.expectedTotal = b.expectedTotal
  varianceAmount : a.varianceAmount = b.varianceAmount

/-- The row is of the run, level and key of the call. -/
structure ChargeAlignment.RowOf (call : AlignmentCall) (row : ChargeAlignment) : Prop where
  accountId : row.accountId = call.clientId
  auditRunId : row.auditRunId = call.auditRunId
  level : row.level = call.attribution.level
  attributionKey : row.attributionKey = call.attribution.key

/-- A call for the level and key of a row that another attribution created throws a source conflict and
changes nothing. -/
def RefusesOthers (s : AlignmentTables) (call : AlignmentCall) : Prop :=
  ∀ row ∈ s.alignments.rows, row.RowOf call → ¬ SameAttribution uuidIn row.made call.attribution →
    persistChargeAlignment sha256 uuidIn s call = .error (sourceConflict call.attribution) ∧
      afterCall sha256 uuidIn s call = some s

/-- The currency is a code, and the totals fit their columns. -/
structure Storable (a : VarianceAttribution) : Prop where
  currency : isCurrencyCode a.currency = true
  billedTotal : (ofText 18 4 a.billedTotal).isSome
  expectedTotal : (ofText 18 4 a.expectedTotal).isSome
  varianceAmount : (ofText 18 4 a.varianceAmount).isSome

/-- A call for the level and key of a row that another attribution created can be stored and has another
total than the row. -/
def ToldByTotals (s : AlignmentTables) (call : AlignmentCall) : Prop :=
  ∀ row ∈ s.alignments.rows, row.RowOf call → ¬ SameAttribution uuidIn row.made call.attribution →
    Storable call.attribution ∧ row.hasTotals call.attribution = false

end

/-! ## The members -/

section

variable {sha256 : String → String} {uuidIn : String → Option Uuid}

/-- The row `id` has a member of this side. -/
def HasMember (members : KeyedTable ChargeAlignmentMember ChargeAlignmentMember.sideKey) (id : ℕ) (side : AlignedSide) : Prop :=
  ∃ m ∈ members.rows, m.alignmentId = id ∧ m.side = side

variable {members members' : KeyedTable ChargeAlignmentMember ChargeAlignmentMember.sideKey} {call : AlignmentCall}

theorem hasMember_insert (m : ChargeAlignmentMember) (id : ℕ) (side : AlignedSide) :
    HasMember ((members.insert m).getD members) id side ↔
      HasMember members id side ∨ m.alignmentId = id ∧ m.side = side := by
  cases hinsert : members.insert m with
  | some members' =>
    obtain ⟨-, hrows⟩ := KeyedTable.insert_eq_some hinsert
    rw [Option.getD_some, HasMember, hrows, HasMember]
    simp only [List.mem_append, List.mem_singleton, or_and_right, exists_or, exists_eq_left]
  | none =>
    -- the member is there
    have hthere : HasMember members m.alignmentId m.side := by
      cases hfound : members.find? m.sideKey with
      | none =>
        obtain ⟨members', hfresh⟩ := KeyedTable.insert_fresh hfound
        rw [hinsert] at hfresh
        cases hfresh
      | some m' =>
        obtain ⟨hm', hkey⟩ := KeyedTable.find?_sound hfound
        exact ⟨m', hm', congrArg Prod.fst hkey, congrArg Prod.snd hkey⟩
    rw [Option.getD_none]
    refine ⟨.inl, fun h => h.elim (fun h => h) fun hm => ?_⟩
    obtain ⟨rfl, rfl⟩ := hm
    exact hthere

theorem insertMember_eq_ok {alignmentId : ℕ} {text : (Uuid → AlignedSide) × String} :
    insertMember uuidIn call alignmentId members text = .ok members' ↔
      ∃ id, uuidIn text.2 = some id ∧ call.exists? (text.1 id) = true ∧
        (members.insert ⟨call.clientId, alignmentId, text.1 id⟩).getD members = members' := by
  unfold insertMember
  split
  · rename_i hnone
    rw [hnone]
    exact iff_of_false (fun h => by cases h) fun h => by obtain ⟨_, h, -⟩ := h; cases h
  · rename_i id hid
    rw [hid]
    split
    · rename_i hthere
      constructor
      · intro h
        exact ⟨id, rfl, hthere, Except.ok.inj h⟩
      · rintro ⟨id', hid', -, h⟩
        rw [Option.some.inj hid', h]
    · rename_i hmissing
      refine iff_of_false (fun h => by cases h) ?_
      rintro ⟨id', hid', hthere, -⟩
      exact hmissing (Option.some.inj hid' ▸ hthere)

/-- The members of the attribution, and those that were there. -/
theorem insertMembers_hasMember {alignmentId : ℕ} {texts : List ((Uuid → AlignedSide) × String)} :
    ∀ {members members' : KeyedTable ChargeAlignmentMember ChargeAlignmentMember.sideKey},
      texts.foldlM (insertMember uuidIn call alignmentId) members = .ok members' → ∀ id side,
        HasMember members' id side ↔ HasMember members id side ∨
          alignmentId = id ∧ ∃ text ∈ texts, ∃ uuid, uuidIn text.2 = some uuid ∧ text.1 uuid = side := by
  induction texts with
  | nil =>
    intro members members' h id side
    rw [List.foldlM_nil, pure_eq_ok] at h
    rw [h]
    exact ⟨.inl, fun h => h.elim (fun h => h) fun h => by obtain ⟨-, _, h, -⟩ := h; cases h⟩
  | cons text rest ih =>
    intro members members' h id side
    rw [List.foldlM_cons, bind_eq_ok] at h
    obtain ⟨next, hnext, hrest⟩ := h
    obtain ⟨uuid, huuid, -, rfl⟩ := insertMember_eq_ok.mp hnext
    rw [ih hrest, hasMember_insert, or_assoc]
    refine or_congr_right ?_
    constructor
    · rintro (⟨hid, hside⟩ | ⟨hid, other, hother, h⟩)
      · exact ⟨hid, text, List.mem_cons_self, uuid, huuid, hside⟩
      · exact ⟨hid, other, List.mem_cons_of_mem _ hother, h⟩
    · rintro ⟨hid, other, hother, uuid', huuid', hside⟩
      rcases List.mem_cons.mp hother with rfl | hother
      · obtain rfl := Option.some.inj (huuid.symm.trans huuid')
        exact .inl ⟨hid, hside⟩
      · exact .inr ⟨hid, other, hother, uuid', huuid', hside⟩

theorem insertMembers_error {alignmentId : ℕ} {texts : List ((Uuid → AlignedSide) × String)} :
    ∀ {members : KeyedTable ChargeAlignmentMember ChargeAlignmentMember.sideKey} {e : PersistAlignmentError},
      texts.foldlM (insertMember uuidIn call alignmentId) members = .error e → e = .database := by
  induction texts with
  | nil => exact fun h => by cases h
  | cons text rest ih =>
    intro members e h
    rw [List.foldlM_cons] at h
    cases hnext : insertMember uuidIn call alignmentId members text with
    | ok next =>
      rw [hnext] at h
      exact ih h
    | error e' =>
      rw [hnext] at h
      obtain rfl : e' = e := Except.error.inj h
      unfold insertMember at hnext
      split at hnext
      · exact (Except.error.inj hnext).symm
      · split at hnext
        · cases hnext
        · exact (Except.error.inj hnext).symm

/-! ## The row of a call -/

theorem VarianceLevel.text_injective : Function.Injective VarianceLevel.text := by
  intro a b h
  cases a <;> cases b
  · rfl
  · exact absurd h (by decide)
  · exact absurd h (by decide)
  · rfl

theorem alignmentKey_inj (hsha : Function.Injective sha256) {level level' : VarianceLevel} {key key' : String}
    (h : alignmentKey sha256 level key = alignmentKey sha256 level' key') : level = level' ∧ key = key' := by
  have hfields := Value.obj.inj (render_injective (String.ofList_injective (hsha h)))
  obtain ⟨hlevel, hkey⟩ := List.cons.inj hfields
  exact ⟨VarianceLevel.text_injective (Value.str.inj (congrArg Prod.snd hlevel)),
    Value.str.inj (congrArg Prod.snd (List.cons.inj hkey).1)⟩

/-- What the first insert writes. -/
structure WrittenBy (sha256 : String → String) (id : ℕ) (call : AlignmentCall) (row : ChargeAlignment) : Prop where
  id : row.id = id
  rowOf : row.RowOf call
  made : row.made = call.attribution
  currency : row.currency = call.attribution.currency
  billedTotal : ofText 18 4 call.attribution.billedTotal = some row.billedTotal
  expectedTotal : ofText 18 4 call.attribution.expectedTotal = some row.expectedTotal
  varianceAmount : ofText 18 4 call.attribution.varianceAmount = some row.varianceAmount
  idempotencyKey : row.idempotencyKey = alignmentKey sha256 call.attribution.level call.attribution.key

theorem alignmentRow_written {id : ℕ} {row : ChargeAlignment} 
    (h : alignmentRow sha256 id call.clientId call.auditRunId call.attribution = some row) :
    WrittenBy sha256 id call row ∧ Storable call.attribution := by
  unfold alignmentRow at h
  split at h
  · rename_i billed expected variance hbilled hexpected hvariance
    split at h
    · rename_i hcurrency
      obtain rfl := Option.some.inj h
      exact ⟨⟨rfl, ⟨rfl, rfl, rfl, rfl⟩, rfl, rfl, hbilled, hexpected, hvariance, rfl⟩,
        hcurrency, by rw [hbilled]; rfl, by rw [hexpected]; rfl, by rw [hvariance]; rfl⟩
    · cases h
  · cases h

theorem alignmentRow_of_storable (id : ℕ) (h : Storable call.attribution) :
    ∃ row, alignmentRow sha256 id call.clientId call.auditRunId call.attribution = some row := by
  obtain ⟨billed, hbilled⟩ := Option.isSome_iff_exists.mp h.billedTotal
  obtain ⟨expected, hexpected⟩ := Option.isSome_iff_exists.mp h.expectedTotal
  obtain ⟨variance, hvariance⟩ := Option.isSome_iff_exists.mp h.varianceAmount
  rw [alignmentRow, hbilled, hexpected, hvariance]
  exact ⟨_, if_pos h.currency⟩

/-! ## The tables along a run -/

/-- Rows are numbered, keyed by their level and key, and members belong to rows. -/
structure AlignmentTables.Consistent (sha256 : String → String) (s : AlignmentTables) : Prop where
  ids : ∀ row ∈ s.alignments.rows, row.id < s.alignments.rows.length
  idsUnique : (s.alignments.rows.map (·.id)).Nodup
  keyed : ∀ row ∈ s.alignments.rows, row.idempotencyKey = alignmentKey sha256 row.level row.attributionKey
  memberIds : ∀ m ∈ s.members.rows, m.alignmentId < s.alignments.rows.length

variable {s s' : AlignmentTables}

theorem dedupKey_eq (hs : s.Consistent sha256) {row new : ChargeAlignment} (hrow : row ∈ s.alignments.rows)
    (hof : row.RowOf call) {id : ℕ} (hnew : WrittenBy sha256 id call new) : row.dedupKey = new.dedupKey := by
  rw [ChargeAlignment.dedupKey, ChargeAlignment.dedupKey, hnew.idempotencyKey, hs.keyed row hrow, hof.level,
    hof.attributionKey, hof.accountId, hof.auditRunId, hnew.rowOf.accountId, hnew.rowOf.auditRunId]

theorem rowOf_of_dedupKey (hsha : Function.Injective sha256) (hs : s.Consistent sha256) {row new : ChargeAlignment}
    (hrow : row ∈ s.alignments.rows) {id : ℕ} (hnew : WrittenBy sha256 id call new) (hkey : row.dedupKey = new.dedupKey) :
    row.RowOf call := by
  have haccount : row.accountId = new.accountId := congrArg Prod.fst hkey
  have hrun : row.auditRunId = new.auditRunId := congrArg (·.2.1) hkey
  have hidempotency : row.idempotencyKey = new.idempotencyKey := congrArg (·.2.2) hkey
  rw [hs.keyed row hrow, hnew.idempotencyKey] at hidempotency
  obtain ⟨hlevel, hattribution⟩ := alignmentKey_inj hsha hidempotency
  exact ⟨haccount.trans hnew.rowOf.accountId, hrun.trans hnew.rowOf.auditRunId, hlevel, hattribution⟩

/-- Everything a call can do. -/
theorem persist_cases {id : ℕ} (h : persistChargeAlignment sha256 uuidIn s call = .ok (s', id)) :
    (∃ row, WrittenBy sha256 s.alignments.rows.length call row ∧ s'.alignments.rows = s.alignments.rows ++ [row] ∧
      (memberTexts call.attribution).foldlM (insertMember uuidIn call row.id) s.members = .ok s'.members) ∨
    ∃ new row, WrittenBy sha256 s.alignments.rows.length call new ∧ row ∈ s.alignments.rows ∧
      row.dedupKey = new.dedupKey ∧ row.hasTotals call.attribution = true ∧ s'.alignments = s.alignments ∧
      (memberTexts call.attribution).foldlM (insertMember uuidIn call row.id) s.members = .ok s'.members := by
  unfold persistChargeAlignment at h
  split at h
  · cases h
  rename_i new hnew
  have hwritten := (alignmentRow_written hnew).1
  split at h
  · rename_i alignments hinsert
    obtain ⟨members, hmembers, h⟩ := bind_eq_ok.mp h
    obtain ⟨rfl, -⟩ := Prod.mk.inj (pure_eq_ok.mp h)
    exact .inl ⟨new, hwritten, (KeyedTable.insert_eq_some hinsert).2, hmembers⟩
  · split at h
    · cases h
    rename_i row hfound
    obtain ⟨hrow, hkey⟩ := KeyedTable.find?_sound hfound
    split at h
    · rename_i htotals
      obtain ⟨members, hmembers, h⟩ := bind_eq_ok.mp h
      obtain ⟨rfl, -⟩ := Prod.mk.inj (pure_eq_ok.mp h)
      exact .inr ⟨new, row, hwritten, hrow, hkey, htotals, rfl, hmembers⟩
    · cases h

theorem afterCall_cases (h : afterCall sha256 uuidIn s call = some s') :
    s' = s ∨ ∃ id, persistChargeAlignment sha256 uuidIn s call = .ok (s', id) := by
  unfold afterCall at h
  split at h
  · rename_i s'' id hok
    obtain rfl := Option.some.inj h
    exact .inr ⟨id, hok⟩
  · exact .inl (Option.some.inj h).symm

/-- Rows stay numbered and keyed, whatever the call. -/
theorem AlignmentTables.Consistent.step (hs : s.Consistent sha256)
    (h : afterCall sha256 uuidIn s call = some s') : s'.Consistent sha256 := by
  rcases afterCall_cases h with rfl | ⟨id, hok⟩
  · exact hs
  rcases persist_cases hok with ⟨row, hwritten, hrows, hmembers⟩ | ⟨new, row, hwritten, hrow, -, -, hsame, hmembers⟩
  · have hlength : s'.alignments.rows.length = s.alignments.rows.length + 1 := by
      rw [hrows, List.length_append, List.length_singleton]
    refine ⟨fun r hr => ?_, ?_, fun r hr => ?_, fun m hm => ?_⟩
    · rw [hlength]
      rw [hrows, List.mem_append, List.mem_singleton] at hr
      rcases hr with hr | rfl
      · exact (hs.ids r hr).trans (Nat.lt_succ_self _)
      · rw [hwritten.id]
        exact Nat.lt_succ_self _
    · rw [hrows, List.map_append, List.map_singleton, List.nodup_append_comm]
      refine List.nodup_cons.mpr ⟨fun hmem => ?_, hs.idsUnique⟩
      obtain ⟨r, hr, hid⟩ := List.mem_map.mp hmem
      exact absurd (hs.ids r hr) (by rw [hid, hwritten.id]; exact Nat.lt_irrefl _)
    · rw [hrows, List.mem_append, List.mem_singleton] at hr
      rcases hr with hr | rfl
      · exact hs.keyed r hr
      · rw [hwritten.idempotencyKey, hwritten.rowOf.level, hwritten.rowOf.attributionKey]
    · rw [hlength]
      rcases (insertMembers_hasMember hmembers m.alignmentId m.side).mp ⟨m, hm, rfl, rfl⟩ with ⟨m', hm', hid, -⟩ | ⟨hid, -⟩
      · exact hid ▸ (hs.memberIds m' hm').trans (Nat.lt_succ_self _)
      · rw [← hid, hwritten.id]
        exact Nat.lt_succ_self _
  · refine ⟨fun r hr => ?_, ?_, fun r hr => ?_, fun m hm => ?_⟩
    · rw [hsame] at hr ⊢
      exact hs.ids r hr
    · rw [hsame]
      exact hs.idsUnique
    · rw [hsame] at hr
      exact hs.keyed r hr
    · rw [hsame]
      rcases (insertMembers_hasMember hmembers m.alignmentId m.side).mp ⟨m, hm, rfl, rfl⟩ with ⟨m', hm', hid, -⟩ | ⟨hid, -⟩
      · exact hid ▸ hs.memberIds m' hm'
      · exact hid ▸ hs.ids row hrow

/-- A call for a row with another attribution throws a source conflict exactly if a total tells them apart. -/
theorem conflict_iff (hs : s.Consistent sha256) {row : ChargeAlignment} (hrow : row ∈ s.alignments.rows)
    (hof : row.RowOf call) :
    persistChargeAlignment sha256 uuidIn s call = .error (sourceConflict call.attribution) ↔
      Storable call.attribution ∧ row.hasTotals call.attribution = false := by
  unfold persistChargeAlignment
  split
  · rename_i hnone
    refine iff_of_false (fun h => by cases h) fun h => ?_
    obtain ⟨new, hnew⟩ := @alignmentRow_of_storable sha256 call s.alignments.rows.length h.1
    rw [hnone] at hnew
    cases hnew
  · rename_i new hnew
    obtain ⟨hwritten, hstorable⟩ := alignmentRow_written hnew
    have hkey := dedupKey_eq hs hrow hof hwritten
    have hfound : s.alignments.find? new.dedupKey = some row := KeyedTable.find?_eq_some.mpr ⟨hrow, hkey⟩
    have htaken : s.alignments.insert new = none := by
      cases hinsert : s.alignments.insert new with
      | none => rfl
      | some t =>
        rw [(KeyedTable.insert_eq_some hinsert).1] at hfound
        cases hfound
    rw [htaken, hfound]
    simp only
    cases htotals : row.hasTotals call.attribution with
    | false =>
      rw [if_neg (by decide)]
      exact iff_of_true rfl ⟨hstorable, rfl⟩
    | true =>
      rw [if_pos rfl]
      refine iff_of_false (fun h => ?_) fun h => by cases h.2
      cases hmembers : (memberTexts call.attribution).foldlM (insertMember uuidIn call row.id) s.members with
      | ok members =>
        rw [hmembers] at h
        cases h
      | error e =>
        rw [hmembers, insertMembers_error hmembers] at h
        cases h

theorem refusesOthers_iff (hs : s.Consistent sha256) :
    RefusesOthers sha256 uuidIn s call ↔ ToldByTotals uuidIn s call := by
  refine forall₂_congr fun row hrow => forall_congr' fun hof => forall_congr' fun _ => ?_
  rw [← conflict_iff hs hrow hof]
  constructor
  · exact fun h => h.1
  · intro h
    exact ⟨h, by rw [afterCall, h]⟩

/-- A call that a total tells apart from the rows of other attributions leaves every row described. -/
theorem Described.step (hsha : Function.Injective sha256) (hs : s.Consistent sha256) (hdescribed : Described uuidIn s)
    (htold : ToldByTotals uuidIn s call) (h : afterCall sha256 uuidIn s call = some s') : Described uuidIn s' := by
  rcases afterCall_cases h with rfl | ⟨id, hok⟩
  · exact hdescribed
  have hkept {r : ChargeAlignment} (hr : r ∈ s.alignments.rows)
      (hmembers : ∀ side, HasMember s'.members r.id side ↔ HasMember s.members r.id side) :
      r.Describes uuidIn s'.members.rows :=
    have hd := hdescribed r hr
    ⟨hd.currency, hd.billedTotal, hd.expectedTotal, hd.varianceAmount, fun side => (hmembers side).trans (hd.members side)⟩
  rcases persist_cases hok with ⟨row, hwritten, hrows, hmembers⟩ | ⟨new, row, hwritten, hrow, hkey, htotals, hsame, hmembers⟩
  · intro r hr
    rw [hrows, List.mem_append, List.mem_singleton] at hr
    rcases hr with hr | rfl
    · refine hkept hr fun side => (insertMembers_hasMember hmembers r.id side).trans (or_iff_left fun hother => ?_)
      exact absurd (hs.ids r hr) (by rw [← hother.1, hwritten.id]; exact Nat.lt_irrefl _)
    · refine ⟨?_, ?_, ?_, ?_, fun side => (insertMembers_hasMember hmembers r.id side).trans ?_⟩
      · rw [hwritten.made, hwritten.currency]
      · rw [hwritten.made, hwritten.billedTotal]
      · rw [hwritten.made, hwritten.expectedTotal]
      · rw [hwritten.made, hwritten.varianceAmount]
      · -- the row is new, so nothing has been a member of it
        rw [hwritten.made]
        refine ⟨fun hmember => ?_, fun hmember => .inr ⟨rfl, hmember⟩⟩
        rcases hmember with ⟨m, hm, hid, -⟩ | ⟨-, hmember⟩
        · exact absurd (hs.memberIds m hm) (by rw [hid, hwritten.id]; exact Nat.lt_irrefl _)
        · exact hmember
  · have hof := rowOf_of_dedupKey hsha hs hrow hwritten hkey
    have hattribution : SameAttribution uuidIn row.made call.attribution := by
      by_contra hother
      rw [(htold row hrow hof hother).2] at htotals
      cases htotals
    intro r hr
    rw [hsame] at hr
    refine hkept hr fun side => (insertMembers_hasMember hmembers r.id side).trans (or_iff_left_of_imp fun hmember => ?_)
    obtain rfl := List.inj_on_of_nodup_map hs.idsUnique hrow hr hmember.1
    exact ((hdescribed row hrow).members side).mpr ((hattribution.members side).mpr hmember.2)

end

/-- In every state of a run the rows describe their attributions and every call for another one is refused,
exactly if every such call is told by a total. -/
theorem alignments_describe_iff {sha256 : String → String} (hsha : Function.Injective sha256)
    (uuidIn : String → Option Uuid) (calls : List AlignmentCall) :
    Runs.AllStates (afterCall sha256 uuidIn) (Described uuidIn) .empty calls ∧
        Runs.AllSteps (afterCall sha256 uuidIn) (RefusesOthers sha256 uuidIn) .empty calls ↔
      Runs.AllSteps (afterCall sha256 uuidIn) (ToldByTotals uuidIn) .empty calls := by
  refine Runs.allStates_and_allSteps_iff (AlignmentTables.Consistent sha256) (fun s call s' hs h => hs.step h)
    (fun s call s' hs hdescribed h => ?_) calls .empty ?_ ?_
  · rw [refusesOthers_iff hs]
    exact ⟨fun h' => h'.2, fun htold => ⟨Described.step hsha hs hdescribed htold h, htold⟩⟩
  · exact ⟨fun _ h => absurd h List.not_mem_nil, List.nodup_nil, fun _ h => absurd h List.not_mem_nil,
      fun _ h => absurd h List.not_mem_nil⟩
  · exact fun _ h => absurd h List.not_mem_nil

/-! ## Calls with the same totals -/

theorem isMember_iff {uuidIn : String → Option Uuid} {a : VarianceAttribution} {side : AlignedSide} :
    IsMember uuidIn a side ↔ some side ∈ (memberTexts a).map fun text => (uuidIn text.2).map text.1 := by
  simp only [IsMember, List.mem_map, Option.map_eq_some_iff]

def uuidOf (text : String) : Option Uuid :=
  if Uuid.wellFormed text.toList = true then some (Uuid.value text.toList) else none

def billedFuel : String := "00000000-0000-4000-8000-0000000000b1"
def otherBilledFuel : String := "00000000-0000-4000-8000-0000000000b2"
def expectedFuel : String := "00000000-0000-4000-8000-0000000000e1"

/-- A variance of two on the fuel billed as these charges. -/
def fuelVariance (billedIds : List String) : VarianceAttribution :=
  ⟨.GROUP, "fuel", "USD", billedIds, [expectedFuel], "12.0000", "10.0000", "2.0000", .OVERCHARGE⟩

def fuelCall (billedIds : List String) : AlignmentCall := ⟨"account", "run", fuelVariance billedIds, fun _ => true⟩

/-- A retry. -/
theorem retried_described :
    Runs.AllStates (afterCall id uuidOf) (Described uuidOf) .empty [fuelCall [billedFuel], fuelCall [billedFuel]] ∧
      Runs.AllSteps (afterCall id uuidOf) (RefusesOthers id uuidOf) .empty [fuelCall [billedFuel], fuelCall [billedFuel]] := by
  refine (alignments_describe_iff Function.injective_id uuidOf _).mpr fun s h => ⟨fun row hrow => ?_, fun _ _ => ⟨?_, trivial⟩⟩
  · exact absurd hrow List.not_mem_nil
  · intro row hrow _ hother
    have hmade : (afterCall id uuidOf .empty (fuelCall [billedFuel])).map (fun s => s.alignments.rows.map (·.made)) =
        some [fuelVariance [billedFuel]] := by decide +kernel
    rw [h] at hmade
    have hrows : s.alignments.rows.map (·.made) = [fuelVariance [billedFuel]] := Option.some.inj hmade
    have hthis : row.made ∈ s.alignments.rows.map (·.made) := List.mem_map_of_mem hrow
    rw [hrows, List.mem_singleton] at hthis
    exact absurd ⟨fun _ => by rw [hthis]; rfl, by rw [hthis]; rfl, by rw [hthis]; rfl, by rw [hthis]; rfl,
      by rw [hthis]; rfl⟩ hother

/-- The fuel billed as another charge of the same total joins the first row. -/
theorem sameTotals_fail :
    ¬ (Runs.AllStates (afterCall id uuidOf) (Described uuidOf) .empty [fuelCall [billedFuel], fuelCall [otherBilledFuel]] ∧
      Runs.AllSteps (afterCall id uuidOf) (RefusesOthers id uuidOf) .empty
        [fuelCall [billedFuel], fuelCall [otherBilledFuel]]) := by
  rintro ⟨hstates, -⟩
  have hmade : (Runs.final (afterCall id uuidOf) .empty [fuelCall [billedFuel], fuelCall [otherBilledFuel]]).map
      (fun s => s.alignments.rows.map fun row => (row.id, row.made)) = some [(0, fuelVariance [billedFuel])] := by
    decide +kernel
  have hmembers : (Runs.final (afterCall id uuidOf) .empty [fuelCall [billedFuel], fuelCall [otherBilledFuel]]).map
      (fun s => s.members.rows) = some [⟨"account", 0, .chargeFact 0x000000000000400080000000000000b1⟩,
        ⟨"account", 0, .expectedCharge 0x000000000000400080000000000000e1⟩,
        ⟨"account", 0, .chargeFact 0x000000000000400080000000000000b2⟩] := by decide +kernel
  cases hfinal : Runs.final (afterCall id uuidOf) .empty [fuelCall [billedFuel], fuelCall [otherBilledFuel]] with
  | none =>
    rw [hfinal] at hmade
    cases hmade
  | some s =>
    rw [hfinal] at hmade hmembers
    have hrows : s.alignments.rows.map (fun row => (row.id, row.made)) = [(0, fuelVariance [billedFuel])] :=
      Option.some.inj hmade
    have hthere : s.members.rows = [⟨"account", 0, .chargeFact 0x000000000000400080000000000000b1⟩,
        ⟨"account", 0, .expectedCharge 0x000000000000400080000000000000e1⟩,
        ⟨"account", 0, .chargeFact 0x000000000000400080000000000000b2⟩] := Option.some.inj hmembers
    obtain ⟨row, hrow, hpair⟩ := List.mem_map.mp (hrows ▸ List.mem_singleton_self (0, fuelVariance [billedFuel]))
    obtain ⟨hid, hmade⟩ := Prod.mk.inj hpair
    have hjoined := ((hstates.final hfinal row hrow).members (.chargeFact 0x000000000000400080000000000000b2)).mp
      ⟨⟨"account", 0, .chargeFact 0x000000000000400080000000000000b2⟩, by rw [hthere]; decide +kernel, hid.symm, rfl⟩
    rw [hmade, isMember_iff] at hjoined
    revert hjoined
    decide +kernel

end RateEngine
