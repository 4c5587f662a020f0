import FreightAuditor.Library.Base64Url
import FreightAuditor.Library.IsoDate
import FreightAuditor.Library.JsonParse
import FreightAuditor.Library.KeysetPages
import FreightAuditor.Library.Utf8

/- Opaque keyset cursors.

   A cursor is the JSON of a time and an id as base64url text. A list query takes its id alone, and reads
   the time of that row anew. `decodeCursor_encodeCursor` says that a cursor of a row is read back. -/
namespace CursorPagination

open Json

structure KeysetCursor where
  v : String
  id : String
  deriving DecidableEq

def encodeCursor (cursor : KeysetCursor) : String :=
  String.ofList (Base64Url.encode (Utf8.encode (render (.obj [("v", .str cursor.v), ("id", .str cursor.id)]))))

/-- `!Number.isNaN(Date.parse(v))`; `otherForms` are the texts it reads that are not of the form of
    `toISOString`. -/
def isDate (otherForms : String → Bool) (v : String) : Bool := (IsoDate.parseIso v.toList).isSome || otherForms v

def isUuid (value : String) : Bool := Uuid.wellFormed value.toList

/-- `none` where it answers `null`. -/
def decodeCursor (otherForms : String → Bool) (raw : String) : Option KeysetCursor := do
  let parsed ← parse (Utf8.decode (Base64Url.decode raw.toList))
  match parsed.property? "v", parsed.property? "id" with
  | some (.str v), some (.str id) => if isDate otherForms v && isUuid id then some ⟨v, id⟩ else none
  | _, _ => none

def paginateKeyset {α : Type} (rows : List α) (limit : ℕ) (keyOf : α → KeysetCursor) : List α × Option String :=
  if rows.length > limit then (rows.take limit, (rows.take limit).getLast?.map fun row => encodeCursor (keyOf row))
  else (rows, none)

/-- A `timestamptz`, in microseconds, that a `Date` can hold. -/
def Timestamp := {micros : ℤ // (micros / 1000).natAbs ≤ IsoDate.maxTime}

instance : LinearOrder Timestamp := inferInstanceAs (LinearOrder {micros : ℤ // (micros / 1000).natAbs ≤ IsoDate.maxTime})

/-- The `Date` of a `timestamptz`: its milliseconds. -/
def Timestamp.toDate (t : Timestamp) : ℤ := t.val / 1000

theorem Timestamp.toDate_bound (t : Timestamp) : t.toDate.natAbs ≤ IsoDate.maxTime := t.property

/-- What `keyOf` takes from a row with a date and an id. -/
def rowKey (date : ℤ) (id : Uuid) : KeysetCursor := ⟨String.ofList (IsoDate.toISOString date), String.ofList id.text⟩

section

variable {α : Type} (time : α → Timestamp) (id : α → Uuid)

/-- The subquery `cursor_anchor`: the time and id of the rows of a table with the cursor's id that pass the
    extra predicate. -/
def keysetAnchorFrom (table : List α) (extraAnchorPredicate : α → Bool) (cursorId : Uuid) : List (Timestamp × Uuid) :=
  (table.filter fun row => id row = cursorId && extraAnchorPredicate row).map fun row => (time row, id row)

/-- The rows that a query joins with its anchors and keeps. -/
def keysetTieBreak (rows : List α) (anchors : List (Timestamp × Uuid)) : List α :=
  rows.flatMap fun row => anchors.filterMap fun anchor =>
    if time row < anchor.1 ∨ time row = anchor.1 ∧ anchor.2 < id row then some row else none

end

/-! ## Requests -/

/-- Where a list query starts and ends. -/
structure PageOptions where
  limit : Option ℕ
  offset : Option ℕ
  cursor : Option Uuid

def DEFAULT_LIMIT : ℕ := 50

/-- `LIMIT` after a cursor, else `LIMIT … OFFSET`. -/
def limitOffsetClause {α : Type} (options : PageOptions) (rows : List α) : List α :=
  let limit := options.limit.getD DEFAULT_LIMIT
  if options.cursor.isSome then rows.take limit else (rows.drop (options.offset.getD 0)).take limit

inductive PageRefusal where
  | cursorWithOffset | invalidCursor
  deriving DecidableEq

/-- What the handlers of paged lists share: a request with its limit and offset read, and the query and key of
    its rows. -/
def answerPage {γ : Type} (otherForms : String → Bool) (list : PageOptions → List γ) (keyOf : γ → KeysetCursor)
    (limit offset : Option ℕ) (cursor : Option String) : Except PageRefusal (List γ × Option String) :=
  let effectiveLimit := limit.getD DEFAULT_LIMIT
  match cursor with
  | none => .ok (paginateKeyset (list ⟨some (effectiveLimit + 1), offset, none⟩) effectiveLimit keyOf)
  | some raw =>
    if offset.isSome then .error .cursorWithOffset
    else match decodeCursor otherForms raw with
      | none => .error .invalidCursor
      | some decoded =>
        .ok (paginateKeyset (list ⟨some (effectiveLimit + 1), none, some (Uuid.value decoded.id.toList)⟩) effectiveLimit keyOf)

/-! ## Cursors of rows -/

/-- The cursor of a row is read back. -/
theorem decodeCursor_rowKey (otherForms : String → Bool) {date : ℤ} (hdate : date.natAbs ≤ IsoDate.maxTime) (id : Uuid) :
    decodeCursor otherForms (encodeCursor (rowKey date id)) = some (rowKey date id) := by
  have htext : parse (render (.obj [("v", .str (rowKey date id).v), ("id", .str (rowKey date id).id)])) =
      some (.obj [("v", .str (rowKey date id).v), ("id", .str (rowKey date id).id)]) :=
    parse_texts [("v", (rowKey date id).v), ("id", (rowKey date id).id)] (List.cons_ne_nil _ _)
  have hv : isDate otherForms (rowKey date id).v = true := by
    rw [isDate, rowKey, String.toList_ofList, IsoDate.parse_toISOString hdate]
    rfl
  have hid : isUuid (rowKey date id).id = true := by
    rw [isUuid, rowKey, String.toList_ofList]
    exact Uuid.wellFormed_text id
  have hfields : (Value.obj [("v", .str (rowKey date id).v), ("id", .str (rowKey date id).id)]).property? "v" =
        some (.str (rowKey date id).v) ∧
      (Value.obj [("v", .str (rowKey date id).v), ("id", .str (rowKey date id).id)]).property? "id" =
        some (.str (rowKey date id).id) := ⟨rfl, rfl⟩
  rw [decodeCursor, encodeCursor, String.toList_ofList, Base64Url.decode_encode, Utf8.decode_encode, htext]
  simp only [Option.bind_eq_bind, Option.bind_some, hfields.1, hfields.2, hv, hid, Bool.and_self, if_true]

theorem value_rowKey (date : ℤ) (id : Uuid) : Uuid.value (rowKey date id).id.toList = id := by
  rw [rowKey, String.toList_ofList, Uuid.value_text]

/-! ## Pages of rows -/

section

variable {α γ : Type} {time : α → Timestamp} {id : α → Uuid}

/-- The anchor of a cursor is the row that it came from. -/
theorem keysetAnchorFrom_eq {table : List α} (hnodup : (table.map id).Nodup) {extraAnchorPredicate : α → Bool} {a : α}
    (ha : a ∈ table) (hextra : extraAnchorPredicate a = true) :
    keysetAnchorFrom time id table extraAnchorPredicate (id a) = [(time a, id a)] := by
  have hfilter : (table.filter fun row => id row = id a && extraAnchorPredicate row) = [a] := by
    induction table with
    | nil => exact absurd ha List.not_mem_nil
    | cons b table ih =>
      obtain ⟨hnot, hrest⟩ := List.nodup_cons.mp hnodup
      rcases List.mem_cons.mp ha with rfl | hmem
      · have hnone : (table.filter fun row => id row = id a && extraAnchorPredicate row) = [] := by
          refine List.filter_eq_nil_iff.mpr fun c hc hkept => hnot ?_
          rw [Bool.and_eq_true, decide_eq_true_eq] at hkept
          exact hkept.1 ▸ List.mem_map_of_mem hc
        rw [List.filter_cons_of_pos (by rw [hextra]; simp), hnone]
      · have hne : id b ≠ id a := fun heq => hnot (heq ▸ List.mem_map_of_mem hmem)
        rw [List.filter_cons_of_neg (by simp [hne]), ih hrest hmem]
  rw [keysetAnchorFrom, hfilter, List.map_singleton]

theorem keysetTieBreak_singleton (rows : List α) (anchorTime : Timestamp) (anchorId : Uuid) :
    keysetTieBreak time id rows [(anchorTime, anchorId)] =
      rows.filter fun row => KeysetPages.After time id anchorTime anchorId row := by
  induction rows with
  | nil => rfl
  | cons row rows ih =>
    rw [keysetTieBreak] at ih
    rw [keysetTieBreak, List.flatMap_cons, ih, List.filter_cons]
    by_cases hafter : time row < anchorTime ∨ time row = anchorTime ∧ anchorId < id row
    · simp [KeysetPages.After, hafter]
    · simp [KeysetPages.After, hafter]

variable {rows : List α} {toRow : α → γ} {keyOf : γ → KeysetCursor} {limit : ℕ}

/-- The query of a list: sorted rows of a selection, and after a cursor those behind its anchor. -/
def Lists (time : α → Timestamp) (id : α → Uuid) (rows : List α) (toRow : α → γ) (list : PageOptions → List γ) : Prop :=
  (∀ limit, list ⟨some limit, none, none⟩ = ((KeysetPages.sorted time id rows).take limit).map toRow) ∧
  ∀ limit, ∀ a ∈ rows, list ⟨some limit, none, some (id a)⟩ =
    ((KeysetPages.sorted time id (rows.filter fun row => KeysetPages.After time id (time a) (id a) row)).take limit).map toRow

/-- Following the cursors of such a list shows each of its rows once and in order. -/
theorem follow_list {list : PageOptions → List γ} (hlist : Lists time id rows toRow list) (hnodup : (rows.map id).Nodup)
    (hkey : ∀ a, keyOf (toRow a) = rowKey (time a).toDate (id a)) (otherForms : String → Bool) (hlimit : 1 ≤ limit)
    {fuel : ℕ} (hfuel : rows.length < fuel) :
    KeysetPages.follow (fun cursor => (answerPage otherForms list keyOf (some limit) none cursor).toOption) fuel none =
      some ((KeysetPages.sorted time id rows).map toRow) := by
  obtain ⟨hfirst, hafter⟩ := hlist
  have hperm : (KeysetPages.sorted time id rows).Perm rows := KeysetPages.sorted_perm rows
  have hpage (l : List α) : paginateKeyset ((l.take (limit + 1)).map toRow) limit keyOf =
      KeysetPages.paginate (fun row => encodeCursor (keyOf row)) ((l.map toRow).take (limit + 1)) limit := by
    rw [← List.map_take]
    rfl
  have hstart : (answerPage otherForms list keyOf (some limit) none none).toOption =
      some (KeysetPages.paginate (fun row => encodeCursor (keyOf row))
        (((KeysetPages.sorted time id rows).map toRow).take (limit + 1)) limit) := by
    rw [← hpage, ← hfirst]
    rfl
  refine KeysetPages.follow_all hlimit hstart ?_ ?_
  · intro i hi
    rw [List.length_map] at hi
    have hmem := hperm.mem_iff.mp (List.getElem_mem hi)
    have hanswer := hafter (limit + 1) _ hmem
    rw [KeysetPages.sorted_filter hnodup,
      KeysetPages.filter_after ((hperm.map id).nodup_iff.mpr hnodup) (KeysetPages.sorted_pairwise rows) hi] at hanswer
    rw [List.getElem_map, hkey, ← List.map_drop, ← hpage, ← hanswer, answerPage]
    simp only [decodeCursor_rowKey otherForms (Timestamp.toDate_bound _), value_rowKey, Option.isSome_none, Bool.false_eq_true,
      if_false]
    rfl
  · rw [List.length_map, hperm.length_eq]
    exact hfuel

/-- A cursor that a list answers is that of one of its rows, and is read back. -/
theorem nextCursor_decodes {list : PageOptions → List γ} {otherForms : String → Bool} {limit offset : Option ℕ}
    {cursor : Option String} (hkeys : ∀ options, ∀ row ∈ list options, ∃ t : Timestamp, ∃ id, keyOf row = rowKey t.toDate id)
    {page : List γ} {next : String} (h : answerPage otherForms list keyOf limit offset cursor = .ok (page, some next)) :
    ∃ c, next = encodeCursor c ∧ decodeCursor otherForms next = some c := by
  have hpage {options : PageOptions} {limit : ℕ} (hpage : paginateKeyset (list options) limit keyOf = (page, some next)) :
      ∃ c, next = encodeCursor c ∧ decodeCursor otherForms next = some c := by
    rw [paginateKeyset] at hpage
    split at hpage
    · obtain ⟨row, hrow, rfl⟩ := Option.map_eq_some_iff.mp (Prod.ext_iff.mp hpage).2
      have hmem : row ∈ list options := List.mem_of_mem_take (List.mem_of_getLast? hrow)
      obtain ⟨t, id, hkey⟩ := hkeys options row hmem
      rw [hkey]
      exact ⟨_, rfl, decodeCursor_rowKey otherForms t.toDate_bound id⟩
    · cases (Prod.ext_iff.mp hpage).2
  cases cursor with
  | none => exact hpage (Except.ok.inj h)
  | some raw =>
    simp only [answerPage] at h
    split at h
    · cases h
    cases hdecoded : decodeCursor otherForms raw with
    | none =>
      rw [hdecoded] at h
      cases h
    | some decoded =>
      rw [hdecoded] at h
      exact hpage (Except.ok.inj h)

end

end CursorPagination
