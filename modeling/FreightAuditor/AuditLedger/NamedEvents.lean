import FreightAuditor.Library.JsText
import FreightAuditor.Library.WriteOnce

/- Audit events of one tenant, each with the id made of its entity and its name.

   The name has no delimiter, so the entity and the name can be read back from the id
   (`of_id_inj`). An event can be written exactly if no event of that name on the entity says
   something else (`write_isSome`). -/

structure NamedEvent (δ : Type) where
  id : String
  clientId : String
  entityId : String
  detail : δ
  deriving DecidableEq

namespace NamedEvent

variable {δ : Type}

abbrev Log (δ : Type) := KeyedTable (NamedEvent δ) NamedEvent.id

/-- `IS NOT DISTINCT FROM` on every column. -/
def same [DecidableEq δ] (a b : NamedEvent δ) : Bool :=
  a.clientId = b.clientId ∧ a.entityId = b.entityId ∧ a.detail = b.detail

/-- The event with the id that `deterministicAuditEventId` makes of the tenant, the entity and the name. -/
def of (sha256 : String → String) (name : δ → String) (clientId entityId : String) (detail : δ) : NamedEvent δ :=
  ⟨sha256 ("\x00".intercalate [clientId, entityId, name detail]), clientId, entityId, detail⟩

/-- `none` where the id has other evidence: `AuditEventConflictError`. -/
def Log.write [DecidableEq δ] (log : Log δ) (sha256 : String → String) (name : δ → String) (clientId entityId : String)
    (detail : δ) : Option (Log δ) :=
  (log.record same (of sha256 name clientId entityId detail)).map Prod.snd

/-- Each event is that of its detail, of one tenant. -/
def Log.WellNamed (log : Log δ) (sha256 : String → String) (name : δ → String) (clientId : String) : Prop :=
  ∀ e ∈ log.rows, e = of sha256 name clientId e.entityId e.detail

variable {sha256 : String → String} {name : δ → String} {clientId entityId entityId' : String} {detail detail' : δ}

/-- Of one tenant's events, the entity and the name are read back from the id. -/
theorem of_id_inj (hsha : Function.Injective sha256) (hname : ∀ d, '\x00' ∉ (name d).toList)
    (h : (of sha256 name clientId entityId detail).id = (of sha256 name clientId entityId' detail').id) :
    entityId = entityId' ∧ name detail = name detail' := by
  have htext : clientId.toList ++ '\x00' :: (entityId.toList ++ '\x00' :: (name detail).toList) =
      clientId.toList ++ '\x00' :: (entityId'.toList ++ '\x00' :: (name detail').toList) := by
    have hparts := congrArg String.toList (hsha h)
    have hnul : "\x00".toList = ['\x00'] := by decide
    simpa [hnul] using hparts
  have hrest := (List.cons.inj (List.append_cancel_left htext)).2
  -- read from the end, where the name has no delimiter
  have hreversed := congrArg List.reverse hrest
  rw [List.reverse_append, List.reverse_append, List.reverse_cons, List.reverse_cons, List.append_assoc,
    List.append_assoc, List.singleton_append, List.singleton_append] at hreversed
  have hfree (d : δ) : '\x00' ∉ (name d).toList.reverse := fun hmem => hname d (List.mem_reverse.mp hmem)
  obtain ⟨hevent, hentity⟩ := JsText.append_delimiter_inj (hfree detail) (hfree detail') hreversed
  exact ⟨String.toList_inj.mp (List.reverse_injective hentity), String.toList_inj.mp (List.reverse_injective hevent)⟩

variable [DecidableEq δ] {log log' : Log δ}

theorem same_iff {a b : NamedEvent δ} :
    same a b = true ↔ a.clientId = b.clientId ∧ a.entityId = b.entityId ∧ a.detail = b.detail :=
  decide_eq_true_iff

/-- An event is new, or it was there and nothing changes. -/
theorem write_cases (hlog : log.WellNamed sha256 name clientId)
    (h : log.write sha256 name clientId entityId detail = some log') :
    log'.rows = log.rows ++ [of sha256 name clientId entityId detail] ∨
      log' = log ∧ of sha256 name clientId entityId detail ∈ log.rows := by
  obtain ⟨⟨created, after⟩, hrecord, rfl⟩ := Option.map_eq_some_iff.mp h
  rcases KeyedTable.record_cases hrecord with ⟨-, -, hinsert⟩ | ⟨-, rfl, row, hfound, hsame⟩
  · exact .inl (KeyedTable.insert_eq_some hinsert).2
  · obtain ⟨hmem, -⟩ := KeyedTable.find?_sound hfound
    obtain ⟨-, hentity, hdetail⟩ := same_iff.mp hsame
    refine .inr ⟨rfl, ?_⟩
    have hrow := hlog row hmem
    rw [hentity, hdetail] at hrow
    exact hrow ▸ hmem

/-- No event is lost, and this one is there. -/
theorem mem_write (hlog : log.WellNamed sha256 name clientId)
    (h : log.write sha256 name clientId entityId detail = some log') {e : NamedEvent δ} :
    e ∈ log'.rows ↔ e ∈ log.rows ∨ e = of sha256 name clientId entityId detail := by
  rcases write_cases hlog h with hrows | ⟨rfl, hmem⟩
  · rw [hrows, List.mem_append, List.mem_singleton]
  · constructor
    · exact .inl
    · intro he
      rcases he with he | rfl
      · exact he
      · exact hmem

theorem Log.WellNamed.write (hlog : log.WellNamed sha256 name clientId)
    (h : log.write sha256 name clientId entityId detail = some log') : log'.WellNamed sha256 name clientId := by
  intro e he
  rcases (mem_write hlog h).mp he with he | rfl
  · exact hlog e he
  · rfl

/-- An event can be written if those of its name on the entity say the same. -/
theorem write_isSome (hsha : Function.Injective sha256) (hname : ∀ d, '\x00' ∉ (name d).toList)
    (hlog : log.WellNamed sha256 name clientId) : (log.write sha256 name clientId entityId detail).isSome ↔
      ∀ e ∈ log.rows, name e.detail = name detail → e.entityId = entityId → e.detail = detail := by
  rw [Log.write, Option.isSome_map, KeyedTable.record_isSome]
  constructor
  · intro h e he hevent hentity
    have hid : e.id = (of sha256 name clientId entityId detail).id := by
      rw [hlog e he, hentity]
      exact congrArg (fun text => sha256 ("\x00".intercalate [clientId, entityId, text])) hevent
    exact (same_iff.mp (h e (KeyedTable.find?_eq_some.mpr ⟨he, hid⟩))).2.2
  · intro h row hrow
    obtain ⟨hmem, hid⟩ := KeyedTable.find?_eq_some.mp hrow
    have hrow := hlog row hmem
    rw [hrow] at hid
    obtain ⟨hentity, hevent⟩ := of_id_inj hsha hname hid
    refine same_iff.mpr ⟨?_, hentity, h row hmem hevent hentity⟩
    rw [hrow]
    rfl

omit [DecidableEq δ] in
/-- There is at most one event of a name on an entity. -/
theorem Log.WellNamed.eq_of_name (hlog : log.WellNamed sha256 name clientId) {e e' : NamedEvent δ} (he : e ∈ log.rows)
    (he' : e' ∈ log.rows) (hentity : e.entityId = e'.entityId) (hname : name e.detail = name e'.detail) : e = e' := by
  refine KeyedTable.eq_of_key he he' ?_
  rw [hlog e he, hlog e' he', hentity]
  exact congrArg (fun text => sha256 ("\x00".intercalate [clientId, e'.entityId, text])) hname

end NamedEvent
