import FreightAuditor.Disputes.StatusHistory

/- A finding on the lines of one dispute only, and disputes that claim what their lines
   add up to.

   The creation of a dispute takes accepted findings only and leaves them queued. That
   keeps a finding out of a second dispute as long as no analyst accepts it again:
   `oneDispute_iff` says that the law holds along exactly those runs in which no creation
   claims a finding that was accepted while it stood on a line. -/
namespace Disputes

open Claims (VarianceStatus textNumber)
open DecimalJs PgNumeric ReadCommitted

def DisputeDb.linesOf (db : DisputeDb) (disputeId : ℕ) : List DisputeLine :=
  db.disputeLines.filter (·.disputeId = disputeId)

/-- The dispute claims the sum of these lines, which share its currency. -/
def Dispute.Claims (d : Dispute) (lines : List DisputeLine) : Prop :=
  (∃ amount ∈ d.amountClaimed, total (lines.filterMap DisputeLine.amount) = amount.units) ∧
    ∃ currency ∈ d.currency, ∀ l ∈ lines, l.amount.isSome ∧ l.currency = some currency

/-- No finding stands on lines of two disputes, and every dispute claims its lines. -/
structure OneDispute (db : DisputeDb) : Prop where
  one : ∀ l ∈ db.disputeLines, ∀ l' ∈ db.disputeLines, l.varianceFindingId.isSome →
    l.varianceFindingId = l'.varianceFindingId → l.disputeId = l'.disputeId
  claims : ∀ d ∈ db.disputes, d.Claims (db.linesOf d.id)

instance (d : Dispute) (lines : List DisputeLine) : Decidable (d.Claims lines) :=
  inferInstanceAs (Decidable ((∃ amount ∈ d.amountClaimed, _ = _) ∧ ∃ currency ∈ d.currency, ∀ l ∈ lines, _ ∧ _))

instance (db : DisputeDb) : Decidable (OneDispute db) :=
  decidable_of_iff ((∀ l ∈ db.disputeLines, ∀ l' ∈ db.disputeLines, l.varianceFindingId.isSome →
      l.varianceFindingId = l'.varianceFindingId → l.disputeId = l'.disputeId) ∧
      ∀ d ∈ db.disputes, d.Claims (db.linesOf d.id))
    ⟨fun h => ⟨h.1, h.2⟩, fun h => ⟨h.one, h.claims⟩⟩

/-- No finding that a creation claims has been accepted while it stood on a line. -/
def NoneReaccepted (db : DisputeDb) : DisputeCall → Log DisputeDb DisputeWrite LockKey → Prop
  | .createDisputeFromFindings input, _ => ∀ id ∈ input.findingIds, ∀ f ∈ findFinding db input.clientId id,
      f.direction ≠ some .UNDERCHARGE → id ∉ db.reaccepted
  | _, _ => True

/-- What holds of the lines in every run. -/
structure LineInv (initial : KeyedTable VarianceFinding VarianceFinding.id) (db : DisputeDb) : Prop where
  findings : FindingsOf initial db
  dispute : ∀ l ∈ db.disputeLines, ∃ d ∈ db.disputes, d.id = l.disputeId
  onLine : ∀ id ∈ db.reaccepted, db.OnLine id
  reaccepted : ∀ id, db.OnLine id → ∀ f ∈ db.finding id, f.status = .accepted → id ∈ db.reaccepted

section

variable {initial : KeyedTable VarianceFinding VarianceFinding.id} {db : DisputeDb}

theorem lineInv_initial (initial : KeyedTable VarianceFinding VarianceFinding.id) :
    LineInv initial (DisputeDb.initial initial) :=
  ⟨findingsOf_initial initial, by simp [DisputeDb.initial], by simp [DisputeDb.initial],
    fun id h => by simp [DisputeDb.initial, DisputeDb.OnLine] at h⟩

theorem oneDispute_initial (initial : KeyedTable VarianceFinding VarianceFinding.id) :
    OneDispute (DisputeDb.initial initial) :=
  ⟨by simp [DisputeDb.initial], by simp [DisputeDb.initial]⟩

/-! ## An analyst's change -/

theorem LineInv.status (h : LineInv initial db) {clientId findingId statusEventId : ℕ}
    {fromStatus toStatus : VarianceStatus} {note : Option String} :
    LineInv initial (view apply db (statusWrites clientId findingId fromStatus toStatus note statusEventId)) := by
  refine ⟨h.findings.view _, h.dispute, fun id hid => ?_, fun id hline f hf hstatus => ?_⟩
  · change id ∈ (if toStatus = .accepted ∧ db.OnLine findingId then findingId :: db.reaccepted
      else db.reaccepted) at hid
    split at hid
    · rename_i haccepted
      rcases List.mem_cons.mp hid with rfl | hid
      · exact haccepted.2
      · exact h.onLine id hid
    · exact h.onLine id hid
  · change id ∈ (if toStatus = .accepted ∧ db.OnLine findingId then findingId :: db.reaccepted
      else db.reaccepted)
    change (apply db (.updateFindingStatus findingId toStatus)).finding id = some f at hf
    rw [finding_update] at hf
    obtain ⟨f₀, hf₀, rfl⟩ := Option.map_eq_some_iff.mp hf
    have hid : f₀.id = id := (KeyedTable.find?_sound hf₀).2
    by_cases hsame : f₀.id = findingId
    · -- the finding itself: accepted on a line
      rw [VarianceFinding.updateStatus, if_pos hsame] at hstatus
      have hfinding : id = findingId := hid.symm.trans hsame
      rw [if_pos ⟨hstatus, hfinding ▸ hline⟩, hfinding]
      exact List.mem_cons_self
    · rw [VarianceFinding.updateStatus, if_neg hsame] at hstatus
      have hmem := h.reaccepted id hline f₀ hf₀ hstatus
      split
      · exact List.mem_cons_of_mem _ hmem
      · exact hmem

/-! ## A creation -/

section included

variable {tx clientId disputeId : ℕ}

/-- The line of a finding. -/
def lineOf (clientId disputeId : ℕ) (f : VarianceFinding) : DisputeLine :=
  ⟨clientId, disputeId, some f.id, f.varianceAmount, f.currency⟩

theorem included_lines (entries : List (VarianceFinding × ℕ)) :
    (entries.flatMap (included tx clientId disputeId)).filterMap DisputeWrite.line? =
      (entries.map Prod.fst).map (lineOf clientId disputeId) := by
  induction entries with
  | nil => rfl
  | cons e rest ih =>
    rw [List.flatMap_cons, List.filterMap_append, ih]
    rfl

theorem update_reaccepted (db : DisputeDb) (findingId : ℕ) {status : VarianceStatus} (h : status ≠ .accepted) :
    (apply db (.updateFindingStatus findingId status)).reaccepted = db.reaccepted := if_neg fun h' => h h'.1

/-- The findings of the lines are queued, and all else is as it was. -/
theorem view_included (tx clientId disputeId : ℕ) (entries : List (VarianceFinding × ℕ)) : ∀ (db : DisputeDb),
    (view apply db (entries.flatMap (included tx clientId disputeId))).disputes = db.disputes ∧
    (view apply db (entries.flatMap (included tx clientId disputeId))).reaccepted = db.reaccepted ∧
    ∀ id f, (view apply db (entries.flatMap (included tx clientId disputeId))).finding id = some f →
      f.status ≠ .accepted ∨ id ∉ entries.map (fun e => e.1.id) ∧ db.finding id = some f := by
  induction entries with
  | nil => exact fun db => ⟨rfl, rfl, fun id f hf => .inr ⟨List.not_mem_nil, hf⟩⟩
  | cons e rest ih =>
    intro db
    rw [List.flatMap_cons, view_append]
    obtain ⟨mid, hmid⟩ : ∃ mid, view apply db (included tx clientId disputeId e) = mid := ⟨_, rfl⟩
    obtain ⟨hdisputes, hreaccepted, hfinding⟩ := ih mid
    have hmid' : mid.disputes = db.disputes ∧ mid.reaccepted = db.reaccepted ∧
        mid.finding = (apply db (.updateFindingStatus e.1.id .queued_for_dispute)).finding := by
      rw [← hmid]
      exact ⟨rfl, update_reaccepted (apply db (.insertDisputeLine (lineOf clientId disputeId e.1))) e.1.id
        (show VarianceStatus.queued_for_dispute ≠ .accepted by simp), rfl⟩
    rw [hmid, hdisputes, hreaccepted, hmid'.1, hmid'.2.1]
    refine ⟨rfl, rfl, fun id f hf => ?_⟩
    obtain hstatus | ⟨hnot, hf⟩ := hfinding id f hf
    · exact .inl hstatus
    rw [hmid'.2.2, finding_update] at hf
    obtain ⟨f₀, hf₀, rfl⟩ := Option.map_eq_some_iff.mp hf
    have hid : f₀.id = id := (KeyedTable.find?_sound hf₀).2
    unfold VarianceFinding.updateStatus at hf ⊢
    split
    · exact .inl (by simp)
    · rename_i hne
      refine .inr ⟨fun hmem => ?_, hf₀⟩
      rcases List.mem_cons.mp hmem with h | h
      · exact hne (hid.trans h)
      · exact hnot h

end included

variable {tx : ℕ} {input : CreateDisputeInput} {ws : List DisputeWrite}

/-- The dispute of a creation. -/
def Creation.dispute (run : Creation db tx input ws) : Dispute :=
  ⟨newId tx 0, input.clientId, some run.carrierId, .draft, some run.amount, none, some run.currency⟩

theorem Creation.view_eq (run : Creation db tx input ws) :
    (view apply db ws).disputes = db.disputes ++ [run.dispute] ∧
    (view apply db ws).disputeLines = db.disputeLines ++ run.claimed.map (lineOf input.clientId (newId tx 0)) ∧
    (view apply db ws).reaccepted = db.reaccepted ∧
    ∀ id f, (view apply db ws).finding id = some f →
      f.status ≠ .accepted ∨ id ∉ run.claimed.map VarianceFinding.id ∧ db.finding id = some f := by
  have hmain : (view apply db ws).main = view apply (apply db.main (.insertDispute run.dispute))
      ((run.claimed.zipIdx 1).flatMap (included tx input.clientId (newId tx 0))) := by
    rw [main_view, run.writes]
    rfl
  obtain ⟨hdisputes, hreaccepted, hfinding⟩ := view_included tx input.clientId
    (newId tx 0) (run.claimed.zipIdx 1) (apply db.main (.insertDispute run.dispute))
  rw [← hmain] at hdisputes hreaccepted hfinding
  refine ⟨hdisputes, ?_, hreaccepted, fun id f hf => ?_⟩
  · have hlines := congrArg DisputeDb.disputeLines hmain
    rw [view_disputeLines, included_lines, List.zipIdx_map_fst] at hlines
    exact hlines
  · have hids : (run.claimed.zipIdx 1).map (fun e => e.1.id) = run.claimed.map VarianceFinding.id := by
      calc (run.claimed.zipIdx 1).map (fun e => e.1.id)
          = ((run.claimed.zipIdx 1).map Prod.fst).map VarianceFinding.id := by rw [List.map_map]; rfl
        _ = run.claimed.map VarianceFinding.id := by rw [List.zipIdx_map_fst]
    rw [← hids]
    exact hfinding id f hf

theorem Creation.onLine_iff (run : Creation db tx input ws) (id : ℕ) :
    (view apply db ws).OnLine id ↔ db.OnLine id ∨ id ∈ run.claimed.map VarianceFinding.id := by
  rw [DisputeDb.OnLine, run.view_eq.2.1]
  constructor
  · rintro ⟨l, hl, hid⟩
    rcases List.mem_append.mp hl with hl | hl
    · exact .inl ⟨l, hl, hid⟩
    · obtain ⟨f, hf, rfl⟩ := List.mem_map.mp hl
      exact .inr (List.mem_map.mpr ⟨f, hf, Option.some.inj hid⟩)
  · rintro (⟨l, hl, hid⟩ | hid)
    · exact ⟨l, List.mem_append_left _ hl, hid⟩
    · obtain ⟨f, hf, rfl⟩ := List.mem_map.mp hid
      exact ⟨_, List.mem_append_right _ (List.mem_map_of_mem hf), rfl⟩

theorem LineInv.creation (h : LineInv initial db) (run : Creation db tx input ws) :
    LineInv initial (view apply db ws) := by
  obtain ⟨hdisputes, hlines, hreaccepted, hfinding⟩ := run.view_eq
  refine ⟨h.findings.view _, fun l hl => ?_, fun id hid => ?_, fun id hline f hf hstatus => ?_⟩
  · rw [hdisputes]
    rw [hlines] at hl
    rcases List.mem_append.mp hl with hl | hl
    · obtain ⟨d, hd, hid⟩ := h.dispute l hl
      exact ⟨d, List.mem_append_left _ hd, hid⟩
    · obtain ⟨f, hf, rfl⟩ := List.mem_map.mp hl
      exact ⟨run.dispute, List.mem_append_right _ (List.mem_singleton_self _), rfl⟩
  · rw [hreaccepted] at hid
    exact (run.onLine_iff id).mpr (.inl (h.onLine id hid))
  · obtain hne | ⟨hnot, hold⟩ := hfinding id f hf
    · exact absurd hstatus hne
    · rw [hreaccepted]
      exact h.reaccepted id (((run.onLine_iff id).mp hline).resolve_right hnot) f hold hstatus

/-- The new lines are of the new dispute, the old ones of others. -/
theorem Creation.linesOf_eq (run : Creation db tx input ws) (h : LineInv initial db) :
    (view apply db ws).linesOf (newId tx 0) = run.claimed.map (lineOf input.clientId (newId tx 0)) ∧
    ∀ d ∈ db.disputes, (view apply db ws).linesOf d.id = db.linesOf d.id := by
  obtain ⟨-, hlines, -, -⟩ := run.view_eq
  constructor
  · rw [DisputeDb.linesOf, hlines, List.filter_append, List.filter_eq_nil_iff.mpr, List.filter_eq_self.mpr]
    · rfl
    · simp [lineOf]
    · intro l hl hid
      obtain ⟨d, hd, hld⟩ := h.dispute l hl
      exact run.fresh d hd (hld.trans (by simpa using hid))
  · intro d hd
    have hnew : (run.claimed.map (lineOf input.clientId (newId tx 0))).filter (·.disputeId = d.id) = [] := by
      refine List.filter_eq_nil_iff.mpr fun l hl => ?_
      obtain ⟨f, -, rfl⟩ := List.mem_map.mp hl
      simpa [lineOf, eq_comm] using run.fresh d hd
    rw [DisputeDb.linesOf, hlines, List.filter_append, hnew, List.append_nil]
    rfl

theorem Creation.claims (run : Creation db tx input ws) :
    run.dispute.Claims (run.claimed.map (lineOf input.clientId (newId tx 0))) := by
  refine ⟨⟨run.amount, rfl, ?_⟩, run.currency, rfl, fun l hl => ?_⟩
  · rw [List.filterMap_map]
    exact run.total
  · obtain ⟨f, hf, rfl⟩ := List.mem_map.mp hl
    exact ⟨run.amounts f hf, run.oneCurrency f hf⟩

/-- A creation keeps the law exactly if it claims no finding accepted on a line. -/
theorem Creation.keepsOneDispute_iff (run : Creation db tx input ws) (h : LineInv initial db) (hone : OneDispute db)
    (log : Log DisputeDb DisputeWrite LockKey) :
    OneDispute (view apply db ws) ↔ NoneReaccepted db (.createDisputeFromFindings input) log := by
  obtain ⟨hdisputes, hlines, -, -⟩ := run.view_eq
  -- claimed findings are accepted: they stand on a line only if accepted there
  have honLine : ∀ f ∈ run.claimed, db.OnLine f.id ↔ f.id ∈ db.reaccepted := by
    intro f hf
    have hpresent := run.present f hf
    rw [findFinding_eq, Option.filter_eq_some_iff] at hpresent
    exact ⟨fun hline => h.reaccepted f.id hline f hpresent.1 (run.accepted f hf), h.onLine f.id⟩
  have hnone : NoneReaccepted db (.createDisputeFromFindings input) log ↔ ∀ f ∈ run.claimed, ¬ db.OnLine f.id := by
    constructor
    · intro hno f hf hline
      obtain ⟨hid, g, hg, hdir⟩ := (run.asked f.id).mp (List.mem_map_of_mem hf)
      exact hno f.id hid g hg hdir ((honLine f hf).mp hline)
    · intro hno id hid f hf hdir hre
      obtain ⟨g, hg, rfl⟩ := List.mem_map.mp ((run.asked id).mpr ⟨hid, f, hf, hdir⟩)
      exact hno g hg (h.onLine g.id hre)
  rw [hnone]
  constructor
  · rintro ⟨hone', -⟩ f hf ⟨l, hl, hid⟩
    have hsame := hone' l (hlines ▸ List.mem_append_left _ hl) (lineOf input.clientId (newId tx 0) f)
      (hlines ▸ List.mem_append_right _ (List.mem_map_of_mem hf)) (by rw [hid]; rfl) hid
    obtain ⟨d, hd, hdl⟩ := h.dispute l hl
    exact run.fresh d hd (hdl.trans hsame)
  · intro hno
    have hrival : ∀ l ∈ db.disputeLines, ∀ f ∈ run.claimed, l.varianceFindingId ≠ some f.id :=
      fun l hl f hf hid => hno f hf ⟨l, hl, hid⟩
    constructor
    · intro l hl l' hl' hsome hid
      rw [hlines] at hl hl'
      rcases List.mem_append.mp hl with hold | hnew
      · rcases List.mem_append.mp hl' with hold' | hnew'
        · exact hone.one l hold l' hold' hsome hid
        · obtain ⟨f, hf, rfl⟩ := List.mem_map.mp hnew'
          exact absurd hid (hrival l hold f hf)
      · obtain ⟨f, hf, rfl⟩ := List.mem_map.mp hnew
        rcases List.mem_append.mp hl' with hold' | hnew'
        · exact absurd hid.symm (hrival l' hold' f hf)
        · obtain ⟨g, hg, rfl⟩ := List.mem_map.mp hnew'
          rfl
    · obtain ⟨hnew, hold⟩ := run.linesOf_eq h
      intro d hd
      rw [hdisputes] at hd
      rcases List.mem_append.mp hd with hd | hd
      · rw [hold d hd]
        exact hone.claims d hd
      · obtain rfl := List.mem_singleton.mp hd
        rw [show run.dispute.id = newId tx 0 from rfl, hnew]
        exact run.claims

/-! ## Approvals and responses -/

theorem view_onDispute (db : DisputeDb) {ws : List DisputeWrite} (h : ∀ w ∈ ws, w.OnDispute) :
    (view apply db ws).disputeLines = db.disputeLines ∧ (view apply db ws).reaccepted = db.reaccepted ∧
    (∀ d ∈ (view apply db ws).disputes, ∃ d₀ ∈ db.disputes, d₀.id = d.id ∧ d₀.amountClaimed = d.amountClaimed ∧
      d₀.currency = d.currency) ∧
    ∀ d ∈ db.disputes, ∃ d' ∈ (view apply db ws).disputes, d'.id = d.id := by
  induction ws generalizing db with
  | nil => exact ⟨rfl, rfl, fun d hd => ⟨d, hd, rfl, rfl, rfl⟩, fun d hd => ⟨d, hd, rfl⟩⟩
  | cons w ws ih =>
    obtain ⟨hlines, hreaccepted, hback, hforth⟩ := ih (apply db w) fun v hv => h v (List.mem_cons_of_mem _ hv)
    have hw := h w List.mem_cons_self
    rw [view_cons, hlines, hreaccepted]
    cases w with
    | updateDispute disputeId status acceptedAmount =>
      refine ⟨rfl, rfl, fun d hd => ?_, fun d hd => ?_⟩
      · obtain ⟨d₁, hd₁, hid, hamount, hcurrency⟩ := hback d hd
        obtain ⟨d₀, hd₀, rfl⟩ := List.mem_map.mp hd₁
        have hkeep : (d₀.update disputeId status acceptedAmount).amountClaimed = d₀.amountClaimed ∧
            (d₀.update disputeId status acceptedAmount).currency = d₀.currency := by
          unfold Dispute.update
          split <;> exact ⟨rfl, rfl⟩
        exact ⟨d₀, hd₀, (Dispute.update_id ..).symm.trans hid, hkeep.1.symm.trans hamount,
          hkeep.2.symm.trans hcurrency⟩
      · obtain ⟨d', hd', hid⟩ := hforth _ (List.mem_map_of_mem hd)
        exact ⟨d', hd', hid.trans (Dispute.update_id ..)⟩
    | insertAuditEvent row => exact ⟨rfl, rfl, hback, hforth⟩
    | insertWorkflowInstance row => exact ⟨rfl, rfl, hback, hforth⟩
    | insertWorkflowCommand row => exact ⟨rfl, rfl, hback, hforth⟩
    | _ => exact hw.elim

theorem LineInv.onDispute (h : LineInv initial db) (hws : ∀ w ∈ ws, w.OnDispute) :
    LineInv initial (view apply db ws) := by
  obtain ⟨hlines, hreaccepted, -, hforth⟩ := view_onDispute db hws
  have hfinding := (main_onDispute db hws).1
  refine ⟨h.findings.view _, fun l hl => ?_, fun id hid => ?_, fun id hline f hf hstatus => ?_⟩
  · rw [hlines] at hl
    obtain ⟨d, hd, hid⟩ := h.dispute l hl
    obtain ⟨d', hd', hid'⟩ := hforth d hd
    exact ⟨d', hd', hid'.trans hid⟩
  · rw [DisputeDb.OnLine, hlines]
    exact h.onLine id (hreaccepted ▸ hid)
  · rw [DisputeDb.OnLine, hlines] at hline
    rw [hreaccepted]
    exact h.reaccepted id hline f (hfinding ▸ hf) hstatus

theorem OneDispute.onDispute (h : OneDispute db) (hws : ∀ w ∈ ws, w.OnDispute) :
    OneDispute (view apply db ws) := by
  obtain ⟨hlines, -, hback, -⟩ := view_onDispute db hws
  refine ⟨by rw [hlines]; exact h.one, fun d hd => ?_⟩
  obtain ⟨d₀, hd₀, hid, hamount, hcurrency⟩ := hback d hd
  have hclaims := h.claims d₀ hd₀
  rw [Dispute.Claims, hamount, hcurrency, hid] at hclaims
  rw [DisputeDb.linesOf, hlines]
  exact hclaims

end

/-! ## Commits -/

section

variable {D : Type} [Decimal D] {sha256 : String → ℕ} {toISOString : ℤ → String} {tx startedAt : ℕ}
  {initial : KeyedTable VarianceFinding VarianceFinding.id} {db : DisputeDb} {call : DisputeCall}
  {log : Log DisputeDb DisputeWrite LockKey} {r : DisputeResult}

theorem main_nil (db : DisputeDb) (h : mainWrites log.writes = []) : (view apply db log.writes).main = db.main := by
  rw [main_view, h]
  rfl

/-- What every commit does to the invariant, and what the law asks of it. -/
theorem oneDispute_commit
    (h : Commit (disputesSystem sha256 D toISOString) (LineInv initial) Since db call tx startedAt r log) :
    LineInv initial (view apply db log.writes) ∧
      (OneDispute db → (OneDispute (view apply db log.writes) ↔ NoneReaccepted db call log)) := by
  obtain ⟨hinv, hends, hseen⟩ := h
  cases hcall : call.statusChange? with
  | some change =>
    have htrue : NoneReaccepted db call log := by
      cases call <;> trivial
    obtain ⟨snapshot, rest, -, ⟨-, hwrites⟩ | ⟨old, -, hwrites⟩⟩ := statusChange_ends hcall hends
    · have hmain := main_nil db hwrites
      refine ⟨?_, fun hone => iff_of_true ?_ htrue⟩
      · have hback : LineInv initial (view apply db log.writes).main := by rw [hmain]; exact ⟨hinv.1, hinv.2, hinv.3, hinv.4⟩
        exact ⟨hback.1, hback.2, hback.3, hback.4⟩
      · have hback : OneDispute (view apply db log.writes).main := by rw [hmain]; exact ⟨hone.1, hone.2⟩
        exact ⟨hback.1, hback.2⟩
    · have hmain : (view apply db log.writes).main = view apply db.main (statusWrites change.clientId
          change.findingId old.status change.toStatus change.note (newId tx 0)) := by
        rw [main_view, hwrites]
      refine ⟨?_, fun hone => iff_of_true ?_ htrue⟩
      · have hback : LineInv initial (view apply db log.writes).main := by
          have hinvMain : LineInv initial db.main := ⟨hinv.1, hinv.2, hinv.3, hinv.4⟩
          rw [hmain]
          exact hinvMain.status
        exact ⟨hback.1, hback.2, hback.3, hback.4⟩
      · have hback : OneDispute (view apply db log.writes).main := by
          rw [hmain]
          exact ⟨hone.1, hone.2⟩
        exact ⟨hback.1, hback.2⟩
  | none =>
    cases call with
    | createDisputeFromFindings input =>
      simp only [disputesSystem, DisputeCall.body, ends_bind, ends_pure] at hends
      obtain ⟨created, _, hends, -, rfl⟩ := hends
      obtain ⟨run⟩ := createDispute_ends hends (fun p hp => ⟨(hseen p hp).1.findings, (hseen p hp).2⟩) hinv.findings
      exact ⟨hinv.creation run, fun hone => run.keepsOneDispute_iff hinv hone log⟩
    | applyFindingAction clientId findingId action note actorUserId => cases hcall
    | patchFindingStatus clientId findingId status note actorUserId => cases hcall
    | _ =>
      have hws := onDispute_writes hends trivial
      exact ⟨hinv.onDispute hws, fun hone => iff_of_true (hone.onDispute hws) trivial⟩

end

/-! ## Every interleaving -/

section

variable (D : Type) [Decimal D] (sha256 : String → ℕ) (toISOString : ℤ → String)
  (initial : KeyedTable VarianceFinding VarianceFinding.id)

theorem lines_outline :
    Outline (disputesSystem sha256 D toISOString) (LineInv initial) Since (fun _ _ _ => True) :=
  disputes_outline fun _ _ _ _ _ _ h => (oneDispute_commit h).1

/-- No finding is ever on the lines of two disputes, and all disputes claim their lines, along exactly
the runs in which no creation claims a finding that was accepted while it stood on a line. -/
theorem oneDispute_iff (next now : ℕ) (events : List (Event DisputeCall)) :
    Runs.AllStates (step (disputesSystem sha256 D toISOString)) (fun w => OneDispute w.db)
        (World.initial (DisputeDb.initial initial) next now) events ↔
      Runs.AllSteps (step (disputesSystem sha256 D toISOString)) (CommitsMeet NoneReaccepted)
        (World.initial (DisputeDb.initial initial) next now) events :=
  (lines_outline D sha256 toISOString initial).allStates_iff OneDispute NoneReaccepted
    (fun _ _ _ _ _ _ h hone => (oneDispute_commit h).2 hone) (lineInv_initial initial) (oneDispute_initial initial)
    next now events

end

def createFrom (findingIds : List ℕ) : DisputeCall := .createDisputeFromFindings ⟨1, findingIds, none⟩

/-- One call after the other: accepted, claimed, accepted again, claimed again. -/
theorem acceptedAgain_twoDisputes :
    ¬ Runs.AllStates (step (disputesSystem textNumber Ref toString)) (fun w => OneDispute w.db)
      (World.initial (DisputeDb.initial oneFinding) 1 0)
      [.begin (analystAction .accept), .exec 1, .exec 1, .exec 1, .commit 1,
        .begin (createFrom [7]), .exec 2, .exec 2, .exec 2, .exec 2, .exec 2, .exec 2, .exec 2, .exec 2, .commit 2,
        .begin (analystAction .accept), .exec 3, .exec 3, .exec 3, .commit 3,
        .begin (createFrom [7]), .exec 4, .exec 4, .exec 4, .exec 4, .exec 4, .exec 4, .exec 4, .exec 4,
        .commit 4] := by
  decide +kernel

end Disputes
