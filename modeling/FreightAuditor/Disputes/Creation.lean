import FreightAuditor.Disputes.FindingWrites

/- What the creation of a dispute has done when it commits.

   The findings it claims are those it was asked for that are no undercharges. It has held
   their rows since it read them, so that at the commit they still are as it found them:
   accepted, in one currency, with amounts that add up to what the dispute claims. -/
namespace Disputes

open Claims (Amount VarianceStatus amountColumn)
open DecimalJs PgNumeric ReadCommitted

/-- Without its status. -/
def VarianceFinding.unset (f : VarianceFinding) : VarianceFinding := { f with status := .open }

/-- The findings are those of `initial`, in whatever status. -/
def FindingsOf (initial : KeyedTable VarianceFinding VarianceFinding.id) (db : DisputeDb) : Prop :=
  ∀ id, (db.finding id).map VarianceFinding.unset = (initial.find? id).map VarianceFinding.unset

/-- The line of a finding, and its new status. -/
def included (tx clientId disputeId : ℕ) (entry : VarianceFinding × ℕ) : List DisputeWrite :=
  .insertDisputeLine ⟨clientId, disputeId, some entry.1.id, entry.1.varianceAmount, entry.1.currency⟩ ::
    statusWrites clientId entry.1.id entry.1.status .queued_for_dispute (some "Included in dispute creation")
      (newId tx entry.2)

/-- A creation at its commit, over the committed rows `db`. -/
structure Creation (db : DisputeDb) (tx : ℕ) (input : CreateDisputeInput) (ws : List DisputeWrite) where
  claimed : List VarianceFinding
  carrierId : ℕ
  currency : String
  amount : Amount
  nodup : (claimed.map VarianceFinding.id).Nodup
  present : ∀ f ∈ claimed, findFinding db input.clientId f.id = some f
  asked : ∀ id, id ∈ claimed.map VarianceFinding.id ↔ id ∈ input.findingIds ∧
    ∃ f, findFinding db input.clientId id = some f ∧ f.direction ≠ some .UNDERCHARGE
  accepted : ∀ f ∈ claimed, f.status = .accepted
  oneCurrency : ∀ f ∈ claimed, f.currency = some currency
  amounts : ∀ f ∈ claimed, f.varianceAmount.isSome
  total : PgNumeric.total (claimed.filterMap VarianceFinding.varianceAmount) = amount.units
  fresh : ∀ d ∈ db.disputes, d.id ≠ newId tx 0
  writes : mainWrites ws =
    .insertDispute ⟨newId tx 0, input.clientId, some carrierId, .draft, some amount, none, some currency⟩ ::
      (claimed.zipIdx 1).flatMap (included tx input.clientId (newId tx 0))

section

variable {D : Type} [Decimal D] {sha256 : String → ℕ} {tx startedAt : ℕ}
  {log log' : Log DisputeDb DisputeWrite LockKey} {db db' : DisputeDb}
  {initial : KeyedTable VarianceFinding VarianceFinding.id}

theorem findFinding_eq (clientId findingId : ℕ) :
    findFinding db clientId findingId = (db.finding findingId).filter fun f => f.accountId == clientId := rfl

theorem findFinding_id {clientId findingId : ℕ} {f : VarianceFinding}
    (h : findFinding db clientId findingId = some f) : f.id = findingId := by
  rw [findFinding_eq, Option.filter_eq_some_iff] at h
  exact (KeyedTable.find?_sound h.1).2

/-- Which findings there are, and whose, never changes. -/
theorem FindingsOf.isSome_eq (h : FindingsOf initial db) (h' : FindingsOf initial db') (clientId findingId : ℕ) :
    (findFinding db clientId findingId).isSome = (findFinding db' clientId findingId).isSome := by
  have hunset := (h findingId).trans (h' findingId).symm
  rw [findFinding_eq, findFinding_eq]
  cases hf : db.finding findingId with
  | none =>
    rw [hf] at hunset
    rw [Option.map_eq_none_iff.mp hunset.symm]
  | some f =>
    rw [hf] at hunset
    obtain ⟨f', hf', heq⟩ := Option.map_eq_some_iff.mp hunset.symm
    have hacc : f'.accountId = f.accountId := congrArg (·.accountId) heq
    rw [hf', Option.filter_some, Option.filter_some, hacc]
    split <;> rfl

/-! ## The rows asked for -/

/-- The rows of these ids. -/
def rowsOf (db : DisputeDb) (clientId : ℕ) (ids : List ℕ) : List VarianceFinding :=
  ids.filterMap (findFinding db clientId)

def claimable (rows : List VarianceFinding) : List VarianceFinding :=
  rows.filter fun f => f.direction ≠ some .UNDERCHARGE

@[simp] theorem mem_claimable {rows : List VarianceFinding} {f : VarianceFinding} :
    f ∈ claimable rows ↔ f ∈ rows ∧ f.direction ≠ some .UNDERCHARGE := by
  simp [claimable]

section rows

variable {clientId : ℕ} {ids : List ℕ}

theorem mem_rowsOf {f : VarianceFinding} :
    f ∈ rowsOf db clientId ids ↔ f.id ∈ ids ∧ findFinding db clientId f.id = some f := by
  rw [rowsOf, List.mem_filterMap]
  constructor
  · rintro ⟨id, hid, hfound⟩
    rw [findFinding_id hfound]
    exact ⟨hid, hfound⟩
  · exact fun h => ⟨f.id, h⟩

theorem rowsOf_inj {f g : VarianceFinding} (hf : f ∈ rowsOf db clientId ids) (hg : g ∈ rowsOf db clientId ids)
    (hid : f.id = g.id) : f = g := by
  have hf := (mem_rowsOf.mp hf).2
  rw [hid, (mem_rowsOf.mp hg).2] at hf
  exact (Option.some.inj hf).symm

theorem claimable_nodup (hids : ids.Nodup) :
    ((claimable (rowsOf db clientId ids)).map VarianceFinding.id).Nodup := by
  have hrows : (rowsOf db clientId ids).Nodup := by
    refine hids.filterMap fun a b f ha hb => ?_
    exact (findFinding_id ha).symm.trans (findFinding_id hb)
  refine (hrows.filter _).map_on fun f hf g hg => ?_
  exact rowsOf_inj (mem_claimable.mp hf).1 (mem_claimable.mp hg).1

/-- The rows whose ids are those of the claimable ones. -/
theorem claimable_entries :
    (rowsOf db clientId ids).filter (·.id ∈ (claimable (rowsOf db clientId ids)).map VarianceFinding.id) =
      claimable (rowsOf db clientId ids) := by
  refine List.filter_congr fun f hf => ?_
  rw [decide_eq_decide, List.mem_map]
  constructor
  · rintro ⟨g, hg, hid⟩
    rw [mem_claimable] at hg
    rw [← rowsOf_inj hg.1 hf hid]
    exact hg.2
  · exact fun hdir => ⟨f, mem_claimable.mpr ⟨hf, hdir⟩, rfl⟩

theorem mem_claimable_ids {id : ℕ} :
    id ∈ (claimable (rowsOf db clientId ids)).map VarianceFinding.id ↔
      id ∈ ids ∧ ∃ f, findFinding db clientId id = some f ∧ f.direction ≠ some .UNDERCHARGE := by
  simp only [List.mem_map, mem_claimable, mem_rowsOf]
  constructor
  · rintro ⟨f, ⟨⟨hid, hfound⟩, hdir⟩, rfl⟩
    exact ⟨hid, f, hfound, hdir⟩
  · rintro ⟨hid, f, hfound, hdir⟩
    have hf : f.id = id := findFinding_id hfound
    exact ⟨f, ⟨⟨hf ▸ hid, hf.symm ▸ hfound⟩, hdir⟩, hf⟩

end rows

/-! ## The locked rows -/

theorem lockFindings_ends {clientId : ℕ} {ids : List ℕ}
    (h : Ends apply (ids.forM (lockFinding clientId)) .empty ⟨⟩ log) (hseen : ∀ p ∈ log.seen, FindingsOf initial p.1)
    (hdb : FindingsOf initial db) :
    log.writes = [] ∧
      ∀ id ∈ ids, (findFinding db clientId id).isSome → .varianceFinding id ∈ log.held := by
  refine Ends.forM (P := fun done log => log.writes = [] ∧
    ∀ id ∈ done, (findFinding db clientId id).isSome → .varianceFinding id ∈ log.held)
    (fun done a _ log log' hP ha hQ => ?_) ⟨rfl, by simp⟩ h hseen
  rw [lockFinding, ends_exec] at ha
  obtain ⟨snapshot, ws, hws, rfl⟩ := ha
  obtain ⟨-, rfl⟩ := Prod.mk.inj (Except.ok.inj hws)
  rw [hP.1, view_nil] at hQ ⊢
  have hsnapshot : FindingsOf initial snapshot := hQ _ (List.mem_append_right _ (List.mem_singleton_self _))
  refine ⟨by simp [Log.add, hP.1], fun id hid hfound => ?_⟩
  rcases List.mem_append.mp hid with hid | hid
  · exact List.mem_append_left _ (hP.2 id hid hfound)
  · obtain rfl := List.mem_singleton.mp hid
    rw [← hsnapshot.isSome_eq hdb clientId id] at hfound
    exact List.mem_append_right _ (by simp [hfound])

/-- The rows read, with their locks. -/
theorem selectFindings_ends {clientId : ℕ} {ids : List ℕ} {rows : List VarianceFinding}
    (h : Ends apply (selectFindings clientId ids) .empty rows log)
    (hseen : ∀ p ∈ log.seen, FindingsOf initial p.1 ∧ Since p.2 p.1 db) (hdb : FindingsOf initial db) :
    log.writes = [] ∧ rows = rowsOf db clientId ids ∧
      ∀ f ∈ rows, .varianceFinding f.id ∈ log.held := by
  rw [selectFindings, ends_bind] at h
  obtain ⟨⟨⟩, mid, hlock, hquery⟩ := h
  obtain ⟨hwrites, hheld⟩ := lockFindings_ends hlock
    (fun p hp => (hseen p (hquery.extends.seen.subset hp)).1) hdb
  obtain ⟨snapshot, rfl, rfl⟩ := hquery
  rw [hwrites, view_nil]
  obtain ⟨hof, hsince⟩ := hseen (snapshot, mid.held) (by simp [Log.add])
  have hsame : ∀ id ∈ ids, findFinding snapshot clientId id = findFinding db clientId id := by
    intro id hid
    by_cases hfound : (findFinding db clientId id).isSome
    · have hrow : db.finding id = snapshot.finding id := hsince.same (.varianceFinding id) (hheld id hid hfound)
      rw [findFinding_eq, findFinding_eq, hrow]
    · have hnone := Option.not_isSome_iff_eq_none.mp hfound
      rw [← hof.isSome_eq hdb clientId id] at hfound
      rw [hnone, Option.not_isSome_iff_eq_none.mp hfound]
  refine ⟨by simp [Log.add, hwrites], List.filterMap_congr hsame, fun f hf => ?_⟩
  obtain ⟨id, hid, hfound⟩ := List.mem_filterMap.mp hf
  rw [hsame id hid] at hfound
  rw [findFinding_id hfound]
  exact List.mem_append_left _ (hheld id hid (by rw [hfound]; rfl))

theorem insertDispute_ends {id clientId r : ℕ} {v : ValidatedDispute}
    (h : Ends apply (insertDispute id clientId v) log r log') :
    ∃ snapshot amount, r = id ∧ ofText 18 4 v.amountClaimed = some amount ∧
      (∀ d ∈ (view apply snapshot log.writes).disputes, d.id ≠ id) ∧
      log' = log.add snapshot [.dispute id]
        [.insertDispute ⟨id, clientId, some v.carrierId, .draft, some amount, none, some v.currency⟩] := by
  rw [insertDispute, ends_exec] at h
  obtain ⟨snapshot, ws, hf, rfl⟩ := h
  simp only [ExceptOk.bind_eq_ok, ExceptOk.throw_bind, ExceptOk.ite_throw_eq_ok, ExceptOk.pure_eq_ok,
    Prod.mk.injEq] at hf
  obtain ⟨amount, hamount, -, hfresh, rfl, rfl⟩ := hf
  refine ⟨snapshot, amount, rfl, ?_, fun d hd hid => hfresh ?_, rfl⟩
  · unfold amountColumn at hamount
    split at hamount
    · rename_i n hn
      rw [hn]
      exact congrArg some (Except.ok.inj hamount)
    · cases hamount
  · exact List.any_eq_true.mpr ⟨d, hd, by simpa using hid⟩

/-! ## The lines -/

/-- Writes of the lines of other findings do not touch a finding. -/
theorem finding_view_other {id : ℕ} {ws : List DisputeWrite} (h : .varianceFinding id ∉ ws.flatMap DisputeWrite.locks) :
    (view apply db ws).finding id = db.finding id :=
  disputes_parts.same_view (k := .varianceFinding id) fun w hw db =>
    guarded_locks w _ (fun hk => h (List.mem_flatMap.mpr ⟨w, hw, hk⟩)) db

theorem finding_lock_main {id : ℕ} {ws : List DisputeWrite} (h : .varianceFinding id ∈ ws.flatMap DisputeWrite.locks) :
    .varianceFinding id ∈ (mainWrites ws).flatMap DisputeWrite.locks := by
  obtain ⟨w, hw, hk⟩ := List.mem_flatMap.mp h
  refine List.mem_flatMap.mpr ⟨w, mem_mainWrites.mpr ⟨hw, ?_⟩, hk⟩
  cases w with
  | insertAuditEvent row => simp [DisputeWrite.locks] at hk
  | _ => rfl

theorem includeFindings_ends {clientId disputeId : ℕ} {actor : Option ℕ} {entries : List (VarianceFinding × ℕ)}
    {row : Dispute} (hnodup : (entries.map fun e => e.1.id).Nodup)
    (hrow : ∀ e ∈ entries, findFinding db clientId e.1.id = some e.1 ∧ .varianceFinding e.1.id ∈ log.held)
    (hlog : mainWrites log.writes = [.insertDispute row])
    (h : Ends apply (entries.forM (includeFinding sha256 tx startedAt clientId disputeId actor)) log ⟨⟩ log')
    (hseen : ∀ p ∈ log'.seen, Since p.2 p.1 db) :
    mainWrites log'.writes = .insertDispute row :: entries.flatMap (included tx clientId disputeId) := by
  have hloop := Ends.forM_split (P := fun done log₁ => log.held ⊆ log₁.held ∧
    mainWrites log₁.writes = .insertDispute row :: done.flatMap (included tx clientId disputeId))
    (Q := fun p => Since p.2 p.1 db) (fun done entry todo hsplit log₁ log₂ hP hentry hQ => ?_)
    ⟨fun _ hk => hk, hlog⟩ h hseen
  · exact hloop.2
  obtain ⟨hheld, hwrites⟩ := hP
  have hmem : entry ∈ entries := hsplit ▸ by simp
  obtain ⟨hpresent, hlock⟩ := hrow entry hmem
  rw [includeFinding, ends_bind] at hentry
  obtain ⟨⟨⟩, mid, hline, hupdate⟩ := hentry
  rw [insertDisputeLine, ends_exec] at hline
  obtain ⟨db₁, ws, hws, rfl⟩ := hline
  simp only [ExceptOk.ite_throw_eq_ok, ExceptOk.pure_eq_ok, ExceptOk.throw_bind, Prod.mk.injEq] at hws
  obtain ⟨-, -, rfl⟩ := hws
  simp only [ends_bind, ends_pure] at hupdate
  obtain ⟨found, _, hupdate, -, rfl⟩ := hupdate
  obtain ⟨snapshot, rest, hseen₂, hheld₂, hcase⟩ := updateFindingStatus_ends hupdate
  have hsince : Since (log₁.held ++ []) snapshot db := hQ (snapshot, _) (by rw [hseen₂]; simp [Log.add])
  have hfinding : db.finding entry.1.id = snapshot.finding entry.1.id :=
    hsince.same (.varianceFinding entry.1.id) (List.mem_append_left _ (hheld hlock))
  -- the writes so far are on other findings
  have hother : .varianceFinding entry.1.id ∉
      (log₁.writes ++ [DisputeWrite.insertDisputeLine
        ⟨clientId, disputeId, some entry.1.id, entry.1.varianceAmount, entry.1.currency⟩]).flatMap
        DisputeWrite.locks := by
    intro hk
    have hmain := finding_lock_main hk
    rw [mainWrites_append, hwrites, List.flatMap_append, List.mem_append] at hmain
    have hline : .varianceFinding entry.1.id ∉ (mainWrites [DisputeWrite.insertDisputeLine
        ⟨clientId, disputeId, some entry.1.id, entry.1.varianceAmount, entry.1.currency⟩]).flatMap
        DisputeWrite.locks := by simp [mainWrites, DisputeWrite.isAudit, DisputeWrite.locks]
    have hmain := hmain.resolve_right hline
    rw [List.flatMap_cons, List.mem_append] at hmain
    have hmain := hmain.resolve_left (by simp [DisputeWrite.locks])
    obtain ⟨w, hw, hk⟩ := List.mem_flatMap.mp hmain
    obtain ⟨other, hotherMem, hw⟩ := List.mem_flatMap.mp hw
    have hid : entry.1.id = other.1.id := by
      simp only [included, statusWrites, List.mem_cons, List.not_mem_nil, or_false] at hw
      rcases hw with rfl | rfl | rfl
      · simp [DisputeWrite.locks] at hk
      · simpa [DisputeWrite.locks] using hk
      · simp [DisputeWrite.locks] at hk
    rw [← hsplit, List.map_append, List.map_cons, List.nodup_append] at hnodup
    exact hnodup.2.2 _ (List.mem_map_of_mem hotherMem) _ List.mem_cons_self hid.symm
  have hfound : findFinding (view apply snapshot (log₁.add db₁ [] [DisputeWrite.insertDisputeLine
      ⟨clientId, disputeId, some entry.1.id, entry.1.varianceAmount, entry.1.currency⟩]).writes) clientId
      entry.1.id = some entry.1 := by
    rw [findFinding_eq, Log.add, finding_view_other hother, ← hfinding, ← findFinding_eq]
    exact hpresent
  obtain ⟨hnone, -⟩ | ⟨old, hold, hmain⟩ := hcase
  · rw [hfound] at hnone
    cases hnone
  · obtain rfl := Option.some.inj (hfound.symm.trans hold)
    refine ⟨fun k hk => hheld₂ (by simp [Log.add, hheld hk]), ?_⟩
    rw [hmain, Log.add, mainWrites_append, hwrites, List.flatMap_append]
    simp [mainWrites, DisputeWrite.isAudit, included]

/-! ## The whole -/

/-- The amounts of claimed findings as validated. -/
theorem disputable_total {rows : List VarianceFinding} {v : ValidatedDispute} {amount : Amount}
    (h : Disputable D (rows.map VarianceFinding.row) v) (hamount : ofText 18 4 v.amountClaimed = some amount) :
    total ((claimable rows).filterMap VarianceFinding.varianceAmount) = amount.units := by
  obtain ⟨sum, hsum, htext⟩ := h.amountClaimed
  have hrows : ((rows.map VarianceFinding.row).filter fun r => r.direction ≠ some .UNDERCHARGE).filterMap
      DisputableFindingRow.varianceAmount =
      ((claimable rows).filterMap VarianceFinding.varianceAmount).map Numeric.text := by
    rw [claimable, List.filter_map, List.filterMap_map, List.map_filterMap]
    rfl
  rw [hrows] at hsum
  obtain ⟨ns, hns⟩ : ∃ ns, (claimable rows).filterMap VarianceFinding.varianceAmount = ns := ⟨_, rfl⟩
  have hsign : ∀ n ∈ ns, 0 ≤ n.units := by
    intro n hn
    rw [← hns] at hn
    obtain ⟨f, hf, hfn⟩ := List.mem_filterMap.mp hn
    exact f.sign (mem_claimable.mp hf).2 n hfn
  rw [hns] at hsum ⊢
  -- the fold over texts is the fold over the decimals they denote
  have hfold : ∀ (ns : List Amount) (x : D), (ns.map Numeric.text).foldlM (plusAmount D) x = .ok sum →
      ∃ ds : List D, List.Forall₂ (fun d n => Exactly 4 d n.units) ds ns ∧ ds.foldl Decimal.plus x = sum := by
    intro ns
    induction ns with
    | nil => exact fun x hx => ⟨[], .nil, Except.ok.inj hx⟩
    | cons n ns ih =>
      intro x hx
      obtain ⟨d, hd, hexact⟩ := newDecimal_exactly (D := D) (s := 4) (by decide) (readsAs_text n)
        (lt_trans n.inRange (by decide))
      simp only [List.map_cons, List.foldlM_cons, plusAmount, hd, Except.mapError, ExceptOk.ok_bind] at hx
      obtain ⟨ds, hds, hsum⟩ := ih _ hx
      exact ⟨d :: ds, .cons hexact hds, hsum⟩
  obtain ⟨ds, hds, rfl⟩ := hfold ns _ hsum
  have hover := exactlyOrOver_foldl (p := 18) (by decide) (by decide) hds hsign
    (x := Decimal.ofNumber (.ofNat 0)) (.inl exactly_zero) le_rfl
  rw [htext] at hamount
  rw [hover.stored hamount, zero_add]

theorem createDispute_ends {input : CreateDisputeInput} {r : ℕ × ValidatedDispute}
    (h : Ends apply (createDisputeFromFindings sha256 D tx startedAt input) .empty r log)
    (hseen : ∀ p ∈ log.seen, FindingsOf initial p.1 ∧ Since p.2 p.1 db) (hdb : FindingsOf initial db) :
    Nonempty (Creation db tx input log.writes) := by
  rw [createDisputeFromFindings] at h
  split at h
  · exact h.elim
  simp only [ends_bind, ends_ofExcept] at h
  obtain ⟨rows, _, hselect, v, log₁, ⟨hv, rfl⟩, disputeId, log₂, hinsert, ⟨⟩, log₃, hlines, _, log₄, haudit, -, hlog⟩ := h
  rw [hlog] at hseen ⊢
  have hsub₃ : ∀ p ∈ log₃.seen, p ∈ log₄.seen := fun p hp => haudit.extends.seen.subset hp
  have hsub₂ : ∀ p ∈ log₂.seen, p ∈ log₄.seen := fun p hp => hsub₃ p (hlines.extends.seen.subset hp)
  obtain ⟨hempty, hrows, hheld⟩ := selectFindings_ends hselect
    (fun p hp => hseen p (hsub₂ p (hinsert.extends.seen.subset hp))) hdb
  have hvalid := validateDisputableFindings_ok hv
  obtain ⟨snapshot, amount, rfl, hamount, hfresh, rfl⟩ := insertDispute_ends hinsert
  rw [hempty, view_nil] at hfresh
  obtain ⟨claimed, hclaimed⟩ : ∃ claimed, claimable (rowsOf db input.clientId input.sortedIds) = claimed := ⟨_, rfl⟩
  have hids : ∀ id, id ∈ input.sortedIds ↔ id ∈ input.findingIds := fun id =>
    (List.mem_insertionSort _).trans List.mem_dedup
  have hmem : ∀ f ∈ claimed, f ∈ rows ∧ f.direction ≠ some .UNDERCHARGE := fun f hf => by
    rw [← hclaimed, mem_claimable] at hf
    exact ⟨hrows ▸ hf.1, hf.2⟩
  have hpresent : ∀ f ∈ claimed, findFinding db input.clientId f.id = some f := fun f hf =>
    (mem_rowsOf.mp (hrows ▸ (hmem f hf).1)).2
  have hnodup : (claimed.map VarianceFinding.id).Nodup := by
    rw [← hclaimed]
    exact claimable_nodup ((List.perm_insertionSort _ _).nodup_iff.mpr (List.nodup_dedup _))
  have hentries : rows.filter (·.id ∈ v.findingIds) = claimed := by
    have hfindingIds : v.findingIds = claimed.map VarianceFinding.id := by
      rw [hvalid.findingIds, List.filter_map, List.map_map, ← hclaimed, hrows]
      rfl
    rw [hfindingIds, hrows, ← hclaimed]
    exact claimable_entries
  have hrow : ∀ f ∈ claimed, f.row ∈ rows.map VarianceFinding.row ∧ f.row.direction ≠ some .UNDERCHARGE :=
    fun f hf => ⟨List.mem_map_of_mem (hmem f hf).1, (hmem f hf).2⟩
  have hmapped : (claimed.zipIdx 1).map (fun e => e.1.id) = claimed.map VarianceFinding.id := by
    calc (claimed.zipIdx 1).map (fun e => e.1.id)
        = ((claimed.zipIdx 1).map Prod.fst).map VarianceFinding.id := by rw [List.map_map]; rfl
      _ = claimed.map VarianceFinding.id := by rw [List.zipIdx_map_fst]
  have hlog₂ : mainWrites (log₁.add snapshot [.dispute (newId tx 0)] [.insertDispute ⟨newId tx 0, input.clientId,
      some v.carrierId, .draft, some amount, none, some v.currency⟩]).writes = [.insertDispute ⟨newId tx 0,
        input.clientId, some v.carrierId, .draft, some amount, none, some v.currency⟩] := by
    simp [Log.add, hempty, mainWrites, DisputeWrite.isAudit]
  rw [hentries] at hlines
  have hwritten := includeFindings_ends (hmapped ▸ hnodup)
    (fun e he => ⟨hpresent e.1 (List.fst_mem_of_mem_zipIdx he),
      List.mem_append_left _ (hheld e.1 (hmem e.1 (List.fst_mem_of_mem_zipIdx he)).1)⟩)
    hlog₂ hlines (fun p hp => (hseen p (hsub₃ p hp)).2)
  exact ⟨{
    claimed := claimed
    carrierId := v.carrierId
    currency := v.currency
    amount := amount
    nodup := hnodup
    present := hpresent
    asked := fun id => by rw [← hids, ← hclaimed, mem_claimable_ids]
    accepted := fun f hf => hvalid.accepted _ (hrow f hf).1 (hrow f hf).2
    oneCurrency := fun f hf => hvalid.currency _ (hrow f hf).1 (hrow f hf).2
    amounts := fun f hf => by
      have hamount := hvalid.amount _ (hrow f hf).1 (hrow f hf).2
      simpa [VarianceFinding.row] using hamount
    total := by
      rw [← hclaimed, ← hrows]
      exact disputable_total hvalid hamount
    fresh := fun d hd hid => by
      have hsince := (hseen (snapshot, log₁.held ++ [.dispute (newId tx 0)]) (hsub₂ _ (by simp [Log.add]))).2
      have hsame := hsince.same (.dispute (newId tx 0)) (by simp)
      have hmem : d ∈ db.disputes.filter (·.id = newId tx 0) := List.mem_filter.mpr ⟨hd, by simpa using hid⟩
      rw [hsame] at hmem
      obtain ⟨hmem, hid⟩ := List.mem_filter.mp hmem
      exact hfresh d hmem (by simpa using hid)
    writes := (writeAuditEvent_main haudit).1.trans hwritten }⟩

end

end Disputes
