import FreightAuditor.Library.DecimalRef
import FreightAuditor.Claims.Interference

/- No claim is recovered beyond its amount — as long as nobody else recovers on it between
   a transaction's reading of the prior total and its commit.

   `validatePartialRecovery` and `validateClaimResolution` compare with the total they
   read; no lock keeps that total from growing before the commit. `noOverRecovery_allStates`
   is the guarantee over every interleaving under that condition, and
   `concurrentRecoveries_exceed` an interleaving without it. -/
namespace Claims

open DecimalJs PgNumeric ReadCommitted

/-- The keys of the tables: claims have distinct ids, and a recovery names a claim there is. -/
structure WellFormed (db : Db) : Prop where
  claimPkey : (db.claims.map Claim.id).Nodup
  recoveryClaim : ∀ r ∈ db.recoveryEvents, ∀ id, r.claimId = some id → ∃ c ∈ db.claims, c.id = id

/-- The recovered total of every claim is at most the amount claimed. -/
def NoOverRecovery (db : Db) : Prop :=
  ∀ c ∈ db.claims, recoveredTotal db c.accountId c.id ≤ c.amountClaimed.units

/-- The recovery a write inserts. -/
def Write.recovery? : Write → Option RecoveryEvent
  | .insertRecoveryEvent row => some row
  | _ => none

theorem Write.recovery?_eq {w : Write} {row : RecoveryEvent} (h : w.recovery? = some row) :
    w = .insertRecoveryEvent row := by
  cases w <;> cases h
  rfl

/-- A commit that inserts a recovery finds the claim's total as its second statement read it. -/
def PriorTotalCurrent (db : Db) (_ : Call) (log : Log Db Write LockKey) : Prop :=
  ∀ row, .insertRecoveryEvent row ∈ log.writes → ∀ claimId, row.claimId = some claimId →
    ∀ s, log.seen[1]? = some s →
      recoveredTotal s.1 row.accountId claimId = recoveredTotal db row.accountId claimId

instance (db : Db) : Decidable (NoOverRecovery db) :=
  inferInstanceAs (Decidable (∀ c ∈ db.claims, _))

instance (db : Db) (call : Call) (log : Log Db Write LockKey) : Decidable (PriorTotalCurrent db call log) :=
  decidable_of_iff (∀ w ∈ log.writes, ∀ row ∈ Write.recovery? w, ∀ claimId ∈ row.claimId, ∀ s ∈ log.seen[1]?,
      recoveredTotal s.1 row.accountId claimId = recoveredTotal db row.accountId claimId)
    ⟨fun h row hrow claimId hid s hs => h _ hrow row rfl claimId hid s hs,
      fun h _ hw row hrow claimId hid s hs => h row (Write.recovery?_eq hrow ▸ hw) claimId hid s hs⟩

/-! ## Totals after a commit -/

theorem eq_of_id {db : Db} (h : WellFormed db) {c c' : Claim} (hc : c ∈ db.claims) (hc' : c' ∈ db.claims)
    (hid : c.id = c'.id) : c = c' :=
  List.inj_on_of_nodup_map h.claimPkey hc hc' hid

theorem recoveredTotal_congr {db db' : Db} (h : db'.recoveryEvents = db.recoveryEvents) (accountId claimId : ℕ) :
    recoveredTotal db' accountId claimId = recoveredTotal db accountId claimId := by
  simp only [recoveredTotal, recoveriesOf, h]

/-- Nothing has been recovered on a claim that does not exist. -/
theorem recoveredTotal_absent {db : Db} (hwf : WellFormed db) {accountId claimId : ℕ}
    (h : ∀ c ∈ db.claims, c.id ≠ claimId) : recoveredTotal db accountId claimId = 0 := by
  rw [recoveredTotal, recoveriesOf, List.filter_eq_nil_iff.mpr (fun r hr => ?_)]
  · rfl
  · simp only [Bool.and_eq_true, beq_iff_eq]
    rintro ⟨-, hid⟩
    obtain ⟨c, hc, hcid⟩ := hwf.recoveryClaim r hr claimId hid
    exact h c hc hcid

/-- New recoveries of one claim add to its total and to no other. -/
theorem recoveredTotal_append {db db' : Db} {rows : List RecoveryEvent} {accountId claimId : ℕ}
    (hdb : db'.recoveryEvents = db.recoveryEvents ++ rows)
    (hrows : ∀ r ∈ rows, r.accountId = accountId ∧ r.claimId = some claimId) (a id : ℕ) :
    recoveredTotal db' a id = recoveredTotal db a id +
      if a = accountId ∧ id = claimId then total (rows.map RecoveryEvent.amountRecovered) else 0 := by
  simp only [recoveredTotal, recoveriesOf, hdb, List.filter_append, List.map_append, total_append]
  congr 1
  split
  · rename_i h
    obtain ⟨rfl, rfl⟩ := h
    rw [List.filter_eq_self.mpr (fun r hr => by simp [hrows r hr])]
  · rename_i h
    rw [List.filter_eq_nil_iff.mpr (fun r hr => ?_)]
    · rfl
    · obtain ⟨h1, h2⟩ := hrows r hr
      simp only [h1, h2, Bool.and_eq_true, beq_iff_eq, Option.some.injEq]
      exact fun hc => h ⟨hc.1.symm, hc.2.symm⟩

/-- A claim found by its key. -/
theorem findClaim_some {db : Db} {accountId claimId : ℕ} {c : Claim} (h : findClaim db accountId claimId = some c) :
    c ∈ db.claims ∧ c.accountId = accountId ∧ c.id = claimId := by
  have hc := List.find?_some h
  simp only [Bool.and_eq_true, beq_iff_eq] at hc
  exact ⟨List.mem_of_find?_eq_some h, hc⟩

section commit

variable {D : Type} [Decimal D] {sha256 : String → ℕ} {tx startedAt : ℕ} {log : Log Db Write LockKey}
  {db : Db} {call : Call} {r : Result} {Good : Db → Prop}

/-- The claim a transaction found is still there when it commits. -/
theorem claim_at_commit (hseen : ∀ p ∈ log.seen, Good p.1 ∧ Since p.2 p.1 db) {claimDb : Db} {i : ℕ}
    (hi : log.seen[i]? = some (claimDb, [])) {accountId claimId : ℕ} {claim : Claim}
    (hfound : findClaim claimDb accountId claimId = some claim) :
    ∃ c ∈ db.claims, c.accountId = accountId ∧ c.id = claimId ∧ c.amountClaimed = claim.amountClaimed := by
  obtain ⟨hmem, hacc, hid⟩ := findClaim_some hfound
  obtain ⟨c, hc, hcont⟩ := (hseen _ (List.mem_of_getElem? hi)).2.claims claim hmem
  exact ⟨c, hc, hcont.accountId.trans hacc, hcont.id.trans hid, hcont.amountClaimed⟩

/-- No committed claim has the id of the one being inserted. -/
theorem CreateClaimRun.fresh_at_commit {input : CreateClaimInput} (run : CreateClaimRun tx input log)
    (hseen : ∀ p ∈ log.seen, Since p.2 p.1 db) : ∀ c ∈ db.claims, c.id ≠ tx := by
  intro c hc hid
  obtain ⟨c', hc', hid'⟩ := (hseen _ (List.mem_of_getElem? run.seen_insert)).claimPkey tx run.holds.2 c hc hid
  exact run.fresh c' hc' hid'

theorem updateStatus_ids (claims : List Claim) (accountId claimId : ℕ) (status : ClaimStatus) :
    (claims.map (Claim.updateStatus accountId claimId status)).map Claim.id = claims.map Claim.id := by
  rw [List.map_map]
  refine List.map_congr_left (fun c _ => ?_)
  simp only [Function.comp_apply, Claim.updateStatus]
  split <;> rfl

/-- A commit keeps the keys. -/
theorem wellFormed_commit (h : Commit (claimsSystem D sha256) Good Since db call tx startedAt r log)
    (hwf : WellFormed db) : WellFormed (view Claims.apply db log.writes) := by
  obtain ⟨-, hends, hseen⟩ := h
  cases finished hends with
  | nothing hnone => rwa [hnone, view_nil]
  | created run =>
    obtain ⟨hc, hr, -⟩ := run.view db
    refine ⟨?_, fun row hrow id hid => ?_⟩
    · rw [hc, List.map_append, List.nodup_append]
      refine ⟨hwf.claimPkey, by simp, fun a ha b hb => ?_⟩
      obtain ⟨c, hcmem, rfl⟩ := List.mem_map.mp ha
      obtain rfl := List.mem_singleton.mp hb
      exact run.fresh_at_commit (fun p hp => (hseen p hp).2) c hcmem
    · rw [hr] at hrow
      obtain ⟨c, hcmem, hcid⟩ := hwf.recoveryClaim row hrow id hid
      exact ⟨c, hc ▸ List.mem_append_left _ hcmem, hcid⟩
  | recovered run =>
    obtain ⟨hc, hr, -⟩ := run.view db
    obtain ⟨c, hcmem, -, hcid, -⟩ := claim_at_commit hseen run.seen_claim run.found
    refine ⟨hc ▸ hwf.claimPkey, fun row hrow id hid => ?_⟩
    rw [hr] at hrow
    rw [hc]
    rcases List.mem_append.mp hrow with hrow | hrow
    · exact hwf.recoveryClaim row hrow id hid
    · obtain rfl := List.mem_singleton.mp hrow
      exact ⟨c, hcmem, hcid.trans (Option.some.inj hid)⟩
  | resolved run =>
    obtain ⟨hc, hr, -⟩ := run.view db
    obtain ⟨c, hcmem, -, hcid, -⟩ := claim_at_commit hseen run.seen_claim run.found
    refine ⟨by rw [hc, updateStatus_ids]; exact hwf.claimPkey, fun row hrow id hid => ?_⟩
    have hexists : ∃ c ∈ db.claims, c.id = id := by
      rw [hr] at hrow
      rcases List.mem_append.mp hrow with hrow | hrow
      · exact hwf.recoveryClaim row hrow id hid
      · obtain ⟨n, -, rfl⟩ := List.mem_map.mp hrow
        exact ⟨c, hcmem, hcid.trans (Option.some.inj hid)⟩
    obtain ⟨c', hc', rfl⟩ := hexists
    rw [hc]
    exact ⟨_, List.mem_map_of_mem hc', (c'.updateStatus_continues run.outcome.not_open).id⟩

/-- New recoveries that fit keep every claim within its amount. -/
theorem noOverRecovery_rows (hwf : WellFormed db) (hno : NoOverRecovery db) {db' : Db}
    {rows : List RecoveryEvent} {claim : Claim} (hclaim : claim ∈ db.claims)
    (hclaims : ∀ c' ∈ db'.claims, ∃ c ∈ db.claims, c.id = c'.id ∧ c.accountId = c'.accountId ∧
      c.amountClaimed = c'.amountClaimed)
    (hdb : db'.recoveryEvents = db.recoveryEvents ++ rows)
    (hrows : ∀ r ∈ rows, r.accountId = claim.accountId ∧ r.claimId = some claim.id)
    (hfits : rows ≠ [] → recoveredTotal db claim.accountId claim.id +
      total (rows.map RecoveryEvent.amountRecovered) ≤ claim.amountClaimed.units) :
    NoOverRecovery db' := by
  intro c' hc'
  obtain ⟨c, hc, hid, hacc, hamount⟩ := hclaims c' hc'
  rw [recoveredTotal_append hdb hrows, ← hid, ← hacc, ← hamount]
  split
  · rename_i heq
    obtain rfl := eq_of_id hwf hc hclaim heq.2
    by_cases hnil : rows = []
    · rw [hnil, List.map_nil, total_nil, add_zero]
      exact hno c hc
    · exact hfits hnil
  · rw [add_zero]
    exact hno c hc

/-- A commit whose prior total is current keeps every claim within its amount. -/
theorem noOverRecovery_commit (h : Commit (claimsSystem D sha256) Good Since db call tx startedAt r log)
    (hwf : WellFormed db) (hno : NoOverRecovery db) (hg : PriorTotalCurrent db call log) :
    NoOverRecovery (view Claims.apply db log.writes) := by
  obtain ⟨-, hends, hseen⟩ := h
  cases finished hends with
  | nothing hnone => rwa [hnone, view_nil]
  | created run =>
    obtain ⟨hc, hr, -⟩ := run.view db
    intro c hcmem
    rw [recoveredTotal_congr hr]
    rw [hc] at hcmem
    rcases List.mem_append.mp hcmem with hold | hnew
    · exact hno c hold
    · obtain rfl := List.mem_singleton.mp hnew
      have habsent : recoveredTotal db run.row.accountId run.row.id = 0 :=
        recoveredTotal_absent hwf (run.fresh_at_commit fun p hp => (hseen p hp).2)
      rw [habsent]
      exact run.positive.le
  | recovered run =>
    obtain ⟨hc, hr, -⟩ := run.view db
    obtain ⟨c, hcmem, hacc, hid, hamount⟩ := claim_at_commit hseen run.seen_claim run.found
    have hcurrent := hg run.row (by rw [run.writes]; exact List.mem_cons_self) _ rfl _ run.seen_total
    refine noOverRecovery_rows hwf hno hcmem (fun c' hc' => ⟨c', hc ▸ hc', rfl, rfl, rfl⟩) hr
      (fun row hrow => ?_) (fun _ => ?_)
    · obtain rfl := List.mem_singleton.mp hrow
      exact ⟨hacc.symm, by rw [hid]; rfl⟩
    · have hfits := run.fits
      rw [hacc, hid, hamount]
      simp only [PartialRecoveryRun.row] at hcurrent
      simpa [PartialRecoveryRun.row, hcurrent] using hfits
  | @resolved input run =>
    obtain ⟨hc, hr, -⟩ := run.view db
    obtain ⟨c, hcmem, hacc, hid, hamount⟩ := claim_at_commit hseen run.seen_claim run.found
    refine noOverRecovery_rows hwf hno hcmem (fun c' hc' => ?_) hr (fun row hrow => ?_) (fun hrows => ?_)
    · rw [hc] at hc'
      obtain ⟨c₀, hc₀, rfl⟩ := List.mem_map.mp hc'
      have hcont : (c₀.updateStatus input.clientId input.claimId run.newStatus).Continues c₀ :=
        c₀.updateStatus_continues run.outcome.not_open
      exact ⟨c₀, hc₀, hcont.id.symm, hcont.accountId.symm, hcont.amountClaimed.symm⟩
    · obtain ⟨n, -, rfl⟩ := List.mem_map.mp hrow
      exact ⟨hacc.symm, by rw [hid]; rfl⟩
    · obtain ⟨row, hrow⟩ := List.exists_mem_of_ne_nil _ hrows
      obtain ⟨n, hn, rfl⟩ := List.mem_map.mp hrow
      have hcurrent := hg (input.recoveryRow tx run.currency n)
        (by rw [run.writes]; simp [Option.mem_toList.mp hn]) _ rfl _ run.seen_total
      simp only [ResolveClaimInput.recoveryRow] at hcurrent
      have hfits := run.outcome
      rw [Option.mem_toList.mp hn, hcurrent] at hfits
      rw [hacc, hid, hamount, ResolveClaimRun.rows, Option.mem_toList.mp hn]
      simpa [ResolveClaimInput.recoveryRow] using hfits.fits

end commit

/-! ## Every interleaving -/

section

variable (D : Type) [Decimal D] (sha256 : String → ℕ)

theorem recovery_outline : Outline (claimsSystem D sha256) (fun db => WellFormed db ∧ NoOverRecovery db) Since
    PriorTotalCurrent where
  refl := Since.refl
  good := fun _ _ _ _ _ _ h hg =>
    ⟨wellFormed_commit h h.good.1, noOverRecovery_commit h h.good.1 h.good.2 hg⟩
  rely := fun _ _ _ _ _ _ h _ _ hdisjoint hs => since_commit h.ends hdisjoint hs

/-- In every interleaving of claim operations whose commits find the prior total as they read it, no
claim is ever recovered beyond its amount. -/
theorem noOverRecovery_allStates (db : Db) (hwf : WellFormed db) (hno : NoOverRecovery db) (next now : ℕ)
    (events : List (Event Call))
    (hg : Runs.AllSteps (step (claimsSystem D sha256)) (CommitsMeet PriorTotalCurrent)
      (World.initial db next now) events) :
    Runs.AllStates (step (claimsSystem D sha256)) (fun w => NoOverRecovery w.db)
      (World.initial db next now) events :=
  ((recovery_outline D sha256).allStates ⟨hwf, hno⟩ hg).mono (fun _ h => h.2)

end

/-- A database no claim operation has run on, with one claim of 100.00 dollars. -/
def oneClaim : Db where
  disputes := []
  disputeLines := []
  varianceFindings := []
  claims := [⟨0, 1, none, ⟨1000000, by decide⟩, some "USD", .open⟩]
  recoveryEvents := []
  auditEvents := []
  findingStatusEvents := []

/-- A recovery of 60.00 on it. -/
def recoverSixty : Call := .recordPartialRecovery ⟨1, 0, "60.00", "USD", none⟩

/-- One recovery after the other: the second is refused. -/
theorem recoveries_oneByOne : Runs.AllStates (step (claimsSystem Ref textNumber)) (fun w => NoOverRecovery w.db)
    (World.initial oneClaim 1 0)
    [.begin recoverSixty, .exec 1, .exec 1, .exec 1, .exec 1, .commit 1,
      .begin recoverSixty, .exec 2, .exec 2, .exec 2] :=
  noOverRecovery_allStates Ref textNumber oneClaim ⟨by decide, by decide⟩ (by decide +kernel) 1 0 _
    (by decide +kernel)

/-- Both read the prior total 0 before either inserts. -/
def concurrentRecoveries : List (Event Call) :=
  [.begin recoverSixty, .begin recoverSixty, .exec 1, .exec 1, .exec 2, .exec 2, .exec 1, .exec 1, .exec 2,
    .exec 2, .commit 1, .commit 2]

theorem concurrentRecoveries_exceed :
    ¬ Runs.AllStates (step (claimsSystem Ref textNumber)) (fun w => NoOverRecovery w.db)
      (World.initial oneClaim 1 0) concurrentRecoveries := by
  decide +kernel

end Claims
