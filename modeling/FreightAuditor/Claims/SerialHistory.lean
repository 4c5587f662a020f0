import FreightAuditor.Claims.Recovery

/- A claim's status and its recovered total, over calls that run one after the other.

   `recordPartialRecovery` does not look at the status, and a resolution without an amount
   does not look at the total. `serialHistory_iff` says along which histories of a newly
   opened claim the two stay consistent and a resolved claim is left alone: those in
   which the accepted calls themselves meet what is not checked. -/
namespace Claims

open DecimalJs PgNumeric ReadCommitted

/-- What a claim's status says about its recovered total. -/
def StatusMeans (status : ClaimStatus) (recovered claimed : ℤ) : Prop :=
  match status with
  | .open => recovered ≤ claimed
  | .recovered => recovered = claimed
  | .denied => recovered = 0
  | .written_off => recovered < claimed

instance (status : ClaimStatus) (recovered claimed : ℤ) : Decidable (StatusMeans status recovered claimed) := by
  unfold StatusMeans
  cases status <;> infer_instance

section

variable (accountId claimId : ℕ)

/-- The claim's rows are consistent. -/
def Consistent (s : Serial Db) : Prop :=
  ∀ c ∈ s.db.claims, c.accountId = accountId → c.id = claimId →
    StatusMeans c.status (recoveredTotal s.db accountId claimId) c.amountClaimed.units

/-- The call is for the claim. -/
def Call.addresses : Call → Prop
  | .createClaimFromDispute _ => False
  | .recordPartialRecovery input => input.clientId = accountId ∧ input.claimId = claimId
  | .resolveClaim input => input.clientId = accountId ∧ input.claimId = claimId

instance : DecidablePred (Call.addresses accountId claimId)
  | .createClaimFromDispute _ => .isFalse id
  | .recordPartialRecovery input =>
    inferInstanceAs (Decidable (input.clientId = accountId ∧ input.claimId = claimId))
  | .resolveClaim input => inferInstanceAs (Decidable (input.clientId = accountId ∧ input.claimId = claimId))

instance (s : Serial Db) : Decidable (Consistent accountId claimId s) :=
  inferInstanceAs (Decidable (∀ c ∈ s.db.claims, _ → _ → _))

/-- Once the claim is resolved, no accepted call is for it, and its row and recoveries stay. -/
def LeftAlone (sys : System Db Write LockKey ClaimsError Result Call) (s : Serial Db) (call : Call) : Prop :=
  ∀ c ∈ s.db.claims, c.accountId = accountId → c.id = claimId → c.status ≠ .open →
    ¬ call.addresses accountId claimId ∧
      ∀ s', serialStep sys s call = some s' → c ∈ s'.db.claims ∧
        recoveriesOf s'.db accountId claimId = recoveriesOf s.db accountId claimId

/-- What the calls on the claim do not check: that a partial recovery finds it open, a denial nothing
recovered, and a write-off without an amount something left. -/
def MeetsUnchecked (s : Serial Db) (call : Call) : Prop :=
  ∀ c ∈ s.db.claims, c.accountId = accountId → c.id = claimId → call.addresses accountId claimId →
    match call with
    | .createClaimFromDispute _ => True
    | .recordPartialRecovery _ => c.status = .open
    | .resolveClaim input =>
      (input.kind = .DENIAL → recoveredTotal s.db accountId claimId = 0) ∧
        (input.kind = .WRITE_OFF → input.amountRecovered = none →
          recoveredTotal s.db accountId claimId < c.amountClaimed.units)

instance (s : Serial Db) : ∀ call, Decidable (MeetsUnchecked accountId claimId s call)
  | .createClaimFromDispute _ => .isTrue (fun _ _ _ _ _ => trivial)
  | .recordPartialRecovery _ => inferInstanceAs (Decidable (∀ c ∈ s.db.claims, _ → _ → _ → _))
  | .resolveClaim _ => inferInstanceAs (Decidable (∀ c ∈ s.db.claims, _ → _ → _ → _))

end

section commit

variable {D : Type} [Decimal D] {sha256 : String → ℕ} {tx startedAt : ℕ} {log : Log Db Write LockKey}
  {db : Db} {call : Call} {r : Result} {Good : Db → Prop} {accountId claimId : ℕ}

theorem updateStatus_other {c : Claim} {a id : ℕ} {status : ClaimStatus} (h : ¬ (c.accountId = a ∧ c.id = id)) :
    c.updateStatus a id status = c := if_neg h

/-- Recoveries of other claims do not count. -/
theorem recoveriesOf_append {db' : Db} {rows : List RecoveryEvent} (hdb : db'.recoveryEvents = db.recoveryEvents ++ rows)
    (hrows : ∀ r ∈ rows, ¬ (r.accountId = accountId ∧ r.claimId = some claimId)) :
    recoveriesOf db' accountId claimId = recoveriesOf db accountId claimId := by
  have hnone : rows.filter (fun r => r.accountId == accountId && r.claimId == some claimId) = [] :=
    List.filter_eq_nil_iff.mpr (fun r hr => by simpa using hrows r hr)
  rw [recoveriesOf, hdb, List.filter_append, hnone, List.append_nil, recoveriesOf]

/-- A commit leaves claims alone that its call is not for. -/
theorem commit_unaddressed (h : Commit (claimsSystem D sha256) Good Since db call tx startedAt r log)
    (hcall : ¬ call.addresses accountId claimId) {c : Claim} (hc : c ∈ db.claims)
    (hkey : c.accountId = accountId ∧ c.id = claimId) :
    c ∈ (view Claims.apply db log.writes).claims ∧
      recoveriesOf (view Claims.apply db log.writes) accountId claimId = recoveriesOf db accountId claimId := by
  cases finished h.ends with
  | nothing hnone => rw [hnone, view_nil]; exact ⟨hc, rfl⟩
  | created run =>
    obtain ⟨hclaims, hr, -⟩ := run.view db
    exact ⟨hclaims ▸ List.mem_append_left _ hc, recoveriesOf_append (hr.trans (List.append_nil _).symm) (by simp)⟩
  | recovered run =>
    obtain ⟨hclaims, hr, -⟩ := run.view db
    refine ⟨hclaims ▸ hc, recoveriesOf_append hr (fun row hrow hrowkey => hcall ?_)⟩
    obtain rfl := List.mem_singleton.mp hrow
    exact ⟨hrowkey.1, Option.some.inj hrowkey.2⟩
  | resolved run =>
    obtain ⟨hclaims, hr, -⟩ := run.view db
    refine ⟨?_, recoveriesOf_append hr (fun row hrow hrowkey => hcall ?_)⟩
    · rw [hclaims]
      refine List.mem_map.mpr ⟨c, hc, updateStatus_other (fun hcall' => hcall ?_)⟩
      exact ⟨hcall'.1.symm.trans hkey.1, hcall'.2.symm.trans hkey.2⟩
    · obtain ⟨n, -, rfl⟩ := List.mem_map.mp hrow
      exact ⟨hrowkey.1, Option.some.inj hrowkey.2⟩

/-- The total after a resolution means what the new status says exactly if the resolution met what it
does not check. -/
theorem outcome_means {prior claimed : ℤ} {kind : ClaimResolutionKind} {recovery : Option Amount}
    {status : ClaimStatus} (h : Outcome prior claimed kind recovery status) :
    StatusMeans status (prior + total recovery.toList) claimed ↔
      (kind = .DENIAL → prior = 0) ∧ (kind = .WRITE_OFF → recovery = none → prior < claimed) := by
  cases h with
  | denial => simp [StatusMeans]
  | abandoned => simp [StatusMeans]
  | writeOff n _ hlt => simp [StatusMeans, hlt]
  | full n _ heq => simp [StatusMeans, heq]

/-- The claim the call reads is the one in the tables. -/
theorem found_eq (hwf : WellFormed db) {claimDb : Db} (hdb : claimDb = db) {c claim : Claim}
    (hc : c ∈ db.claims) (hid : c.id = claimId) (hfound : findClaim claimDb accountId claimId = some claim) :
    claim = c := by
  subst hdb
  obtain ⟨hmem, -, hclaimId⟩ := findClaim_some hfound
  exact eq_of_id hwf hmem hc (hclaimId.trans hid.symm)

end commit

/-! ## Histories -/

section history

variable {D : Type} [Decimal D] {sha256 : String → ℕ} {accountId claimId : ℕ}

/-- The claim is in tables whose keys hold. -/
def Kept (accountId claimId : ℕ) (s : Serial Db) : Prop :=
  WellFormed s.db ∧ ∃ c ∈ s.db.claims, c.accountId = accountId ∧ c.id = claimId

/-- Over well-formed tables the claim's one row decides. -/
theorem consistent_iff {s : Serial Db} (hwf : WellFormed s.db) {c : Claim} (hc : c ∈ s.db.claims)
    (hkey : c.accountId = accountId ∧ c.id = claimId) :
    Consistent accountId claimId s ↔
      StatusMeans c.status (recoveredTotal s.db accountId claimId) c.amountClaimed.units := by
  refine ⟨fun h => h c hc hkey.1 hkey.2, fun h c' hc' _ hid => ?_⟩
  rw [eq_of_id hwf hc' hc (hid.trans hkey.2.symm)]
  exact h

/-- An accepted call commits on what is there. -/
theorem accepted_commit {s s' : Serial Db} {call : Call}
    (h : serialStep (claimsSystem D sha256) s call = some s') :
    ∃ r log, Commit (claimsSystem D sha256) (fun _ => True) Since s.db call s.next s.next r log ∧
      (∀ p ∈ log.seen, p.1 = s.db) ∧ s' = ⟨view Claims.apply s.db log.writes, s.next + 1⟩ :=
  serialStep_commit Since.refl trivial h

theorem kept_step {s s' : Serial Db} {call : Call} (hkept : Kept accountId claimId s)
    (hstep : serialStep (claimsSystem D sha256) s call = some s') : Kept accountId claimId s' := by
  obtain ⟨hwf, c, hc, hacc, hid⟩ := hkept
  obtain ⟨r, log, hcommit, -, rfl⟩ := accepted_commit hstep
  obtain ⟨c', hc', hcont⟩ := (since_commit hcommit.ends (by simp) (Since.refl [] s.db)).claims c hc
  exact ⟨wellFormed_commit hcommit hwf, c', hc', hcont.accountId.trans hacc, hcont.id.trans hid⟩

/-- One accepted call keeps the claim consistent, and left alone once resolved, exactly if it meets
what it does not check. -/
theorem consistent_step {s s' : Serial Db} {call : Call} (hkept : Kept accountId claimId s)
    (hcons : Consistent accountId claimId s)
    (hstep : serialStep (claimsSystem D sha256) s call = some s') :
    Consistent accountId claimId s' ∧ LeftAlone accountId claimId (claimsSystem D sha256) s call ↔
      MeetsUnchecked accountId claimId s call := by
  obtain ⟨hwf', -⟩ := kept_step hkept hstep
  obtain ⟨hwf, c, hc, hkey⟩ := hkept
  have hmeans := (consistent_iff hwf hc hkey).mp hcons
  have hunique : ∀ c' ∈ s.db.claims, c'.id = claimId → c' = c := fun c' hc' hid =>
    eq_of_id hwf hc' hc (hid.trans hkey.2.symm)
  obtain ⟨r, log, hcommit, hseen, hs'⟩ := accepted_commit hstep
  have hdb : s'.db = view Claims.apply s.db log.writes := by rw [hs']
  by_cases hcall : call.addresses accountId claimId
  · have halone : LeftAlone accountId claimId (claimsSystem D sha256) s call ↔ c.status = .open := by
      refine ⟨fun h => ?_, fun hopen c' hc' _ hid hne => absurd (hunique c' hc' hid ▸ hopen) hne⟩
      by_contra hne
      exact (h c hc hkey.1 hkey.2 hne).1 hcall
    cases finished hcommit.ends with
    | nothing hnone => exact hcall.elim
    | created run => exact hcall.elim
    | recovered run =>
      obtain ⟨rfl, rfl⟩ := hcall
      have hmeets : MeetsUnchecked _ _ s (.recordPartialRecovery _) ↔ c.status = .open :=
        ⟨fun h => h c hc hkey.1 hkey.2 ⟨rfl, rfl⟩, fun hopen c' hc' _ hid _ => hunique c' hc' hid ▸ hopen⟩
      rw [halone, hmeets]
      refine ⟨fun h => h.2, fun hopen => ⟨?_, hopen⟩⟩
      -- what the call checked is what an open claim means
      obtain ⟨hclaims, hr, -⟩ := run.view s.db
      have hfound := found_eq hwf (hseen _ (List.mem_of_getElem? run.seen_claim)) hc hkey.2 run.found
      have htotal : run.totalDb = s.db := hseen _ (List.mem_of_getElem? run.seen_total)
      rw [← hdb] at hclaims hr
      rw [consistent_iff hwf' (hclaims ▸ hc) hkey, hopen,
        recoveredTotal_append hr (fun row hrow => by obtain rfl := List.mem_singleton.mp hrow; exact ⟨rfl, rfl⟩)]
      have hfits := run.fits
      rw [hfound, htotal] at hfits
      simpa [StatusMeans, PartialRecoveryRun.row] using hfits
    | @resolved input run =>
      obtain ⟨rfl, rfl⟩ := hcall
      obtain ⟨hclaims, hr, -⟩ := run.view s.db
      have hfound := found_eq hwf (hseen _ (List.mem_of_getElem? run.seen_claim)) hc hkey.2 run.found
      have htotal : run.totalDb = s.db := hseen _ (List.mem_of_getElem? run.seen_total)
      have hopen : c.status = .open := hfound ▸ run.wasOpen
      have hnone : run.recovery = none ↔ input.amountRecovered = none := by
        rw [← Option.isNone_iff_eq_none, ← Option.isNone_iff_eq_none, ← Option.not_isSome, ← Option.not_isSome,
          run.carriesAmount]
      have hmeets : MeetsUnchecked input.clientId input.claimId s (.resolveClaim input) ↔
          (input.kind = .DENIAL → recoveredTotal s.db input.clientId input.claimId = 0) ∧
            (input.kind = .WRITE_OFF → run.recovery = none →
              recoveredTotal s.db input.clientId input.claimId < c.amountClaimed.units) := by
        rw [hnone]
        exact ⟨fun h => h c hc hkey.1 hkey.2 ⟨rfl, rfl⟩, fun h c' hc' _ hid _ => hunique c' hc' hid ▸ h⟩
      have hnew : c.updateStatus input.clientId input.claimId run.newStatus =
          { c with status := run.newStatus } := if_pos hkey
      rw [← hdb] at hclaims hr
      have hmem : { c with status := run.newStatus } ∈ s'.db.claims := by
        rw [hclaims, ← hnew]
        exact List.mem_map_of_mem hc
      have hrows : total (run.rows.map RecoveryEvent.amountRecovered) = total run.recovery.toList := by
        rw [ResolveClaimRun.rows, List.map_map]
        exact congrArg total (List.map_id _)
      have houtcome := run.outcome
      rw [hfound, htotal] at houtcome
      rw [halone, hmeets, ← outcome_means houtcome, consistent_iff hwf' hmem hkey,
        recoveredTotal_append hr (fun row hrow => by
          obtain ⟨n, -, rfl⟩ := List.mem_map.mp hrow
          exact ⟨rfl, rfl⟩), if_pos ⟨rfl, rfl⟩, hrows]
      exact ⟨fun h => h.1, fun h => ⟨h, hopen⟩⟩
  · -- another claim's call changes nothing here
    obtain ⟨hstays, hrecoveries⟩ := commit_unaddressed hcommit hcall hc hkey
    rw [← hdb] at hstays hrecoveries
    refine ⟨fun _ c' hc' hacc hid haddr => absurd haddr hcall, fun _ => ⟨?_, ?_⟩⟩
    · rw [consistent_iff hwf' hstays hkey, recoveredTotal, hrecoveries]
      exact hmeans
    · intro c' hc' _ hid _
      refine ⟨hcall, fun s'' hs'' => ?_⟩
      obtain rfl := Option.some.inj (hs''.symm.trans hstep)
      rw [hunique c' hc' hid]
      exact ⟨hstays, hrecoveries⟩

/-- A call that inserts a claim opens it, with nothing recovered. -/
theorem opened {s₀ s₁ : Serial Db} {input : CreateClaimInput} (hwf : WellFormed s₀.db)
    (hopened : serialStep (claimsSystem D sha256) s₀ (.createClaimFromDispute input) = some s₁)
    (hnew : s₁.db.claims ≠ s₀.db.claims) :
    Kept input.clientId s₀.next s₁ ∧ Consistent input.clientId s₀.next s₁ := by
  obtain ⟨r, log, hcommit, hseen, rfl⟩ := accepted_commit hopened
  have hwf₁ := wellFormed_commit hcommit hwf
  cases finished hcommit.ends with
  | nothing hnone => exact absurd (by rw [hnone]; rfl) hnew
  | created run =>
    obtain ⟨hclaims, hr, -⟩ := run.view s₀.db
    have hmem : run.row ∈ (view Claims.apply s₀.db log.writes).claims := by
      rw [hclaims]
      exact List.mem_append_right _ (List.mem_singleton_self _)
    have habsent : recoveredTotal (view Claims.apply s₀.db log.writes) input.clientId s₀.next = 0 :=
      (recoveredTotal_congr hr _ _).trans
        (recoveredTotal_absent hwf (run.fresh_at_commit fun p hp => (hcommit.seen p hp).2))
    have hmeans : StatusMeans run.row.status (recoveredTotal (view Claims.apply s₀.db log.writes) input.clientId
        s₀.next) run.row.amountClaimed.units := by
      rw [habsent]
      exact run.positive.le
    exact ⟨⟨hwf₁, run.row, hmem, rfl, rfl⟩,
      (consistent_iff (s := ⟨_, s₀.next + 1⟩) hwf₁ hmem ⟨rfl, rfl⟩).mpr hmeans⟩

end history

/-- From a newly opened claim, over every sequence of accepted calls: its status and recovered total
stay consistent and it is left alone once resolved, exactly if every accepted call on it meets what it
does not check. -/
theorem serialHistory_iff (D : Type) [Decimal D] (sha256 : String → ℕ) (s₀ s₁ : Serial Db)
    (input : CreateClaimInput) (hwf : WellFormed s₀.db)
    (hopened : serialStep (claimsSystem D sha256) s₀ (.createClaimFromDispute input) = some s₁)
    (hnew : s₁.db.claims ≠ s₀.db.claims) (calls : List Call) :
    Runs.AllStates (serialStep (claimsSystem D sha256)) (Consistent input.clientId s₀.next) s₁ calls ∧
        Runs.AllSteps (serialStep (claimsSystem D sha256))
          (LeftAlone input.clientId s₀.next (claimsSystem D sha256)) s₁ calls ↔
      Runs.AllSteps (serialStep (claimsSystem D sha256)) (MeetsUnchecked input.clientId s₀.next) s₁ calls := by
  obtain ⟨hkept, hcons⟩ := opened hwf hopened hnew
  exact Runs.allStates_and_allSteps_iff (Kept input.clientId s₀.next) (fun _ _ _ => kept_step)
    (fun _ _ _ => consistent_step) calls s₁ hkept hcons

theorem hundred_inRange : |(1000000 : ℤ)| < 10 ^ 18 := by decide

/-- An accepted dispute over 100.00 dollars. -/
def acceptedDispute : Serial Db where
  db := { oneClaim with claims := [], disputes := [⟨5, 1, .accepted, some ⟨1000000, hundred_inRange⟩, some "USD"⟩] }
  next := 1

/-- The state once it is claimed, as claim 1. -/
def claimedDispute : Serial Db :=
  (serialStep (claimsSystem Ref textNumber) acceptedDispute (.createClaimFromDispute ⟨1, 5, none⟩)).get
    (by decide +kernel)

/-- Part of it recovered, then all of it, then another recovery refused. -/
theorem recoveredHistory_consistent :
    Runs.AllStates (serialStep (claimsSystem Ref textNumber)) (Consistent 1 1) claimedDispute
        [.recordPartialRecovery ⟨1, 1, "60.00", "USD", none⟩,
          .resolveClaim ⟨1, 1, .FULL_RECOVERY, some "40.00", some "USD", none⟩] ∧
      Runs.AllSteps (serialStep (claimsSystem Ref textNumber)) (LeftAlone 1 1 (claimsSystem Ref textNumber))
        claimedDispute [.recordPartialRecovery ⟨1, 1, "60.00", "USD", none⟩,
          .resolveClaim ⟨1, 1, .FULL_RECOVERY, some "40.00", some "USD", none⟩] :=
  (serialHistory_iff Ref textNumber acceptedDispute claimedDispute ⟨1, 5, none⟩ ⟨by decide, by decide⟩
    (Option.some_get _).symm (by decide +kernel) _).mpr (by decide +kernel)

/-- A denial is accepted although part of the claim has been recovered. -/
theorem deniedAfterRecovery_inconsistent :
    ¬ (Runs.AllStates (serialStep (claimsSystem Ref textNumber)) (Consistent 1 1) claimedDispute
        [.recordPartialRecovery ⟨1, 1, "60.00", "USD", none⟩, .resolveClaim ⟨1, 1, .DENIAL, none, none, none⟩] ∧
      Runs.AllSteps (serialStep (claimsSystem Ref textNumber)) (LeftAlone 1 1 (claimsSystem Ref textNumber))
        claimedDispute
        [.recordPartialRecovery ⟨1, 1, "60.00", "USD", none⟩, .resolveClaim ⟨1, 1, .DENIAL, none, none, none⟩]) := by
  rintro ⟨hstates, -⟩
  revert hstates
  decide +kernel

end Claims
