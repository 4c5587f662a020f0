import FreightAuditor.Claims.Recovery

/- No finding is claimed through two disputes — as long as no other claim on it slips in
   between a transaction's check and its commit.

   `detectDuplicateClaimedFinding` looks for a claimed dispute that shares a finding, and
   the unique index only covers claims of one dispute. `noDoubleClaim_iff` says along
   which interleavings no two committed claims of different disputes share a finding. -/
namespace Claims

open DecimalJs PgNumeric ReadCommitted

/-- A line of the first claim's dispute and a line of the second's name the same finding. -/
def SharedLines (c c' : Claim) (l l' : DisputeLine) : Prop :=
  c.disputeId = some l.disputeId ∧ c'.disputeId = some l'.disputeId ∧
    l.varianceFindingId.isSome ∧ l.varianceFindingId = l'.varianceFindingId

instance (c c' : Claim) (l l' : DisputeLine) : Decidable (SharedLines c c' l l') :=
  inferInstanceAs (Decidable (_ ∧ _ ∧ _ ∧ _))

theorem SharedLines.symm {c c' : Claim} {l l' : DisputeLine} (h : SharedLines c c' l l') :
    SharedLines c' c l' l := ⟨h.2.1, h.1, h.2.2.2 ▸ h.2.2.1, h.2.2.2.symm⟩

/-- No two claims of different disputes share a finding. -/
def NoDoubleClaim (db : Db) : Prop :=
  ∀ c ∈ db.claims, ∀ c' ∈ db.claims, c.disputeId ≠ c'.disputeId →
    ∀ l ∈ db.disputeLines, ∀ l' ∈ db.disputeLines, ¬ SharedLines c c' l l'

instance (db : Db) : Decidable (NoDoubleClaim db) :=
  inferInstanceAs (Decidable (∀ c ∈ db.claims, ∀ c' ∈ db.claims, _ → _))

/-- The claim a write inserts. -/
def Write.claim? : Write → Option Claim
  | .insertClaim row => some row
  | _ => none

/-- The transaction's check, its third statement, could see that the claim's dispute was claimed:
all rows are of one account, and a claim of the dispute was committed. -/
def VisibleToCheck (log : Log Db Write LockKey) (accountId : ℕ) (c : Claim) (l l' : DisputeLine) : Prop :=
  l.accountId = accountId ∧ l'.accountId = accountId ∧ c.accountId = accountId ∧
    ∃ s ∈ log.seen[2]?, ∃ c₀ ∈ s.1.claims, c₀.accountId = accountId ∧ c₀.disputeId = c.disputeId

/-- A commit that inserts a claim finds no claim on a shared finding that its check could not see. -/
def RivalsChecked (db : Db) (_ : Call) (log : Log Db Write LockKey) : Prop :=
  ∀ w ∈ log.writes, ∀ row ∈ Write.claim? w, ∀ c ∈ db.claims, row.disputeId ≠ c.disputeId →
    ∀ l ∈ db.disputeLines, ∀ l' ∈ db.disputeLines, SharedLines row c l l' →
      VisibleToCheck log row.accountId c l l'

instance (log : Log Db Write LockKey) (accountId : ℕ) (c : Claim) (l l' : DisputeLine) :
    Decidable (VisibleToCheck log accountId c l l') :=
  inferInstanceAs (Decidable (l.accountId = accountId ∧ l'.accountId = accountId ∧ c.accountId = accountId ∧
    ∃ s ∈ log.seen[2]?, ∃ c₀ ∈ s.1.claims, c₀.accountId = accountId ∧ c₀.disputeId = c.disputeId))

instance (db : Db) (call : Call) (log : Log Db Write LockKey) : Decidable (RivalsChecked db call log) :=
  inferInstanceAs (Decidable (∀ w ∈ log.writes, ∀ row ∈ Write.claim? w, ∀ c ∈ db.claims, _ → _))

theorem mem_conflictingFindings {db : Db} {clientId disputeId finding : ℕ} :
    finding ∈ conflictingFindings db clientId disputeId ↔
      (∃ l ∈ db.disputeLines, l.accountId = clientId ∧ l.disputeId = disputeId ∧
        l.varianceFindingId = some finding) ∧
      ∃ l' ∈ db.disputeLines, l'.accountId = clientId ∧ l'.varianceFindingId = some finding ∧
        l'.disputeId ≠ disputeId ∧ ∃ c ∈ db.claims, c.accountId = clientId ∧ c.disputeId = some l'.disputeId := by
  simp [conflictingFindings, and_assoc]

section commit

variable {D : Type} [Decimal D] {sha256 : String → ℕ} {tx startedAt : ℕ} {log : Log Db Write LockKey}
  {db : Db} {call : Call} {r : Result} {Good : Db → Prop}

theorem aside_claim {w : Write} (h : w.Aside) : w.claim? = none := by
  cases w with
  | insertClaim row => exact h.elim
  | _ => rfl

/-- The one claim a creation inserts. -/
theorem CreateClaimRun.rivalsChecked_iff {input : CreateClaimInput} (run : CreateClaimRun tx input log) :
    RivalsChecked db call log ↔ ∀ c ∈ db.claims, run.row.disputeId ≠ c.disputeId →
      ∀ l ∈ db.disputeLines, ∀ l' ∈ db.disputeLines, SharedLines run.row c l l' →
        VisibleToCheck log input.clientId c l l' := by
  constructor
  · exact fun h => h (.insertClaim run.row) (by rw [run.writes]; exact List.mem_cons_self) _ rfl
  · intro h w hw row hrow
    rw [run.writes] at hw
    rcases List.mem_cons.mp hw with rfl | hw
    · obtain rfl := Option.some.inj hrow
      exact h
    · rw [aside_claim (run.aside_ok w hw)] at hrow
      cases hrow

/-- What the check could see, it has not seen. -/
theorem CreateClaimRun.not_visible {input : CreateClaimInput} (run : CreateClaimRun tx input log)
    (hseen : ∀ p ∈ log.seen, Good p.1 ∧ Since p.2 p.1 db) {c : Claim} {l l' : DisputeLine}
    (hl : l ∈ db.disputeLines) (hl' : l' ∈ db.disputeLines) (hne : run.row.disputeId ≠ c.disputeId)
    (hshared : SharedLines run.row c l l') : ¬ VisibleToCheck log input.clientId c l l' := by
  rintro ⟨hacc, hacc', -, s, hs, c₀, hc₀, hacc₀, hdispute₀⟩
  obtain rfl := Option.some.inj (hs.symm.trans run.seen_check)
  have hlines := (hseen _ (List.mem_of_getElem? run.seen_check)).2.disputeLines
  rw [hlines] at hl hl'
  obtain ⟨hd, hd', hsome, hfinding⟩ := hshared
  obtain ⟨finding, hf⟩ := Option.isSome_iff_exists.mp hsome
  have hmem : finding ∈ conflictingFindings run.checkDb input.clientId input.disputeId :=
    mem_conflictingFindings.mpr ⟨⟨l, hl, hacc, (Option.some.inj hd).symm, hf⟩, l', hl', hacc', hfinding ▸ hf,
      fun h => hne (by rw [hd', h]; rfl), c₀, hc₀, hacc₀, hdispute₀.trans hd'⟩
  rw [run.noConflict] at hmem
  cases hmem

/-- Commits that insert no claim. -/
theorem noDoubleClaim_same {db' : Db} (hlines : db'.disputeLines = db.disputeLines)
    (hclaims : ∀ c' ∈ db'.claims, ∃ c ∈ db.claims, c.disputeId = c'.disputeId) (h : NoDoubleClaim db) :
    NoDoubleClaim db' := by
  intro c hc c' hc' hne l hl l' hl' hshared
  obtain ⟨c₁, hc₁, hd⟩ := hclaims c hc
  obtain ⟨c₂, hc₂, hd'⟩ := hclaims c' hc'
  rw [hlines] at hl hl'
  refine h c₁ hc₁ c₂ hc₂ (hd ▸ hd' ▸ hne) l hl l' hl' ?_
  exact ⟨hd.trans hshared.1, hd'.trans hshared.2.1, hshared.2.2⟩

theorem rivalsChecked_of_no_claim (h : ∀ w ∈ log.writes, w.claim? = none) : RivalsChecked db call log := by
  intro w hw row hrow
  rw [h w hw] at hrow
  cases hrow

/-- A commit keeps findings claimed once exactly if every rival claim was visible to its check. -/
theorem noDoubleClaim_commit (h : Commit (claimsSystem D sha256) Good Since db call tx startedAt r log)
    (hno : NoDoubleClaim db) :
    NoDoubleClaim (view Claims.apply db log.writes) ↔ RivalsChecked db call log := by
  obtain ⟨-, hends, hseen⟩ := h
  have hlines : (view Claims.apply db log.writes).disputeLines = db.disputeLines := view_disputes.2
  cases finished hends with
  | nothing hnone =>
    rw [hnone, view_nil]
    exact ⟨fun _ => rivalsChecked_of_no_claim (by simp [hnone]), fun _ => hno⟩
  | created run =>
    obtain ⟨hc, -, -⟩ := run.view db
    rw [run.rivalsChecked_iff]
    constructor
    · intro h c hcmem hne l hl l' hl' hshared
      refine absurd hshared (h run.row ?_ c ?_ hne l (hlines ▸ hl) l' (hlines ▸ hl'))
      · rw [hc]; simp
      · rw [hc]; exact List.mem_append_left _ hcmem
    · intro h
      have hrival : ∀ c ∈ db.claims, run.row.disputeId ≠ c.disputeId → ∀ l ∈ db.disputeLines,
          ∀ l' ∈ db.disputeLines, ¬ SharedLines run.row c l l' := fun c hcmem hne l hl l' hl' hshared =>
        run.not_visible hseen hl hl' hne hshared (h c hcmem hne l hl l' hl' hshared)
      intro c hcmem c' hcmem' hne l hl l' hl' hshared
      rw [hlines] at hl hl'
      rw [hc] at hcmem hcmem'
      rcases List.mem_append.mp hcmem with hold | hnew
      · rcases List.mem_append.mp hcmem' with hold' | hnew'
        · exact hno c hold c' hold' hne l hl l' hl' hshared
        · obtain rfl := List.mem_singleton.mp hnew'
          exact hrival c hold hne.symm l' hl' l hl hshared.symm
      · obtain rfl := List.mem_singleton.mp hnew
        rcases List.mem_append.mp hcmem' with hold' | hnew'
        · exact hrival c' hold' hne l hl l' hl' hshared
        · obtain rfl := List.mem_singleton.mp hnew'
          exact hne rfl
  | recovered run =>
    obtain ⟨hc, -, -⟩ := run.view db
    refine ⟨fun _ => rivalsChecked_of_no_claim (fun w hw => ?_), fun _ =>
      noDoubleClaim_same hlines (fun c hcmem => ⟨c, hc ▸ hcmem, rfl⟩) hno⟩
    rw [run.writes] at hw
    rcases List.mem_cons.mp hw with rfl | hw
    · rfl
    · exact aside_claim (run.aside_ok w hw)
  | resolved run =>
    obtain ⟨hc, -, -⟩ := run.view db
    refine ⟨fun _ => rivalsChecked_of_no_claim (fun w hw => ?_), fun _ =>
      noDoubleClaim_same hlines (fun c' hc' => ?_) hno⟩
    · rcases run.mem_writes hw with ⟨row, -, rfl⟩ | rfl | haside | ⟨e, rfl⟩
      · rfl
      · rfl
      · exact aside_claim haside
      · rfl
    · rw [hc] at hc'
      obtain ⟨c, hcmem, rfl⟩ := List.mem_map.mp hc'
      exact ⟨c, hcmem, (c.updateStatus_continues run.outcome.not_open).disputeId.symm⟩

end commit

/-! ## Every interleaving -/

section

variable (D : Type) [Decimal D] (sha256 : String → ℕ)

theorem claims_outline : Outline (claimsSystem D sha256) (fun _ => True) Since (fun _ _ _ => True) where
  refl := Since.refl
  good := fun _ _ _ _ _ _ _ _ => trivial
  rely := fun _ _ _ _ _ _ h _ _ hdisjoint hs => since_commit h.ends hdisjoint hs

/-- Every state of an interleaving has its findings claimed through one dispute each exactly if every
commit of a new claim finds only such rivals as its check could see, which has seen none. -/
theorem noDoubleClaim_iff (db : Db) (hno : NoDoubleClaim db) (next now : ℕ) (events : List (Event Call)) :
    Runs.AllStates (step (claimsSystem D sha256)) (fun w => NoDoubleClaim w.db)
        (World.initial db next now) events ↔
      Runs.AllSteps (step (claimsSystem D sha256)) (CommitsMeet RivalsChecked)
        (World.initial db next now) events :=
  (claims_outline D sha256).allStates_iff NoDoubleClaim RivalsChecked
    (fun _ _ _ _ _ _ h hno => noDoubleClaim_commit h hno) trivial hno next now events

end

/-- Two accepted disputes over one finding. -/
def twoDisputes : Db where
  disputes := [⟨1, 1, .accepted, some ⟨500000, by decide⟩, some "USD"⟩,
    ⟨2, 1, .accepted, some ⟨500000, by decide⟩, some "USD"⟩]
  disputeLines := [⟨1, 1, some 7⟩, ⟨1, 2, some 7⟩]
  varianceFindings := [⟨7, 1, .queued_for_dispute⟩]
  claims := []
  recoveryEvents := []
  auditEvents := []
  findingStatusEvents := []

def claimDispute (disputeId : ℕ) : Call := .createClaimFromDispute ⟨1, disputeId, none⟩

/-- One after the other: the second claim is refused. -/
theorem claims_oneByOne :
    Runs.AllStates (step (claimsSystem Ref textNumber)) (fun w => NoDoubleClaim w.db)
      (World.initial twoDisputes 1 0)
      [.begin (claimDispute 1), .exec 1, .exec 1, .exec 1, .exec 1, .exec 1, .commit 1,
        .begin (claimDispute 2), .exec 2, .exec 2, .exec 2, .exec 2] :=
  (noDoubleClaim_iff Ref textNumber twoDisputes (by decide) 1 0 _).mpr (by decide +kernel)

/-- Both check before either inserts. -/
theorem concurrentClaims_share :
    ¬ Runs.AllStates (step (claimsSystem Ref textNumber)) (fun w => NoDoubleClaim w.db)
      (World.initial twoDisputes 1 0)
      [.begin (claimDispute 1), .begin (claimDispute 2), .exec 1, .exec 1, .exec 1, .exec 2, .exec 2, .exec 2,
        .exec 1, .exec 1, .exec 2, .exec 2, .commit 1, .commit 2] := by
  decide +kernel

end Claims
