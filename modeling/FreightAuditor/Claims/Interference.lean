import FreightAuditor.Claims.Transactions

/- What the claim operations may change behind each other's back.

   `Since held db db'` is what a transaction holding the locks `held` since it saw `db`
   can count on when the committed rows have become `db'`: claims stay, with their
   dispute and amount, and a terminal status stays terminal; audit events stay; disputes
   do not change; and no row appears under a unique key whose lock is held.
   `since_commit` says that every commit of a claim operation keeps to it. -/
namespace Claims

open DecimalJs PgNumeric ReadCommitted

/-! ## Writes and their locks -/

/-- The locks under which a write is made. -/
def Write.CoveredBy (held : List LockKey) : Write → Prop
  | .insertClaim row =>
    .claimPkey row.id ∈ held ∧ ∀ d, row.disputeId = some d → .claimDispute row.accountId d ∈ held
  | .insertAuditEvent row => .auditEvent row.id ∈ held
  | .updateClaimStatus _ _ status => status ≠ .open
  | _ => True

theorem coveredBy_mono (ks ks' : List LockKey) (w : Write) (h : ∀ k ∈ ks, k ∈ ks')
    (hw : w.CoveredBy ks) : w.CoveredBy ks' := by
  cases w with
  | insertClaim row => exact ⟨h _ hw.1, fun d hd => h _ (hw.2 d hd)⟩
  | insertAuditEvent row => exact h _ hw
  | updateClaimStatus accountId claimId status => exact hw
  | _ => trivial

section covered

variable {D : Type} [Decimal D] {sha256 : String → ℕ} {tx startedAt : ℕ}

theorem writeAuditEvent_covered {id : ℕ} {value : AuditEventEvidence} :
    Covered Write.CoveredBy (writeAuditEvent startedAt id value) := by
  refine covered_exec (fun db created ws hf w hw => ?_)
  split at hf
  · obtain ⟨-, rfl⟩ := Prod.mk.inj (Except.ok.inj hf)
    obtain rfl := List.mem_singleton.mp hw
    exact List.mem_singleton_self _
  · split at hf
    · obtain ⟨-, rfl⟩ := Prod.mk.inj (Except.ok.inj hf)
      cases hw
    · cases hf

theorem insertRecoveryEvent_covered {clientId claimId : ℕ} {finding : Option ℕ} {amount : String}
    {currency : Option String} :
    Covered Write.CoveredBy (insertRecoveryEvent tx clientId claimId finding amount currency) := by
  refine covered_exec (fun db id ws hf w hw => ?_)
  simp only [ExceptOk.bind_eq_ok, ExceptOk.throw_bind, ExceptOk.ite_throw_eq_ok, ExceptOk.pure_eq_ok,
    Prod.mk.injEq] at hf
  obtain ⟨n, -, -, -, -, -, -, rfl⟩ := hf
  obtain rfl := List.mem_singleton.mp hw
  trivial

theorem updateClaimStatus_covered {clientId claimId : ℕ} {status : ClaimStatus} (h : status ≠ .open) :
    Covered Write.CoveredBy (updateClaimStatus clientId claimId status) := by
  refine covered_exec (fun db u ws hf w hw => ?_)
  obtain ⟨-, rfl⟩ := Prod.mk.inj (Except.ok.inj hf)
  obtain rfl := List.mem_singleton.mp hw
  exact h

theorem updateFindingStatus_covered {clientId finding : ℕ} {status : VarianceStatus}
    {note : Option String} {actor : Option ℕ} :
    Covered Write.CoveredBy (updateFindingStatus sha256 tx startedAt clientId finding status note actor) := by
  refine covered_bind (covered_exec fun db old ws hf w hw => ?_) (fun old => ?_)
  · split at hf
    · obtain ⟨-, rfl⟩ := Prod.mk.inj (Except.ok.inj hf)
      cases hw
    · obtain ⟨-, rfl⟩ := Prod.mk.inj (Except.ok.inj hf)
      simp only [List.mem_cons, List.not_mem_nil, or_false] at hw
      rcases hw with rfl | rfl <;> trivial
  · cases old with
    | none => exact covered_pure
    | some fromStatus => exact covered_bind writeAuditEvent_covered (fun _ => covered_pure)

theorem insertClaim_covered {clientId disputeId : ℕ} {amount currency : String} :
    Covered Write.CoveredBy (insertClaim tx clientId disputeId amount currency) := by
  refine covered_exec (fun db id ws hf w hw => ?_)
  simp only [ExceptOk.bind_eq_ok, ExceptOk.throw_bind, ExceptOk.ite_throw_eq_ok] at hf
  obtain ⟨n, -, -, hf⟩ := hf
  split at hf
  · obtain ⟨-, rfl⟩ := Prod.mk.inj (ExceptOk.pure_eq_ok.mp hf)
    cases hw
  · rename_i hconflict
    obtain ⟨-, rfl⟩ := Prod.mk.inj (ExceptOk.pure_eq_ok.mp (ExceptOk.ite_throw_eq_ok.mp hf).2)
    obtain rfl := List.mem_singleton.mp hw
    rw [if_neg hconflict]
    refine ⟨by simp, fun d hd => ?_⟩
    obtain rfl := Option.some.inj hd
    simp

theorem createClaimFromDispute_covered {input : CreateClaimInput} :
    Covered Write.CoveredBy (createClaimFromDispute D sha256 tx startedAt input) := by
  refine covered_bind covered_query (fun dispute => ?_)
  cases dispute with
  | none => trivial
  | some dispute =>
    refine covered_bind covered_query (fun existing => ?_)
    cases existing with
    | some existing => exact covered_pure
    | none =>
      refine covered_ofExcept (fun v _ => covered_bind (covered_bind covered_query fun rows => ?_) fun _ =>
        covered_bind insertClaim_covered fun inserted => ?_)
      · split
        · trivial
        · exact covered_pure
      · cases inserted with
        | none =>
          refine covered_bind covered_query (fun raced => ?_)
          cases raced with
          | none => trivial
          | some raced => exact covered_pure
        | some claimId => exact covered_bind writeAuditEvent_covered (fun _ => covered_pure)

theorem recordPartialRecovery_covered {input : PartialRecoveryInput} :
    Covered Write.CoveredBy (recordPartialRecovery D sha256 tx startedAt input) := by
  rw [recordPartialRecovery]
  split
  · trivial
  refine covered_bind covered_query (fun claim => ?_)
  cases claim with
  | none => trivial
  | some claim =>
    exact covered_bind covered_query (fun total => covered_ofExcept (fun v _ =>
      covered_bind insertRecoveryEvent_covered (fun id => covered_bind writeAuditEvent_covered
        (fun _ => covered_pure))))

theorem resolveClaim_covered {input : ResolveClaimInput} :
    Covered Write.CoveredBy (resolveClaim D sha256 tx startedAt input) := by
  rw [resolveClaim]
  split
  · trivial
  refine covered_bind covered_query (fun claim => ?_)
  cases claim with
  | none => trivial
  | some claim =>
    refine covered_bind covered_query (fun total => covered_ofExcept (fun v hv => ?_))
    have hstatus : v.newStatus ≠ .open := by
      obtain ⟨-, -, -, hkind, -⟩ := validateClaimResolution_ok hv
      rcases hkind with ⟨-, -, hs⟩ | ⟨-, hs⟩ | ⟨-, -, hs⟩ <;> simp [hs]
    refine covered_bind ?_ (fun id => covered_bind (updateClaimStatus_covered hstatus) fun _ =>
      covered_bind ?_ fun _ => covered_bind writeAuditEvent_covered fun _ => covered_pure)
    · split
      · exact covered_pure
      · exact covered_bind insertRecoveryEvent_covered (fun _ => covered_pure)
    · split
      · exact updateFindingStatus_covered
      · exact covered_pure

theorem claimsSystem_covered (call : Call) (tx startedAt : ℕ) :
    Covered Write.CoveredBy ((claimsSystem D sha256).body call tx startedAt) := by
  cases call with
  | createClaimFromDispute input => exact covered_bind createClaimFromDispute_covered fun _ => covered_pure
  | recordPartialRecovery input => exact covered_bind recordPartialRecovery_covered fun _ => covered_pure
  | resolveClaim input => exact covered_bind resolveClaim_covered fun _ => covered_pure

end covered

/-! ## What stays -/

/-- The same claim, later. -/
structure Claim.Continues (c' c : Claim) : Prop where
  id : c'.id = c.id
  accountId : c'.accountId = c.accountId
  disputeId : c'.disputeId = c.disputeId
  amountClaimed : c'.amountClaimed = c.amountClaimed
  terminal : c.status ≠ .open → c'.status ≠ .open

theorem Claim.Continues.refl (c : Claim) : c.Continues c := ⟨rfl, rfl, rfl, rfl, fun h => h⟩

theorem Claim.Continues.trans {a b c : Claim} (h : a.Continues b) (h' : b.Continues c) : a.Continues c :=
  ⟨h.id.trans h'.id, h.accountId.trans h'.accountId, h.disputeId.trans h'.disputeId,
    h.amountClaimed.trans h'.amountClaimed, fun ht => h.terminal (h'.terminal ht)⟩

/-- What may have happened since `db` was seen, under the locks held since. -/
structure Since (held : List LockKey) (db db' : Db) : Prop where
  disputes : db'.disputes = db.disputes
  disputeLines : db'.disputeLines = db.disputeLines
  claims : ∀ c ∈ db.claims, ∃ c' ∈ db'.claims, c'.Continues c
  claimPkey : ∀ id, .claimPkey id ∈ held → ∀ c' ∈ db'.claims, c'.id = id → ∃ c ∈ db.claims, c.id = id
  claimDispute : ∀ a d, .claimDispute a d ∈ held → ∀ c' ∈ db'.claims, c'.accountId = a →
    c'.disputeId = some d → ∃ c ∈ db.claims, c.accountId = a ∧ c.disputeId = some d
  events : ∀ e ∈ db.auditEvents, e ∈ db'.auditEvents
  auditEvent : ∀ id, .auditEvent id ∈ held → ∀ e ∈ db'.auditEvents, e.id = id → e ∈ db.auditEvents

theorem Since.refl (held : List LockKey) (db : Db) : Since held db db where
  disputes := rfl
  disputeLines := rfl
  claims := fun c hc => ⟨c, hc, .refl c⟩
  claimPkey := fun _ _ c hc hid => ⟨c, hc, hid⟩
  claimDispute := fun _ _ _ c hc ha hd => ⟨c, hc, ha, hd⟩
  events := fun _ he => he
  auditEvent := fun _ _ _ he _ => he

theorem Claim.updateStatus_continues {accountId claimId : ℕ} {status : ClaimStatus} (c : Claim)
    (h : status ≠ .open) : (c.updateStatus accountId claimId status).Continues c := by
  unfold Claim.updateStatus
  split
  · exact ⟨rfl, rfl, rfl, rfl, fun _ => h⟩
  · exact .refl c

/-- A write of another transaction, under its locks, keeps to it. -/
theorem Since.apply {held locks : List LockKey} {db db' : Db} {w : Write} (h : Since held db db')
    (hw : w.CoveredBy locks) (hdisjoint : ∀ k ∈ held, k ∉ locks) : Since held db (Claims.apply db' w) := by
  obtain ⟨hdisp, hlines, hclaims, hpkey, hdispute, hevents, hevent⟩ := h
  cases w with
  | insertClaim row =>
    refine ⟨hdisp, hlines, fun c hc => ?_, fun id hid c' hc' he => ?_, fun a d hd c' hc' ha hcd => ?_,
      hevents, hevent⟩
    · obtain ⟨c', hc', hcont⟩ := hclaims c hc
      exact ⟨c', List.mem_append_left _ hc', hcont⟩
    · rcases List.mem_append.mp hc' with hc' | hc'
      · exact hpkey id hid c' hc' he
      · -- the new row's key is not free
        obtain rfl := List.mem_singleton.mp hc'
        exact absurd (he ▸ hw.1) (hdisjoint _ hid)
    · rcases List.mem_append.mp hc' with hc' | hc'
      · exact hdispute a d hd c' hc' ha hcd
      · obtain rfl := List.mem_singleton.mp hc'
        exact absurd (ha ▸ hw.2 d hcd) (hdisjoint _ hd)
  | insertAuditEvent row =>
    refine ⟨hdisp, hlines, hclaims, hpkey, hdispute, fun e he => List.mem_append_left _ (hevents e he),
      fun id hid e he heid => ?_⟩
    rcases List.mem_append.mp he with he | he
    · exact hevent id hid e he heid
    · obtain rfl := List.mem_singleton.mp he
      exact absurd (heid ▸ hw) (hdisjoint _ hid)
  | updateClaimStatus accountId claimId status =>
    have hcont (c : Claim) : (c.updateStatus accountId claimId status).Continues c :=
      c.updateStatus_continues hw
    refine ⟨hdisp, hlines, fun c hc => ?_, fun id hid c' hc' he => ?_, fun a d hd c' hc' ha hcd => ?_,
      hevents, hevent⟩
    · obtain ⟨c', hc', h⟩ := hclaims c hc
      exact ⟨_, List.mem_map_of_mem hc', (hcont c').trans h⟩
    · obtain ⟨c, hc, rfl⟩ := List.mem_map.mp hc'
      exact hpkey id hid c hc ((hcont c).id.symm.trans he)
    · obtain ⟨c, hc, rfl⟩ := List.mem_map.mp hc'
      exact hdispute a d hd c hc ((hcont c).accountId.symm.trans ha) ((hcont c).disputeId.symm.trans hcd)
  | _ => exact ⟨hdisp, hlines, hclaims, hpkey, hdispute, hevents, hevent⟩

theorem Since.view {held locks : List LockKey} {db db' : Db} {ws : List Write} (h : Since held db db')
    (hws : ∀ w ∈ ws, w.CoveredBy locks) (hdisjoint : ∀ k ∈ held, k ∉ locks) :
    Since held db (view Claims.apply db' ws) := by
  induction ws generalizing db' with
  | nil => exact h
  | cons w ws ih =>
    exact ih (h.apply (hws w List.mem_cons_self) hdisjoint) (fun v hv => hws v (List.mem_cons_of_mem _ hv))

/-- Every commit of a claim operation keeps to what others rely on. -/
theorem since_commit {D : Type} [Decimal D] {sha256 : String → ℕ} {db s : Db} {call : Call} {tx startedAt : ℕ}
    {r : Result} {log : Log Db Write LockKey} {held : List LockKey}
    (h : Ends Claims.apply ((claimsSystem D sha256).body call tx startedAt) .empty r log)
    (hdisjoint : ∀ k ∈ held, k ∉ log.held) (hs : Since held s db) :
    Since held s (view Claims.apply db log.writes) :=
  hs.view ((claimsSystem_covered call tx startedAt).ends coveredBy_mono h (by simp [Log.empty])) hdisjoint

/-! ## What a commit does -/

section effect

variable {D : Type} [Decimal D] {sha256 : String → ℕ} {tx startedAt : ℕ} {log : Log Db Write LockKey}

/-- The claim a creation inserts. -/
def CreateClaimRun.row {input : CreateClaimInput} (run : CreateClaimRun tx input log) : Claim :=
  ⟨tx, input.clientId, some input.disputeId, run.amount, some run.currency, .open⟩

theorem CreateClaimRun.view {input : CreateClaimInput} (run : CreateClaimRun tx input log) (db : Db) :
    (view Claims.apply db log.writes).claims = db.claims ++ [run.row] ∧
      (view Claims.apply db log.writes).recoveryEvents = db.recoveryEvents ∧
      (view Claims.apply db log.writes).auditEvents.filter isTerminalEvent =
        db.auditEvents.filter isTerminalEvent := by
  rw [run.writes, view_cons]
  exact view_aside run.aside_ok

/-- The recovery a partial recovery inserts. -/
def PartialRecoveryRun.row {input : PartialRecoveryInput} (run : PartialRecoveryRun tx input log) : RecoveryEvent :=
  ⟨tx, input.clientId, some input.claimId, input.varianceFindingId, run.amount, some input.currency⟩

theorem PartialRecoveryRun.view {input : PartialRecoveryInput} (run : PartialRecoveryRun tx input log) (db : Db) :
    (view Claims.apply db log.writes).claims = db.claims ∧
      (view Claims.apply db log.writes).recoveryEvents = db.recoveryEvents ++ [run.row] ∧
      (view Claims.apply db log.writes).auditEvents.filter isTerminalEvent =
        db.auditEvents.filter isTerminalEvent := by
  rw [run.writes, view_cons]
  exact view_aside run.aside_ok

/-- The recoveries a resolution inserts: at most one. -/
def ResolveClaimRun.rows {input : ResolveClaimInput} (run : ResolveClaimRun sha256 tx startedAt input log) :
    List RecoveryEvent :=
  run.recovery.toList.map (input.recoveryRow tx run.currency)

/-- The terminal events it inserts: at most one. -/
def ResolveClaimRun.events {input : ResolveClaimInput} (run : ResolveClaimRun sha256 tx startedAt input log) :
    List AuditEvent :=
  run.event.filterMap fun
    | .insertAuditEvent row => some row
    | _ => none

theorem view_recoveries (db : Db) (rows : List RecoveryEvent) :
    view Claims.apply db (rows.map .insertRecoveryEvent) = { db with recoveryEvents := db.recoveryEvents ++ rows } := by
  induction rows generalizing db with
  | nil => simp
  | cons row rows ih =>
    rw [List.map_cons, view_cons, ih]
    simp [Claims.apply]

theorem ResolveClaimRun.view {input : ResolveClaimInput} (run : ResolveClaimRun sha256 tx startedAt input log)
    (db : Db) :
    (view Claims.apply db log.writes).claims =
        db.claims.map (Claim.updateStatus input.clientId input.claimId run.newStatus) ∧
      (view Claims.apply db log.writes).recoveryEvents = db.recoveryEvents ++ run.rows ∧
      (view Claims.apply db log.writes).auditEvents.filter isTerminalEvent =
        db.auditEvents.filter isTerminalEvent ++ run.events := by
  have hwrites : log.writes = run.rows.map .insertRecoveryEvent ++
    .updateClaimStatus input.clientId input.claimId run.newStatus :: (run.aside ++ run.event) := by
    rw [run.writes, ResolveClaimRun.rows, List.append_assoc, List.cons_append]
  rw [hwrites, view_append, view_recoveries, view_cons, view_append]
  obtain ⟨hc, hr, ha⟩ := view_aside run.aside_ok
  rcases run.event_ok with ⟨e, he, hof, -⟩ | ⟨he, -⟩
  · have hterminal := isTerminalEvent_of_isEventOf run.outcome.not_open hof
    rw [ResolveClaimRun.events, he]
    refine ⟨hc, hr, ?_⟩
    change List.filter isTerminalEvent (_ ++ [e]) = _ ++ [e]
    rw [List.filter_append, ha, List.filter_cons_of_pos hterminal]
    rfl
  · rw [ResolveClaimRun.events, he]
    refine ⟨hc, hr, ?_⟩
    rw [view_nil, ha]
    exact (List.append_nil _).symm

/-- Its writes: recoveries, the new status, and writes on nothing of claims but terminal events. -/
theorem ResolveClaimRun.mem_writes {input : ResolveClaimInput}
    (run : ResolveClaimRun sha256 tx startedAt input log) {w : Write} (h : w ∈ log.writes) :
    (∃ row ∈ run.rows, w = .insertRecoveryEvent row) ∨
      w = .updateClaimStatus input.clientId input.claimId run.newStatus ∨
      w.Aside ∨ ∃ e, w = .insertAuditEvent e := by
  rw [run.writes, List.append_assoc, List.mem_append, List.cons_append, List.mem_cons, List.mem_append] at h
  rcases h with hrecovery | rfl | haside | hevent
  · obtain ⟨row, hrow, rfl⟩ := List.mem_map.mp hrecovery
    exact .inl ⟨row, hrow, rfl⟩
  · exact .inr (.inl rfl)
  · exact .inr (.inr (.inl (run.aside_ok w haside)))
  · rcases run.event_ok with ⟨e, he, -⟩ | ⟨he, -⟩ <;> rw [he] at hevent
    · exact .inr (.inr (.inr ⟨e, List.mem_singleton.mp hevent⟩))
    · cases hevent

/-- What a finished transaction is: a creation may have found its claim there and written nothing. -/
inductive Finished (sha256 : String → ℕ) (tx startedAt : ℕ) (log : Log Db Write LockKey) : Call → Prop
  | nothing {input : CreateClaimInput} : log.writes = [] →
      Finished sha256 tx startedAt log (.createClaimFromDispute input)
  | created {input : CreateClaimInput} (run : CreateClaimRun tx input log) :
      Finished sha256 tx startedAt log (.createClaimFromDispute input)
  | recovered {input : PartialRecoveryInput} (run : PartialRecoveryRun tx input log) :
      Finished sha256 tx startedAt log (.recordPartialRecovery input)
  | resolved {input : ResolveClaimInput} (run : ResolveClaimRun sha256 tx startedAt input log) :
      Finished sha256 tx startedAt log (.resolveClaim input)

theorem finished {call : Call} {r : Result}
    (h : Ends Claims.apply ((claimsSystem D sha256).body call tx startedAt) .empty r log) :
    Finished sha256 tx startedAt log call := by
  cases call with
  | createClaimFromDispute input =>
    simp only [claimsSystem, ends_bind, ends_pure] at h
    obtain ⟨r, log', h, -, rfl⟩ := h
    rcases createClaimFromDispute_ends h with hnone | ⟨⟨run⟩⟩
    · exact .nothing hnone
    · exact .created run
  | recordPartialRecovery input =>
    simp only [claimsSystem, ends_bind, ends_pure] at h
    obtain ⟨r, log', h, -, rfl⟩ := h
    obtain ⟨run⟩ := recordPartialRecovery_ends h
    exact .recovered run
  | resolveClaim input =>
    simp only [claimsSystem, ends_bind, ends_pure] at h
    obtain ⟨r, log', h, -, rfl⟩ := h
    obtain ⟨run⟩ := resolveClaim_ends h
    exact .resolved run

end effect

end Claims
