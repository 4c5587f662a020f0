import FreightAuditor.Claims.SerialHistory

/- Which open claims can be closed as recovered.

   A full recovery brings in the rest of the claimed amount, and an amount is positive: so a claim that
   has been recovered to the last cent by partial recoveries has none that is accepted.
   `closable_iff` says that an open claim of a history can be closed as recovered exactly if something
   is left; the audit event of its closing is free, since the id of an event is read back (`IdNamed`). -/
namespace Claims

open DecimalJs DecimalText PgNumeric ReadCommitted ExceptOk

/-! ## What the ids of events say -/

section

variable (sha256 : String → ℕ)

/-- The id is made of a tenant, a row and a name; and if the name is that of a terminal event, the
event is one, of the row. -/
def IdNamed (e : AuditEvent) : Prop :=
  ∃ (clientId rowId : ℕ) (name : String), e.id = deterministicAuditEventId sha256 [toString clientId, toString rowId, name] ∧
    (name ∈ claimTerminalEventNames → isTerminalEvent e = true ∧ e.entityId = some rowId)

/-- Events have named ids, and claims a currency. -/
def Write.Named (_ : List LockKey) : Write → Prop
  | .insertAuditEvent row => IdNamed sha256 row
  | .insertClaim row => ∃ currency, row.currency = some currency ∧ currencyFormat currency = true
  | _ => True

variable {D : Type} [Decimal D] {sha256} {tx startedAt : ℕ}

theorem writeAuditEvent_named {id : ℕ} {value : AuditEventEvidence}
    (h : ∀ recordedAt, IdNamed sha256 { value with id := id, recordedAt := recordedAt }) :
    Covered (Write.Named sha256) (writeAuditEvent startedAt id value) := by
  refine covered_exec (fun db created ws hf w hw => ?_)
  split at hf
  · obtain ⟨-, rfl⟩ := Prod.mk.inj (Except.ok.inj hf)
    obtain rfl := List.mem_singleton.mp hw
    exact h startedAt
  · split at hf
    · obtain ⟨-, rfl⟩ := Prod.mk.inj (Except.ok.inj hf)
      cases hw
    · cases hf

theorem insertRecoveryEvent_named {clientId claimId : ℕ} {finding : Option ℕ} {amount : String} {currency : Option String} :
    Covered (Write.Named sha256) (insertRecoveryEvent tx clientId claimId finding amount currency) := by
  refine covered_exec (fun db id ws hf w hw => ?_)
  simp only [bind_eq_ok, throw_bind, ite_throw_eq_ok, pure_eq_ok, Prod.mk.injEq] at hf
  obtain ⟨n, -, -, -, -, -, -, rfl⟩ := hf
  obtain rfl := List.mem_singleton.mp hw
  trivial

theorem updateClaimStatus_named {clientId claimId : ℕ} {status : ClaimStatus} :
    Covered (Write.Named sha256) (updateClaimStatus clientId claimId status) := by
  refine covered_exec (fun db u ws hf w hw => ?_)
  obtain ⟨-, rfl⟩ := Prod.mk.inj (Except.ok.inj hf)
  obtain rfl := List.mem_singleton.mp hw
  trivial

/-- A name that is not a terminal event's. -/
theorem idNamed_of_not_terminal {e : AuditEvent} {clientId rowId : ℕ} {name : String} (hname : name ∉ claimTerminalEventNames)
    (h : e.id = deterministicAuditEventId sha256 [toString clientId, toString rowId, name]) : IdNamed sha256 e :=
  ⟨clientId, rowId, name, h, fun hmem => absurd hmem hname⟩

theorem updateFindingStatus_named {clientId finding : ℕ} {status : VarianceStatus} {note : Option String} {actor : Option ℕ} :
    Covered (Write.Named sha256) (updateFindingStatus sha256 tx startedAt clientId finding status note actor) := by
  refine covered_bind (covered_exec fun db old ws hf w hw => ?_) (fun old => ?_)
  · split at hf
    · obtain ⟨-, rfl⟩ := Prod.mk.inj (Except.ok.inj hf)
      cases hw
    · obtain ⟨-, rfl⟩ := Prod.mk.inj (Except.ok.inj hf)
      simp only [List.mem_cons, List.not_mem_nil, or_false] at hw
      rcases hw with rfl | rfl
      · trivial
      · trivial
  · cases old with
    | none => exact covered_pure
    | some fromStatus =>
      refine covered_bind (writeAuditEvent_named fun recordedAt => ?_) (fun _ => covered_pure)
      exact idNamed_of_not_terminal (by decide) rfl

theorem insertClaim_named {clientId disputeId : ℕ} {amount currency : String} :
    Covered (Write.Named sha256) (insertClaim tx clientId disputeId amount currency) := by
  refine covered_exec (fun db id ws hf w hw => ?_)
  simp only [bind_eq_ok, throw_bind, ite_throw_eq_ok, Bool.not_eq_true', Bool.not_eq_false] at hf
  obtain ⟨n, -, hcurrency, hf⟩ := hf
  split at hf
  · obtain ⟨-, rfl⟩ := Prod.mk.inj (pure_eq_ok.mp hf)
    cases hw
  · obtain ⟨-, rfl⟩ := Prod.mk.inj (pure_eq_ok.mp (ite_throw_eq_ok.mp hf).2)
    obtain rfl := List.mem_singleton.mp hw
    exact ⟨currency, rfl, hcurrency⟩

theorem createClaimFromDispute_named {input : CreateClaimInput} :
    Covered (Write.Named sha256) (createClaimFromDispute D sha256 tx startedAt input) := by
  refine covered_bind covered_query (fun dispute => ?_)
  cases dispute with
  | none => trivial
  | some dispute =>
    refine covered_bind covered_query (fun existing => ?_)
    cases existing with
    | some existing => exact covered_pure
    | none =>
      refine covered_ofExcept (fun v _ => covered_bind (covered_bind covered_query fun rows => ?_) fun _ =>
        covered_bind insertClaim_named fun inserted => ?_)
      · split
        · trivial
        · exact covered_pure
      · cases inserted with
        | none =>
          refine covered_bind covered_query (fun raced => ?_)
          cases raced with
          | none => trivial
          | some raced => exact covered_pure
        | some claimId =>
          refine covered_bind (writeAuditEvent_named fun recordedAt => ?_) (fun _ => covered_pure)
          exact idNamed_of_not_terminal created_not_terminal rfl

theorem recordPartialRecovery_named {input : PartialRecoveryInput} :
    Covered (Write.Named sha256) (recordPartialRecovery D sha256 tx startedAt input) := by
  rw [recordPartialRecovery]
  split
  · trivial
  refine covered_bind covered_query (fun claim => ?_)
  cases claim with
  | none => trivial
  | some claim =>
    refine covered_bind covered_query (fun total => covered_ofExcept (fun v _ =>
      covered_bind insertRecoveryEvent_named (fun id => covered_bind (writeAuditEvent_named fun recordedAt => ?_)
        (fun _ => covered_pure))))
    exact idNamed_of_not_terminal (by decide) rfl

theorem resolveClaim_named {input : ResolveClaimInput} :
    Covered (Write.Named sha256) (resolveClaim D sha256 tx startedAt input) := by
  rw [resolveClaim]
  split
  · trivial
  refine covered_bind covered_query (fun claim => ?_)
  cases claim with
  | none => trivial
  | some claim =>
    refine covered_bind covered_query (fun total => covered_ofExcept (fun v hv => ?_))
    have hstatus : v.newStatus ≠ .open := by
      obtain ⟨-, -, -, hkind, -⟩ := validateClaimResolution_ok hv
      rcases hkind with ⟨-, -, hs⟩ | ⟨-, hs⟩ | ⟨-, -, hs⟩ <;> simp [hs]
    refine covered_bind ?_ (fun id => covered_bind updateClaimStatus_named fun _ =>
      covered_bind ?_ fun _ => covered_bind (writeAuditEvent_named fun recordedAt => ?_) fun _ => covered_pure)
    · split
      · exact covered_pure
      · exact covered_bind insertRecoveryEvent_named (fun _ => covered_pure)
    · split
      · exact updateFindingStatus_named
      · exact covered_pure
    · refine ⟨input.clientId, input.claimId, claimEvent v.newStatus, rfl, fun _ => ⟨?_, rfl⟩⟩
      exact isTerminalEvent_of_isEventOf hstatus ⟨rfl, rfl, rfl, rfl⟩

theorem claimsSystem_named (call : Call) (tx startedAt : ℕ) :
    Covered (Write.Named sha256) ((claimsSystem D sha256).body call tx startedAt) := by
  cases call with
  | createClaimFromDispute input => exact covered_bind createClaimFromDispute_named fun _ => covered_pure
  | recordPartialRecovery input => exact covered_bind recordPartialRecovery_named fun _ => covered_pure
  | resolveClaim input => exact covered_bind resolveClaim_named fun _ => covered_pure

end

/-! ## What holds of the tables of a history -/

section

variable {db : Db} {ws : List Write}

theorem mem_view_auditEvents {e : AuditEvent} (h : e ∈ (view apply db ws).auditEvents) :
    e ∈ db.auditEvents ∨ .insertAuditEvent e ∈ ws := by
  induction ws generalizing db with
  | nil => exact .inl h
  | cons w ws ih =>
    rw [view_cons] at h
    rcases ih h with hold | hnew
    · cases w with
      | insertAuditEvent row =>
        rcases List.mem_append.mp hold with hold | hrow
        · exact .inl hold
        · exact .inr (List.mem_singleton.mp hrow ▸ List.mem_cons_self)
      | _ => exact .inl hold
    · exact .inr (List.mem_cons_of_mem _ hnew)

theorem updateStatus_currency (c : Claim) (accountId claimId : ℕ) (status : ClaimStatus) :
    (c.updateStatus accountId claimId status).currency = c.currency := by
  rw [Claim.updateStatus]
  split <;> rfl

theorem mem_view_claims {c : Claim} (h : c ∈ (view apply db ws).claims) :
    ∃ c₀, (c₀ ∈ db.claims ∨ .insertClaim c₀ ∈ ws) ∧ c.currency = c₀.currency := by
  induction ws generalizing db with
  | nil => exact ⟨c, .inl h, rfl⟩
  | cons w ws ih =>
    rw [view_cons] at h
    obtain ⟨c₁, hc₁, hcurrency⟩ := ih h
    rcases hc₁ with hold | hnew
    · cases w with
      | insertClaim row =>
        rcases List.mem_append.mp hold with hold | hrow
        · exact ⟨c₁, .inl hold, hcurrency⟩
        · exact ⟨c₁, .inr (List.mem_singleton.mp hrow ▸ List.mem_cons_self), hcurrency⟩
      | updateClaimStatus accountId claimId status =>
        obtain ⟨c₀, hc₀, rfl⟩ := List.mem_map.mp hold
        exact ⟨c₀, .inl hc₀, hcurrency.trans (updateStatus_currency c₀ _ _ _)⟩
      | _ => exact ⟨c₁, .inl hold, hcurrency⟩
    · exact ⟨c₁, .inr (List.mem_cons_of_mem _ hnew), hcurrency⟩

end

theorem Outcome.positive {prior claimed : ℤ} {kind : ClaimResolutionKind} {n : Amount} {status : ClaimStatus}
    (h : Outcome prior claimed kind (some n) status) : 0 < n.units := by
  cases h with
  | writeOff _ hpos _ => exact hpos
  | full _ hpos _ => exact hpos

theorem Outcome.recovers {prior claimed : ℤ} {recovery : Option Amount} {status : ClaimStatus}
    (h : Outcome prior claimed .FULL_RECOVERY recovery status) : status = .recovered ∧ prior < claimed := by
  cases h with
  | full n hpos hsum => exact ⟨rfl, by omega⟩

/-- The rows that a history has written. -/
structure Written (sha256 : String → ℕ) (s : Serial Db) : Prop where
  wellFormed : WellFormed s.db
  ids : ∀ e ∈ s.db.auditEvents, IdNamed sha256 e
  terminal : ∀ e ∈ s.db.auditEvents.filter isTerminalEvent, ∃ c ∈ s.db.claims, e.entityId = some c.id ∧ c.status ≠ .open
  recoveries : ∀ r ∈ s.db.recoveryEvents, r.id < s.next ∧ 0 < r.amountRecovered.units
  currency : ∀ c ∈ s.db.claims, ∃ currency, c.currency = some currency ∧ currencyFormat currency = true

section

variable {D : Type} [Decimal D] {sha256 : String → ℕ} {s s' : Serial Db} {call : Call}

theorem Written.step (h : Written sha256 s) (hstep : serialStep (claimsSystem D sha256) s call = some s') : Written sha256 s' := by
  obtain ⟨r, log, hcommit, hseen, rfl⟩ := accepted_commit hstep
  have hends := hcommit.ends
  have hnamed := (claimsSystem_named call s.next s.next).ends (fun _ _ w _ hw => by cases w <;> exact hw) hends
    (fun w hw => absurd hw List.not_mem_nil)
  refine ⟨wellFormed_commit hcommit h.wellFormed, fun e he => ?_, ?_, ?_, fun c hc => ?_⟩
  · rcases mem_view_auditEvents he with hold | hnew
    · exact h.ids e hold
    · exact hnamed _ hnew
  · cases finished hends with
    | nothing hnone =>
      rw [hnone]
      exact h.terminal
    | created run =>
      obtain ⟨hclaims, -, hevents⟩ := run.view s.db
      rw [hclaims, hevents]
      intro e he
      obtain ⟨c, hc, hentity, hstatus⟩ := h.terminal e he
      exact ⟨c, List.mem_append_left _ hc, hentity, hstatus⟩
    | recovered run =>
      obtain ⟨hclaims, -, hevents⟩ := run.view s.db
      rw [hclaims, hevents]
      exact h.terminal
    | @resolved input run =>
      obtain ⟨hclaims, -, hevents⟩ := run.view s.db
      rw [hclaims, hevents]
      intro e he
      rcases List.mem_append.mp he with hold | hnew
      · obtain ⟨c, hc, hentity, hstatus⟩ := h.terminal e hold
        refine ⟨_, List.mem_map_of_mem hc, ?_, ?_⟩
        · rw [(c.updateStatus_continues run.outcome.not_open).id]
          exact hentity
        · rw [Claim.updateStatus]
          split
          · exact run.outcome.not_open
          · exact hstatus
      · -- the event of the claim that was found
        obtain ⟨hmem, hacc, hid⟩ := findClaim_some run.found
        have hdb : run.claimDb = s.db := hseen _ (List.mem_of_getElem? run.seen_claim)
        rw [hdb] at hmem
        refine ⟨_, List.mem_map_of_mem hmem, ?_, ?_⟩
        · rw [(run.claim.updateStatus_continues run.outcome.not_open).id, hid]
          rcases run.event_ok with ⟨e', he', hof, -⟩ | ⟨hnone, -⟩
          · rw [ResolveClaimRun.events, he'] at hnew
            obtain rfl := List.mem_singleton.mp hnew
            exact hof.2.2.1
          · rw [ResolveClaimRun.events, hnone] at hnew
            cases hnew
        · rw [Claim.updateStatus, if_pos ⟨hacc, hid⟩]
          exact run.outcome.not_open
  · have hold : ∀ r ∈ s.db.recoveryEvents, r.id < s.next + 1 ∧ 0 < r.amountRecovered.units := fun r hr =>
      ⟨Nat.lt_succ_of_lt (h.recoveries r hr).1, (h.recoveries r hr).2⟩
    cases finished hends with
    | nothing hnone =>
      rw [hnone]
      exact hold
    | created run =>
      obtain ⟨-, hr, -⟩ := run.view s.db
      rw [hr]
      exact hold
    | recovered run =>
      obtain ⟨-, hr, -⟩ := run.view s.db
      rw [hr]
      refine List.forall_mem_append.mpr ⟨hold, fun r hmem => ?_⟩
      obtain rfl := List.mem_singleton.mp hmem
      exact ⟨Nat.lt_succ_self _, run.positive⟩
    | resolved run =>
      obtain ⟨-, hr, -⟩ := run.view s.db
      rw [hr]
      refine List.forall_mem_append.mpr ⟨hold, fun r hmem => ?_⟩
      obtain ⟨n, hn, rfl⟩ := List.mem_map.mp hmem
      refine ⟨Nat.lt_succ_self _, ?_⟩
      have houtcome := run.outcome
      rw [Option.mem_toList] at hn
      rw [Option.mem_def.mp hn] at houtcome
      exact houtcome.positive
  · obtain ⟨c₀, hc₀, hcurrency⟩ := mem_view_claims hc
    rw [hcurrency]
    rcases hc₀ with hold | hnew
    · exact h.currency c₀ hold
    · exact hnamed _ hnew

theorem Written.final {calls : List Call} (h : Written sha256 s)
    (hrun : Runs.final (serialStep (claimsSystem D sha256)) s calls = some s') : Written sha256 s' := by
  induction calls generalizing s with
  | nil =>
    obtain rfl := Option.some.inj hrun
    exact h
  | cons call rest ih =>
    rw [Runs.final, List.foldlM_cons] at hrun
    obtain ⟨mid, hmid, hrest⟩ := Option.bind_eq_some_iff.mp hrun
    exact ih (h.step hmid) hrest

end

/-! ## The rest of a claim -/

/-- An event's tenant, row and name are read back from its id. -/
theorem deterministicAuditEventId_inj {sha256 : String → ℕ} (hsha : Function.Injective sha256) {a a' b b' : ℕ}
    {name name' : String} (h : deterministicAuditEventId sha256 [toString a, toString b, name] =
      deterministicAuditEventId sha256 [toString a', toString b', name']) : a = a' ∧ b = b' ∧ name = name' := by
  have htext : Nat.toDigits 10 a ++ '\x00' :: (Nat.toDigits 10 b ++ '\x00' :: name.toList) =
      Nat.toDigits 10 a' ++ '\x00' :: (Nat.toDigits 10 b' ++ '\x00' :: name'.toList) := by
    have hparts := congrArg String.toList (hsha h)
    have hnul : "\x00".toList = ['\x00'] := by decide
    simpa [hnul, Nat.toString_eq_repr, Nat.toList_repr] using hparts
  have hfree (n : ℕ) : '\x00' ∉ Nat.toDigits 10 n := JsText.not_mem_toDigits (by decide) n
  obtain ⟨ha, hrest⟩ := JsText.append_delimiter_inj (hfree a) (hfree a') htext
  obtain ⟨hb, hname⟩ := JsText.append_delimiter_inj (hfree b) (hfree b') hrest
  exact ⟨JsText.toDigits_injective ha, JsText.toDigits_injective hb, String.toList_inj.mp hname⟩

/-- A positive number of units is an amount as inputs write it. -/
theorem amountFormat_fixedText {n : ℤ} (h : 0 < n) : amountFormat (String.ofList (fixedText 4 n)) = true := by
  have hwhole := toDigits_isDigit (n.natAbs / 10 ^ 4)
  have hlength : (padLeft 4 (Nat.toDigits 10 (n.natAbs % 10 ^ 4))).length = 4 := by
    refine padLeft_length ?_
    exact Nat.length_toDigits_le_iff (by decide) (by decide) |>.mpr (Nat.mod_lt _ (by decide))
  have htext : fixedText 4 n =
      Nat.toDigits 10 (n.natAbs / 10 ^ 4) ++ '.' :: padLeft 4 (Nat.toDigits 10 (n.natAbs % 10 ^ 4)) := by
    rw [fixedText, if_neg (by omega), List.nil_append]
    rfl
  have hdrop : (fixedText 4 n).dropWhile Char.isDigit = '.' :: padLeft 4 (Nat.toDigits 10 (n.natAbs % 10 ^ 4)) := by
    rw [htext]
    exact (takeWhile_digits hwhole (by simp)).2
  rw [amountFormat, String.toList_ofList, Bool.and_eq_true, decide_eq_true_eq, decimals, hdrop, List.length_cons, hlength]
  refine ⟨isPlainDecimal_iff.mpr ⟨_, _, Nat.toDigits_ne_nil, hwhole, padLeft_isDigit (toDigits_isDigit _), .inr ⟨htext, ?_⟩⟩,
    le_refl _⟩
  intro hnil
  rw [hnil] at hlength
  cases hlength

theorem length_of_currencyFormat {currency : String} (h : currencyFormat currency = true) : JsText.length currency = 3 := by
  rw [currencyFormat, Bool.and_eq_true, beq_iff_eq, List.all_eq_true] at h
  obtain ⟨hlength, hupper⟩ := h
  have hone : currency.toList.map (fun c => if c.toNat < 0x10000 then 1 else 2) = currency.toList.map fun _ => 1 := by
    refine List.map_congr_left fun c hc => if_pos ?_
    have hletter : decide (65 ≤ c.val ∧ c.val ≤ 90) = true := hupper c hc
    have hle : c.toNat ≤ 90 := (of_decide_eq_true hletter).2
    omega
  rw [JsText.length, hone]
  simp [hlength]

section

variable {D : Type} [Decimal D]

/-- A full recovery of the rest is accepted. -/
theorem validateClaimResolution_rest {claim : ResolvableClaimRow} {c p : ℤ} {n : Amount} {priorTotal text currency : String}
    (hopen : claim.status = .open) (hclaim : ReadsAs 4 claim.amountClaimed c) (hc : |c| < 10 ^ 18) (hprior : ReadsAs 4 priorTotal p)
    (htext : ReadsAs 4 text n.units) (hpos : 0 < n.units) (hsum : p + n.units = c) (hcurrency : claim.currency = some currency) :
    validateClaimResolution D claim .FULL_RECOVERY priorTotal (some text) (some currency) =
      .ok ⟨claim.id, .FULL_RECOVERY, some text, some currency, .recovered⟩ := by
  obtain ⟨dc, hdc, hdenc⟩ := decimal_readsAs (D := D) hclaim
  obtain ⟨dp, hdp, hdenp⟩ := decimal_readsAs (D := D) hprior
  obtain ⟨dn, hdn, hdenn⟩ := decimal_readsAs (D := D) htext
  have hzero : Decimal.lessThanOrEqualTo dn (Decimal.ofNumber (JsNumber.ofNat 0)) = false := by
    rw [lessThanOrEqualTo_zero fourth_inRange hdenn, decide_eq_false_iff_not]
    omega
  have hequal : Decimal.equals (Decimal.plus dp dn) dc = true := by
    rw [sum_equals (by decide) fourth_inRange hdenp hdenn n.inRange hdenc hc]
    exact decide_eq_true hsum
  have hvalid : validateRecoveryAmountAndCurrency D text (some currency) claim.currency claimResolutionErrors =
      .ok (text, currency) := by
    simp [validateRecoveryAmountAndCurrency, hdn, hzero, hcurrency]
  have hterminal : isClaimTerminalStatus claim.status = false := by
    rw [hopen]
    rfl
  simp [validateClaimResolution, hterminal, hvalid, hdp, hdn, hdc, hequal]

/-! ## Closing a claim -/

/-- A full recovery of what is left of a claim. -/
def closing (c : Claim) (recovered : ℤ) : ResolveClaimInput :=
  ⟨c.accountId, c.id, .FULL_RECOVERY, some (String.ofList (fixedText 4 (c.amountClaimed.units - recovered))), c.currency, none⟩

variable {sha256 : String → ℕ} {s : Serial Db} {c : Claim}

theorem writeAuditEvent_alone {db : Db} {log : Log Db Write LockKey} {startedAt id : ℕ} {value : AuditEventEvidence}
    (hview : (view apply db log.writes).auditEvents = db.auditEvents) (hfree : ∀ e ∈ db.auditEvents, e.id ≠ id) :
    alone apply db (writeAuditEvent startedAt id value) log =
      .ok (true, log.add db [.auditEvent id] [.insertAuditEvent { value with id := id, recordedAt := startedAt }]) := by
  have hnone : (view apply db log.writes).auditEvents.find? (·.id == id) = none := by
    rw [hview]
    exact List.find?_eq_none.mpr fun e he => by simpa using hfree e he
  exact alone_exec_ok.mpr ⟨_, by rw [hnone], rfl⟩

theorem updateClaimStatus_alone {db : Db} {log : Log Db Write LockKey} {clientId claimId : ℕ} {status : ClaimStatus} :
    alone apply db (updateClaimStatus clientId claimId status) log =
      .ok ((), log.add db [.claim claimId] [.updateClaimStatus clientId claimId status]) := rfl

theorem alone_ofExcept {R : Type} {db : Db} {log : Log Db Write LockKey} {r : R} :
    alone apply db (.ofExcept (.ok r) : Statement R) log = .ok (r, log) := rfl

/-- The call on what is left goes through. -/
theorem closing_runs (hsha : Function.Injective sha256) (h : Written sha256 s) (hc : c ∈ s.db.claims)
    (hopen : c.status = .open) (hleft : recoveredTotal s.db c.accountId c.id < c.amountClaimed.units) :
    ∃ r log, alone apply s.db (resolveClaim D sha256 s.next s.next (closing c (recoveredTotal s.db c.accountId c.id))) .empty =
      .ok (r, log) := by
  obtain ⟨currency, hcurrency, hformat⟩ := h.currency c hc
  let recovered := recoveredTotal s.db c.accountId c.id
  have hrecovered : 0 ≤ recovered := by
    refine List.sum_nonneg fun units hunits => ?_
    obtain ⟨amount, hamount, rfl⟩ := List.mem_map.mp hunits
    obtain ⟨r, hr, rfl⟩ := List.mem_map.mp hamount
    exact (h.recoveries r (List.mem_filter.mp hr).1).2.le
  have hclaimed := c.amountClaimed.inRange
  have hrange : |c.amountClaimed.units - recovered| < 10 ^ 18 := by
    rw [abs_of_pos (by omega)]
    rw [abs_of_pos (by omega)] at hclaimed
    omega
  let rest : Amount := ⟨c.amountClaimed.units - recovered, hrange⟩
  have hpos : 0 < rest.units := by
    show 0 < c.amountClaimed.units - recovered
    omega
  have hvalid : (closing c recovered).valid = true := by
    rw [ResolveClaimInput.valid, Bool.and_eq_true]
    refine ⟨amountFormat_fixedText hpos, ?_⟩
    simp [closing, hcurrency, length_of_currencyFormat hformat]
  have hfind : findClaim s.db c.accountId c.id = some c := by
    obtain ⟨found, hfound⟩ : ∃ found, findClaim s.db c.accountId c.id = some found :=
      Option.isSome_iff_exists.mp (List.find?_isSome.mpr ⟨c, hc, by simp⟩)
    rw [hfound, found_eq h.wellFormed rfl hc rfl hfound]
  have hvalidated : validateClaimResolution D ⟨⟨c.id, c.amountClaimed.text, c.currency⟩, c.status⟩ .FULL_RECOVERY
      (sumText ((recoveriesOf s.db c.accountId c.id).map RecoveryEvent.amountRecovered)) (some rest.text) (some currency) =
      .ok ⟨c.id, .FULL_RECOVERY, some rest.text, some currency, .recovered⟩ :=
    validateClaimResolution_rest hopen (readsAs_text c.amountClaimed) c.amountClaimed.inRange (readsAs_sumText _)
      (readsAs_text rest) hpos (by show recovered + (c.amountClaimed.units - recovered) = _; omega) hcurrency
  have hfreeId : ∀ e ∈ s.db.auditEvents, e.id ≠ deterministicAuditEventId sha256
      [toString c.accountId, toString c.id, claimEvent .recovered] := by
    intro e he hid
    obtain ⟨clientId, rowId, name, hname, hterminal⟩ := h.ids e he
    obtain ⟨-, rfl, rfl⟩ := deterministicAuditEventId_inj hsha (hname.symm.trans hid)
    obtain ⟨hevent, hentity⟩ := hterminal List.mem_cons_self
    obtain ⟨other, hother, hotherId, hstatus⟩ := h.terminal e (List.mem_filter.mpr ⟨he, hevent⟩)
    have hsame : c.id = other.id := Option.some.inj (hentity.symm.trans hotherId)
    rw [← eq_of_id h.wellFormed hc hother hsame] at hstatus
    exact hstatus hopen
  have hinsert : ∀ log : Log Db Write LockKey, log.writes = [] → alone apply s.db (insertRecoveryEvent s.next c.accountId c.id none
      rest.text (some currency)) log =
        .ok (s.next, log.add s.db [] [.insertRecoveryEvent ⟨s.next, c.accountId, some c.id, none, rest, some currency⟩]) := by
    intro log hlog
    refine alone_exec_ok.mpr ⟨_, ?_, rfl⟩
    have hpkey : s.db.recoveryEvents.any (·.id == s.next) = false := by
      refine List.any_eq_false.mpr fun r hr => ?_
      have hlt := (h.recoveries r hr).1
      simp only [beq_iff_eq]
      omega
    have hfkey : s.db.claims.any (·.id == c.id) = true := List.any_eq_true.mpr ⟨c, hc, by simp⟩
    simp [hlog, amountColumn, hformat, hpkey, hfkey]
  have hv : validateClaimResolution D ⟨⟨c.id, c.amountClaimed.text, c.currency⟩, c.status⟩ .FULL_RECOVERY
      (sumText ((recoveriesOf s.db c.accountId c.id).map RecoveryEvent.amountRecovered)) (some rest.text) c.currency =
      .ok ⟨c.id, .FULL_RECOVERY, some rest.text, some currency, .recovered⟩ := by
    rw [hcurrency] at hvalidated ⊢
    exact hvalidated
  have htext : String.ofList (fixedText 4 (c.amountClaimed.units - recoveredTotal s.db c.accountId c.id)) = rest.text := rfl
  rw [resolveClaim, if_neg (by rw [hvalid]; decide)]
  simp only [selectClaim, selectPriorTotal, alone_bind, alone_query, ok_bind, Log.empty, view_nil, Log.add_writes, List.append_nil,
    closing, hfind, htext, hv, alone_ofExcept, alone_pure]
  rw [hinsert _ rfl]
  simp only [ok_bind]
  rw [updateClaimStatus_alone]
  simp only [ok_bind]
  rw [writeAuditEvent_alone rfl hfreeId]
  exact ⟨_, _, rfl⟩

/-- A claim of a history is closed as recovered by a call exactly if something is left of it. -/
theorem closes_iff (hsha : Function.Injective sha256) (h : Written sha256 s) (hc : c ∈ s.db.claims) (hopen : c.status = .open) :
    (∃ input : ResolveClaimInput, input.clientId = c.accountId ∧ input.claimId = c.id ∧ input.kind = .FULL_RECOVERY ∧
        ∃ s', serialStep (claimsSystem D sha256) s (.resolveClaim input) = some s' ∧
          { c with status := .recovered } ∈ s'.db.claims) ↔
      recoveredTotal s.db c.accountId c.id < c.amountClaimed.units := by
  constructor
  · rintro ⟨input, haccount, hid, hkind, s', hstep, -⟩
    obtain ⟨r, log, hcommit, hseen, -⟩ := accepted_commit hstep
    cases finished hcommit.ends with
    | resolved run =>
      have hclaimDb : run.claimDb = s.db := hseen _ (List.mem_of_getElem? run.seen_claim)
      have htotalDb : run.totalDb = s.db := hseen _ (List.mem_of_getElem? run.seen_total)
      have hclaim : run.claim = c := found_eq h.wellFormed hclaimDb hc hid.symm run.found
      have houtcome := run.outcome
      rw [hkind, hclaim, htotalDb, haccount, hid] at houtcome
      exact houtcome.recovers.2
  · intro hleft
    obtain ⟨r, log, hruns⟩ := closing_runs (D := D) hsha h hc hopen hleft
    have hstep : serialStep (claimsSystem D sha256) s (.resolveClaim (closing c (recoveredTotal s.db c.accountId c.id))) =
        some ⟨view Claims.apply s.db log.writes, s.next + 1⟩ := by
      have hbody : alone (claimsSystem D sha256).apply s.db ((claimsSystem D sha256).body
          (.resolveClaim (closing c (recoveredTotal s.db c.accountId c.id))) s.next s.next) .empty = .ok (.resolveClaim r, log) := by
        show alone apply s.db (resolveClaim D sha256 s.next s.next _ >>= fun r => pure (Result.resolveClaim r)) .empty = _
        rw [alone_bind, hruns]
        rfl
      rw [serialStep, hbody]
      rfl
    refine ⟨_, rfl, rfl, rfl, _, hstep, ?_⟩
    obtain ⟨r', log', hcommit, hseen, hafter⟩ := accepted_commit hstep
    rw [hafter]
    cases finished hcommit.ends with
    | resolved run =>
      have hstatus : run.newStatus = .recovered := run.outcome.recovers.1
      rw [(run.view s.db).1]
      refine List.mem_map.mpr ⟨c, hc, ?_⟩
      rw [Claim.updateStatus, hstatus]
      exact if_pos ⟨rfl, rfl⟩

/-- A history starts with no claims. -/
theorem written_start {s₀ : Serial Db} (hclaims : s₀.db.claims = []) (hrecoveries : s₀.db.recoveryEvents = [])
    (hevents : s₀.db.auditEvents = []) : Written sha256 s₀ := by
  refine ⟨⟨?_, ?_⟩, ?_, ?_, ?_, ?_⟩
  · rw [hclaims]
    exact List.nodup_nil
  · rw [hrecoveries]
    exact fun r hr => absurd hr List.not_mem_nil
  · rw [hevents]
    exact fun e he => absurd he List.not_mem_nil
  · rw [hevents]
    exact fun e he => absurd he List.not_mem_nil
  · rw [hrecoveries]
    exact fun r hr => absurd hr List.not_mem_nil
  · rw [hclaims]
    exact fun c hc => absurd hc List.not_mem_nil

/-- An open claim of a history that starts with no claims can be closed as recovered exactly if less than the
claimed amount has been recovered. -/
theorem closable_iff (hsha : Function.Injective sha256) (s₀ : Serial Db) (hclaims : s₀.db.claims = [])
    (hrecoveries : s₀.db.recoveryEvents = []) (hevents : s₀.db.auditEvents = []) (calls : List Call) (s : Serial Db)
    (hrun : Runs.final (serialStep (claimsSystem D sha256)) s₀ calls = some s) (c : Claim) (hc : c ∈ s.db.claims)
    (hopen : c.status = .open) :
    (∃ input : ResolveClaimInput, input.clientId = c.accountId ∧ input.claimId = c.id ∧ input.kind = .FULL_RECOVERY ∧
        ∃ s', serialStep (claimsSystem D sha256) s (.resolveClaim input) = some s' ∧
          { c with status := .recovered } ∈ s'.db.claims) ↔
      recoveredTotal s.db c.accountId c.id < c.amountClaimed.units := by
  exact closes_iff hsha ((written_start hclaims hrecoveries hevents).final hrun) hc hopen

end

/-- The characters of a text as the digits of a number: a hash without collisions. -/
def textCode (text : String) : ℕ := text.toList.foldl (fun n c => 1114113 * n + (c.toNat + 1)) 0

theorem textCode_injective : Function.Injective textCode := by
  have hdigit (c : Char) : c.toNat + 1 < 1114113 := by
    have hc : c.toNat < 1114112 := by
      rcases c.valid with h | ⟨-, h⟩
      · exact lt_trans h (by decide)
      · exact h
    omega
  have hlist : ∀ l l' : List Char, l.reverse.foldl (fun n c => 1114113 * n + (c.toNat + 1)) 0 =
      l'.reverse.foldl (fun n c => 1114113 * n + (c.toNat + 1)) 0 → l = l' := by
    intro l
    induction l with
    | nil =>
      intro l' h
      cases l' with
      | nil => rfl
      | cons c rest =>
        rw [List.reverse_cons, List.foldl_append, List.foldl_cons, List.foldl_nil] at h
        simp only [List.reverse_nil, List.foldl_nil] at h
        omega
    | cons c rest ih =>
      intro l' h
      cases l' with
      | nil =>
        rw [List.reverse_cons, List.foldl_append, List.foldl_cons, List.foldl_nil] at h
        simp only [List.reverse_nil, List.foldl_nil] at h
        omega
      | cons c' rest' =>
        rw [List.reverse_cons, List.foldl_append, List.foldl_cons, List.foldl_nil, List.reverse_cons, List.foldl_append,
          List.foldl_cons, List.foldl_nil] at h
        have hc := hdigit c
        have hc' := hdigit c'
        have hlast : c.toNat = c'.toNat := by omega
        have hinit : rest = rest' := ih rest' (by omega)
        rw [hinit, Char.toNat_inj.mp hlast]
  intro a b h
  have hreversed := hlist a.toList.reverse b.toList.reverse (by rw [List.reverse_reverse, List.reverse_reverse]; exact h)
  exact String.toList_inj.mp (List.reverse_injective hreversed)

/-- The history of a claim over 100.00 dollars that partial recoveries have brought in. -/
def recoveredInParts (amounts : List String) : List Call :=
  .createClaimFromDispute ⟨1, 5, none⟩ :: amounts.map fun amount => .recordPartialRecovery ⟨1, 1, amount, "USD", none⟩

def openClaim : Claim := ⟨1, 1, some 5, ⟨1000000, hundred_inRange⟩, some "USD", .open⟩

/-- Where 60.00 have come in, the claim can be closed as recovered. -/
theorem partlyRecovered_closable : ∃ s ∈ Runs.final (serialStep (claimsSystem Ref textCode)) acceptedDispute
    (recoveredInParts ["60.00"]), ∃ input : ResolveClaimInput, input.clientId = 1 ∧ input.claimId = 1 ∧
      input.kind = .FULL_RECOVERY ∧ ∃ s', serialStep (claimsSystem Ref textCode) s (.resolveClaim input) = some s' ∧
        { openClaim with status := .recovered } ∈ s'.db.claims := by
  have hrun : ∃ s ∈ Runs.final (serialStep (claimsSystem Ref textCode)) acceptedDispute (recoveredInParts ["60.00"]),
      openClaim ∈ s.db.claims ∧ recoveredTotal s.db 1 1 < 1000000 := by decide +kernel
  obtain ⟨s, hs, hclaim, hleft⟩ := hrun
  exact ⟨s, hs, (closable_iff textCode_injective acceptedDispute rfl rfl rfl _ s hs openClaim hclaim rfl).mpr hleft⟩

/-- Where all of it has come in by partial recoveries, it cannot. -/
theorem fullyRecovered_stuck : ∃ s ∈ Runs.final (serialStep (claimsSystem Ref textCode)) acceptedDispute
    (recoveredInParts ["60.00", "40.00"]), openClaim ∈ s.db.claims ∧ recoveredTotal s.db 1 1 ≤ 1000000 ∧
      ¬ ∃ input : ResolveClaimInput, input.clientId = 1 ∧ input.claimId = 1 ∧ input.kind = .FULL_RECOVERY ∧
        ∃ s', serialStep (claimsSystem Ref textCode) s (.resolveClaim input) = some s' ∧
          { openClaim with status := .recovered } ∈ s'.db.claims := by
  have hrun : ∃ s ∈ Runs.final (serialStep (claimsSystem Ref textCode)) acceptedDispute (recoveredInParts ["60.00", "40.00"]),
      openClaim ∈ s.db.claims ∧ recoveredTotal s.db 1 1 = 1000000 := by decide +kernel
  obtain ⟨s, hs, hclaim, htotal⟩ := hrun
  have hwritten : Written textCode s := Written.final (@written_start textCode acceptedDispute rfl rfl rfl) hs
  refine ⟨s, hs, hclaim, htotal.le, fun hclosable => ?_⟩
  have hleft : recoveredTotal s.db 1 1 < 1000000 := (closes_iff textCode_injective hwritten hclaim rfl).mp hclosable
  omega

end Claims
