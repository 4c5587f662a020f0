import FreightAuditor.Claims.Recovery

/- One terminal outcome per claim, and the status that `deriveClaimStatus` reads off the
   audit events.

   `resolveClaim` validates the status it read, and updates unconditionally; an
   event of the same status is recognised by its id, one of another status is not.
   `oneOutcome_iff` says along which interleavings every claim has at most one terminal
   event and the derived status is the stored one: those in which each resolution still
   finds the claim open at its commit, or resolved as it resolves it. -/
namespace Claims

open DecimalJs PgNumeric ReadCommitted

/-! ## Deriving the status -/

/-- `TERMINAL_EVENT_TO_STATUS`. -/
def terminalEventToStatus (event : String) : Option ClaimStatus :=
  [ClaimStatus.recovered, .denied, .written_off].find? (fun status => claimEvent status == event)

structure TerminalAuditEvent where
  event : String
  recordedAt : ℕ

structure DeriveClaimStatusResult where
  derivedStatus : ClaimStatus
  cumulativeRecovered : String
  «matches» : Bool
  deriving DecidableEq

/-- The later of two events; the first one where they were recorded at the same time. -/
def laterEvent (latest : Option TerminalAuditEvent) (event : TerminalAuditEvent) : Option TerminalAuditEvent :=
  match latest with
  | none => some event
  | some latest => if event.recordedAt > latest.recordedAt then some event else some latest

section

variable (D : Type) [Decimal D]

def cumulativeRecovered (recoveryEvents : List String) : Except ClaimsError String := do
  let sum ← recoveryEvents.foldlM
    (fun (sum : D) amountRecovered => return Decimal.plus sum (← decimal D amountRecovered))
    (Decimal.ofNumber (JsNumber.ofNat 0))
  return Decimal.toFixed 4 sum

def deriveClaimStatus (storedStatus : ClaimStatus) (terminalEvents : List TerminalAuditEvent)
    (recoveryEvents : List String) : Except ClaimsError DeriveClaimStatusResult := do
  let cumulative ← cumulativeRecovered D recoveryEvents
  let knownTerminalEvents := terminalEvents.filter fun e => (terminalEventToStatus e.event).isSome
  let latest := knownTerminalEvents.foldl laterEvent none
  let derivedStatus := (latest.bind fun e => terminalEventToStatus e.event).getD .open
  return ⟨derivedStatus, cumulative, derivedStatus == storedStatus⟩

/-- The terminal events of a claim. -/
def terminalEventsOf (db : Db) (clientId claimId : ℕ) : List AuditEvent :=
  (db.auditEvents.filter isTerminalEvent).filter fun e =>
    e.clientId == some clientId && e.entityId == some claimId

/-- `deriveClaimStatus` on the rows of a claim. -/
def derivedFor (db : Db) (c : Claim) : Except ClaimsError DeriveClaimStatusResult :=
  deriveClaimStatus D c.status
    ((terminalEventsOf db c.accountId c.id).map fun e => ⟨e.event, e.recordedAt⟩)
    ((recoveriesOf db c.accountId c.id).map fun r => r.amountRecovered.text)

/-- Every claim has at most one terminal event, and the status derived from its events is its own. -/
def OneOutcome (db : Db) : Prop :=
  ∀ c ∈ db.claims, (terminalEventsOf db c.accountId c.id).length ≤ 1 ∧
    (derivedFor D db c).map DeriveClaimStatusResult.derivedStatus = .ok c.status

end

instance (D : Type) [Decimal D] (db : Db) : Decidable (OneOutcome D db) :=
  inferInstanceAs (Decidable (∀ c ∈ db.claims, _))

section

variable {D : Type} [Decimal D]

/-- Stored amounts read back, so summing them does not throw. -/
theorem cumulativeRecovered_ok (amounts : List Amount) :
    ∃ text, cumulativeRecovered D (amounts.map Numeric.text) = .ok text := by
  have hfold : ∀ sum : D, ∃ total : D, (amounts.map Numeric.text).foldlM
      (fun (sum : D) amountRecovered => return Decimal.plus sum (← decimal D amountRecovered)) sum =
        (.ok total : Except ClaimsError D) := by
    induction amounts with
    | nil => exact fun sum => ⟨sum, rfl⟩
    | cons n rest ih =>
      intro sum
      obtain ⟨d, hd, -⟩ := decimal_readsAs (D := D) (readsAs_text n)
      obtain ⟨total, htotal⟩ := ih (Decimal.plus sum d)
      exact ⟨total, by rw [List.map_cons, List.foldlM_cons, hd]; exact htotal⟩
  obtain ⟨total, htotal⟩ := hfold (Decimal.ofNumber (JsNumber.ofNat 0))
  exact ⟨Decimal.toFixed 4 total, by rw [cumulativeRecovered, htotal]; rfl⟩

theorem terminalEventToStatus_claimEvent {status : ClaimStatus} (h : status ≠ .open) :
    terminalEventToStatus (claimEvent status) = some status := by
  cases status with
  | «open» => exact absurd rfl h
  | recovered => decide
  | denied => decide
  | written_off => decide

/-- The event of exactly one status. -/
theorem isTerminalEvent_status {e : AuditEvent} (h : isTerminalEvent e = true) :
    e.entity = "claim" ∧ ∃ status, status ≠ .open ∧ e.event = claimEvent status := by
  simp only [isTerminalEvent, Bool.and_eq_true, beq_iff_eq, List.contains_iff_mem,
    claimTerminalEventNames, List.mem_cons, List.not_mem_nil, or_false] at h
  obtain ⟨hentity, hevent | hevent | hevent⟩ := h
  · exact ⟨hentity, .recovered, by simp, hevent⟩
  · exact ⟨hentity, .denied, by simp, hevent⟩
  · exact ⟨hentity, .written_off, by simp, hevent⟩

theorem claimEvent_inj {s t : ClaimStatus} (hs : s ≠ .open) (ht : t ≠ .open)
    (h : claimEvent s = claimEvent t) : s = t := by
  have := terminalEventToStatus_claimEvent hs
  rw [h, terminalEventToStatus_claimEvent ht] at this
  exact (Option.some.inj this).symm

/-- Without a terminal event the derived status is open; with one, it is that event's. -/
theorem derivedFor_status (db : Db) (c : Claim) :
    (terminalEventsOf db c.accountId c.id = [] →
      (derivedFor D db c).map DeriveClaimStatusResult.derivedStatus = .ok .open) ∧
    ∀ e status, status ≠ .open → e.event = claimEvent status → terminalEventsOf db c.accountId c.id = [e] →
      (derivedFor D db c).map DeriveClaimStatusResult.derivedStatus = .ok status := by
  have hamounts : (recoveriesOf db c.accountId c.id).map (fun r => r.amountRecovered.text) =
      ((recoveriesOf db c.accountId c.id).map RecoveryEvent.amountRecovered).map Numeric.text := by
    rw [List.map_map]
    rfl
  obtain ⟨text, htext⟩ := cumulativeRecovered_ok (D := D)
    ((recoveriesOf db c.accountId c.id).map RecoveryEvent.amountRecovered)
  rw [← hamounts] at htext
  constructor
  · intro hnil
    rw [derivedFor, deriveClaimStatus, hnil, htext]
    rfl
  · intro e status hstatus hevent hone
    rw [derivedFor, deriveClaimStatus, hone, htext]
    have hknown := terminalEventToStatus_claimEvent hstatus
    rw [← hevent] at hknown
    simp only [List.map_cons, List.map_nil, List.filter_cons, hknown, Option.isSome_some, if_true,
      List.filter_nil, List.foldl_cons, List.foldl_nil, laterEvent, Option.bind_some, Option.getD_some]
    rfl

/-- The status is what the terminal events record: none of them, or one. -/
def Recorded (status : ClaimStatus) (events : List AuditEvent) : Prop :=
  status = .open ∧ events = [] ∨ status ≠ .open ∧ ∃ e, e.event = claimEvent status ∧ events = [e]

theorem oneOutcome_claim {db : Db} {c : Claim} :
    ((terminalEventsOf db c.accountId c.id).length ≤ 1 ∧
      (derivedFor D db c).map DeriveClaimStatusResult.derivedStatus = .ok c.status) ↔
    Recorded c.status (terminalEventsOf db c.accountId c.id) := by
  obtain ⟨hnone, hone⟩ := derivedFor_status (D := D) db c
  constructor
  · rintro ⟨hlen, hderived⟩
    match hevents : terminalEventsOf db c.accountId c.id with
    | [] =>
      rw [hnone hevents] at hderived
      exact .inl ⟨(Except.ok.inj hderived).symm, rfl⟩
    | [e] =>
      have hmem : e ∈ terminalEventsOf db c.accountId c.id := by rw [hevents]; exact List.mem_singleton_self e
      obtain ⟨-, status, hstatus, hevent⟩ :=
        isTerminalEvent_status (List.mem_filter.mp (List.mem_filter.mp hmem).1).2
      rw [hone e status hstatus hevent hevents] at hderived
      obtain rfl := Except.ok.inj hderived
      exact .inr ⟨hstatus, e, hevent, rfl⟩
    | _ :: _ :: _ => rw [hevents] at hlen; simp at hlen
  · rintro (⟨hopen, hnil⟩ | ⟨hstatus, e, hevent, hevents⟩)
    · exact ⟨by rw [hnil]; simp, by rw [hnone hnil, hopen]⟩
    · exact ⟨by rw [hevents]; simp, hone e _ hstatus hevent hevents⟩

theorem oneOutcome_iff_recorded {db : Db} :
    OneOutcome D db ↔ ∀ c ∈ db.claims, Recorded c.status (terminalEventsOf db c.accountId c.id) :=
  forall₂_congr fun _ _ => oneOutcome_claim

end

/-! ## What every commit keeps -/

/-- Terminal events have the id made for them, and record a claim there is. -/
structure EventsWellFormed (sha256 : String → ℕ) (db : Db) : Prop where
  id : ∀ e ∈ db.auditEvents.filter isTerminalEvent, ∀ accountId claimId status,
    IsEventOf accountId claimId status e → e.id = terminalEventId sha256 accountId claimId status
  claim : ∀ e ∈ db.auditEvents.filter isTerminalEvent, ∀ claimId, e.entityId = some claimId →
    ∃ c ∈ db.claims, c.id = claimId

section commit

variable {D : Type} [Decimal D] {sha256 : String → ℕ} {tx startedAt : ℕ} {log : Log Db Write LockKey}
  {db : Db} {call : Call} {r : Result} {Good : Db → Prop}

theorem IsEventOf.unique {a a' c c' : ℕ} {s s' : ClaimStatus} {e : AuditEvent} (h : IsEventOf a c s e)
    (h' : IsEventOf a' c' s' e) : a = a' ∧ c = c' ∧ claimEvent s = claimEvent s' :=
  ⟨Option.some.inj (h.1.symm.trans h'.1), Option.some.inj (h.2.2.1.symm.trans h'.2.2.1),
    h.2.2.2.symm.trans h'.2.2.2⟩

/-- What a resolution inserts among the terminal events is its own. -/
theorem ResolveClaimRun.mem_events {input : ResolveClaimInput}
    (run : ResolveClaimRun sha256 tx startedAt input log) {e : AuditEvent} (he : e ∈ run.events) :
    IsEventOf input.clientId input.claimId run.newStatus e ∧
      e.id = terminalEventId sha256 input.clientId input.claimId run.newStatus ∧
      ∀ row ∈ run.eventDb.auditEvents, row.id ≠ e.id := by
  rw [ResolveClaimRun.events] at he
  rcases run.event_ok with ⟨e', hevent, hof, hid, -, hfresh⟩ | ⟨hevent, -⟩
  · rw [hevent] at he
    obtain rfl := List.mem_singleton.mp he
    exact ⟨hof, hid, hfresh⟩
  · rw [hevent] at he
    cases he

theorem eventsWellFormed_commit (h : Commit (claimsSystem D sha256) Good Since db call tx startedAt r log)
    (hwf : EventsWellFormed sha256 db) : EventsWellFormed sha256 (view Claims.apply db log.writes) := by
  obtain ⟨-, hends, hseen⟩ := h
  cases finished hends with
  | nothing hnone => rwa [hnone, view_nil]
  | created run =>
    obtain ⟨hc, -, he⟩ := run.view db
    refine ⟨by rw [he]; exact hwf.id, fun e hmem claimId hid => ?_⟩
    rw [he] at hmem
    obtain ⟨c, hcmem, hcid⟩ := hwf.claim e hmem claimId hid
    exact ⟨c, hc ▸ List.mem_append_left _ hcmem, hcid⟩
  | recovered run =>
    obtain ⟨hc, -, he⟩ := run.view db
    exact ⟨by rw [he]; exact hwf.id, by rw [he, hc]; exact hwf.claim⟩
  | @resolved input run =>
    obtain ⟨hc, -, he⟩ := run.view db
    obtain ⟨c, hcmem, -, hcid, -⟩ := claim_at_commit hseen run.seen_claim run.found
    refine ⟨fun e hmem a id s hof => ?_, fun e hmem claimId hid => ?_⟩
    · rw [he] at hmem
      rcases List.mem_append.mp hmem with hmem | hmem
      · exact hwf.id e hmem a id s hof
      · obtain ⟨hof', hid, -⟩ := run.mem_events hmem
        obtain ⟨rfl, rfl, hs⟩ := hof'.unique hof
        rw [hid, terminalEventId, terminalEventId, hs]
    · have hexists : ∃ c ∈ db.claims, c.id = claimId := by
        rw [he] at hmem
        rcases List.mem_append.mp hmem with hmem | hmem
        · exact hwf.claim e hmem claimId hid
        · obtain ⟨hof, -⟩ := run.mem_events hmem
          exact ⟨c, hcmem, hcid.trans (Option.some.inj (hof.2.2.1.symm.trans hid))⟩
      obtain ⟨c', hc', rfl⟩ := hexists
      rw [hc]
      exact ⟨_, List.mem_map_of_mem hc', (c'.updateStatus_continues run.outcome.not_open).id⟩

/-! ## Exactly when one outcome stays one -/

/-- The status a write gives a claim. -/
def Write.status? : Write → Option (ℕ × ℕ × ClaimStatus)
  | .updateClaimStatus accountId claimId status => some (accountId, claimId, status)
  | _ => none

/-- A commit that resolves a claim finds it open, or already resolved in the same way. -/
def StillOpen (db : Db) (_ : Call) (log : Log Db Write LockKey) : Prop :=
  ∀ w ∈ log.writes, ∀ update ∈ Write.status? w, ∀ c ∈ db.claims,
    c.accountId = update.1 → c.id = update.2.1 → c.status = .open ∨ c.status = update.2.2

instance : Decidable (StillOpen db call log) :=
  inferInstanceAs (Decidable (∀ w ∈ log.writes, ∀ update ∈ Write.status? w, ∀ c ∈ db.claims, _))

theorem aside_status {w : Write} (h : w.Aside) : w.status? = none := by
  cases w with
  | updateClaimStatus accountId claimId status => exact h.elim
  | _ => rfl

/-- The one status a resolution writes. -/
theorem ResolveClaimRun.stillOpen_iff {input : ResolveClaimInput}
    (run : ResolveClaimRun sha256 tx startedAt input log) :
    StillOpen db call log ↔ ∀ c ∈ db.claims, c.accountId = input.clientId → c.id = input.claimId →
      c.status = .open ∨ c.status = run.newStatus := by
  have hupdate : ∀ w ∈ log.writes, ∀ update ∈ Write.status? w,
      update = (input.clientId, input.claimId, run.newStatus) := by
    intro w hw update hupdate
    rcases run.mem_writes hw with ⟨row, -, rfl⟩ | rfl | haside | ⟨e, rfl⟩
    · cases hupdate
    · exact (Option.some.inj hupdate).symm
    · rw [aside_status haside] at hupdate
      cases hupdate
    · cases hupdate
  constructor
  · intro h c hc hacc hid
    refine h (.updateClaimStatus input.clientId input.claimId run.newStatus) ?_ _ rfl c hc hacc hid
    rw [run.writes]
    simp
  · intro h w hw update hmem c hc hacc hid
    obtain rfl := hupdate w hw update hmem
    exact h c hc hacc hid

/-- It inserts its event, none of that id being there, or has found it. -/
theorem ResolveClaimRun.events_cases {input : ResolveClaimInput}
    (run : ResolveClaimRun sha256 tx startedAt input log) :
    (∃ e, run.events = [e]) ∨ run.events = [] ∧
      ∃ row ∈ run.eventDb.auditEvents, IsEventOf input.clientId input.claimId run.newStatus row := by
  rw [ResolveClaimRun.events]
  rcases run.event_ok with ⟨e, he, -⟩ | ⟨he, hrow⟩ <;> rw [he]
  · exact .inl ⟨e, rfl⟩
  · exact .inr ⟨rfl, hrow⟩

/-- A claim's terminal events after a resolution: its own are added to its claim. -/
theorem ResolveClaimRun.terminalEventsOf {input : ResolveClaimInput}
    (run : ResolveClaimRun sha256 tx startedAt input log) (db : Db) (accountId claimId : ℕ) :
    terminalEventsOf (ReadCommitted.view Claims.apply db log.writes) accountId claimId =
      Claims.terminalEventsOf db accountId claimId ++
        if accountId = input.clientId ∧ claimId = input.claimId then run.events else [] := by
  rw [Claims.terminalEventsOf, (run.view db).2.2, List.filter_append, Claims.terminalEventsOf]
  congr 1
  split
  · rename_i h
    refine List.filter_eq_self.mpr (fun e he => ?_)
    obtain ⟨hof, -⟩ := run.mem_events he
    simp [hof.1, hof.2.2.1, h.1, h.2]
  · rename_i h
    refine List.filter_eq_nil_iff.mpr (fun e he => ?_)
    obtain ⟨hof, -⟩ := run.mem_events he
    simp only [hof.1, hof.2.2.1, Bool.and_eq_true, beq_iff_eq, Option.some.injEq]
    exact fun hc => h ⟨hc.1.symm, hc.2.symm⟩

theorem mem_terminalEventsOf {a c : ℕ} {s : ClaimStatus} {e : AuditEvent} (hs : s ≠ .open)
    (he : e ∈ db.auditEvents) (hof : IsEventOf a c s e) : e ∈ terminalEventsOf db a c :=
  List.mem_filter.mpr ⟨List.mem_filter.mpr ⟨he, isTerminalEvent_of_isEventOf hs hof⟩,
    by simp [hof.1, hof.2.2.1]⟩

/-- What a claim's status and terminal events become when it is resolved. -/
theorem ResolveClaimRun.recorded {input : ResolveClaimInput}
    (run : ResolveClaimRun sha256 tx startedAt input log)
    (hseen : ∀ p ∈ log.seen, Good p.1 ∧ Since p.2 p.1 db) (hev : EventsWellFormed sha256 db)
    {status : ClaimStatus}
    (h : Recorded status (Claims.terminalEventsOf db input.clientId input.claimId)) :
    Recorded run.newStatus (Claims.terminalEventsOf db input.clientId input.claimId ++ run.events) ↔
      status = .open ∨ status = run.newStatus := by
  have hsince := (hseen _ run.seen_event).2
  have hnew := run.outcome.not_open
  constructor
  · rintro (⟨hopen, -⟩ | ⟨-, e, hevent, hevents⟩)
    · exact absurd hopen hnew
    rcases h with ⟨hopen, -⟩ | ⟨hstatus, e', hevent', hevents'⟩
    · exact .inl hopen
    · -- the only event is the old one, so it names the new status
      rw [hevents', List.singleton_append, List.cons.injEq] at hevents
      obtain ⟨rfl, -⟩ := hevents
      exact .inr (claimEvent_inj hstatus hnew (hevent'.symm.trans hevent))
  · rintro (rfl | rfl)
    · rcases h with ⟨-, hnil⟩ | ⟨hcon, -⟩
      · rcases run.events_cases with ⟨e, he⟩ | ⟨-, row, hrow, hof⟩
        · refine .inr ⟨hnew, e, ?_, by rw [hnil, he]; rfl⟩
          exact (run.mem_events (by rw [he]; exact List.mem_singleton_self e)).1.2.2.2
        · have hmem := mem_terminalEventsOf hnew (hsince.events row hrow) hof
          rw [hnil] at hmem
          cases hmem
      · exact absurd rfl hcon
    · rcases h with ⟨hopen, -⟩ | ⟨hstatus, e, hevent, hevents⟩
      · exact absurd hopen hnew
      · have he : e ∈ Claims.terminalEventsOf db input.clientId input.claimId := by
          rw [hevents]
          exact List.mem_singleton_self e
        obtain ⟨hterminal, hkeys⟩ := List.mem_filter.mp he
        simp only [Bool.and_eq_true, beq_iff_eq] at hkeys
        have hof : IsEventOf input.clientId input.claimId run.newStatus e :=
          ⟨hkeys.1, (isTerminalEvent_status (List.mem_filter.mp hterminal).2).1, hkeys.2, hevent⟩
        rcases run.events_cases with ⟨e', he'⟩ | ⟨hnil, -⟩
        · -- the old event has the id that was free when its key was locked
          obtain ⟨-, hid, hfresh⟩ := run.mem_events (by rw [he']; exact List.mem_singleton_self e')
          have hsame : e.id = e'.id := (hev.id e hterminal _ _ _ hof).trans hid.symm
          have hseenEvent := hsince.auditEvent _ run.holds e (List.mem_filter.mp hterminal).1
            (hev.id e hterminal _ _ _ hof)
          exact absurd hsame (hfresh e hseenEvent)
        · exact .inr ⟨hstatus, e, hevent, by rw [hevents, hnil, List.append_nil]⟩

/-- Writes that resolve nothing meet the condition. -/
theorem stillOpen_of_no_status (h : ∀ w ∈ log.writes, w.status? = none) : StillOpen db call log := by
  intro w hw update hupdate
  rw [h w hw] at hupdate
  cases hupdate

theorem terminalEventsOf_congr {db' : Db}
    (h : db'.auditEvents.filter isTerminalEvent = db.auditEvents.filter isTerminalEvent) (accountId claimId : ℕ) :
    terminalEventsOf db' accountId claimId = terminalEventsOf db accountId claimId := by
  rw [terminalEventsOf, h, terminalEventsOf]

/-- A commit keeps one outcome per claim exactly if it resolves no claim that is resolved otherwise. -/
theorem oneOutcome_commit (h : Commit (claimsSystem D sha256) Good Since db call tx startedAt r log)
    (hev : EventsWellFormed sha256 db) (hone : OneOutcome D db) :
    OneOutcome D (view Claims.apply db log.writes) ↔ StillOpen db call log := by
  obtain ⟨-, hends, hseen⟩ := h
  rw [oneOutcome_iff_recorded] at hone ⊢
  cases finished hends with
  | nothing hnone =>
    rw [hnone, view_nil]
    exact ⟨fun _ => stillOpen_of_no_status (by simp [hnone]), fun _ => hone⟩
  | created run =>
    obtain ⟨hc, -, he⟩ := run.view db
    refine ⟨fun _ => stillOpen_of_no_status (fun w hw => ?_), fun _ c hcmem => ?_⟩
    · rw [run.writes] at hw
      rcases List.mem_cons.mp hw with rfl | hw
      · rfl
      · exact aside_status (run.aside_ok w hw)
    · rw [terminalEventsOf_congr he]
      rw [hc] at hcmem
      rcases List.mem_append.mp hcmem with hold | hnew
      · exact hone c hold
      · obtain rfl := List.mem_singleton.mp hnew
        refine .inl ⟨rfl, List.filter_eq_nil_iff.mpr (fun e hmem => ?_)⟩
        simp only [Bool.and_eq_true, beq_iff_eq]
        rintro ⟨-, hid⟩
        obtain ⟨c', hc', hcid⟩ := hev.claim e hmem _ hid
        exact run.fresh_at_commit (fun p hp => (hseen p hp).2) c' hc' hcid
  | recovered run =>
    obtain ⟨hc, -, he⟩ := run.view db
    refine ⟨fun _ => stillOpen_of_no_status (fun w hw => ?_), fun _ c hcmem => ?_⟩
    · rw [run.writes] at hw
      rcases List.mem_cons.mp hw with rfl | hw
      · rfl
      · exact aside_status (run.aside_ok w hw)
    · rw [terminalEventsOf_congr he]
      exact hone c (hc ▸ hcmem)
  | @resolved input run =>
    obtain ⟨hc, -, -⟩ := run.view db
    have hnew := run.outcome.not_open
    rw [run.stillOpen_iff]
    constructor
    · intro h c hcmem hacc hid
      have hrec := h (c.updateStatus input.clientId input.claimId run.newStatus)
        (hc ▸ List.mem_map_of_mem hcmem)
      simp only [Claim.updateStatus, hacc, hid, and_self, if_true, run.terminalEventsOf] at hrec
      have hold := hone c hcmem
      rw [hacc, hid] at hold
      exact (run.recorded hseen hev hold).mp hrec
    · intro h c' hc'
      rw [hc] at hc'
      obtain ⟨c, hcmem, rfl⟩ := List.mem_map.mp hc'
      have hold := hone c hcmem
      by_cases htarget : c.accountId = input.clientId ∧ c.id = input.claimId
      · simp only [Claim.updateStatus, htarget, and_self, if_true, run.terminalEventsOf]
        rw [htarget.1, htarget.2] at hold
        exact (run.recorded hseen hev hold).mpr (h c hcmem htarget.1 htarget.2)
      · simp only [Claim.updateStatus, htarget, if_false, run.terminalEventsOf, List.append_nil]
        exact hold

end commit

/-! ## Every interleaving -/

section

variable (D : Type) [Decimal D] (sha256 : String → ℕ)

theorem outcome_outline : Outline (claimsSystem D sha256)
    (fun db => WellFormed db ∧ EventsWellFormed sha256 db) Since (fun _ _ _ => True) where
  refl := Since.refl
  good := fun _ _ _ _ _ _ h _ => ⟨wellFormed_commit h h.good.1, eventsWellFormed_commit h h.good.2⟩
  rely := fun _ _ _ _ _ _ h _ _ hdisjoint hs => since_commit h.ends hdisjoint hs

/-- Every state of an interleaving has one outcome per claim exactly if each resolution still finds its
claim open when it commits, or resolved in the same way. -/
theorem oneOutcome_iff (db : Db) (hwf : WellFormed db) (hev : EventsWellFormed sha256 db)
    (hone : OneOutcome D db) (next now : ℕ) (events : List (Event Call)) :
    Runs.AllStates (step (claimsSystem D sha256)) (fun w => OneOutcome D w.db)
        (World.initial db next now) events ↔
      Runs.AllSteps (step (claimsSystem D sha256)) (CommitsMeet StillOpen) (World.initial db next now) events :=
  (outcome_outline D sha256).allStates_iff (OneOutcome D) StillOpen
    (fun _ _ _ _ _ _ h hone => oneOutcome_commit h h.good.2 hone) ⟨hwf, hev⟩ hone next now events

end

def denyClaim : Call := .resolveClaim ⟨1, 0, .DENIAL, none, none, none⟩
def writeOffClaim : Call := .resolveClaim ⟨1, 0, .WRITE_OFF, none, none, none⟩

/-- Two concurrent denials leave one event: the second finds it. -/
theorem concurrentDenials_agree :
    Runs.AllStates (step (claimsSystem Ref textNumber)) (fun w => OneOutcome Ref w.db) (World.initial oneClaim 1 0)
      [.begin denyClaim, .begin denyClaim, .exec 1, .exec 1, .exec 2, .exec 2, .exec 1, .exec 1, .commit 1,
        .exec 2, .exec 2, .commit 2] :=
  (oneOutcome_iff Ref textNumber oneClaim ⟨by decide, by decide⟩ ⟨by simp [oneClaim], by simp [oneClaim]⟩
    (by decide +kernel) 1 0 _).mpr (by decide +kernel)

/-- Both read the claim as open; the write-off waits for the row, and then resolves it again. -/
theorem concurrentResolutions_disagree :
    ¬ Runs.AllStates (step (claimsSystem Ref textNumber)) (fun w => OneOutcome Ref w.db)
      (World.initial oneClaim 1 0)
      [.begin denyClaim, .begin writeOffClaim, .exec 1, .exec 1, .exec 2, .exec 2, .exec 1, .exec 1, .commit 1,
        .exec 2, .exec 2, .commit 2] := by
  decide +kernel

end Claims
