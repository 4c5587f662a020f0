import FreightAuditor.AuditLedger.WriteAuditEvent
import FreightAuditor.Library.OneLock

/- Answers to a clarifying question.

   A call locks the question's row, leaves it alone where it has the answer, and else writes an
   audit event, whose id is made of the answer and its source, before it stores them. An event
   that is there already refuses the call. So every valid answer is accepted exactly if no
   answer is given that was given before (`answersStand_iff`): A, B and A again fails. -/
namespace Clarifications

open AuditLedger (AuditLog)
open Claims (ActorKind AuditEvent AuditEventEvidence deterministicAuditEventId sameEvidence)
open ExceptOk ReadCommitted

inductive AnswerSource where
  | read_from_doc | analyst_knowledge | carrier_confirmed
  deriving DecidableEq

def AnswerSource.text : AnswerSource → String
  | .read_from_doc => "read_from_doc"
  | .analyst_knowledge => "analyst_knowledge"
  | .carrier_confirmed => "carrier_confirmed"

inductive ClarificationError where
  | schema
  | clarifyingQuestionNotFound
  | clarificationAnswerConflict
  | auditEventConflict
  /-- A text that no column takes. -/
  | database
  deriving DecidableEq

structure ClarificationAnswerInput where
  answer : String
  answerSource : AnswerSource
  deriving DecidableEq

/-- The answer trimmed, of 1 to 10000 units. -/
def ClarificationAnswerInput.parse (untrusted : String × String) : Except ClarificationError ClarificationAnswerInput := do
  let answer := JsText.trim untrusted.1
  if JsText.length answer < 1 ∨ 10000 < JsText.length answer then throw .schema
  match [AnswerSource.read_from_doc, .analyst_knowledge, .carrier_confirmed].find? (·.text = untrusted.2) with
  | some answerSource => return ⟨answer, answerSource⟩
  | none => throw .schema

/-! ## The tables -/

structure ClarifyingQuestion where
  id : ℕ
  accountId : ℕ
  answer : Option String
  answerSource : Option AnswerSource

structure ClarificationDb where
  questions : KeyedTable ClarifyingQuestion ClarifyingQuestion.id
  auditEvents : AuditLog

inductive ClarificationWrite where
  | insertAuditEvent (row : AuditEvent)
  | updateAnswer (questionId clientId : ℕ) (answer : ClarificationAnswerInput)

def ClarifyingQuestion.updateAnswer (questionId clientId : ℕ) (answer : ClarificationAnswerInput)
    (q : ClarifyingQuestion) : ClarifyingQuestion :=
  if q.id = questionId ∧ q.accountId = clientId then
    { q with answer := some answer.answer, answerSource := some answer.answerSource }
  else q

theorem updateAnswer_id (questionId clientId : ℕ) (answer : ClarificationAnswerInput) (q : ClarifyingQuestion) :
    (q.updateAnswer questionId clientId answer).id = q.id := by
  unfold ClarifyingQuestion.updateAnswer
  split <;> rfl

def apply (db : ClarificationDb) : ClarificationWrite → ClarificationDb
  | .insertAuditEvent row => { db with auditEvents := (db.auditEvents.insert row).getD db.auditEvents }
  | .updateAnswer questionId clientId answer =>
    { db with
      questions := db.questions.update (ClarifyingQuestion.updateAnswer questionId clientId answer)
        (updateAnswer_id questionId clientId answer) }

def findQuestion (db : ClarificationDb) (questionId clientId : ℕ) : Option ClarifyingQuestion :=
  (db.questions.find? questionId).filter (·.accountId = clientId)

/-! ## The call -/

inductive LockKey where
  | clarifyingQuestion (id : ℕ)
  deriving DecidableEq

abbrev Statement (R : Type) := Prog ClarificationDb ClarificationWrite LockKey ClarificationError R

structure AnswerResult where
  id : ℕ
  answer : ClarificationAnswerInput
  changed : Bool

/-- `SELECT ... FOR UPDATE`. -/
def selectForUpdate (questionId clientId : ℕ) : Statement ClarifyingQuestion :=
  .exec (fun _ => [.clarifyingQuestion questionId]) fun db =>
    match findQuestion db questionId clientId with
    | some q => .ok (q, [])
    | none => .error .clarifyingQuestionNotFound

section

variable (sha256 : String → ℕ)

def answeredId (questionId clientId : ℕ) (answer : ClarificationAnswerInput) : ℕ :=
  deterministicAuditEventId sha256
    [toString clientId, toString questionId, answer.answerSource.text, answer.answer, "clarification_question.answered"]

def answered (questionId clientId actorUserId : ℕ) (answer : ClarificationAnswerInput) : AuditEventEvidence :=
  { clientId := some clientId
    entity := "clarifying_question"
    entityId := some questionId
    event := "answered"
    actorKind := .analyst
    actorUserId := some actorUserId
    ruleVersionId := none
    rubricSnapshotId := none
    detail := some (.obj [("answer", .str answer.answer), ("answerSource", .str answer.answerSource.text)]) }

/-- A text with a NUL is no `jsonb` string. -/
def writeAnswered (startedAt questionId clientId actorUserId : ℕ) (answer : ClarificationAnswerInput) : Statement Bool :=
  .exec (fun _ => []) fun db =>
    let id := answeredId sha256 questionId clientId answer
    let value := answered questionId clientId actorUserId answer
    if '\x00' ∈ answer.answer.toList then .error .database
    else match db.auditEvents.find? id with
      | none => .ok (true, [.insertAuditEvent { value with id, recordedAt := startedAt }])
      | some row => if sameEvidence row.toAuditEventEvidence value then .ok (false, []) else .error .auditEventConflict

def updateAnswer (questionId clientId : ℕ) (answer : ClarificationAnswerInput) : Statement PUnit :=
  .exec (fun _ => [.clarifyingQuestion questionId]) fun _ => .ok (⟨⟩, [.updateAnswer questionId clientId answer])

/-- An answer that differs from the one that is there. -/
def changeAnswer (startedAt questionId clientId actorUserId : ℕ) (answer : ClarificationAnswerInput) :
    Statement AnswerResult := do
  let created ← writeAnswered sha256 startedAt questionId clientId actorUserId answer
  if created then do
    let _ ← updateAnswer questionId clientId answer
    return ⟨questionId, answer, true⟩
  else .fail .clarificationAnswerConflict

structure AnswerCall where
  actorUserId : ℕ
  answer : String × String

/-- The question has the answer. -/
def ClarifyingQuestion.Has (q : ClarifyingQuestion) (answer : ClarificationAnswerInput) : Prop :=
  q.answer = some answer.answer ∧ q.answerSource = some answer.answerSource

instance (q : ClarifyingQuestion) (answer : ClarificationAnswerInput) : Decidable (q.Has answer) :=
  inferInstanceAs (Decidable (_ ∧ _))

def answerClarifyingQuestion (startedAt questionId clientId : ℕ) (call : AnswerCall) : Statement AnswerResult :=
  match ClarificationAnswerInput.parse call.answer with
  | .error e => .fail e
  | .ok answer => do
    let current ← selectForUpdate questionId clientId
    if current.Has answer then return ⟨current.id, answer, false⟩
    else changeAnswer sha256 startedAt questionId clientId call.actorUserId answer

/-- The calls on one question. -/
def clarificationSystem (questionId clientId : ℕ) :
    System ClarificationDb ClarificationWrite LockKey ClarificationError AnswerResult AnswerCall where
  apply := apply
  body call _ startedAt := answerClarifyingQuestion sha256 startedAt questionId clientId call

/-! ## Histories -/

abbrev ClarificationWorld := World ClarificationDb ClarificationWrite LockKey ClarificationError AnswerResult AnswerCall

/-- No transaction with a valid answer has failed. -/
def NoneRefused (w : ClarificationWorld) : Prop :=
  ∀ i t answer, w.opened i = some t → ClarificationAnswerInput.parse t.call.answer = .ok answer → ∀ e, t.rest ≠ .fail e

/-- A commit leaves its own answer; where that was there, it changes nothing, and else it adds its own event. -/
def LastAnswerStands (questionId clientId : ℕ) (w : ClarificationWorld) (e : Event AnswerCall) : Prop :=
  ∀ i t answer, e = .commit i → w.opened i = some t → ClarificationAnswerInput.parse t.call.answer = .ok answer →
    ∃ before now, findQuestion w.db questionId clientId = some before ∧
      findQuestion (view apply w.db t.log.writes) questionId clientId = some now ∧ now.Has answer ∧
      (before.Has answer → view apply w.db t.log.writes = w.db) ∧
      (¬ before.Has answer → ∃ event : AuditEvent,
        event.toAuditEventEvidence = answered questionId clientId t.call.actorUserId answer ∧
        (view apply w.db t.log.writes).auditEvents.rows = w.db.auditEvents.rows ++ [event])

/-- An answer that can be recorded now. -/
def Recordable (db : ClarificationDb) (questionId clientId : ℕ) (answer : ClarificationAnswerInput) : Prop :=
  '\x00' ∉ answer.answer.toList ∧ db.auditEvents.find? (answeredId sha256 questionId clientId answer) = none

instance (db : ClarificationDb) (questionId clientId : ℕ) (answer : ClarificationAnswerInput) :
    Decidable (Recordable sha256 db questionId clientId answer) :=
  have : Decidable (db.auditEvents.find? (answeredId sha256 questionId clientId answer) = none) :=
    decidable_of_iff _ Option.isNone_iff_eq_none
  inferInstanceAs (Decidable (_ ∧ _))

/-- A transaction that has the row and goes on to change it gives an answer that the log does not have, and
that has no NUL. -/
def NotGivenBefore (questionId clientId : ℕ) (w : ClarificationWorld) : Event AnswerCall → Prop
  | .exec i => ∀ t ∈ w.opened i, t.log.seen.length = 1 →
      ∀ answer ∈ (ClarificationAnswerInput.parse t.call.answer).toOption, Recordable sha256 w.db questionId clientId answer
  | _ => True

instance (questionId clientId : ℕ) (w : ClarificationWorld) : ∀ e, Decidable (NotGivenBefore sha256 questionId clientId w e)
  | .exec i => inferInstanceAs (Decidable (∀ t ∈ w.opened i, t.log.seen.length = 1 →
      ∀ answer ∈ (ClarificationAnswerInput.parse t.call.answer).toOption, Recordable sha256 w.db questionId clientId answer))
  | .begin _ => .isTrue trivial
  | .commit _ => .isTrue trivial
  | .rollback _ => .isTrue trivial
  | .tick => .isTrue trivial

end

section

variable {sha256 : String → ℕ} {questionId clientId startedAt : ℕ} {call : AnswerCall} {answer : ClarificationAnswerInput}
  {db : ClarificationDb} {q : ClarifyingQuestion}

theorem mem_toOption {ε α : Type} {x : Except ε α} {a : α} : a ∈ x.toOption ↔ x = .ok a := by
  cases x with
  | ok b => simp [Except.toOption]
  | error e => simp [Except.toOption]

theorem takesFirst (call : AnswerCall) (i startedAt : ℕ) :
    TakesFirst (.clarifyingQuestion questionId) ((clarificationSystem sha256 questionId clientId).body call i startedAt) := by
  simp only [clarificationSystem, answerClarifyingQuestion]
  cases ClarificationAnswerInput.parse call.answer with
  | error e => trivial
  | ok answer => exact takesFirst_exec fun _ => List.mem_singleton_self _

/-- The row that records it. -/
def answeredRow (sha256 : String → ℕ) (startedAt questionId clientId actorUserId : ℕ) (answer : ClarificationAnswerInput) :
    AuditEvent :=
  { answered questionId clientId actorUserId answer with
    id := answeredId sha256 questionId clientId answer, recordedAt := startedAt }

def lockedLog (db : ClarificationDb) (questionId : ℕ) : Log ClarificationDb ClarificationWrite LockKey :=
  Log.empty.add db [.clarifyingQuestion questionId] []

/-- Where a valid call stands on rows that stand still. -/
inductive Stands (sha256 : String → ℕ) (startedAt questionId clientId : ℕ) (call : AnswerCall)
    (answer : ClarificationAnswerInput) (db : ClarificationDb) (q : ClarifyingQuestion) :
    Statement AnswerResult × Log ClarificationDb ClarificationWrite LockKey → Prop
  | waiting : Stands sha256 startedAt questionId clientId call answer db q
      (answerClarifyingQuestion sha256 startedAt questionId clientId call, .empty)
  | same (hhas : q.Has answer) : Stands sha256 startedAt questionId clientId call answer db q
      (.done ⟨q.id, answer, false⟩, lockedLog db questionId)
  | locked (hchange : ¬ q.Has answer) : Stands sha256 startedAt questionId clientId call answer db q
      (changeAnswer sha256 startedAt questionId clientId call.actorUserId answer, lockedLog db questionId)
  | refused (e : ClarificationError) (hnot : ¬ Recordable sha256 db questionId clientId answer) :
      Stands sha256 startedAt questionId clientId call answer db q (.fail e, (lockedLog db questionId).add db [] [])
  | recorded (hchange : ¬ q.Has answer) (hfree : Recordable sha256 db questionId clientId answer) :
      Stands sha256 startedAt questionId clientId call answer db q
        (updateAnswer questionId clientId answer >>= fun _ => pure ⟨questionId, answer, true⟩,
          (lockedLog db questionId).add db []
            [.insertAuditEvent (answeredRow sha256 startedAt questionId clientId call.actorUserId answer)])
  | changed (hchange : ¬ q.Has answer) (hfree : Recordable sha256 db questionId clientId answer) :
      Stands sha256 startedAt questionId clientId call answer db q
        (.done ⟨questionId, answer, true⟩,
          ((lockedLog db questionId).add db []
            [.insertAuditEvent (answeredRow sha256 startedAt questionId clientId call.actorUserId answer)]).add db
              [.clarifyingQuestion questionId] [.updateAnswer questionId clientId answer])

/-- Writing the event of an answer. -/
theorem advance_recordable (hfree : Recordable sha256 db questionId clientId answer) {actorUserId : ℕ} :
    advance apply db (changeAnswer sha256 startedAt questionId clientId actorUserId answer, lockedLog db questionId) =
      (updateAnswer questionId clientId answer >>= fun _ => pure ⟨questionId, answer, true⟩,
        (lockedLog db questionId).add db []
          [.insertAuditEvent (answeredRow sha256 startedAt questionId clientId actorUserId answer)]) := by
  rw [changeAnswer, writeAnswered, advance_exec, show view apply db (lockedLog db questionId).writes = db from rfl]
  simp only [if_neg hfree.1, hfree.2]
  rfl

theorem advance_unrecordable (hnot : ¬ Recordable sha256 db questionId clientId answer) {actorUserId : ℕ} :
    ∃ e, advance apply db (changeAnswer sha256 startedAt questionId clientId actorUserId answer, lockedLog db questionId) =
      (.fail e, (lockedLog db questionId).add db [] []) := by
  rw [changeAnswer, writeAnswered, advance_exec, show view apply db (lockedLog db questionId).writes = db from rfl]
  by_cases hnul : '\x00' ∈ answer.answer.toList
  · simp only [if_pos hnul]
    exact ⟨_, rfl⟩
  · simp only [if_neg hnul]
    cases hfound : db.auditEvents.find? (answeredId sha256 questionId clientId answer) with
    | none => exact absurd ⟨hnul, hfound⟩ hnot
    | some row =>
      by_cases hsame : sameEvidence row.toAuditEventEvidence (answered questionId clientId actorUserId answer) = true
      · simp only [if_pos hsame]
        exact ⟨_, rfl⟩
      · simp only [if_neg hsame]
        exact ⟨_, rfl⟩

theorem advance_changeAnswer (hchange : ¬ q.Has answer) :
    Stands sha256 startedAt questionId clientId call answer db q
      (advance apply db (changeAnswer sha256 startedAt questionId clientId call.actorUserId answer, lockedLog db questionId)) := by
  by_cases hfree : Recordable sha256 db questionId clientId answer
  · rw [advance_recordable hfree]
    exact .recorded hchange hfree
  · obtain ⟨e, hrefused⟩ := @advance_unrecordable sha256 questionId clientId startedAt answer db hfree call.actorUserId
    rw [hrefused]
    exact .refused e hfree

/-- A valid call that waits is at a statement. -/
theorem answer_stmt (hanswer : ClarificationAnswerInput.parse call.answer = .ok answer) :
    ∃ locks writes next, answerClarifyingQuestion sha256 startedAt questionId clientId call = .stmt locks writes next := by
  rw [answerClarifyingQuestion, hanswer]
  exact ⟨_, _, _, rfl⟩

theorem changeAnswer_stmt {actorUserId : ℕ} :
    ∃ locks writes next, changeAnswer sha256 startedAt questionId clientId actorUserId answer = .stmt locks writes next :=
  ⟨_, _, _, rfl⟩

/-- The row is read and locked. -/
theorem advance_waiting (hanswer : ClarificationAnswerInput.parse call.answer = .ok answer)
    (hq : findQuestion db questionId clientId = some q) :
    advance apply db (answerClarifyingQuestion sha256 startedAt questionId clientId call, .empty) =
      (if q.Has answer then .done ⟨q.id, answer, false⟩
        else changeAnswer sha256 startedAt questionId clientId call.actorUserId answer, lockedLog db questionId) := by
  rw [answerClarifyingQuestion, hanswer]
  simp only
  rw [selectForUpdate, advance_exec,
    show view apply db (Log.empty : Log ClarificationDb ClarificationWrite LockKey).writes = db from rfl, hq]
  rfl

theorem Stands.advance (hanswer : ClarificationAnswerInput.parse call.answer = .ok answer)
    (hq : findQuestion db questionId clientId = some q)
    {p : Statement AnswerResult × Log ClarificationDb ClarificationWrite LockKey}
    (h : Stands sha256 startedAt questionId clientId call answer db q p) :
    Stands sha256 startedAt questionId clientId call answer db q (advance apply db p) := by
  cases h with
  | waiting =>
    rw [advance_waiting hanswer hq]
    by_cases hhas : q.Has answer
    · simp only [if_pos hhas]
      exact .same hhas
    · simp only [if_neg hhas]
      exact .locked hhas
  | same hhas => exact .same hhas
  | locked hchange => exact advance_changeAnswer hchange
  | refused e hnot => exact .refused e hnot
  | recorded hchange hfree => exact .changed hchange hfree
  | changed hchange hfree => exact .changed hchange hfree

theorem stands_after (hanswer : ClarificationAnswerInput.parse call.answer = .ok answer)
    (hq : findQuestion db questionId clientId = some q) (m : ℕ) :
    Stands sha256 startedAt questionId clientId call answer db q
      (after apply db m (answerClarifyingQuestion sha256 startedAt questionId clientId call, .empty)) := by
  induction m with
  | zero => exact .waiting
  | succ m ih => exact ih.advance hanswer hq

/-! ## Commits -/

/-- The rows once an answer is stored. -/
theorem changed_view (hq : findQuestion db questionId clientId = some q)
    (hfree : Recordable sha256 db questionId clientId answer) (actorUserId : ℕ) :
    ∃ now, findQuestion (view apply db
        [.insertAuditEvent (answeredRow sha256 startedAt questionId clientId actorUserId answer),
          .updateAnswer questionId clientId answer]) questionId clientId = some now ∧ now.Has answer ∧
      (view apply db [.insertAuditEvent (answeredRow sha256 startedAt questionId clientId actorUserId answer),
          .updateAnswer questionId clientId answer]).auditEvents.rows =
        db.auditEvents.rows ++ [answeredRow sha256 startedAt questionId clientId actorUserId answer] := by
  obtain ⟨hfound, haccount⟩ := Option.filter_eq_some_iff.mp hq
  obtain ⟨log, hinsert⟩ := KeyedTable.insert_fresh (a := answeredRow sha256 startedAt questionId clientId actorUserId answer) hfree.2
  have hid := (KeyedTable.find?_sound hfound).2
  refine ⟨q.updateAnswer questionId clientId answer, ?_, ?_, ?_⟩
  · simp only [view, List.foldl_cons, List.foldl_nil, apply, findQuestion]
    rw [KeyedTable.find?_update, hfound, Option.map_some, Option.filter_some, if_pos]
    rw [ClarifyingQuestion.updateAnswer]
    split
    · exact haccount
    · exact haccount
  · rw [ClarifyingQuestion.updateAnswer, if_pos ⟨hid, by simpa using haccount⟩]
    exact ⟨rfl, rfl⟩
  · simp only [view, List.foldl_cons, List.foldl_nil, apply, hinsert, Option.getD_some]
    exact (KeyedTable.insert_eq_some hinsert).2

section

variable {w w' : ClarificationWorld} {e : Event AnswerCall}

/-- The question is there, and the transactions on it are alone. -/
structure Serialized (sha256 : String → ℕ) (questionId clientId : ℕ) (w : ClarificationWorld) : Prop where
  solo : Solo (clarificationSystem sha256 questionId clientId) (.clarifyingQuestion questionId) w
  question : ∃ q, findQuestion w.db questionId clientId = some q

theorem Serialized.stands (h : Serialized sha256 questionId clientId w) (hq : findQuestion w.db questionId clientId = some q)
    {i : ℕ} {t : Tx ClarificationDb ClarificationWrite LockKey ClarificationError AnswerResult AnswerCall}
    (ht : w.opened i = some t) (hanswer : ClarificationAnswerInput.parse t.call.answer = .ok answer) :
    Stands sha256 t.startedAt questionId clientId t.call answer w.db q (t.rest, t.log) := by
  have hstands := h.solo.stands i t ht
  simp only [clarificationSystem] at hstands
  rw [hstands]
  exact stands_after hanswer hq _

/-- Only a valid call comes to an end. -/
theorem Serialized.valid (h : Serialized sha256 questionId clientId w) {i : ℕ}
    {t : Tx ClarificationDb ClarificationWrite LockKey ClarificationError AnswerResult AnswerCall}
    (ht : w.opened i = some t) {r : AnswerResult} (hr : t.rest = .done r) :
    ∃ answer, ClarificationAnswerInput.parse t.call.answer = .ok answer := by
  cases hanswer : ClarificationAnswerInput.parse t.call.answer with
  | ok answer => exact ⟨answer, rfl⟩
  | error e =>
    have hstands := h.solo.stands i t ht
    simp only [clarificationSystem, answerClarifyingQuestion, hanswer] at hstands
    have hstays : ∀ m, after apply w.db m ((.fail e : Statement AnswerResult), Log.empty) = (.fail e, .empty) := by
      intro m
      induction m with
      | zero => rfl
      | succ m ih => rw [after, ih]; rfl
    rw [hstays, hr] at hstands
    cases hstands

/-- What a commit finds and leaves. -/
theorem Serialized.commit (h : Serialized sha256 questionId clientId w) (hq : findQuestion w.db questionId clientId = some q)
    {i : ℕ} {t : Tx ClarificationDb ClarificationWrite LockKey ClarificationError AnswerResult AnswerCall}
    (ht : w.opened i = some t) {r : AnswerResult} (hr : t.rest = .done r)
    (hanswer : ClarificationAnswerInput.parse t.call.answer = .ok answer) :
    q.Has answer ∧ view apply w.db t.log.writes = w.db ∨
      ¬ q.Has answer ∧ ∃ now, findQuestion (view apply w.db t.log.writes) questionId clientId = some now ∧ now.Has answer ∧
        (view apply w.db t.log.writes).auditEvents.rows =
          w.db.auditEvents.rows ++ [answeredRow sha256 t.startedAt questionId clientId t.call.actorUserId answer] := by
  have hstands := h.stands hq ht hanswer
  generalize hp : (t.rest, t.log) = p at hstands
  cases hstands with
  | waiting =>
    obtain ⟨locks, writes, next, hstmt⟩ := @answer_stmt sha256 questionId clientId t.startedAt t.call answer hanswer
    cases hstmt.symm.trans ((Prod.mk.inj hp).1.symm.trans hr)
  | same hhas =>
    rw [(Prod.mk.inj hp).2]
    exact .inl ⟨hhas, rfl⟩
  | locked hchange =>
    obtain ⟨locks, writes, next, hstmt⟩ := @changeAnswer_stmt sha256 questionId clientId t.startedAt answer t.call.actorUserId
    cases hstmt.symm.trans ((Prod.mk.inj hp).1.symm.trans hr)
  | refused e hnot => cases (Prod.mk.inj hp).1.symm.trans hr
  | recorded hchange hfree => cases (Prod.mk.inj hp).1.symm.trans hr
  | changed hchange hfree =>
    rw [(Prod.mk.inj hp).2]
    exact .inr ⟨hchange, changed_view hq hfree t.call.actorUserId⟩

theorem Serialized.step (h : Serialized sha256 questionId clientId w)
    (hs : ReadCommitted.step (clarificationSystem sha256 questionId clientId) w e = some w') :
    Serialized sha256 questionId clientId w' := by
  refine ⟨h.solo.step takesFirst hs, ?_⟩
  obtain ⟨q, hq⟩ := h.question
  by_cases hc : ∃ i, e = .commit i
  · obtain ⟨i, rfl⟩ := hc
    obtain ⟨t, r, ht, hr, rfl⟩ := step_commit hs
    obtain ⟨answer, hanswer⟩ := h.valid ht hr
    rcases h.commit hq ht hr hanswer with ⟨-, hsame⟩ | ⟨-, now, hnow, -⟩
    · refine ⟨q, ?_⟩
      rw [← hq]
      exact congrArg (findQuestion · questionId clientId) hsame
    · exact ⟨now, hnow⟩
  · rw [step_db hs fun i hi => hc ⟨i, hi⟩]
    exact ⟨q, hq⟩

/-- A commit leaves what it should, always. -/
theorem Serialized.lastAnswerStands (h : Serialized sha256 questionId clientId w)
    (hs : ReadCommitted.step (clarificationSystem sha256 questionId clientId) w e = some w') :
    LastAnswerStands questionId clientId w e := by
  rintro i t answer rfl ht hanswer
  obtain ⟨t', r, ht', hr, -⟩ := step_commit hs
  obtain rfl := Option.some.inj (ht.symm.trans ht')
  obtain ⟨q, hq⟩ := h.question
  rcases h.commit hq ht hr hanswer with ⟨hhas, hsame⟩ | ⟨hchange, now, hnow, hhas, hevents⟩
  · exact ⟨q, q, hq, by rw [hsame, hq], hhas, fun _ => hsame, fun hchange => absurd hhas hchange⟩
  · exact ⟨q, now, hq, hnow, hhas, fun hhas => absurd hhas hchange, fun _ => ⟨_, rfl, hevents⟩⟩

-- a call's answer is parsed once, before its first statement
attribute [local irreducible] ClarificationAnswerInput.parse

/-- What the statement of a transaction leads to, where it does not fail. -/
theorem Serialized.exec_iff (h : Serialized sha256 questionId clientId w) {i : ℕ}
    {t : Tx ClarificationDb ClarificationWrite LockKey ClarificationError AnswerResult AnswerCall}
    (ht : w.opened i = some t) (hanswer : ClarificationAnswerInput.parse t.call.answer = .ok answer)
    {locks : ClarificationDb → List LockKey} {writes : ClarificationDb → List ClarificationWrite}
    {next : ClarificationDb → Statement AnswerResult} (hrest : t.rest = .stmt locks writes next) :
    (∀ err, next (view apply w.db t.log.writes) ≠ .fail err) ↔
      (t.log.seen.length = 1 → Recordable sha256 w.db questionId clientId answer) := by
  obtain ⟨q, hq⟩ := h.question
  have hstands := h.stands hq ht hanswer
  have hnext : (ReadCommitted.advance apply w.db (t.rest, t.log)).1 = next (view apply w.db t.log.writes) := by
    rw [hrest]
    rfl
  rw [← hnext]
  generalize hp : (t.rest, t.log) = p at hstands
  cases hstands with
  | waiting =>
    rw [(Prod.mk.inj hp).2, advance_waiting hanswer hq]
    refine iff_of_true (fun err hfail => ?_) fun hlength => (by cases hlength)
    obtain ⟨locks', writes', next', hstmt⟩ := @changeAnswer_stmt sha256 questionId clientId t.startedAt answer t.call.actorUserId
    simp only [hstmt] at hfail
    split at hfail
    · cases hfail
    · cases hfail
  | same hhas => cases hrest.symm.trans (Prod.mk.inj hp).1
  | locked hchange =>
    rw [(Prod.mk.inj hp).2]
    by_cases hfree : Recordable sha256 w.db questionId clientId answer
    · rw [advance_recordable hfree]
      exact iff_of_true (fun err hfail => (by cases hfail)) fun _ => hfree
    · obtain ⟨e, hrefused⟩ := @advance_unrecordable sha256 questionId clientId t.startedAt answer w.db hfree t.call.actorUserId
      rw [hrefused]
      exact iff_of_false (fun h => h e rfl) fun h => hfree (h rfl)
  | refused e hnot => cases hrest.symm.trans (Prod.mk.inj hp).1
  | recorded hchange hfree => exact iff_of_true (fun err hfail => (by cases hfail)) fun _ => hfree
  | changed hchange hfree => cases hrest.symm.trans (Prod.mk.inj hp).1

/-- One that was open before, and is open now, has not failed. -/
theorem noneRefused_set (hnone : NoneRefused w) {i : ℕ}
    {t : Option (Tx ClarificationDb ClarificationWrite LockKey ClarificationError AnswerResult AnswerCall)}
    (ht : ∀ u answer, t = some u → ClarificationAnswerInput.parse u.call.answer = .ok answer → ∀ e, u.rest ≠ .fail e) :
    NoneRefused (w.set i t) := by
  intro j u answer hu hanswer
  rcases World.set_opened hu with ⟨-, hnew⟩ | ⟨-, hopen⟩
  · exact ht u answer hnew hanswer
  · exact hnone j u answer hopen hanswer

/-- The step on which a call is refused is the one on which it would write its event. -/
theorem Serialized.noneRefused_iff (h : Serialized sha256 questionId clientId w) (hnone : NoneRefused w)
    (hs : ReadCommitted.step (clarificationSystem sha256 questionId clientId) w e = some w') :
    NoneRefused w' ↔ NotGivenBefore sha256 questionId clientId w e := by
  cases e with
  | exec i =>
    obtain ⟨t, ht, ⟨e, hfail, rfl⟩ | ⟨locks, writes, next, hrest, -, rfl⟩⟩ := step_exec hs
    · refine iff_of_true (noneRefused_set hnone fun _ _ hnew => (by cases hnew)) fun u hu _ answer hanswer => ?_
      obtain rfl := Option.some.inj (ht.symm.trans hu)
      exact absurd hfail (hnone i t answer ht (mem_toOption.mp hanswer) e)
    · constructor
      · intro hnone' u hu hlength answer hanswer
        obtain rfl := Option.some.inj (ht.symm.trans hu)
        have hvalid := mem_toOption.mp hanswer
        exact (h.exec_iff ht hvalid hrest).mp
          (fun err hfail => hnone' i _ answer (World.set_self ..) hvalid err hfail) hlength
      · intro hgiven
        refine noneRefused_set hnone fun u answer hu hvalid => ?_
        obtain rfl := Option.some.inj hu
        exact (h.exec_iff ht hvalid hrest).mpr fun hlength => hgiven t ht hlength answer (mem_toOption.mpr hvalid)
  | tick =>
    obtain rfl := Option.some.inj hs
    exact iff_of_true hnone trivial
  | commit i =>
    obtain ⟨t, r, -, -, rfl⟩ := step_commit hs
    exact iff_of_true (noneRefused_set hnone fun _ _ hnew => (by cases hnew)) trivial
  | rollback i =>
    rw [step_rollback hs]
    exact iff_of_true (noneRefused_set hnone fun _ _ hnew => (by cases hnew)) trivial
  | begin call =>
    obtain rfl := Option.some.inj hs
    refine iff_of_true (noneRefused_set hnone fun u answer hu hanswer err hfail => ?_) trivial
    obtain rfl := Option.some.inj hu
    obtain ⟨locks, writes, next, hstmt⟩ := @answer_stmt sha256 questionId clientId w.now call answer hanswer
    cases hstmt.symm.trans hfail

theorem Serialized.step_iff (h : Serialized sha256 questionId clientId w) (hnone : NoneRefused w)
    (hs : ReadCommitted.step (clarificationSystem sha256 questionId clientId) w e = some w') :
    NoneRefused w' ∧ LastAnswerStands questionId clientId w e ↔ NotGivenBefore sha256 questionId clientId w e := by
  rw [← h.noneRefused_iff hnone hs]
  exact and_iff_left (h.lastAnswerStands hs)

end

end

end Clarifications
