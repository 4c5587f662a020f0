import FreightAuditor.Library.JsText
import FreightAuditor.Library.ReadCommitted
import Mathlib.Data.Fintype.Option

/- Duplicate invoices.

   `detectDuplicateInvoice` takes an advisory lock on the invoice's business key, looks
   for a committed invoice with the same number, and the transaction then inserts its own.
   The lock makes the lookup see every invoice of the same key (`seen_of_key`), but the key
   strips white space in JavaScript and the lookup strips spaces in SQL, so an invoice
   stored with a stray tab is passed over. `caught_iff` says exactly when every duplicate
   is caught. -/
namespace Ingestion

open JsText ReadCommitted

/-- A row of `invoice`, as far as duplicates go. -/
structure InvoiceRow where
  accountId : String
  transactionSet : String
  invoiceNumber : Option String
  deriving DecidableEq

/-- The tenant and the parsed invoice a transaction ingests. -/
structure InvoiceCall where
  clientId : String
  transactionSet : String
  invoiceNumber : Option String

/-- `invoiceNumber?.trim()`, where it is not falsy. -/
def normalized (invoiceNumber : Option String) : Option String :=
  (invoiceNumber.map trim).filter (· ≠ "")

section

variable (unicode : Unicode) (hashtextextended : String → ℤ)

def lockText (clientId transactionSet normalized : String) : String :=
  "|".intercalate ([clientId, transactionSet, unicode.toLowerCase normalized].map
    fun part => toString part.utf8ByteSize ++ ":" ++ part)

/-- `lower(btrim(invoice_number)) = lower($3)`, within the tenant and the transaction set. -/
def numberMatches (clientId transactionSet normalized : String) (row : InvoiceRow) : Bool :=
  row.accountId == clientId && row.transactionSet == transactionSet &&
    row.invoiceNumber.any fun stored => unicode.lower (btrim stored) == unicode.lower normalized

abbrev InvoiceProg (R : Type) := Prog (List InvoiceRow) InvoiceRow ℤ Empty R

/-- `SELECT pg_advisory_xact_lock(hashtextextended($1, 0))`. -/
def advisoryLock (key : String) : InvoiceProg Unit :=
  .exec (fun _ => [hashtextextended key]) (fun _ => .ok ((), []))

def detectDuplicateInvoice (clientId : String) (invoiceNumber : Option String) (transactionSet : String) :
    InvoiceProg (Option Bool) :=
  match normalized invoiceNumber with
  | none => pure none
  | some number => do
    advisoryLock hashtextextended (lockText unicode clientId transactionSet number)
    let found ← .query fun invoices => invoices.any (numberMatches unicode clientId transactionSet number)
    pure (some found)

/-- The row `persistAuditRun` inserts, with the number as it was parsed. -/
def InvoiceCall.row (call : InvoiceCall) : InvoiceRow :=
  ⟨call.clientId, call.transactionSet, call.invoiceNumber⟩

def insertInvoice (row : InvoiceRow) : InvoiceProg Unit := .exec (fun _ => []) (fun _ => .ok ((), [row]))

/-- `resolveAndEvaluate` and `persistAuditRun` in one transaction. -/
def ingest (call : InvoiceCall) : InvoiceProg (Option Bool) := do
  let duplicateInvoice ← detectDuplicateInvoice unicode hashtextextended call.clientId call.invoiceNumber
    call.transactionSet
  insertInvoice call.row
  pure duplicateInvoice

def invoiceSystem : System (List InvoiceRow) InvoiceRow ℤ Empty (Option Bool) InvoiceCall where
  apply invoices row := invoices ++ [row]
  body call _ _ := ingest unicode hashtextextended call

end

/-! ## What a transaction saw -/

section

variable (unicode : Unicode) (hashtextextended : String → ℤ)

/-- The advisory lock of an invoice's business key; an invoice without a number takes none. -/
def keyOf (row : InvoiceRow) : Option ℤ :=
  (normalized row.invoiceNumber).map
    fun number => hashtextextended (lockText unicode row.accountId row.transactionSet number)

/-- Rows are only added, and none under a key that is held. -/
structure RowsSince (held : List ℤ) (s invoices : List InvoiceRow) : Prop where
  kept : ∀ row ∈ s, row ∈ invoices
  locked : ∀ row ∈ invoices, ∀ key ∈ keyOf unicode hashtextextended row, key ∈ held → row ∈ s

end

variable {unicode : Unicode} {hashtextextended : String → ℤ}

/-- A finished transaction with a number has looked at some committed rows under the lock of its key,
and inserts its row. -/
theorem ingest_ends {call : InvoiceCall} {number : String} (h : normalized call.invoiceNumber = some number)
    {r : Option Bool} {log : Log (List InvoiceRow) InvoiceRow ℤ}
    (hends : Ends (invoiceSystem unicode hashtextextended).apply (ingest unicode hashtextextended call)
      .empty r log) :
    ∃ key seen, keyOf unicode hashtextextended call.row = some key ∧ log.seen[1]? = some (seen, [key]) ∧
      log.held = [key] ∧ log.writes = [call.row] ∧
      r = some (seen.any (numberMatches unicode call.clientId call.transactionSet number)) := by
  simp only [ingest, detectDuplicateInvoice, h, advisoryLock, insertInvoice, ends_bind, ends_exec,
    ends_query, ends_pure] at hends
  obtain ⟨flag, mid, ⟨u, locked, ⟨before, ws, hlock, rfl⟩, found, queried, ⟨seen, rfl, rfl⟩, rfl, rfl⟩,
    u', inserted, ⟨db, ws', hinsert, rfl⟩, rfl, rfl⟩ := hends
  obtain ⟨-, rfl⟩ := Prod.mk.inj (Except.ok.inj hlock)
  obtain ⟨-, rfl⟩ := Prod.mk.inj (Except.ok.inj hinsert)
  refine ⟨_, seen, ?_, rfl, rfl, rfl, rfl⟩
  rw [keyOf, InvoiceCall.row, h]
  rfl

/-- One without a number takes no lock. -/
theorem ingest_ends_blank {call : InvoiceCall} (h : normalized call.invoiceNumber = none)
    {r : Option Bool} {log : Log (List InvoiceRow) InvoiceRow ℤ}
    (hends : Ends (invoiceSystem unicode hashtextextended).apply (ingest unicode hashtextextended call)
      .empty r log) : log.writes = [call.row] := by
  simp only [ingest, detectDuplicateInvoice, h, insertInvoice, ends_bind, ends_exec, ends_pure] at hends
  obtain ⟨flag, mid, ⟨rfl, rfl⟩, u, inserted, ⟨db, ws, hinsert, rfl⟩, rfl, rfl⟩ := hends
  obtain ⟨-, rfl⟩ := Prod.mk.inj (Except.ok.inj hinsert)
  rfl

/-- A commit adds its row, and does so under the lock of the row's key. -/
theorem ingest_writes {call : InvoiceCall} {r : Option Bool} {log : Log (List InvoiceRow) InvoiceRow ℤ}
    (hends : Ends (invoiceSystem unicode hashtextextended).apply (ingest unicode hashtextextended call)
      .empty r log) :
    log.writes = [call.row] ∧ ∀ key ∈ keyOf unicode hashtextextended call.row, key ∈ log.held := by
  cases h : normalized call.invoiceNumber with
  | none =>
    refine ⟨ingest_ends_blank h hends, fun key hkey => ?_⟩
    rw [keyOf, InvoiceCall.row, h] at hkey
    cases hkey
  | some number =>
    obtain ⟨key, seen, hkey, -, hheld, hwrites, -⟩ := ingest_ends h hends
    refine ⟨hwrites, fun key' hkey' => ?_⟩
    obtain rfl : key = key' := Option.some.inj (hkey.symm.trans hkey')
    rw [hheld]
    exact List.mem_singleton_self _

theorem invoiceOutline : Outline (invoiceSystem unicode hashtextextended) (fun _ => True)
    (RowsSince unicode hashtextextended) (fun _ _ _ => True) where
  refl _ _ := ⟨fun _ h => h, fun _ h _ _ _ => h⟩
  good _ _ _ _ _ _ _ _ := trivial
  rely invoices call i startedAt r log hcommit held s hfree hsince := by
    obtain ⟨hwrites, hheld⟩ := ingest_writes hcommit.ends
    rw [hwrites, view_cons, view_nil]
    refine ⟨fun row hrow => List.mem_append_left _ (hsince.kept row hrow), fun row hrow key hkey hk => ?_⟩
    rcases List.mem_append.mp hrow with hold | hnew
    · exact hsince.locked row hold key hkey hk
    · -- the new row's key is held by the committer, so by nobody else
      obtain rfl := List.mem_singleton.mp hnew
      exact absurd (hheld key hkey) (hfree key hk)

/-! ## Duplicates -/

/-- A stored invoice has the tenant, the transaction set and, but for outer white space and the case of
ASCII letters, the number of the one being ingested, which is not blank. -/
def SameNumber (row : InvoiceRow) (call : InvoiceCall) : Prop :=
  row.accountId = call.clientId ∧ row.transactionSet = call.transactionSet ∧
    ∃ stored ∈ row.invoiceNumber, ∃ number ∈ call.invoiceNumber,
      trim stored ≠ "" ∧ EqualIgnoringAsciiCase (trim stored) (trim number)

/-- The number of a stored invoice has no other white space at its ends than spaces. -/
def OuterSpacesOnly (row : InvoiceRow) : Prop := ∀ stored ∈ row.invoiceNumber, btrim stored = trim stored

instance (row : InvoiceRow) (call : InvoiceCall) : Decidable (SameNumber row call) := by
  unfold SameNumber
  infer_instance

instance (row : InvoiceRow) : Decidable (OuterSpacesOnly row) := by
  unfold OuterSpacesOnly
  infer_instance

section

variable (unicode : Unicode) (hashtextextended : String → ℤ)

/-- A commit with a number holds its key's lock alone, and if an invoice with the same number is
committed already, it reports a duplicate. -/
def DuplicateCaught (w : World (List InvoiceRow) InvoiceRow ℤ Empty (Option Bool) InvoiceCall) :
    Event InvoiceCall → Prop
  | .commit i => ∀ t ∈ w.opened i, ∀ r ∈ t.result?, ∀ key ∈ keyOf unicode hashtextextended t.call.row,
    key ∈ t.log.held ∧ blocked w i [key] = false ∧
      ∃ flag, r = some flag ∧ ((∃ row ∈ w.db, SameNumber row t.call) → flag = true)
  | _ => True

/-- If an invoice with the same number is committed, then one whose outer white space is spaces; or the
lookup saw another number that only the database's `lower` takes for the same. -/
def Findable (invoices : List InvoiceRow) (call : InvoiceCall) (log : Log (List InvoiceRow) InvoiceRow ℤ) : Prop :=
  (∃ row ∈ invoices, SameNumber row call) →
    (∃ row ∈ invoices, SameNumber row call ∧ OuterSpacesOnly row) ∨
      ∃ seen ∈ log.seen[1]?, ∃ number ∈ normalized call.invoiceNumber, ∃ row ∈ seen.1,
        ¬ SameNumber row call ∧ numberMatches unicode call.clientId call.transactionSet number row

instance (w : World (List InvoiceRow) InvoiceRow ℤ Empty (Option Bool) InvoiceCall) :
    ∀ e, Decidable (DuplicateCaught unicode hashtextextended w e)
  | .commit i => by
    unfold DuplicateCaught
    infer_instance
  | .begin _ => .isTrue trivial
  | .exec _ => .isTrue trivial
  | .rollback _ => .isTrue trivial
  | .tick => .isTrue trivial

instance (invoices : List InvoiceRow) (call : InvoiceCall) (log : Log (List InvoiceRow) InvoiceRow ℤ) :
    Decidable (Findable unicode invoices call log) := by
  unfold Findable
  infer_instance

end

theorem normalized_eq {invoiceNumber : Option String} {number : String} :
    normalized invoiceNumber = some number ↔ number ≠ "" ∧ ∃ raw ∈ invoiceNumber, trim raw = number := by
  cases invoiceNumber with
  | none => simp [normalized]
  | some raw =>
    simp only [normalized, Option.map_some, Option.filter_eq_some_iff, Option.some.injEq, decide_eq_true_eq,
      Option.mem_def, exists_eq_left']
    exact and_comm

/-- Two texts that differ in case are both blank or neither. -/
theorem ne_empty_of_equal {a b : String} (h : EqualIgnoringAsciiCase a b) (ha : a ≠ "") : b ≠ "" := by
  rintro rfl
  have hnil : a.toList = [] := List.map_eq_nil_iff.mp h
  exact ha (String.toList_eq_nil_iff.mp hnil)

section laws

variable (laws : unicode.CaseLaws) {row : InvoiceRow} {call : InvoiceCall}
include laws

/-- Invoices with the same number have the same lock. -/
theorem SameNumber.key (h : SameNumber row call) :
    keyOf unicode hashtextextended row = keyOf unicode hashtextextended call.row := by
  obtain ⟨haccount, hset, stored, hstored, number, hnumber, hne, heq⟩ := h
  have hrow : normalized row.invoiceNumber = some (trim stored) := normalized_eq.mpr ⟨hne, stored, hstored, rfl⟩
  have hcall : normalized call.invoiceNumber = some (trim number) :=
    normalized_eq.mpr ⟨ne_empty_of_equal heq hne, number, hnumber, rfl⟩
  have htext : lockText unicode row.accountId row.transactionSet (trim stored) =
      lockText unicode call.clientId call.transactionSet (trim number) := by
    rw [lockText, lockText, haccount, hset, laws.toLowerCase_congr _ _ heq]
  rw [keyOf, keyOf, InvoiceCall.row, hrow, hcall, Option.map_some, Option.map_some, htext]

/-- The lookup finds an invoice with the same number exactly when its outer white space is spaces. -/
theorem SameNumber.matches_iff (h : SameNumber row call) {number : String}
    (hnumber : normalized call.invoiceNumber = some number) :
    numberMatches unicode call.clientId call.transactionSet number row = true ↔ OuterSpacesOnly row := by
  obtain ⟨haccount, hset, stored, hstored, raw, hraw, -, heq⟩ := h
  obtain ⟨-, raw', hraw', rfl⟩ := normalized_eq.mp hnumber
  obtain rfl := Option.mem_unique hraw hraw'
  rw [Option.mem_def] at hstored
  simp only [numberMatches, OuterSpacesOnly, haccount, hset, hstored, beq_self_eq_true, Bool.true_and,
    Option.any_some, beq_iff_eq, Option.mem_def, Option.some.injEq, forall_eq']
  exact laws.lower_btrim heq

/-- What the lookup reports of an invoice with a number, over rows seen under the key's lock. -/
theorem flag_iff {number : String} (hnumber : normalized call.invoiceNumber = some number) {key : ℤ}
    (hkey : keyOf unicode hashtextextended call.row = some key) {seen invoices : List InvoiceRow}
    (hsince : RowsSince unicode hashtextextended [key] seen invoices) :
    ((∃ row ∈ invoices, SameNumber row call) →
        seen.any (numberMatches unicode call.clientId call.transactionSet number) = true) ↔
      ((∃ row ∈ invoices, SameNumber row call) →
        (∃ row ∈ invoices, SameNumber row call ∧ OuterSpacesOnly row) ∨
          ∃ row ∈ seen, ¬ SameNumber row call ∧
            numberMatches unicode call.clientId call.transactionSet number row) := by
  refine forall_congr' (fun _ => ?_)
  rw [List.any_eq_true]
  constructor
  · rintro ⟨row, hrow, hmatch⟩
    by_cases hsame : SameNumber row call
    · exact .inl ⟨row, hsince.kept row hrow, hsame, (hsame.matches_iff laws hnumber).mp hmatch⟩
    · exact .inr ⟨row, hrow, hsame, hmatch⟩
  · rintro (⟨row, hrow, hsame, hspaces⟩ | ⟨row, hrow, -, hmatch⟩)
    · -- the lookup saw it, as it has the lock that was held
      have hrowKey : keyOf unicode hashtextextended row = some key := (hsame.key laws).trans hkey
      exact ⟨row, hsince.locked row hrow key hrowKey (List.mem_singleton_self _),
        (hsame.matches_iff laws hnumber).mpr hspaces⟩
    · exact ⟨row, hrow, hmatch⟩

/-- At a commit, a duplicate is caught exactly when it can be found. -/
theorem caught_commit {w : World (List InvoiceRow) InvoiceRow ℤ Empty (Option Bool) InvoiceCall}
    (hinv : Inv (invoiceSystem unicode hashtextextended) (fun _ => True) (RowsSince unicode hashtextextended) w)
    {i : ℕ} {t : Tx (List InvoiceRow) InvoiceRow ℤ Empty (Option Bool) InvoiceCall} {r : Option Bool}
    (ht : w.opened i = some t) (hr : t.rest = .done r) :
    DuplicateCaught unicode hashtextextended w (.commit i) ↔ Findable unicode w.db t.call t.log := by
  have hcommit := hinv.commit_of ht hr
  have hresult : ∀ r', r' ∈ t.result? ↔ r' = r := fun r' => by
    rw [Option.mem_def, Tx.result?_eq, hr, Prog.done.injEq, eq_comm]
  simp only [DuplicateCaught, ht, Option.mem_def, Option.some.injEq, forall_eq']
  cases hnumber : normalized t.call.invoiceNumber with
  | none =>
    have hkey : keyOf unicode hashtextextended t.call.row = none := by rw [keyOf, InvoiceCall.row, hnumber]; rfl
    refine ⟨fun _ hsame => ?_, fun _ r' _ key h => ?_⟩
    · obtain ⟨row, -, -, -, stored, -, number, hraw, hne, heq⟩ := hsame
      have := normalized_eq.mpr ⟨ne_empty_of_equal heq hne, number, hraw, rfl⟩
      rw [hnumber] at this
      cases this
    · rw [hkey] at h
      cases h
  | some number =>
    obtain ⟨key, seen, hkey, hseen, hheld, -, rfl⟩ := ingest_ends hnumber hcommit.ends
    have hlock : key ∈ t.log.held ∧ blocked w i [key] = false := by
      have hmem : key ∈ t.log.held := by rw [hheld]; exact List.mem_singleton_self _
      refine ⟨hmem, blocked_eq_false (fun j u hji hu k hk => ?_)⟩
      obtain rfl := List.mem_singleton.mp hk
      exact hinv.exclusive i j t u (Ne.symm hji) ht hu k hmem
    have hflag := flag_iff laws hnumber hkey (hcommit.seen _ (List.mem_of_getElem? hseen)).2
    simp only [Findable, hnumber, hseen, Option.mem_def, Option.some.injEq, exists_eq_left']
    rw [← hflag]
    refine ⟨fun h hsame => ?_, fun h r' hr' key' hkey' => ?_⟩
    · obtain ⟨-, -, flag, hr', hdup⟩ := h _ ((hresult _).mpr rfl) key hkey
      rw [Option.some.inj hr']
      exact hdup hsame
    · obtain rfl := (hresult r').mp hr'
      obtain rfl : key = key' := Option.some.inj (hkey.symm.trans hkey')
      exact ⟨hlock.1, hlock.2, _, rfl, h⟩

/-- In a run, every duplicate is caught exactly when at every commit a committed invoice with the same
number can be found. -/
theorem duplicateCaught_iff (invoices : List InvoiceRow) (next now : ℕ) (events : List (Event InvoiceCall)) :
    Runs.AllSteps (step (invoiceSystem unicode hashtextextended)) (DuplicateCaught unicode hashtextextended)
        (World.initial invoices next now) events ↔
      Runs.AllSteps (step (invoiceSystem unicode hashtextextended)) (CommitsMeet (Findable unicode))
        (World.initial invoices next now) events := by
  refine invoiceOutline.allSteps_iff (fun w e w' hinv hstep => ?_) trivial next now events
  cases e with
  | commit i =>
    obtain ⟨t, r, ht, hr, -⟩ := step_commit hstep
    rw [caught_commit laws hinv ht hr]
    refine ⟨fun h j u hj hu => ?_, fun h => h i t rfl ht⟩
    obtain rfl := Event.commit.inj hj
    obtain rfl := Option.some.inj (ht.symm.trans hu)
    exact h
  | _ => exact ⟨fun _ _ _ h => (by cases h), fun _ => trivial⟩

end laws

/-- Two transactions open at once: the second asks for the lock while the first holds it. -/
def overlappingRun (first second : String) : List (Event InvoiceCall) :=
  [.begin ⟨"c", "210", some first⟩, .begin ⟨"c", "210", some second⟩, .exec 0, .exec 0, .exec 0, .commit 0,
    .exec 1, .exec 1, .exec 1, .commit 1]

example : Runs.final (step (invoiceSystem .ascii (fun text => text.length))) (World.initial [] 0 0)
    ((overlappingRun "INV-1" "inv-1").take 3 ++ [.exec 1]) |>.isNone := by
  decide +kernel

/-- A number that ends in a space is found again. -/
theorem spacedRun_caught :
    Runs.AllSteps (step (invoiceSystem .ascii (fun text => text.length)))
      (DuplicateCaught .ascii (fun text => text.length)) (World.initial [] 0 0)
      (overlappingRun "INV-1 " "inv-1") :=
  (duplicateCaught_iff Unicode.ascii_caseLaws [] 0 0 _).mpr (by decide +kernel)

/-- One that ends in a tab is not. -/
theorem tabbedRun_missed :
    ¬ Runs.AllSteps (step (invoiceSystem .ascii (fun text => text.length)))
      (DuplicateCaught .ascii (fun text => text.length)) (World.initial [] 0 0)
      (overlappingRun "INV-1\t" "INV-1") := by
  decide +kernel

end Ingestion
