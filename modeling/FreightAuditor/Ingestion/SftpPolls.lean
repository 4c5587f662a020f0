import FreightAuditor.Ingestion.SftpIntake

/- What a poll leaves behind.

   A file that cannot be read, has another size or is refused by the object store is
   quarantined, and the poll goes on. A statement that fails takes the transaction with it:
   quarantining the row fails too, the poll throws and everything is rolled back. So polls
   isolate their files exactly if no statement fails for a file that is not stored yet
   (`isolated_iff`). -/
namespace SftpIntake

open JsText Sessions

def Fault.isStatement : Fault → Bool
  | .storeSourceDocument _ | .updateStored => true
  | _ => false

/-- The code that the file is quarantined with, if it fails. -/
def RemoteFile.failureCode? (file : RemoteFile) : Option String :=
  if file.fault = some .read then some "READ_OR_STORE_FAILED"
  else if file.bytes.length ≠ file.entry.size then some "SIZE_MISMATCH"
  else if file.fault.isSome then some "READ_OR_STORE_FAILED"
  else none

/-- A statement fails for the file. -/
def RemoteFile.breaks (file : RemoteFile) : Prop :=
  file.bytes.length = file.entry.size ∧ file.fault.any Fault.isStatement = true

instance (file : RemoteFile) : Decidable file.breaks := inferInstanceAs (Decidable (_ ∧ _))

section

variable (sha256 : String → String) (unicode : Unicode) (put : List UInt8 → StoredObject)
  (connection : SftpConnectionConfig) {file : RemoteFile} (db : IntakeDb)

/-! ## Storing one file -/

theorem insertDocument_found (document : SourceDocument) :
    ∃ documents, (insertDocument document db).2 = { db with documents } ∧ (documents.find? document.key).isSome ∧
      (∀ d, (db.documents.find? d).isSome → (documents.find? d).isSome) ∧
      ∀ id ∈ (insertDocument document db).1, id = document.key := by
  unfold insertDocument
  cases hinsert : db.documents.insert document with
  | some documents =>
    refine ⟨documents, rfl, ?_, fun d hd => ?_, fun id hid => (Option.some.inj hid).symm⟩
    · rw [KeyedTable.find?_insert hinsert, if_pos rfl]
      rfl
    · rw [KeyedTable.find?_insert hinsert]
      split
      · rfl
      · exact hd
  | none =>
    refine ⟨db.documents, rfl, ?_, fun d hd => hd, fun id hid => (by cases hid)⟩
    cases hfind : db.documents.find? document.key with
    | some row => rfl
    | none =>
      obtain ⟨documents, hsome⟩ := KeyedTable.insert_fresh hfind
      cases hinsert.symm.trans hsome

theorem storeSourceDocument_ok (file : RemoteFile) (contentType : Option String) {fault : Option Fault}
    (h : fault = none ∨ fault = some .updateStored) :
    ∃ ref documents, exec (storeSourceDocument put connection.clientId file.bytes contentType fault) ⟨db, false⟩ =
        (.ok ref, ⟨{ db with documents }, false⟩) ∧
      ref.id = ⟨connection.clientId, (put file.bytes).sha256⟩ ∧ ref.ownedByCaller = true ∧
      (documents.find? ref.id).isSome ∧ ∀ d, (db.documents.find? d).isSome → (documents.find? d).isSome := by
  have hput : fault ≠ some .put := by rcases h with rfl | rfl <;> simp
  have hdoc : ∀ last, fault ≠ some (.storeSourceDocument last) := by rcases h with rfl | rfl <;> simp
  simp only [storeSourceDocument]
  rw [if_neg hput]
  obtain ⟨documents, hdb, hfound, hgrows, hid⟩ := insertDocument_found db
    ⟨⟨connection.clientId, (put file.bytes).sha256⟩, contentType, file.bytes.length, (put file.bytes).uri⟩
  rw [exec_bind_ok (exec_statement_some (by rw [if_neg (fun hf => hf.elim (hdoc _) fun hf => hdoc _ hf.1)])), hdb]
  cases hinserted : (insertDocument _ db).1 with
  | some id =>
    obtain rfl := hid id hinserted
    exact ⟨_, documents, rfl, rfl, rfl, hfound, hgrows⟩
  | none =>
    dsimp only
    obtain ⟨row, hrow⟩ := Option.isSome_iff_exists.mp hfound
    rw [exec_bind_ok (exec_statement_some (by rw [if_neg (hdoc _)]))]
    dsimp only
    rw [hrow]
    have hkey := (KeyedTable.find?_sound hrow).2
    exact ⟨_, documents, rfl, hkey, rfl, hkey ▸ hfound, hgrows⟩

/-- A statement of `storeSourceDocument` fails. -/
theorem storeSourceDocument_breaks (file : RemoteFile) (contentType : Option String) (last : Bool) :
    ∃ s, exec (storeSourceDocument put connection.clientId file.bytes contentType (some (.storeSourceDocument last)))
      ⟨db, false⟩ = (.error .sql, s) ∧ s.aborted = true := by
  simp only [storeSourceDocument]
  rw [if_neg (by simp)]
  cases last with
  | false => exact ⟨_, exec_bind_error (exec_statement_none (if_pos (.inl rfl))), rfl⟩
  | true =>
    obtain ⟨documents, hdb, -⟩ := insertDocument_found db
      ⟨⟨connection.clientId, (put file.bytes).sha256⟩, contentType, file.bytes.length, (put file.bytes).uri⟩
    cases hinserted : (insertDocument _ db).1 with
    | some id => exact ⟨_, exec_bind_error (exec_statement_none (if_pos (.inr ⟨rfl, by rw [hinserted]; rfl⟩))), rfl⟩
    | none =>
      have hfirst : ¬ (some (Fault.storeSourceDocument true) = some (.storeSourceDocument false) ∨
          some (Fault.storeSourceDocument true) = some (.storeSourceDocument true) ∧
            (insertDocument ⟨⟨connection.clientId, (put file.bytes).sha256⟩, contentType, file.bytes.length,
              (put file.bytes).uri⟩ db).1.isSome = true) := by
        rw [hinserted]
        simp
      rw [exec_bind_ok (exec_statement_some (by rw [if_neg hfirst])), hinserted]
      exact ⟨_, exec_bind_error (exec_statement_none (if_pos rfl)), rfl⟩

theorem storeEntry_ok (h : file.failureCode? = none) :
    ∃ documents, exec (storeEntry sha256 unicode put connection file) ⟨db, false⟩ =
        (.ok (), ⟨{ ({ db with documents } : IntakeDb).updateRow (intakeKey sha256 connection.id file.entry)
            connection.clientId (.store ⟨connection.clientId, (put file.bytes).sha256⟩) fun _ => rfl with
          storings := db.storings ++ [intakeKey sha256 connection.id file.entry] }, false⟩) ∧
      (documents.find? ⟨connection.clientId, (put file.bytes).sha256⟩).isSome ∧
      ∀ d, (db.documents.find? d).isSome → (documents.find? d).isSome := by
  have hfault : file.fault = none ∧ file.bytes.length = file.entry.size := by
    unfold RemoteFile.failureCode? at h
    split_ifs at h with h₁ h₂ h₃
    exact ⟨by simpa using h₃, not_not.mp h₂⟩
  obtain ⟨ref, documents, hstore, hid, howned, hfound, hgrows⟩ := storeSourceDocument_ok put connection db file
    (some (contentTypeFor unicode file.entry.path)) (.inl hfault.1)
  refine ⟨documents, ?_, hid ▸ hfound, hgrows⟩
  have hnot : ∀ fault, file.fault ≠ some fault := fun fault hf => by cases hfault.1.symm.trans hf
  simp only [storeEntry]
  rw [if_neg (hnot _), if_neg (not_not.mpr hfault.2), exec_bind_ok hstore, howned, hid,
    Bool.not_true, if_neg Bool.false_ne_true]
  exact exec_statement_some (by rw [if_neg (hnot _)])

/-- A failure that is no statement's leaves the transaction as it was. -/
theorem storeEntry_fails {code : String} (h : file.failureCode? = some code) (hb : ¬ file.breaks) :
    ∃ e, exec (storeEntry sha256 unicode put connection file) ⟨db, false⟩ = (.error e, ⟨db, false⟩) ∧
      e.failureCode = code := by
  simp only [storeEntry]
  unfold RemoteFile.failureCode? at h
  split_ifs at h with hread hsize hfault
  · obtain rfl := Option.some.inj h
    rw [if_pos hread]
    exact ⟨.readFailed, rfl, rfl⟩
  · obtain rfl := Option.some.inj h
    rw [if_neg hread, if_pos hsize]
    exact ⟨.SFTP_SIZE_MISMATCH, rfl, rfl⟩
  · obtain rfl := Option.some.inj h
    rw [if_neg hread, if_neg hsize]
    have hput : file.fault = some .put := by
      obtain ⟨fault, hf⟩ := Option.isSome_iff_exists.mp hfault
      cases fault with
      | put => exact hf
      | read => exact absurd hf hread
      | storeSourceDocument last => exact absurd ⟨not_not.mp hsize, by rw [hf]; rfl⟩ hb
      | updateStored => exact absurd ⟨not_not.mp hsize, by rw [hf]; rfl⟩ hb
    simp only [storeSourceDocument]
    rw [if_pos hput]
    exact ⟨.storeFailed, rfl, rfl⟩

theorem storeEntry_breaks (h : file.breaks) :
    ∃ e s, exec (storeEntry sha256 unicode put connection file) ⟨db, false⟩ = (.error e, s) ∧ s.aborted = true := by
  obtain ⟨hsize, hfault⟩ := h
  rw [Option.any_eq_true] at hfault
  obtain ⟨fault, hf, hstatement⟩ := hfault
  simp only [storeEntry]
  rw [if_neg (by rw [hf]; rintro ⟨⟩; cases hstatement), if_neg (not_not.mpr hsize)]
  cases fault with
  | read => cases hstatement
  | put => cases hstatement
  | storeSourceDocument last =>
    rw [hf]
    obtain ⟨s, hexec, haborted⟩ := storeSourceDocument_breaks put connection db file
      (some (contentTypeFor unicode file.entry.path)) last
    exact ⟨.sql, s, exec_bind_error hexec, haborted⟩
  | updateStored =>
    obtain ⟨ref, documents, hstore, hid, howned, -⟩ := storeSourceDocument_ok put connection db file
      (some (contentTypeFor unicode file.entry.path)) (.inr hf)
    rw [exec_bind_ok hstore, howned, Bool.not_true, if_neg Bool.false_ne_true]
    exact ⟨.sql, _, exec_statement_none (by rw [if_pos hf]), rfl⟩

end

/-! ## The turn of one file -/

/-- The revision is stored. -/
def IntakeDb.Stored (db : IntakeDb) (key : IntakeKey) : Prop :=
  (db.intake.find? key).any (·.status = .stored) = true

instance (db : IntakeDb) (key : IntakeKey) : Decidable (db.Stored key) :=
  inferInstanceAs (Decidable (_ = true))

theorem IntakeDb.stored_iff {db : IntakeDb} {key : IntakeKey} :
    db.Stored key ↔ ∃ row, db.intake.find? key = some row ∧ row.status = .stored := by
  unfold IntakeDb.Stored
  rw [Option.any_eq_true]
  simp

/-- Every row is decided, of the connection's account and, where it is stored, with a document; and
every revision was stored once that is. -/
structure IntakeInv (accountOf : String → String) (db : IntakeDb) : Prop where
  status : ∀ key row, db.intake.find? key = some row → row.status = .stored ∨ row.status = .quarantined
  account : ∀ key row, db.intake.find? key = some row → row.accountId = accountOf key.connectionId
  document : ∀ key row, db.intake.find? key = some row → row.status = .stored →
    ∃ d, row.sourceDocumentId = some d ∧ (db.documents.find? d).isSome
  nodup : db.storings.Nodup
  stored : ∀ key, key ∈ db.storings ↔ db.Stored key

/-- From the rows before to those after, one revision has this row; documents stay. -/
structure Turn (db db' : IntakeDb) (key : IntakeKey) (row : IntakeRow) : Prop where
  rows : ∀ k, db'.intake.find? k = if k = key then some row else db.intake.find? k
  documents : ∀ d, (db.documents.find? d).isSome → (db'.documents.find? d).isSome

section

variable {db db' : IntakeDb} {key : IntakeKey} {row : IntakeRow}

theorem Turn.self (h : Turn db db' key row) : db'.intake.find? key = some row := (h.rows key).trans (if_pos rfl)

theorem Turn.other (h : Turn db db' key row) {k : IntakeKey} (hk : k ≠ key) :
    db'.intake.find? k = db.intake.find? k := (h.rows k).trans (if_neg hk)

/-- The row that a turn has set, updated. -/
theorem Turn.updateRow (h : Turn db db' key row) {clientId : String} (f : IntakeRow → IntakeRow)
    (hf : ∀ r, (f r).key = r.key) (hacc : row.accountId = clientId) :
    Turn db (db'.updateRow key clientId f hf) key (f row) where
  rows := by
    intro k
    rw [IntakeDb.updateRow, KeyedTable.find?_update, h.rows]
    have hself := (KeyedTable.find?_sound h.self).2
    split
    · rw [Option.map_some, if_pos ⟨hself, hacc⟩]
    · rename_i hk
      cases hfind : db.intake.find? k with
      | none => rfl
      | some r =>
        have hkey := (KeyedTable.find?_sound hfind).2
        rw [Option.map_some, if_neg fun hr => hk (hkey.symm.trans hr.1)]
  documents := h.documents

theorem Turn.stored_other (h : Turn db db' key row) {k : IntakeKey} (hk : k ≠ key) : db'.Stored k ↔ db.Stored k := by
  rw [IntakeDb.Stored, h.other hk, IntakeDb.Stored]

theorem claimRow_stored {clientId : String} (h : db.Stored key) :
    claimRow ⟨key, clientId, none, .discovered, none, 1⟩ db = some (false, db) := by
  obtain ⟨row, hfind, hstatus⟩ := IntakeDb.stored_iff.mp h
  simp only [claimRow, hfind, hstatus]
  exact if_neg IntakeStatus.noConfusion

/-- A revision that is not stored is claimed. -/
theorem claimRow_claimed {accountOf : String → String} (hdb : IntakeInv accountOf db) (h : ¬ db.Stored key)
    (clientId : String) (hclient : accountOf key.connectionId = clientId) :
    ∃ db' row, claimRow ⟨key, clientId, none, .discovered, none, 1⟩ db = some (true, db') ∧
      Turn db db' key row ∧ row.accountId = clientId ∧ db'.storings = db.storings := by
  unfold claimRow
  cases hfind : db.intake.find? key with
  | none =>
    obtain ⟨intake, hinsert⟩ := KeyedTable.insert_fresh
      (a := (⟨key, clientId, none, .discovered, none, 1⟩ : IntakeRow)) hfind
    refine ⟨{ db with intake }, ⟨key, clientId, none, .discovered, none, 1⟩, ?_,
      ⟨fun k => ?_, fun d hd => hd⟩, rfl, rfl⟩
    · dsimp only
      rw [hinsert]
      rfl
    · rw [KeyedTable.find?_insert hinsert]
      simp only [eq_comm]
  | some existing =>
    have hquarantined : existing.status = .quarantined := by
      rcases hdb.status key existing hfind with hstored | hquarantined
      · exact absurd (IntakeDb.stored_iff.mpr ⟨existing, hfind, hstored⟩) h
      · exact hquarantined
    have hkey := (KeyedTable.find?_sound hfind).2
    dsimp only
    rw [if_pos hquarantined]
    refine ⟨_, { existing with status := .discovered, failureCode := none, attemptCount := existing.attemptCount + 1 },
      rfl, ⟨fun k => ?_, fun d hd => hd⟩, (hdb.account key existing hfind).trans hclient, rfl⟩
    rw [KeyedTable.find?_update]
    split
    · rename_i hk
      rw [hk, hfind, Option.map_some, if_pos hkey]
    · rename_i hk
      cases hfind' : db.intake.find? k with
      | none => rfl
      | some r =>
        have hkey' := (KeyedTable.find?_sound hfind').2
        rw [Option.map_some, if_neg fun hr => hk (hkey'.symm.trans hr)]

end

section

variable {sha256 : String → String} (unicode : Unicode) (put : List UInt8 → StoredObject)
  {accountOf : String → String} {connectionId : String} (result : SftpPollResult) {file : RemoteFile} {db : IntakeDb}

/-- The document that a file becomes. -/
def documentOf (put : List UInt8 → StoredObject) (accountOf : String → String) (connectionId : String)
    (file : RemoteFile) : DocumentKey :=
  ⟨accountOf connectionId, (put file.bytes).sha256⟩

theorem pollEntry_stored (h : db.Stored (intakeKey sha256 connectionId file.entry)) :
    exec (pollEntry sha256 unicode put ⟨connectionId, accountOf connectionId⟩ result file) ⟨db, false⟩ =
      (.ok { result with duplicates := result.duplicates + 1 }, ⟨db, false⟩) := by
  simp only [pollEntry]
  rw [exec_bind_ok (exec_statement_some (claimRow_stored h))]
  rfl

theorem pollEntry_stores (hdb : IntakeInv accountOf db) (h : ¬ db.Stored (intakeKey sha256 connectionId file.entry))
    (hok : file.failureCode? = none) :
    ∃ db' row, exec (pollEntry sha256 unicode put ⟨connectionId, accountOf connectionId⟩ result file) ⟨db, false⟩ =
        (.ok { result with stored := result.stored + 1 }, ⟨db', false⟩) ∧
      Turn db db' (intakeKey sha256 connectionId file.entry) row ∧ row.status = .stored ∧ row.accountId = accountOf connectionId ∧
      row.sourceDocumentId = some (documentOf put accountOf connectionId file) ∧
      (db'.documents.find? (documentOf put accountOf connectionId file)).isSome ∧
      db'.storings = db.storings ++ [intakeKey sha256 connectionId file.entry] := by
  obtain ⟨db₁, row, hclaim, hturn, hacc, hstorings⟩ := claimRow_claimed hdb h (accountOf connectionId) rfl
  obtain ⟨documents, hstore, hfound, hgrows⟩ := storeEntry_ok sha256 unicode put
    ⟨connectionId, accountOf connectionId⟩ db₁ hok
  simp only [pollEntry]
  rw [exec_bind_ok (exec_statement_some hclaim), Bool.not_true, if_neg Bool.false_ne_true, exec_tryCatch,
    exec_bind_ok hstore]
  have hdocuments : Turn db { db₁ with documents } (intakeKey sha256 connectionId file.entry) row :=
    ⟨hturn.rows, fun d hd => hgrows d (hturn.documents d hd)⟩
  have hrow := hdocuments.updateRow (.store (documentOf put accountOf connectionId file)) (fun _ => rfl) hacc
  exact ⟨_, _, rfl, ⟨hrow.rows, hrow.documents⟩, rfl, hacc, rfl, hfound, congrArg (· ++ [_]) hstorings⟩

theorem pollEntry_quarantines (hdb : IntakeInv accountOf db) (h : ¬ db.Stored (intakeKey sha256 connectionId file.entry))
    {code : String} (hcode : file.failureCode? = some code) (hb : ¬ file.breaks) :
    ∃ db' row, exec (pollEntry sha256 unicode put ⟨connectionId, accountOf connectionId⟩ result file) ⟨db, false⟩ =
        (.ok { result with quarantined := result.quarantined + 1 }, ⟨db', false⟩) ∧
      Turn db db' (intakeKey sha256 connectionId file.entry) row ∧ row.status = .quarantined ∧
      row.accountId = accountOf connectionId ∧ row.failureCode = some code ∧ db'.storings = db.storings := by
  obtain ⟨db₁, row, hclaim, hturn, hacc, hstorings⟩ := claimRow_claimed hdb h (accountOf connectionId) rfl
  obtain ⟨e, hfail, he⟩ := storeEntry_fails sha256 unicode put ⟨connectionId, accountOf connectionId⟩ db₁ hcode hb
  simp only [pollEntry]
  rw [exec_bind_ok (exec_statement_some hclaim), Bool.not_true, if_neg Bool.false_ne_true, exec_tryCatch,
    exec_bind_error hfail]
  have hrow := hturn.updateRow (.quarantine code) (fun _ => rfl) hacc
  subst he
  exact ⟨_, _, rfl, hrow, rfl, hacc, rfl, hstorings⟩

/-- The handler of a failed statement fails too. -/
theorem pollEntry_breaks (hdb : IntakeInv accountOf db) (h : ¬ db.Stored (intakeKey sha256 connectionId file.entry))
    (hb : file.breaks) :
    ∃ e s, exec (pollEntry sha256 unicode put ⟨connectionId, accountOf connectionId⟩ result file) ⟨db, false⟩ =
      (.error e, s) := by
  obtain ⟨db₁, row, hclaim, -⟩ := claimRow_claimed hdb h (accountOf connectionId) rfl
  obtain ⟨e, ⟨db₂, aborted⟩, hfail, haborted⟩ := storeEntry_breaks sha256 unicode put
    ⟨connectionId, accountOf connectionId⟩ db₁ hb
  obtain rfl : aborted = true := haborted
  simp only [pollEntry]
  rw [exec_bind_ok (exec_statement_some hclaim), Bool.not_true, if_neg Bool.false_ne_true, exec_tryCatch,
    exec_bind_error hfail]
  exact ⟨.sql, _, exec_bind_error exec_statement_aborted⟩

end

/-! ## A whole poll -/

/-- The revision is stored, as this document. -/
def IntakeDb.StoredAs (db : IntakeDb) (key : IntakeKey) (document : DocumentKey) : Prop :=
  ∃ row, db.intake.find? key = some row ∧ row.status = .stored ∧ row.sourceDocumentId = some document ∧
    (db.documents.find? document).isSome

def IntakeDb.Quarantined (db : IntakeDb) (key : IntakeKey) (code : String) : Prop :=
  ∃ row, db.intake.find? key = some row ∧ row.status = .quarantined ∧ row.failureCode = some code

section

variable (sha256 : String → String) (put : List UInt8 → StoredObject) (accountOf : String → String)
  (connectionId : String)

/-- What files leave behind: revisions that were stored stay; of the others, those that a file comes
through for are stored as its document, and those that all files fail for are quarantined. -/
structure Settles (db db' : IntakeDb) (files : List RemoteFile) : Prop where
  kept : ∀ key row, db.intake.find? key = some row → row.status = .stored → db'.intake.find? key = some row
  stored : ∀ file ∈ files, ¬ db.Stored (intakeKey sha256 connectionId file.entry) → file.failureCode? = none →
    ∃ g ∈ files, intakeKey sha256 connectionId g.entry = intakeKey sha256 connectionId file.entry ∧
      g.failureCode? = none ∧
      db'.StoredAs (intakeKey sha256 connectionId file.entry) (documentOf put accountOf connectionId g)
  quarantined : ∀ file ∈ files, ¬ db.Stored (intakeKey sha256 connectionId file.entry) →
    (∀ g ∈ files, intakeKey sha256 connectionId g.entry = intakeKey sha256 connectionId file.entry →
      g.failureCode? ≠ none) →
    ∃ g ∈ files, intakeKey sha256 connectionId g.entry = intakeKey sha256 connectionId file.entry ∧
      ∃ code, g.failureCode? = some code ∧ db'.Quarantined (intakeKey sha256 connectionId file.entry) code

/-- What else a part of a poll does. -/
structure Frame (db db' : IntakeDb) (files : List RemoteFile) : Prop where
  other : ∀ key, (∀ file ∈ files, intakeKey sha256 connectionId file.entry ≠ key) →
    db'.intake.find? key = db.intake.find? key
  documents : ∀ d, (db.documents.find? d).isSome → (db'.documents.find? d).isSome
  storedOnly : ∀ key, db'.Stored key → db.Stored key ∨
    ∃ g ∈ files, intakeKey sha256 connectionId g.entry = key ∧ g.failureCode? = none

/-- No statement fails for a file whose revision is neither stored nor has been by a file before it. -/
def Unbroken : (IntakeKey → Prop) → List RemoteFile → Prop
  | _, [] => True
  | stored, file :: rest =>
    (file.breaks → stored (intakeKey sha256 connectionId file.entry)) ∧
      Unbroken (fun key => stored key ∨ key = intakeKey sha256 connectionId file.entry ∧ file.failureCode? = none) rest

instance instDecidableUnbroken : ∀ (stored : IntakeKey → Prop) [DecidablePred stored] (files : List RemoteFile),
    Decidable (Unbroken sha256 connectionId stored files)
  | _, _, [] => .isTrue trivial
  | stored, _, file :: rest =>
    have := instDecidableUnbroken
      (fun key => stored key ∨ key = intakeKey sha256 connectionId file.entry ∧ file.failureCode? = none) rest
    inferInstanceAs (Decidable (_ ∧ _))

variable {sha256 put accountOf connectionId} {db db₁ db' : IntakeDb} {file : RemoteFile} {rest : List RemoteFile}

theorem Settles.cons (h : Settles sha256 put accountOf connectionId db db₁ [file])
    (hframe : Frame sha256 connectionId db db₁ [file]) (h' : Settles sha256 put accountOf connectionId db₁ db' rest)
    (hframe' : Frame sha256 connectionId db₁ db' rest) :
    Settles sha256 put accountOf connectionId db db' (file :: rest) where
  kept := fun key row hfind hstatus => h'.kept key row (h.kept key row hfind hstatus) hstatus
  stored := by
    intro f hf hnot hok
    by_cases hmid : db₁.Stored (intakeKey sha256 connectionId f.entry)
    · -- the first file has stored it
      obtain ⟨g, hg, hkey, hgok⟩ := (hframe.storedOnly _ hmid).resolve_left hnot
      obtain rfl := List.mem_singleton.mp hg
      obtain ⟨g', hg', -, -, row, hfind, hstatus, hdoc, hfound⟩ := h.stored g hg (hkey ▸ hnot) hgok
      obtain rfl := List.mem_singleton.mp hg'
      rw [hkey] at hfind
      exact ⟨g', List.mem_cons_self, hkey, hgok, row, h'.kept _ row hfind hstatus, hstatus, hdoc,
        hframe'.documents _ hfound⟩
    · rcases List.mem_cons.mp hf with rfl | hf
      · obtain ⟨g, -, -, -, row, hfind, hstatus, -⟩ := h.stored f (List.mem_singleton_self f) hnot hok
        exact absurd (IntakeDb.stored_iff.mpr ⟨row, hfind, hstatus⟩) hmid
      · obtain ⟨g, hg, hrest⟩ := h'.stored f hf hmid hok
        exact ⟨g, List.mem_cons_of_mem _ hg, hrest⟩
  quarantined := by
    intro f hf hnot hfail
    have hmid : ¬ db₁.Stored (intakeKey sha256 connectionId f.entry) := by
      intro hstored
      obtain ⟨g, hg, hkey, hgok⟩ := (hframe.storedOnly _ hstored).resolve_left hnot
      obtain rfl := List.mem_singleton.mp hg
      exact hfail g List.mem_cons_self hkey hgok
    by_cases hlater : ∃ g ∈ rest, intakeKey sha256 connectionId g.entry = intakeKey sha256 connectionId f.entry
    · obtain ⟨g, hg, hkey⟩ := hlater
      obtain ⟨g', hg', hkey', code, hcode, hrow⟩ := h'.quarantined g hg (hkey ▸ hmid)
        fun g' hg' hkey' => hfail g' (List.mem_cons_of_mem _ hg') (hkey'.trans hkey)
      exact ⟨g', List.mem_cons_of_mem _ hg', hkey'.trans hkey, code, hcode, hkey ▸ hrow⟩
    · -- no later file touches the row
      have hother := hframe'.other _ fun g hg hkey => hlater ⟨g, hg, hkey⟩
      rcases List.mem_cons.mp hf with rfl | hf
      · obtain ⟨g, hg, hkey, code, hcode, row, hfind, hrow⟩ := h.quarantined f (List.mem_singleton_self f) hnot
          fun g hg => hfail g (List.mem_singleton.mp hg ▸ List.mem_cons_self)
        exact ⟨g, List.mem_singleton.mp hg ▸ List.mem_cons_self, hkey, code, hcode, row, hother.trans hfind, hrow⟩
      · exact absurd ⟨f, hf, rfl⟩ hlater

theorem Frame.cons (h : Frame sha256 connectionId db db₁ [file]) (h' : Frame sha256 connectionId db₁ db' rest) :
    Frame sha256 connectionId db db' (file :: rest) where
  other := by
    intro key hkey
    rw [h'.other key fun f hf => hkey f (List.mem_cons_of_mem _ hf)]
    exact h.other key fun f hf => hkey f (List.mem_singleton.mp hf ▸ List.mem_cons_self)
  documents := fun d hd => h'.documents d (h.documents d hd)
  storedOnly := by
    intro key hstored
    rcases h'.storedOnly key hstored with hmid | ⟨g, hg, hrest⟩
    · rcases h.storedOnly key hmid with hold | ⟨g, hg, hrest⟩
      · exact .inl hold
      · exact .inr ⟨g, List.mem_singleton.mp hg ▸ List.mem_cons_self, hrest⟩
    · exact .inr ⟨g, List.mem_cons_of_mem _ hg, hrest⟩

/-- A revision that is stored is passed over. -/
theorem settles_stored (h : db.Stored (intakeKey sha256 connectionId file.entry)) :
    Settles sha256 put accountOf connectionId db db [file] ∧ Frame sha256 connectionId db db [file] := by
  refine ⟨⟨fun _ _ hfind _ => hfind, fun f hf hnot => ?_, fun f hf hnot => ?_⟩,
    ⟨fun _ _ => rfl, fun _ hd => hd, fun _ hs => .inl hs⟩⟩
  · exact absurd (List.mem_singleton.mp hf ▸ h) hnot
  · exact absurd (List.mem_singleton.mp hf ▸ h) hnot

variable {row : IntakeRow}

/-- The rest of the rows, whatever the file's turn has set. -/
theorem Turn.frame (h : Turn db db₁ (intakeKey sha256 connectionId file.entry) row)
    (hrow : row.status = .stored → file.failureCode? = none) : Frame sha256 connectionId db db₁ [file] where
  other := fun key hkey => h.other (Ne.symm (hkey file (List.mem_singleton_self file)))
  documents := h.documents
  storedOnly := by
    intro key hstored
    by_cases hkey : key = intakeKey sha256 connectionId file.entry
    · subst hkey
      obtain ⟨r, hfind, hstatus⟩ := IntakeDb.stored_iff.mp hstored
      obtain rfl := Option.some.inj (h.self.symm.trans hfind)
      exact .inr ⟨file, List.mem_singleton_self file, rfl, hrow hstatus⟩
    · exact .inl ((h.stored_other hkey).mp hstored)

theorem Turn.kept (h : Turn db db₁ (intakeKey sha256 connectionId file.entry) row)
    (hnot : ¬ db.Stored (intakeKey sha256 connectionId file.entry)) :
    ∀ key r, db.intake.find? key = some r → r.status = .stored → db₁.intake.find? key = some r := by
  intro key r hfind hstatus
  by_cases hkey : key = intakeKey sha256 connectionId file.entry
  · exact absurd (hkey ▸ IntakeDb.stored_iff.mpr ⟨r, hfind, hstatus⟩) hnot
  · rw [h.other hkey]
    exact hfind

theorem Turn.settles_stores (h : Turn db db₁ (intakeKey sha256 connectionId file.entry) row)
    (hnot : ¬ db.Stored (intakeKey sha256 connectionId file.entry)) (hok : file.failureCode? = none)
    (hstatus : row.status = .stored) (hdoc : row.sourceDocumentId = some (documentOf put accountOf connectionId file))
    (hfound : (db₁.documents.find? (documentOf put accountOf connectionId file)).isSome) :
    Settles sha256 put accountOf connectionId db db₁ [file] := by
  refine ⟨h.kept hnot, fun f hf _ _ => ?_, fun f hf _ hfail => ?_⟩
  · obtain rfl := List.mem_singleton.mp hf
    exact ⟨f, hf, rfl, hok, row, h.self, hstatus, hdoc, hfound⟩
  · obtain rfl := List.mem_singleton.mp hf
    exact absurd hok (hfail f hf rfl)

theorem Turn.settles_quarantines (h : Turn db db₁ (intakeKey sha256 connectionId file.entry) row)
    (hnot : ¬ db.Stored (intakeKey sha256 connectionId file.entry)) {code : String}
    (hcode : file.failureCode? = some code) (hstatus : row.status = .quarantined) (hrow : row.failureCode = some code) :
    Settles sha256 put accountOf connectionId db db₁ [file] := by
  refine ⟨h.kept hnot, fun f hf _ hok => ?_, fun f hf _ _ => ?_⟩
  · obtain rfl := List.mem_singleton.mp hf
    cases hcode.symm.trans hok
  · obtain rfl := List.mem_singleton.mp hf
    exact ⟨f, hf, rfl, code, hcode, row, h.self, hstatus, hrow⟩

/-- A turn that leaves the row decided keeps the invariant. -/
theorem Turn.inv (h : Turn db db₁ (intakeKey sha256 connectionId file.entry) row) (hdb : IntakeInv accountOf db)
    (hacc : row.accountId = accountOf connectionId) (hstatus : row.status = .stored ∨ row.status = .quarantined)
    (hdoc : row.status = .stored → ∃ d, row.sourceDocumentId = some d ∧ (db₁.documents.find? d).isSome)
    (hnodup : db₁.storings.Nodup) (hstored : ∀ key, key ∈ db₁.storings ↔ db₁.Stored key) : IntakeInv accountOf db₁ where
  status := by
    intro key r hfind
    rw [h.rows] at hfind
    split at hfind
    · exact Option.some.inj hfind ▸ hstatus
    · exact hdb.status key r hfind
  account := by
    intro key r hfind
    rw [h.rows] at hfind
    split at hfind
    · rename_i hkey
      rw [← Option.some.inj hfind, hacc, hkey]
      rfl
    · exact hdb.account key r hfind
  document := by
    intro key r hfind hr
    rw [h.rows] at hfind
    split at hfind
    · obtain rfl := Option.some.inj hfind
      exact hdoc hr
    · obtain ⟨d, hd, hfound⟩ := hdb.document key r hfind hr
      exact ⟨d, hd, h.documents d hfound⟩
  nodup := hnodup
  stored := hstored

/-- How many files have had their turn. -/
def SftpPollResult.total (result : SftpPollResult) : ℕ := result.stored + result.duplicates + result.quarantined

variable (put)

/-- One file's turn, where no statement fails. -/
theorem pollEntry_turn (unicode : Unicode) (result : SftpPollResult) (hdb : IntakeInv accountOf db)
    (hb : file.breaks → db.Stored (intakeKey sha256 connectionId file.entry)) :
    ∃ db₁ result', exec (pollEntry sha256 unicode put ⟨connectionId, accountOf connectionId⟩ result file) ⟨db, false⟩ =
        (.ok result', ⟨db₁, false⟩) ∧
      result'.discovered = result.discovered ∧ result'.total = result.total + 1 ∧ IntakeInv accountOf db₁ ∧
      Settles sha256 put accountOf connectionId db db₁ [file] ∧ Frame sha256 connectionId db db₁ [file] ∧
      ∀ key, db₁.Stored key ↔
        db.Stored key ∨ key = intakeKey sha256 connectionId file.entry ∧ file.failureCode? = none := by
  by_cases hstored : db.Stored (intakeKey sha256 connectionId file.entry)
  · obtain ⟨hsettles, hframe⟩ : Settles sha256 put accountOf connectionId db db [file] ∧
      Frame sha256 connectionId db db [file] := settles_stored hstored
    refine ⟨db, _, pollEntry_stored unicode put result hstored, rfl, ?_, hdb, hsettles, hframe, fun key => ?_⟩
    · simp only [SftpPollResult.total]
      omega
    · exact ⟨.inl, fun h => h.elim id fun h => h.1 ▸ hstored⟩
  have hfresh : intakeKey sha256 connectionId file.entry ∉ db.storings := mt (hdb.stored _).mp hstored
  cases hcode : file.failureCode? with
  | none =>
    obtain ⟨db₁, row, hexec, hturn, hstatus, hacc, hdoc, hfound, hstorings⟩ :=
      pollEntry_stores unicode put result hdb hstored hcode
    have hnow : ∀ key, db₁.Stored key ↔ db.Stored key ∨ key = intakeKey sha256 connectionId file.entry := by
      intro key
      by_cases hkey : key = intakeKey sha256 connectionId file.entry
      · exact iff_of_true (IntakeDb.stored_iff.mpr ⟨row, hkey ▸ hturn.self, hstatus⟩) (.inr hkey)
      · rw [hturn.stored_other hkey]
        exact ⟨.inl, fun h => h.resolve_right hkey⟩
    refine ⟨db₁, _, hexec, rfl, ?_, hturn.inv hdb hacc (.inl hstatus) (fun _ => ⟨_, hdoc, hfound⟩) ?_ fun key => ?_,
      hturn.settles_stores hstored hcode hstatus hdoc hfound, hturn.frame fun _ => hcode, fun key => ?_⟩
    · simp only [SftpPollResult.total]
      omega
    · rw [hstorings, List.nodup_append_comm]
      exact List.nodup_cons.mpr ⟨hfresh, hdb.nodup⟩
    · rw [hstorings, List.mem_append, List.mem_singleton, hdb.stored, hnow]
    · rw [hnow]
      simp
  | some code =>
    obtain ⟨db₁, row, hexec, hturn, hstatus, hacc, hrow, hstorings⟩ :=
      pollEntry_quarantines unicode put result hdb hstored hcode (mt hb hstored)
    have hnow : ∀ key, db₁.Stored key ↔ db.Stored key := by
      intro key
      by_cases hkey : key = intakeKey sha256 connectionId file.entry
      · refine iff_of_false (fun h => ?_) (hkey ▸ hstored)
        obtain ⟨r, hfind, hr⟩ := IntakeDb.stored_iff.mp h
        obtain rfl := Option.some.inj ((hkey ▸ hturn.self).symm.trans hfind)
        cases hstatus.symm.trans hr
      · exact hturn.stored_other hkey
    refine ⟨db₁, _, hexec, rfl, ?_, hturn.inv hdb hacc (.inr hstatus)
      (fun h => by cases hstatus.symm.trans h) (hstorings ▸ hdb.nodup) fun key => ?_,
      hturn.settles_quarantines hstored hcode hstatus hrow, hturn.frame fun h => (by cases hstatus.symm.trans h),
      fun key => ?_⟩
    · simp only [SftpPollResult.total]
      omega
    · rw [hstorings, hdb.stored, hnow]
    · rw [hnow]
      simp

theorem unbroken_congr {P Q : IntakeKey → Prop} (h : ∀ key, P key ↔ Q key) (files : List RemoteFile) :
    Unbroken sha256 connectionId P files ↔ Unbroken sha256 connectionId Q files := by
  rw [funext fun key => propext (h key)]

/-- The loop goes through all files exactly if no statement fails. -/
theorem pollEntries_exec (sha256 : String → String) (unicode : Unicode) (connectionId : String) (files : List RemoteFile) :
    ∀ {db : IntakeDb} (result : SftpPollResult), IntakeInv accountOf db →
      (Unbroken sha256 connectionId db.Stored files →
        ∃ db' result', exec
            (files.foldlM (pollEntry sha256 unicode put ⟨connectionId, accountOf connectionId⟩) result) ⟨db, false⟩ =
            (.ok result', ⟨db', false⟩) ∧
          result'.discovered = result.discovered ∧ result'.total = result.total + files.length ∧
          IntakeInv accountOf db' ∧ Settles sha256 put accountOf connectionId db db' files ∧
          Frame sha256 connectionId db db' files) ∧
      (¬ Unbroken sha256 connectionId db.Stored files →
        ∃ e s, exec
            (files.foldlM (pollEntry sha256 unicode put ⟨connectionId, accountOf connectionId⟩) result) ⟨db, false⟩ =
            (.error e, s)) := by
  induction files with
  | nil =>
    intro db result hdb
    refine ⟨fun _ => ⟨db, result, rfl, rfl, rfl, hdb, ⟨fun _ _ h _ => h, fun _ h => (by cases h), fun _ h => (by cases h)⟩,
      ⟨fun _ _ => rfl, fun _ h => h, fun _ h => .inl h⟩⟩, fun h => absurd trivial h⟩
  | cons file rest ih =>
    intro db result hdb
    rw [List.foldlM_cons]
    by_cases hb : file.breaks → db.Stored (intakeKey sha256 connectionId file.entry)
    · obtain ⟨db₁, result₁, hexec, hdiscovered, htotal, hinv, hsettles, hframe, hnow⟩ :=
        pollEntry_turn put unicode result hdb hb
      obtain ⟨hgoes, hstops⟩ := ih result₁ hinv
      have hrest : Unbroken sha256 connectionId db.Stored (file :: rest) ↔
          Unbroken sha256 connectionId db₁.Stored rest := by
        rw [Unbroken, unbroken_congr hnow]
        exact and_iff_right hb
      rw [exec_bind_ok hexec, hrest]
      refine ⟨fun h => ?_, hstops⟩
      obtain ⟨db', result', hexec', hdiscovered', htotal', hinv', hsettles', hframe'⟩ := hgoes h
      refine ⟨db', result', hexec', hdiscovered'.trans hdiscovered, ?_, hinv',
        hsettles.cons hframe hsettles' hframe', hframe.cons hframe'⟩
      rw [htotal', htotal, List.length_cons, Nat.add_assoc, Nat.add_comm 1]
    · refine ⟨fun h => absurd h.1 hb, fun _ => ?_⟩
      rw [Classical.not_imp] at hb
      obtain ⟨e, s, hexec⟩ := pollEntry_breaks unicode put result hdb hb.2 hb.1
      exact ⟨e, s, exec_bind_error hexec⟩

end

/-! ## Sequences of polls -/

section

variable (sha256 : String → String) (unicode : Unicode) (put : List UInt8 → StoredObject)
  (accountOf : String → String)

/-- The poll returns, having counted every entry once, and leaves each as it should. -/
def Isolated (db : IntakeDb) (poll : Poll) : Prop :=
  ∃ result, (poll.run sha256 unicode put accountOf db).1 = .ok result ∧
    result.discovered = poll.entries.length ∧
    result.discovered = result.stored + result.duplicates + result.quarantined ∧
    Settles sha256 put accountOf poll.connectionId db (poll.run sha256 unicode put accountOf db).2 poll.entries

/-- Every revision was stored once at most, and is stored still. -/
structure StoredOnce (db : IntakeDb) : Prop where
  nodup : db.storings.Nodup
  stored : ∀ key ∈ db.storings, db.Stored key

/-- No statement fails for an entry whose revision is neither stored nor has been by one before it. -/
def NoStatementFails (db : IntakeDb) (poll : Poll) : Prop :=
  Unbroken sha256 poll.connectionId db.Stored (poll.entries.insertionSort (byPath unicode))

variable {sha256 unicode put accountOf} {db : IntakeDb} {poll : Poll}

theorem settles_perm {connectionId : String} {db' : IntakeDb} {files files' : List RemoteFile}
    (hperm : ∀ f, f ∈ files ↔ f ∈ files') (h : Settles sha256 put accountOf connectionId db db' files) :
    Settles sha256 put accountOf connectionId db db' files' where
  kept := h.kept
  stored := by simpa only [hperm] using h.stored
  quarantined := by simpa only [hperm] using h.quarantined

theorem isolated_poll (hdb : IntakeInv accountOf db) :
    (Isolated sha256 unicode put accountOf db poll ↔ NoStatementFails sha256 unicode db poll) ∧
      IntakeInv accountOf (poll.run sha256 unicode put accountOf db).2 := by
  obtain ⟨hgoes, hstops⟩ := pollEntries_exec put sha256 unicode poll.connectionId
    (poll.entries.insertionSort (byPath unicode)) ⟨poll.entries.length, 0, 0, 0⟩ hdb
  by_cases h : NoStatementFails sha256 unicode db poll
  · obtain ⟨db', result, hexec, hdiscovered, htotal, hinv, hsettles, -⟩ := hgoes h
    have hrun : poll.run sha256 unicode put accountOf db = (.ok result, db') := by
      rw [Poll.run, transact, pollSftpIntake, hexec]
      rfl
    rw [Isolated, hrun]
    refine ⟨iff_of_true ⟨result, rfl, hdiscovered, ?_, ?_⟩ h, hinv⟩
    · rw [hdiscovered]
      simpa [SftpPollResult.total] using htotal.symm
    · exact settles_perm (fun f => List.mem_insertionSort (byPath unicode)) hsettles
  · obtain ⟨e, s, hexec⟩ := hstops h
    have hrun : poll.run sha256 unicode put accountOf db = (.error e, db) := by
      rw [Poll.run, transact, pollSftpIntake, hexec]
    rw [Isolated, hrun]
    refine ⟨iff_of_false ?_ h, hdb⟩
    rintro ⟨result, hok, -⟩
    cases hok

theorem IntakeInv.storedOnce (h : IntakeInv accountOf db) : StoredOnce db :=
  ⟨h.nodup, fun key hkey => (h.stored key).mp hkey⟩

theorem intakeInv_initial (documents : KeyedTable SourceDocument SourceDocument.key) :
    IntakeInv accountOf (IntakeDb.initial documents) where
  status := fun _ _ h => by cases h
  account := fun _ _ h => by cases h
  document := fun _ _ h => by cases h
  nodup := List.nodup_nil
  stored := fun _ => iff_of_false List.not_mem_nil fun h => by
    obtain ⟨r, hfind, -⟩ := IntakeDb.stored_iff.mp h
    cases hfind

variable (sha256 unicode put accountOf)

/-- Along a sequence of polls every revision is stored once at most and stays; and every poll isolates its
entries exactly if, for none that is not stored yet, a statement fails. -/
theorem isolated_iff (documents : KeyedTable SourceDocument SourceDocument.key) (polls : List Poll) :
    Runs.AllStates (pollStep sha256 unicode put accountOf) StoredOnce (IntakeDb.initial documents) polls ∧
        Runs.AllSteps (pollStep sha256 unicode put accountOf) (Isolated sha256 unicode put accountOf)
          (IntakeDb.initial documents) polls ↔
      Runs.AllSteps (pollStep sha256 unicode put accountOf) (NoStatementFails sha256 unicode)
        (IntakeDb.initial documents) polls := by
  have hinit : IntakeInv accountOf (IntakeDb.initial documents) := intakeInv_initial documents
  refine Runs.allStates_and_allSteps_iff (IntakeInv accountOf) (fun db poll db' hdb hs => ?_)
    (fun db poll db' hdb _ hs => ?_) polls _ hinit hinit.storedOnce
  · obtain rfl := Option.some.inj hs
    exact (isolated_poll hdb).2
  · obtain rfl := Option.some.inj hs
    rw [and_iff_right (isolated_poll hdb).2.storedOnce]
    exact (isolated_poll hdb).1

end

/-- A file of two bytes; if it is `broken`, its row cannot be marked stored. -/
def invoiceFile (path : String) (broken : Bool) : RemoteFile :=
  ⟨⟨path, 2, "2026-01-01", none⟩, [73, 83], if broken then some .updateStored else none⟩

/-- One statement fails for the second file: the poll throws, and the first file is not stored either. -/
theorem brokenFile_harms :
    ¬ Runs.AllSteps (pollStep id .ascii (fun _ => ⟨"sha", "s3://sha"⟩) id)
        (Isolated id .ascii (fun _ => ⟨"sha", "s3://sha"⟩) id) (IntakeDb.initial .empty)
        [⟨"carrier", [invoiceFile "a.edi" false, invoiceFile "b.edi" true]⟩] ∧
      ¬ (Poll.run id .ascii (fun _ => ⟨"sha", "s3://sha"⟩) id
          ⟨"carrier", [invoiceFile "a.edi" false, invoiceFile "b.edi" true]⟩ (.initial .empty)).2.Stored
        (intakeKey id "carrier" (invoiceFile "a.edi" false).entry) := by
  constructor
  · intro h
    have hisolated := (h _ rfl).1
    have hfails : ¬ NoStatementFails id .ascii (IntakeDb.initial .empty)
        ⟨"carrier", [invoiceFile "a.edi" false, invoiceFile "b.edi" true]⟩ := by
      unfold NoStatementFails
      decide +kernel
    exact hfails ((isolated_poll (intakeInv_initial .empty)).1.mp hisolated)
  · decide +kernel

end SftpIntake
