import FreightAuditor.Evaluator.StoredRun

/- The charge a stored rate variance is attributed to.

   The linehaul charges are picked twice: by `buildFactBundle`, which sums those with a stated amount, and by
   `persistAuditRun`, which takes any that is not quarantined. On a scored invoice every amount is stated, so
   both pick the same (`chargeFactsOf_eq`), and a rate variance names the charge that the billed linehaul is
   made of, if it is one (`rateVariance_attributed`). -/
namespace Evaluator

open DecimalJs ExceptOk Ingestion JsText PgNumeric RuleEngine RubricResolver

/-! ## The charges that contribute -/

/-- The billed linehaul takes such charges. -/
def isLinehaul (c : NormalizedCharge) : Bool := c.category == some "LINEHAUL" && !c.quarantined && c.amount.isSome

/-- The linehaul charges with their places. -/
def placedLinehaul (inv : ParsedInvoice) : List (NormalizedCharge × ℕ) :=
  inv.charges.zipIdx.filter fun c => isLinehaul c.1

/-- There is a billed linehaul, and the charge at this place is one it sums up. -/
structure Contributes (inv : ParsedInvoice) (contract : Option ContractFacts) (i : ℕ) : Prop where
  compared : (contract.bind ContractFacts.linehaulRate).isSome
  summed : (billedCurrency inv).isSome
  charge : ∃ c, inv.charges[i]? = some c ∧ isLinehaul c = true

theorem mem_placedLinehaul {inv : ParsedInvoice} {c : NormalizedCharge} {i : ℕ} :
    (c, i) ∈ placedLinehaul inv ↔ inv.charges[i]? = some c ∧ isLinehaul c = true := by
  rw [placedLinehaul, List.mem_filter, List.mk_mem_zipIdx_iff_getElem?]

theorem linehaulCharges_eq (inv : ParsedInvoice) : linehaulCharges inv = (placedLinehaul inv).map Prod.fst := by
  show inv.charges.filter isLinehaul = _
  conv_lhs => rw [← List.zipIdx_map_fst 0 inv.charges, List.filter_map]
  rfl

theorem placedLinehaul_nodup (inv : ParsedInvoice) : ((placedLinehaul inv).map Prod.snd).Nodup := by
  have hall : (inv.charges.zipIdx.map Prod.snd).Nodup := by
    rw [List.zipIdx_map_snd]
    exact List.nodup_range'
  exact hall.sublist (List.filter_sublist.map _)

/-- Where every amount is stated, `persistAuditRun` picks the charges that the billed linehaul sums up. -/
theorem chargeFactsOf_eq {inv : ParsedInvoice} (hamounts : ∀ c ∈ inv.charges, c.amount.isSome) :
    chargeFactsOf inv "LINEHAUL" = (placedLinehaul inv).map Prod.snd := by
  rw [chargeFactsOf, placedLinehaul, ← List.filterMap_eq_map, List.filterMap_filter]
  refine List.filterMap_congr fun c hc => ?_
  have hamount : c.1.amount.isSome := hamounts c.1 (List.fst_mem_of_mem_zipIdx hc)
  by_cases hcategory : c.1.category = some "LINEHAUL" <;> simp [isLinehaul, hamount, hcategory]

theorem contributes_iff {inv : ParsedInvoice} {contract : Option ContractFacts} {i : ℕ} :
    Contributes inv contract i ↔ (contract.bind ContractFacts.linehaulRate).isSome ∧ (billedCurrency inv).isSome ∧
      i ∈ (placedLinehaul inv).map Prod.snd := by
  constructor
  · rintro ⟨hrate, hsum, c, hc, hlinehaul⟩
    exact ⟨hrate, hsum, List.mem_map.mpr ⟨(c, i), mem_placedLinehaul.mpr ⟨hc, hlinehaul⟩, rfl⟩⟩
  · rintro ⟨hrate, hsum, hi⟩
    obtain ⟨⟨c, j⟩, hmem, rfl⟩ := List.mem_map.mp hi
    obtain ⟨hc, hlinehaul⟩ := mem_placedLinehaul.mp hmem
    exact ⟨hrate, hsum, c, hc, hlinehaul⟩

theorem eq_singleton_of_nodup {α : Type} {l : List α} (hnodup : l.Nodup) {a : α} (ha : a ∈ l) (h : ∀ b ∈ l, b = a) :
    l = [a] := by
  cases l with
  | nil => cases ha
  | cons b rest =>
    obtain rfl := h b List.mem_cons_self
    cases rest with
    | nil => rfl
    | cons b' rest =>
      obtain rfl := h b' (List.mem_cons_of_mem _ List.mem_cons_self)
      exact absurd List.mem_cons_self (List.nodup_cons.mp hnodup).1

/-- Exactly one charge contributes if there is one linehaul charge. -/
theorem onlyContributor_iff {inv : ParsedInvoice} {contract : Option ContractFacts}
    (hrate : (contract.bind ContractFacts.linehaulRate).isSome) {i : ℕ} :
    (Contributes inv contract i ∧ ∀ j, Contributes inv contract j → j = i) ↔ (placedLinehaul inv).map Prod.snd = [i] := by
  constructor
  · rintro ⟨hi, honly⟩
    obtain ⟨-, hsum, hmem⟩ := contributes_iff.mp hi
    exact eq_singleton_of_nodup (placedLinehaul_nodup inv) hmem fun j hj => honly j (contributes_iff.mpr ⟨hrate, hsum, hj⟩)
  · intro hone
    obtain ⟨⟨c, j⟩, hplaced, rfl⟩ := List.map_eq_singleton_iff.mp hone
    -- a single charge shares its currency with itself
    have hsum : billedCurrency inv = some c.currency := by
      rw [billedCurrency, linehaulCharges_eq, hplaced]
      simp
    simp only [contributes_iff, hone, List.mem_singleton, hrate, hsum, Option.isSome_some, true_and]
    exact fun _ h => h

theorem attributedCharge_eq_some {inv : ParsedInvoice} (hamounts : ∀ c ∈ inv.charges, c.amount.isSome) {f : ChargeFinding}
    (hkey : f.criterionKey = "CONTRACT.RATE_VARIANCE") {i : ℕ} :
    attributedCharge inv f = some i ↔ (placedLinehaul inv).map Prod.snd = [i] := by
  rw [attributedCharge, if_pos hkey, chargeFactsOf_eq hamounts]
  split
  · rename_i only hone
    rw [hone, Option.some.injEq, List.cons.injEq, and_iff_left rfl]
  · rename_i hnone
    exact iff_of_false (fun h => by cases h) fun h => hnone i h

/-! ## The stored attribution -/

section

variable {D : Type} [Decimal D] {input : NumericInput 18 4} {unicode : Unicode} {sha256 : String → String}
  {inv : ParsedInvoice} {contract : Option ContractFacts} {result : AuditResult} {stored : StoredRun input}

theorem textColumn_ne_invariant {name text : String} {code : Option String} : textColumn name text ≠ .error (.invariant code) := by
  unfold textColumn
  split <;> exact fun h => by cases h

theorem charColumn_ne_invariant {name text : String} {code : Option String} : charColumn name text ≠ .error (.invariant code) := by
  unfold charColumn
  split
  · split <;> exact fun h => by cases h
  · exact fun h => by cases h

theorem numericColumn_ne_invariant {name text : String} {code : Option String} :
    numericColumn input name text ≠ .error (.invariant code) := by
  unfold numericColumn
  split <;> exact fun h => by cases h

theorem nullable_ne_error {α : Type} {column : String → Except StoreError α} {e : StoreError} (h : ∀ text, column text ≠ .error e)
    (value : Option String) : nullable column value ≠ .error e := by
  cases value with
  | none => exact fun h => by cases h
  | some text => exact map_ne_error (h text)

/-- A charge with an amount does not trip the invariant. -/
theorem chargeFactRow_ne_invariant {c : NormalizedCharge} (hamount : c.amount.isSome) {code : Option String} :
    chargeFactRow input c ≠ .error (.invariant code) := by
  obtain ⟨amount, hamount⟩ := Option.isSome_iff_exists.mp hamount
  have htext (name : String) (value : Option String) : nullable (textColumn name) value ≠ .error (.invariant code) :=
    nullable_ne_error (fun _ => textColumn_ne_invariant) value
  have hnumeric (name : String) (value : Option String) : nullable (numericColumn input name) value ≠ .error (.invariant code) :=
    nullable_ne_error (fun _ => numericColumn_ne_invariant) value
  simp only [chargeFactRow, hamount]
  refine bind_ne_error (htext _ _) fun _ _ => bind_ne_error (htext _ _) fun _ _ => bind_ne_error (htext _ _) fun _ _ => ?_
  refine bind_ne_error numericColumn_ne_invariant fun _ _ => bind_ne_error charColumn_ne_invariant fun _ _ => ?_
  refine bind_ne_error (hnumeric _ _) fun _ _ => bind_ne_error (hnumeric _ _) fun _ _ => ?_
  exact bind_ne_error (htext _ _) fun _ _ => bind_ne_error (htext _ _) fun _ _ h => by cases h

theorem varianceFindingRow_ne_invariant {f : ChargeFinding} {code : Option String} :
    varianceFindingRow D input inv f ≠ .error (.invariant code) := by
  have hmateriality (amount : String) : materiality D input amount ≠ .error (.invariant code) := by
    refine bind_ne_error (fun h => ?_) fun _ _ => numericColumn_ne_invariant
    cases hread : newDecimal D amount with
    | ok d => rw [hread] at h; cases h
    | error e => rw [hread] at h; cases h
  refine bind_ne_error (nullable_ne_error hmateriality _) fun _ _ => ?_
  refine bind_ne_error (nullable_ne_error (fun _ => numericColumn_ne_invariant) _) fun _ _ => ?_
  exact bind_ne_error (nullable_ne_error (fun _ => charColumn_ne_invariant) _) fun _ _ h => by cases h

/-- Where every amount is stated, no run trips the invariant. -/
theorem persistAuditRun_ne_invariant (hamounts : ∀ c ∈ inv.charges, c.amount.isSome) (code : Option String) :
    persistAuditRun D input inv result ≠ .error (.invariant code) := by
  have hinvoice : invoiceRow inv ≠ .error (.invariant code) := by
    refine bind_ne_error (nullable_ne_error (fun _ => textColumn_ne_invariant) _) fun _ _ => ?_
    refine bind_ne_error (nullable_ne_error (fun _ => charColumn_ne_invariant) _) fun _ _ => ?_
    exact bind_ne_error textColumn_ne_invariant fun _ _ h => by cases h
  have hcharges : chargeFactRows input inv result.outcome ≠ .error (.invariant code) := by
    unfold chargeFactRows
    split
    · exact mapM_ne_error fun c hc => chargeFactRow_ne_invariant (hamounts c hc)
    · exact fun h => by cases h
  have hscorecard : scorecardRows input inv result.scorecard ≠ .error (.invariant code) := by
    cases result.scorecard with
    | none => exact fun h => by cases h
    | some sc =>
      refine map_ne_error (bind_ne_error numericColumn_ne_invariant fun _ _ => ?_)
      refine bind_ne_error numericColumn_ne_invariant fun _ _ => ?_
      exact bind_ne_error (nullable_ne_error (fun _ => charColumn_ne_invariant) _) fun _ _ h => by cases h
  have hmanifest : jsonbColumn "audit_replay_manifest.manifest" (invoiceTexts inv) ≠ .error (.invariant code) := by
    unfold jsonbColumn
    split <;> exact fun h => by cases h
  refine bind_ne_error hinvoice fun _ _ => bind_ne_error hcharges fun _ _ => ?_
  refine bind_ne_error (mapM_ne_error fun _ _ => varianceFindingRow_ne_invariant) fun _ _ => ?_
  exact bind_ne_error hscorecard fun _ _ => bind_ne_error hmanifest fun _ _ h => by cases h

/-- The row that a stored charge has. -/
theorem getElem?_of_mapM {ε α β : Type} {f : α → Except ε β} {l : List α} {out : List β} (h : l.mapM f = .ok out) {i : ℕ} {a : α}
    (ha : l[i]? = some a) : ∃ b, out[i]? = some b ∧ f a = .ok b := by
  have hmade := mapM_forall₂ h
  clear h
  induction hmade generalizing i with
  | nil => cases ha
  | cons hab _ ih =>
    cases i with
    | zero =>
      obtain rfl := Option.some.inj ha
      exact ⟨_, rfl, hab⟩
    | succ i => exact ih ha

/-- The finding names a charge exactly if one contributed to the billed linehaul, and then the row of that one. -/
structure AttributedToContributor (inv : ParsedInvoice) (contract : Option ContractFacts) (stored : StoredRun input)
    (row : VarianceFindingRow input) : Prop where
  isSome_iff : row.chargeFact.isSome ↔ ∃ i, Contributes inv contract i ∧ ∀ j, Contributes inv contract j → j = i
  contributor : ∀ i, row.chargeFact = some i → Contributes inv contract i ∧
    ∃ c charge, inv.charges[i]? = some c ∧ stored.chargeFacts[i]? = some charge ∧ chargeFactRow input c = .ok charge

/-- On a scored invoice no charge trips the invariant; and a rate variance is attributed to the charge that the
billed linehaul is made of, wherever the contract facts give a linehaul rate or say that there is none. -/
theorem rateVariance_attributed (D : Type) [Decimal D] (input : NumericInput 18 4) (unicode : Unicode)
    (sha256 : String → String) (inv : ParsedInvoice) (contract : Option ContractFacts) (result : AuditResult)
    (h : evaluateInvoice D unicode sha256 inv CONTRACT_RUBRIC contract = .ok result) (hscored : result.outcome = .SCORED) :
    (∀ code, persistAuditRun D input inv result ≠ .error (.invariant code)) ∧
    ∀ stored, persistAuditRun D input inv result = .ok stored → (contract.bind ContractFacts.linehaulRate).isSome →
      ∀ row ∈ stored.varianceFindings, row.criterionKey = "CONTRACT.RATE_VARIANCE" →
        AttributedToContributor inv contract stored row := by
  have hamounts := ((scored_iff_gates (.inr rfl) h).mp hscored).1.amounts
  refine ⟨persistAuditRun_ne_invariant hamounts, fun stored hstored hrate row hrow hkey => ?_⟩
  simp only [persistAuditRun, bind_eq_ok, pure_eq_ok] at hstored
  obtain ⟨invoice, -, chargeFacts, hcharges, findings, hfindings, scorecard, -, _, -, rfl⟩ := hstored
  obtain ⟨f, -, hf⟩ := (mem_mapM hfindings).mp hrow
  simp only [varianceFindingRow, bind_eq_ok, pure_eq_ok] at hf
  obtain ⟨_, -, _, -, _, -, rfl⟩ := hf
  have hattributed (i : ℕ) : attributedCharge inv f = some i ↔
      Contributes inv contract i ∧ ∀ j, Contributes inv contract j → j = i :=
    (attributedCharge_eq_some hamounts hkey).trans (onlyContributor_iff hrate).symm
  refine ⟨?_, fun i hi => ?_⟩
  · rw [Option.isSome_iff_exists]
    exact exists_congr hattributed
  · obtain ⟨hcontributes, -⟩ := (hattributed i).mp hi
    obtain ⟨c, hc, -⟩ := hcontributes.charge
    rw [chargeFactRows, if_pos hscored] at hcharges
    obtain ⟨charge, hcharge, hmade⟩ := getElem?_of_mapM hcharges hc
    exact ⟨hcontributes, c, charge, hc, hcharge, hmade⟩

end

/-- What a run is stored as: its outcome, and the charges that its findings name. -/
def namedCharges (stored : StoredRun (plainInput 18 4)) : Outcome × List (String × Option ℕ) :=
  (stored.outcome, stored.varianceFindings.map fun row => (row.criterionKey, row.chargeFact))

/-- What the findings of the draft with one linehaul charge name, whatever the contract facts below. -/
def draftFindings : List (String × Option ℕ) :=
  [("STD.FUEL_PRESENT", none), ("STD.DUPLICATE_INVOICE", none), ("STD.SHIPMENT_REFERENCE_MATCH", none),
    ("STD.RATE_BASIS_ARITHMETIC", none), ("STD.310.CURRENCY_CONSISTENCY", none), ("STD.SUSPICIOUS_MISSING_DATA", none),
    ("CONTRACT.RATE_VARIANCE", some 0)]

def ninetyDollars : ContractFacts := ⟨some (some ⟨"90.00", "USD", none⟩), none, none, []⟩
def omittedRate : ContractFacts := ⟨none, none, none, []⟩

/-- A scored draft with one linehaul charge and what its run is stored as, for contract facts. -/
theorem draft_stored {contract : ContractFacts} {findings : List (String × Option ℕ)}
    (hstored : (judgeAndStore Ref (plainInput 18 4) Unicode.ascii id (draftOf "100.00" "100.00") CONTRACT_RUBRIC
      (some contract)).toOption.map namedCharges = some (.SCORED, findings)) :
    ∃ result stored, evaluateInvoice Ref Unicode.ascii id (draftOf "100.00" "100.00") CONTRACT_RUBRIC (some contract) = .ok result ∧
      result.outcome = .SCORED ∧ persistAuditRun Ref (plainInput 18 4) (draftOf "100.00" "100.00") result = .ok stored ∧
      stored.varianceFindings.map (fun row => (row.criterionKey, row.chargeFact)) = findings := by
  cases hrun : judgeAndStore Ref (plainInput 18 4) Unicode.ascii id (draftOf "100.00" "100.00") CONTRACT_RUBRIC (some contract) with
  | error e =>
    rw [hrun] at hstored
    cases hstored
  | ok stored =>
    rw [hrun] at hstored
    have hnamed : namedCharges stored = (.SCORED, findings) := Option.some.inj hstored
    simp only [judgeAndStore, bind_eq_ok, mapError_eq_ok] at hrun
    obtain ⟨result, hresult, hpersist⟩ := hrun
    have houtcome : stored.outcome = result.outcome := by
      simp only [persistAuditRun, bind_eq_ok, pure_eq_ok] at hpersist
      obtain ⟨_, -, _, -, _, -, _, -, _, -, rfl⟩ := hpersist
      rfl
    exact ⟨result, stored, hresult, houtcome ▸ congrArg Prod.fst hnamed, hpersist, congrArg Prod.snd hnamed⟩

/-- Billed 100.00 where the contract says 90.00, in one charge. -/
theorem singleLinehaul_attributed :
    ∃ result stored, evaluateInvoice Ref Unicode.ascii id (draftOf "100.00" "100.00") CONTRACT_RUBRIC
        (some ninetyDollars) = .ok result ∧
      persistAuditRun Ref (plainInput 18 4) (draftOf "100.00" "100.00") result = .ok stored ∧
      ∃ row ∈ stored.varianceFindings, row.chargeFact = some 0 ∧
        AttributedToContributor (draftOf "100.00" "100.00") (some ninetyDollars) stored row := by
  obtain ⟨result, stored, hresult, hscored, hpersist, hnamed⟩ := @draft_stored ninetyDollars draftFindings (by decide +kernel)
  have hmem : ("CONTRACT.RATE_VARIANCE", some 0) ∈ stored.varianceFindings.map fun row => (row.criterionKey, row.chargeFact) := by
    rw [hnamed]
    decide
  obtain ⟨row, hrow, hpair⟩ := List.mem_map.mp hmem
  obtain ⟨hkey, hcharge⟩ := Prod.mk.inj hpair
  exact ⟨result, stored, hresult, hpersist, row, hrow, hcharge,
    (rateVariance_attributed Ref (plainInput 18 4) Unicode.ascii id _ _ result hresult hscored).2 stored hpersist rfl row hrow hkey⟩

/-- Contract facts without a linehaul rate: nothing is summed up, and the finding names the charge. -/
theorem omittedRate_attributed :
    ∃ result stored, evaluateInvoice Ref Unicode.ascii id (draftOf "100.00" "100.00") CONTRACT_RUBRIC
        (some omittedRate) = .ok result ∧ result.outcome = .SCORED ∧
      persistAuditRun Ref (plainInput 18 4) (draftOf "100.00" "100.00") result = .ok stored ∧
      ∃ row ∈ stored.varianceFindings, row.criterionKey = "CONTRACT.RATE_VARIANCE" ∧ row.chargeFact = some 0 ∧
        ¬ AttributedToContributor (draftOf "100.00" "100.00") (some omittedRate) stored row := by
  obtain ⟨result, stored, hresult, hscored, hpersist, hnamed⟩ := @draft_stored omittedRate draftFindings (by decide +kernel)
  have hmem : ("CONTRACT.RATE_VARIANCE", some 0) ∈ stored.varianceFindings.map fun row => (row.criterionKey, row.chargeFact) := by
    rw [hnamed]
    decide
  obtain ⟨row, hrow, hpair⟩ := List.mem_map.mp hmem
  obtain ⟨hkey, hcharge⟩ := Prod.mk.inj hpair
  refine ⟨result, stored, hresult, hscored, hpersist, row, hrow, hkey, hcharge, fun h => ?_⟩
  obtain ⟨i, hi, -⟩ := h.isSome_iff.mp (by rw [hcharge]; rfl)
  cases hi.compared

end Evaluator
