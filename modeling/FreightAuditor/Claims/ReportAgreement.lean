import FreightAuditor.Claims.RecoveryReports
import FreightAuditor.Library.DecimalRef

/- The recovery reports agree.

   `Tabulated` says what a report is: one bucket for each id of a claim, with the exact
   sums of its claims, and each of the three reports is so (`bucketsBy_tabulated`). That
   the reports have the same sums in a currency, that no event is lost or counted twice
   and that the order of the rows does not matter follows from it. What does not is that a
   bucket counts money of its own currency only: a claim without a currency takes every
   event that has one (`reportsAgree_iff`). -/
namespace Claims

open DecimalJs DecimalText PgNumeric ExceptOk
open Buckets (ofKey)

section tabulated

variable {ρ κ ι : Type} [DecidableEq κ]

/-- One bucket for each id of a claim, and so each claim in exactly one; its columns are the sums of
what its claims and their events add. -/
structure Tabulated (id : ρ → κ) (row : ρ → ReconcilableClaimRow) (claims : List ρ)
    (events : List ReconcilableRecoveryEventRow) (report : List (κ × ClaimReconciliation String)) : Prop where
  nodup : (report.map Prod.fst).Nodup
  ids : ∀ k, k ∈ report.map Prod.fst ↔ k ∈ claims.map id
  sums : ∀ b ∈ report, ∀ col, b.2.get col =
    unitsText (((ofKey id claims b.1).map fun claim => rowUnits events (row claim) col).sum)

/-- The amounts of the rows, and room for their sums. -/
structure Fitting (claims : List ReconcilableClaimRow) (events : List ReconcilableRecoveryEventRow) : Prop
    extends Amounts claims events where
  fits : (claims.map (rowWeight events)).sum < 10 ^ precision

theorem finalize_sums {D : Type} [Decimal D] {bucket : ClaimReconciliation D} {units : Column → ℤ}
    (h : Sums bucket units) (col : Column) :
    (finalizeClaimReconciliationTotals bucket).get col = unitsText (units col) := by
  have htext := (h col).toFixed
  cases col <;> exact htext

/-- Some of the claims fit where all do. -/
theorem Fitting.sublist {claims claims' : List ReconcilableClaimRow} {events : List ReconcilableRecoveryEventRow}
    (h : Fitting claims events) (hsub : claims'.Sublist claims) : Fitting claims' events := by
  refine ⟨⟨fun c hc => h.claimed c (hsub.subset hc), h.recovered⟩, lt_of_le_of_lt ?_ h.fits⟩
  refine (hsub.map _).sum_le_sum (fun n hn => ?_)
  obtain ⟨c, -, rfl⟩ := List.mem_map.mp hn
  exact claimWeight_nonneg _ _

theorem emptyAccumulator_sums (D : Type) [Decimal D] :
    Sums (emptyClaimReconciliationAccumulator : ClaimReconciliation D) (fun _ => 0) := by
  intro col
  cases col <;> exact exactly_zero

/-- Where the text keys tell the same claims apart as the ids, the report is tabulated by the ids. -/
theorem bucketsBy_tabulated (D : Type) [Decimal D] (key : ρ → String) (label : ρ → ι)
    (row : ρ → ReconcilableClaimRow) (claims : List ρ) {events : List ReconcilableRecoveryEventRow}
    (id : ρ → κ) (idOf : ι → κ) (hlabel : ∀ claim, idOf (label claim) = id claim)
    (hkey : ∀ c ∈ claims, ∀ c' ∈ claims, key c = key c' ↔ id c = id c')
    (hfit : Fitting (claims.map row) events) :
    ∃ buckets, bucketsBy D key label row claims events = .ok buckets ∧
      Tabulated id row claims events
        (buckets.map fun b => (idOf b.1, finalizeClaimReconciliationTotals b.2)) := by
  have hclaims : ∀ c ∈ claims, IsAmount (row c).amountClaimed := fun c hc =>
    hfit.claimed _ (List.mem_map_of_mem hc)
  obtain ⟨groups, hgroups⟩ : ∃ groups, Buckets.group key
      (fun claim => (label claim, (emptyClaimReconciliationAccumulator : ClaimReconciliation D)))
      (fun bucket claim => do
        return (bucket.1, ← accumulateClaimReconciliation bucket.2 (row claim)
          (eventsOf events (row claim).claimId))) claims = .ok groups := by
    refine Buckets.group_total (fun c hc b => ?_)
    obtain ⟨b', hb'⟩ := accumulateClaimReconciliation_total (D := D) (hclaims c hc)
      (hfit.eventsOf (row c).claimId) b.2
    exact ⟨(b.1, b'), by rw [hb']; rfl⟩
  obtain ⟨hnodup, hkeys, hfolded⟩ := Buckets.group_collected hgroups
  -- each group is labelled by one of its claims and holds the sums of them all
  have hgroup : ∀ p ∈ groups, ∃ c ∈ claims, key c = p.1 ∧ idOf p.2.1 = id c ∧
      Sums p.2.2 (fun col => ((ofKey id claims (id c)).map fun claim => rowUnits events (row claim) col).sum) := by
    intro p hp
    obtain ⟨c, hhead, hfold⟩ := hfolded p hp
    obtain ⟨hc, hcp⟩ := Buckets.mem_ofKey.mp (List.mem_of_mem_head? hhead)
    have hofKey : ofKey key claims p.1 = ofKey id claims (id c) :=
      List.filter_congr (fun c' hc' => by rw [← hcp, decide_eq_decide]; exact hkey c' hc' c hc)
    have hfit' : Fitting ((ofKey id claims (id c)).map row) events :=
      hfit.sublist (List.Sublist.map _ List.filter_sublist)
    obtain ⟨bucket, hbucket, hsums⟩ := accumulate_sums (D := D) hfit'.toAmounts (emptyAccumulator_sums D)
      (W := 0) (fun _ => by simp) (by rw [zero_add]; exact hfit'.fits)
    rw [List.foldlM_map] at hbucket
    rw [hofKey, Buckets.foldlM_labelled (fun b claim => accumulateClaimReconciliation b (row claim)
      (eventsOf events (row claim).claimId)), hbucket] at hfold
    have hp2 : (label c, bucket) = p.2 := Except.ok.inj hfold
    rw [← hp2]
    refine ⟨c, hc, hcp, hlabel c, fun col => ?_⟩
    simpa [List.map_map, Function.comp_def] using hsums col
  refine ⟨groups.map Prod.snd, by rw [bucketsBy, hgroups]; rfl, ?_, fun k => ?_, fun b hb col => ?_⟩
  · -- two buckets with one id would have one text key
    rw [List.map_map, List.map_map, List.nodup_iff_pairwise_ne, List.pairwise_map]
    rw [List.nodup_iff_pairwise_ne, List.pairwise_map] at hnodup
    refine hnodup.imp_of_mem (fun {p q} hp hq hne heq => hne ?_)
    obtain ⟨c, hc, hcp, hidp, -⟩ := hgroup p hp
    obtain ⟨c', hc', hcq, hidq, -⟩ := hgroup q hq
    rw [← hcp, ← hcq, hkey c hc c' hc', ← hidp, ← hidq]
    exact heq
  · simp only [List.map_map, List.mem_map, Function.comp_apply]
    constructor
    · rintro ⟨p, hp, rfl⟩
      obtain ⟨c, hc, -, hid, -⟩ := hgroup p hp
      exact ⟨c, hc, hid.symm⟩
    · rintro ⟨c, hc, rfl⟩
      obtain ⟨p, hp, hpc⟩ := List.mem_map.mp ((hkeys (key c)).mpr (List.mem_map_of_mem hc))
      obtain ⟨c', hc', hcp, hid, -⟩ := hgroup p hp
      exact ⟨p, hp, hid.trans ((hkey c' hc' c hc).mp (hcp.trans hpc))⟩
  · obtain ⟨b', hb', rfl⟩ := List.mem_map.mp hb
    obtain ⟨p, hp, rfl⟩ := List.mem_map.mp hb'
    obtain ⟨c, -, -, hid, hsums⟩ := hgroup p hp
    simp only [hid, finalize_sums hsums]

theorem rowUnits_perm {events events' : List ReconcilableRecoveryEventRow} (h : events.Perm events')
    (claim : ReconcilableClaimRow) : rowUnits events claim = rowUnits events' claim := by
  have hcounted : ∀ col, countedUnits claim.currency (eventsOf events claim.claimId) col =
      countedUnits claim.currency (eventsOf events' claim.claimId) col := fun col =>
    (((h.filter _).filter _).map _).sum_eq
  funext col
  cases col <;> simp only [rowUnits, claimUnits, hcounted]

variable {id : ρ → κ} {row : ρ → ReconcilableClaimRow} {claims claims' : List ρ}
  {events events' : List ReconcilableRecoveryEventRow} {report report' : List (κ × ClaimReconciliation String)}

/-- The rows in another order make the same buckets. -/
theorem Tabulated.subset (h : Tabulated id row claims events report) (h' : Tabulated id row claims' events' report')
    (hclaims : claims.Perm claims') (hevents : events.Perm events') : ∀ b ∈ report, b ∈ report' := by
  intro b hb
  have hid : b.1 ∈ report'.map Prod.fst :=
    (h'.ids _).mpr ((hclaims.map id).mem_iff.mp ((h.ids _).mp (List.mem_map_of_mem hb)))
  obtain ⟨b', hb', hkey⟩ := List.mem_map.mp hid
  have htotals : b'.2 = b.2 := ClaimReconciliation.ext_get (fun col => by
    rw [h.sums b hb, h'.sums b' hb', hkey]
    simp only [rowUnits_perm hevents]
    exact congrArg unitsText ((hclaims.symm.filter _).map _).sum_eq)
  rwa [← Prod.ext hkey htotals]

/-- The order of the claims and of the events matters only for the order of the buckets. -/
theorem Tabulated.perm (h : Tabulated id row claims events report) (h' : Tabulated id row claims' events' report')
    (hclaims : claims.Perm claims') (hevents : events.Perm events') : report.Perm report' :=
  (List.perm_ext_iff_of_nodup h.nodup.of_map h'.nodup.of_map).mpr fun b =>
    ⟨h.subset h' hclaims hevents b, h'.subset h hclaims.symm hevents.symm b⟩

/-- The buckets of a report that lie over `g` add up to the claims that do. -/
theorem Tabulated.total (h : Tabulated id row claims events report) {γ : Type} [DecidableEq γ] (coarse : κ → γ)
    (g : γ) (col : Column) :
    ((report.filter fun b => coarse b.1 = g).map fun b => amountUnits (b.2.get col)).sum =
      ((ofKey (fun claim => coarse (id claim)) claims g).map fun claim => rowUnits events (row claim) col).sum := by
  have hks : ∀ c ∈ claims, id c ∈ report.map Prod.fst := fun c hc => (h.ids _).mpr (List.mem_map_of_mem hc)
  rw [← Buckets.sum_of_buckets coarse _ h.nodup hks g, List.filter_map, List.map_map]
  congr 1
  refine List.map_congr_left (fun b hb => ?_)
  rw [h.sums b (List.mem_of_mem_filter hb), amountUnits_unitsText]
  rfl

theorem Tabulated.of_map {σ : Type} {f : σ → ρ} {rows : List σ}
    (h : Tabulated id row (rows.map f) events report) :
    Tabulated (fun r => id (f r)) (fun r => row (f r)) rows events report where
  nodup := h.nodup
  ids k := by
    rw [h.ids k, List.map_map]
    rfl
  sums b hb col := by
    rw [h.sums b hb col, ofKey, List.filter_map, List.map_map]
    rfl

end tabulated

/-! ## Events -/

/-- What an event adds, it adds to one of the three recovered columns. -/
theorem countedUnits_sum (claimCurrency : Option String) (events : List ReconcilableRecoveryEventRow) :
    countedUnits claimCurrency events .recovered + countedUnits claimCurrency events .nullCurrencyRecovered +
      countedUnits claimCurrency events .mismatchedCurrencyRecovered =
        (events.map fun event => amountUnits event.amountRecovered).sum := by
  induction events with
  | nil => rfl
  | cons event events ih =>
    simp only [countedUnits_cons, List.map_cons, List.sum_cons, ← ih]
    obtain h | h | h := recoveredColumn_cases claimCurrency event <;> simp [h] <;> ring

/-- The events of the listed claims are counted once each. -/
theorem recovered_total {claims : List ReconcilableClaimRow} (hids : (claims.map ReconcilableClaimRow.claimId).Nodup)
    (events : List ReconcilableRecoveryEventRow) :
    (claims.map fun claim => rowUnits events claim .recovered + rowUnits events claim .nullCurrencyRecovered +
        rowUnits events claim .mismatchedCurrencyRecovered).sum =
      ((events.filter fun event => event.claimId ∈ claims.map ReconcilableClaimRow.claimId).map
        fun event => amountUnits event.amountRecovered).sum := by
  rw [← Buckets.sum_ofKey _ hids, List.map_map]
  congr 1
  exact List.map_congr_left (fun claim _ => countedUnits_sum claim.currency (eventsOf events claim.claimId))

theorem eventsWeight_total {claims : List ReconcilableClaimRow}
    (hids : (claims.map ReconcilableClaimRow.claimId).Nodup) (events : List ReconcilableRecoveryEventRow) :
    (claims.map fun claim => eventsWeight (eventsOf events claim.claimId)).sum ≤ eventsWeight events := by
  have hlisted : (claims.map fun claim => eventsWeight (eventsOf events claim.claimId)).sum =
      eventsWeight (events.filter fun event => event.claimId ∈ claims.map ReconcilableClaimRow.claimId) := by
    rw [eventsWeight, ← Buckets.sum_ofKey _ hids, List.map_map]
    rfl
  rw [hlisted]
  refine (List.Sublist.map _ List.filter_sublist).sum_le_sum (fun n hn => ?_)
  obtain ⟨event, -, rfl⟩ := List.mem_map.mp hn
  exact abs_nonneg _

/-! ## Keys -/

/-- A text of letters, digits and hyphens, as an id has it. -/
def IsIdText (text : String) : Prop := text ≠ "" ∧ ∀ c ∈ text.toList, c.isAlphanum ∨ c = '-'

def IsCurrencyCode (text : String) : Prop := text.toList.length = 3 ∧ ∀ c ∈ text.toList, c.isAlpha

/-- What comes before the first separator is determined. -/
theorem separated_inj {a b x y : String} (ha : ':' ∉ a.toList) (hb : ':' ∉ b.toList) :
    a ++ "::" ++ x = b ++ "::" ++ y ↔ a = b ∧ x = y := by
  have htake : ∀ s : List Char, ':' ∉ s → ∀ t, (s ++ ':' :: t).takeWhile (· ≠ ':') = s := fun s hs t => by
    have hne : ∀ c ∈ s, decide (c ≠ ':') = true := fun c hc => decide_eq_true (fun h => hs (h ▸ hc))
    rw [List.takeWhile_append_of_pos hne]
    simp
  refine ⟨fun h => ?_, fun ⟨hab, hxy⟩ => by rw [hab, hxy]⟩
  have hchars : a.toList ++ ':' :: ':' :: x.toList = b.toList ++ ':' :: ':' :: y.toList := by
    simpa using congrArg String.toList h
  have hab : a.toList = b.toList := by
    rw [← htake _ ha (':' :: x.toList), hchars, htake _ hb]
  rw [hab, List.append_cancel_left_eq] at hchars
  simp only [List.cons.injEq, true_and] at hchars
  exact ⟨String.toList_inj.mp hab, String.toList_inj.mp hchars⟩

theorem IsIdText.no_colon {text : String} (h : IsIdText text) : ':' ∉ text.toList := by
  intro hc
  obtain h | h := h.2 _ hc
  · exact absurd h (by decide)
  · exact absurd h (by decide)

theorem IsIdText.ne_blank {text : String} (h : IsIdText text) : text ≠ " " := by
  rintro rfl
  obtain h | h := h.2 ' ' (by decide)
  · exact absurd h (by decide)
  · exact absurd h (by decide)

theorem IsCurrencyCode.ne_blank {text : String} (h : IsCurrencyCode text) : text ≠ " " := by
  rintro rfl
  exact absurd h.1 (by decide)

/-- The blank stands for `null` and nothing else. -/
theorem getD_blank_inj {a b : Option String} (ha : ∀ s ∈ a, s ≠ " ") (hb : ∀ s ∈ b, s ≠ " ") :
    a.getD " " = b.getD " " ↔ a = b := by
  cases a with
  | none =>
    cases b with
    | none => simp
    | some t => simpa using (hb t rfl).symm
  | some s =>
    cases b with
    | none => simpa using ha s rfl
    | some t => simp

/-! ## The three reports -/

/-- A claim with all that the reports group by. -/
structure PortfolioClaimRow extends ReconcilableClaimRow where
  carrierId : Option String
  clientId : String
  clientName : Option String

def PortfolioClaimRow.carrierRow (claim : PortfolioClaimRow) : CarrierClaimRow :=
  ⟨claim.toReconcilableClaimRow, claim.carrierId⟩

def PortfolioClaimRow.accountRow (claim : PortfolioClaimRow) : AccountPortfolioClaimRow :=
  ⟨claim.toReconcilableClaimRow, claim.clientId, claim.clientName⟩

structure RecoveryReports where
  portfolio : List PortfolioReconciliationBucket
  carriers : List CarrierRecoveryBucket
  accounts : List AccountPortfolioBucket

def recoveryReports (D : Type) [Decimal D] (claims : List PortfolioClaimRow)
    (events : List ReconcilableRecoveryEventRow) : Except DecimalError RecoveryReports := do
  return {
    portfolio := ← reconcilePortfolioTotals D (claims.map PortfolioClaimRow.toReconcilableClaimRow) events
    carriers := ← aggregateCarrierRecovery D (claims.map PortfolioClaimRow.carrierRow) events
    accounts := ← aggregateCrossAccountPortfolio D (claims.map PortfolioClaimRow.accountRow) events }

namespace RecoveryReports

/-- The buckets with their ids. -/
def byCurrency (r : RecoveryReports) : List (Option String × ClaimReconciliation String) :=
  r.portfolio.map fun b => (b.currency, b.toClaimReconciliation)

def byCarrier (r : RecoveryReports) : List ((Option String × Option String) × ClaimReconciliation String) :=
  r.carriers.map fun b => ((b.carrierId, b.currency), b.toClaimReconciliation)

def byAccount (r : RecoveryReports) : List ((String × Option String) × ClaimReconciliation String) :=
  r.accounts.map fun b => ((b.clientId, b.currency), b.toClaimReconciliation)

end RecoveryReports

section agreement

variable {κ : Type} [DecidableEq κ]

/-- A column of a report in one currency, over all buckets. -/
def columnTotal (report : List (κ × ClaimReconciliation String)) (currencyOf : κ → Option String)
    (currency : Option String) (col : Column) : ℤ :=
  ((report.filter fun b => currencyOf b.1 = currency).map fun b => amountUnits (b.2.get col)).sum

/-- The events counted as recovered in a bucket. -/
def recoveredEvents (id : PortfolioClaimRow → κ) (claims : List PortfolioClaimRow)
    (events : List ReconcilableRecoveryEventRow) (k : κ) : List ReconcilableRecoveryEventRow :=
  (ofKey id claims k).flatMap fun claim =>
    (eventsOf events claim.claimId).filter fun event => recoveredColumn claim.currency event = .recovered

/-- The buckets count as recovered only events of their own currency. -/
def OwnCurrency (id : PortfolioClaimRow → κ) (currencyOf : κ → Option String) (claims : List PortfolioClaimRow)
    (events : List ReconcilableRecoveryEventRow) (report : List (κ × ClaimReconciliation String)) : Prop :=
  ∀ b ∈ report, ∀ event ∈ recoveredEvents id claims events b.1, event.currency = currencyOf b.1

end agreement

def currencyId (claim : PortfolioClaimRow) : Option String := claim.currency
def carrierId (claim : PortfolioClaimRow) : Option String × Option String := (claim.carrierId, claim.currency)
def accountId (claim : PortfolioClaimRow) : String × Option String := (claim.clientId, claim.currency)

/-- The reports agree with each other and with the rows. -/
structure ReportsAgree (claims : List PortfolioClaimRow) (events : List ReconcilableRecoveryEventRow)
    (r : RecoveryReports) : Prop where
  /-- Each claim lands in one bucket of each report, whose columns are the sums of its claims. -/
  portfolio : Tabulated currencyId PortfolioClaimRow.toReconcilableClaimRow claims events r.byCurrency
  carriers : Tabulated carrierId PortfolioClaimRow.toReconcilableClaimRow claims events r.byCarrier
  accounts : Tabulated accountId PortfolioClaimRow.toReconcilableClaimRow claims events r.byAccount
  /-- In each currency the columns have the same sums. -/
  agree : ∀ currency col, columnTotal r.byCurrency (fun k => k) currency col =
      columnTotal r.byCarrier Prod.snd currency col ∧
    columnTotal r.byCurrency (fun k => k) currency col = columnTotal r.byAccount Prod.snd currency col
  /-- Each event of a listed claim is counted once in the recovered columns. -/
  conserved : (r.byCurrency.map fun b => amountUnits (b.2.get .recovered) +
      amountUnits (b.2.get .nullCurrencyRecovered) + amountUnits (b.2.get .mismatchedCurrencyRecovered)).sum =
    ((events.filter fun event => event.claimId ∈ claims.map fun claim => claim.claimId).map
      fun event => amountUnits event.amountRecovered).sum
  ownCurrency : OwnCurrency currencyId (fun k => k) claims events r.byCurrency ∧
    OwnCurrency carrierId Prod.snd claims events r.byCarrier ∧
    OwnCurrency accountId Prod.snd claims events r.byAccount

/-- The same buckets in some order. -/
def SameReports (r r' : RecoveryReports) : Prop :=
  r.byCurrency.Perm r'.byCurrency ∧ r.byCarrier.Perm r'.byCarrier ∧ r.byAccount.Perm r'.byAccount

/-- Rows as the tables have them, with sums of at most 20 digits. -/
structure ReportRows (claims : List PortfolioClaimRow) (events : List ReconcilableRecoveryEventRow) : Prop where
  claimIds : (claims.map fun claim => claim.claimId).Nodup
  currencies : ∀ claim ∈ claims, ∀ currency ∈ claim.currency, IsCurrencyCode currency
  carrierIds : ∀ claim ∈ claims, ∀ id ∈ claim.carrierId, IsIdText id
  clientIds : ∀ claim ∈ claims, IsIdText claim.clientId
  amounts : Amounts (claims.map PortfolioClaimRow.toReconcilableClaimRow) events
  fits : (claims.map fun claim => |amountUnits claim.amountClaimed|).sum + eventsWeight events < 10 ^ precision

theorem ReportRows.fitting {claims : List PortfolioClaimRow} {events : List ReconcilableRecoveryEventRow}
    (h : ReportRows claims events) : Fitting (claims.map PortfolioClaimRow.toReconcilableClaimRow) events := by
  refine ⟨h.amounts, lt_of_le_of_lt ?_ h.fits⟩
  have hids : ((claims.map PortfolioClaimRow.toReconcilableClaimRow).map ReconcilableClaimRow.claimId).Nodup := by
    rw [List.map_map]
    exact h.claimIds
  have hsplit : ((claims.map PortfolioClaimRow.toReconcilableClaimRow).map (rowWeight events)).sum =
      (claims.map fun claim => |amountUnits claim.amountClaimed|).sum +
        ((claims.map PortfolioClaimRow.toReconcilableClaimRow).map
          fun claim => eventsWeight (eventsOf events claim.claimId)).sum := by
    rw [List.map_map, List.map_map, ← List.sum_map_add]
    rfl
  rw [hsplit]
  exact add_le_add le_rfl (eventsWeight_total hids events)

section

variable (D : Type) [Decimal D] {claims : List PortfolioClaimRow} {events : List ReconcilableRecoveryEventRow}
  (h : ReportRows claims events)
include h

theorem ReportRows.currency_iff : ∀ c ∈ claims, ∀ c' ∈ claims,
    c.currency.getD " " = c'.currency.getD " " ↔ c.currency = c'.currency := fun c hc c' hc' =>
  getD_blank_inj (fun s hs => (h.currencies c hc s hs).ne_blank) (fun s hs => (h.currencies c' hc' s hs).ne_blank)

theorem ReportRows.carrier_iff : ∀ c ∈ claims, ∀ c' ∈ claims,
    c.carrierId.getD " " ++ "::" ++ c.currency.getD " " = c'.carrierId.getD " " ++ "::" ++ c'.currency.getD " " ↔
      (c.carrierId, c.currency) = (c'.carrierId, c'.currency) := by
  intro c hc c' hc'
  have htext : ∀ c ∈ claims, ':' ∉ (c.carrierId.getD " ").toList := fun c hc => by
    cases hid : c.carrierId with
    | none => decide
    | some id => exact (h.carrierIds c hc id hid).no_colon
  rw [separated_inj (htext c hc) (htext c' hc'), Prod.mk.injEq]
  exact and_congr (getD_blank_inj (fun s hs => (h.carrierIds c hc s hs).ne_blank)
    (fun s hs => (h.carrierIds c' hc' s hs).ne_blank)) (h.currency_iff c hc c' hc')

theorem ReportRows.account_iff : ∀ c ∈ claims, ∀ c' ∈ claims,
    c.clientId ++ "::" ++ c.currency.getD " " = c'.clientId ++ "::" ++ c'.currency.getD " " ↔
      (c.clientId, c.currency) = (c'.clientId, c'.currency) := by
  intro c hc c' hc'
  rw [separated_inj (h.clientIds c hc).no_colon (h.clientIds c' hc').no_colon, Prod.mk.injEq]
  exact and_congr_right (fun _ => h.currency_iff c hc c' hc')

theorem reconcilePortfolioTotals_tabulated :
    ∃ portfolio, reconcilePortfolioTotals D (claims.map PortfolioClaimRow.toReconcilableClaimRow) events =
        .ok portfolio ∧
      Tabulated currencyId PortfolioClaimRow.toReconcilableClaimRow claims events
        (portfolio.map fun b => (b.currency, b.toClaimReconciliation)) := by
  obtain ⟨buckets, hbuckets, htab⟩ := bucketsBy_tabulated D (fun claim => claim.currency.getD " ")
    ReconcilableClaimRow.currency id (claims.map PortfolioClaimRow.toReconcilableClaimRow)
    ReconcilableClaimRow.currency (fun k => k) (fun _ => rfl)
    (List.forall_mem_map.mpr fun c hc => List.forall_mem_map.mpr fun c' hc' => h.currency_iff c hc c' hc')
    (by rw [List.map_id]; exact h.fitting)
  refine ⟨_, by rw [reconcilePortfolioTotals, hbuckets]; rfl, ?_⟩
  rw [List.map_map]
  exact htab.of_map

theorem aggregateCarrierRecovery_tabulated :
    ∃ carriers, aggregateCarrierRecovery D (claims.map PortfolioClaimRow.carrierRow) events = .ok carriers ∧
      Tabulated carrierId PortfolioClaimRow.toReconcilableClaimRow claims events
        (carriers.map fun b => ((b.carrierId, b.currency), b.toClaimReconciliation)) := by
  obtain ⟨buckets, hbuckets, htab⟩ := bucketsBy_tabulated D
    (fun claim => claim.carrierId.getD " " ++ "::" ++ claim.currency.getD " ")
    (fun claim => (claim.carrierId, claim.currency)) CarrierClaimRow.toReconcilableClaimRow
    (claims.map PortfolioClaimRow.carrierRow) (fun claim => (claim.carrierId, claim.currency)) (fun k => k)
    (fun _ => rfl)
    (List.forall_mem_map.mpr fun c hc => List.forall_mem_map.mpr fun c' hc' => h.carrier_iff c hc c' hc')
    (by rw [List.map_map]; exact h.fitting)
  refine ⟨_, by rw [aggregateCarrierRecovery, hbuckets]; rfl, ?_⟩
  rw [List.map_map]
  exact htab.of_map

theorem aggregateCrossAccountPortfolio_tabulated :
    ∃ accounts, aggregateCrossAccountPortfolio D (claims.map PortfolioClaimRow.accountRow) events = .ok accounts ∧
      Tabulated accountId PortfolioClaimRow.toReconcilableClaimRow claims events
        (accounts.map fun b => ((b.clientId, b.currency), b.toClaimReconciliation)) := by
  obtain ⟨buckets, hbuckets, htab⟩ := bucketsBy_tabulated D
    (fun claim => claim.clientId ++ "::" ++ claim.currency.getD " ")
    (fun claim => (claim.clientId, claim.clientName, claim.currency))
    AccountPortfolioClaimRow.toReconcilableClaimRow (claims.map PortfolioClaimRow.accountRow)
    (fun claim => (claim.clientId, claim.currency)) (fun k => (k.1, k.2.2)) (fun _ => rfl)
    (List.forall_mem_map.mpr fun c hc => List.forall_mem_map.mpr fun c' hc' => h.account_iff c hc c' hc')
    (by rw [List.map_map]; exact h.fitting)
  refine ⟨_, by rw [aggregateCrossAccountPortfolio, hbuckets]; rfl, ?_⟩
  rw [List.map_map]
  exact htab.of_map

/-- Each report is tabulated by its ids. -/
theorem recoveryReports_tabulated :
    ∃ r, recoveryReports D claims events = .ok r ∧
      Tabulated currencyId PortfolioClaimRow.toReconcilableClaimRow claims events r.byCurrency ∧
      Tabulated carrierId PortfolioClaimRow.toReconcilableClaimRow claims events r.byCarrier ∧
      Tabulated accountId PortfolioClaimRow.toReconcilableClaimRow claims events r.byAccount := by
  obtain ⟨portfolio, hportfolio, htab⟩ := reconcilePortfolioTotals_tabulated D h
  obtain ⟨carriers, hcarriers, htab'⟩ := aggregateCarrierRecovery_tabulated D h
  obtain ⟨accounts, haccounts, htab''⟩ := aggregateCrossAccountPortfolio_tabulated D h
  exact ⟨⟨portfolio, carriers, accounts⟩, by rw [recoveryReports, hportfolio, hcarriers, haccounts]; rfl,
    htab, htab', htab''⟩

end

/-- An event is counted as recovered if it has a currency, which is the claim's if that has one. -/
theorem recoveredColumn_recovered {claimCurrency : Option String} {event : ReconcilableRecoveryEventRow} :
    recoveredColumn claimCurrency event = .recovered ↔
      event.currency ≠ none ∧ (claimCurrency = none ∨ event.currency = claimCurrency) := by
  unfold recoveredColumn
  cases hcurrency : event.currency with
  | none => simp
  | some currency =>
    simp only [ne_eq, reduceCtorEq, not_false_eq_true, true_and]
    split
    · rename_i hmismatch
      exact ⟨fun h => (by cases h), fun h => absurd h (not_or.mpr hmismatch)⟩
    · rename_i hmatch
      exact ⟨fun _ => by simpa only [not_and_or, not_not] using hmatch, fun _ => rfl⟩

/-- No claim without a currency has an event with one. -/
def CurrenciesKnown (claims : List PortfolioClaimRow) (events : List ReconcilableRecoveryEventRow) : Prop :=
  ∀ claim ∈ claims, claim.currency = none → ∀ event ∈ eventsOf events claim.claimId, event.currency = none

theorem ownCurrency_iff {κ : Type} [DecidableEq κ] (id : PortfolioClaimRow → κ) (currencyOf : κ → Option String)
    (hid : ∀ claim, currencyOf (id claim) = claim.currency) {claims : List PortfolioClaimRow}
    {events : List ReconcilableRecoveryEventRow} {report : List (κ × ClaimReconciliation String)}
    (h : Tabulated id PortfolioClaimRow.toReconcilableClaimRow claims events report) :
    OwnCurrency id currencyOf claims events report ↔ CurrenciesKnown claims events := by
  constructor
  · intro hown claim hclaim hnone event hevent
    by_contra hsome
    obtain ⟨b, hb, hbid⟩ := List.mem_map.mp ((h.ids (id claim)).mpr (List.mem_map_of_mem hclaim))
    have hcounted : event ∈ recoveredEvents id claims events b.1 :=
      List.mem_flatMap.mpr ⟨claim, Buckets.mem_ofKey.mpr ⟨hclaim, hbid.symm⟩,
        List.mem_filter.mpr ⟨hevent, decide_eq_true (recoveredColumn_recovered.mpr ⟨hsome, .inl hnone⟩)⟩⟩
    exact hsome ((hown b hb event hcounted).trans (by rw [hbid, hid, hnone]))
  · intro hknown b hb event hevent
    obtain ⟨claim, hclaim, hcounted⟩ := List.mem_flatMap.mp hevent
    obtain ⟨hmem, hbid⟩ := Buckets.mem_ofKey.mp hclaim
    obtain ⟨hof, hcolumn⟩ := List.mem_filter.mp hcounted
    obtain ⟨hsome, hnone | heq⟩ := recoveredColumn_recovered.mp (of_decide_eq_true hcolumn)
    · exact absurd (hknown claim hmem hnone event hof) hsome
    · rw [heq, ← hid, hbid]

theorem ReportRows.perm {claims claims' : List PortfolioClaimRow} {events events' : List ReconcilableRecoveryEventRow}
    (h : ReportRows claims events) (hclaims : claims.Perm claims') (hevents : events.Perm events') :
    ReportRows claims' events' where
  claimIds := (hclaims.map _).nodup_iff.mp h.claimIds
  currencies c hc := h.currencies c (hclaims.mem_iff.mpr hc)
  carrierIds c hc := h.carrierIds c (hclaims.mem_iff.mpr hc)
  clientIds c hc := h.clientIds c (hclaims.mem_iff.mpr hc)
  amounts := ⟨fun c hc => h.amounts.claimed c ((hclaims.map _).mem_iff.mpr hc),
    fun e he => h.amounts.recovered e (hevents.mem_iff.mpr he)⟩
  fits := by
    rw [eventsWeight, ← (hclaims.map _).sum_eq, ← (hevents.map _).sum_eq]
    exact h.fits

/-- A sum over all buckets is one over all claims. -/
theorem Tabulated.total_all {κ : Type} [DecidableEq κ] {id : PortfolioClaimRow → κ}
    {claims : List PortfolioClaimRow} {events : List ReconcilableRecoveryEventRow}
    {report : List (κ × ClaimReconciliation String)}
    (h : Tabulated id PortfolioClaimRow.toReconcilableClaimRow claims events report) (col : Column) :
    (report.map fun b => amountUnits (b.2.get col)).sum =
      (claims.map fun claim => rowUnits events claim.toReconcilableClaimRow col).sum := by
  simpa [ofKey] using h.total (fun _ => ()) () col

theorem reportsAgree_iff (D : Type) [Decimal D] {claims : List PortfolioClaimRow}
    {events : List ReconcilableRecoveryEventRow} (h : ReportRows claims events) :
    (∃ r, recoveryReports D claims events = .ok r ∧ ReportsAgree claims events r ∧
      ∀ claims' events', claims.Perm claims' → events.Perm events' →
        ∃ r', recoveryReports D claims' events' = .ok r' ∧ SameReports r r') ↔
      CurrenciesKnown claims events := by
  obtain ⟨r, hr, hcurrency, hcarrier, haccount⟩ := recoveryReports_tabulated D h
  constructor
  · rintro ⟨r', hr', hagree, -⟩
    exact (ownCurrency_iff currencyId (fun k => k) (fun _ => rfl) hagree.portfolio).mp hagree.ownCurrency.1
  intro hknown
  refine ⟨r, hr, ⟨hcurrency, hcarrier, haccount, fun currency col => ?_, ?_, ?_⟩, ?_⟩
  · -- each side is the sum over the claims in the currency
    constructor
    · exact (hcurrency.total (fun k => k) currency col).trans (hcarrier.total Prod.snd currency col).symm
    · exact (hcurrency.total (fun k => k) currency col).trans (haccount.total Prod.snd currency col).symm
  · have hids : (claims.map PortfolioClaimRow.toReconcilableClaimRow).map ReconcilableClaimRow.claimId =
        claims.map fun claim => claim.claimId := List.map_map
    have htotal := recovered_total (by rw [hids]; exact h.claimIds) events
    rw [hids, List.map_map] at htotal
    simp only [List.sum_map_add, hcurrency.total_all]
    rw [← List.sum_map_add, ← List.sum_map_add]
    exact htotal
  · exact ⟨(ownCurrency_iff currencyId (fun k => k) (fun _ => rfl) hcurrency).mpr hknown,
      (ownCurrency_iff carrierId Prod.snd (fun _ => rfl) hcarrier).mpr hknown,
      (ownCurrency_iff accountId Prod.snd (fun _ => rfl) haccount).mpr hknown⟩
  · intro claims' events' hclaims hevents
    obtain ⟨r', hr', hcurrency', hcarrier', haccount'⟩ := recoveryReports_tabulated D (h.perm hclaims hevents)
    exact ⟨r', hr', hcurrency.perm hcurrency' hclaims hevents, hcarrier.perm hcarrier' hclaims hevents,
      haccount.perm haccount' hclaims hevents⟩

/-- A claim of 500 with two recoveries, 60 in dollars and 40 in euros. -/
def twoCurrencies (currency : Option String) : List PortfolioClaimRow × List ReconcilableRecoveryEventRow :=
  ([⟨⟨"c1", unitsText 5000000, currency, "open"⟩, none, "a1", none⟩],
    [⟨"c1", unitsText 600000, some "USD"⟩, ⟨"c1", unitsText 400000, some "EUR"⟩])

theorem twoCurrencies_rows {currency : Option String} (h : ∀ c ∈ currency, IsCurrencyCode c) :
    ReportRows (twoCurrencies currency).1 (twoCurrencies currency).2 where
  claimIds := by simp [twoCurrencies]
  currencies := by simpa [twoCurrencies] using h
  carrierIds := by simp [twoCurrencies]
  clientIds := by
    have : IsIdText "a1" := ⟨by decide, List.forall_iff_forall_mem.mp (by decide)⟩
    simpa [twoCurrencies] using this
  amounts := by
    have hamount : ∀ n, IsAmount (unitsText n) := fun n => ⟨n, readsAs_fixedText 4 n⟩
    exact ⟨by simp [twoCurrencies, hamount], by simp [twoCurrencies, hamount]⟩
  fits := by
    simp [twoCurrencies, eventsWeight, amountUnits_unitsText]
    decide

/-- On a claim in dollars the euros are set apart. -/
theorem dollarClaim_agrees : ∃ r, recoveryReports Ref (twoCurrencies (some "USD")).1
      (twoCurrencies (some "USD")).2 = .ok r ∧
    ReportsAgree (twoCurrencies (some "USD")).1 (twoCurrencies (some "USD")).2 r ∧
    ∀ claims' events', (twoCurrencies (some "USD")).1.Perm claims' → (twoCurrencies (some "USD")).2.Perm events' →
      ∃ r', recoveryReports Ref claims' events' = .ok r' ∧ SameReports r r' :=
  have hcode : ∀ c ∈ some "USD", IsCurrencyCode c := fun c hc => by
    obtain rfl := Option.mem_some.mp hc
    exact ⟨by decide, List.forall_iff_forall_mem.mp (by decide)⟩
  (reportsAgree_iff Ref (twoCurrencies_rows hcode)).mpr (by simp [CurrenciesKnown, twoCurrencies])

/-- On a claim without a currency they are added to the dollars. -/
theorem claimWithoutCurrency_mixes :
    ((recoveryReports Ref (twoCurrencies none).1 (twoCurrencies none).2).toOption.map fun r =>
        r.portfolio.map fun b => (b.currency, b.recovered)) = some [(none, "100.0000")] ∧
      ¬ ∃ r, recoveryReports Ref (twoCurrencies none).1 (twoCurrencies none).2 = .ok r ∧
        ReportsAgree (twoCurrencies none).1 (twoCurrencies none).2 r ∧
        ∀ claims' events', (twoCurrencies none).1.Perm claims' → (twoCurrencies none).2.Perm events' →
          ∃ r', recoveryReports Ref claims' events' = .ok r' ∧ SameReports r r' := by
  refine ⟨by decide +kernel, ?_⟩
  rintro ⟨r, -, hagree, -⟩
  have hknown := (ownCurrency_iff currencyId (fun k => k) (fun _ => rfl) hagree.portfolio).mp hagree.ownCurrency.1
  exact absurd hknown (by simp [CurrenciesKnown, twoCurrencies, eventsOf])

end Claims
