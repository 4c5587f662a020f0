import FreightAuditor.Ingestion.ReIngestion

/- Transaction sets of one interchange.

   An interchange may hold many ST..SE sets. The adapters take the header from the first segment with a tag
   and the lines from all segments with a tag, over the whole interchange, and only the footing gate stands
   between two sets and one run. A scored invoice is read from one set exactly if the text has one, none of
   the segments that are read by tag stands outside of it, and none of those of which the first is read stands
   before it, or after it where it has none (`readFromOneSet_iff`). -/
namespace Interchanges

open AuditLedger (AuditDb)
open DecimalJs Evaluator ExceptOk Ingestion JsText Json ReIngestion

/-! ## The sets of an interchange -/

/-- A segment with its place in the text. -/
abbrev Placed := X12Segment × ℕ

def placed (ix : X12Interchange) : List Placed := ix.segments.zipIdx

/-- What follows an ST segment up to its SE, the next ST or the end. -/
def takeSet : List Placed → List Placed
  | [] => []
  | s :: rest => if s.1.tag = "ST" then [] else if s.1.tag = "SE" then [s] else s :: takeSet rest

def transactionSets : List Placed → List (List Placed)
  | [] => []
  | s :: rest => if s.1.tag = "ST" then (s :: takeSet rest) :: transactionSets rest else transactionSets rest

/-- The tags of which an adapter reads the first segment. -/
def readOnce : TransactionSet → List String
  | .edi310 => ["B3", "V1"]
  | _ => ["B3"]

/-- The tags of which it reads every segment. -/
def readEach : TransactionSet → List String
  | .edi310 => ["L1", "N9", "N7", "R4"]
  | _ => ["L1"]

def firstWithTag (l : List Placed) (tag : String) : Option Placed := l.find? (·.1.tag == tag)

def withTag (l : List Placed) (tag : String) : List Placed := l.filter (·.1.tag == tag)

def segmentsRead (set : TransactionSet) (l : List Placed) : List Placed :=
  (readOnce set).filterMap (firstWithTag l) ++ (readEach set).flatMap (withTag l)

/-! ## What one set states -/

/-- The segments of a set as an interchange of their own. -/
def alone (ix : X12Interchange) (set : List Placed) : X12Interchange := ⟨ix.delimiters, set.map Prod.fst⟩

/-- The number of an invoice, its total and its references. -/
structure Header where
  invoiceNumber : Option String
  declaredTotal : Option String
  shipmentReferences : Option (List String)
  carrierCode : Option String
  containerNumbers : Option (List String)
  vesselVoyage : Option String
  portCodes : Option (List String)

def headerOf (inv : ParsedInvoice) : Header :=
  ⟨inv.invoiceNumber, inv.footing.bind Footing.declaredTotal, inv.shipmentReferences, inv.carrierCode,
    inv.containerNumbers, inv.vesselVoyage, inv.portCodes⟩

section

variable (D : Type) [Decimal D] (unicode : Unicode)

/-- The header that the segments of an interchange state. -/
def statedHeader (set : TransactionSet) (ix : X12Interchange) : Header :=
  let b3 := firstSegment ix "B3"
  match set with
  | .edi310 =>
    let container := fun segment : X12Segment => do
      let owner ← el (some segment) 1
      let number ← el (some segment) 2
      return owner ++ number
    let vessel := firstSegment ix "V1"
    { invoiceNumber := el b3 2
      declaredTotal := money D (el b3 7)
      shipmentReferences := some (normalizeReferences unicode
        ((segmentsByTag ix "N9").map fun segment => el (some segment) 2))
      carrierCode := none
      containerNumbers := some (normalizeReferences unicode ((segmentsByTag ix "N7").map container))
      vesselVoyage := (normalizeReferences unicode [el vessel 4 <|> el vessel 2 <|> el vessel 1]).head?
      portCodes := some (normalizeReferences unicode
        ((segmentsByTag ix "R4").map fun segment => el (some segment) 2 <|> el (some segment) 3)) }
  | _ =>
    { invoiceNumber := el b3 2
      declaredTotal := money D (el b3 7)
      shipmentReferences := some (normalizeReferences unicode [el b3 3])
      carrierCode := el b3 11
      containerNumbers := none
      vesselVoyage := none
      portCodes := none }

/-- The currency of a line; the one of an ocean interchange may be stated anywhere in it. -/
def lineCurrency (set : TransactionSet) (ix : X12Interchange) (l1 : X12Segment) : Option String :=
  match set with
  | .edi310 => el (some l1) 20 <|> el (firstSegment ix "C3") 1
  | _ => some "USD"

def lineLoop : TransactionSet → String
  | .edi310 => "L1"
  | _ => "L0/L1"

variable (categorize : Categorize)

/-- The text has one set, which is of the invoice's kind. Every segment that is read is one of its own: its header
is the invoice's, and its L1 segments are the charges, one each. -/
structure ReadFrom (ix : X12Interchange) (set : List Placed) (inv : ParsedInvoice) : Prop where
  only : transactionSets (placed ix) = [set]
  kind : el (set.head?.map Prod.fst) 1 = some inv.transactionSet.text
  own : ∀ s ∈ segmentsRead inv.transactionSet (placed ix), s ∈ set
  header : headerOf inv = statedHeader D unicode inv.transactionSet (alone ix set)
  charges : inv.charges = (segmentsByTag (alone ix set) "L1").map
    (buildCharge D categorize (lineCurrency inv.transactionSet ix) (lineLoop inv.transactionSet))

/-- Whichever set it is. -/
def ReadFromOneSet (raw : String) (inv : ParsedInvoice) : Prop :=
  ∃ ix set, parseX12 raw = .ok ix ∧ ReadFrom D unicode categorize ix set inv

end

/-! ## Texts with one set -/

/-- From the first ST segment on. -/
def fromSet (l : List Placed) : List Placed := l.dropWhile (·.1.tag ≠ "ST")

def beforeSet (l : List Placed) : List Placed := l.takeWhile (·.1.tag ≠ "ST")

def firstSet (l : List Placed) : List Placed :=
  match fromSet l with
  | [] => []
  | st :: rest => st :: takeSet rest

def afterSet (l : List Placed) : List Placed := (fromSet l).drop (firstSet l).length

/-- One set, with nothing that is read outside of it: no segment of those read by tag, none before it of
those of which the first is read, and none after it where it has none itself. -/
structure OneSetOnly (set : TransactionSet) (l : List Placed) : Prop where
  one : (transactionSets l).length = 1
  each : ∀ s ∈ beforeSet l ++ afterSet l, s.1.tag ∉ readEach set
  before : ∀ s ∈ beforeSet l, s.1.tag ∉ readOnce set
  after : ∀ tag ∈ readOnce set, (∀ s ∈ firstSet l, s.1.tag ≠ tag) → ∀ s ∈ afterSet l, s.1.tag ≠ tag

instance (set : TransactionSet) (l : List Placed) : Decidable (OneSetOnly set l) :=
  decidable_of_iff ((transactionSets l).length = 1 ∧ (∀ s ∈ beforeSet l ++ afterSet l, s.1.tag ∉ readEach set) ∧
      (∀ s ∈ beforeSet l, s.1.tag ∉ readOnce set) ∧
      ∀ tag ∈ readOnce set, (∀ s ∈ firstSet l, s.1.tag ≠ tag) → ∀ s ∈ afterSet l, s.1.tag ≠ tag)
    ⟨fun h => ⟨h.1, h.2.1, h.2.2.1, h.2.2.2⟩, fun h => ⟨h.one, h.each, h.before, h.after⟩⟩

def OneSet (raw : String) (set : TransactionSet) : Prop :=
  ∀ ix, parseX12 raw = .ok ix → OneSetOnly set (placed ix)

/-! ## The first set -/

theorem takeSet_prefix (l : List Placed) : takeSet l <+: l := by
  induction l with
  | nil => exact List.prefix_refl _
  | cons s rest ih =>
    rw [takeSet]
    split
    · exact List.nil_prefix
    split
    · exact List.prefix_append [s] rest
    · exact List.cons_prefix_cons.mpr ⟨rfl, ih⟩

theorem firstSet_prefix (l : List Placed) : firstSet l <+: fromSet l := by
  unfold firstSet
  split
  · exact List.nil_prefix
  · rename_i st rest h
    rw [h]
    exact List.cons_prefix_cons.mpr ⟨rfl, takeSet_prefix rest⟩

/-- A text is what stands before its first set, the set, and what stands after it. -/
theorem split_at_set (l : List Placed) : beforeSet l ++ (firstSet l ++ afterSet l) = l := by
  obtain ⟨rest, hrest⟩ := firstSet_prefix l
  have hafter : afterSet l = rest := by
    rw [afterSet, ← hrest, List.drop_left]
  rw [hafter, hrest]
  exact List.takeWhile_append_dropWhile

theorem transactionSets_head {l : List Placed} {set : List Placed} {more : List (List Placed)}
    (h : transactionSets l = set :: more) : set = firstSet l := by
  induction l with
  | nil => cases h
  | cons s rest ih =>
    rw [transactionSets] at h
    unfold firstSet fromSet
    split at h
    · rename_i hst
      rw [List.dropWhile_cons_of_neg (by simp [hst])]
      exact (List.cons.inj h).1.symm
    · rename_i hst
      rw [List.dropWhile_cons_of_pos (by simp [hst])]
      exact ih h

theorem transactionSets_eq {l set : List Placed} :
    transactionSets l = [set] ↔ (transactionSets l).length = 1 ∧ set = firstSet l := by
  constructor
  · intro h
    exact ⟨by rw [h]; rfl, transactionSets_head h⟩
  · intro h
    obtain ⟨only, honly⟩ := List.length_eq_one_iff.mp h.1
    rw [honly, h.2, transactionSets_head honly]

theorem placed_nodup (ix : X12Interchange) : (placed ix).Nodup := by
  have hplaces : ((placed ix).map Prod.snd).Nodup := by
    rw [placed, List.zipIdx_map_snd]
    exact List.nodup_range'
  exact List.Nodup.of_map _ hplaces

theorem head_firstSet (l : List Placed) : (firstSet l).head? = firstWithTag l "ST" := by
  induction l with
  | nil => rfl
  | cons s rest ih =>
    unfold firstSet fromSet
    rw [firstWithTag, List.find?_cons]
    by_cases hst : s.1.tag = "ST"
    · rw [List.dropWhile_cons_of_neg (by simp [hst]), beq_iff_eq.mpr hst]
      rfl
    · rw [List.dropWhile_cons_of_pos (by simp [hst]), beq_eq_false_iff_ne.mpr hst]
      exact ih

/-! ## Reading by tag -/

section

variable {before set after : List Placed} {tag : String}

theorem mem_withTag {l : List Placed} {s : Placed} : s ∈ withTag l tag ↔ s ∈ l ∧ s.1.tag = tag := by
  rw [withTag, List.mem_filter, beq_iff_eq]

theorem firstWithTag_some {l : List Placed} {s : Placed} (h : firstWithTag l tag = some s) : s ∈ l ∧ s.1.tag = tag :=
  ⟨List.mem_of_find?_eq_some h, by simpa using List.find?_some h⟩

theorem firstWithTag_none {l : List Placed} : firstWithTag l tag = none ↔ ∀ s ∈ l, s.1.tag ≠ tag := by
  rw [firstWithTag, List.find?_eq_none]
  exact forall₂_congr fun s _ => not_congr beq_iff_eq

theorem firstWithTag_append (l m : List Placed) :
    firstWithTag (l ++ m) tag = (firstWithTag l tag).or (firstWithTag m tag) := List.find?_append

variable (hnodup : (before ++ (set ++ after)).Nodup)

include hnodup

theorem not_mem_set {s : Placed} (h : s ∈ before ∨ s ∈ after) : s ∉ set := by
  intro hs
  obtain ⟨-, hrest, hdisjoint⟩ := List.nodup_append.mp hnodup
  rcases h with h | h
  · exact hdisjoint s h s (List.mem_append_left _ hs) rfl
  · exact (List.nodup_append.mp hrest).2.2 s hs s h rfl

/-- Where all segments with the tag are in the set, they are the set's. -/
theorem withTag_own (h : ∀ s ∈ withTag (before ++ (set ++ after)) tag, s ∈ set) :
    withTag (before ++ (set ++ after)) tag = withTag set tag := by
  have hbefore : withTag before tag = [] := by
    refine List.eq_nil_iff_forall_not_mem.mpr fun s hs => not_mem_set hnodup (.inl (mem_withTag.mp hs).1) (h s ?_)
    exact mem_withTag.mpr ⟨List.mem_append_left _ (mem_withTag.mp hs).1, (mem_withTag.mp hs).2⟩
  have hafter : withTag after tag = [] := by
    refine List.eq_nil_iff_forall_not_mem.mpr fun s hs => not_mem_set hnodup (.inr (mem_withTag.mp hs).1) (h s ?_)
    exact mem_withTag.mpr ⟨List.mem_append_right _ (List.mem_append_right _ (mem_withTag.mp hs).1), (mem_withTag.mp hs).2⟩
  unfold withTag at *
  rw [List.filter_append, List.filter_append, hbefore, hafter, List.nil_append, List.append_nil]

/-- Where the first segment with the tag is in the set, it is the set's first. -/
theorem firstWithTag_own (h : ∀ s, firstWithTag (before ++ (set ++ after)) tag = some s → s ∈ set) :
    firstWithTag (before ++ (set ++ after)) tag = firstWithTag set tag := by
  rw [firstWithTag_append, firstWithTag_append] at h ⊢
  cases hbefore : firstWithTag before tag with
  | some s =>
    rw [hbefore] at h
    exact absurd (h s rfl) (not_mem_set hnodup (.inl (firstWithTag_some hbefore).1))
  | none =>
    rw [hbefore, Option.none_or] at h
    rw [Option.none_or]
    cases hset : firstWithTag set tag with
    | some s => rfl
    | none =>
      rw [hset, Option.none_or] at h
      rw [Option.none_or]
      cases hafter : firstWithTag after tag with
      | none => rfl
      | some s => exact absurd (h s hafter) (not_mem_set hnodup (.inr (firstWithTag_some hafter).1))

end

theorem firstSegment_placed (delimiters : X12Delimiters) (l : List Placed) (tag : String) :
    firstSegment ⟨delimiters, l.map Prod.fst⟩ tag = (firstWithTag l tag).map Prod.fst := by
  rw [firstSegment, List.find?_map]
  rfl

theorem segmentsByTag_placed (delimiters : X12Delimiters) (l : List Placed) (tag : String) :
    segmentsByTag ⟨delimiters, l.map Prod.fst⟩ tag = (withTag l tag).map Prod.fst := by
  rw [segmentsByTag, List.filter_map]
  rfl

theorem alone_placed (ix : X12Interchange) : alone ix (placed ix) = ix := by
  rw [alone, placed, List.zipIdx_map_fst]

/-- The segments that are read are the set's exactly if nothing that is read stands outside of it. -/
theorem own_iff {set : TransactionSet} {ix : X12Interchange} (hone : (transactionSets (placed ix)).length = 1) :
    (∀ s ∈ segmentsRead set (placed ix), s ∈ firstSet (placed ix)) ↔ OneSetOnly set (placed ix) := by
  have hsplit := split_at_set (placed ix)
  have hnodup : (beforeSet (placed ix) ++ (firstSet (placed ix) ++ afterSet (placed ix))).Nodup :=
    hsplit.symm ▸ placed_nodup ix
  have hmem (s : Placed) : s ∈ placed ix ↔
      s ∈ beforeSet (placed ix) ∨ s ∈ firstSet (placed ix) ∨ s ∈ afterSet (placed ix) := by
    rw [← List.mem_append, ← List.mem_append, hsplit]
  have hfirst (tag : String) : firstWithTag (placed ix) tag = (firstWithTag (beforeSet (placed ix)) tag).or
      ((firstWithTag (firstSet (placed ix)) tag).or (firstWithTag (afterSet (placed ix)) tag)) := by
    rw [← firstWithTag_append, ← firstWithTag_append, hsplit]
  constructor
  · intro h
    have hread {tag : String} (htag : tag ∈ readOnce set) {s : Placed} (hs : firstWithTag (placed ix) tag = some s) :
        s ∈ firstSet (placed ix) :=
      h s (List.mem_append_left _ (List.mem_filterMap.mpr ⟨tag, htag, hs⟩))
    refine ⟨hone, fun s hs htag => ?_, fun s hs htag => ?_, fun tag htag hnone s hs hs' => ?_⟩
    · have hout := List.mem_append.mp hs
      refine not_mem_set hnodup hout (h s (List.mem_append_right _ (List.mem_flatMap.mpr ⟨_, htag, mem_withTag.mpr ⟨?_, rfl⟩⟩)))
      rw [hmem]
      tauto
    · cases hbefore : firstWithTag (beforeSet (placed ix)) s.1.tag with
      | none => exact firstWithTag_none.mp hbefore s hs rfl
      | some t =>
        refine not_mem_set hnodup (.inl (firstWithTag_some hbefore).1) (hread htag ?_)
        rw [hfirst, hbefore]
        rfl
    · cases hafter : firstWithTag (afterSet (placed ix)) tag with
      | none => exact firstWithTag_none.mp hafter s hs hs'
      | some t =>
        cases hbefore : firstWithTag (beforeSet (placed ix)) tag with
        | some u =>
          have hu : u ∈ firstSet (placed ix) := hread htag (by rw [hfirst, hbefore]; rfl)
          exact not_mem_set hnodup (.inl (firstWithTag_some hbefore).1) hu
        | none =>
          refine not_mem_set hnodup (.inr (firstWithTag_some hafter).1) (hread htag ?_)
          rw [hfirst, hbefore, firstWithTag_none.mpr hnone, hafter]
          rfl
  · intro h s hs
    rcases List.mem_append.mp hs with hs | hs
    · obtain ⟨tag, htag, hfound⟩ := List.mem_filterMap.mp hs
      have hbefore : firstWithTag (beforeSet (placed ix)) tag = none :=
        firstWithTag_none.mpr fun t ht heq => h.before t ht (heq ▸ htag)
      rw [hfirst, hbefore, Option.none_or] at hfound
      cases hset : firstWithTag (firstSet (placed ix)) tag with
      | some t =>
        rw [hset] at hfound
        obtain rfl := Option.some.inj hfound
        exact (firstWithTag_some hset).1
      | none =>
        rw [hset, Option.none_or, firstWithTag_none.mpr (h.after tag htag (firstWithTag_none.mp hset))] at hfound
        cases hfound
    · obtain ⟨tag, htag, hwith⟩ := List.mem_flatMap.mp hs
      obtain ⟨hplaced, rfl⟩ := mem_withTag.mp hwith
      rcases (hmem s).mp hplaced with hout | hin | hout
      · exact absurd htag (h.each s (List.mem_append_left _ hout))
      · exact hin
      · exact absurd htag (h.each s (List.mem_append_right _ hout))

/-! ## What a parsed invoice states -/

section

variable {D : Type} [Decimal D] {unicode : Unicode} {categorize : Categorize} {raw : String} {inv : ParsedInvoice}

/-- The header and the lines that the interchange states, of the kind of its first set. -/
structure Stated (D : Type) [Decimal D] (unicode : Unicode) (categorize : Categorize) (ix : X12Interchange)
    (inv : ParsedInvoice) : Prop where
  kind : el (firstSegment ix "ST") 1 = some inv.transactionSet.text
  header : headerOf inv = statedHeader D unicode inv.transactionSet ix
  charges : inv.charges = (segmentsByTag ix "L1").map
    (buildCharge D categorize (lineCurrency inv.transactionSet ix) (lineLoop inv.transactionSet))

theorem parseEdiEnvelope_ok {expectedGroup : String} {ix : X12Interchange}
    (h : parseEdiEnvelope raw expectedGroup = .ok ix) : parseX12 raw = .ok ix := by
  simp only [parseEdiEnvelope, bind_eq_ok, mapError_eq_ok] at h
  obtain ⟨ix', hparse, h⟩ := h
  split at h
  · rwa [← pure_eq_ok.mp h]
  · simp only [throw_bind, ite_throw_eq_ok, pure_eq_ok] at h
    rwa [← h.2]

theorem buildFooting_ok {declaredTotal : Option String} {charges : List NormalizedCharge} {footing : Footing}
    (h : buildFooting D declaredTotal charges = .ok footing) : footing.declaredTotal = money D declaredTotal := by
  simp only [buildFooting, bind_eq_ok, pure_eq_ok] at h
  obtain ⟨lineSum, -, rfl⟩ := h
  rfl

theorem detectTransactionSet_ok {set : TransactionSet} (h : detectTransactionSet raw = .ok set) {ix : X12Interchange}
    (hparse : parseX12 raw = .ok ix) : el (firstSegment ix "ST") 1 = some set.text := by
  unfold detectTransactionSet at h
  rw [hparse] at h
  dsimp only at h
  split at h
  · rename_i hcode
    rw [hcode, ← pure_eq_ok.mp h]
    rfl
  · rename_i hcode
    rw [hcode, ← pure_eq_ok.mp h]
    rfl
  · cases h

theorem parse210_stated (h : parse210 D unicode raw categorize = .ok inv) :
    inv.transactionSet = .edi210 ∧ ∃ ix, parseX12 raw = .ok ix ∧ headerOf inv = statedHeader D unicode .edi210 ix ∧
      inv.charges = (segmentsByTag ix "L1").map (buildCharge D categorize (lineCurrency .edi210 ix) (lineLoop .edi210)) := by
  simp only [parse210, bind_eq_ok, pure_eq_ok, mapError_eq_ok] at h
  obtain ⟨ix, hix, footing, hfooting, rfl⟩ := h
  refine ⟨rfl, ix, parseEdiEnvelope_ok hix, ?_, rfl⟩
  simp only [headerOf, statedHeader, Option.bind_some, buildFooting_ok hfooting, readB3Header]

theorem parse310_stated (h : parse310 D unicode raw categorize = .ok inv) :
    inv.transactionSet = .edi310 ∧ ∃ ix, parseX12 raw = .ok ix ∧ headerOf inv = statedHeader D unicode .edi310 ix ∧
      inv.charges = (segmentsByTag ix "L1").map (buildCharge D categorize (lineCurrency .edi310 ix) (lineLoop .edi310)) := by
  simp only [parse310, bind_eq_ok, pure_eq_ok, mapError_eq_ok] at h
  obtain ⟨ix, hix, footing, hfooting, rfl⟩ := h
  refine ⟨rfl, ix, parseEdiEnvelope_ok hix, ?_, rfl⟩
  simp only [headerOf, statedHeader, Option.bind_some, buildFooting_ok hfooting, readB3Header]

theorem parseInvoice_stated (h : parseInvoice D unicode raw categorize = .ok inv) :
    ∃ ix, parseX12 raw = .ok ix ∧ Stated D unicode categorize ix inv := by
  simp only [parseInvoice, bind_eq_ok] at h
  obtain ⟨set, hset, h⟩ := h
  have hdetected : set = .edi210 ∨ set = .edi310 := by
    unfold detectTransactionSet at hset
    split at hset
    · cases hset
    · split at hset
      · exact .inl (pure_eq_ok.mp hset).symm
      · exact .inr (pure_eq_ok.mp hset).symm
      · cases hset
  rcases hdetected with rfl | rfl
  · simp only [mapError_eq_ok] at h
    obtain ⟨hkind, ix, hparse, hheader, hcharges⟩ := parse210_stated h
    exact ⟨ix, hparse, by rw [hkind]; exact detectTransactionSet_ok hset hparse, by rw [hkind]; exact hheader,
      by rw [hkind]; exact hcharges⟩
  · simp only [mapError_eq_ok] at h
    obtain ⟨hkind, ix, hparse, hheader, hcharges⟩ := parse310_stated h
    exact ⟨ix, hparse, by rw [hkind]; exact detectTransactionSet_ok hset hparse, by rw [hkind]; exact hheader,
      by rw [hkind]; exact hcharges⟩

/-- What is read is what the set states on its own, where all that is read is the set's. -/
theorem stated_alone {set : TransactionSet} {ix : X12Interchange}
    (hown : ∀ s ∈ segmentsRead set (placed ix), s ∈ firstSet (placed ix)) :
    statedHeader D unicode set ix = statedHeader D unicode set (alone ix (firstSet (placed ix))) ∧
      segmentsByTag ix "L1" = segmentsByTag (alone ix (firstSet (placed ix))) "L1" := by
  have hsplit := split_at_set (placed ix)
  have hnodup : (beforeSet (placed ix) ++ (firstSet (placed ix) ++ afterSet (placed ix))).Nodup :=
    hsplit.symm ▸ placed_nodup ix
  have honce {tag : String} (htag : tag ∈ readOnce set) :
      firstSegment ix tag = firstSegment (alone ix (firstSet (placed ix))) tag := by
    have hfirst := @firstWithTag_own _ _ _ tag hnodup fun s hs => by
      rw [hsplit] at hs
      exact hown s (List.mem_append_left _ (List.mem_filterMap.mpr ⟨tag, htag, hs⟩))
    rw [hsplit] at hfirst
    have hix : firstSegment ix tag = (firstWithTag (placed ix) tag).map Prod.fst := by
      rw [← firstSegment_placed ix.delimiters, ← alone, alone_placed]
    rw [hix, hfirst, alone, firstSegment_placed]
  have heach {tag : String} (htag : tag ∈ readEach set) :
      segmentsByTag ix tag = segmentsByTag (alone ix (firstSet (placed ix))) tag := by
    have hwith := @withTag_own _ _ _ tag hnodup fun s hs => by
      rw [hsplit] at hs
      exact hown s (List.mem_append_right _ (List.mem_flatMap.mpr ⟨tag, htag, hs⟩))
    rw [hsplit] at hwith
    have hix : segmentsByTag ix tag = (withTag (placed ix) tag).map Prod.fst := by
      rw [← segmentsByTag_placed ix.delimiters, ← alone, alone_placed]
    rw [hix, hwith, alone, segmentsByTag_placed]
  cases set with
  | edi310 =>
    refine ⟨?_, heach (by decide)⟩
    simp only [statedHeader, honce (show "B3" ∈ readOnce .edi310 by decide),
      honce (show "V1" ∈ readOnce .edi310 by decide), heach (show "N9" ∈ readEach .edi310 by decide),
      heach (show "N7" ∈ readEach .edi310 by decide), heach (show "R4" ∈ readEach .edi310 by decide)]
  | edi210 =>
    refine ⟨?_, heach (by decide)⟩
    simp only [statedHeader, honce (show "B3" ∈ readOnce .edi210 by decide)]
  | pdf =>
    refine ⟨?_, heach (by decide)⟩
    simp only [statedHeader, honce (show "B3" ∈ readOnce .pdf by decide)]

/-- A parsed invoice is read from one set exactly if its text has one, with nothing that is read outside of it. -/
theorem readFromOneSet_parsed (h : parseInvoice D unicode raw categorize = .ok inv) :
    ReadFromOneSet D unicode categorize raw inv ↔ OneSet raw inv.transactionSet := by
  obtain ⟨ix, hparse, hstated⟩ := parseInvoice_stated h
  constructor
  · intro hread ix' hparse'
    obtain rfl := Except.ok.inj (hparse.symm.trans hparse')
    obtain ⟨ix', set, hparse', hfrom⟩ := hread
    obtain rfl := Except.ok.inj (hparse.symm.trans hparse')
    obtain ⟨hone, rfl⟩ := transactionSets_eq.mp hfrom.only
    exact (own_iff hone).mp hfrom.own
  · intro hone
    have honly := hone ix hparse
    have hown := (own_iff honly.one).mpr honly
    obtain ⟨hheader, hlines⟩ := @stated_alone D _ unicode _ _ hown
    refine ⟨ix, firstSet (placed ix), hparse, transactionSets_eq.mpr ⟨honly.one, rfl⟩, ?_, hown,
      hstated.header.trans hheader, ?_⟩
    · rw [head_firstSet, ← firstSegment_placed ix.delimiters, ← alone, alone_placed]
      exact hstated.kind
    · rw [← hlines]
      exact hstated.charges

end

/-! ## Scored runs -/

/-- The invoice of a scored run, as its manifest holds it. -/
def scoredInvoice (db : IngestDb) (auditRunId : String) : Option ParsedInvoice := do
  let row ← db.audit.manifest? auditRunId
  let result ← row.manifest.get? "result"
  let outcome ← (result.get? "outcome").bind Value.text?
  if outcome = Outcome.SCORED.text then (row.manifest.get? "invoice").bind ParsedInvoice.ofJson else none

section

variable {D : Type} [Decimal D] {unicode : Unicode} {sha256 : String → String} {uuidIn : String → Option String}
  {document : Document} {db db' : IngestDb} {call : IngestCall} {inv : ParsedInvoice}

/-- The invoice of the run is the one that was parsed. -/
theorem scoredInvoice_parsed (h : ingestInvoice sha256 D unicode uuidIn document db call = .ok db')
    (hscored : scoredInvoice db' call.auditRunId = some inv) :
    parseInvoice D unicode document.raw call.categorize = .ok inv := by
  obtain ⟨pin, stored, events, invoice, result, resolvedInputs, audit, events', -, -, hparse, -, hpersist, -, rfl⟩ :=
    ingestInvoice_eq_ok.mp h
  obtain ⟨ruleVersionIds, contractIds, -, -, -, hmanifest⟩ := AuditLedger.persistAuditRun_ok hpersist
  have hinvoice (m : AuditLedger.AuditReplayManifest) : (AuditLedger.jsonb m.toJson).get? "invoice" =
      some (AuditLedger.jsonb m.invoice) := by
    rw [AuditLedger.fieldwise_jsonb.get?]
    simp [AuditLedger.AuditReplayManifest.toJson]
  simp only [scoredInvoice, hmanifest, Option.bind_eq_bind, Option.bind_some, hinvoice, Option.bind_eq_some_iff] at hscored
  obtain ⟨written, -, outcome, -, hread⟩ := hscored
  split at hread
  · have hback : ParsedInvoice.ofJson (AuditLedger.jsonb invoice.toJson) = some invoice :=
      invoice.ofJson_toJson AuditLedger.fieldwise_jsonb
    obtain rfl := Option.some.inj (hback.symm.trans hread)
    exact hparse
  · cases hread

/-- The invoice of a scored run is read from one set of its text exactly if the text has one set, and nothing that is
read stands outside of it. -/
theorem readFromOneSet_iff (h : ingestInvoice sha256 D unicode uuidIn document db call = .ok db')
    (hscored : scoredInvoice db' call.auditRunId = some inv) :
    ReadFromOneSet D unicode call.categorize document.raw inv ↔ OneSet document.raw inv.transactionSet :=
  readFromOneSet_parsed (scoredInvoice_parsed h hscored)

end

/-! ## Two bills in one interchange -/

open AuditLedger (hashText uuidOf)
open RubricResolver (StandardCriterion)

/-- The criteria that a bill that passes the gate is scored by. -/
def scoringCriteria : List StandardCriterion :=
  RubricResolver.STANDARD_RUBRIC.criteria.filter fun c => c.kind = .SCORING

/-- A rule version for each. -/
def standardRules : List AuditLedger.RuleVersionRow :=
  scoringCriteria.zipIdx.map fun c =>
    ⟨uuidOf (toString (40 + c.2)), String.ofList (c.1.criterionKey.toList.map fun x => if x = '.' then '-' else x.toLower), 0,
      hashText⟩

theorem standardRules_key : (standardRules.map AuditLedger.RuleVersionRow.id).Nodup := by decide +kernel

def standardDb : IngestDb where
  audit :=
    { AuditLedger.footingDb [] List.nodup_nil with
      criterionKeys := scoringCriteria.map (·.criterionKey)
      ruleVersions := standardRules
      ruleVersionKey := standardRules_key }
  auditEvents := .empty

def documentOf (raw : String) : Document := ⟨uuidOf "02", raw, hashText⟩

def billCall : IngestCall := motorCall (some "application/edi-x12") (uuidOf "11") (uuidOf "12")

/-- One bill of 100.00. -/
def oneBill : String :=
  "ISA****************>~ST*210~B3**INV-7*S1****100.00****SCAC~L1****100.00~SE~"

/-- A bill of 100.00, and another whose lines cancel out. -/
def twoBills : String :=
  "ISA****************>~ST*210~B3**INV-7*S1****100.00****SCAC~L1****100.00~SE~" ++
    "ST*210~B3**INV-8*S2****0.00****SCAC~L1****25.00~L1****-25.00~SE~"

/-- What a call scores, if it scores anything. -/
def scoredBill (raw : String) : Option ParsedInvoice :=
  (ingestInvoice id Ref .ascii some (documentOf raw) standardDb billCall).toOption.bind fun db =>
    scoredInvoice db billCall.auditRunId

theorem scoredBill_some {raw : String} {inv : ParsedInvoice} (h : scoredBill raw = some inv) :
    ∃ db, ingestInvoice id Ref .ascii some (documentOf raw) standardDb billCall = .ok db ∧
      scoredInvoice db billCall.auditRunId = some inv := by
  obtain ⟨db, hdb, hscored⟩ := Option.bind_eq_some_iff.mp h
  cases hcall : ingestInvoice id Ref .ascii some (documentOf raw) standardDb billCall with
  | error e =>
    rw [hcall] at hdb
    cases hdb
  | ok db' =>
    rw [hcall] at hdb
    obtain rfl := Option.some.inj hdb
    exact ⟨db', rfl, hscored⟩

/-- One bill is scored as what its set states. -/
theorem oneBill_readFromOneSet : ∃ db inv,
    ingestInvoice id Ref .ascii some (documentOf oneBill) standardDb billCall = .ok db ∧
      scoredInvoice db billCall.auditRunId = some inv ∧ inv.charges.length = 1 ∧
      ReadFromOneSet Ref .ascii billCall.categorize oneBill inv := by
  have hbill : (scoredBill oneBill).any (fun inv => decide (inv.transactionSet = .edi210 ∧ inv.charges.length = 1)) = true := by
    decide +kernel
  obtain ⟨inv, hinv, hcharges⟩ := (Option.any_eq_true _ _).mp hbill
  obtain ⟨hset, hlength⟩ := of_decide_eq_true hcharges
  obtain ⟨db, hdb, hscored⟩ := scoredBill_some hinv
  refine ⟨db, inv, hdb, hscored, hlength, (readFromOneSet_iff hdb hscored).mpr ?_⟩
  intro ix hparse
  have hone : (parseX12 oneBill).toOption.all (fun ix => decide (OneSetOnly .edi210 (placed ix))) = true := by
    decide +kernel
  have hix : (parseX12 oneBill).toOption = some ix := congrArg Except.toOption hparse
  rw [hix] at hone
  rw [hset]
  exact of_decide_eq_true hone

/-- Two bills are scored as one invoice, with the lines of both under the number of the first. -/
theorem twoBills_blended : ∃ db inv,
    ingestInvoice id Ref .ascii some (documentOf twoBills) standardDb billCall = .ok db ∧
      scoredInvoice db billCall.auditRunId = some inv ∧ inv.invoiceNumber = some "INV-7" ∧ inv.charges.length = 3 ∧
      ¬ ReadFromOneSet Ref .ascii billCall.categorize twoBills inv := by
  have hbill : (scoredBill twoBills).any (fun inv =>
      decide (inv.invoiceNumber = some "INV-7" ∧ inv.charges.length = 3)) = true := by
    decide +kernel
  have htwo : (parseX12 twoBills).toOption.all (fun ix => decide ((transactionSets (placed ix)).length = 2)) = true := by
    decide +kernel
  obtain ⟨inv, hinv, hcharges⟩ := (Option.any_eq_true _ _).mp hbill
  obtain ⟨hnumber, hlength⟩ := of_decide_eq_true hcharges
  obtain ⟨db, hdb, hscored⟩ := scoredBill_some hinv
  refine ⟨db, inv, hdb, hscored, hnumber, hlength, fun hread => ?_⟩
  obtain ⟨ix, set, hparse, hfrom⟩ := hread
  have hix : (parseX12 twoBills).toOption = some ix := congrArg Except.toOption hparse
  rw [hix] at htwo
  have hsets := of_decide_eq_true htwo
  rw [hfrom.only] at hsets
  cases hsets

end Interchanges
