import FreightAuditor.Ingestion.X12
import FreightAuditor.Library.ExceptOk

/- Reading back a written interchange.

   `render` joins the elements of each segment with the element separator and puts the segment
   terminator after it, and after that a line break or nothing. The delimiters are then
   read from the ISA segment, whose sixteenth separator is right before the component
   separator, and the segments from the chunks between the terminators. -/
namespace Ingestion

open ExceptOk JsText

/-- The text of a segment, without its terminator. -/
def segmentText (d : X12Delimiters) (segment : X12Segment) : List Char :=
  [d.element].intercalate ((segment.tag :: segment.elements).map String.toList)

/-- Each segment with its terminator, and the line break that may follow it. -/
def renderChars (d : X12Delimiters) (lines : List (X12Segment × String)) : List Char :=
  lines.flatMap fun line => segmentText d line.1 ++ d.segment :: line.2.toList

def render (d : X12Delimiters) (lines : List (X12Segment × String)) : String := String.ofList (renderChars d lines)

/-- The three are told apart, from each other and from white space. Each is what `charAt` returns, one code unit. -/
structure X12Delimiters.Distinct (d : X12Delimiters) : Prop where
  element_segment : d.element ≠ d.segment
  element_component : d.element ≠ d.component
  segment_component : d.segment ≠ d.component
  visible : ∀ c ∈ [d.element, d.segment, d.component], isWhiteSpace c = false
  unit : ∀ c ∈ [d.element, d.segment, d.component], c.toNat < 0x10000

/-- No delimiter, and no white space at its ends. -/
structure Plain (d : X12Delimiters) (text : String) : Prop where
  apart : ∀ c ∈ [d.element, d.segment, d.component], c ∉ text.toList
  trimmed : trim text = text

/-- A line break of any kind, or none: nothing but white space. -/
def LineBreak (text : String) : Prop := ∀ c ∈ text.toList, isWhiteSpace c = true

/-- What is written: an ISA segment with 16 elements, and other segments after it. -/
structure Writable (d : X12Delimiters) (lines : List (X12Segment × String)) : Prop where
  distinct : d.Distinct
  isa : ∃ elements, (lines.map Prod.fst).head? = some ⟨"ISA", elements ++ [String.singleton d.component]⟩ ∧
    elements.length = 15 ∧ Plain d "ISA" ∧ ∀ e ∈ elements, Plain d e
  others : ∀ segment ∈ (lines.map Prod.fst).tail, segment.tag ≠ "" ∧ Plain d segment.tag ∧ ∀ e ∈ segment.elements, Plain d e
  breaks : ∀ line ∈ lines, LineBreak line.2

/-! ## White space at the ends -/

/-- No white space at the ends. -/
structure Ended (cs : List Char) : Prop where
  head : ∀ c ∈ cs.head?, isWhiteSpace c = false
  last : ∀ c ∈ cs.getLast?, isWhiteSpace c = false

theorem ended_of_trim {text : String} (h : trim text = text) : Ended text.toList := by
  have hchars : trimChars text.toList = text.toList := by
    have htext := congrArg String.toList h
    rwa [trim, String.toList_ofList] at htext
  have hdrop : text.toList.dropWhile isWhiteSpace = text.toList := by
    refine (List.dropWhile_suffix _).eq_of_length (Nat.le_antisymm (List.dropWhile_suffix _).length_le ?_)
    have hlength := (List.rdropWhile_prefix isWhiteSpace (text.toList.dropWhile isWhiteSpace)).length_le
    rwa [show (text.toList.dropWhile isWhiteSpace).rdropWhile isWhiteSpace = text.toList from hchars] at hlength
  have hrdrop : text.toList.rdropWhile isWhiteSpace = text.toList := by
    rw [trimChars, hdrop] at hchars
    exact hchars
  refine ⟨fun c hc => ?_, fun c hc => ?_⟩
  · have hhead : text.toList.head? = some c := hc
    cases htext : text.toList with
    | nil => rw [htext] at hhead; cases hhead
    | cons d rest =>
      rw [htext] at hhead hdrop
      obtain rfl := Option.some.inj hhead
      by_contra hws
      rw [Bool.not_eq_false] at hws
      rw [List.dropWhile_cons_of_pos hws] at hdrop
      have hlength := (List.dropWhile_suffix (l := rest) isWhiteSpace).length_le
      rw [hdrop, List.length_cons] at hlength
      omega
  · have hne : text.toList ≠ [] := fun hnil => by
      rw [hnil] at hc
      cases hc
    have hlast := List.rdropWhile_eq_self_iff.mp hrdrop hne
    have hsome : text.toList.getLast? = some c := hc
    rw [List.getLast?_eq_getLast_of_ne_nil hne] at hsome
    rw [Option.some.inj hsome] at hlast
    exact Bool.eq_false_iff.mpr hlast

theorem trimChars_whiteSpace {cs : List Char} (h : ∀ c ∈ cs, isWhiteSpace c = true) : trimChars cs = [] := by
  rw [trimChars, List.dropWhile_eq_nil_iff.mpr h]
  rfl

/-- White space in front goes, and nothing else. -/
theorem trimChars_lead {lead cs : List Char} (hlead : ∀ c ∈ lead, isWhiteSpace c = true) (hcs : Ended cs) :
    trimChars (lead ++ cs) = cs := by
  have hdrop : (lead ++ cs).dropWhile isWhiteSpace = cs := by
    rw [List.dropWhile_append_of_pos hlead]
    cases cs with
    | nil => rfl
    | cons c rest => exact List.dropWhile_cons_of_neg (by rw [hcs.head c rfl]; exact Bool.false_ne_true)
  rw [trimChars, hdrop, List.rdropWhile_eq_self_iff]
  intro hne
  rw [hcs.last _ (List.getLast?_eq_getLast_of_ne_nil hne)]
  exact Bool.false_ne_true

/-! ## One segment -/

section

variable {d : X12Delimiters}

/-- Joined by what is no white space, parts that do not end in white space do not end in any. -/
theorem getLast?_intercalate {sep : Char} (hsep : isWhiteSpace sep = false) :
    ∀ {parts : List (List Char)}, (∀ part ∈ parts, ∀ c ∈ part.getLast?, isWhiteSpace c = false) →
      ∀ c ∈ ([sep].intercalate parts).getLast?, isWhiteSpace c = false
  | [], _, c, hc => by cases hc
  | [part], h, c, hc => by
    rw [List.intercalate_singleton] at hc
    exact h part (List.mem_singleton_self _) c hc
  | part :: next :: rest, h, c, hc => by
    have ih := @getLast?_intercalate sep hsep (next :: rest) fun p hp => h p (List.mem_cons_of_mem _ hp)
    rw [List.intercalate_cons_cons, List.append_assoc, List.getLast?_append, List.getLast?_append] at hc
    cases hlast : ([sep].intercalate (next :: rest)).getLast? with
    | none =>
      rw [hlast] at hc
      obtain rfl : sep = c := by simpa using hc
      exact hsep
    | some last =>
      rw [hlast] at hc
      obtain rfl : last = c := by simpa using hc
      exact ih last hlast

theorem mem_intercalate {sep c : Char} : ∀ {parts : List (List Char)}, c ∈ [sep].intercalate parts →
    c = sep ∨ ∃ part ∈ parts, c ∈ part
  | [], h => by cases h
  | [part], h => by
    rw [List.intercalate_singleton] at h
    exact .inr ⟨part, List.mem_singleton_self _, h⟩
  | part :: next :: rest, h => by
    rw [List.intercalate_cons_cons, List.append_assoc, List.mem_append, List.mem_append, List.mem_singleton] at h
    rcases h with h | h | h
    · exact .inr ⟨part, List.mem_cons_self, h⟩
    · exact .inl h
    · obtain hsep | ⟨p, hp, hcp⟩ := mem_intercalate h
      · exact .inl hsep
      · exact .inr ⟨p, List.mem_cons_of_mem _ hp, hcp⟩

/-- The parts of a segment, as far as its text is concerned. -/
structure Parted (d : X12Delimiters) (segment : X12Segment) : Prop where
  tag : segment.tag ≠ ""
  element : ∀ part ∈ segment.tag :: segment.elements, d.element ∉ part.toList
  terminator : ∀ part ∈ segment.tag :: segment.elements, d.segment ∉ part.toList
  ended : ∀ part ∈ segment.tag :: segment.elements, Ended part.toList

theorem Parted.split {segment : X12Segment} (h : Parted d segment) :
    (segmentText d segment).splitOn d.element = (segment.tag :: segment.elements).map String.toList := by
  refine List.splitOn_intercalate _ (fun part hpart => ?_) (List.cons_ne_nil _ _)
  obtain ⟨text, htext, rfl⟩ := List.mem_map.mp hpart
  exact h.element text htext

theorem Parted.head {segment : X12Segment} (h : Parted d segment) :
    ∃ c tail, segment.tag.toList = c :: tail ∧ ∃ rest, segmentText d segment = c :: rest := by
  cases htag : segment.tag.toList with
  | nil => exact absurd (String.toList_inj.mp (htag.trans String.toList_empty.symm)) h.tag
  | cons c tail =>
    refine ⟨c, tail, rfl, ?_⟩
    rw [segmentText, List.map_cons, htag]
    cases segment.elements.map String.toList with
    | nil => exact ⟨tail, List.intercalate_singleton⟩
    | cons next others => exact ⟨_, List.intercalate_cons_cons⟩

theorem Parted.ended_text {segment : X12Segment} (h : Parted d segment) (hd : d.Distinct) : Ended (segmentText d segment) := by
  refine ⟨fun c hc => ?_, ?_⟩
  · obtain ⟨c', tail, htag, rest, htext⟩ := h.head
    have hfirst : (segmentText d segment).head? = some c := hc
    rw [htext] at hfirst
    obtain rfl := Option.some.inj hfirst
    exact (h.ended _ List.mem_cons_self).head c' (by rw [htag]; rfl)
  · refine getLast?_intercalate (hd.visible _ List.mem_cons_self) fun part hpart => ?_
    obtain ⟨text, htext, rfl⟩ := List.mem_map.mp hpart
    exact (h.ended text htext).last

/-- The chunk of a segment, after the line break before it. -/
theorem Parted.read {segment : X12Segment} (h : Parted d segment) (hd : d.Distinct) {lead : List Char}
    (hlead : ∀ c ∈ lead, isWhiteSpace c = true) : readSegment d.element (lead ++ segmentText d segment) = some segment := by
  have hparts : ((segmentText d segment).splitOn d.element).map String.ofList = segment.tag :: segment.elements := by
    rw [h.split, List.map_map]
    have hid : String.ofList ∘ String.toList = id := funext fun _ => String.ofList_toList
    rw [hid, List.map_id]
  obtain ⟨c, -, -, rest, htext⟩ := h.head
  rw [readSegment, trimChars_lead hlead (h.ended_text hd), htext]
  rw [htext] at hparts
  simp only [hparts]
  rw [if_neg (by rw [beq_iff_eq]; exact h.tag)]

theorem Parted.terminator_not_mem {segment : X12Segment} (h : Parted d segment) (hd : d.Distinct) :
    d.segment ∉ segmentText d segment := by
  intro hmem
  obtain hsep | ⟨part, hpart, hc⟩ := mem_intercalate hmem
  · exact hd.element_segment hsep.symm
  · obtain ⟨text, htext, rfl⟩ := List.mem_map.mp hpart
    exact h.terminator text htext hc

/-! ## All segments -/

/-- The chunks between the terminators, the first of which has a line break before it. -/
theorem readSegments {lead : List Char} (hd : d.Distinct) (hlead : ∀ c ∈ lead, isWhiteSpace c = true) :
    ∀ {lines : List (X12Segment × String)}, (∀ line ∈ lines, Parted d line.1 ∧ LineBreak line.2) →
      ((lead ++ renderChars d lines).splitOn d.segment).filterMap (readSegment d.element) = lines.map Prod.fst
  | [], _ => by
    have hnot : d.segment ∉ lead := fun hmem => by
      have hvisible := hd.visible d.segment (List.mem_cons_of_mem _ List.mem_cons_self)
      rw [hlead _ hmem] at hvisible
      cases hvisible
    have hblank : readSegment d.element lead = none := by
      rw [readSegment, trimChars_whiteSpace hlead]
    rw [renderChars, List.flatMap_nil, List.append_nil, List.splitOn_eq_singleton hnot,
      List.filterMap_cons_none hblank]
    rfl
  | line :: rest, h => by
    obtain ⟨hparted, hbreak⟩ := h line List.mem_cons_self
    have hnot : d.segment ∉ lead ++ segmentText d line.1 := fun hmem => by
      rcases List.mem_append.mp hmem with hmem | hmem
      · have hvisible := hd.visible d.segment (List.mem_cons_of_mem _ List.mem_cons_self)
        rw [hlead _ hmem] at hvisible
        cases hvisible
      · exact hparted.terminator_not_mem hd hmem
    have hsplit : lead ++ renderChars d (line :: rest) =
        (lead ++ segmentText d line.1) ++ d.segment :: (line.2.toList ++ renderChars d rest) := by
      rw [renderChars, List.flatMap_cons, List.append_assoc, List.append_assoc]
      rfl
    have ih := @readSegments _ hd hbreak rest fun l hl => h l (List.mem_cons_of_mem _ hl)
    rw [hsplit, List.splitOn_append_cons_self_of_not_mem hnot, List.filterMap_cons_some (hparted.read hd hlead), ih]
    rfl

/-! ## The delimiters -/

theorem afterSeparators_skip {element : Char} {n : ℕ} : ∀ {cs : List Char} (rest : List Char), element ∉ cs →
    afterSeparators element (n + 1) (cs ++ element :: rest) = afterSeparators element n rest
  | [], rest, _ => by
    rw [List.nil_append, afterSeparators, if_pos (beq_self_eq_true element)]
  | c :: cs, rest, h => by
    have hne : ¬ (c == element) = true := fun heq => h (eq_of_beq heq ▸ List.mem_cons_self)
    rw [List.cons_append, afterSeparators, if_neg hne]
    exact afterSeparators_skip rest fun hmem => h (List.mem_cons_of_mem _ hmem)

/-- After as many separators as there are parts before the last. -/
theorem afterSeparators_intercalate {element : Char} {last : List Char} (tail : List Char) :
    ∀ {front : List (List Char)}, (∀ part ∈ front, element ∉ part) →
      afterSeparators element front.length ([element].intercalate (front ++ [last]) ++ tail) = some (last ++ tail)
  | [], _ => by
    rw [List.nil_append, List.intercalate_singleton, List.length_nil, afterSeparators]
  | part :: front, h => by
    have ih := @afterSeparators_intercalate element last tail front fun p hp => h p (List.mem_cons_of_mem _ hp)
    have hcons : [element].intercalate (part :: front ++ [last]) ++ tail =
        part ++ element :: ([element].intercalate (front ++ [last]) ++ tail) := by
      cases front with
      | nil => rw [List.cons_append, List.nil_append, List.intercalate_cons_cons, List.append_assoc, List.append_assoc]; rfl
      | cons next others =>
        rw [List.cons_append, List.cons_append, List.intercalate_cons_cons, List.append_assoc, List.append_assoc]
        rfl
    rw [hcons, List.length_cons, afterSeparators_skip _ (h part List.mem_cons_self), ih]

/-- What the reader finds out about the delimiters. -/
theorem readIsaDelimiters_isa {elements : List String} (hlength : elements.length = 15) (tag : d.element ∉ "ISA".toList)
    (helements : ∀ e ∈ elements, d.element ∉ e.toList) (rest : List Char) :
    readIsaDelimiters (String.ofList
      (segmentText d ⟨"ISA", elements ++ [String.singleton d.component]⟩ ++ d.segment :: rest)) = .ok d := by
  have hsplit : segmentText d ⟨"ISA", elements ++ [String.singleton d.component]⟩ =
      [d.element].intercalate (("ISA" :: elements).map String.toList ++ [[d.component]]) := by
    rw [segmentText, ← List.cons_append, List.map_append, List.map_singleton, String.toList_singleton]
  have hapart : ∀ part ∈ ("ISA" :: elements).map String.toList, d.element ∉ part := by
    intro part hpart
    obtain ⟨text, htext, rfl⟩ := List.mem_map.mp hpart
    rcases List.mem_cons.mp htext with rfl | htext
    · exact tag
    · exact helements text htext
  have hafter := @afterSeparators_intercalate _ [d.component] (d.segment :: rest) _ hapart
  rw [List.length_map, List.length_cons, hlength, ← hsplit] at hafter
  obtain ⟨more, hmore⟩ : ∃ more, segmentText d ⟨"ISA", elements ++ [String.singleton d.component]⟩ =
      'I' :: 'S' :: 'A' :: d.element :: more := by
    cases elements with
    | nil => cases hlength
    | cons e es =>
      refine ⟨[d.element].intercalate ((e :: es ++ [String.singleton d.component]).map String.toList), ?_⟩
      have htag : "ISA".toList = ['I', 'S', 'A'] := by decide
      rw [segmentText, List.cons_append, List.map_cons, List.map_cons, List.intercalate_cons_cons, htag]
      rfl
  rw [hmore] at hafter ⊢
  rw [readIsaDelimiters, String.toList_ofList]
  simp only [List.cons_append] at hafter ⊢
  have hfrom : fromIsa ('I' :: 'S' :: 'A' :: d.element :: (more ++ d.segment :: rest)) =
      some ('I' :: 'S' :: 'A' :: d.element :: (more ++ d.segment :: rest)) := rfl
  simp only [hfrom, List.drop_succ_cons, List.drop_zero, hafter]
  rfl

/-! ## Written and read -/

theorem parted_plain {segment : X12Segment} (htag : segment.tag ≠ "")
    (h : ∀ part ∈ segment.tag :: segment.elements, Plain d part) : Parted d segment where
  tag := htag
  element part hpart := (h part hpart).apart _ List.mem_cons_self
  terminator part hpart := (h part hpart).apart _ (List.mem_cons_of_mem _ List.mem_cons_self)
  ended part hpart := ended_of_trim (h part hpart).trimmed

/-- The component separator, which is the last element of the ISA segment, is a delimiter but neither of the two
that segments are read by. -/
theorem parted_isa (hd : d.Distinct) {elements : List String} (htag : Plain d "ISA") (helements : ∀ e ∈ elements, Plain d e) :
    Parted d ⟨"ISA", elements ++ [String.singleton d.component]⟩ := by
  have hcases : ∀ part ∈ "ISA" :: (elements ++ [String.singleton d.component]),
      Plain d part ∨ part.toList = [d.component] := by
    intro part hpart
    rcases List.mem_cons.mp hpart with rfl | hpart
    · exact .inl htag
    · rcases List.mem_append.mp hpart with hpart | hpart
      · exact .inl (helements part hpart)
      · rw [List.mem_singleton.mp hpart]
        exact .inr (String.toList_singleton _)
  have hnamed : "ISA" ≠ "" := by decide
  refine ⟨hnamed, fun part hpart => ?_, fun part hpart => ?_, fun part hpart => ?_⟩
  · rcases hcases part hpart with hplain | hlast
    · exact hplain.apart _ List.mem_cons_self
    · rw [hlast, List.mem_singleton]
      exact hd.element_component
  · rcases hcases part hpart with hplain | hlast
    · exact hplain.apart _ (List.mem_cons_of_mem _ List.mem_cons_self)
    · rw [hlast, List.mem_singleton]
      exact hd.segment_component
  · rcases hcases part hpart with hplain | hlast
    · exact ended_of_trim hplain.trimmed
    · have hvisible := hd.visible d.component (List.mem_cons_of_mem _ (List.mem_cons_of_mem _ List.mem_cons_self))
      rw [hlast]
      exact ⟨fun c hc => Option.some.inj hc ▸ hvisible, fun c hc => Option.some.inj hc ▸ hvisible⟩

/-- Whatever the delimiters and the elements, an interchange that is written is read back. -/
theorem parseX12_render {lines : List (X12Segment × String)} (h : Writable d lines) :
    parseX12 (render d lines) = .ok ⟨d, lines.map Prod.fst⟩ := by
  obtain ⟨elements, hhead, hlength, htag, helements⟩ := h.isa
  cases lines with
  | nil => cases hhead
  | cons first rest =>
    have hfirst : first.1 = ⟨"ISA", elements ++ [String.singleton d.component]⟩ := Option.some.inj hhead
    have hparted : ∀ line ∈ first :: rest, Parted d line.1 ∧ LineBreak line.2 := by
      intro line hline
      refine ⟨?_, h.breaks line hline⟩
      rcases List.mem_cons.mp hline with rfl | hline
      · rw [hfirst]
        exact parted_isa h.distinct htag helements
      · obtain ⟨hne, hplain, hothers⟩ := h.others line.1 (List.mem_map_of_mem hline)
        exact parted_plain hne (List.forall_mem_cons.mpr ⟨hplain, hothers⟩)
    have hread : readIsaDelimiters (render d (first :: rest)) = .ok d := by
      have hchars : renderChars d (first :: rest) =
          segmentText d first.1 ++ d.segment :: (first.2.toList ++ renderChars d rest) := by
        rw [renderChars, List.flatMap_cons, List.append_assoc]
        rfl
      rw [render, hchars, hfirst]
      exact readIsaDelimiters_isa hlength (htag.apart _ List.mem_cons_self)
        (fun e he => (helements e he).apart _ List.mem_cons_self) _
    have hsegments := readSegments h.distinct (List.forall_mem_nil _) hparted
    rw [List.nil_append] at hsegments
    rw [parseX12, hread, ok_bind]
    simp only [render, String.toList_ofList, hsegments]
    rw [List.map_cons, if_neg (List.cons_ne_nil _ _)]
    rfl

end

/-- Empty elements in the middle and at the end, a line break after one segment and none after the others. -/
def freightLines : List (X12Segment × String) :=
  [(⟨"ISA", ["00", "", "00", "", "ZZ", "CARRIER", "ZZ", "SHIPPER", "260101", "1200", "U", "00401", "1", "0", "P", ":"]⟩, "\n"),
    (⟨"GS", ["IM", "", "A B"]⟩, ""), (⟨"B3", ["", "INV-1", "", ""]⟩, "\r\n"), (⟨"SE", []⟩, "")]

theorem plain_of {d : X12Delimiters} {text : String} (helement : d.element ∉ text.toList)
    (hsegment : d.segment ∉ text.toList) (hcomponent : d.component ∉ text.toList) (htrim : trim text = text) : Plain d text :=
  ⟨List.forall_mem_cons.mpr ⟨helement, List.forall_mem_cons.mpr ⟨hsegment, List.forall_mem_singleton.mpr hcomponent⟩⟩, htrim⟩

theorem freightLines_read : parseX12 (render ⟨'*', '~', ':'⟩ freightLines) = .ok ⟨⟨'*', '~', ':'⟩, freightLines.map Prod.fst⟩ := by
  have hvisible : (['*', '~', ':'].all fun c => isWhiteSpace c == false) = true := by decide
  have hunit : (['*', '~', ':'].all fun c => decide (c.toNat < 0x10000)) = true := by decide
  have hisa : ∀ e ∈ ["ISA", "00", "", "00", "", "ZZ", "CARRIER", "ZZ", "SHIPPER", "260101", "1200", "U", "00401", "1", "0", "P"],
      '*' ∉ e.toList ∧ '~' ∉ e.toList ∧ ':' ∉ e.toList ∧ trim e = e := by decide +kernel
  have hothers : ∀ segment ∈ (freightLines.map Prod.fst).tail, segment.tag ≠ "" ∧ ∀ part ∈ segment.tag :: segment.elements,
      '*' ∉ part.toList ∧ '~' ∉ part.toList ∧ ':' ∉ part.toList ∧ trim part = part := by decide +kernel
  have hbreaks : ∀ line ∈ freightLines, line.2.toList.all isWhiteSpace = true := by decide +kernel
  have hplain {text : String} (h : '*' ∉ text.toList ∧ '~' ∉ text.toList ∧ ':' ∉ text.toList ∧ trim text = text) :
      Plain ⟨'*', '~', ':'⟩ text := plain_of h.1 h.2.1 h.2.2.1 h.2.2.2
  have hdistinct : X12Delimiters.Distinct ⟨'*', '~', ':'⟩ :=
    ⟨by decide, by decide, by decide, fun c hc => eq_of_beq (List.all_eq_true.mp hvisible c hc),
      fun c hc => of_decide_eq_true (List.all_eq_true.mp hunit c hc)⟩
  refine parseX12_render ⟨hdistinct,
    ⟨["00", "", "00", "", "ZZ", "CARRIER", "ZZ", "SHIPPER", "260101", "1200", "U", "00401", "1", "0", "P"], rfl, rfl,
      hplain (hisa _ List.mem_cons_self), fun e he => hplain (hisa e (List.mem_cons_of_mem _ he))⟩, ?_, ?_⟩
  · intro segment hsegment
    obtain ⟨htag, hparts⟩ := hothers segment hsegment
    exact ⟨htag, hplain (hparts _ List.mem_cons_self), fun e he => hplain (hparts e (List.mem_cons_of_mem _ he))⟩
  · exact fun line hline => List.all_eq_true.mp (hbreaks line hline)

end Ingestion
