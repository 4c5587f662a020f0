import FreightAuditor.Library.JsText

/- Minimal X12 EDI reader: the delimiters from the ISA segment, then the segments and
   their elements. A tokenizer, not a schema validator. -/
namespace Ingestion

structure X12Segment where
  tag : String
  /-- The first is the first data element. -/
  elements : List String
  deriving DecidableEq

structure X12Delimiters where
  element : Char
  segment : Char
  component : Char
  deriving DecidableEq

structure X12Interchange where
  delimiters : X12Delimiters
  segments : List X12Segment
  deriving DecidableEq

/-- The text of a `X12ParseError`. -/
structure X12ParseError where
  message : String
  deriving DecidableEq

/-- From the first `ISA` on. -/
def fromIsa : List Char → Option (List Char)
  | [] => none
  | c :: rest => if ['I', 'S', 'A'].isPrefixOf (c :: rest) then some (c :: rest) else fromIsa rest

/-- What follows the `n`-th separator. -/
def afterSeparators (element : Char) : ℕ → List Char → Option (List Char)
  | 0, cs => some cs
  | _ + 1, [] => none
  | n + 1, c :: rest => afterSeparators element (if c == element then n else n + 1) rest

/-- The element separator is the character after `ISA`; ISA16, after 16 of them, is the component
separator, and the character after it ends the segment. -/
def readIsaDelimiters (raw : String) : Except X12ParseError X12Delimiters :=
  match fromIsa raw.toList with
  | none => .error ⟨"no ISA segment found"⟩
  | some isa =>
    match isa.drop 3 with
    | [] => .error ⟨"cannot read element separator from ISA"⟩
    | element :: _ =>
      match afterSeparators element 16 isa with
      | none => .error ⟨"ISA segment is truncated (fewer than 16 elements)"⟩
      | some (component :: segment :: _) => .ok { element, segment, component }
      | some _ => .error ⟨"cannot read ISA16 / segment terminator"⟩

/-- A segment, `none` where the chunk is blank or has no tag. -/
def readSegment (element : Char) (chunk : List Char) : Option X12Segment :=
  match JsText.trimChars chunk with
  | [] => none
  | trimmed =>
    match (trimmed.splitOn element).map String.ofList with
    | [] => none
    | tag :: elements => if tag == "" then none else some { tag, elements }

def parseX12 (raw : String) : Except X12ParseError X12Interchange := do
  let delimiters ← readIsaDelimiters raw
  let segments := (raw.toList.splitOn delimiters.segment).filterMap (readSegment delimiters.element)
  if segments = [] then throw ⟨"no segments parsed"⟩
  return { delimiters, segments }

/-- All segments with the tag, in document order. -/
def segmentsByTag (interchange : X12Interchange) (tag : String) : List X12Segment :=
  interchange.segments.filter (fun s => s.tag == tag)

def firstSegment (interchange : X12Interchange) (tag : String) : Option X12Segment :=
  interchange.segments.find? (fun s => s.tag == tag)

/-- An element by its X12 number, from 1 on; an empty one is absent. -/
def el (segment : Option X12Segment) (n : ℕ) : Option String :=
  match segment.bind (fun s => s.elements[n - 1]?) with
  | some v => if v == "" then none else some v
  | none => none

end Ingestion
