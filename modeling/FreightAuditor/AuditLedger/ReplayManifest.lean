import FreightAuditor.Library.JsonSchema
import FreightAuditor.Library.ExceptOk

/- The replay manifest of an audit run: what it pins, its schema and its hash.

   A manifest that passed the schema passes again after the database gave it back with its fields in
   another order, and its hash is the same (`AuditReplayManifestSchema_toJson`,
   `replayManifestHash_jsonb`). -/
namespace AuditLedger

open Json

structure Pin where
  id : String
  contentHash : Option String
  deriving DecidableEq

structure SourceDocumentPin where
  id : String
  sha256 : String
  deriving DecidableEq

structure ParserPin where
  transactionSet : String
  version : String

structure RubricPin where
  snapshotId : Option String
  contentHash : Option String
  resolverVersion : Option String

structure AiPin where
  model : String
  promptVersion : String

/-- The schema version is the literal 1. -/
structure AuditReplayManifest where
  auditRunId : String
  clientId : String
  engineSpecVersion : String
  parser : ParserPin
  sourceDocuments : List SourceDocumentPin
  rubric : RubricPin
  ruleVersions : List Pin
  contractVersions : List Pin
  externalValues : List Pin
  crosswalkRows : List Pin
  ai : List AiPin
  resolvedInputs : Value
  invoice : Value
  result : Value

/-! ## The texts it allows -/

def isHexDigit (c : Char) : Bool := ('0' ≤ c && c ≤ '9') || ('a' ≤ c && c ≤ 'f')

/-- `/^[0-9a-f]{8}-[0-9a-f]{4}-[0-9a-f]{4}-[0-9a-f]{4}-[0-9a-f]{12}$/i` -/
def isUuid (text : String) : Bool :=
  let hex (c : Char) := isHexDigit c || ('A' ≤ c && c ≤ 'F')
  text.toList.length == 36 && text.toList.zipIdx.all fun p =>
    if p.2 ∈ [8, 13, 18, 23] then p.1 == '-' else hex p.1

/-- `/^[a-f0-9]{64}$/` -/
def isSha256 (text : String) : Bool := text.toList.length == 64 && text.toList.all isHexDigit

def textWhere (p : String → Bool) (v : Value) : Option String := v.text?.filter p

def postgresUuid : Value → Option String := textWhere isUuid

def nonEmpty : Value → Option String := textWhere (· != "")

/-! ## As JSON -/

def Pin.toJson (pin : Pin) : Value := object [("id", some (.str pin.id)), ("contentHash", pin.contentHash.map .str)]

def SourceDocumentPin.toJson (pin : SourceDocumentPin) : Value :=
  object [("id", some (.str pin.id)), ("sha256", some (.str pin.sha256))]

def ParserPin.toJson (pin : ParserPin) : Value :=
  object [("transactionSet", some (.str pin.transactionSet)), ("version", some (.str pin.version))]

def RubricPin.toJson (pin : RubricPin) : Value :=
  object [("snapshotId", some ((pin.snapshotId.map .str).getD .null)),
    ("contentHash", some ((pin.contentHash.map .str).getD .null)),
    ("resolverVersion", some ((pin.resolverVersion.map .str).getD .null))]

def AiPin.toJson (pin : AiPin) : Value :=
  object [("model", some (.str pin.model)), ("promptVersion", some (.str pin.promptVersion))]

def AuditReplayManifest.toJson (m : AuditReplayManifest) : Value :=
  object [("schemaVersion", some (.ofNumber (.ofNat 1))), ("auditRunId", some (.str m.auditRunId)),
    ("clientId", some (.str m.clientId)), ("engineSpecVersion", some (.str m.engineSpecVersion)),
    ("parser", some m.parser.toJson),
    ("sourceDocuments", some (.arr (m.sourceDocuments.map SourceDocumentPin.toJson))), ("rubric", some m.rubric.toJson),
    ("ruleVersions", some (.arr (m.ruleVersions.map Pin.toJson))),
    ("contractVersions", some (.arr (m.contractVersions.map Pin.toJson))),
    ("externalValues", some (.arr (m.externalValues.map Pin.toJson))),
    ("crosswalkRows", some (.arr (m.crosswalkRows.map Pin.toJson))), ("ai", some (.arr (m.ai.map AiPin.toJson))),
    ("resolvedInputs", some m.resolvedInputs), ("invoice", some m.invoice), ("result", some m.result)]

/-! ## The schema -/

/-- `z.object({...}).strict()`: the fields and no others. -/
def strictObject {α : Type} (keys : List String) (schema : Value → Option α) (v : Value) : Option α :=
  if strict keys v = true then schema v else none

def pin : Value → Option Pin :=
  strictObject ["id", "contentHash"] fun v => do
    let id ← field "id" postgresUuid v
    let contentHash ← field? "contentHash" (textWhere isSha256) v
    return ⟨id, contentHash⟩

def sourceDocumentPin : Value → Option SourceDocumentPin :=
  strictObject ["id", "sha256"] fun v => do
    let id ← field "id" postgresUuid v
    let sha256 ← field "sha256" (textWhere isSha256) v
    return ⟨id, sha256⟩

def parserPin : Value → Option ParserPin :=
  strictObject ["transactionSet", "version"] fun v => do
    let transactionSet ← field "transactionSet" nonEmpty v
    let version ← field "version" nonEmpty v
    return ⟨transactionSet, version⟩

def rubricPin : Value → Option RubricPin :=
  strictObject ["snapshotId", "contentHash", "resolverVersion"] fun v => do
    let snapshotId ← field "snapshotId" (nullable postgresUuid) v
    let contentHash ← field "contentHash" (nullable (textWhere isSha256)) v
    let resolverVersion ← field "resolverVersion" (nullable Value.text?) v
    return ⟨snapshotId, contentHash, resolverVersion⟩

def aiPin : Value → Option AiPin :=
  strictObject ["model", "promptVersion"] fun v => do
    let model ← field "model" nonEmpty v
    let promptVersion ← field "promptVersion" nonEmpty v
    return ⟨model, promptVersion⟩

/-- `z.literal(1)` -/
def literalOne : Value → Option Unit
  | .num t => if t.chars = (DecimalText.NumberText.ofNat 1).chars then some () else none
  | _ => none

def manifestKeys : List String :=
  ["schemaVersion", "auditRunId", "clientId", "engineSpecVersion", "parser", "sourceDocuments", "rubric", "ruleVersions",
    "contractVersions", "externalValues", "crosswalkRows", "ai", "resolvedInputs", "invoice", "result"]

def AuditReplayManifestSchema : Value → Option AuditReplayManifest :=
  strictObject manifestKeys fun v => do
    field "schemaVersion" literalOne v
    let auditRunId ← field "auditRunId" postgresUuid v
    let clientId ← field "clientId" postgresUuid v
    let engineSpecVersion ← field "engineSpecVersion" nonEmpty v
    let parser ← field "parser" parserPin v
    let sourceDocuments ← field "sourceDocuments" (array sourceDocumentPin) v
    let rubric ← field "rubric" rubricPin v
    let ruleVersions ← field "ruleVersions" (array pin) v
    let contractVersions ← field "contractVersions" (array pin) v
    let externalValues ← field "externalValues" (array pin) v
    let crosswalkRows ← field "crosswalkRows" (array pin) v
    let ai ← field "ai" (array aiPin) v
    let resolvedInputs ← field "resolvedInputs" some v
    let invoice ← field "invoice" some v
    let result ← field "result" some v
    return ⟨auditRunId, clientId, engineSpecVersion, parser, sourceDocuments, rubric, ruleVersions, contractVersions,
      externalValues, crosswalkRows, ai, resolvedInputs, invoice, result⟩

/-! ## What passes it -/

def Pin.wellFormed (p : Pin) : Bool := isUuid p.id && p.contentHash.all isSha256

def SourceDocumentPin.wellFormed (p : SourceDocumentPin) : Bool := isUuid p.id && isSha256 p.sha256

def ParserPin.wellFormed (p : ParserPin) : Bool := p.transactionSet != "" && p.version != ""

def RubricPin.wellFormed (p : RubricPin) : Bool := p.snapshotId.all isUuid && p.contentHash.all isSha256

def AiPin.wellFormed (p : AiPin) : Bool := p.model != "" && p.promptVersion != ""

def AuditReplayManifest.wellFormed (m : AuditReplayManifest) : Bool :=
  isUuid m.auditRunId && isUuid m.clientId && m.engineSpecVersion != "" && m.parser.wellFormed &&
    m.sourceDocuments.all SourceDocumentPin.wellFormed && m.rubric.wellFormed && m.ruleVersions.all Pin.wellFormed &&
    m.contractVersions.all Pin.wellFormed && m.externalValues.all Pin.wellFormed &&
    m.crosswalkRows.all Pin.wellFormed && m.ai.all AiPin.wellFormed

/-- The manifest with the values it stores as they are mapped. -/
def AuditReplayManifest.mapJson (f : Value → Value) (m : AuditReplayManifest) : AuditReplayManifest :=
  { m with resolvedInputs := f m.resolvedInputs, invoice := f m.invoice, result := f m.result }

/-- What is read back where a check passes. -/
def checked {α : Type} (c : Bool) (a : α) : Option α := if c = true then some a else none

theorem checked_bind {α β : Type} (c : Bool) (a : α) (g : α → Option β) :
    (checked c a >>= g) = if c = true then g a else none := by
  cases c <;> rfl

section

variable {f : Value → Value} (hf : Fieldwise f)

include hf

theorem textWhere_str (p : String → Bool) (s : String) : textWhere p (f (.str s)) = checked (p s) s := by
  rw [hf.str]
  rfl

theorem field_textWhere {p : String → Bool} {v : Value} {key s : String} (h : v.get? key = some (.str s)) :
    field key (textWhere p) (f v) = checked (p s) s := by
  rw [hf.field h, textWhere_str hf]

theorem field?_textWhere {p : String → Bool} {v : Value} {key : String} {s : Option String}
    (h : v.get? key = s.map .str) : field? key (textWhere p) (f v) = checked (s.all p) s := by
  rw [field?, hf.get?, h]
  cases s with
  | none => rfl
  | some s =>
    simp only [Option.map_some, textWhere_str hf, checked, Option.all_some]
    split <;> rfl

theorem field_nullable_textWhere {p : String → Bool} {v : Value} {key : String} {s : Option String}
    (h : v.get? key = some ((s.map .str).getD .null)) :
    field key (nullable (textWhere p)) (f v) = checked (s.all p) s := by
  rw [hf.field h]
  cases s with
  | none =>
    rw [Option.map_none, Option.getD_none, hf.null]
    rfl
  | some s =>
    rw [Option.map_some, Option.getD_some, hf.str, nullable, ← hf.str, textWhere_str hf, checked, checked,
      Option.all_some]
    · split <;> rfl
    · exact fun h => by cases h

theorem field_array {α : Type} {schema : Value → Option α} {toJson : α → Value} {wellFormed : α → Bool} {v : Value}
    {key : String} {l : List α} (h : v.get? key = some (.arr (l.map toJson)))
    (hread : ∀ a, schema (f (toJson a)) = checked (wellFormed a) a) :
    field key (array schema) (f v) = checked (l.all wellFormed) l := by
  rw [hf.field h, hf.arr, array, List.map_map]
  clear h
  induction l with
  | nil => rfl
  | cons a l ih =>
    rw [List.map_cons, List.mapM_cons, Function.comp_apply, hread, checked_bind, ih, checked_bind, List.all_cons, checked]
    cases wellFormed a <;> cases l.all wellFormed <;> rfl

theorem strictObject_toJson {α : Type} {keys : List String} {schema : Value → Option α}
    {fields : List (String × Option Value)} (h : (fields.map Prod.fst).all keys.contains = true) :
    strictObject keys schema (f (object fields)) = schema (f (object fields)) := by
  rw [strictObject, hf.strict, if_pos (strict_object h)]

theorem pin_toJson (p : Pin) : pin (f p.toJson) = checked p.wellFormed p := by
  rw [pin, Pin.toJson, strictObject_toJson hf (by rfl), ← Pin.toJson, postgresUuid,
    field_textWhere hf (show p.toJson.get? "id" = some (.str p.id) by simp [Pin.toJson]), checked_bind,
    field?_textWhere hf (show p.toJson.get? "contentHash" = p.contentHash.map .str by simp [Pin.toJson]), checked_bind,
    checked, Pin.wellFormed]
  cases isUuid p.id <;> cases p.contentHash.all isSha256 <;> rfl

theorem sourceDocumentPin_toJson (p : SourceDocumentPin) :
    sourceDocumentPin (f p.toJson) = checked p.wellFormed p := by
  rw [sourceDocumentPin, SourceDocumentPin.toJson, strictObject_toJson hf (by rfl), ← SourceDocumentPin.toJson, postgresUuid,
    field_textWhere hf (show p.toJson.get? "id" = some (.str p.id) by simp [SourceDocumentPin.toJson]), checked_bind,
    field_textWhere hf (show p.toJson.get? "sha256" = some (.str p.sha256) by simp [SourceDocumentPin.toJson]),
    checked_bind, checked, SourceDocumentPin.wellFormed]
  cases isUuid p.id <;> cases isSha256 p.sha256 <;> rfl

theorem parserPin_toJson (p : ParserPin) : parserPin (f p.toJson) = checked p.wellFormed p := by
  rw [parserPin, ParserPin.toJson, strictObject_toJson hf (by rfl), ← ParserPin.toJson, nonEmpty,
    field_textWhere hf (show p.toJson.get? "transactionSet" = some (.str p.transactionSet) by simp [ParserPin.toJson]),
    checked_bind, field_textWhere hf (show p.toJson.get? "version" = some (.str p.version) by simp [ParserPin.toJson]),
    checked_bind, checked, ParserPin.wellFormed]
  cases p.transactionSet != "" <;> cases p.version != "" <;> rfl

theorem rubricPin_toJson (p : RubricPin) : rubricPin (f p.toJson) = checked p.wellFormed p := by
  have hresolver : field "resolverVersion" (nullable Value.text?) (f p.toJson) = some p.resolverVersion := by
    rw [hf.field (show p.toJson.get? "resolverVersion" = some ((p.resolverVersion.map .str).getD .null) by
      simp [RubricPin.toJson]), hf.nullable_str]
  rw [rubricPin, RubricPin.toJson, strictObject_toJson hf (by rfl), ← RubricPin.toJson, hresolver, postgresUuid,
    field_nullable_textWhere hf (show p.toJson.get? "snapshotId" = some ((p.snapshotId.map .str).getD .null) by
      simp [RubricPin.toJson]), checked_bind,
    field_nullable_textWhere hf (show p.toJson.get? "contentHash" = some ((p.contentHash.map .str).getD .null) by
      simp [RubricPin.toJson]), checked_bind, checked, RubricPin.wellFormed]
  cases p.snapshotId.all isUuid <;> cases p.contentHash.all isSha256 <;> rfl

theorem aiPin_toJson (p : AiPin) : aiPin (f p.toJson) = checked p.wellFormed p := by
  rw [aiPin, AiPin.toJson, strictObject_toJson hf (by rfl), ← AiPin.toJson, nonEmpty,
    field_textWhere hf (show p.toJson.get? "model" = some (.str p.model) by simp [AiPin.toJson]), checked_bind,
    field_textWhere hf (show p.toJson.get? "promptVersion" = some (.str p.promptVersion) by simp [AiPin.toJson]),
    checked_bind, checked, AiPin.wellFormed]
  cases p.model != "" <;> cases p.promptVersion != "" <;> rfl

theorem field_pins {v : Value} {key : String} {l : List Pin} (h : v.get? key = some (.arr (l.map Pin.toJson))) :
    field key (array pin) (f v) = checked (l.all Pin.wellFormed) l :=
  field_array hf h (pin_toJson hf)

/-- The schema accepts a manifest if its texts are well formed, and gives it back. -/
theorem AuditReplayManifestSchema_toJson (m : AuditReplayManifest) :
    AuditReplayManifestSchema (f m.toJson) = checked m.wellFormed (m.mapJson f) := by
  have hversion : field "schemaVersion" literalOne (f m.toJson) = some () := by
    rw [hf.field (show m.toJson.get? "schemaVersion" = some (.num (.ofNat 1)) by simp [AuditReplayManifest.toJson]; rfl), hf.num,
      literalOne, if_pos rfl]
  have hparser : field "parser" parserPin (f m.toJson) = checked m.parser.wellFormed m.parser := by
    rw [hf.field (show m.toJson.get? "parser" = some m.parser.toJson by simp [AuditReplayManifest.toJson]), parserPin_toJson hf]
  have hrubric : field "rubric" rubricPin (f m.toJson) = checked m.rubric.wellFormed m.rubric := by
    rw [hf.field (show m.toJson.get? "rubric" = some m.rubric.toJson by simp [AuditReplayManifest.toJson]), rubricPin_toJson hf]
  rw [AuditReplayManifestSchema, AuditReplayManifest.toJson, strictObject_toJson hf (by rfl), ← AuditReplayManifest.toJson, hversion, hparser, hrubric,
    postgresUuid, nonEmpty,
    field_textWhere hf (show m.toJson.get? "auditRunId" = some (.str m.auditRunId) by simp [AuditReplayManifest.toJson]),
    field_textWhere hf (show m.toJson.get? "clientId" = some (.str m.clientId) by simp [AuditReplayManifest.toJson]),
    field_textWhere hf (show m.toJson.get? "engineSpecVersion" = some (.str m.engineSpecVersion) by simp [AuditReplayManifest.toJson]),
    field_array hf (show m.toJson.get? "sourceDocuments" =
      some (.arr (m.sourceDocuments.map SourceDocumentPin.toJson)) by simp [AuditReplayManifest.toJson]) (sourceDocumentPin_toJson hf),
    field_pins hf (show m.toJson.get? "ruleVersions" = some (.arr (m.ruleVersions.map Pin.toJson)) by simp [AuditReplayManifest.toJson]),
    field_pins hf (show m.toJson.get? "contractVersions" = some (.arr (m.contractVersions.map Pin.toJson)) by
      simp [AuditReplayManifest.toJson]),
    field_pins hf (show m.toJson.get? "externalValues" = some (.arr (m.externalValues.map Pin.toJson)) by simp [AuditReplayManifest.toJson]),
    field_pins hf (show m.toJson.get? "crosswalkRows" = some (.arr (m.crosswalkRows.map Pin.toJson)) by simp [AuditReplayManifest.toJson]),
    field_array hf (show m.toJson.get? "ai" = some (.arr (m.ai.map AiPin.toJson)) by simp [AuditReplayManifest.toJson]) (aiPin_toJson hf),
    hf.field (show m.toJson.get? "resolvedInputs" = some m.resolvedInputs by simp [AuditReplayManifest.toJson]),
    hf.field (show m.toJson.get? "invoice" = some m.invoice by simp [AuditReplayManifest.toJson]),
    hf.field (show m.toJson.get? "result" = some m.result by simp [AuditReplayManifest.toJson])]
  simp only [checked_bind]
  rw [checked, AuditReplayManifest.wellFormed]
  simp only [Bool.and_eq_true, ite_and]
  rfl

end

/-! ## Its hash -/

def canonicalManifestJson (untrusted : Value) : Option String :=
  (AuditReplayManifestSchema untrusted).map fun m => String.ofList (canonicalText m.toJson)

/-- `none` where the schema throws. -/
def replayManifestHash (sha256 : String → String) (m : AuditReplayManifest) : Option String :=
  (canonicalManifestJson m.toJson).map sha256

/-- `jsonb` keeps shorter keys first, then in byte order. -/
def jsonbKeyLe (a b : String) : Prop := a.utf8ByteSize < b.utf8ByteSize ∨ a.utf8ByteSize = b.utf8ByteSize ∧ a ≤ b

instance : DecidableRel jsonbKeyLe := fun _ _ => inferInstanceAs (Decidable (_ ∨ _ ∧ _))

/-- A value as the database gives it back. -/
def jsonb : Value → Value := reorder jsonbKeyLe

theorem jsonbKeyLe_refl (k : String) : jsonbKeyLe k k := .inr ⟨rfl, String.le_refl _⟩

theorem fieldwise_jsonb : Fieldwise jsonb := fieldwise_reorder jsonbKeyLe_refl

theorem sortKeys_jsonb (v : Value) : sortKeys (jsonb v) = sortKeys v := sortKeys_reorder jsonbKeyLe_refl v

theorem canonicalText_jsonb (v : Value) : canonicalText (jsonb v) = canonicalText v :=
  canonicalText_reorder jsonbKeyLe_refl v

theorem AuditReplayManifest.mapJson_id (m : AuditReplayManifest) : m.mapJson id = m := rfl

theorem replayManifestHash_eq (sha256 : String → String) (m : AuditReplayManifest) :
    replayManifestHash sha256 m = checked m.wellFormed (sha256 (String.ofList (canonicalText m.toJson))) := by
  have hread := AuditReplayManifestSchema_toJson fieldwise_id m
  rw [id, AuditReplayManifest.mapJson_id] at hread
  rw [replayManifestHash, canonicalManifestJson, hread]
  cases m.wellFormed <;> rfl

theorem sortKeys_mapJson_jsonb (m : AuditReplayManifest) : sortKeys (m.mapJson jsonb).toJson = sortKeys m.toJson := by
  rw [AuditReplayManifest.toJson, sortKeys_object, AuditReplayManifest.toJson, sortKeys_object]
  simp only [AuditReplayManifest.mapJson, List.map_cons, Option.map_some, sortKeys_jsonb]

/-- The hash is that of the manifest as it was written. -/
theorem replayManifestHash_jsonb (sha256 : String → String) (m : AuditReplayManifest) :
    replayManifestHash sha256 (m.mapJson jsonb) = replayManifestHash sha256 m := by
  rw [replayManifestHash_eq, replayManifestHash_eq, canonicalText, sortKeys_mapJson_jsonb, ← canonicalText]
  rfl

end AuditLedger
