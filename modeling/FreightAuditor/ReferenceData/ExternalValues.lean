import Mathlib.Data.List.MinMax
import Mathlib.Data.List.Sort
import Mathlib.Data.Prod.Lex
import FreightAuditor.Library.JsText
import FreightAuditor.Library.KeyedTable
import FreightAuditor.Library.PgNumeric

/- Values of external indices: how they are stored, and how they are resolved.

   A value belongs to a source, a business date and an axis key. Storing one sorts the keys
   of its axis key; the resolvers trim and upper-case some of the texts in it, and select by
   `@>`, the newest publication first. -/
namespace ExternalValues

open DecimalJs JsText PgNumeric

/-! ## Axis keys -/

inductive AxisValue where
  | text (s : String)
  | number (q : ℚ)
  | bool (b : Bool)
  | null
  deriving DecidableEq

/-- `Record<string, ExternalAxisValue>`. -/
abbrev AxisKey := KeyedTable (String × AxisValue) Prod.fst

def AxisKey.get? (axisKey : AxisKey) (key : String) : Option AxisValue := (axisKey.find? key).map Prod.snd

theorem replace_key (key : String) (value : AxisValue) (entry : String × AxisValue) :
    (if entry.1 = key then (key, value) else entry).1 = entry.1 := by
  split
  · rename_i h
    exact h.symm
  · rfl

/-- `{ ...axisKey, [key]: value }`. -/
def AxisKey.set (axisKey : AxisKey) (key : String) (value : AxisValue) : AxisKey :=
  match axisKey.insert (key, value) with
  | some extended => extended
  | none => axisKey.update (fun entry => if entry.1 = key then (key, value) else entry) (replace_key key value)

/-- A stored axis key: whatever the column holds. -/
inductive Jsonb where
  | scalar (value : AxisValue)
  | array (elements : List Jsonb)
  | object (fields : List (String × Jsonb))

def Jsonb.isScalar (value : AxisValue) : Jsonb → Bool
  | .scalar v => v = value
  | _ => false

/-- The object has the field with this value. -/
def hasField (fields : List (String × Jsonb)) (entry : String × AxisValue) : Bool :=
  (fields.lookup entry.1).any (Jsonb.isScalar entry.2)

/-- `stored @> axisKey`. -/
def Jsonb.contains (axisKey : AxisKey) : Jsonb → Bool
  | .object fields => axisKey.rows.all (hasField fields)
  | _ => false

/-- `stored = axisKey`. -/
def Jsonb.same (axisKey : AxisKey) : Jsonb → Bool
  | .object fields => axisKey.rows.all (hasField fields) && fields.all fun field => (axisKey.get? field.1).isSome
  | _ => false

def AxisKey.toJsonb (axisKey : AxisKey) : Jsonb := .object (axisKey.rows.map fun entry => (entry.1, .scalar entry.2))

/-! ## The tables -/

/-- A column `numeric(18, 6)`. -/
inductive NumericValue where
  | nan
  | units (n : Numeric 18 6)
  deriving DecidableEq

def NumericValue.text : NumericValue → String
  | .nan => "NaN"
  | .units n => n.text

def NumericValue.ofText (text : String) : Option NumericValue :=
  if text = "NaN" then some .nan else (PgNumeric.ofText 18 6 text).map .units

structure ExternalSource where
  id : ℕ
  code : String

structure ExternalPublication where
  id : ℕ
  publishedAt : ℤ

structure ExternalValue where
  id : ℕ
  sourceId : ℕ
  publicationId : Option ℕ
  axisKey : Jsonb
  value : NumericValue
  publishedFor : ℤ
  recordedAt : ℤ

structure ExternalDb where
  sources : KeyedTable ExternalSource ExternalSource.id
  publications : KeyedTable ExternalPublication ExternalPublication.id
  values : KeyedTable ExternalValue ExternalValue.id

/-- What JavaScript and the database make of the text of a date or an instant, and JavaScript of a text's letters. -/
structure Platform where
  /-- `Date.parse`. -/
  parse : String → Option ℤ
  /-- `::date`, and `::timestamptz`; `none` where the database refuses the text. -/
  date : String → Option ℤ
  timestamptz : String → Option ℤ
  toISOString : ℤ → String
  localeCompare : String → String → Ordering
  toUpperCase : String → String
  toUpperCase_ascii : ∀ s : String, (∀ c ∈ s.toList, c.toNat < 128) →
    toUpperCase s = String.ofList (s.toList.map Char.toUpper)

inductive ExternalValueError where
  | decimal (error : DecimalError)
  | sql
  | publicationValueConflict
  deriving DecidableEq

/-- A key sorts before another, or with it. -/
def keyLe (platform : Platform) (a b : String × AxisValue) : Prop := platform.localeCompare a.1 b.1 ≠ .gt

instance (platform : Platform) : DecidableRel (keyLe platform) := fun a b =>
  inferInstanceAs (Decidable (platform.localeCompare a.1 b.1 ≠ .gt))

theorem canonical_unique (platform : Platform) (axisKey : AxisKey) :
    ((axisKey.rows.insertionSort (keyLe platform)).map Prod.fst).Nodup :=
  ((List.perm_insertionSort _ axisKey.rows).map _).nodup_iff.mpr axisKey.unique

def canonicalAxisKey (platform : Platform) (axisKey : AxisKey) : AxisKey :=
  ⟨axisKey.rows.insertionSort (keyLe platform), canonical_unique platform axisKey⟩

/-! ## Storing -/

structure ExternalValueInput where
  sourceId : ℕ
  publicationId : ℕ
  axisKey : AxisKey
  publishedFor : String
  value : String

structure StoredValue where
  id : ℕ
  value : String

section

variable (D : Type) [Decimal D] (platform : Platform)

def toFixed6 (text : String) : Except ExternalValueError String :=
  ((newDecimal D text).mapError .decimal).map (Decimal.toFixed 6)

/-- `WHERE publication_id = ... AND axis_key = ... AND published_for = ...`. -/
def isValueFor (publicationId : ℕ) (axisKey : AxisKey) (publishedFor : ℤ) (row : ExternalValue) : Bool :=
  row.publicationId = some publicationId ∧ row.axisKey.same axisKey = true ∧ row.publishedFor = publishedFor

/-- The id and the time of recording are the database's. -/
def persistExternalValue (db : ExternalDb) (input : ExternalValueInput) (newId : ℕ) (now : ℤ) :
    Except ExternalValueError (StoredValue × ExternalDb) := do
  let value ← toFixed6 D input.value
  let axisKey := canonicalAxisKey platform input.axisKey
  let some publishedFor := platform.date input.publishedFor | throw .sql
  let some column := NumericValue.ofText value | throw .sql
  match db.values.rows.find? (isValueFor input.publicationId axisKey publishedFor) with
  | none =>
    if (db.sources.find? input.sourceId).isNone ∨ (db.publications.find? input.publicationId).isNone then throw .sql
    let some values := db.values.insert
      ⟨newId, input.sourceId, some input.publicationId, axisKey.toJsonb, column, publishedFor, now⟩ | throw .sql
    return (⟨newId, ← toFixed6 D column.text⟩, { db with values })
  | some existing =>
    let stored ← (newDecimal D existing.value.text).mapError .decimal
    let given ← (newDecimal D value).mapError .decimal
    if !Decimal.equals stored given then throw .publicationValueConflict
    return (⟨existing.id, Decimal.toFixed 6 stored⟩, db)

/-! ## Resolving -/

structure ExternalValueRequest where
  sourceCode : String
  axisKey : AxisKey
  publishedFor : String
  recordedAsOf : Option String

structure ExternalValuePin where
  externalValueId : ℕ
  sourceId : ℕ
  sourceCode : String
  axisKey : AxisKey
  publishedFor : ℤ
  recordedAt : String

inductive UnavailableReason where
  | SOURCE_NOT_CONFIGURED | VALUE_NOT_PUBLISHED | LICENSE_REQUIRED | INVALID_REQUEST
  deriving DecidableEq

inductive ExternalValueResolution where
  | FOUND (value : String) (pin : ExternalValuePin) (resolverVersion : String)
  | UNAVAILABLE (reason : UnavailableReason) (resolverVersion : String)

structure ExternalValueResolver where
  sourceCode : String
  resolverVersion : String
  resolve : ExternalDb → ExternalValueRequest → Except ExternalValueError ExternalValueResolution

/-- The row's source has this code. -/
def ExternalDb.hasSource (db : ExternalDb) (code : String) (row : ExternalValue) : Bool :=
  (db.sources.find? row.sourceId).any (·.code = code)

/-- `ORDER BY COALESCE(ep.published_at, ev.recorded_at) DESC, ev.recorded_at DESC, ev.id DESC`. -/
def ExternalDb.orderKey (db : ExternalDb) (row : ExternalValue) : ℤ ×ₗ ℤ ×ₗ ℕ :=
  toLex ((((row.publicationId.bind db.publications.find?).map (·.publishedAt)).getD row.recordedAt),
    toLex (row.recordedAt, row.id))

/-- The rows the query selects from. -/
def candidates (db : ExternalDb) (sourceCode : String) (axisKey : AxisKey) (publishedFor : ℤ) (cutoff : Option ℤ) :
    List ExternalValue :=
  db.values.rows.filter fun row => db.hasSource sourceCode row ∧ row.axisKey.contains axisKey = true ∧
    row.publishedFor = publishedFor ∧ cutoff.all (row.recordedAt ≤ ·) = true

-- the computable order of the integers, where the complete one is in scope too
local instance (priority := 2000) instPreorderInstant : Preorder ℤ := Int.instLinearOrder.toPreorder

/-- What the three resolvers have in common. `normalize` refuses a request that is not valid, and makes the axis
key that is looked for. -/
def resolveAxis (sourceCode resolverVersion : String) (normalize : AxisKey → Option AxisKey) (db : ExternalDb)
    (request : ExternalValueRequest) : Except ExternalValueError ExternalValueResolution := do
  if request.sourceCode ≠ sourceCode then return .UNAVAILABLE .INVALID_REQUEST resolverVersion
  let some axisKey := normalize request.axisKey | return .UNAVAILABLE .INVALID_REQUEST resolverVersion
  let some publishedFor := platform.date request.publishedFor | throw .sql
  let cutoff := request.recordedAsOf.map platform.timestamptz
  if cutoff = some none then throw .sql
  match (candidates db sourceCode axisKey publishedFor cutoff.join).argmax db.orderKey with
  | none => return .UNAVAILABLE .VALUE_NOT_PUBLISHED resolverVersion
  | some row =>
    return .FOUND (← toFixed6 D row.value.text)
      ⟨row.id, row.sourceId, sourceCode, axisKey, row.publishedFor, platform.toISOString row.recordedAt⟩ resolverVersion

def AxisKey.text? (axisKey : AxisKey) (key : String) : Option String :=
  match axisKey.get? key with
  | some (.text s) => some s
  | _ => none

def EIA_FUEL_RESOLVER_VERSION : String := "eia-fuel-db-v1"

def EiaFuelIndexResolver.normalize (axisKey : AxisKey) : Option AxisKey :=
  if (axisKey.text? "region").isNone then none else some (canonicalAxisKey platform axisKey)

def EiaFuelIndexResolver : ExternalValueResolver where
  sourceCode := "EIA_DIESEL"
  resolverVersion := EIA_FUEL_RESOLVER_VERSION
  resolve := resolveAxis D platform "EIA_DIESEL" EIA_FUEL_RESOLVER_VERSION (EiaFuelIndexResolver.normalize platform)

def MILEAGE_RESOLVER_VERSION : String := "pc-miler-db-v1"

def trimUpper (s : String) : String := platform.toUpperCase (trim s)

def MileageResolver.normalize (axisKey : AxisKey) : Option AxisKey := do
  let origin ← axisKey.text? "origin"
  let destination ← axisKey.text? "destination"
  if trim origin = "" ∨ trim destination = "" then none
  else
    return canonicalAxisKey platform ((axisKey.set "origin" (.text (trimUpper platform origin))).set
      "destination" (.text (trimUpper platform destination)))

def MileageResolver : ExternalValueResolver where
  sourceCode := "PC_MILER"
  resolverVersion := MILEAGE_RESOLVER_VERSION
  resolve := resolveAxis D platform "PC_MILER" MILEAGE_RESOLVER_VERSION (MileageResolver.normalize platform)

inductive OceanIndexSource where
  | OCEAN_BAF | OCEAN_GRI | OCEAN_PSS
  deriving DecidableEq

def OceanIndexSource.text : OceanIndexSource → String
  | .OCEAN_BAF => "OCEAN_BAF" | .OCEAN_GRI => "OCEAN_GRI" | .OCEAN_PSS => "OCEAN_PSS"

def OCEAN_INDEX_RESOLVER_VERSION : String := "ocean-index-db-v1"

/-- `/^[A-Za-z]{3}$/`. -/
def isCurrencyCode (s : String) : Bool := s.toList.length = 3 && s.toList.all Char.isAlpha

def OceanIndexResolver.normalize (axisKey : AxisKey) : Option AxisKey := do
  let tradeLane ← axisKey.text? "trade_lane"
  let currency ← axisKey.text? "currency"
  if trim tradeLane = "" ∨ isCurrencyCode currency = false then none
  else
    return canonicalAxisKey platform ((axisKey.set "trade_lane" (.text (trimUpper platform tradeLane))).set
      "currency" (.text (platform.toUpperCase currency)))

def OceanIndexResolver (sourceCode : OceanIndexSource) : ExternalValueResolver where
  sourceCode := sourceCode.text
  resolverVersion := OCEAN_INDEX_RESOLVER_VERSION
  resolve := resolveAxis D platform sourceCode.text OCEAN_INDEX_RESOLVER_VERSION (OceanIndexResolver.normalize platform)

/-! ## Routing -/

def normalizeSourceCode (sourceCode : String) : String := trimUpper platform sourceCode

abbrev ExternalResolverRegistry := KeyedTable (String × ExternalValueResolver) Prod.fst

/-- The constructor; `none` where it throws. -/
def ExternalResolverRegistry.new (resolvers : List ExternalValueResolver) : Option ExternalResolverRegistry :=
  resolvers.foldlM (fun registry resolver => registry.insert (normalizeSourceCode platform resolver.sourceCode, resolver))
    .empty

/-- The text begins with digits where the shape has `d`, and with its characters elsewhere. -/
def hasShape : List Char → List Char → Bool
  | [], _ => true
  | _ :: _, [] => false
  | 'd' :: shape, c :: text => c.isDigit && hasShape shape text
  | s :: shape, c :: text => s = c && hasShape shape text

def isIsoDate (value : String) : Bool :=
  value.toList.length = 10 && hasShape "dddd-dd-dd".toList value.toList &&
    (platform.parse (value ++ "T00:00:00Z")).isSome

def isIsoTimestamp (value : String) : Bool :=
  hasShape "dddd-dd-ddT".toList value.toList && (platform.parse value).isSome

/-- The dates of the request pass. -/
def ExternalValueRequest.hasIsoDates (request : ExternalValueRequest) : Bool :=
  isIsoDate platform request.publishedFor && request.recordedAsOf.all (isIsoTimestamp platform)

def ExternalResolverRegistry.resolve (registry : ExternalResolverRegistry) (db : ExternalDb)
    (request : ExternalValueRequest) : Except ExternalValueError ExternalValueResolution :=
  let sourceCode := normalizeSourceCode platform request.sourceCode
  match registry.find? sourceCode with
  | none => .ok (.UNAVAILABLE .SOURCE_NOT_CONFIGURED "registry-v1")
  | some (_, resolver) =>
    if !request.hasIsoDates platform then .ok (.UNAVAILABLE .INVALID_REQUEST resolver.resolverVersion)
    else resolver.resolve db { request with sourceCode, axisKey := canonicalAxisKey platform request.axisKey }

end

end ExternalValues
