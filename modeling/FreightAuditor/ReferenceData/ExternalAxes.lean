import FreightAuditor.Library.DecimalRef
import FreightAuditor.Library.ExceptOk
import FreightAuditor.ReferenceData.ExternalValues

/- For which axis a value is used.

   The resolvers select by containment, so a value with more keys in its axis can come out
   for one with fewer; and they normalize texts that are stored as they were given, so a
   value is not found again under its own axis unless that was normal already. What holds is
   `usedForItsAxis_iff`: both go well exactly if no row with further keys is the newest of the
   rows for the request, and the axis of what was stored is normal (or a later row answers). -/
namespace ExternalValues

open DecimalJs ExceptOk JsText PgNumeric

/-! ## Axis keys as maps -/

/-- The same keys with the same values. -/
def AxisKey.Same (a b : AxisKey) : Prop := ∀ key, a.get? key = b.get? key

theorem AxisKey.get?_eq_some {axisKey : AxisKey} {key : String} {value : AxisValue} :
    axisKey.get? key = some value ↔ (key, value) ∈ axisKey.rows := by
  rw [AxisKey.get?, Option.map_eq_some_iff]
  constructor
  · rintro ⟨⟨k, v⟩, hfind, rfl⟩
    obtain ⟨hmem, rfl⟩ := KeyedTable.find?_sound hfind
    exact hmem
  · intro h
    exact ⟨(key, value), KeyedTable.find?_eq_some.mpr ⟨h, rfl⟩, rfl⟩

theorem same_canonicalAxisKey (platform : Platform) (axisKey : AxisKey) :
    (canonicalAxisKey platform axisKey).Same axisKey := by
  intro key
  refine Option.ext fun value => ?_
  rw [AxisKey.get?_eq_some, AxisKey.get?_eq_some, canonicalAxisKey, List.mem_insertionSort]

theorem AxisKey.get?_set (axisKey : AxisKey) (key : String) (value : AxisValue) (k : String) :
    (axisKey.set key value).get? k = if key = k then some value else axisKey.get? k := by
  unfold AxisKey.set
  split
  · rename_i extended hinsert
    rw [AxisKey.get?, KeyedTable.find?_insert hinsert]
    split <;> rfl
  · rename_i htaken
    have hfound : (axisKey.find? key).isSome := by
      cases h : axisKey.find? key with
      | some entry => rfl
      | none =>
        obtain ⟨t, ht⟩ := KeyedTable.insert_fresh (a := (key, value)) h
        cases htaken.symm.trans ht
    rw [AxisKey.get?, KeyedTable.find?_update]
    split
    · rename_i hk
      obtain ⟨entry, hentry⟩ := Option.isSome_iff_exists.mp hfound
      rw [← hk, hentry, Option.map_some, if_pos (KeyedTable.find?_sound hentry).2]
      rfl
    · rename_i hk
      cases h : axisKey.find? k with
      | none => rw [AxisKey.get?, h]; rfl
      | some entry =>
        rw [Option.map_some, if_neg, AxisKey.get?, h]
        exact fun he => hk (he ▸ (KeyedTable.find?_sound h).2)

/-- The stored axis key is this one, as a map. -/
def Jsonb.IsAxis (axisKey : AxisKey) (stored : Jsonb) : Prop :=
  ∃ fields, stored = .object fields ∧ ∀ key, fields.lookup key = (axisKey.get? key).map .scalar

theorem Jsonb.IsAxis.congr {a b : AxisKey} {stored : Jsonb} (h : a.Same b) (hs : stored.IsAxis a) : stored.IsAxis b := by
  obtain ⟨fields, rfl, hlookup⟩ := hs
  exact ⟨fields, rfl, fun key => h key ▸ hlookup key⟩

theorem hasField_iff {fields : List (String × Jsonb)} {entry : String × AxisValue} :
    hasField fields entry = true ↔ fields.lookup entry.1 = some (.scalar entry.2) := by
  rw [hasField, Option.any_eq_true]
  constructor
  · rintro ⟨stored, hlookup, hscalar⟩
    cases stored with
    | scalar v => rw [hlookup, of_decide_eq_true hscalar]
    | array elements => cases hscalar
    | object fields => cases hscalar
  · intro h
    exact ⟨_, h, decide_eq_true rfl⟩

theorem contains_iff {axisKey : AxisKey} {stored : Jsonb} :
    stored.contains axisKey = true ↔
      ∃ fields, stored = .object fields ∧ ∀ key value, axisKey.get? key = some value →
        fields.lookup key = some (.scalar value) := by
  cases stored with
  | scalar v => exact ⟨fun h => (by cases h), fun ⟨_, h, _⟩ => (by cases h)⟩
  | array elements => exact ⟨fun h => (by cases h), fun ⟨_, h, _⟩ => (by cases h)⟩
  | object fields =>
    rw [Jsonb.contains, List.all_eq_true]
    constructor
    · intro h
      exact ⟨fields, rfl, fun key value hget => hasField_iff.mp (h _ (AxisKey.get?_eq_some.mp hget))⟩
    · rintro ⟨_, heq, h⟩ entry hentry
      obtain rfl := Jsonb.object.inj heq
      exact hasField_iff.mpr (h _ _ (AxisKey.get?_eq_some.mpr hentry))

theorem lookup_isSome_iff {fields : List (String × Jsonb)} {key : String} :
    (fields.lookup key).isSome ↔ ∃ field ∈ fields, field.1 = key := by
  induction fields with
  | nil => simp
  | cons field rest ih =>
    rw [List.lookup_cons]
    by_cases h : key = field.1
    · simp [h]
    · simp [beq_false_of_ne h, ih, Ne.symm h]

theorem same_iff {axisKey : AxisKey} {stored : Jsonb} : stored.same axisKey = true ↔ stored.IsAxis axisKey := by
  cases stored with
  | scalar v => exact ⟨fun h => (by cases h), fun ⟨_, h, _⟩ => (by cases h)⟩
  | array elements => exact ⟨fun h => (by cases h), fun ⟨_, h, _⟩ => (by cases h)⟩
  | object fields =>
    have hcontains : (axisKey.rows.all (hasField fields) = true) ↔ ∀ key value, axisKey.get? key = some value →
        fields.lookup key = some (.scalar value) := by
      rw [List.all_eq_true]
      exact ⟨fun h key value hget => hasField_iff.mp (h _ (AxisKey.get?_eq_some.mp hget)),
        fun h entry hentry => hasField_iff.mpr (h _ _ (AxisKey.get?_eq_some.mpr hentry))⟩
    rw [Jsonb.same, Bool.and_eq_true, hcontains, List.all_eq_true]
    constructor
    · rintro ⟨hfields, hkeys⟩
      refine ⟨fields, rfl, fun key => ?_⟩
      cases hget : axisKey.get? key with
      | some value => exact hfields key value hget
      | none =>
        rw [Option.map_none, ← Option.not_isSome_iff_eq_none, lookup_isSome_iff]
        rintro ⟨field, hfield, rfl⟩
        have hsome := hkeys field hfield
        rw [hget] at hsome
        cases hsome
    · rintro ⟨_, heq, hlookup⟩
      obtain rfl := Jsonb.object.inj heq
      refine ⟨fun key value hget => by rw [hlookup, hget]; rfl, fun field hfield => ?_⟩
      have hsome : (fields.lookup field.1).isSome := lookup_isSome_iff.mpr ⟨field, hfield, rfl⟩
      rwa [hlookup, Option.isSome_map] at hsome

theorem lookup_map_scalar (entries : List (String × AxisValue)) (key : String) :
    (entries.map fun entry => (entry.1, Jsonb.scalar entry.2)).lookup key =
      ((entries.find? fun entry => entry.1 = key).map Prod.snd).map .scalar := by
  induction entries with
  | nil => rfl
  | cons entry rest ih =>
    rw [List.map_cons, List.lookup_cons, List.find?_cons]
    by_cases h : entry.1 = key
    · simp [h]
    · simp [h, beq_false_of_ne (Ne.symm h), ih]

theorem isAxis_toJsonb (axisKey : AxisKey) : axisKey.toJsonb.IsAxis axisKey :=
  ⟨_, rfl, fun key => lookup_map_scalar axisKey.rows key⟩

/-- A stored axis contains another with the same keys only if it is that one. -/
theorem same_of_contains {a b : AxisKey} {stored : Jsonb} (hs : stored.IsAxis a) (hc : stored.contains b = true)
    (hkeys : ∀ key, (a.get? key).isSome → (b.get? key).isSome) : b.Same a := by
  obtain ⟨fields, rfl, hlookup⟩ := hs
  obtain ⟨_, heq, hfields⟩ := contains_iff.mp hc
  obtain rfl := Jsonb.object.inj heq
  intro key
  cases hb : b.get? key with
  | some value =>
    have hfound := hfields key value hb
    rw [hlookup] at hfound
    obtain ⟨v, hv, hscalar⟩ := Option.map_eq_some_iff.mp hfound
    rw [hv, Jsonb.scalar.inj hscalar]
  | none =>
    cases ha : a.get? key with
    | none => rfl
    | some value =>
      have hsome := hkeys key (by rw [ha]; rfl)
      rw [hb] at hsome
      cases hsome

theorem contains_of_isAxis {axisKey : AxisKey} {stored : Jsonb} (h : stored.IsAxis axisKey) : stored.contains axisKey = true := by
  obtain ⟨fields, rfl, hlookup⟩ := h
  exact contains_iff.mpr ⟨fields, rfl, fun key value hget => by rw [hlookup, hget]; rfl⟩

/-! ## The three resolvers -/

/-- The resolvers of this repository, but for the licence gate. -/
inductive Adapter where
  | eia
  | mileage
  | ocean (sourceCode : OceanIndexSource)

section

variable (D : Type) [Decimal D] (platform : Platform)

def Adapter.resolver : Adapter → ExternalValueResolver
  | .eia => EiaFuelIndexResolver D platform
  | .mileage => MileageResolver D platform
  | .ocean sourceCode => OceanIndexResolver D platform sourceCode

def Adapter.sourceCode : Adapter → String
  | .eia => "EIA_DIESEL"
  | .mileage => "PC_MILER"
  | .ocean sourceCode => sourceCode.text

def Adapter.resolverVersion : Adapter → String
  | .eia => EIA_FUEL_RESOLVER_VERSION
  | .mileage => MILEAGE_RESOLVER_VERSION
  | .ocean _ => OCEAN_INDEX_RESOLVER_VERSION

def Adapter.normalize : Adapter → AxisKey → Option AxisKey
  | .eia => EiaFuelIndexResolver.normalize platform
  | .mileage => MileageResolver.normalize platform
  | .ocean _ => OceanIndexResolver.normalize platform

theorem Adapter.resolver_eq (adapter : Adapter) :
    adapter.resolver D platform = ⟨adapter.sourceCode, adapter.resolverVersion,
      resolveAxis D platform adapter.sourceCode adapter.resolverVersion (adapter.normalize platform)⟩ := by
  cases adapter <;> rfl

theorem normalizeSourceCode_adapter (adapter : Adapter) :
    normalizeSourceCode platform adapter.sourceCode = adapter.sourceCode := by
  have hupper : ∀ s : String, trim s = s → s.toList.all (fun c => c.toNat < 128) = true →
      String.ofList (s.toList.map Char.toUpper) = s → normalizeSourceCode platform s = s := by
    intro s htrim hall hsame
    have hascii : ∀ c ∈ s.toList, c.toNat < 128 := fun c hc => of_decide_eq_true (List.all_eq_true.mp hall c hc)
    rw [normalizeSourceCode, trimUpper, htrim, platform.toUpperCase_ascii s hascii, hsame]
  cases adapter with
  | eia => exact hupper _ (by decide) (by decide) (by decide)
  | mileage => exact hupper _ (by decide) (by decide) (by decide)
  | ocean sourceCode => cases sourceCode <;> exact hupper _ (by decide) (by decide) (by decide)

theorem text?_eq_some {axisKey : AxisKey} {key s : String} (h : axisKey.text? key = some s) :
    axisKey.get? key = some (.text s) := by
  unfold AxisKey.text? at h
  split at h
  · rename_i hget
    rw [hget, Option.some.inj h]
  · cases h

/-- Setting a key that is there changes no keys. -/
theorem isSome_set {axisKey : AxisKey} {key s : String} (h : axisKey.text? key = some s) (value : AxisValue) (k : String) :
    ((axisKey.set key value).get? k).isSome = (axisKey.get? k).isSome := by
  rw [AxisKey.get?_set]
  split
  · rename_i hk
    rw [← hk, text?_eq_some h]
    rfl
  · rfl

theorem text?_set_ne {axisKey : AxisKey} {key k : String} (hne : key ≠ k) (value : AxisValue) :
    (axisKey.set key value).text? k = axisKey.text? k := by
  rw [AxisKey.text?, AxisKey.get?_set, if_neg hne, AxisKey.text?]

/-- Normalizing keeps the keys. -/
theorem Adapter.normalize_keys {adapter : Adapter} {axisKey normalized : AxisKey}
    (h : adapter.normalize platform axisKey = some normalized) (key : String) :
    (normalized.get? key).isSome = (axisKey.get? key).isSome := by
  have htwo : ∀ {k₁ k₂ s₁ s₂ : String} (v₁ v₂ : AxisValue), k₁ ≠ k₂ → axisKey.text? k₁ = some s₁ →
      axisKey.text? k₂ = some s₂ → (((axisKey.set k₁ v₁).set k₂ v₂).get? key).isSome = (axisKey.get? key).isSome := by
    intro k₁ k₂ s₁ s₂ v₁ v₂ hne h₁ h₂
    rw [isSome_set ((text?_set_ne hne v₁).trans h₂), isSome_set h₁]
  cases adapter with
  | eia =>
    simp only [Adapter.normalize, EiaFuelIndexResolver.normalize] at h
    split at h
    · cases h
    · rw [← Option.some.inj h, same_canonicalAxisKey platform axisKey key]
  | mileage =>
    simp only [Adapter.normalize, MileageResolver.normalize] at h
    obtain ⟨origin, horigin, h⟩ := Option.bind_eq_some_iff.mp h
    obtain ⟨destination, hdestination, h⟩ := Option.bind_eq_some_iff.mp h
    split at h
    · cases h
    · rw [← Option.some.inj h, same_canonicalAxisKey platform _ key]
      exact htwo _ _ (by decide) horigin hdestination
  | ocean sourceCode =>
    simp only [Adapter.normalize, OceanIndexResolver.normalize] at h
    obtain ⟨lane, hlane, h⟩ := Option.bind_eq_some_iff.mp h
    obtain ⟨currency, hcurrency, h⟩ := Option.bind_eq_some_iff.mp h
    split at h
    · cases h
    · rw [← Option.some.inj h, same_canonicalAxisKey platform _ key]
      exact htwo _ _ (by decide) hlane hcurrency

end

/-! ## Storing -/

section

variable {D : Type} [Decimal D] {platform : Platform}

/-- What is stored is there, for the axis and the date it was stored for, and so is what was there before. -/
theorem persistExternalValue_stored {db db' : ExternalDb} {input : ExternalValueInput} {newId : ℕ} {now : ℤ}
    {stored : StoredValue} (h : persistExternalValue D platform db input newId now = .ok (stored, db')) :
    ∃ row, db'.values.find? stored.id = some row ∧ row.axisKey.IsAxis input.axisKey ∧
      platform.date input.publishedFor = some row.publishedFor ∧ db.values.rows <+: db'.values.rows := by
  simp only [persistExternalValue] at h
  obtain ⟨value, -, h⟩ := bind_eq_ok.mp h
  cases hdate : platform.date input.publishedFor with
  | none =>
    rw [hdate] at h
    cases h
  | some day =>
    rw [hdate] at h
    dsimp only at h
    cases hcolumn : NumericValue.ofText value with
    | none =>
      rw [hcolumn] at h
      cases h
    | some column =>
      rw [hcolumn] at h
      dsimp only at h
      cases hfind : db.values.rows.find? (isValueFor input.publicationId (canonicalAxisKey platform input.axisKey) day) with
      | none =>
        rw [hfind] at h
        simp only [throw_bind, ite_throw_eq_ok] at h
        obtain ⟨-, h⟩ := h
        cases hinsert : db.values.insert ⟨newId, input.sourceId, some input.publicationId,
            (canonicalAxisKey platform input.axisKey).toJsonb, column, day, now⟩ with
        | none =>
          rw [hinsert] at h
          cases h
        | some values =>
          rw [hinsert] at h
          obtain ⟨text, -, h⟩ := bind_eq_ok.mp h
          cases h
          refine ⟨_, by rw [KeyedTable.find?_insert hinsert, if_pos rfl], ?_, rfl, ?_⟩
          · exact (isAxis_toJsonb _).congr (same_canonicalAxisKey platform input.axisKey)
          · exact ⟨_, (KeyedTable.insert_eq_some hinsert).2.symm⟩
      | some existing =>
        rw [hfind] at h
        obtain ⟨found, -, h⟩ := bind_eq_ok.mp h
        obtain ⟨given, -, h⟩ := bind_eq_ok.mp h
        simp only [throw_bind, ite_throw_eq_ok] at h
        cases h.2
        have hfor := List.find?_some hfind
        simp only [isValueFor, decide_eq_true_eq] at hfor
        refine ⟨existing, KeyedTable.find?_eq_some.mpr ⟨List.mem_of_find?_eq_some hfind, rfl⟩, ?_, ?_, List.prefix_rfl⟩
        · exact (same_iff.mp hfor.2.1).congr (same_canonicalAxisKey platform input.axisKey)
        · rw [hfor.2.2]

/-- Every value of the column is read. -/
theorem toFixed6_column (value : NumericValue) : ∃ text, toFixed6 D value.text = .ok text := by
  cases value with
  | nan =>
    obtain ⟨d, hd, -⟩ := Decimal.ofString_nonFinite (D := D) .nan rfl
    exact ⟨_, by rw [toFixed6, newDecimal, NumericValue.text, show "NaN" = nonFiniteText .nan from rfl, hd]; rfl⟩
  | units n =>
    obtain ⟨l, hl, -⟩ := readsAs_text n
    obtain ⟨d, hd, -⟩ := Decimal.ofString_literal (D := D) n.text l hl
    exact ⟨_, by rw [toFixed6, newDecimal, NumericValue.text, hd]; rfl⟩

end

/-! ## Resolving -/

/-- The instant up to which values count, if there is one; `none` where the database refuses its text. -/
def ExternalValueRequest.cutoff? (platform : Platform) (request : ExternalValueRequest) : Option (Option ℤ) :=
  if request.recordedAsOf.map platform.timestamptz = some none then none
  else some (request.recordedAsOf.map platform.timestamptz).join

/-- What the query of a request asks for. -/
structure AxisQuery where
  axisKey : AxisKey
  publishedFor : ℤ
  cutoff : Option ℤ

section

variable {D : Type} [Decimal D] (platform : Platform) (registry : ExternalResolverRegistry) (db : ExternalDb)
  (request : ExternalValueRequest) (adapter : Adapter)

/-- The axis key that the adapter looks for. -/
def Adapter.axisFor : Option AxisKey := adapter.normalize platform (canonicalAxisKey platform request.axisKey)

/-- The request gets as far as this query. -/
structure Asks (query : AxisQuery) : Prop where
  dates : request.hasIsoDates platform = true
  axisKey : adapter.axisFor platform request = some query.axisKey
  publishedFor : platform.date request.publishedFor = some query.publishedFor
  cutoff : request.cutoff? platform = some query.cutoff

/-- The rows that the query selects from. -/
def Adapter.rowsFor (query : AxisQuery) : List ExternalValue :=
  candidates db adapter.sourceCode query.axisKey query.publishedFor query.cutoff

variable (D) in
/-- The registry takes the request to the adapter. -/
structure Routed : Prop where
  built : ∃ resolvers, ExternalResolverRegistry.new platform resolvers = some registry
  found : (registry.find? (normalizeSourceCode platform request.sourceCode)).map Prod.snd = some (adapter.resolver D platform)

variable {platform registry db request adapter}

theorem new_keys {resolvers : List ExternalValueResolver} (h : ExternalResolverRegistry.new platform resolvers = some registry) :
    ∀ entry ∈ registry.rows, entry.1 = normalizeSourceCode platform entry.2.sourceCode := by
  have hfold : ∀ (resolvers : List ExternalValueResolver) (r r' : ExternalResolverRegistry),
      (∀ entry ∈ r.rows, entry.1 = normalizeSourceCode platform entry.2.sourceCode) →
      resolvers.foldlM (fun registry resolver =>
        registry.insert (normalizeSourceCode platform resolver.sourceCode, resolver)) r = some r' →
      ∀ entry ∈ r'.rows, entry.1 = normalizeSourceCode platform entry.2.sourceCode := by
    intro resolvers
    induction resolvers with
    | nil =>
      intro r r' hr hfold
      rwa [← Option.some.inj hfold]
    | cons resolver rest ih =>
      intro r r' hr hfold
      rw [List.foldlM_cons] at hfold
      obtain ⟨r₁, hinsert, hfold⟩ := Option.bind_eq_some_iff.mp hfold
      refine ih r₁ r' (fun entry hentry => ?_) hfold
      rw [(KeyedTable.insert_eq_some hinsert).2] at hentry
      rcases List.mem_append.mp hentry with hold | hnew
      · exact hr entry hold
      · rw [List.mem_singleton.mp hnew]
  exact hfold resolvers .empty registry (fun _ h => (by cases h)) h

theorem Routed.sourceCode (h : Routed D platform registry request adapter) :
    normalizeSourceCode platform request.sourceCode = adapter.sourceCode := by
  obtain ⟨resolvers, hnew⟩ := h.built
  obtain ⟨⟨code, resolver⟩, hfind, hresolver⟩ := Option.map_eq_some_iff.mp h.found
  obtain ⟨hmem, hcode⟩ := KeyedTable.find?_sound hfind
  have hkey := new_keys hnew _ hmem
  dsimp only at hresolver hcode hkey
  rw [← hcode, hkey, hresolver, Adapter.resolver_eq, normalizeSourceCode_adapter]

theorem Routed.resolve (h : Routed D platform registry request adapter) (db : ExternalDb) :
    registry.resolve platform db request =
      if !request.hasIsoDates platform then .ok (.UNAVAILABLE .INVALID_REQUEST adapter.resolverVersion)
      else resolveAxis D platform adapter.sourceCode adapter.resolverVersion (adapter.normalize platform) db
        ⟨adapter.sourceCode, canonicalAxisKey platform request.axisKey, request.publishedFor, request.recordedAsOf⟩ := by
  obtain ⟨⟨code, resolver⟩, hfind, hresolver⟩ := Option.map_eq_some_iff.mp h.found
  dsimp only at hresolver
  rw [ExternalResolverRegistry.resolve, hfind]
  dsimp only
  rw [hresolver, Adapter.resolver_eq, h.sourceCode]

theorem found_asks (h : Routed D platform registry request adapter) {value : String} {pin : ExternalValuePin}
    {version : String} (hfound : registry.resolve platform db request = .ok (.FOUND value pin version)) :
    ∃ query, Asks platform request adapter query := by
  rw [h.resolve] at hfound
  cases hdates : request.hasIsoDates platform with
  | false =>
    rw [hdates] at hfound
    cases hfound
  | true =>
    rw [hdates, Bool.not_true, if_neg Bool.false_ne_true, resolveAxis, if_neg (not_not.mpr rfl)] at hfound
    dsimp only at hfound
    cases haxis : adapter.normalize platform (canonicalAxisKey platform request.axisKey) with
    | none =>
      rw [haxis] at hfound
      cases hfound
    | some axisKey =>
      rw [haxis] at hfound
      dsimp only at hfound
      cases hdate : platform.date request.publishedFor with
      | none =>
        rw [hdate] at hfound
        cases hfound
      | some day =>
        rw [hdate] at hfound
        dsimp only at hfound
        by_cases hcutoff : request.recordedAsOf.map platform.timestamptz = some none
        · rw [if_pos hcutoff] at hfound
          cases hfound
        · exact ⟨⟨axisKey, day, _⟩, hdates, haxis, hdate, if_neg hcutoff⟩

-- the computable order of the integers, as in the definition of the query
local instance (priority := 2000) instPreorderAnswer : Preorder ℤ := instPreorderInstant

/-- The answer to a request that gets as far as a query. -/
theorem Asks.resolve (h : Routed D platform registry request adapter) (db : ExternalDb) {query : AxisQuery}
    (hasks : Asks platform request adapter query) :
    (∀ value pin version, registry.resolve platform db request = .ok (.FOUND value pin version) →
        ∃ row, (adapter.rowsFor db query).argmax db.orderKey = some row ∧ pin.externalValueId = row.id ∧
          pin.axisKey = query.axisKey) ∧
      ∀ row, (adapter.rowsFor db query).argmax db.orderKey = some row →
        ∃ value pin version, registry.resolve platform db request = .ok (.FOUND value pin version) ∧
          pin.externalValueId = row.id := by
  have hcutoff : request.recordedAsOf.map platform.timestamptz ≠ some none := by
    intro hnone
    have hasked := hasks.cutoff
    rw [ExternalValueRequest.cutoff?, if_pos hnone] at hasked
    cases hasked
  have hjoin : (request.recordedAsOf.map platform.timestamptz).join = query.cutoff := by
    have hasked := hasks.cutoff
    rw [ExternalValueRequest.cutoff?, if_neg hcutoff] at hasked
    exact Option.some.inj hasked
  have haxis : adapter.normalize platform (canonicalAxisKey platform request.axisKey) = some query.axisKey := hasks.axisKey
  have hresolve := h.resolve db
  rw [hasks.dates, Bool.not_true, if_neg Bool.false_ne_true, resolveAxis, if_neg (not_not.mpr rfl)] at hresolve
  dsimp only at hresolve
  rw [haxis] at hresolve
  dsimp only at hresolve
  rw [hasks.publishedFor] at hresolve
  dsimp only at hresolve
  rw [if_neg hcutoff, hjoin] at hresolve
  rw [hresolve, ← Adapter.rowsFor]
  cases hmax : (adapter.rowsFor db query).argmax db.orderKey with
  | none =>
    dsimp only
    refine ⟨fun value pin version hfound => ?_, fun row hrow => (by cases hrow)⟩
    cases hfound
  | some row =>
    dsimp only
    obtain ⟨text, htext⟩ := toFixed6_column (D := D) row.value
    rw [htext]
    refine ⟨fun value pin version hfound => ?_, fun row' hrow => ?_⟩
    · cases hfound
      exact ⟨row, rfl, rfl, rfl⟩
    · obtain rfl := Option.some.inj hrow
      exact ⟨text, _, _, rfl, rfl⟩

theorem mem_rowsFor {query : AxisQuery} {row : ExternalValue} :
    row ∈ adapter.rowsFor db query ↔ row ∈ db.values.rows ∧ db.hasSource adapter.sourceCode row = true ∧
      row.axisKey.contains query.axisKey = true ∧ row.publishedFor = query.publishedFor ∧
      query.cutoff.all (row.recordedAt ≤ ·) = true := by
  rw [Adapter.rowsFor, candidates, List.mem_filter, decide_eq_true_iff]

theorem orderKey_inj {a b : ExternalValue} (ha : a ∈ db.values.rows) (hb : b ∈ db.values.rows)
    (h : db.orderKey a = db.orderKey b) : a = b := by
  refine KeyedTable.eq_of_key ha hb ?_
  have htail := congrArg (fun k => (ofLex (ofLex k).2).2) h
  exact htail

end

/-! ## Values and their axes -/

section

variable (D : Type) [Decimal D] (platform : Platform) (registry : ExternalResolverRegistry) (db : ExternalDb)
  (request : ExternalValueRequest) (adapter : Adapter)

/-- A value that is found was published for what was asked for: the row has the source, the date and the axis
key, after the adapter's normalizing, of the request, and the axis key that the pin records. -/
def FoundForItsAxis : Prop :=
  ∀ value pin version, registry.resolve platform db request = .ok (.FOUND value pin version) →
    ∃ row axisKey, db.values.find? pin.externalValueId = some row ∧
      db.hasSource (normalizeSourceCode platform request.sourceCode) row = true ∧
      platform.date request.publishedFor = some row.publishedFor ∧
      adapter.axisFor platform request = some axisKey ∧ row.axisKey.IsAxis axisKey ∧ row.axisKey.IsAxis pin.axisKey

/-- The row is what `persistExternalValue` stored, some time before, for the axis and the date of the request, whose
source is the row's and whose cutoff is not before the row. -/
structure StoredFor (row : ExternalValue) : Prop where
  stored : ∃ earlier later input newId now stored,
    persistExternalValue D platform earlier input newId now = .ok (stored, later) ∧ stored.id = row.id ∧
      (∀ id r, later.values.find? id = some r → db.values.find? id = some r) ∧ input.axisKey.Same request.axisKey ∧
      platform.date input.publishedFor = platform.date request.publishedFor
  found : db.values.find? row.id = some row
  source : db.hasSource (normalizeSourceCode platform request.sourceCode) row = true
  dates : request.hasIsoDates platform = true
  cutoff : ∃ cutoff, request.cutoff? platform = some cutoff ∧ cutoff.all (row.recordedAt ≤ ·) = true

/-- The answer is the row, or one that comes before it in the order of the query. -/
def FoundAgain (row : ExternalValue) : Prop :=
  ∃ value pin version row', registry.resolve platform db request = .ok (.FOUND value pin version) ∧
    db.values.find? pin.externalValueId = some row' ∧ db.orderKey row ≤ db.orderKey row'

/-- A value is used for the axis it was published for, and for that one. -/
structure UsedForItsAxis : Prop where
  found : FoundForItsAxis platform registry db request adapter
  again : ∀ row, StoredFor D platform db request row → FoundAgain platform registry db request row

/-- Every row that has further keys comes after one that has exactly those of the request. -/
def NotShadowed : Prop :=
  ∀ query, Asks platform request adapter query → ∀ row ∈ adapter.rowsFor db query, ¬ row.axisKey.IsAxis query.axisKey →
    ∃ row' ∈ adapter.rowsFor db query, row'.axisKey.IsAxis query.axisKey ∧ db.orderKey row < db.orderKey row'

/-- The adapter accepts the axis of the request, and it is normal, or a row for the normal one comes before this row. -/
def NormalAxis (row : ExternalValue) : Prop :=
  ∃ query, Asks platform request adapter query ∧
    (query.axisKey.Same request.axisKey ∨ ∃ row' ∈ adapter.rowsFor db query, db.orderKey row < db.orderKey row')

variable {D platform registry db request adapter}

theorem foundForItsAxis_iff (h : Routed D platform registry request adapter) :
    FoundForItsAxis platform registry db request adapter ↔ NotShadowed platform db request adapter := by
  constructor
  · intro hfound query hasks row hrow hextra
    obtain ⟨-, hresolve⟩ := hasks.resolve h db
    obtain ⟨newest, hmax⟩ : ∃ newest, (adapter.rowsFor db query).argmax db.orderKey = some newest := by
      cases hmax : (adapter.rowsFor db query).argmax db.orderKey with
      | some newest => exact ⟨newest, rfl⟩
      | none =>
        rw [List.argmax_eq_none.mp hmax] at hrow
        cases hrow
    obtain ⟨value, pin, version, hanswer, hpin⟩ := hresolve newest hmax
    obtain ⟨row', axisKey, hfind, -, -, haxis, hsame, -⟩ := hfound value pin version hanswer
    have hnewest := List.argmax_mem hmax
    obtain rfl : newest = row' :=
      KeyedTable.eq_of_key (mem_rowsFor.mp hnewest).1 (KeyedTable.find?_sound hfind).1
        (hpin.symm.trans (KeyedTable.find?_sound hfind).2.symm)
    obtain rfl := Option.some.inj (hasks.axisKey.symm.trans haxis)
    refine ⟨newest, hnewest, hsame, lt_of_le_of_ne (List.le_of_mem_argmax hrow hmax) fun heq => hextra ?_⟩
    rw [orderKey_inj (mem_rowsFor.mp hrow).1 (mem_rowsFor.mp hnewest).1 heq]
    exact hsame
  · intro hshadow value pin version hanswer
    obtain ⟨query, hasks⟩ := found_asks h hanswer
    obtain ⟨hfound, -⟩ := hasks.resolve h db
    obtain ⟨newest, hmax, hid, hpinned⟩ := hfound value pin version hanswer
    have hnewest := List.argmax_mem hmax
    obtain ⟨hmem, hsource, -, hdate, -⟩ := mem_rowsFor.mp hnewest
    have hsame : newest.axisKey.IsAxis query.axisKey := by
      by_contra hextra
      obtain ⟨row', hrow', -, hlt⟩ := hshadow query hasks newest hnewest hextra
      exact absurd hlt (not_lt_of_ge (List.le_of_mem_argmax hrow' hmax))
    refine ⟨newest, query.axisKey, ?_, h.sourceCode ▸ hsource, hdate ▸ hasks.publishedFor, hasks.axisKey, hsame,
      hpinned ▸ hsame⟩
    exact KeyedTable.find?_eq_some.mpr ⟨hmem, hid.symm⟩

theorem StoredFor.isAxis {row : ExternalValue} (hs : StoredFor D platform db request row) :
    row.axisKey.IsAxis request.axisKey ∧ platform.date request.publishedFor = some row.publishedFor := by
  obtain ⟨earlier, later, input, newId, now, stored, hpersist, hid, hkept, haxis, hdate⟩ := hs.stored
  obtain ⟨r, hfind, hsame, hday, -⟩ := persistExternalValue_stored hpersist
  have hnow := hkept _ _ hfind
  rw [hid, hs.found] at hnow
  obtain rfl := Option.some.inj hnow
  exact ⟨hsame.congr haxis, hdate ▸ hday⟩

theorem foundAgain_iff (h : Routed D platform registry request adapter) {row : ExternalValue}
    (hs : StoredFor D platform db request row) :
    FoundAgain platform registry db request row ↔ NormalAxis platform db request adapter row := by
  obtain ⟨hrowAxis, hday⟩ := hs.isAxis
  obtain ⟨hmem, -⟩ := KeyedTable.find?_sound hs.found
  constructor
  · rintro ⟨value, pin, version, row', hanswer, hfind, hle⟩
    obtain ⟨query, hasks⟩ := found_asks h hanswer
    obtain ⟨newest, hmax, hid, -⟩ := (hasks.resolve h db).1 value pin version hanswer
    have hnewest := List.argmax_mem hmax
    obtain ⟨hnewestMem, -, hcontains, -⟩ := mem_rowsFor.mp hnewest
    obtain rfl : newest = row' :=
      KeyedTable.eq_of_key hnewestMem (KeyedTable.find?_sound hfind).1 (hid.symm.trans (KeyedTable.find?_sound hfind).2.symm)
    refine ⟨query, hasks, ?_⟩
    by_cases heq : db.orderKey row = db.orderKey newest
    · left
      obtain rfl := orderKey_inj hmem hnewestMem heq
      refine same_of_contains hrowAxis hcontains fun key hkey => ?_
      rw [adapter.normalize_keys platform hasks.axisKey, same_canonicalAxisKey platform request.axisKey key]
      exact hkey
    · exact .inr ⟨newest, hnewest, lt_of_le_of_ne hle heq⟩
  · rintro ⟨query, hasks, hnormal⟩
    obtain ⟨row', hrow', hle⟩ : ∃ row' ∈ adapter.rowsFor db query, db.orderKey row ≤ db.orderKey row' := by
      rcases hnormal with hsame | ⟨row', hrow', hlt⟩
      · obtain ⟨cutoff, hcutoff, hbefore⟩ := hs.cutoff
        obtain rfl := Option.some.inj (hasks.cutoff.symm.trans hcutoff)
        refine ⟨row, mem_rowsFor.mpr ⟨hmem, h.sourceCode ▸ hs.source, ?_, ?_, hbefore⟩, le_refl _⟩
        · exact contains_of_isAxis (hrowAxis.congr fun key => (hsame key).symm)
        · exact Option.some.inj (hday.symm.trans hasks.publishedFor)
      · exact ⟨row', hrow', hlt.le⟩
    obtain ⟨newest, hmax⟩ : ∃ newest, (adapter.rowsFor db query).argmax db.orderKey = some newest := by
      cases hmax : (adapter.rowsFor db query).argmax db.orderKey with
      | some newest => exact ⟨newest, rfl⟩
      | none =>
        rw [List.argmax_eq_none.mp hmax] at hrow'
        cases hrow'
    obtain ⟨value, pin, version, hanswer, hid⟩ := (hasks.resolve h db).2 newest hmax
    refine ⟨value, pin, version, newest, hanswer, ?_, hle.trans (List.le_of_mem_argmax hrow' hmax)⟩
    exact KeyedTable.find?_eq_some.mpr ⟨(mem_rowsFor.mp (List.argmax_mem hmax)).1, hid.symm⟩

/-- Values are used for their axes exactly if no row with further keys is the newest, and every axis that something
was stored for is normal. -/
theorem usedForItsAxis_iff (h : Routed D platform registry request adapter) :
    UsedForItsAxis D platform registry db request adapter ↔
      NotShadowed platform db request adapter ∧
        ∀ row, StoredFor D platform db request row → NormalAxis platform db request adapter row := by
  rw [← foundForItsAxis_iff h]
  constructor
  · rintro ⟨hfound, hagain⟩
    exact ⟨hfound, fun row hs => (foundAgain_iff h hs).mp (hagain row hs)⟩
  · rintro ⟨hfound, hnormal⟩
    exact ⟨hfound, fun row hs => (foundAgain_iff h hs).mpr (hnormal row hs)⟩

end

/-! ## Two values that are not -/

/-- Letters of ASCII, and dates by their length. -/
def asciiPlatform : Platform where
  parse s := some s.length
  date s := some s.length
  timestamptz s := some s.length
  toISOString _ := ""
  localeCompare a b := compare a b
  toUpperCase s := String.ofList (s.toList.map Char.toUpper)
  toUpperCase_ascii := fun _ _ => rfl

def axisOf (entries : List (String × AxisValue)) : AxisKey :=
  entries.foldl (fun axisKey entry => axisKey.set entry.1 entry.2) .empty

theorem two_inRange : |(2000000 : ℤ)| < 10 ^ 18 := by decide

/-- The value 2, published for this axis. -/
def two (axisKey : AxisKey) : ExternalValue := ⟨1, 1, some 1, axisKey.toJsonb, .units ⟨2000000, two_inRange⟩, 10, 0⟩

def onlyTwo (code : String) (axisKey : AxisKey) : ExternalDb where
  sources := ⟨[⟨1, code⟩], List.nodup_singleton _⟩
  publications := ⟨[⟨1, 0⟩], List.nodup_singleton _⟩
  values := ⟨[two axisKey], List.nodup_singleton _⟩

/-- The registry of one adapter. -/
def registryOf (adapter : Adapter) : ExternalResolverRegistry :=
  ⟨[(adapter.sourceCode, adapter.resolver Ref asciiPlatform)], List.nodup_singleton _⟩

def requestFor (adapter : Adapter) (axisKey : AxisKey) : ExternalValueRequest :=
  ⟨adapter.sourceCode, axisKey, "2026-08-24", none⟩

theorem routed_registryOf (adapter : Adapter) (axisKey : AxisKey) :
    Routed Ref asciiPlatform (registryOf adapter) (requestFor adapter axisKey) adapter where
  built := by
    refine ⟨[adapter.resolver Ref asciiPlatform], ?_⟩
    have hcode : normalizeSourceCode asciiPlatform (adapter.resolver Ref asciiPlatform).sourceCode = adapter.sourceCode := by
      rw [Adapter.resolver_eq, normalizeSourceCode_adapter]
    rw [ExternalResolverRegistry.new, List.foldlM_cons, hcode]
    rfl
  found := by
    rw [KeyedTable.find?, registryOf, List.find?_cons_of_pos (by simp [requestFor, normalizeSourceCode_adapter])]
    rfl

theorem requestFor_hasIsoDates (adapter : Adapter) (axisKey : AxisKey) :
    (requestFor adapter axisKey).hasIsoDates asciiPlatform = true :=
  Bool.and_eq_true_iff.mpr ⟨(by decide +kernel : isIsoDate asciiPlatform "2026-08-24" = true), rfl⟩

theorem asks_requestFor {adapter : Adapter} {axisKey normalized : AxisKey}
    (h : adapter.axisFor asciiPlatform (requestFor adapter axisKey) = some normalized) :
    Asks asciiPlatform (requestFor adapter axisKey) adapter ⟨normalized, 10, none⟩ where
  dates := requestFor_hasIsoDates adapter axisKey
  axisKey := h
  publishedFor := (by decide +kernel : asciiPlatform.date "2026-08-24" = some 10)
  cutoff := rfl

theorem mem_rowsFor_onlyTwo {adapter : Adapter} {query : AxisQuery} {code : String} {axisKey : AxisKey} {row : ExternalValue}
    (h : row ∈ adapter.rowsFor (onlyTwo code axisKey) query) : row = two axisKey :=
  List.mem_singleton.mp (mem_rowsFor.mp h).1

/-- Where a value is asked for by its own axis, and that is normal, all is well. -/
theorem padd1_used :
    UsedForItsAxis Ref asciiPlatform (registryOf .eia) (onlyTwo "EIA_DIESEL" (axisOf [("region", .text "PADD1")]))
      (requestFor .eia (axisOf [("region", .text "PADD1")])) .eia := by
  have hnormal : ∀ axisKey, Adapter.eia.axisFor asciiPlatform (requestFor .eia (axisOf [("region", .text "PADD1")])) =
      some axisKey → axisKey.Same (axisOf [("region", .text "PADD1")]) := by
    intro axisKey haxis key
    obtain rfl := Option.some.inj haxis
    rw [same_canonicalAxisKey, same_canonicalAxisKey]
    rfl
  refine (usedForItsAxis_iff (routed_registryOf .eia _)).mpr ⟨fun query hasks row hrow hextra => absurd ?_ hextra,
    fun row hs => ⟨_, asks_requestFor rfl, .inl (hnormal _ rfl)⟩⟩
  rw [mem_rowsFor_onlyTwo hrow]
  exact (isAxis_toJsonb _).congr fun key => (hnormal _ hasks.axisKey key).symm

def chicagoDallas : AxisKey := axisOf [("origin", .text "Chicago"), ("destination", .text "Dallas")]

/-- Storing the value a second time is the storing of the row that is there. -/
theorem chicagoDallas_storedFor :
    StoredFor Ref asciiPlatform (onlyTwo "PC_MILER" chicagoDallas) (requestFor .mileage chicagoDallas) (two chicagoDallas) where
  stored := by
    have hrun : ((persistExternalValue Ref asciiPlatform (onlyTwo "PC_MILER" chicagoDallas)
        ⟨1, 1, chicagoDallas, "2026-08-24", "2"⟩ 2 0).toOption.map fun r => (r.1.id, r.2.values.rows.length)) = some (1, 1) := by
      decide +kernel
    cases hpersist : persistExternalValue Ref asciiPlatform (onlyTwo "PC_MILER" chicagoDallas)
        ⟨1, 1, chicagoDallas, "2026-08-24", "2"⟩ 2 0 with
    | error e =>
      rw [hpersist] at hrun
      cases hrun
    | ok result =>
      rw [hpersist] at hrun
      obtain ⟨hid, hlength⟩ := Prod.mk.inj (Option.some.inj hrun)
      obtain ⟨-, -, -, -, hkept⟩ := persistExternalValue_stored hpersist
      have hrows : result.2.values.rows = (onlyTwo "PC_MILER" chicagoDallas).values.rows :=
        (hkept.eq_of_length hlength.symm).symm
      refine ⟨_, result.2, _, 2, 0, result.1, hpersist, hid, fun id r hfind => ?_, fun _ => rfl, rfl⟩
      rwa [KeyedTable.find?, hrows] at hfind
  found := by rfl
  source := by decide +kernel
  dates := requestFor_hasIsoDates .mileage chicagoDallas
  cutoff := ⟨none, rfl, rfl⟩

/-- Published for one grade of diesel, a value is used for the region as a whole; stored for texts in lower case,
a value is not found again under them. -/
theorem valuesMisused :
    ¬ UsedForItsAxis Ref asciiPlatform (registryOf .eia)
        (onlyTwo "EIA_DIESEL" (axisOf [("region", .text "PADD1"), ("grade", .text "ULSD")]))
        (requestFor .eia (axisOf [("region", .text "PADD1")])) .eia ∧
      ¬ UsedForItsAxis Ref asciiPlatform (registryOf .mileage) (onlyTwo "PC_MILER" chicagoDallas)
        (requestFor .mileage chicagoDallas) .mileage := by
  constructor
  · intro h
    have hshadow := (foundForItsAxis_iff (routed_registryOf .eia _)).mp h.found
    have hextra : ¬ (two (axisOf [("region", .text "PADD1"), ("grade", .text "ULSD")])).axisKey.IsAxis
        (canonicalAxisKey asciiPlatform (canonicalAxisKey asciiPlatform (axisOf [("region", .text "PADD1")]))) := by
      rw [← same_iff]
      decide +kernel
    obtain ⟨row', hrow', haxis, -⟩ := hshadow _ (asks_requestFor rfl) (two _)
      (mem_rowsFor.mpr ⟨List.mem_singleton_self _, by decide +kernel, by decide +kernel, rfl, rfl⟩) hextra
    rw [mem_rowsFor_onlyTwo hrow'] at haxis
    exact hextra haxis
  · intro h
    have hagain := h.again _ chicagoDallas_storedFor
    obtain ⟨query, hasks, hsame | ⟨row', hrow', hlt⟩⟩ :=
      (foundAgain_iff (routed_registryOf .mileage _) chicagoDallas_storedFor).mp hagain
    · have hupper : (Adapter.mileage.axisFor asciiPlatform (requestFor .mileage chicagoDallas)).all
          (fun axisKey => axisKey.text? "origin" = some "CHICAGO") = true := by decide +kernel
      rw [hasks.axisKey, Option.all_some, decide_eq_true_iff] at hupper
      have hlower := (text?_eq_some hupper).symm.trans (hsame "origin")
      exact absurd hlower (by decide +kernel)
    · rw [mem_rowsFor_onlyTwo hrow'] at hlt
      exact lt_irrefl _ hlt

end ExternalValues
