import ChangesetReplay.Proofs.JsonShapes

/-! # Forms of values and columns read back

What is written for a value, a key or a definition is well formed and is read as the same again. For
finite binary64 numbers this depends on the number: reading rounds more than once, so a numeral need
not come back as the number it was written for. -/

namespace ChangesetReplay

namespace Binary64

/-- The numeral written for a number is read as that number. -/
def ReadsBack : Binary64 → Prop
  | finite negative r => (jsonLayout.numeral negative r).toBinary64? = some (finite negative r)
  | _ => True

instance (x : Binary64) : Decidable x.ReadsBack :=
  match x with
  | finite negative r =>
    inferInstanceAs (Decidable (_ = some (finite negative r)))
  | nan => .isTrue trivial
  | infinite _ => .isTrue trivial

theorem ofJson?_toJson {x : Binary64} (h : x.ReadsBack) : ofJson? x.toJson = some x := by
  cases x with
  | nan => rfl
  | infinite negative => cases negative <;> rfl
  | finite negative r => exact h

/-- A number above two that is read as its neighbour. -/
example : ¬(finite false ⟨4611689708409457817, by decide⟩).ReadsBack := by decide +kernel

theorem wellFormed_toJson (x : Binary64) : x.toJson.WellFormed := by
  cases x with
  | nan => exact .string _
  | infinite negative => cases negative <;> exact .string _
  | finite negative r => exact .number (NumberLayout.wellFormed_numeral ..)

end Binary64

namespace ObjectKey

@[simp] theorem ofJson?_toJson (k : ObjectKey) : ofJson? k.toJson = some k := by
  simp [ofJson?, toJson]

@[simp] theorem wellFormed_toJson (k : ObjectKey) : k.toJson.WellFormed := by
  simp [toJson]

end ObjectKey

namespace Timestamp

@[simp] theorem ofJson?_toJson (t : Timestamp) : ofJson? t.toJson = some t := by
  simp [ofJson?, toJson, Json.fields?_ofMembers, Json.lookup_cons]

@[simp] theorem wellFormed_toJson (t : Timestamp) : t.toJson.WellFormed := by
  simp [toJson]

end Timestamp

@[simp] theorem wellFormed_bytesToJson (bytes : List UInt8) : (bytesToJson bytes).WellFormed :=
  Json.wellFormed_map fun b _ => Json.wellFormed_ofNat b.toNat

@[simp] theorem bytesOfJson?_bytesToJson (bytes : List UInt8) :
    bytesOfJson? (bytesToJson bytes) = some bytes := by
  have hbytes := Json.list?_map (l := bytes) (g := id) fun b _ => Json.uint8?_ofNat b
  rwa [List.map_id] at hbytes

namespace Value

def ReadsBack : Value → Prop
  | float x => x.ReadsBack
  | _ => True

instance (v : Value) : Decidable v.ReadsBack :=
  match v with
  | float x => inferInstanceAs (Decidable x.ReadsBack)
  | null | int _ | bool _ | string _ | binary _ | timestamp _ | link _ => .isTrue trivial

theorem tagged?_ofTagged (kind : String) (content : Json) (reading : Json.Reading) :
    (Json.ofTagged kind content).tagged? Json.valueTagging reading =
      some ⟨kind, some content, reading.inner⟩ :=
  Json.tagged?_pair (by decide : Json.valueTagging.tag ≠ Json.valueTagging.content) reading kind
    content

theorem ofJson?_float (x : Binary64) (reading : Json.Reading) :
    ofJson? reading (float x).toJson = (Binary64.ofJson? x.toJson).map float := by
  simp [ofJson?, toJson, tagged?_ofTagged]

theorem ofJson?_toJson {v : Value} (h : v.ReadsBack) (reading : Json.Reading) :
    ofJson? reading v.toJson = some v := by
  have htag : ∀ kind, (Json.ofTag kind).tagged? Json.valueTagging reading =
      some ⟨kind, none, reading.inner⟩ := Json.tagged?_tag Json.valueTagging reading
  cases v with
  | null => simp [ofJson?, toJson, htag]
  | float x => rw [ofJson?_float, Binary64.ofJson?_toJson h, Option.map_some]
  | int n => simp [ofJson?, toJson, tagged?_ofTagged]
  | bool b => simp [ofJson?, toJson, tagged?_ofTagged, Json.bool?]
  | string s => simp [ofJson?, toJson, tagged?_ofTagged]
  | binary bytes => simp [ofJson?, toJson, tagged?_ofTagged]
  | timestamp t => simp [ofJson?, toJson, tagged?_ofTagged]
  | link k => simp [ofJson?, toJson, tagged?_ofTagged]

theorem wellFormed_toJson (v : Value) : v.toJson.WellFormed := by
  cases v with
  | float x => exact Json.wellFormed_ofTagged.mpr x.wellFormed_toJson
  | _ => simp [toJson]

end Value

namespace PrimaryKey

theorem ofJson?_toJson (k : PrimaryKey) (reading : Json.Reading) :
    ofJson? reading k.toJson = some k := by
  have htag : ∀ kind, (Json.ofTag kind).tagged? Json.keyTagging reading =
      some ⟨kind, none, reading.inner⟩ := Json.tagged?_tag Json.keyTagging reading
  have hpair : ∀ kind content, (Json.ofTagged kind content).tagged? Json.keyTagging reading =
      some ⟨kind, some content, reading.inner⟩ :=
    Json.tagged?_pair (by decide : Json.keyTagging.tag ≠ Json.keyTagging.content) reading
  cases k with
  | null => simp [ofJson?, toJson, toValue, Value.toJson, htag]
  | int n => simp [ofJson?, toJson, toValue, Value.toJson, hpair]
  | string s => simp [ofJson?, toJson, toValue, Value.toJson, hpair]

theorem toJson_ne_null (k : PrimaryKey) : k.toJson ≠ .null := by
  cases k <;> exact Json.ofMembers_ne_null _

theorem wellFormed_toJson (k : PrimaryKey) : k.toJson.WellFormed := k.toValue.wellFormed_toJson

end PrimaryKey

theorem ValueType.ofJson?_toJson (t : ValueType) (reading : Json.Reading) :
    ofJson? reading t.toJson = some t := by
  cases t <;> simp [ofJson?, toJson]

@[simp] theorem ValueType.wellFormed_toJson (t : ValueType) : t.toJson.WellFormed := by
  cases t <;> exact Json.wellFormed_ofString _

theorem KeyType.ofJson?_toJson (t : KeyType) (reading : Json.Reading) :
    ofJson? reading t.toJson = some t := by
  cases t <;> simp [ofJson?, toJson, valueType, ValueType.toJson]

namespace ColumnDef

theorem ofJson?_toJson (d : ColumnDef) (reading : Json.Reading) :
    ofJson? reading d.toJson = some d := by
  obtain ⟨name, type, nullable, isList, target⟩ := d
  cases target with
  | none =>
    simp [ofJson?, toJson, Json.fields?_ofMembers, Json.lookup_cons, ValueType.ofJson?_toJson,
      Json.bool?, Json.getOr]
  | some target =>
    have htarget : Json.optional? Json.text? (.ofString target) = some (some target) :=
      Json.optional?_of_some (Json.ofString_ne_null target) (Json.text?_ofString target)
    simp [ofJson?, toJson, Json.fields?_ofMembers, Json.lookup_cons, ValueType.ofJson?_toJson,
      Json.bool?, Json.getOr, htarget]

theorem wellFormed_toJson (d : ColumnDef) : d.toJson.WellFormed := by
  obtain ⟨name, type, nullable, isList, target⟩ := d
  cases target <;> simp [toJson]

end ColumnDef

namespace KeyDef

theorem ofJson?_toJson (d : KeyDef) (reading : Json.Reading) :
    ofJson? reading d.toJson = some d := by
  simp [ofJson?, toJson, Json.fields?_ofMembers, Json.lookup_cons, KeyType.ofJson?_toJson,
    Json.bool?]

theorem wellFormed_toJson (d : KeyDef) : d.toJson.WellFormed := by
  simp [toJson, KeyType.toJson]

end KeyDef

end ChangesetReplay
