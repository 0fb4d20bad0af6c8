import ChangesetReplay.State.Column
import ChangesetReplay.Json.Decode

/-! # JSON forms of values and columns

Values and keys are tagged with the name of their type. Floats are plain numbers, except those that
have no numeral. -/

namespace ChangesetReplay

namespace Json

/-- Values and payloads are tagged by `type`. -/
def valueTagging : Tagging :=
  ⟨"type", "value", ["null", "int", "bool", "float", "string", "binary", "timestamp", "link"]⟩

def keyTagging : Tagging := ⟨"type", "value", ["null", "int", "string"]⟩

/-- A value tagged by `type`, without content. -/
def ofTag (tag : String) : Json := ofMembers [("type", ofString tag)]

def ofTagged (tag : String) (content : Json) : Json :=
  ofMembers [("type", ofString tag), ("value", content)]

end Json

/-- In JSON numbers have an exponent below one hundred-thousandth, and a tie goes to the even
digit. -/
def Binary64.jsonLayout : NumberLayout := ⟨.toEven, -5⟩

def Binary64.toJson : Binary64 → Json
  | nan => .ofString "NaN"
  | infinite false => .ofString "inf"
  | infinite true => .ofString "-inf"
  | finite negative r => .number (jsonLayout.numeral negative r)

def Binary64.ofJson? : Json → Option Binary64
  | .number n => n.toBinary64?
  | j => do
    match ← j.text? with
    | "NaN" => some nan
    | "inf" => some (infinite false)
    | "-inf" => some (infinite true)
    | _ => none

namespace ObjectKey

def toJson (k : ObjectKey) : Json := .ofNat k.index.toNat

def ofJson? (j : Json) : Option ObjectKey := j.uint64?.map .mk

end ObjectKey

namespace Timestamp

def toJson (t : Timestamp) : Json :=
  .ofMembers [("seconds", .ofInt t.seconds.toInt), ("nanoseconds", .ofInt t.nanoseconds.toInt)]

def ofJson? (j : Json) : Option Timestamp := do
  let [some seconds, some nanoseconds] ← j.fields? ["seconds", "nanoseconds"] | none
  some ⟨← seconds.int64?, ← nanoseconds.int32?⟩

end Timestamp

def bytesToJson (bytes : List UInt8) : Json := .array (bytes.map fun b => .ofNat b.toNat)

def bytesOfJson? : Json → Option (List UInt8) := Json.list? Json.uint8?

namespace Value

def toJson : Value → Json
  | null => .ofTag "null"
  | int n => .ofTagged "int" (.ofInt n.toInt)
  | bool b => .ofTagged "bool" (.bool b)
  | float x => .ofTagged "float" x.toJson
  | string s => .ofTagged "string" (.ofString s)
  | binary bytes => .ofTagged "binary" (bytesToJson bytes)
  | timestamp t => .ofTagged "timestamp" t.toJson
  | link k => .ofTagged "link" k.toJson

def ofJson? (reading : Json.Reading) (j : Json) : Option Value := do
  let t ← j.tagged? Json.valueTagging reading
  match t.tag, t.content with
  | "null", none => some null
  | "null", some .null => some null
  | "int", some j => j.int64?.map int
  | "bool", some j => j.bool?.map bool
  | "float", some j => (Binary64.ofJson? j).map float
  | "string", some j => j.text?.map string
  | "binary", some j => (bytesOfJson? j).map binary
  | "timestamp", some j => (Timestamp.ofJson? j).map timestamp
  | "link", some j => (ObjectKey.ofJson? j).map link
  | _, _ => none

end Value

namespace PrimaryKey

def toJson (k : PrimaryKey) : Json := k.toValue.toJson

def ofJson? (reading : Json.Reading) (j : Json) : Option PrimaryKey := do
  let t ← j.tagged? Json.keyTagging reading
  match t.tag, t.content with
  | "null", none => some null
  | "null", some .null => some null
  | "int", some j => j.int64?.map int
  | "string", some j => j.text?.map string
  | _, _ => none

end PrimaryKey

namespace ValueType

def toJson : ValueType → Json
  | int => .ofString "int"
  | bool => .ofString "bool"
  | float => .ofString "float"
  | string => .ofString "string"
  | binary => .ofString "binary"
  | timestamp => .ofString "timestamp"
  | link => .ofString "link"

def ofJson? (reading : Json.Reading) (j : Json) : Option ValueType := do
  match ← j.variant? reading with
  | "int" => some int
  | "bool" => some bool
  | "float" => some float
  | "string" => some string
  | "binary" => some binary
  | "timestamp" => some timestamp
  | "link" => some link
  | _ => none

end ValueType

namespace KeyType

def toJson (t : KeyType) : Json := t.valueType.toJson

def ofJson? (reading : Json.Reading) (j : Json) : Option KeyType := do
  match ← j.variant? reading with
  | "int" => some int
  | "string" => some string
  | _ => none

end KeyType

namespace ColumnDef

/-- The target is written only if there is one. -/
def toJson (d : ColumnDef) : Json :=
  .ofMembers ([("name", .ofString d.name), ("valueType", d.type.toJson),
    ("nullable", .bool d.nullable), ("list", .bool d.isList)] ++
    (d.linkTarget.map fun target => ("linkTarget", .ofString target)).toList)

def ofJson? (reading : Json.Reading) (j : Json) : Option ColumnDef := do
  let [some name, some type, some nullable, some isList, target] ←
    j.fields? ["name", "valueType", "nullable", "list", "linkTarget"] | none
  some ⟨← name.text?, ← ValueType.ofJson? reading.inner type, ← nullable.bool?, ← isList.bool?,
    ← Json.getOr none (Json.optional? Json.text?) target⟩

end ColumnDef

namespace KeyDef

def toJson (d : KeyDef) : Json :=
  .ofMembers [("column", .ofString d.column), ("keyType", d.type.toJson),
    ("nullable", .bool d.nullable)]

def ofJson? (reading : Json.Reading) (j : Json) : Option KeyDef := do
  let [some column, some type, some nullable] ← j.fields? ["column", "keyType", "nullable"] | none
  some ⟨← column.text?, ← KeyType.ofJson? reading.inner type, ← nullable.bool?⟩

end KeyDef

end ChangesetReplay
