import ChangesetReplay.Log.Changeset
import ChangesetReplay.Form.Value
import ChangesetReplay.Json.Reader
import ChangesetReplay.Json.Printer

/-! # JSON forms of changesets

An instruction is one object, its kind among its fields; it is held back as a whole before it is
looked at. Payloads are tagged as values are, and an object reference is an object with one
member. -/

namespace ChangesetReplay

namespace NameId

def toJson (id : NameId) : Json := .ofNat id.index.toNat

def ofJson? (j : Json) : Option NameId := j.uint32?.map .mk

end NameId

namespace StringRange

def toJson (r : StringRange) : Json :=
  .ofMembers [("offset", .ofNat r.offset.toNat), ("size", .ofNat r.size.toNat)]

def ofJson? (j : Json) : Option StringRange := do
  let [some offset, some size] ← j.fields? ["offset", "size"] | none
  some ⟨← offset.uint32?, ← size.uint32?⟩

end StringRange

namespace KeySpec

def toJson (k : KeySpec) : Json :=
  .ofMembers [("column", k.column.toJson), ("keyType", k.type.toJson),
    ("nullable", .bool k.nullable)]

def ofJson? (reading : Json.Reading) (j : Json) : Option KeySpec := do
  let [some column, some type, nullable] ← j.fields? ["column", "keyType", "nullable"] | none
  some ⟨← NameId.ofJson? column, ← KeyType.ofJson? reading.inner type,
    ← Json.getOr false Json.bool? nullable⟩

end KeySpec

namespace KeyPayload

def toJson : KeyPayload → Json
  | null => .ofTag "null"
  | int n => .ofTagged "int" (.ofInt n.toInt)
  | string range => .ofTagged "string" range.toJson

def ofJson? (reading : Json.Reading) (j : Json) : Option KeyPayload := do
  let t ← j.tagged? Json.keyTagging reading
  match t.tag, t.content with
  | "null", none => some null
  | "null", some .null => some null
  | "int", some j => j.int64?.map int
  | "string", some j => (StringRange.ofJson? j).map string
  | _, _ => none

end KeyPayload

namespace ObjectRef

def toJson : ObjectRef → Json
  | created index => .ofMembers [("created", .ofNat index.toNat)]
  | primaryKey k => .ofMembers [("primaryKey", k.toJson)]
  | key object => .ofMembers [("key", object.toJson)]

def ofJson? (reading : Json.Reading) (j : Json) : Option ObjectRef := do
  let [(name, j)] ← j.members? | none
  match name with
  | "created" => j.uint32?.map created
  | "primaryKey" => (KeyPayload.ofJson? reading.inner j).map primaryKey
  | "key" => (ObjectKey.ofJson? j).map key
  | _ => none

end ObjectRef

namespace Payload

def toJson : Payload → Json
  | null => .ofTag "null"
  | int n => .ofTagged "int" (.ofInt n.toInt)
  | bool b => .ofTagged "bool" (.bool b)
  | float x => .ofTagged "float" x.toJson
  | string range => .ofTagged "string" range.toJson
  | binary bytes => .ofTagged "binary" (bytesToJson bytes)
  | timestamp t => .ofTagged "timestamp" t.toJson
  | link ref => .ofTagged "link" ref.toJson

def ofJson? (reading : Json.Reading) (j : Json) : Option Payload := do
  let t ← j.tagged? Json.valueTagging reading
  match t.tag, t.content with
  | "null", none => some null
  | "null", some .null => some null
  | "int", some j => j.int64?.map int
  | "bool", some j => j.bool?.map bool
  | "float", some j => (Binary64.ofJson? j).map float
  | "string", some j => (StringRange.ofJson? j).map string
  | "binary", some j => (bytesOfJson? j).map binary
  | "timestamp", some j => (Timestamp.ofJson? j).map timestamp
  | "link", some j => (ObjectRef.ofJson? t.reading j).map link
  | _, _ => none

end Payload

namespace Instruction

def withKind (kind : String) (fields : List (String × Json)) : Json :=
  .ofMembers (("type", .ofString kind) :: fields)

/-- Absent fields are written as null. -/
def toJson : Instruction → Json
  | addTable table key =>
    withKind "add_table" [("table", table.toJson), ("primaryKey", .ofOption (·.toJson) key)]
  | eraseTable table => withKind "erase_table" [("table", table.toJson)]
  | addColumn table column type nullable isList target =>
    withKind "add_column" [("table", table.toJson), ("column", column.toJson),
      ("valueType", type.toJson), ("nullable", .bool nullable), ("list", .bool isList),
      ("linkTarget", .ofOption (·.toJson) target)]
  | eraseColumn table column =>
    withKind "erase_column" [("table", table.toJson), ("column", column.toJson)]
  | selectTable table => withKind "select_table" [("table", table.toJson)]
  | selectField object field =>
    withKind "select_field" [("object", object.toJson), ("field", field.toJson)]
  | selectLinkList object field =>
    withKind "select_link_list" [("object", object.toJson), ("field", field.toJson)]
  | createObject key => withKind "create_object" [("primaryKey", .ofOption (·.toJson) key)]
  | eraseObject object => withKind "erase_object" [("object", object.toJson)]
  | set object field value =>
    withKind "set" [("object", object.toJson), ("field", field.toJson), ("value", value.toJson)]
  | addInteger object field delta =>
    withKind "add_integer" [("object", object.toJson), ("field", field.toJson),
      ("value", .ofInt delta.toInt)]
  | listInsert i value =>
    withKind "list_insert" [("index", .ofNat i.toNat), ("value", value.toJson)]
  | listSet i value => withKind "list_set" [("index", .ofNat i.toNat), ("value", value.toJson)]
  | listErase i => withKind "list_erase" [("index", .ofNat i.toNat)]
  | listMove source target =>
    withKind "list_move" [("from", .ofNat source.toNat), ("to", .ofNat target.toNat)]
  | listSwap i j => withKind "list_swap" [("a", .ofNat i.toNat), ("b", .ofNat j.toNat)]
  | listClear => withKind "list_clear" []

def ofFields? (kind : String) (j : Json) : Option Instruction :=
  match kind with
  | "add_table" => do
    let [some table, key] ← j.fields? ["table", "primaryKey"] | none
    some (addTable (← NameId.ofJson? table)
      (← Json.getOr none (Json.optional? (KeySpec.ofJson? .held)) key))
  | "erase_table" => do
    let [some table] ← j.fields? ["table"] | none
    some (eraseTable (← NameId.ofJson? table))
  | "add_column" => do
    let [some table, some column, some type, nullable, isList, target] ←
      j.fields? ["table", "column", "valueType", "nullable", "list", "linkTarget"] | none
    some (addColumn (← NameId.ofJson? table) (← NameId.ofJson? column)
      (← ValueType.ofJson? .held type) (← Json.getOr false Json.bool? nullable)
      (← Json.getOr false Json.bool? isList)
      (← Json.getOr none (Json.optional? NameId.ofJson?) target))
  | "erase_column" => do
    let [some table, some column] ← j.fields? ["table", "column"] | none
    some (eraseColumn (← NameId.ofJson? table) (← NameId.ofJson? column))
  | "select_table" => do
    let [some table] ← j.fields? ["table"] | none
    some (selectTable (← NameId.ofJson? table))
  | "select_field" => do
    let [some object, some field] ← j.fields? ["object", "field"] | none
    some (selectField (← ObjectRef.ofJson? .held object) (← NameId.ofJson? field))
  | "select_link_list" => do
    let [some object, some field] ← j.fields? ["object", "field"] | none
    some (selectLinkList (← ObjectRef.ofJson? .held object) (← NameId.ofJson? field))
  | "create_object" => do
    let [key] ← j.fields? ["primaryKey"] | none
    some (createObject (← Json.getOr none (Json.optional? (KeyPayload.ofJson? .held)) key))
  | "erase_object" => do
    let [some object] ← j.fields? ["object"] | none
    some (eraseObject (← ObjectRef.ofJson? .held object))
  | "set" => do
    let [some object, some field, some value] ← j.fields? ["object", "field", "value"] | none
    some (set (← ObjectRef.ofJson? .held object) (← NameId.ofJson? field)
      (← Payload.ofJson? .held value))
  | "add_integer" => do
    let [some object, some field, some value] ← j.fields? ["object", "field", "value"] | none
    some (addInteger (← ObjectRef.ofJson? .held object) (← NameId.ofJson? field)
      (← value.int64?))
  | "list_insert" => do
    let [some i, some value] ← j.fields? ["index", "value"] | none
    some (listInsert (← i.uint32?) (← Payload.ofJson? .held value))
  | "list_set" => do
    let [some i, some value] ← j.fields? ["index", "value"] | none
    some (listSet (← i.uint32?) (← Payload.ofJson? .held value))
  | "list_erase" => do
    let [some i] ← j.fields? ["index"] | none
    some (listErase (← i.uint32?))
  | "list_move" => do
    let [some source, some target] ← j.fields? ["from", "to"] | none
    some (listMove (← source.uint32?) (← target.uint32?))
  | "list_swap" => do
    let [some i, some j] ← j.fields? ["a", "b"] | none
    some (listSwap (← i.uint32?) (← j.uint32?))
  | "list_clear" => do
    let [] ← j.fields? [] | none
    some listClear
  | _ => none

/-- The kind is a member among the fields, or the first item of an array before them. -/
def ofJson? (room : Nat) (j : Json) : Option Instruction := do
  if ¬j.holdable room then none
  match j with
  | .array (kind :: fields) => ofFields? (← kind.text?) (.array fields)
  | .object _ =>
    let [some kind] ← j.fields? ["type"] | none
    ofFields? (← kind.text?) j
  | _ => none

end Instruction

namespace Changeset

def toJson (c : Changeset) : Json :=
  .ofMembers [("schemaVersion", .ofNat c.schemaVersion.toNat),
    ("strings", .array (c.strings.map .ofString)), ("buffer", .ofString c.buffer),
    ("instructions", .array (c.instructions.map (·.toJson)))]

/-- The instructions stand inside two containers, so that two levels less remain for them. -/
def ofJson? (room : Nat) (j : Json) : Option Changeset := do
  let [some version, strings, buffer, some instructions] ←
    j.fields? ["schemaVersion", "strings", "buffer", "instructions"] | none
  some ⟨← version.uint32?, ← Json.getOr [] (Json.list? Json.text?) strings,
    ← Json.getOr "" Json.text? buffer,
    ← instructions.list? (Instruction.ofJson? (room - 2))⟩

def toText (c : Changeset) : String := c.toJson.compact

def ofText? (text : String) : Option Changeset := do ofJson? 127 (← Json.ofText? text)

end Changeset

end ChangesetReplay
