import ChangesetReplay.State.Snapshot
import ChangesetReplay.Form.Value
import ChangesetReplay.Json.Reader
import ChangesetReplay.Json.Printer

/-! # JSON forms of snapshots

Objects and fields stand in objects under their keys in decimal, in ascending order. The index of
primary keys is not written, so a table is read without one. -/

namespace ChangesetReplay

namespace Json

/-- A member for each entry of a map, under its key. -/
def ofMap {α β : Type} [Ord α] [Std.TransOrd α] (index : α → Nat) (value : β → Json)
    (m : Std.ExtTreeMap α β) : Json :=
  .object (m.toList.map fun (k, v) => (Nat.toDigits 10 (index k), value v))

/-- Reads a map. A key is a numeral without any escape; of equal keys the last one counts. -/
def map? {α β : Type} [Ord α] [Std.TransOrd α] (key? : Json → Option α) (value? : Json → Option β) :
    Json → Option (Std.ExtTreeMap α β)
  | .object members => do
    let entries ← members.mapM fun (name, j) => do
      some (← key? (.number (← Numeral.ofText? name)), ← value? j)
    some (.ofList entries)
  | _ => none

end Json

namespace TableKey

def toJson (k : TableKey) : Json := .ofNat k.index.toNat

def ofJson? (j : Json) : Option TableKey := j.uint32?.map .mk

end TableKey

namespace ColumnKey

def toJson (k : ColumnKey) : Json := .ofNat k.index.toNat

def ofJson? (j : Json) : Option ColumnKey := j.uint32?.map .mk

end ColumnKey

namespace Cell

def tagging : Json.Tagging := ⟨"kind", "value", ["scalar", "list"]⟩

def withKind (kind : String) (content : Json) : Json :=
  .ofMembers [("kind", .ofString kind), ("value", content)]

def toJson : Cell → Json
  | scalar v => withKind "scalar" v.toJson
  | list items => withKind "list" (.array (items.map (·.toJson)))

def ofJson? (reading : Json.Reading) (j : Json) : Option Cell := do
  let t ← j.tagged? tagging reading
  match t.tag, t.content with
  | "scalar", some j => (Value.ofJson? t.reading j).map scalar
  | "list", some j => (j.list? (Value.ofJson? t.reading.inner)).map list
  | _, _ => none

end Cell

namespace Column

def toJson (c : Column) : Json :=
  .ofMembers [("key", c.key.toJson), ("def", c.definition.toJson)]

def ofJson? (reading : Json.Reading) (j : Json) : Option Column := do
  let [some key, some definition] ← j.fields? ["key", "def"] | none
  some ⟨← ColumnKey.ofJson? key, ← ColumnDef.ofJson? reading.inner definition⟩

end Column

namespace Object

/-- The primary key is written only if there is one. -/
def toJson (o : Object) : Json :=
  .ofMembers ([("key", o.key.toJson)] ++
    (o.primaryKey.map fun k => ("primaryKey", k.toJson)).toList ++
    [("fields", .ofMap (·.index.toNat) (·.toJson) o.fields)])

def ofJson? (reading : Json.Reading) (j : Json) : Option Object := do
  let [some key, primaryKey, some fields] ← j.fields? ["key", "primaryKey", "fields"] | none
  some ⟨← ObjectKey.ofJson? key,
    ← Json.getOr none (Json.optional? (PrimaryKey.ofJson? reading.inner)) primaryKey,
    ← fields.map? ColumnKey.ofJson? (Cell.ofJson? reading.inner.inner)⟩

end Object

namespace Table

/-- The key definition is written only if there is one. -/
def toJson (t : Table) : Json :=
  .ofMembers ([("key", t.key.toJson), ("name", .ofString t.name)] ++
    (t.keyDef.map fun d => ("primaryKey", d.toJson)).toList ++
    [("columns", .array (t.columns.map (·.toJson))),
      ("objects", .ofMap (·.index.toNat) (·.toJson) t.objects),
      ("nextColumn", .ofNat t.nextColumn.toNat), ("nextObject", .ofNat t.nextObject.toNat)])

def ofJson? (reading : Json.Reading) (j : Json) : Option Table := do
  let [some key, some name, keyDef, some columns, some objects, some nextColumn,
    some nextObject] ← j.fields? ["key", "name", "primaryKey", "columns", "objects", "nextColumn",
      "nextObject"] | none
  some ⟨← TableKey.ofJson? key, ← name.text?,
    ← Json.getOr none (Json.optional? (KeyDef.ofJson? reading.inner)) keyDef,
    ← columns.list? (Column.ofJson? reading.inner.inner),
    ← objects.map? ObjectKey.ofJson? (Object.ofJson? reading.inner.inner),
    ← nextColumn.uint32?, ← nextObject.uint64?, ∅⟩

end Table

namespace Snapshot

def toJson (s : Snapshot) : Json :=
  .ofMembers [("formatVersion", .ofNat s.formatVersion.toNat),
    ("schemaVersion", .ofNat s.schemaVersion.toNat), ("nextTable", .ofNat s.nextTable.toNat),
    ("tables", .array (s.tables.map (·.toJson)))]

def ofJson? (reading : Json.Reading) (j : Json) : Option Snapshot := do
  let [some format, some schema, some nextTable, some tables] ←
    j.fields? ["formatVersion", "schemaVersion", "nextTable", "tables"] | none
  some ⟨← format.uint32?, ← schema.uint32?, ← nextTable.uint32?,
    ← tables.list? (Table.ofJson? reading.inner.inner)⟩

def toText (s : Snapshot) : String := s.toJson.compact

def toPrettyText (s : Snapshot) : String := s.toJson.pretty

/-- Reads a snapshot, which may be invalid. -/
def parse? (text : String) : Option Snapshot := do ofJson? .document (← Json.ofText? text)

/-- Why a text is not a valid snapshot: it cannot be read, or what it says is inconsistent. -/
inductive ReadError where
  | malformed
  | inconsistent (cause : Cause)
deriving DecidableEq

def ofText (text : String) : Except ReadError Snapshot :=
  match parse? text with
  | none => .error .malformed
  | some s =>
    match s.validate with
    | .error e => .error (.inconsistent e)
    | .ok () => .ok s

end Snapshot

end ChangesetReplay
