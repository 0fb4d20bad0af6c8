import ChangesetReplay.State.Table

/-! # The store

A store holds tables under keys that are counted up, at a schema version. Reading it either gives an
answer or a cause. An action reads and writes it; one that fails leaves it as it stands then. -/

namespace ChangesetReplay

abbrev SchemaVersion := UInt32

structure Store where
  schemaVersion : SchemaVersion
  tables : Std.ExtTreeMap TableKey Table
  nextTable : UInt32
deriving DecidableEq

/-- The address of one field of one object. -/
structure FieldRef where
  table : TableKey
  object : ObjectKey
  column : ColumnKey
deriving DecidableEq

namespace Store

def new (schemaVersion : SchemaVersion) : Store := ⟨schemaVersion, ∅, 0⟩

/-- All tables in key order. -/
def tableList (s : Store) : List Table := s.tables.toList.map (·.2)

def tableNamed? (s : Store) (name : String) : Option Table :=
  s.tableList.find? (·.name = name)

def findTable (s : Store) (name : String) : Option TableKey := (s.tableNamed? name).map (·.key)

def table (s : Store) (key : TableKey) : Except Cause Table :=
  match s.tables[key]? with
  | some t => .ok t
  | none => .error (.unknownTableKey key)

def tableName (s : Store) (key : TableKey) : Except Cause String := do
  return (← s.table key).name

/-- The name of a table, empty when there is none under the key. -/
def tableNameOrEmpty (s : Store) (key : TableKey) : String :=
  match s.tables[key]? with
  | some t => t.name
  | none => ""

def keyDef (s : Store) (key : TableKey) : Except Cause (Option KeyDef) := do
  return (← s.table key).keyDef

def findColumn (s : Store) (table : TableKey) (name : String) : Except Cause (Option Column) := do
  return (← s.table table).column? name

def column (s : Store) (table : TableKey) (column : ColumnKey) : Except Cause Column := do
  let d ← (← s.table table).columnDef column
  return ⟨column, d⟩

def findObject (s : Store) (table : TableKey) (key : PrimaryKey) :
    Except Cause (Option ObjectKey) := do
  return (← s.table table).find? key

def containsObject (s : Store) (table : TableKey) (object : ObjectKey) : Except Cause Bool := do
  return (← s.table table).objects.contains object

def objectCount (s : Store) (table : TableKey) : Except Cause Nat := do
  return (← s.table table).objects.size

/-- The other tables with links to a table, by name, in key order. -/
def linkOrigins (s : Store) (table : TableKey) : Except Cause (List String) := do
  let name ← s.tableName table
  let origins := s.tableList.filter fun t => t.key ≠ table ∧ t.linkColumns name ≠ []
  return origins.map (·.name)

def scalar (s : Store) (f : FieldRef) : Except Cause Value := do
  let t ← s.table f.table
  match ← t.cell f.object f.column with
  | .scalar v => return v
  | .list _ => .error (.notAScalar (← t.columnDef f.column).name)

def items (s : Store) (f : FieldRef) : Except Cause (List Value) := do
  let t ← s.table f.table
  match ← t.cell f.object f.column with
  | .list items => return items
  | .scalar _ => .error (.notAList t.name (← t.columnDef f.column).name)

def listLength (s : Store) (f : FieldRef) : Except Cause Nat := do
  return (← s.items f).length

/-- Checks a value that is to be written into a column: its type, and for a link that the object
exists in the table it leads to. -/
def checkValue (s : Store) (d : ColumnDef) (v : Value) : Except Cause Unit := do
  d.checkElement v
  match v, d.linkTarget with
  | .link object, some target =>
    match s.findTable target with
    | none => .error (.tableNotFound target)
    | some key =>
      if ← s.containsObject key object then .ok ()
      else .error (.objectNotFound target object.text)
  | _, _ => .ok ()

def putTable (s : Store) (key : TableKey) (t : Table) : Store :=
  { s with tables := s.tables.insert key t }

def putCell (s : Store) (f : FieldRef) (c : Cell) : Store :=
  { s with tables := s.tables.modify f.table (·.setCell f.object f.column c) }

/-- Reading and writing a store. -/
abbrev Action := EStateM Cause Store

/-- The answer of a reading of the store as it stands. -/
def Action.read (f : Store → Except Cause α) : Action α := fun s =>
  match f s with
  | .ok a => .ok a s
  | .error c => .error c s

end Store

end ChangesetReplay
