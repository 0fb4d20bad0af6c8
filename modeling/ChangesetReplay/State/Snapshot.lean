import ChangesetReplay.State.Store.Basic

/-! # Snapshots

A snapshot is the content of a store with its tables in a list. It is validated before a store takes
it over: names and keys are unique and below their counters, definitions are sound, every object has
just the cells that its columns ask for, and links lead to tables of the snapshot. The index of
primary keys is not relied upon but built anew. -/

namespace ChangesetReplay

namespace Table

def inconsistent (t : Table) (what : String) : Except Cause α :=
  .error (.invalidSnapshot s!"table {t.name}: {what}")

/-- Checks columns that come after the columns `before`. -/
def checkColumns (t : Table) (before : List Column) : List Column → Except Cause Unit
  | [] => .ok ()
  | c :: rest => do
    if t.nextColumn ≤ c.key.index ∨ before.any (·.key = c.key) then
      t.inconsistent s!"invalid column key {c.key.text}"
    if before.any (·.definition.name = c.definition.name) then
      t.inconsistent s!"duplicate column {c.definition.name}"
    match c.definition.validate with
    | .error e => t.inconsistent e.message
    | .ok () => checkColumns t (c :: before) rest

def checkKeyColumn (t : Table) : Except Cause Unit :=
  match t.keyDef with
  | some d =>
    if t.columns.any (·.definition.name = d.column) then .ok ()
    else t.inconsistent s!"missing primary key column {d.column}"
  | none => .ok ()

def checkObjectKey (t : Table) (key : ObjectKey) (o : Object) : Except Cause Unit :=
  match t.keyDef with
  | some d =>
    match d.check t.name o.primaryKey with
    | .error e => t.inconsistent s!"{key.text}: {e.message}"
    | .ok () => .ok ()
  | none =>
    if o.primaryKey.isSome then t.inconsistent s!"{key.text} has a primary key" else .ok ()

/-- The values in the cell of a column, if the cell is there and of the right shape. -/
def cellValues? (o : Object) (c : Column) : Option (List Value) :=
  match o.fields[c.key]?, c.definition.isList with
  | some (.scalar v), false => some [v]
  | some (.list items), true => some items
  | _, _ => none

def checkCell (t : Table) (key : ObjectKey) (o : Object) (c : Column) : Except Cause Unit :=
  match cellValues? o c with
  | none => t.inconsistent s!"{key.text} has no valid cell for {c.definition.name}"
  | some values => values.forM fun v =>
    match c.definition.checkElement v with
    | .error e => t.inconsistent s!"{key.text}: {e.message}"
    | .ok () => .ok ()

/-- Checks objects that come after objects with the primary keys `before`. -/
def checkObjects (t : Table) (before : List PrimaryKey) :
    List (ObjectKey × Object) → Except Cause Unit
  | [] => .ok ()
  | (key, o) :: rest => do
    if o.key ≠ key ∨ t.nextObject ≤ key.index then
      t.inconsistent s!"invalid object key {o.key.text}"
    t.checkObjectKey key o
    if let some k := o.primaryKey then
      if before.contains k then t.inconsistent s!"duplicate primary key {k.text}"
    if o.fields.size ≠ t.columns.length then
      t.inconsistent s!"{key.text} has {o.fields.size} fields"
    t.columns.forM (t.checkCell key o)
    checkObjects t (o.primaryKey.toList ++ before) rest

/-- Checks that counters, columns and objects agree with each other. -/
def checkConsistency (t : Table) : Except Cause Unit := do
  t.checkColumns [] t.columns
  t.checkKeyColumn
  t.checkObjects [] t.objects.toList

/-- The table with its index of primary keys built from its objects. -/
def rebuildIndex (t : Table) : Table :=
  { t with keyIndex := .ofList <| t.objects.toList.filterMap fun (_, o) =>
      o.primaryKey.map fun k => (k, o.key) }

end Table

structure Snapshot where
  formatVersion : UInt32
  schemaVersion : SchemaVersion
  nextTable : UInt32
  tables : List Table
deriving DecidableEq

namespace Snapshot

/-- The format in which snapshots are exported; older ones can be imported. -/
def currentFormat : UInt32 := 1

def objectCount (s : Snapshot) : Nat := s.tables.foldr (fun t n => t.objects.size + n) 0

def checkTarget (s : Snapshot) (t : Table) (c : Column) : Except Cause Unit :=
  match c.definition.linkTarget with
  | none => .ok ()
  | some target =>
    if s.tables.any (·.name = target) then .ok ()
    else .error (.invalidSnapshot
      s!"column {t.name}.{c.definition.name} links to missing table {target}")

/-- Checks tables that come after the tables `before`. -/
def checkTables (s : Snapshot) (before : List Table) : List Table → Except Cause Unit
  | [] => .ok ()
  | t :: rest => do
    if before.any (·.name = t.name) then
      throw (.invalidSnapshot s!"duplicate table name: {t.name}")
    if before.any (·.key = t.key) ∨ s.nextTable ≤ t.key.index then
      throw (.invalidSnapshot s!"invalid key {t.key.text} for table {t.name}")
    t.checkConsistency
    t.columns.forM (s.checkTarget t)
    checkTables s (t :: before) rest

def validate (s : Snapshot) : Except Cause Unit := do
  if currentFormat < s.formatVersion then
    throw (.invalidSnapshot (s!"unsupported snapshot format version: {s.formatVersion.toNat} " ++
      s!"(max supported: {currentFormat.toNat})"))
  s.checkTables [] s.tables

end Snapshot

namespace Store

/-- The content of a store, its tables in key order. -/
def exportState (s : Store) : Snapshot :=
  ⟨Snapshot.currentFormat, s.schemaVersion, s.nextTable, s.tableList⟩

def importState (snapshot : Snapshot) : Action Unit := do
  Action.read fun _ => snapshot.validate
  modify fun s => { s with schemaVersion := snapshot.schemaVersion }
  modify fun s => { s with nextTable := snapshot.nextTable }
  modify fun s => { s with
    tables := .ofList (snapshot.tables.map fun t => (t.key, t.rebuildIndex)) }

end Store

end ChangesetReplay
