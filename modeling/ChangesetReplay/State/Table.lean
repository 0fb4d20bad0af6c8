import ChangesetReplay.State.Column

/-! # Tables

A table has columns, and objects with one cell for each of them. Column and object keys are counted
up. When a table has a key definition, an index leads from primary keys to objects. -/

namespace ChangesetReplay

/-- What one field of one object holds. -/
inductive Cell where
  | scalar (v : Value)
  | list (items : List Value)
deriving DecidableEq

namespace Cell

def empty (d : ColumnDef) : Cell := if d.isList then .list [] else .scalar d.defaultValue

def scalar? : Cell → Option Value
  | scalar v => some v
  | list _ => none

def list? : Cell → Option (List Value)
  | scalar _ => none
  | list items => some items

/-- A cell after `object` was erased: a link to it is null, in a list it is gone. -/
def withoutLink (object : ObjectKey) : Cell → Cell
  | scalar v => scalar (if v = .link object then .null else v)
  | list items => list (items.filter (· ≠ .link object))

end Cell

structure Column where
  key : ColumnKey
  definition : ColumnDef
deriving DecidableEq

structure Object where
  key : ObjectKey
  primaryKey : Option PrimaryKey
  fields : Std.ExtTreeMap ColumnKey Cell
deriving DecidableEq

structure Table where
  key : TableKey
  name : String
  keyDef : Option KeyDef
  columns : List Column
  objects : Std.ExtTreeMap ObjectKey Object
  nextColumn : UInt32
  nextObject : UInt64
  keyIndex : Std.ExtTreeMap PrimaryKey ObjectKey
deriving DecidableEq

namespace Table

def column? (t : Table) (name : String) : Option Column :=
  t.columns.find? (·.definition.name = name)

def columnDef (t : Table) (column : ColumnKey) : Except Cause ColumnDef :=
  match t.columns.find? (·.key = column) with
  | some c => .ok c.definition
  | none => .error (.unknownColumnKey t.name column)

def find? (t : Table) (key : PrimaryKey) : Option ObjectKey := t.keyIndex[key]?

def value? (t : Table) (object : ObjectKey) (column : String) : Option Cell := do
  let c ← t.column? column
  (← t.objects[object]?).fields[c.key]?

/-- Whether `d` defines the column that holds the primary key. -/
def isKeyColumn (t : Table) (d : ColumnDef) : Bool :=
  match t.keyDef with
  | some k => k.column = d.name
  | none => false

def object (t : Table) (object : ObjectKey) : Except Cause Object :=
  match t.objects[object]? with
  | some o => .ok o
  | none => .error (.unknownObjectKey t.name object)

def cell (t : Table) (object : ObjectKey) (column : ColumnKey) : Except Cause Cell := do
  let _ ← t.columnDef column
  let o ← t.object object
  match o.fields[column]? with
  | some c => .ok c
  | none => .error (.unknownColumnKey t.name column)

def setCell (t : Table) (object : ObjectKey) (column : ColumnKey) (c : Cell) : Table :=
  { t with objects := t.objects.modify object fun o =>
      { o with fields := o.fields.insert column c } }

/-- Changes every object, keys left alone. -/
def mapObjects (t : Table) (f : Object → Object) : Table :=
  { t with objects := t.objects.map fun _ o => f o }

/-- Adds a column under the next key, with empty cells in all objects. -/
def pushColumn (t : Table) (d : ColumnDef) : Except Cause (ColumnKey × Table) :=
  let key : ColumnKey := ⟨t.nextColumn⟩
  if t.columns.any (·.key = key) then .error (.keyInUse t.name key.text)
  else
    let t := t.mapObjects fun o => { o with fields := o.fields.insert key (.empty d) }
    .ok (key, { t with columns := t.columns ++ [⟨key, d⟩], nextColumn := t.nextColumn + 1 })

/-- A table without objects, whose only column is the key column if there is a key definition. -/
def create (key : TableKey) (name : String) (keyDef : Option KeyDef) : Except Cause Table := do
  let t : Table := ⟨key, name, none, [], ∅, 0, 0, ∅⟩
  match keyDef with
  | none => return t
  | some d =>
    let (_, t) ← t.pushColumn d.columnDef
    return { t with keyDef := some d }

def dropColumn (t : Table) (column : ColumnKey) : Table :=
  let t := t.mapObjects fun o => { o with fields := o.fields.erase column }
  { t with columns := t.columns.filter (·.key ≠ column) }

/-- The cell that a new object with the given primary key has in a column. -/
def newCell (t : Table) (d : ColumnDef) : Option PrimaryKey → Cell
  | some k => if t.isKeyColumn d then .scalar k.toValue else .empty d
  | none => .empty d

def newFields (t : Table) (key : Option PrimaryKey) : Std.ExtTreeMap ColumnKey Cell :=
  .ofList (t.columns.map fun c => (c.key, t.newCell c.definition key))

/-- Adds an object under the next key. -/
def pushObject (t : Table) (key : Option PrimaryKey) : ObjectKey × Table :=
  let object : ObjectKey := ⟨t.nextObject⟩
  (object, { t with
    nextObject := t.nextObject + 1
    keyIndex := match key with
      | some k => t.keyIndex.insert k object
      | none => t.keyIndex
    objects := t.objects.insert object ⟨object, key, t.newFields key⟩ })

/-- Removes an object and its entry in the index. -/
def dropObject (t : Table) (object : ObjectKey) : Table :=
  { t with
    objects := t.objects.erase object
    keyIndex := match t.objects[object]? with
      | some ⟨_, some k, _⟩ => t.keyIndex.erase k
      | _ => t.keyIndex }

/-- The columns whose links lead to the table of a name. -/
def linkColumns (t : Table) (target : String) : List ColumnKey :=
  (t.columns.filter (·.definition.linkTarget = some target)).map (·.key)

/-- Forgets an object of the table called `target`: every link to it in a column that leads there. -/
def dropLinks (t : Table) (target : String) (object : ObjectKey) : Table :=
  let columns := t.linkColumns target
  t.mapObjects fun o =>
    { o with fields := o.fields.map fun column c =>
        if column ∈ columns then c.withoutLink object else c }

end Table

end ChangesetReplay
