import ChangesetReplay.Replay.Selection
import ChangesetReplay.Replay.Effect
import ChangesetReplay.State.Store.Objects
import ChangesetReplay.State.Store.Fields

/-! # Steps

One instruction applied to a store under a selection. A step resolves what the instruction names,
acts on the store, and gives the next selection and the effect. -/

namespace ChangesetReplay

/-- What a changeset has come to: the store, and the objects it created, in order. -/
structure Progress where
  store : Store
  created : List Handle
deriving DecidableEq

/-- A step reads and writes the progress; one that fails leaves it as it stands then. -/
abbrev Step := EStateM Cause Progress

namespace Step

def look (f : Progress → Except Cause α) : Step α := fun p =>
  match f p with
  | .ok a => .ok a p
  | .error c => .error c p

def onStore (act : Store.Action α) : Step α := fun p =>
  match act p.store with
  | .ok a s => .ok a { p with store := s }
  | .error c s => .error c { p with store := s }

def tableName (t : TableKey) : Step String := look (·.store.tableName t)

/-- Records a created object and gives its number. -/
def register (h : Handle) : Step UInt32 := do
  modify fun p => { p with created := p.created ++ [h] }
  return UInt32.ofNat ((← get).created.length - 1)

variable (c : Changeset) (sel : Selection)

def addTable (table : NameId) (key : Option KeySpec) : Step (Selection × Effect) := do
  let t ← onStore (c.createTable table key)
  return (sel, .tableAdded (← tableName t))

def eraseTable (table : NameId) : Step (Selection × Effect) := do
  let t ← look fun p => c.table p.store table
  let name ← tableName t
  onStore (Store.eraseTable t)
  return (sel.afterTableErased t, .tableErased name)

def newColumn (column : NameId) (type : ValueType) (nullable isList : Bool)
    (linkTarget : Option NameId) : Except Cause ColumnDef := do
  let name ← c.name column
  let target ← match linkTarget with
    | none => pure none
    | some id => do pure (some (← c.name id))
  let d : ColumnDef := ⟨name, type, nullable, isList, target⟩
  d.validate
  return d

def addColumn (table : NameId) (d : ColumnDef) : Step (Selection × Effect) := do
  let t ← look fun p => c.table p.store table
  let _ ← onStore (Store.addColumn t d)
  return (sel, .columnAdded (← tableName t) d.name d.text)

def eraseColumn (table column : NameId) : Step (Selection × Effect) := do
  let t ← look fun p => c.table p.store table
  let found ← look fun p => c.column p.store t column
  onStore (Store.eraseColumn t found.key)
  return (sel.afterColumnErased t found.key, .columnErased (← tableName t) found.definition.name)

def selectTable (table : NameId) : Step (Selection × Effect) := do
  let next ← look fun p => Selection.selectTable c p.store table
  let t ← look fun _ => next.selectedTable
  return (next, .tableSelected (← tableName t))

def selectField (ref : ObjectRef) (field : NameId) : Step (Selection × Effect) := do
  let next ← look fun p => sel.selectField c p.store p.created ref field
  let l ← look fun _ => next.container
  let table ← tableName l.table
  let column ← look fun p => p.store.column l.table l.column
  return (next, .fieldSelected table l.object column.definition.name)

def selectLinkList (ref : ObjectRef) (field : NameId) : Step (Selection × Effect) := do
  let next ← look fun p => sel.selectLinkList c p.store p.created ref field
  let l ← look fun _ => next.container
  match l.target with
  | none => throw .noContainerSelected
  | some target =>
    let table ← tableName l.table
    let column ← look fun p => p.store.column l.table l.column
    return (next, .linkListSelected table l.object column.definition.name (← tableName target))

def createObject (key : Option KeyPayload) : Step (Selection × Effect) := do
  let t ← look fun _ => sel.selectedTable
  let key ← match key with
    | none => pure none
    | some k => do pure (some (← look fun _ => c.primaryKey k))
  let object ← onStore (Store.createObject t key)
  let index ← register ⟨t, object⟩
  return (sel, .objectCreated (← tableName t) object index)

def eraseObject (ref : ObjectRef) : Step (Selection × Effect) := do
  let t ← look fun _ => sel.selectedTable
  let object ← look fun p => c.object p.store p.created t ref
  onStore (Store.eraseObject t object)
  return (sel.afterObjectErased t object, .objectErased (← tableName t) object)

/-- The object and the column, no list, that a scalar instruction addresses. -/
def scalarField (p : Progress) (ref : ObjectRef) (field : NameId) :
    Except Cause (TableKey × ObjectKey × Column) := do
  let t ← sel.selectedTable
  let column ← c.column p.store t field
  if column.definition.isList then .error (.notAScalar column.definition.name)
  else
    let object ← c.object p.store p.created t ref
    return (t, object, column)

/-- The table that links in a column lead to. -/
def linkTarget (s : Store) (d : ColumnDef) : Except Cause (Option TableKey) :=
  match d.linkTarget with
  | none => .ok none
  | some target =>
    match s.findTable target with
    | some key => .ok (some key)
    | none => .error (.tableNotFound target)

/-- The value that a payload stands for in a column. Links are resolved in `target`; all else is
checked when the value is written. -/
def value (p : Progress) (d : ColumnDef) (target : Option TableKey) :
    Payload → Except Cause Value
  | .null => .ok .null
  | .int n => .ok (.int n)
  | .bool b => .ok (.bool b)
  | .float x => .ok (.float x)
  | .string range => do return .string (← c.string range)
  | .binary bytes => .ok (.binary bytes)
  | .timestamp t => .ok (.timestamp t)
  | .link ref =>
    match target with
    | none => .error (.typeMismatch d.name d.text ValueType.link.text)
    | some t => do return .link (← c.linkedObject p.store p.created d.name t ref)

def set (ref : ObjectRef) (field : NameId) (payload : Payload) : Step (Selection × Effect) := do
  let (t, object, column) ← look fun p => scalarField c sel p ref field
  let target ← look fun p => linkTarget p.store column.definition
  let v ← look fun p => value c p column.definition target payload
  onStore (Store.setScalar ⟨t, object, column.key⟩ v)
  return (sel, .fieldSet (← tableName t) object column.definition.name v)

def addInteger (ref : ObjectRef) (field : NameId) (delta : Int64) : Step (Selection × Effect) := do
  let (t, object, column) ← look fun p => scalarField c sel p ref field
  let d := column.definition
  if d.type ≠ .int then throw (.typeMismatch d.name ValueType.int.text d.text)
  let result ← onStore (Store.addInt ⟨t, object, column.key⟩ delta)
  return (sel, .integerAdded (← tableName t) object d.name delta result)

def selectedList (p : Progress) : Except Cause (Container × Column) := do
  let l ← sel.container
  return (l, ← p.store.column l.table l.column)

def listLabel (l : Container) (column : Column) : Step String := do
  return Effect.place (← tableName l.table) l.object column.definition.name

def listInsert (i : Nat) (payload : Payload) : Step (Selection × Effect) := do
  let (l, column) ← look (selectedList sel)
  let v ← look fun p => value c p column.definition l.target payload
  onStore (Store.listInsert l.fieldRef i v)
  return (sel, .listInserted (← listLabel l column) i v)

def listSet (i : Nat) (payload : Payload) : Step (Selection × Effect) := do
  let (l, column) ← look (selectedList sel)
  let v ← look fun p => value c p column.definition l.target payload
  onStore (Store.listSet l.fieldRef i v)
  return (sel, .listSet (← listLabel l column) i v)

def listErase (i : Nat) : Step (Selection × Effect) := do
  let (l, column) ← look (selectedList sel)
  onStore (Store.listErase l.fieldRef i)
  return (sel, .listErased (← listLabel l column) i)

def listMove (source target : Nat) : Step (Selection × Effect) := do
  let (l, column) ← look (selectedList sel)
  onStore (Store.listMove l.fieldRef source target)
  return (sel, .listMoved (← listLabel l column) source target)

def listSwap (i j : Nat) : Step (Selection × Effect) := do
  let (l, column) ← look (selectedList sel)
  onStore (Store.listSwap l.fieldRef i j)
  return (sel, .listSwapped (← listLabel l column) i j)

def listClear : Step (Selection × Effect) := do
  let (l, column) ← look (selectedList sel)
  let length ← look (·.store.listLength l.fieldRef)
  onStore (Store.listClear l.fieldRef)
  return (sel, .listCleared (← listLabel l column) length)

/-- Applies one instruction under a selection. -/
def dispatch : Instruction → Step (Selection × Effect)
  | .addTable table key => addTable c sel table key
  | .eraseTable table => eraseTable c sel table
  | .addColumn table column type nullable isList target => do
    addColumn c sel table (← look fun _ => newColumn c column type nullable isList target)
  | .eraseColumn table column => eraseColumn c sel table column
  | .selectTable table => selectTable c table
  | .selectField ref field => selectField c sel ref field
  | .selectLinkList ref field => selectLinkList c sel ref field
  | .createObject key => createObject c sel key
  | .eraseObject ref => eraseObject c sel ref
  | .set ref field payload => set c sel ref field payload
  | .addInteger ref field delta => addInteger c sel ref field delta
  | .listInsert i payload => listInsert c sel i.toNat payload
  | .listSet i payload => listSet c sel i.toNat payload
  | .listErase i => listErase sel i.toNat
  | .listMove source target => listMove sel source.toNat target.toNat
  | .listSwap i j => listSwap sel i.toNat j.toNat
  | .listClear => listClear sel

end Step

end ChangesetReplay
