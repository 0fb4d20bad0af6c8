import ChangesetReplay.Replay.Reference

/-! # Selections

Instructions do not repeat the table, object and column they work on; they rely on what was selected
before. A selection goes stale when what it names is erased: as a whole with its table, as a list
with its column or object. -/

namespace ChangesetReplay

inductive Selection where
  | none
  | table (table : TableKey)
  | field (table : TableKey) (object : ObjectKey) (column : ColumnKey)
  | linkList (table : TableKey) (object : ObjectKey) (column : ColumnKey) (target : TableKey)
  | staleContainer (table : TableKey)
  | stale
deriving DecidableEq

/-- A selected list; `target` is the table that a list of links leads to. -/
structure Container where
  table : TableKey
  object : ObjectKey
  column : ColumnKey
  target : Option TableKey
deriving DecidableEq

def Container.fieldRef (c : Container) : FieldRef := ⟨c.table, c.object, c.column⟩

namespace Selection

def selectedTable : Selection → Except Cause TableKey
  | table t | field t .. | linkList t .. | staleContainer t => .ok t
  | none => .error .noTableSelected
  | stale => .error .staleSelection

def container : Selection → Except Cause Container
  | field t o c => .ok ⟨t, o, c, Option.none⟩
  | linkList t o c target => .ok ⟨t, o, c, some target⟩
  | none | table _ => .error .noContainerSelected
  | staleContainer _ | stale => .error .staleSelection

/-- Selects a table; any selection allows it. -/
def selectTable (c : Changeset) (s : Store) (id : NameId) : Except Cause Selection := do
  let name ← c.name id
  match s.findTable name with
  | some key => .ok (table key)
  | Option.none => .error (.selectedTableMissing name)

def selectableColumn (c : Changeset) (s : Store) (t : TableKey) (id : NameId) :
    Except Cause Column := do
  let name ← c.name id
  match ← s.findColumn t name with
  | some column => .ok column
  | Option.none => .error (.selectedColumnMissing (s.tableNameOrEmpty t) name)

/-- Selects a list, not of links, of an object of the selected table. -/
def selectField (sel : Selection) (c : Changeset) (s : Store) (created : List Handle)
    (ref : ObjectRef) (id : NameId) : Except Cause Selection := do
  let t ← sel.selectedTable
  let column ← selectableColumn c s t id
  if ¬column.definition.isList ∨ column.definition.isLinkList then
    .error (.notAList (← s.tableName t) column.definition.name)
  else
    let object ← c.object s created t ref
    return field t object column.key

/-- Selects a list of links of an object of the selected table. -/
def selectLinkList (sel : Selection) (c : Changeset) (s : Store) (created : List Handle)
    (ref : ObjectRef) (id : NameId) : Except Cause Selection := do
  let t ← sel.selectedTable
  let column ← selectableColumn c s t id
  let target ← match column.definition.linkTarget, column.definition.isLinkList with
    | some target, true =>
      match s.findTable target with
      | some key => pure key
      | Option.none => .error (.tableNotFound target)
    | _, _ => do .error (.notALinkList (← s.tableName t) column.definition.name)
  let object ← c.object s created t ref
  return linkList t object column.key target

def afterTableErased (sel : Selection) (erased : TableKey) : Selection :=
  match sel.selectedTable with
  | .ok t => if t = erased then stale else sel
  | .error _ => sel

def afterColumnErased (sel : Selection) (t : TableKey) (erased : ColumnKey) : Selection :=
  match sel.container with
  | .ok c => if c.table = t ∧ c.column = erased then staleContainer t else sel
  | .error _ => sel

def afterObjectErased (sel : Selection) (t : TableKey) (erased : ObjectKey) : Selection :=
  match sel.container with
  | .ok c => if c.table = t ∧ c.object = erased then staleContainer t else sel
  | .error _ => sel

end Selection

end ChangesetReplay
