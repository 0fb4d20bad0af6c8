import ChangesetReplay.Log.Changeset
import ChangesetReplay.State.Store.Schema

/-! # References

What the names and object references of a changeset stand for in a store, given the objects that the
changeset has created so far. -/

namespace ChangesetReplay

/-- An object created by the current changeset. -/
structure Handle where
  table : TableKey
  object : ObjectKey
deriving DecidableEq

namespace Changeset

open Store.Action

def table (c : Changeset) (s : Store) (id : NameId) : Except Cause TableKey := do
  let name ← c.name id
  match s.findTable name with
  | some key => .ok key
  | none => .error (.tableNotFound name)

def column (c : Changeset) (s : Store) (table : TableKey) (id : NameId) : Except Cause Column := do
  let name ← c.name id
  match ← s.findColumn table name with
  | some column => .ok column
  | none => .error (.columnNotFound (s.tableNameOrEmpty table) name)

/-- Adds the table of a name. An existing one is never taken instead. -/
def createTable (c : Changeset) (id : NameId) (key : Option KeySpec) : Store.Action TableKey := do
  let name ← read fun _ => c.name id
  if ((← get).findTable name).isSome then throw (.tableExists name)
  let keyDef ← match key with
    | none => pure none
    | some spec => do
      let column ← read fun _ => c.name spec.column
      pure (some ⟨column, spec.type, spec.nullable⟩)
  Store.addTable name keyDef

/-- The object that was created as number `index`. -/
def handle (created : List Handle) (index : UInt32) : Except Cause Handle :=
  match created[index.toNat]? with
  | some h => .ok h
  | none => .error (.unknownObjectRef index created.length)

/-- `object` itself, if it is in the table; `shown` is how it is called if not. -/
def existing (s : Store) (table : TableKey) (object : ObjectKey) (shown : String) :
    Except Cause ObjectKey := do
  if ← s.containsObject table object then .ok object
  else .error (.objectNotFound (← s.tableName table) shown)

def object (c : Changeset) (s : Store) (created : List Handle) (table : TableKey) :
    ObjectRef → Except Cause ObjectKey
  | .created index => do
    let h ← handle created index
    if h.table ≠ table then
      .error (.objectTableMismatch (← s.tableName table) (s.tableNameOrEmpty h.table))
    else existing s table h.object s!"created#{index.toNat}"
  | .primaryKey key => do
    let key ← c.primaryKey key
    let name ← s.tableName table
    match ← s.keyDef table with
    | some d => d.check name (some key)
    | none => .error (.primaryKeyMismatch name "table has no primary key")
    match ← s.findObject table key with
    | some object => .ok object
    | none => .error (.objectNotFound name key.text)
  | .key object => existing s table object object.text

/-- The object that a link in `field` stands for. That an object was created in another table than
the one linked to is a fault of the link. -/
def linkedObject (c : Changeset) (s : Store) (created : List Handle) (field : String)
    (target : TableKey) (ref : ObjectRef) : Except Cause ObjectKey := do
  match ref with
  | .created index => do
    let h ← handle created index
    if h.table ≠ target then
      .error (.linkTargetMismatch field (← s.tableName target) (s.tableNameOrEmpty h.table))
  | _ => .ok ()
  c.object s created target ref

end Changeset

end ChangesetReplay
