import ChangesetReplay.State.Store.Basic

/-! # Object actions

Creating an object fills its fields with defaults; erasing it removes every link to it. -/

namespace ChangesetReplay.Store

open Store.Action

def checkNewKey (t : Table) (key : Option PrimaryKey) : Except Cause Unit := do
  match t.keyDef, key with
  | some d, key => d.check t.name key
  | none, none => .ok ()
  | none, some _ => .error (.primaryKeyMismatch t.name "table has no primary key")
  match key with
  | some k => if t.keyIndex.contains k then .error (.objectExists t.name k.text) else .ok ()
  | none => .ok ()

def createObject (table : TableKey) (key : Option PrimaryKey) : Action ObjectKey := do
  let t ← read (·.table table)
  read fun _ => checkNewKey t key
  let next : ObjectKey := ⟨t.nextObject⟩
  if t.objects.contains next then throw (.keyInUse t.name next.text)
  let (object, t) := t.pushObject key
  modify (·.putTable table t)
  return object

def eraseObject (table : TableKey) (object : ObjectKey) : Action Unit := do
  let t ← read (·.table table)
  if ¬t.objects.contains object then throw (.unknownObjectKey t.name object)
  modify (·.putTable table (t.dropObject object))
  modify fun s => { s with tables := s.tables.map fun _ u => u.dropLinks t.name object }

end ChangesetReplay.Store
