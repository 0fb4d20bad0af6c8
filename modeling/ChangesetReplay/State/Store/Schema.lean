import ChangesetReplay.State.Store.Basic

/-! # Schema actions

Adding and erasing tables and columns. A table that other tables link to cannot be erased, nor can a
key column. -/

namespace ChangesetReplay.Store

open Store.Action

def addTable (name : String) (keyDef : Option KeyDef) : Action TableKey := do
  let s ← get
  if (s.findTable name).isSome then throw (.tableExists name)
  let key : TableKey := ⟨s.nextTable⟩
  if s.tables.contains key then throw (.keyInUse name key.text)
  let t ← read fun _ => Table.create key name keyDef
  modify fun s => { s with nextTable := s.nextTable + 1 }
  modify (·.putTable key t)
  return key

def eraseTable (table : TableKey) : Action Unit := do
  match ← read (·.linkOrigins table) with
  | origin :: _ =>
    let name ← read (·.tableName table)
    throw (.tableIsLinkTarget name origin)
  | [] => modify fun s => { s with tables := s.tables.erase table }

def addColumn (table : TableKey) (d : ColumnDef) : Action ColumnKey := do
  read fun _ => d.validate
  if let some target := d.linkTarget then
    if ((← get).findTable target).isNone then throw (.tableNotFound target)
  let t ← read (·.table table)
  if (t.column? d.name).isSome then throw (.columnExists t.name d.name)
  let (key, t) ← read fun _ => t.pushColumn d
  modify (·.putTable table t)
  return key

def eraseColumn (table : TableKey) (column : ColumnKey) : Action Unit := do
  let t ← read (·.table table)
  let d ← read fun _ => t.columnDef column
  if t.isKeyColumn d then throw (.primaryKeyColumn t.name d.name)
  modify (·.putTable table (t.dropColumn column))

end ChangesetReplay.Store
