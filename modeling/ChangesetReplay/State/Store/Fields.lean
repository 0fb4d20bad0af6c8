import ChangesetReplay.State.Store.Basic
import ChangesetReplay.State.Sequence

/-! # Field actions

Writing scalar fields and editing list fields. What is written is checked against the column first;
the key column cannot be written at all. -/

namespace ChangesetReplay.Store

open Store.Action

/-- The definition of a scalar column that may be written. -/
def writableScalar (s : Store) (f : FieldRef) : Except Cause ColumnDef := do
  let t ← s.table f.table
  let d ← t.columnDef f.column
  if d.isList then .error (.notAScalar d.name)
  else if t.isKeyColumn d then .error (.primaryKeyColumn t.name d.name)
  else .ok d

def setScalar (f : FieldRef) (v : Value) : Action Unit := do
  let d ← read (·.writableScalar f)
  read (·.checkValue d v)
  let _ ← read fun s => do (← s.table f.table).cell f.object f.column
  modify (·.putCell f (.scalar v))

/-- Adds to an integer field, modulo `2 ^ 64` into the signed range, and gives the sum. -/
def addInt (f : FieldRef) (delta : Int64) : Action Int64 := do
  let d ← read (·.writableScalar f)
  match ← read fun s => do (← s.table f.table).cell f.object f.column with
  | .scalar (.int n) =>
    modify (·.putCell f (.scalar (.int (n + delta))))
    return n + delta
  | .scalar .null => throw (.nullIncrement d.name)
  | .scalar v => throw (.typeMismatch d.name "Int" v.typeName)
  | .list _ => throw (.notAScalar d.name)

/-- Replaces the elements of a list field by an edit of them. -/
def editList (f : FieldRef) (edit : List Value → Except Cause (List Value)) : Action Unit := do
  let items ← read (·.items f)
  let items ← read fun _ => edit items
  modify (·.putCell f (.list items))

/-- Checks an element that is to be written into a list field. -/
def checkElement (f : FieldRef) (v : Value) : Action Unit := do
  let d ← read fun s => do (← s.table f.table).columnDef f.column
  read (·.checkValue d v)

def listGet (s : Store) (f : FieldRef) (i : Nat) : Except Cause Value := do
  Sequence.at? (← s.items f) i

def listInsert (f : FieldRef) (i : Nat) (v : Value) : Action Unit := do
  checkElement f v
  editList f (Sequence.insert i v)

def listSet (f : FieldRef) (i : Nat) (v : Value) : Action Unit := do
  checkElement f v
  editList f (Sequence.set i v)

def listErase (f : FieldRef) (i : Nat) : Action Unit := editList f (Sequence.erase i)

def listMove (f : FieldRef) (source target : Nat) : Action Unit :=
  editList f (Sequence.move source target)

def listSwap (f : FieldRef) (i j : Nat) : Action Unit := editList f (Sequence.swap i j)

def listClear (f : FieldRef) : Action Unit := editList f fun _ => .ok []

end ChangesetReplay.Store
