import ChangesetReplay.State.Column

/-! # Instructions

One instruction is one operation of a changeset. It names tables and columns by entries of the
changeset's intern table, strings by ranges of its buffer, and objects in one of three ways. -/

namespace ChangesetReplay

/-- An entry of the intern table. -/
structure NameId where
  index : UInt32
deriving DecidableEq

/-- A range of the string buffer, in bytes. -/
structure StringRange where
  offset : UInt32
  size : UInt32
deriving DecidableEq

structure KeySpec where
  column : NameId
  type : KeyType
  nullable : Bool
deriving DecidableEq

inductive KeyPayload where
  | null
  | int (n : Int64)
  | string (range : StringRange)
deriving DecidableEq

/-- An object, named as the one created so many objects after the first of this changeset, by its
primary key in the table addressed, or by its key there. -/
inductive ObjectRef where
  | created (index : UInt32)
  | primaryKey (key : KeyPayload)
  | key (object : ObjectKey)
deriving DecidableEq

inductive Payload where
  | null
  | int (n : Int64)
  | bool (b : Bool)
  | float (x : Binary64)
  | string (range : StringRange)
  | binary (bytes : List UInt8)
  | timestamp (t : Timestamp)
  | link (object : ObjectRef)
deriving DecidableEq

inductive InstructionKind where
  | addTable
  | eraseTable
  | addColumn
  | eraseColumn
  | selectTable
  | selectField
  | selectLinkList
  | createObject
  | eraseObject
  | set
  | addInteger
  | listInsert
  | listSet
  | listErase
  | listMove
  | listSwap
  | listClear
deriving DecidableEq

def InstructionKind.text : InstructionKind → String
  | addTable => "AddTable"
  | eraseTable => "EraseTable"
  | addColumn => "AddColumn"
  | eraseColumn => "EraseColumn"
  | selectTable => "SelectTable"
  | selectField => "SelectField"
  | selectLinkList => "SelectLinkList"
  | createObject => "CreateObject"
  | eraseObject => "EraseObject"
  | set => "Set"
  | addInteger => "AddInteger"
  | listInsert => "ListInsert"
  | listSet => "ListSet"
  | listErase => "ListErase"
  | listMove => "ListMove"
  | listSwap => "ListSwap"
  | listClear => "ListClear"

/-- Schema instructions name their table. The others work on the selected table, the list
instructions on the selected list. -/
inductive Instruction where
  | addTable (table : NameId) (primaryKey : Option KeySpec)
  | eraseTable (table : NameId)
  | addColumn (table column : NameId) (type : ValueType) (nullable isList : Bool)
      (linkTarget : Option NameId)
  | eraseColumn (table column : NameId)
  | selectTable (table : NameId)
  | selectField (object : ObjectRef) (field : NameId)
  | selectLinkList (object : ObjectRef) (field : NameId)
  | createObject (primaryKey : Option KeyPayload)
  | eraseObject (object : ObjectRef)
  | set (object : ObjectRef) (field : NameId) (value : Payload)
  | addInteger (object : ObjectRef) (field : NameId) (delta : Int64)
  | listInsert (index : UInt32) (value : Payload)
  | listSet (index : UInt32) (value : Payload)
  | listErase (index : UInt32)
  | listMove (source target : UInt32)
  | listSwap (i j : UInt32)
  | listClear
deriving DecidableEq

namespace Instruction

def kind : Instruction → InstructionKind
  | addTable .. => .addTable
  | eraseTable .. => .eraseTable
  | addColumn .. => .addColumn
  | eraseColumn .. => .eraseColumn
  | selectTable .. => .selectTable
  | selectField .. => .selectField
  | selectLinkList .. => .selectLinkList
  | createObject .. => .createObject
  | eraseObject .. => .eraseObject
  | set .. => .set
  | addInteger .. => .addInteger
  | listInsert .. => .listInsert
  | listSet .. => .listSet
  | listErase .. => .listErase
  | listMove .. => .listMove
  | listSwap .. => .listSwap
  | listClear => .listClear

def isSelection : Instruction → Bool
  | selectTable .. | selectField .. | selectLinkList .. => true
  | _ => false

end Instruction

end ChangesetReplay
