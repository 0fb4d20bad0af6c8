import ChangesetReplay.State.Value
import ChangesetReplay.State.Cause

/-! # Column definitions

A column says of which type its values are, whether they may be null, whether it holds one value or a
list of them, and for links to which table they lead. A key definition names the column that holds
the primary key of a table. -/

namespace ChangesetReplay

/-- Definition of a column. `nullable` speaks of the value, or of each element of a list. -/
structure ColumnDef where
  name : String
  type : ValueType
  nullable : Bool
  isList : Bool
  linkTarget : Option String
deriving DecidableEq

namespace ColumnDef

/-- A scalar that is never null. -/
def required (name : String) (type : ValueType) : ColumnDef := ⟨name, type, false, false, none⟩

def nullableScalar (name : String) (type : ValueType) : ColumnDef :=
  { required name type with nullable := true }

/-- A list of elements that are never null. -/
def listOf (name : String) (type : ValueType) : ColumnDef :=
  { required name type with isList := true }

/-- A link to one object, or to none. -/
def linkTo (name target : String) : ColumnDef :=
  { nullableScalar name .link with linkTarget := some target }

/-- A list of links. -/
def linksTo (name target : String) : ColumnDef :=
  { listOf name .link with linkTarget := some target }

def isLinkList (d : ColumnDef) : Bool := d.isList ∧ d.type = .link

/-- A link column has a target and no other column has one. A single link may be null, an element of
a link list may not. -/
def validate (d : ColumnDef) : Except Cause Unit :=
  let invalid := fun reason => .error (.invalidColumnDef d.name reason)
  match d.type, d.linkTarget with
  | .link, none => invalid "link column without target table"
  | .link, some _ =>
    if d.isList ∧ d.nullable then invalid "link list elements cannot be null"
    else if ¬d.isList ∧ ¬d.nullable then invalid "single link must be nullable"
    else .ok ()
  | _, some _ => invalid "link target on non-link column"
  | _, none => .ok ()

/-- Checks a value, or a list element, against the type. Whether a linked object exists is not
looked at. -/
def checkElement (d : ColumnDef) (v : Value) : Except Cause Unit :=
  match v.type? with
  | none => if d.nullable then .ok () else .error (.notNullable d.name)
  | some t =>
    if t = d.type then
      match v with
      | .timestamp ts =>
        if ts.isValid then .ok () else .error (.invalidTimestamp d.name ts.nanoseconds)
      | _ => .ok ()
    else .error (.typeMismatch d.name d.type.text v.typeName)

/-- The value that a new object has in a scalar column. -/
def defaultValue (d : ColumnDef) : Value :=
  if d.nullable then .null
  else match d.type with
    | .int => .int 0
    | .bool => .bool false
    | .float => .float .zero
    | .string => .string ""
    | .binary => .binary []
    | .timestamp => .timestamp ⟨0, 0⟩
    | .link => .null

/-- The type as messages and effects show it. -/
def text (d : ColumnDef) : String :=
  let element := match d.linkTarget with
    | some target => "Link<" ++ target ++ ">"
    | none => d.type.text
  let element := if d.nullable then element ++ "?" else element
  if d.isList then "List<" ++ element ++ ">" else element

end ColumnDef

/-- The types that a primary key can have. -/
inductive KeyType where
  | int
  | string
deriving DecidableEq

def KeyType.valueType : KeyType → ValueType
  | int => .int
  | string => .string

def KeyType.text (t : KeyType) : String := t.valueType.text

/-- Definition of a primary key: the column that holds it, its type, and whether it may be null. -/
structure KeyDef where
  column : String
  type : KeyType
  nullable : Bool
deriving DecidableEq

namespace KeyDef

def check (d : KeyDef) (table : String) (key : Option PrimaryKey) : Except Cause Unit :=
  let mismatch := fun reason => .error (.primaryKeyMismatch table reason)
  match d.type, key with
  | _, none => mismatch s!"missing value for primary key '{d.column}'"
  | _, some .null =>
    if d.nullable then .ok () else mismatch s!"primary key '{d.column}' is not nullable"
  | .int, some (.int _) => .ok ()
  | .string, some (.string _) => .ok ()
  | expected, some got => mismatch s!"expected {expected.text} key, got {got.typeName}"

def columnDef (d : KeyDef) : ColumnDef := ⟨d.column, d.type.valueType, d.nullable, false, none⟩

end KeyDef

end ChangesetReplay
