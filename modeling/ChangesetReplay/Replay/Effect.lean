import ChangesetReplay.Log.Instruction

/-! # Effects

What a successful instruction did, and the line that a trace shows for it. -/

namespace ChangesetReplay

inductive Effect where
  | tableAdded (table : String)
  | tableErased (table : String)
  | columnAdded (table column type : String)
  | columnErased (table column : String)
  | tableSelected (table : String)
  | fieldSelected (table : String) (object : ObjectKey) (field : String)
  | linkListSelected (table : String) (object : ObjectKey) (field target : String)
  | objectCreated (table : String) (object : ObjectKey) (index : UInt32)
  | objectErased (table : String) (object : ObjectKey)
  | fieldSet (table : String) (object : ObjectKey) (field : String) (value : Value)
  | integerAdded (table : String) (object : ObjectKey) (field : String) (delta result : Int64)
  | listInserted (field : String) (index : Nat) (value : Value)
  | listSet (field : String) (index : Nat) (value : Value)
  | listErased (field : String) (index : Nat)
  | listMoved (field : String) (source target : Nat)
  | listSwapped (field : String) (i j : Nat)
  | listCleared (field : String) (length : Nat)
deriving DecidableEq

namespace Effect

def isMutation : Effect → Bool
  | tableSelected .. | fieldSelected .. | linkListSelected .. => false
  | _ => true

/-- A field of an object, as effects name it. -/
def place (table : String) (object : ObjectKey) (field : String) : String :=
  s!"{table}[{object.text}].{field}"

def text : Effect → String
  | tableAdded table => s!"add table {table}"
  | tableErased table => s!"erase table {table}"
  | columnAdded table column type => s!"add column {table}.{column}: {type}"
  | columnErased table column => s!"erase column {table}.{column}"
  | tableSelected table => s!"select table {table}"
  | fieldSelected table object field => s!"select list {place table object field}"
  | linkListSelected table object field target =>
    s!"select link list {place table object field} -> {target}"
  | objectCreated table object index =>
    s!"create object {table}[{object.text}] as #{index.toNat}"
  | objectErased table object => s!"erase object {table}[{object.text}]"
  | fieldSet table object field value => s!"set {place table object field} = {value.text}"
  | integerAdded table object field delta result =>
    s!"add {delta.toInt} to {place table object field} = {result.toInt}"
  | listInserted field index value => s!"insert {field}[{index}] = {value.text}"
  | listSet field index value => s!"set {field}[{index}] = {value.text}"
  | listErased field index => s!"erase {field}[{index}]"
  | listMoved field source target => s!"move {field}[{source}] to {target}"
  | listSwapped field i j => s!"swap {field}[{i}] and [{j}]"
  | listCleared field length => s!"clear {field} ({length} elements)"

end Effect

/-- An instruction that was applied, with its position in the changeset. -/
structure Event where
  index : Nat
  kind : InstructionKind
  effect : Effect
deriving DecidableEq

def Event.text (e : Event) : String := s!"#{e.index} {e.kind.text}: {e.effect.text}"

end ChangesetReplay
