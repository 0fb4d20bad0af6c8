import ChangesetReplay.Log.Instruction
import ChangesetReplay.Text.Slice

/-! # Changesets

A changeset is a list of instructions with the strings they refer to. It is built by interning names,
appending strings to the buffer and appending instructions; what was handed out stays valid. -/

namespace ChangesetReplay

structure Changeset where
  schemaVersion : UInt32
  strings : List String
  buffer : String
  instructions : List Instruction
deriving DecidableEq

namespace Changeset

def new (schemaVersion : UInt32) : Changeset := ⟨schemaVersion, [], "", []⟩

/-- The entry of a name in the intern table, which is added at the end if it is not there. -/
def intern (c : Changeset) (name : String) : NameId × Changeset :=
  match c.strings.findIdx? (· = name) with
  | some i => (⟨UInt32.ofNat i⟩, c)
  | none => (⟨UInt32.ofNat c.strings.length⟩, { c with strings := c.strings ++ [name] })

/-- Appends a string to the buffer and gives its range. -/
def addString (c : Changeset) (s : String) : StringRange × Changeset :=
  (⟨UInt32.ofNat c.buffer.utf8ByteSize, UInt32.ofNat s.utf8ByteSize⟩,
   { c with buffer := c.buffer ++ s })

def push (c : Changeset) (i : Instruction) : Changeset :=
  { c with instructions := c.instructions ++ [i] }

def name (c : Changeset) (id : NameId) : Except Cause String :=
  match c.strings[id.index.toNat]? with
  | some s => .ok s
  | none => .error (.unknownString id.index)

def string (c : Changeset) (range : StringRange) : Except Cause String :=
  match Text.slice? c.buffer.toList range.offset.toNat range.size.toNat with
  | some cs => .ok (String.ofList cs)
  | none => .error (.badStringRange range.offset range.size)

def primaryKey (c : Changeset) : KeyPayload → Except Cause PrimaryKey
  | .null => .ok .null
  | .int n => .ok (.int n)
  | .string range => do return .string (← c.string range)

end Changeset

end ChangesetReplay
