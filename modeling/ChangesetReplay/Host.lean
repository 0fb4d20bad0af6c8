import ChangesetReplay.Replay.Run
import ChangesetReplay.Form.Changeset
import ChangesetReplay.Form.Snapshot

/-! # Host calls

A host holds at most one store and passes changesets and snapshots to it as null-terminated text.
Every call is answered by one JSON text: an object with the member `ok`, or one with the member
`error`. -/

namespace ChangesetReplay.Host

structure Fault where
  message : String
  kind : Option CauseKind
  index : Option Nat
  instruction : Option InstructionKind
deriving DecidableEq

namespace Fault

def ofMessage (message : String) : Fault := ⟨message, none, none, none⟩

/-- A text could not be read. What the reader says of it comes after `what`, if that is known. -/
def unreadable (what : String) (complaint : Option String) : Fault :=
  ofMessage (complaint.elim what fun m => s!"{what}: {m}")

def ofError (e : ApplyError) : Fault :=
  ⟨e.message, some e.kind, e.failure?.map (·.index), e.failure?.map (·.kind)⟩

/-- What is not known is left out. -/
def toJson (f : Fault) : Json :=
  .ofMembers ([("message", .ofString f.message)] ++
    (f.kind.map fun k => ("kind", .ofString k.name)).toList ++
    (f.index.map fun i => ("index", .ofNat i)).toList ++
    (f.instruction.map fun k => ("instruction", .ofString k.text)).toList)

end Fault

/-- Sent in place of a text that could not be null-terminated. -/
def nullByteResponse : String :=
  Json.compact (.ofMembers [("error", (Fault.ofMessage "string contained null bytes").toJson)])

def send (text : String) : String := if '\x00' ∈ text.toList then nullByteResponse else text

def success (j : Json) : String := send (Json.compact (.ofMembers [("ok", j)]))

def failure (f : Fault) : String := send (Json.compact (.ofMembers [("error", f.toJson)]))

/-- The text that a host passes: the bytes up to the first null, which have to be UTF-8. -/
def received? (bytes : Option ByteArray) : Option String := do
  String.fromUTF8? ⟨((← bytes).toList.takeWhile (· ≠ 0)).toArray⟩

/-- Applies a changeset, under the limits that the variables of the environment ask for. If the text
cannot be read, `complaint` is what the reader says of it. -/
def apply (environment : String → Option String) (store : Option Store) (bytes : Option ByteArray)
    (complaint : Option String := none) : String × Option Store :=
  match store with
  | none => (failure (.ofMessage "null store pointer"), none)
  | some s =>
    match received? bytes with
    | none => (failure (.ofMessage "invalid changeset JSON"), some s)
    | some text =>
      match Changeset.ofText? text with
      | none => (failure (.unreadable "parse error" complaint), some s)
      | some c =>
        match Limits.ofVariables environment with
        | .error e => (failure (.ofMessage e.message), some s)
        | .ok limits =>
          let outcome := s.apply limits c
          match outcome.error with
          | some e => (failure (.ofError e), some outcome.store)
          | none =>
            (success (.ofMembers [("applied", .ofNat c.instructions.length)]), some outcome.store)

def exportState (store : Option Store) : String :=
  match store with
  | none => failure (.ofMessage "null store pointer")
  | some s => success s.exportState.toJson

/-- Replaces the content of the store by a snapshot. If the text cannot be read, `complaint` is what
the reader says of it. -/
def importState (store : Option Store) (bytes : Option ByteArray)
    (complaint : Option String := none) : String × Option Store :=
  match store with
  | none => (failure (.ofMessage "null store pointer"), none)
  | some s =>
    match received? bytes with
    | none => (failure (.ofMessage "invalid snapshot JSON"), some s)
    | some text =>
      match Snapshot.ofText text with
      | .error .malformed => (failure (.unreadable "invalid snapshot" complaint), some s)
      | .error (.inconsistent e) => (failure (.ofMessage e.message), some s)
      | .ok snapshot =>
        match Store.importState snapshot s with
        | .ok () s => (success .null, some s)
        | .error e s => (failure (.ofMessage e.message), some s)

def version : String := "0.1.0"

end ChangesetReplay.Host
