import ChangesetReplay.Text.Blank

/-! # Limits

What is asked of a changeset before any of it is applied. Limits can be read from two variables of
the environment. -/

namespace ChangesetReplay

structure Limits where
  maxInstructions : Option Nat
  checkSchemaVersion : Bool
deriving DecidableEq

inductive LimitsError where
  | invalidMaxInstructions (raw : String)
  | invalidCheckSchemaVersion (raw : String)
deriving DecidableEq

def LimitsError.message : LimitsError → String
  | invalidMaxInstructions raw => s!"Invalid CARRY_REPLAY_MAX_INSTRUCTIONS value: {raw}"
  | invalidCheckSchemaVersion raw => s!"Invalid CARRY_REPLAY_CHECK_SCHEMA_VERSION value: {raw}"

namespace Limits

/-- No limit on the number of instructions; the schema version must be the store's. -/
def standard : Limits := ⟨none, true⟩

def maxInstructionsVariable : String := "CARRY_REPLAY_MAX_INSTRUCTIONS"

def checkSchemaVersionVariable : String := "CARRY_REPLAY_CHECK_SCHEMA_VERSION"

def withMaxInstructions (l : Limits) (limit : Nat) : Limits :=
  { l with maxInstructions := some limit }

def withSchemaVersionCheck (l : Limits) (check : Bool) : Limits :=
  { l with checkSchemaVersion := check }

/-- Reads digits, after at most one plus sign, as a number of 64 bits. -/
def count? (cs : List Char) : Option Nat :=
  let digits := match cs with
    | '+' :: rest => rest
    | rest => rest
  let n := Nat.ofDigitChars 10 digits 0
  if digits ≠ [] ∧ digits.all Char.isDigit ∧ n < UInt64.size then some n else none

/-- Reads a word for yes or no, in any case of its letters. -/
def flag? (cs : List Char) : Option Bool :=
  let word := String.ofList (cs.map Char.toLower)
  if word ∈ ["1", "true", "yes", "on"] then some true
  else if word ∈ ["0", "false", "no", "off"] then some false
  else none

/-- The limits that the variables of an environment ask for. Blanks around a value do not count. -/
def ofVariables (lookup : String → Option String) : Except LimitsError Limits := do
  let limits ← match lookup maxInstructionsVariable with
    | none => pure standard
    | some raw =>
      match count? (Text.trim raw.toList) with
      | some limit => pure (standard.withMaxInstructions limit)
      | none => .error (.invalidMaxInstructions raw)
  match lookup checkSchemaVersionVariable with
  | none => pure limits
  | some raw =>
    match flag? (Text.trim raw.toList) with
    | some check => pure (limits.withSchemaVersionCheck check)
    | none => .error (.invalidCheckSchemaVersion raw)

end Limits

end ChangesetReplay
