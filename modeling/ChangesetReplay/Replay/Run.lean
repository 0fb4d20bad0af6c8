import ChangesetReplay.Replay.Step
import ChangesetReplay.Replay.Limits

/-! # Runs

A changeset is applied in order and stops at the first instruction that fails. The instructions
before it have been applied then, and their events recorded. -/

namespace ChangesetReplay

structure Failure where
  index : Nat
  kind : InstructionKind
  cause : Cause
deriving DecidableEq

/-- Why a changeset was not applied in full: an instruction failed, or it was rejected as a whole. -/
inductive ApplyError where
  | instruction (failure : Failure)
  | tooManyInstructions (limit actual : Nat)
  | schemaVersionMismatch (expected actual : UInt32)
deriving DecidableEq

namespace ApplyError

def kind : ApplyError → CauseKind
  | instruction f => f.cause.kind
  | tooManyInstructions .. | schemaVersionMismatch .. => .malformedLog

def failure? : ApplyError → Option Failure
  | instruction f => some f
  | _ => none

def message : ApplyError → String
  | instruction f => s!"instruction {f.index} ({f.kind.text}) failed: {f.cause.message}"
  | tooManyInstructions limit actual => s!"changeset has {actual} instructions, limit is {limit}"
  | schemaVersionMismatch expected actual =>
    s!"changeset schema version mismatch: expected {expected.toNat}, got {actual.toNat}"

end ApplyError

/-- How far a list of instructions came. -/
structure Trail where
  progress : Progress
  selection : Selection
  events : List Event
  failure : Option Failure
deriving DecidableEq

namespace Replay

/-- Applies instructions, the first of which is number `index`, until one fails. -/
def run (c : Changeset) (index : Nat) (sel : Selection) : List Instruction → Progress → Trail
  | [], p => ⟨p, sel, [], none⟩
  | i :: rest, p =>
    match Step.dispatch c sel i p with
    | .error cause p => ⟨p, sel, [], some ⟨index, i.kind, cause⟩⟩
    | .ok (sel, effect) p =>
      let trail := run c (index + 1) sel rest p
      { trail with events := ⟨index, i.kind, effect⟩ :: trail.events }

/-- What one instruction comes to in a run that goes on after failures: a failed one keeps the
selection. -/
def attempt (c : Changeset) (sel : Selection) (i : Instruction) (p : Progress) :
    Except Cause Effect × Selection × Progress :=
  match Step.dispatch c sel i p with
  | .error cause p => (.error cause, sel, p)
  | .ok (sel, effect) p => (.ok effect, sel, p)

def check (limits : Limits) (c : Changeset) (s : Store) : Except ApplyError Unit := do
  if let some limit := limits.maxInstructions then
    if limit < c.instructions.length then
      throw (.tooManyInstructions limit c.instructions.length)
  if limits.checkSchemaVersion ∧ c.schemaVersion ≠ s.schemaVersion then
    throw (.schemaVersionMismatch s.schemaVersion c.schemaVersion)

end Replay

structure Outcome where
  store : Store
  events : List Event
  error : Option ApplyError
deriving DecidableEq

def Store.apply (s : Store) (limits : Limits) (c : Changeset) : Outcome :=
  match Replay.check limits c s with
  | .error e => ⟨s, [], some e⟩
  | .ok () =>
    let trail := Replay.run c 0 .none c.instructions ⟨s, []⟩
    ⟨trail.progress.store, trail.events, trail.failure.map .instruction⟩

end ChangesetReplay
