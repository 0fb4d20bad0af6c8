import ChangesetReplay.Json.Token

/-! # Reading JSON

Tokens are put together into a value one at a time, with the containers that are still open on a
stack. The work is linear and there is no limit on nesting. -/

namespace ChangesetReplay.Json

/-- An open container that waits for a value: what it holds already, last first. -/
inductive Frame where
  | items (before : List Json)
  | members (before : List (List Char × Json)) (name : List Char)

/-- What comes next: a value, a first item or the end of an array, a first name or the end of an
object, a name, a colon, or what follows a value. -/
inductive Focus where
  | value
  | firstItem
  | firstName
  | name (before : List (List Char × Json))
  | colon (before : List (List Char × Json)) (name : List Char)
  | after (value : Json)

structure Builder where
  focus : Focus
  frames : List Frame

namespace Builder

def start : Builder := ⟨.value, []⟩

/-- Takes the token that begins a value. -/
def value? (frames : List Frame) : Token → Option Builder
  | .null => some ⟨.after .null, frames⟩
  | .bool b => some ⟨.after (.bool b), frames⟩
  | .number n => some ⟨.after (.number n), frames⟩
  | .string raw => some ⟨.after (.string raw), frames⟩
  | .openArray => some ⟨.firstItem, .items [] :: frames⟩
  | .openObject => some ⟨.firstName, frames⟩
  | _ => none

def step? (b : Builder) (t : Token) : Option Builder :=
  match b.focus, b.frames, t with
  | .value, frames, t => value? frames t
  | .firstItem, .items _ :: frames, .closeArray => some ⟨.after (.array []), frames⟩
  | .firstItem, frames, t => value? frames t
  | .firstName, frames, .closeObject => some ⟨.after (.object []), frames⟩
  | .firstName, frames, .string name => some ⟨.colon [] name, frames⟩
  | .name before, frames, .string name => some ⟨.colon before name, frames⟩
  | .colon before name, frames, .colon => some ⟨.value, .members before name :: frames⟩
  | .after j, .items before :: frames, .comma => some ⟨.value, .items (j :: before) :: frames⟩
  | .after j, .items before :: frames, .closeArray =>
    some ⟨.after (.array (j :: before).reverse), frames⟩
  | .after j, .members before name :: frames, .comma =>
    some ⟨.name ((name, j) :: before), frames⟩
  | .after j, .members before name :: frames, .closeObject =>
    some ⟨.after (.object ((name, j) :: before).reverse), frames⟩
  | _, _, _ => none

def finish? : Builder → Option Json
  | ⟨.after j, []⟩ => some j
  | _ => none

end Builder

def ofTokens? (ts : List Token) : Option Json := do
  (← ts.foldlM Builder.step? .start).finish?

def ofText? (text : String) : Option Json := do
  ofTokens? (← tokens? text.toList)

end ChangesetReplay.Json
