import ChangesetReplay.Json.Basic

/-! # Writing JSON

One printer with two spacings: without blanks, or one item a line with two blanks more at each
level. Empty containers stand on one line in both. -/

namespace ChangesetReplay.Json

/-- The blanks before an item at a given depth, and those after a colon. -/
structure Spacing where
  line : Nat → List Char
  afterColon : List Char

def Spacing.tight : Spacing := ⟨fun _ => [], []⟩

def Spacing.indented : Spacing := ⟨fun depth => '\n' :: List.replicate (2 * depth) ' ', [' ']⟩

def quote (raw : List Char) : List Char := '"' :: raw ++ ['"']

mutual

def render (sp : Spacing) (depth : Nat) : Json → List Char
  | .null => ['n', 'u', 'l', 'l']
  | .bool true => ['t', 'r', 'u', 'e']
  | .bool false => ['f', 'a', 'l', 's', 'e']
  | .number n => n.text true
  | .string raw => quote raw
  | .array [] => ['[', ']']
  | .array (j :: js) =>
    '[' :: (sp.line (depth + 1) ++ render sp (depth + 1) j ++ renderItems sp (depth + 1) js) ++
      sp.line depth ++ [']']
  | .object [] => ['\x7b', '\x7d']
  | .object ((name, j) :: ms) =>
    '\x7b' :: (sp.line (depth + 1) ++ quote name ++ ':' :: sp.afterColon ++
      render sp (depth + 1) j ++ renderMembers sp (depth + 1) ms) ++ sp.line depth ++ ['\x7d']

/-- The items after the first. -/
def renderItems (sp : Spacing) (depth : Nat) : List Json → List Char
  | [] => []
  | j :: js => ',' :: sp.line depth ++ render sp depth j ++ renderItems sp depth js

def renderMembers (sp : Spacing) (depth : Nat) : List (List Char × Json) → List Char
  | [] => []
  | (name, j) :: ms =>
    ',' :: sp.line depth ++ quote name ++ ':' :: sp.afterColon ++ render sp depth j ++
      renderMembers sp depth ms

end

def compact (j : Json) : String := String.ofList (render .tight 0 j)

def pretty (j : Json) : String := String.ofList (render .indented 0 j)

end ChangesetReplay.Json
