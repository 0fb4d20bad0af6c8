/-! # Byte ranges of a text

A range of a text is given in UTF-8 bytes. It denotes a part of the text only if it begins and ends
between characters. -/

namespace ChangesetReplay.Text

/-- Takes characters of exactly `size` bytes off the front, and gives them with what is left. -/
def takeBytes? : Nat → List Char → Option (List Char × List Char)
  | 0, cs => some ([], cs)
  | _ + 1, [] => none
  | size + 1, c :: cs =>
    if c.utf8Size ≤ size + 1 then
      (takeBytes? (size + 1 - c.utf8Size) cs).map fun (taken, rest) => (c :: taken, rest)
    else none
termination_by structural _ cs => cs

/-- The part of `size` bytes that begins `offset` bytes into the text. -/
def slice? (cs : List Char) (offset size : Nat) : Option (List Char) := do
  let (_, rest) ← takeBytes? offset cs
  let (taken, _) ← takeBytes? size rest
  some taken

end ChangesetReplay.Text
