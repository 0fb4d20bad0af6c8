import ChangesetReplay.Number.Numeral
import ChangesetReplay.Json.Escape

/-! # JSON values

A JSON value as it is written: numbers keep their numeral, strings and member names their escapes,
objects the order and repetition of their members. What a part of it means is decided by whoever
reads that part. -/

namespace ChangesetReplay

inductive Json where
  | null
  | bool (value : Bool)
  | number (numeral : Numeral)
  | string (raw : List Char)
  | array (items : List Json)
  | object (members : List (List Char × Json))

namespace Json

instance : Inhabited Json := ⟨null⟩

def ofString (s : String) : Json := string (escape s.toList)

def ofNat (n : Nat) : Json := number (.ofNat n)

def ofInt (n : Int) : Json := number (.ofInt n)

def member (name : String) (value : Json) : List Char × Json := (escape name.toList, value)

def ofMembers (members : List (String × Json)) : Json :=
  object (members.map fun (name, value) => member name value)

/-- The value, or null when there is none. -/
def ofOption (encode : α → Json) : Option α → Json
  | none => null
  | some a => encode a

end Json

end ChangesetReplay
