import ChangesetReplay.Json.Basic

/-! # Taking JSON values apart

Readers for the common shapes: bounded integers, records written as objects or as arrays of their
fields, and values tagged with the name of their kind. A value read while it arrives is not looked
at where it is not needed. A value that has to be held back, because the tag comes after it, is
looked at as a whole: every string in it has to be well formed, every number finite, and the nesting
bounded. -/

namespace ChangesetReplay.Json

/-- How a value is met: as it arrives, with room for so many levels of containers should it have to
be held back, or after it was held back. -/
inductive Reading where
  | arriving (room : Nat)
  | held
deriving DecidableEq

namespace Reading

def document : Reading := .arriving 127

/-- The reading of what stands inside a container. -/
def inner : Reading → Reading
  | .arriving room => .arriving (room - 1)
  | .held => .held

end Reading

mutual

/-- Whether a value can be held back with room for so many levels of containers. -/
def holdable (room : Nat) : Json → Bool
  | .null => true
  | .bool _ => true
  | .number n => n.toBinary64?.isSome
  | .string raw => (unescape? raw).isSome
  | .array items => room ≠ 0 && holdableItems (room - 1) items
  | .object members => room ≠ 0 && holdableMembers (room - 1) members

def holdableItems (room : Nat) : List Json → Bool
  | [] => true
  | j :: js => holdable room j && holdableItems room js

def holdableMembers (room : Nat) : List (List Char × Json) → Bool
  | [] => true
  | (name, j) :: ms => (unescape? name).isSome && holdable room j && holdableMembers room ms

end

def text? : Json → Option String
  | .string raw => (unescape? raw).map String.ofList
  | _ => none

def bool? : Json → Option Bool
  | .bool b => some b
  | _ => none

def int? : Json → Option Int
  | .number n => n.int?
  | _ => none

def intIn? (low high : Int) (j : Json) : Option Int := do
  let n ← j.int?
  if low ≤ n ∧ n ≤ high then some n else none

def uint8? (j : Json) : Option UInt8 := (j.intIn? 0 255).map fun n => UInt8.ofNat n.toNat

def uint32? (j : Json) : Option UInt32 :=
  (j.intIn? 0 4294967295).map fun n => UInt32.ofNat n.toNat

def uint64? (j : Json) : Option UInt64 :=
  (j.intIn? 0 18446744073709551615).map fun n => UInt64.ofNat n.toNat

def int32? (j : Json) : Option Int32 := (j.intIn? (-2147483648) 2147483647).map Int32.ofInt

def int64? (j : Json) : Option Int64 :=
  (j.intIn? (-9223372036854775808) 9223372036854775807).map Int64.ofInt

def list? (item? : Json → Option α) : Json → Option (List α)
  | .array items => items.mapM item?
  | _ => none

/-- Null stands for an absent value. -/
def optional? (value? : Json → Option α) : Json → Option (Option α)
  | .null => some none
  | j => (value? j).map some

/-- The value of a field that may be left out. -/
def getOr (default : α) (value? : Json → Option α) : Option Json → Option α
  | none => some default
  | some j => value? j

/-- The members of an object under their names, repetitions kept. -/
def members? : Json → Option (List (String × Json))
  | .object members => members.mapM fun (name, j) =>
    (unescape? name).map fun cs => (String.ofList cs, j)
  | _ => none

/-- The values of the named fields, in the order of `names`; none for one that is left out. An
object may have other members too but may not repeat a field; an array holds the fields in order and
may leave out the last ones. -/
def fields? (names : List String) : Json → Option (List (Option Json))
  | .array items =>
    if items.length ≤ names.length then
      some (items.map some ++ List.replicate (names.length - items.length) none)
    else none
  | j => do
    let ms ← j.members?
    names.mapM fun name =>
      match ms.filter (·.1 = name) with
      | [] => some none
      | [m] => some (some m.2)
      | _ => none

/-- The name written by a tag: a string, or an object whose one member has that name and holds
nothing. -/
def variant? (reading : Reading) : Json → Option String
  | .object [(name, j)] => do
    let name ← unescape? name
    match reading, j with
    | _, .null => some (String.ofList name)
    | .held, .object [] => some (String.ofList name)
    | _, _ => none
  | j => j.text?

/-- The kind written by a tag that stands before its content in an array: a string or, once it was
held back, also the position among all kinds. -/
def kind? (kinds : List String) (reading : Reading) (j : Json) : Option String :=
  match reading, j with
  | .held, .number _ => do kinds[(← j.uint64?).toNat]?
  | _, j => j.text?

/-- The members by which a value is tagged, and the kinds it can be of, in order. -/
structure Tagging where
  tag : String
  content : String
  kinds : List String

/-- A tagged value: the tag, what it is a tag of, and how that is met. -/
structure Tagged where
  tag : String
  content : Option Json
  reading : Reading

/-- Splits a value into its tag and its content. They are two members, among others and in either
order, or the two items of an array. Content that comes first is held back. -/
def tagged? (tagging : Tagging) (reading : Reading) : Json → Option Tagged
  | .array [tag, content] => do
    some ⟨← tag.kind? tagging.kinds reading.inner, some content, reading.inner⟩
  | j => do
    let ms ← j.members?
    match ms.filter fun m => m.1 = tagging.tag ∨ m.1 = tagging.content with
    | [(name, tag)] =>
      if name = tagging.tag then some ⟨← tag.variant? reading.inner, none, reading.inner⟩ else none
    | [(first, a), (second, b)] =>
      if first = tagging.tag ∧ second = tagging.content then
        some ⟨← a.variant? reading.inner, some b, reading.inner⟩
      else if first = tagging.content ∧ second = tagging.tag then
        let free := match reading with
          | .arriving room => holdable (room - 1) a
          | .held => true
        if free then some ⟨← b.variant? reading.inner, some a, .held⟩ else none
      else none
    | _ => none

end ChangesetReplay.Json
