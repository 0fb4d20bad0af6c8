import ChangesetReplay.Number.Shortest
import ChangesetReplay.Text.Quoted
import ChangesetReplay.State.Key

/-! # Values

What a field or a list element can hold, and the keys by which objects are found. -/

namespace ChangesetReplay

/-- A point in time: seconds since the epoch, and nanoseconds after that second. -/
structure Timestamp where
  seconds : Int64
  nanoseconds : Int32
deriving DecidableEq

def Timestamp.nanosPerSecond : Int := 1000000000

/-- Whether the nanoseconds are a proper part of a second. -/
def Timestamp.isValid (t : Timestamp) : Bool :=
  0 ≤ t.nanoseconds.toInt ∧ t.nanoseconds.toInt < nanosPerSecond

inductive Value where
  | null
  | int (n : Int64)
  | bool (b : Bool)
  | float (x : Binary64)
  | string (s : String)
  | binary (bytes : List UInt8)
  | timestamp (t : Timestamp)
  | link (object : ObjectKey)
deriving DecidableEq

inductive ValueType where
  | int
  | bool
  | float
  | string
  | binary
  | timestamp
  | link
deriving DecidableEq

def ValueType.text : ValueType → String
  | int => "Int"
  | bool => "Bool"
  | float => "Float"
  | string => "String"
  | binary => "Binary"
  | timestamp => "Timestamp"
  | link => "Link"

namespace Value

def type? : Value → Option ValueType
  | null => none
  | int _ => some .int
  | bool _ => some .bool
  | float _ => some .float
  | string _ => some .string
  | binary _ => some .binary
  | timestamp _ => some .timestamp
  | link _ => some .link

def typeName (v : Value) : String :=
  match v.type? with
  | none => "Null"
  | some t => t.text

def isNull : Value → Bool
  | null => true
  | _ => false

def int? : Value → Option Int64
  | int n => some n
  | _ => none

def string? : Value → Option String
  | string s => some s
  | _ => none

def link? : Value → Option ObjectKey
  | link k => some k
  | _ => none

end Value

/-- In messages numbers have an exponent below one ten-thousandth, and a tie goes upward. -/
def Binary64.messageLayout : NumberLayout := ⟨.upward, -4⟩

def Binary64.text : Binary64 → String
  | nan => "NaN"
  | infinite negative => if negative then "-inf" else "inf"
  | finite negative r => String.ofList ((messageLayout.numeral negative r).text false)

/-- At least `width` characters, zeros filling in between the sign and the digits. -/
def paddedInt (width : Nat) (n : Int) : String :=
  let sign := if n < 0 then ['-'] else []
  let digits := Nat.toDigits 10 n.natAbs
  String.ofList (sign ++ List.replicate (width - sign.length - digits.length) '0' ++ digits)

def Timestamp.text (t : Timestamp) : String :=
  toString t.seconds.toInt ++ "." ++ paddedInt 9 t.nanoseconds.toInt

/-- A value as messages and effects show it. -/
def Value.text : Value → String
  | null => "null"
  | int n => toString n.toInt
  | bool b => if b then "true" else "false"
  | float x => x.text
  | string s => Text.quoted s
  | binary bytes => "<" ++ toString bytes.length ++ " bytes>"
  | timestamp t => t.text
  | link k => k.text

/-- A key under which an object is found. -/
inductive PrimaryKey where
  | null
  | int (n : Int64)
  | string (s : String)
deriving DecidableEq

namespace PrimaryKey

def toValue : PrimaryKey → Value
  | null => .null
  | int n => .int n
  | string s => .string s

def typeName (k : PrimaryKey) : String := k.toValue.typeName

def text (k : PrimaryKey) : String := k.toValue.text

/-- Null comes first, then the integers, then the strings by code point. -/
def order : PrimaryKey → PrimaryKey → Ordering
  | null, null => .eq
  | null, _ => .lt
  | _, null => .gt
  | int a, int b => compare a b
  | int _, string _ => .lt
  | string _, int _ => .gt
  | string a, string b => compare a b

instance : Ord PrimaryKey := ⟨order⟩

theorem compare_eq_order (a b : PrimaryKey) : compare a b = order a b := rfl

instance : Std.TransOrd PrimaryKey where
  eq_swap {a b} := by
    cases a with
    | null => cases b <;> rfl
    | int m =>
      cases b with
      | int n => exact Std.OrientedOrd.eq_swap (a := m) (b := n)
      | _ => rfl
    | string s =>
      cases b with
      | string t => exact Std.OrientedOrd.eq_swap (a := s) (b := t)
      | _ => rfl
  isLE_trans {a b c} := by
    cases a with
    | null => cases b <;> cases c <;> simp [compare_eq_order, order]
    | int m =>
      cases b with
      | null => simp [compare_eq_order, order]
      | string _ => cases c <;> simp [compare_eq_order, order]
      | int n =>
        cases c with
        | int o => exact Std.TransOrd.isLE_trans (a := m) (b := n) (c := o)
        | _ => simp [compare_eq_order, order]
    | string s =>
      cases b with
      | string t =>
        cases c with
        | string u => exact Std.TransOrd.isLE_trans (a := s) (b := t) (c := u)
        | _ => simp [compare_eq_order, order]
      | _ => simp [compare_eq_order, order]

instance : Std.LawfulEqOrd PrimaryKey where
  compare_self {a} := by
    cases a with
    | null => rfl
    | int m => exact Std.ReflOrd.compare_self (a := m)
    | string s => exact Std.ReflOrd.compare_self (a := s)
  eq_of_compare {a b} h := by
    cases a with
    | null => cases b <;> simp_all [compare_eq_order, order]
    | int m =>
      cases b with
      | int n => exact congrArg int (Std.LawfulEqOrd.eq_of_compare (a := m) (b := n) h)
      | _ => simp [compare_eq_order, order] at h
    | string s =>
      cases b with
      | string t => exact congrArg string (Std.LawfulEqOrd.eq_of_compare (a := s) (b := t) h)
      | _ => simp [compare_eq_order, order] at h

end PrimaryKey

end ChangesetReplay
