import ChangesetReplay.Number.Binary64

/-! # Decimal numerals

A numeral is the written form of a number: sign, digits before and after the point, exponent. It is
read as an integer when it has neither fraction nor exponent, and as a binary64 number always,
unless it is too large. -/

namespace ChangesetReplay

/-- A decimal numeral. An empty fraction is one that is not written. -/
structure Numeral where
  negative : Bool
  whole : List Char
  fraction : List Char
  exponent : Option Int
deriving DecidableEq

namespace Numeral

def ofNat (n : Nat) : Numeral := ⟨false, Nat.toDigits 10 n, [], none⟩

def ofInt (n : Int) : Numeral := ⟨decide (n < 0), Nat.toDigits 10 n.natAbs, [], none⟩

/-- An exponent as written after its mark; `plus` says whether a positive one has a sign. -/
def exponentText (plus : Bool) (e : Int) : List Char :=
  (if e < 0 then ['-'] else if plus then ['+'] else []) ++ Nat.toDigits 10 e.natAbs

def text (plus : Bool) (n : Numeral) : List Char :=
  (if n.negative then ['-'] else []) ++ n.whole ++
  (if n.fraction = [] then [] else '.' :: n.fraction) ++
  match n.exponent with
  | none => []
  | some e => 'e' :: exponentText plus e

/-- Splits off the exponent mark and what follows it; none when the exponent is malformed. -/
def exponent? : List Char → Option (Option Int)
  | [] => some none
  | mark :: rest =>
    if mark = 'e' ∨ mark = 'E' then
      let (negative, digits) := match rest with
        | '-' :: ds => (true, ds)
        | '+' :: ds => (false, ds)
        | ds => (false, ds)
      if digits ≠ [] ∧ digits.all Char.isDigit then
        let magnitude : Int := Nat.ofDigitChars 10 digits 0
        some (some (if negative then -magnitude else magnitude))
      else none
    else none

/-- Reads a whole text as a numeral: no sign but a leading minus, no superfluous leading zero, a
digit on both sides of the point. -/
def ofText? (cs : List Char) : Option Numeral :=
  let (negative, cs) := match cs with
    | '-' :: rest => (true, rest)
    | rest => (false, rest)
  let whole := cs.takeWhile Char.isDigit
  let rest := cs.dropWhile Char.isDigit
  if whole = [] ∨ (whole.head? = some '0' ∧ whole ≠ ['0']) then none
  else match rest with
    | '.' :: rest =>
      let fraction := rest.takeWhile Char.isDigit
      if fraction = [] then none
      else (exponent? (rest.dropWhile Char.isDigit)).map (⟨negative, whole, fraction, ·⟩)
    | rest => (exponent? rest).map (⟨negative, whole, [], ·⟩)

/-- The integer a numeral writes; a minus before zero makes it no integer. -/
def int? (n : Numeral) : Option Int :=
  if n.fraction = [] ∧ n.exponent = none then
    let magnitude := Nat.ofDigitChars 10 n.whole 0
    if n.negative then
      if magnitude = 0 then none else some (-(magnitude : Int))
    else some magnitude
  else none

/-- Appends digits to a 64-bit significand as long as it does not overflow; gives the significand
and how many digits were taken. -/
def absorb (significand : Nat) : List Char → Nat × Nat
  | [] => (significand, 0)
  | d :: ds =>
    let next := significand * 10 + (d.toNat - '0'.toNat)
    if next < UInt64.size then
      let (s, taken) := absorb next ds
      (s, taken + 1)
    else (significand, 0)

def tenPow? (k : Nat) : Option Binary64.Rank := Binary64.ofNat? (Nat.pow 10 k)

/-- Scales `x` by a power of ten, one rounded multiplication or division at a time, none of them by
more than `10 ^ 308`. -/
def scale? (x : Binary64.Rank) (exponent : Int) : Nat → Option Binary64.Rank
  | 0 => some x
  | steps + 1 =>
    if exponent.natAbs ≤ 308 then do
      let p ← tenPow? exponent.natAbs
      if exponent < 0 then Binary64.div? x p else Binary64.mul? x p
    else if x.val = 0 then some x
    else if 0 ≤ exponent then none
    else do
      let p ← tenPow? 308
      scale? (← Binary64.div? x p) (exponent + 308) steps

/-- The binary64 number a numeral is read as; none when it is too large. The significand is cut to
64 bits and scaled by the power of ten that remains. Three scalings suffice, for the second division
by `10 ^ 308` takes every 64-bit significand to zero. -/
def toBinary64? (n : Numeral) : Option Binary64 := do
  let (s, taken) := absorb 0 n.whole
  let (s, takenAfter) := absorb s n.fraction
  let exponent : Int := (n.whole.length - taken : Nat) - (takenAfter : Int) + n.exponent.getD 0
  let x ← scale? (← Binary64.ofNat? s) exponent 4
  some (.finite n.negative x)

end Numeral

end ChangesetReplay
