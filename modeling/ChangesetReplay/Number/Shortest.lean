import ChangesetReplay.Number.Numeral

/-! # Shortest decimals

The fewest digits that determine a binary64 number, and among those the nearest. Two layouts say
how such digits are written. -/

namespace ChangesetReplay

/-- Which of two equally near decimals is taken. -/
inductive Tie where
  | toEven
  | upward
deriving DecidableEq

/-- `digits * 10 ^ exponent`. -/
structure Decimal where
  digits : Nat
  exponent : Int
deriving DecidableEq

namespace Binary64

/-- One unit in units of `10 ^ (-1074)`. -/
def decimalUnit : Nat := Nat.pow 5 1074

/-- Whether `num / den` units lie among the reals that round to rank `r`. -/
def roundsTo (r num den : Nat) : Bool :=
  let low := (units (r - 1) + units r) * den
  let high := (units r + units (r + 1)) * den
  if r % 2 = 0 then low ≤ 2 * num ∧ 2 * num ≤ high else low < 2 * num ∧ 2 * num < high

/-- The neighbours of rank `r` on the grid of step `10 ^ (p - 1074)`, as far as they round to `r`;
the nearer one first in merit. -/
def onGrid? (tie : Tie) (r p : Nat) : Option Nat :=
  let value := units r * decimalUnit
  let step := Nat.pow 10 p
  let below := value / step
  let fits := fun (k : Nat) => roundsTo r (k * step) decimalUnit
  match fits below, fits (below + 1) with
  | false, false => none
  | true, false => some below
  | false, true => some (below + 1)
  | true, true =>
    let twice := 2 * (value % step)
    if twice < step then some below
    else if step < twice then some (below + 1)
    else match tie with
      | .upward => some (below + 1)
      | .toEven => some (if below % 2 = 0 then below else below + 1)

/-- The shortest decimal that reads back as rank `r`, the nearest of that length. Seventeen digits
always suffice; the exact value stands behind them. -/
def shortest (tie : Tie) (r : Nat) : Decimal :=
  let value := units r * decimalUnit
  let length := (Nat.toDigits 10 value).length
  let found := (List.range 17).findSome? fun n =>
    let p := length - 1 - n
    (onGrid? tie r p).map fun k => Decimal.mk k ((p : Int) - 1074)
  found.getD ⟨value, -1074⟩

end Binary64

/-- How a finite number is written: below `10 ^ 16` and from `10 ^ leastPlain` on with a point and
at least one digit on each side of it, else with an exponent. -/
structure NumberLayout where
  tie : Tie
  leastPlain : Int
deriving DecidableEq

namespace NumberLayout

/-- Without trailing zeros. -/
def significant (digits : List Char) : List Char :=
  (digits.reverse.dropWhile (· = '0')).reverse

/-- The numeral for `digits`, the point standing after the first `point` of them. -/
def place (negative : Bool) (digits : List Char) (point : Int) : Numeral :=
  if point ≤ 0 then
    ⟨negative, ['0'], List.replicate point.natAbs '0' ++ digits, none⟩
  else
    let n := point.natAbs
    let whole := digits.take n ++ List.replicate (n - digits.length) '0'
    let fraction := digits.drop n
    ⟨negative, whole, if fraction = [] then ['0'] else fraction, none⟩

def numeral (layout : NumberLayout) (negative : Bool) (r : Binary64.Rank) : Numeral :=
  if r.val = 0 then ⟨negative, ['0'], ['0'], none⟩
  else
    let d := Binary64.shortest layout.tie r
    let all := Nat.toDigits 10 d.digits
    let digits := significant all
    let point := d.exponent + all.length
    if layout.leastPlain < point ∧ point ≤ 16 then place negative digits point
    else ⟨negative, digits.take 1, digits.drop 1, some (point - 1)⟩

end NumberLayout

end ChangesetReplay
