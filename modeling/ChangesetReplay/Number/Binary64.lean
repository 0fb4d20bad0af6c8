/-! # Binary64 numbers

A finite number is a sign and a rank: the position of its absolute value among the nonnegative
finite binary64 numbers in ascending order. All arithmetic is exact on `Nat`, in units of the least
positive number `2 ^ (-1074)`, with one rounding at the end. -/

namespace ChangesetReplay

/-- How many numbers of one sign share an exponent: `2 ^ 52`. -/
def Binary64.perExponent : Nat := 4503599627370496

/-- How many nonnegative finite numbers there are. -/
def Binary64.rankCount : Nat := 2047 * perExponent

/-- A binary64 number. There is one NaN, and zero has two signs. -/
inductive Binary64 where
  | nan
  | infinite (negative : Bool)
  | finite (negative : Bool) (rank : Fin Binary64.rankCount)
deriving DecidableEq

namespace Binary64

abbrev Rank := Fin rankCount

instance : Inhabited Rank := ⟨⟨0, by decide⟩⟩

def zero : Binary64 := .finite false default

instance : Inhabited Binary64 := ⟨zero⟩

def unitsInOne : Nat := Nat.pow 2 1074

/-- The absolute value of the number of rank `r`, in units. -/
def units (r : Nat) : Nat :=
  if r < perExponent then r
  else (perExponent + r % perExponent) * Nat.pow 2 (r / perExponent - 1)

/-- The quotient rounded to the nearest natural number, a half going to the even neighbour. -/
def roundHalfEven (num den : Nat) : Nat :=
  let q := num / den
  let twice := 2 * (num % den)
  if twice < den then q
  else if den < twice then q + 1
  else if q % 2 = 0 then q else q + 1

/-- The rank nearest to `num / den` units, ties going to the even rank; none when it would be
infinite. -/
def nearest? (num den : Nat) : Option Rank :=
  let e := Nat.log2 (num / den) - 52
  let r := e * perExponent + roundHalfEven num (den * Nat.pow 2 e)
  if h : r < rankCount then some ⟨r, h⟩ else none

def ofNat? (n : Nat) : Option Rank := nearest? (n * unitsInOne) 1

def mul? (a b : Rank) : Option Rank := nearest? (units a * units b) unitsInOne

/-- The rounded quotient, for a nonzero divisor. -/
def div? (a b : Rank) : Option Rank := nearest? (units a * unitsInOne) (units b)

end Binary64

end ChangesetReplay
