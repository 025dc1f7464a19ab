import ScriptTypes.Number.Magnitude

/-! Numbers as text: the fewest digits that read back to the same number, of those the nearest, never with an
exponent. -/

namespace ScriptTypes

/-- The value `digits * 10 ^ exponent`. -/
structure Decimal where
  digits : Nat
  exponent : Int
deriving DecidableEq, Repr

namespace Decimal

/-- The same value without zeros at the end of its digits. -/
def normal (d : Decimal) : Decimal :=
  let zeros := ((Nat.toDigits 10 d.digits).reverse.takeWhile (· == '0')).length
  if d.digits = 0 then ⟨0, 0⟩ else ⟨d.digits / Nat.pow 10 zeros, d.exponent + zeros⟩

/-- The digits with the point put in, and zeros where it lies outside of them. -/
def positional (d : Decimal) : String :=
  let ds := Nat.toDigits 10 d.digits
  let zeros (n : Nat) := List.replicate n '0'
  if 0 ≤ d.exponent then String.ofList (ds ++ zeros d.exponent.toNat)
  else
    let places := (-d.exponent).toNat
    if places < ds.length then
      String.ofList (ds.take (ds.length - places) ++ '.' :: ds.drop (ds.length - places))
    else String.ofList ('0' :: '.' :: zeros (places - ds.length) ++ ds)

end Decimal

namespace Magnitude

/-- A number times four as a fraction, with the distances to the ends of the interval of reals that round to
it, in the same unit, and whether the ends round to it too. -/
structure Interval where
  value : Nat
  below : Nat
  above : Nat
  unit : Nat
  closed : Bool

def interval (mantissa : Nat) (exponent : Int) : Interval :=
  let e := exponent - 2
  let up := Nat.pow 2 e.toNat
  { value := 4 * mantissa * up
    below := (if mantissa = Nat.pow 2 52 then 1 else 2) * up
    above := 2 * up
    unit := Nat.pow 2 (-e).toNat
    closed := mantissa % 2 = 0 }

def digitCount (n : Nat) : Nat :=
  (Nat.toDigits 10 n).length

/-- The power of ten of the leading digit of a positive fraction. -/
def leadingPlace (num den : Nat) : Int :=
  if den ≤ num then (digitCount (num / den) : Int) - 1 else -(digitCount ((den - 1) / num) : Int)

/-- The neighbour of the value on the grid of multiples of `10 ^ place` that lies in the interval, the nearer
one if both do, the upper one on a tie. -/
def onGrid (i : Interval) (place : Int) : Option Decimal :=
  let scale := Nat.pow 10 (-place).toNat
  let num := i.value * scale
  let den := i.unit * Nat.pow 10 place.toNat
  let low := num / den
  let rest := num % den
  let within (distance bound : Nat) : Bool := if i.closed then distance ≤ bound else distance < bound
  let down := within rest (i.below * scale)
  let up := within (den - rest) (i.above * scale)
  if up && (!down || den ≤ 2 * rest) then some ⟨low + 1, place⟩
  else if down then some ⟨low, place⟩
  else none

/-- Try grids from coarse to fine. Seventeen digits always suffice. -/
def firstOnGrid (i : Interval) (place : Int) : Nat → Decimal
  | 0 => ⟨i.value / i.unit, 0⟩
  | n + 1 => (onGrid i place).getD (firstOnGrid i (place - 1) n)

def shortest (mantissa : Nat) (exponent : Int) : Decimal :=
  if mantissa = 0 then ⟨0, 0⟩
  else
    let i := interval mantissa exponent
    (firstOnGrid i (leadingPlace i.value i.unit) 18).normal

def text : Magnitude → String
  | .finite m e => (shortest m e).positional
  | .infinite => "inf"

end Magnitude

end ScriptTypes
