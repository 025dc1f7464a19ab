/-! Non-negative numbers of the 64-bit binary format, as exact values. A finite one is a mantissa below `2 ^ 53`
times a power of two. Rounding a quotient is exact arithmetic: to the nearest, a tie to the even mantissa. -/

namespace ScriptTypes

inductive Magnitude where
  | finite (mantissa : Nat) (exponent : Int)
  | infinite
deriving DecidableEq, Repr

namespace Magnitude

def leastExponent : Int := -1074

def greatestExponent : Int := 971

def zero : Magnitude := .finite 0 leastExponent

/-- The quotient to the nearest natural number, a tie to the even one. -/
def roundDiv (num den : Nat) : Nat :=
  let q := num / den
  let r := 2 * (num % den)
  if r < den then q else if den < r then q + 1 else if q % 2 = 0 then q else q + 1

/-- The fraction divided by a power of two, again as a fraction. -/
def shiftedFraction (num den : Nat) (e : Int) : Nat × Nat :=
  if 0 ≤ e then (num, den * Nat.pow 2 e.toNat) else (num * Nat.pow 2 (-e).toNat, den)

/-- The exponent at which the quotient has a mantissa of 53 bits, or the least one. -/
def exponentOf (num den : Nat) : Int :=
  let e : Int := (num.log2 : Int) - (den.log2 : Int) - 52
  let (n, d) := shiftedFraction num den e
  max leastExponent (if Nat.pow 2 52 ≤ n / d then e else e - 1)

/-- The number nearest to a quotient. -/
def ofQuotient (num den : Nat) : Magnitude :=
  if num = 0 then zero
  else
    let e := exponentOf num den
    let (n, d) := shiftedFraction num den e
    let m := roundDiv n d
    let (m, e) := if m = Nat.pow 2 53 then (Nat.pow 2 52, e + 1) else (m, e)
    if greatestExponent < e then .infinite else .finite m e

def ofNat (n : Nat) : Magnitude :=
  ofQuotient n 1

/-- The number nearest to `digits * 10 ^ exponent`. Powers of ten far outside the format are not computed. -/
def ofDecimal (digits : Nat) (exponent : Int) : Magnitude :=
  let places : Int := (Nat.toDigits 10 digits).length + exponent
  if digits = 0 then zero
  else if 330 < places then .infinite
  else if places < -340 then zero
  else if 0 ≤ exponent then ofQuotient (digits * Nat.pow 10 exponent.toNat) 1
  else ofQuotient digits (Nat.pow 10 (-exponent).toNat)

end Magnitude

end ScriptTypes
