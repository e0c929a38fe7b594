/-! Binary floating-point numbers with 53 significant bits, as far as settings need them. Every
operation gives the exact result rounded to the nearest such number. -/

namespace DocBlock

inductive Real where
  /-- `numerator / 2 ^ places`. -/
  | finite (numerator : Int) (places : Nat)
  /-- Infinity, or no number at all. -/
  | notFinite
  deriving DecidableEq, Repr, Inhabited

namespace Real

/-- The quotient to the nearest integer, a half going to the even neighbour. -/
def roundDiv (n d : Nat) : Nat :=
  let q := n / d
  let r := n % d
  if d < 2 * r || (d = 2 * r && q % 2 = 1) then q + 1 else q

def neg : Real → Real
  | finite n places => finite (-n) places
  | notFinite => notFinite

/-- The positive number `n / d`, rounded to 53 bits and to no finer unit than `2 ^ -1074`. -/
def ofPositive (n d : Nat) : Real :=
  let top : Int := (n * Nat.pow 2 1074 / d).log2 - 1074
  let shift : Int := min (52 - top) 1074
  if shift ≤ 0 then
    let value := roundDiv n (d * Nat.pow 2 shift.natAbs) * Nat.pow 2 shift.natAbs
    if value < Nat.pow 2 1024 then finite value 0 else notFinite
  else finite (roundDiv (n * Nat.pow 2 shift.natAbs) d) shift.natAbs

def ofQuotient (n : Int) (d : Nat) : Real :=
  if n = 0 then finite 0 0
  else if n < 0 then (ofPositive n.natAbs d).neg
  else ofPositive n.natAbs d

def ofInt (n : Int) : Real := ofQuotient n 1

/-- `mantissa * 10 ^ exponent`. Exponents that can only give infinity or zero are settled by the
number of digits. -/
def ofDecimal (mantissa exponent : Int) : Real :=
  let magnitude := exponent + (Nat.toDigits 10 mantissa.natAbs).length
  if mantissa = 0 || magnitude < -330 then finite 0 0
  else if 310 < magnitude then notFinite
  else if 0 ≤ exponent then ofQuotient (mantissa * Nat.pow 10 exponent.natAbs) 1
  else ofQuotient mantissa (Nat.pow 10 exponent.natAbs)

def add : Real → Real → Real
  | finite m p, finite n q =>
    ofQuotient (m * Nat.pow 2 q + n * Nat.pow 2 p) (Nat.pow 2 (p + q))
  | _, _ => notFinite

def mul : Real → Real → Real
  | finite m p, finite n q => ofQuotient (m * n) (Nat.pow 2 (p + q))
  | _, _ => notFinite

instance : Add Real := ⟨add⟩

instance : Mul Real := ⟨mul⟩

instance : Neg Real := ⟨neg⟩

/-- The integer that the number is, if it is one. -/
def toInt? : Real → Option Int
  | finite n places =>
    if n % Nat.pow 2 places = 0 then some (n / Nat.pow 2 places) else none
  | notFinite => none

end Real

end DocBlock
