/-!
# Decimal fractions

A fraction is written with a sign, digits and a point. It is kept as it was written, and stands for
a number of which no more than 53 binary digits are kept: a whole fraction with more of them stands
for the nearest number that has them.

## Main definitions

* `Decimal`: decimal fractions, in which zero has a sign
* `Decimal.trimmed`: the fraction without idle zeros
* `roundBinary`: a whole number in so many binary digits
* `Decimal.whole?`, `Decimal.exact`: the number that a fraction stands for
* `Decimal.shown`: the displayed form

## Main results

* `Decimal.units_ofInt`: a whole number is the units of its fraction
-/

namespace ChatCommands

/-- The decimal fraction `digits / 10 ^ places`, or its negative. -/
structure Decimal where
  negative : Bool := false
  digits : Nat
  places : Nat
  deriving DecidableEq, Repr, Inhabited

/-- A whole number rounded to so many binary digits; a half goes to the even neighbour. -/
def roundBinary (size n : Nat) : Nat :=
  if n < Nat.pow 2 size then n
  else
    let unit := Nat.pow 2 (n.log2 + 1 - size)
    let low := n / unit
    let rest := n % unit
    if unit < 2 * rest || (2 * rest = unit && low % 2 = 1) then (low + 1) * unit else low * unit

namespace Decimal

/-- How many binary digits are kept of a number. -/
def precision : Nat := 53

/-- The digits with their sign. -/
def units (d : Decimal) : Int := if d.negative then -d.digits else d.digits

/-- The digits without idle zeros at their end, with at least one place. -/
def trimDigits (digits : Nat) : Nat → Nat × Nat
  | 0 => (digits * 10, 1)
  | 1 => (digits, 1)
  | n + 2 => if digits % 10 = 0 then trimDigits (digits / 10) (n + 1) else (digits, n + 2)

/-- The fraction with as few places as it can be written with, but at least one. -/
def trimmed (d : Decimal) : Decimal :=
  { d with digits := (trimDigits d.digits d.places).1, places := (trimDigits d.digits d.places).2 }

/-- The whole number that the fraction stands for, if it stands for one. -/
def whole? (d : Decimal) : Option Int :=
  if d.digits % Nat.pow 10 d.places = 0 then
    let n := roundBinary precision (d.digits / Nat.pow 10 d.places)
    some (if d.negative then -n else n)
  else none

/-- The fraction that a whole number is. -/
def ofInt (i : Int) : Decimal := ⟨decide (i < 0), i.natAbs, 0⟩

/-- The number that the fraction stands for. -/
def exact (d : Decimal) : Decimal :=
  match d.whole? with
  | some i => ofInt i
  | none => d

/-- The fraction a number of times. -/
def times (n : Nat) (d : Decimal) : Decimal := { d with digits := d.digits * n }

/-- Fractions are compared over a common denominator. -/
instance : LE Decimal where
  le a b := a.units * Nat.pow 10 b.places ≤ b.units * Nat.pow 10 a.places

instance : DecidableLE Decimal := fun a b =>
  inferInstanceAs (Decidable (a.units * Nat.pow 10 b.places ≤ b.units * Nat.pow 10 a.places))

@[simp] theorem units_ofInt (i : Int) : (ofInt i).units = i := by
  simp only [ofInt, units, decide_eq_true_eq]
  split <;> omega

/-- The sign in front of a fraction. -/
def sign (d : Decimal) : String := if d.negative then "-" else ""

/-- The form with a point: sign, whole part, point and places, without idle zeros at the end. -/
def pointed (d : Decimal) : String :=
  let t := d.trimmed
  let places := (toString (t.digits % Nat.pow 10 t.places)).toList
  let zeros := List.replicate (t.places - places.length) '0'
  d.sign ++ toString (t.digits / Nat.pow 10 t.places) ++ "." ++ String.ofList (zeros ++ places)

/-- The power of ten of the first digit that is not zero. -/
def magnitude (d : Decimal) : Int := (toString d.digits).length - 1 - d.places

/-- The form with a power of ten: one digit before the point, and at least two in the power. -/
def powered (d : Decimal) : String :=
  let digits := ((toString d.digits).toList.reverse.dropWhile (· = '0')).reverse
  let power := toString d.magnitude.natAbs
  d.sign ++ String.ofList (digits.take 1) ++
    (if 1 < digits.length then "." ++ String.ofList (digits.drop 1) else "") ++
    (if d.magnitude < 0 then "e-" else "e+") ++ (if power.length < 2 then "0" else "") ++ power

/-- The displayed form: with a point where the first digit stands near it. -/
def shown (d : Decimal) : String :=
  if d.digits = 0 || (-4 ≤ d.magnitude && d.magnitude < 16) then d.pointed else d.powered

end Decimal

end ChatCommands
