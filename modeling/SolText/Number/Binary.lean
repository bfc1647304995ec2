import SolText.Number.Rounding

/-!
# Binary magnitudes

The magnitudes of finite 64-bit floating-point numbers, numbered from zero in increasing order. The
number of a magnitude is its *code*; codes come in *levels* of equal size. Every magnitude is a
whole number of *units* of `2 ^ -1074`, so that products and quotients are exact until they are rounded.

* `Binary.ofRatio?`: the magnitude nearest to a fraction, of two equally near the one with the even
  code; none when it is out of range.
* `Binary.scaledByTen?`: a magnitude times a power of ten, rounded step by step.
-/

namespace SolText

/-- The magnitude of a finite number, by its place in the order of all magnitudes. -/
structure Binary where
  code : Nat
  code_lt : code < 9218868437227405312
  deriving DecidableEq, Repr

namespace Binary

/-- How many magnitudes a level has. -/
def levelSize : Nat := 4503599627370496

/-- How many units make one. -/
def unitsInOne : Nat := Nat.pow 2 1074

/-- The units of the magnitude with a code. The first two levels are one unit apart, and in every
later level the distance is twice that of the level before. -/
def unitsOf (code : Nat) : Nat :=
  let level := code / levelSize
  if level = 0 then code else (levelSize + code % levelSize) * Nat.pow 2 (level - 1)

/-- The magnitude in units. -/
def units (value : Binary) : Nat := unitsOf value.code

/-- Zero. -/
def zero : Binary := ⟨0, by decide⟩

/-- The magnitude nearest to `num / den`; halfway between two it is the one with the even code. The
distance of magnitudes there is the power of two that leaves 53 binary places of the quotient. -/
def ofRatio? (num den : Nat) : Option Binary :=
  let scaled := num * unitsInOne
  let doublings := Nat.log2 (scaled / den) - 52
  let code := doublings * levelSize + Number.roundHalfEven scaled (den * Nat.pow 2 doublings)
  if h : code < 9218868437227405312 then some ⟨code, h⟩ else none

/-- The greatest power of ten that is a magnitude. -/
def maxPower : Nat := 308

/-- A power of ten, if it is in range. -/
def powerOfTen? (power : Nat) : Option Binary := ofRatio? (Nat.pow 10 power) 1

/-- The product of two magnitudes, if it is in range. -/
def mul? (a b : Binary) : Option Binary := ofRatio? (a.units * b.units) (unitsInOne * unitsInOne)

/-- The quotient of two magnitudes, if it is in range. -/
def div? (a b : Binary) : Option Binary := ofRatio? a.units b.units

/-- A magnitude times a power of ten that is in range. -/
def timesPower? (value : Binary) (power : Nat) : Option Binary := do
  value.mul? (← powerOfTen? power)

/-- A magnitude divided by a power of ten that is in range. -/
def overPower? (value : Binary) (power : Nat) : Option Binary := do
  value.div? (← powerOfTen? power)

/-- A magnitude of at most a word times a power of ten. It is multiplied or divided by the power,
which is rounded before and whose result is rounded after. To divide by a power beyond the greatest,
it is divided by the greatest first; what would need a third division has come to zero. -/
def scaledByTen? (value : Binary) : Int → Option Binary
  | .ofNat power =>
    if power ≤ maxPower then value.timesPower? power
    else if value.code = 0 then some zero
    else none
  | .negSucc less =>
    let power := less + 1
    if power ≤ maxPower then value.overPower? power
    else if power ≤ 2 * maxPower then do
      (← value.overPower? maxPower).overPower? (power - maxPower)
    else some zero

end Binary

end SolText
