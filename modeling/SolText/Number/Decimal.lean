import SolText.Number.Binary

/-!
# The decimal that stands for a binary magnitude

Many decimals are nearest to one and the same magnitude. The one that stands for it has the fewest
digits; of those with as few digits it is the nearest, and of two equally near the even one.

* `Decimal.readsBack`: whether a magnitude is the nearest to a decimal.
* `Binary.shortest`: the decimal that stands for a magnitude.
-/

namespace SolText

/-- The decimal number `digits · 10 ^ exponent`. -/
structure Decimal where
  digits : Nat
  exponent : Int
  deriving DecidableEq, Repr

namespace Decimal

/-- Whether `value` is the magnitude nearest to the decimal. -/
def readsBack (decimal : Decimal) (value : Binary) : Bool :=
  Binary.ofRatio? (decimal.digits * Nat.pow 10 decimal.exponent.toNat)
    (Nat.pow 10 (-decimal.exponent).toNat) = some value

/-- The decimal without the zeros that its digits end in, of which there are at most `zeros`. -/
def trim (decimal : Decimal) : (zeros : Nat) → Decimal
  | 0 => decimal
  | zeros + 1 =>
    if decimal.digits % 10 = 0 then trim ⟨decimal.digits / 10, decimal.exponent + 1⟩ zeros
    else decimal

end Decimal

namespace Binary

/-- The least power of ten above a magnitude other than zero: the places that it has before the
point, or the negative of the zeros that follow the point. No such magnitude is below `10 ^ -324`. -/
def leadingPlace (value : Binary) : Int :=
  (Nat.toDigits 10 (value.units * Nat.pow 10 324 / unitsInOne)).length - 324

/-- The nearer of the two multiples of `10 ^ exponent` around a magnitude that read back, if any
does. -/
def onGrid? (value : Binary) (exponent : Int) : Option Decimal :=
  let num := value.units * Nat.pow 10 (-exponent).toNat
  let den := unitsInOne * Nat.pow 10 exponent.toNat
  let below := num / den
  let nearer := Number.roundHalfEven num den
  let farther := if nearer = below then below + 1 else below
  [nearer, farther].findSome? fun digits =>
    let decimal : Decimal := ⟨digits, exponent⟩
    if decimal.readsBack value then some (decimal.trim 17) else none

/-- The decimal that is exactly equal to a magnitude. -/
def exact (value : Binary) : Decimal := ⟨value.units * Nat.pow 5 1074, -1074⟩

/-- The decimal with the fewest digits, seventeen at most, that reads back as the magnitude. -/
def shortest (value : Binary) : Decimal :=
  if value.code = 0 then ⟨0, 0⟩
  else
    let place := value.leadingPlace
    ((List.range 17).findSome? fun (n : Nat) => value.onGrid? (place - 1 - n)).getD value.exact

end Binary

end SolText
