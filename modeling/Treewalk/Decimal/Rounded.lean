import Treewalk.Decimal.Binary
import Treewalk.Decimal.Digits

/-! # Decimals of a chosen length

A number rounded to a number of places after the point, or to a number of
digits after the first. Both round the exact value, and a half goes to the even
neighbour.
-/

namespace Treewalk.Decimal

/-- The whole number nearest to `num / den`, the even one at a half. -/
def roundHalfEven (num den : Nat) : Nat :=
  let q := num / den
  let r := num % den
  if 2 * r < den then q
  else if den < 2 * r then q + 1
  else q + q % 2

/-- The digits of a whole number, with zeros in front up to a length. -/
def paddedDigits (length n : Nat) : List Char :=
  let ds := Nat.toDigits 10 n
  zeros (length - ds.length) ++ ds

/-- A row of digits with `places` of them after the point. -/
def withPlaces (places : Nat) (ds : List Char) : String :=
  let whole := ds.length - places
  if places = 0 then String.ofList ds
  else String.ofList (ds.take whole ++ '.' :: ds.drop whole)

namespace Binary

/-- The number in units of `10 ^ unit`, rounded. -/
def roundAt (v : Binary) (unit : Int) : Nat :=
  let (num, den) := scale v.exp unit
  roundHalfEven (v.mant * num) den

/-- The number with `places` digits after the point. -/
def fixed (v : Binary) (places : Nat) : String :=
  withPlaces places (paddedDigits (places + 1) (v.roundAt (-places)))

/-- The largest of the exponents up to `n` steps above `bottom` at which the
    number has a digit that is not zero. -/
def leadingFrom (v : Binary) : Nat → Int
  | 0 => v.bottom
  | n + 1 =>
      if v.floorAt (v.bottom + (n + 1 : Nat)) = 0 then v.leadingFrom n
      else v.bottom + (n + 1 : Nat)

/-- The exponent of the first digit, zero for the number zero. -/
def leading (v : Binary) : Int :=
  if v.mant = 0 then 0 else v.leadingFrom v.height

/-- The number with one digit before the point and `places` after it, and the
    exponent that goes with it. Rounding up to a further digit moves the
    exponent. -/
def scientific (v : Binary) (places : Nat) : String × Int :=
  let e := v.leading
  let n := v.roundAt (e - places)
  if n = Nat.pow 10 (places + 1) then
    (withPlaces places (Nat.toDigits 10 (Nat.pow 10 places)), e + 1)
  else
    (withPlaces places (paddedDigits (places + 1) n), e)

end Binary

end Treewalk.Decimal
