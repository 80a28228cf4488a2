/-! # Decimal digits and where the point goes

The two ways of writing a row of digits: with the point in its place, and with
the point after the first digit and an exponent.
-/

namespace Treewalk.Decimal

/-- The number `0.d₁d₂d₃… * 10 ^ point`. -/
structure Digits where
  digits : List Char
  point : Int
  deriving DecidableEq

/-- A row of zeros. -/
def zeros (n : Nat) : List Char := List.replicate n '0'

namespace Digits

/-- The digits of `coeff * 10 ^ unit`, without zeros at the end. -/
def ofScaled (coeff : Nat) (unit : Int) : Digits :=
  let ds := Nat.toDigits 10 coeff
  ⟨(ds.reverse.dropWhile (· == '0')).reverse, ds.length + unit⟩

/-- The exponent when the point stands after the first digit. -/
def exponent (d : Digits) : Int := d.point - 1

/-- The digits with the point in its place. A whole number gets no point. -/
def positional (d : Digits) : String :=
  if d.point ≤ 0 then
    String.ofList ('0' :: '.' :: zeros (-d.point).toNat ++ d.digits)
  else
    let n := d.point.toNat
    if d.digits.length ≤ n then
      String.ofList (d.digits ++ zeros (n - d.digits.length))
    else
      String.ofList (d.digits.take n ++ '.' :: d.digits.drop n)

/-- The digits with the point after the first of them. A single digit gets no
    point. -/
def mantissa (d : Digits) : String :=
  match d.digits with
  | [] => "0"
  | [c] => c.toString
  | c :: cs => String.ofList (c :: '.' :: cs)

end Digits

/-- The minus sign of a negative number. -/
def sign (neg : Bool) : String := if neg then "-" else ""

end Treewalk.Decimal
