import Treewalk.Decimal.Shortest
import Treewalk.Decimal.Rounded

/-! # How numbers with a fraction are printed

The default form has the fewest digits that read back. Exponents are written
with a sign and at least two digits.
-/

namespace Treewalk.FloatText

open Decimal

/-- An exponent: its mark, its sign and at least two digits. -/
def exponent (e : Int) : String :=
  "e" ++ (if e < 0 then "-" else "+") ++ String.ofList (paddedDigits 2 e.natAbs)

/-- Whether a number whose first digit has this exponent is written with its
    point in its place. -/
def isPositional (e : Int) : Bool := -4 ≤ e && e < 6

/-- The digits of a number, with the point in its place or an exponent. -/
def unsigned (d : Digits) : String :=
  if isPositional d.exponent then d.positional else d.mantissa ++ exponent d.exponent

/-- The default form. -/
def plain (x : Float32) : String :=
  match Reading.ofFloat32 x with
  | .nan => "NaN"
  | .infinite neg => if neg then "-Inf" else "+Inf"
  | .finite neg v => sign neg ++ if v.mant = 0 then "0" else unsigned v.shortest

/-- The form with a number of places after the point. -/
def fixed (places : Nat) (x : Float32) : String :=
  match Reading.ofFloat32 x with
  | .nan => "NaN"
  | .infinite neg => sign neg ++ "inf"
  | .finite neg v => sign neg ++ v.fixed places

/-- The form with one digit before the point, places after it, and an
    exponent. -/
def scientific (places : Nat) (x : Float32) : String :=
  match Reading.ofFloat32 x with
  | .nan => "NaN"
  | .infinite neg => sign neg ++ "inf"
  | .finite neg v =>
      let (digits, e) := v.scientific places
      sign neg ++ digits ++ exponent e

/-- The form for inspection: the fewest digits that read back, always with a
    point or an exponent. -/
def inspect (x : Float32) : String :=
  match Reading.ofFloat32 x with
  | .nan => "NaN"
  | .infinite neg => sign neg ++ "inf"
  | .finite neg v =>
      sign neg ++
        if v.mant = 0 then "0.0"
        else
          let d := v.shortest
          if -5 < d.exponent && d.exponent < 16 then
            if d.digits.length ≤ d.point then d.positional ++ ".0" else d.positional
          else s!"{d.mantissa}e{d.exponent}"

end Treewalk.FloatText
