/-! # Decimal literals

What a decimal literal spells: a whole number, if it fits into 64 bits with a
sign, or the binary64 number nearest to it.
-/

namespace Treewalk.Decimal

/-- The value of a row of digits. -/
def digitsValue (ds : List Char) : Nat :=
  ds.foldl (fun n c => 10 * n + (c.toNat - '0'.toNat)) 0

/-- The binary64 number nearest to `coeff * 10 ^ exp`. Above `10 ^ 310` there is
    only infinity and below `10 ^ -330` only zero, so far larger and smaller
    exponents need no arithmetic. -/
def nearest (coeff : Nat) (exp : Int) : Float :=
  let size := (Nat.toDigits 10 coeff).length + exp
  if coeff = 0 || size < -330 then 0.0
  else if 310 < size then 1.0 / 0.0
  else Float.ofScientific coeff (exp < 0) exp.natAbs

/-- The text of a fraction at the front: a point and at least one digit. -/
def fraction : List Char → List Char
  | '.' :: c :: rest =>
      if c.isDigit then '.' :: c :: rest.takeWhile Char.isDigit else []
  | _ => []

/-- The text of an exponent at the front: its mark, a sign or none, and at least
    one digit. -/
def exponent : List Char → List Char
  | mark :: rest =>
      if mark == 'e' || mark == 'E' then
        let sign := (rest.take 1).filter fun c => c == '+' || c == '-'
        let digits := (rest.drop sign.length).takeWhile Char.isDigit
        if digits.isEmpty then [] else mark :: sign ++ digits
      else []
  | [] => []

/-- The value of the text of an exponent. -/
def exponentValue (text : List Char) : Int :=
  let n : Int := digitsValue (text.filter Char.isDigit)
  if text.contains '-' then -n else n

/-- The whole number that a row of digits spells, if it fits into 64 bits with a
    sign. -/
def int? (digits : List Char) : Option Int64 :=
  let n := digitsValue digits
  if n < 9223372036854775808 then some (.ofNat n) else none

/-- The number nearest to what a text spells, if it is digits, then a fraction or
    none, then an exponent or none. -/
def float? (text : List Char) : Option Float :=
  let whole := text.takeWhile Char.isDigit
  let frac := fraction (text.drop whole.length)
  let exp := exponent (text.drop (whole.length + frac.length))
  if whole.isEmpty || whole ++ frac ++ exp != text then none
  else
    let places := frac.drop 1
    let coeff := digitsValue (whole ++ places)
    some (nearest coeff (exponentValue exp - places.length))

end Treewalk.Decimal
