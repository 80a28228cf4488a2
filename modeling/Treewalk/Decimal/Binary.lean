/-! # Binary numbers and decimal grids

A finite floating-point number is a whole number times a power of two. Here its
bits are taken apart and it is measured in units of a power of ten, in exact
whole-number arithmetic.
-/

namespace Treewalk.Decimal

/-- The size of a finite floating-point number: `mant * 2 ^ exp`. -/
structure Binary where
  mant : Nat
  exp : Int
  /-- Whether the next smaller number is half as far away as the next larger
      one, as it is at a power of two. -/
  tight : Bool
  deriving DecidableEq

/-- What the bits of a floating-point number say. -/
inductive Reading where
  /-- Not a number. -/
  | nan
  /-- An infinity. -/
  | infinite (neg : Bool)
  /-- A sign and a size. -/
  | finite (neg : Bool) (size : Binary)
  deriving DecidableEq

namespace Reading

/-- Read the bits of a number with `expBits` bits of exponent and `fracBits`
    bits of fraction. An exponent of zero bits stands for the numbers without a
    leading one, an exponent of one bits for infinities and non-numbers. -/
def ofBits (expBits fracBits bits : Nat) : Reading :=
  let one := Nat.pow 2 fracBits
  let top := Nat.pow 2 expBits - 1
  let frac := bits % one
  let field := bits / one % (top + 1)
  let neg := bits / (one * (top + 1)) % 2 == 1
  let bias : Int := top / 2 + fracBits
  if field = top then
    if frac = 0 then .infinite neg else .nan
  else if field = 0 then
    .finite neg ⟨frac, 1 - bias, false⟩
  else
    .finite neg ⟨one + frac, field - bias, frac == 0⟩

/-- Read a binary32 number. -/
def ofFloat32 (x : Float32) : Reading := ofBits 8 23 x.toBits.toNat

/-- Read a binary64 number. -/
def ofFloat (x : Float) : Reading := ofBits 11 52 x.toBits.toNat

end Reading

/-- The factor `2 ^ exp / 10 ^ unit` as numerator and denominator. -/
def scale (exp unit : Int) : Nat × Nat :=
  (Nat.pow 2 exp.toNat * Nat.pow 10 (-unit).toNat,
    Nat.pow 2 (-exp).toNat * Nat.pow 10 unit.toNat)

namespace Binary

/-- The exponent of a power of ten that divides the number. -/
def bottom (v : Binary) : Int := min v.exp 0

/-- The exponent of a power of ten above the number. -/
def top (v : Binary) : Int := max (v.exp + v.mant.log2 + 2) 0

/-- The number of steps from `bottom` to `top`. -/
def height (v : Binary) : Nat := (v.top - v.bottom).toNat

/-- The number in units of `10 ^ unit`, rounded down. -/
def floorAt (v : Binary) (unit : Int) : Nat :=
  let (num, den) := scale v.exp unit
  v.mant * num / den

end Binary

end Treewalk.Decimal
