import Treewalk.Decimal.Binary
import Treewalk.Decimal.Digits

/-! # Shortest decimals

The fewest digits that read back as a given floating-point number. Powers of
ten are tried from large to small; on each grid only the two neighbours of the
number can be the nearest point that reads back. The finest grid contains the
number itself, so the search always ends with an answer.
-/

namespace Treewalk.Decimal

namespace Binary

/-- The point of the grid of `10 ^ unit` that reads back as `v`, in units of
    the grid. Of two the nearer is taken, and of two equally near ones the
    larger. Numbers halfway to a neighbour read back as `v` when its last bit
    is zero. -/
def gridPoint? (v : Binary) (unit : Int) : Option Nat :=
  let (num, den) := scale (v.exp - 2) unit
  let below := if v.tight then num else 2 * num
  let above := 2 * num
  let x := 4 * v.mant * num
  let c := x / den
  let r := x % den
  let even := v.mant % 2 == 0
  let down := r < below || (even && r == below)
  let up := den - r < above || (even && den - r == above)
  if down && (!up || 2 * r < den) then some c
  else if up then some (c + 1)
  else none

/-- Try the grids from `n` steps above `bottom` downwards. -/
def search (v : Binary) : Nat → Digits
  | 0 => .ofScaled (v.floorAt v.bottom) v.bottom
  | n + 1 =>
      match v.gridPoint? (v.bottom + (n + 1 : Nat)) with
      | some c => .ofScaled c (v.bottom + (n + 1 : Nat))
      | none => v.search n

/-- The shortest digits that read back as `v`. -/
def shortest (v : Binary) : Digits := v.search v.height

end Binary

end Treewalk.Decimal
