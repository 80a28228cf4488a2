import Treewalk.Ty

/-! # Values

What expressions evaluate to. An array value is a handle: copies of it name the
same cells.
-/

namespace Treewalk

/-- The number of an array's cells in the heap. -/
structure Handle where
  index : Nat
  deriving DecidableEq

/-- A value. -/
inductive Value where
  /-- A 32-bit whole number. Arithmetic on it wraps around. -/
  | int (n : Int32)
  | float (x : Float32)
  /-- The outcome of a comparison or a logical operator. It is never stored. -/
  | bool (b : Bool)
  | array (h : Handle)
  /-- The outcome of a call without a result. -/
  | unit
  deriving DecidableEq

/-- The number with a fraction that is nearest to a whole number. -/
def nearestFloat (n : Int32) : Float32 := Float32.ofInt n.toInt

/-- What messages call a value: by its type, or as nothing at all. -/
inductive Kind where
  | data (ty : Ty)
  | void
  deriving DecidableEq

/-- A kind as messages write it. -/
def Kind.text : Kind → String
  | .data ty => ty.text
  | .void => "void"

namespace Value

/-- Whether a value counts as true for `!`, `&&` and `||`. Of the whole numbers
    only zero and one have a meaning there. -/
def logical? : Value → Option Bool
  | .bool b => some b
  | .int n => if n = 0 then some false else if n = 1 then some true else none
  | _ => none

/-- Whether a value counts as true in the condition of an `if`, where every
    whole number but zero does. -/
def condition? : Value → Option Bool
  | .bool b => some b
  | .int n => some (n != 0)
  | _ => none

/-- Equality as comparisons see it: arrays are equal if they share their cells,
    and a number that is none differs from itself. -/
def same : Value → Value → Bool
  | .int a, .int b => a == b
  | .float a, .float b => a == b
  | .bool a, .bool b => a == b
  | .array a, .array b => a == b
  | .unit, .unit => true
  | _, _ => false

end Value

end Treewalk
