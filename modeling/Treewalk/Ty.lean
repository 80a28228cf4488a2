/-! # Types

The types that source text can name. `bool` can be written, but nothing of that
type can be stored.
-/

namespace Treewalk

/-- A type. -/
inductive Ty where
  | int
  | float32
  | bool
  | array (len : Nat) (elem : Ty)
  deriving DecidableEq, Inhabited

namespace Ty

/-- The type that a predeclared name stands for. -/
def ofName? : String → Option Ty
  | "int" => some .int
  | "float32" => some .float32
  | "bool" => some .bool
  | _ => none

/-- Whether `bool` occurs in a type. -/
def hasBool : Ty → Bool
  | .bool => true
  | .array _ elem => elem.hasBool
  | .int | .float32 => false

/-- A type as source text writes it. -/
def text : Ty → String
  | .int => "int"
  | .float32 => "float32"
  | .bool => "bool"
  | .array len elem => s!"[{len}]" ++ elem.text

end Ty

end Treewalk
