import Treewalk.Pos
import Treewalk.Tree.Operator
import Treewalk.Ty

/-! # Expressions -/

namespace Treewalk

/-- The three printing functions. -/
inductive PrintStyle where
  /-- Operands one after the other. -/
  | print
  /-- Operands with spaces between them, then a line end. -/
  | println
  /-- Operands put into a template. -/
  | printf
  deriving DecidableEq

/-- An expression, with the place that errors in it are reported at. -/
inductive Expr where
  | int (pos : Pos) (n : Int)
  | float (pos : Pos) (x : Float)
  | bool (pos : Pos) (b : Bool)
  /-- A string literal. It has a meaning only as an operand of a print. -/
  | str (pos : Pos) (s : String)
  | name (pos : Pos) (x : String)
  | unary (pos : Pos) (op : UnaryOp) (operand : Expr)
  | binary (pos : Pos) (op : BinaryOp) (left right : Expr)
  /-- A conversion such as `float32(e)`. -/
  | convert (pos : Pos) (ty : Ty) (operand : Expr)
  | index (pos : Pos) (array index : Expr)
  | call (pos : Pos) (callee : String) (args : List Expr)
  | print (pos : Pos) (package : String) (style : PrintStyle) (args : List Expr)

namespace Expr

/-- The place of an expression. -/
def pos : Expr → Pos
  | .int p _ | .float p _ | .bool p _ | .str p _ | .name p _ | .unary p _ _
  | .binary p _ _ _ | .convert p _ _ | .index p _ _ | .call p _ _ | .print p _ _ _ => p

/-- The size of a list of expressions, without that of the list itself. -/
noncomputable def weight : List Expr → Nat
  | [] => 0
  | e :: es => sizeOf e + weight es

/-- Whether every expression of a list is a whole-number constant that has no
    type yet: a literal, a name that `untyped` accepts, or arithmetic on such.
    Operands go back onto the list, so that long chains of operators take no more
    stack than short ones. -/
def allUntyped (untyped : String → Bool) : List Expr → Bool
  | [] => true
  | .int _ _ :: rest => allUntyped untyped rest
  | .name _ x :: rest => untyped x && allUntyped untyped rest
  | .unary _ op e :: rest => op != .not && allUntyped untyped (e :: rest)
  | .binary _ op l r :: rest => op.isArith && allUntyped untyped (r :: l :: rest)
  | _ => false
termination_by es => weight es
decreasing_by
  all_goals
    simp only [weight, int.sizeOf_spec, name.sizeOf_spec, unary.sizeOf_spec,
      binary.sizeOf_spec]
    omega

/-- Whether an expression is a whole-number constant that has no type yet. -/
def isUntyped (untyped : String → Bool) (e : Expr) : Bool := allUntyped untyped [e]

end Expr

end Treewalk
