/-! # Operators

The operators of expressions. Arithmetic, comparisons and the two operators that
may skip their right operand are kept apart, since they are evaluated
differently.
-/

namespace Treewalk

/-- Operators in front of an operand. -/
inductive UnaryOp where
  | neg
  | plus
  | not
  deriving DecidableEq

/-- Arithmetic on two numbers. -/
inductive ArithOp where
  | add
  | sub
  | mul
  | div
  | rem
  deriving DecidableEq

/-- Comparisons of two numbers. -/
inductive CompareOp where
  | eq
  | ne
  | lt
  | le
  | gt
  | ge
  deriving DecidableEq

/-- Operators that look at the right operand only if the left one leaves the
    outcome open. -/
inductive LogicOp where
  | and
  | or
  deriving DecidableEq

/-- Operators between two operands. -/
inductive BinaryOp where
  | arith (op : ArithOp)
  | compare (op : CompareOp)
  | logic (op : LogicOp)
  deriving DecidableEq

/-- The symbol of an arithmetic operator. -/
def ArithOp.text : ArithOp → String
  | .add => "+"
  | .sub => "-"
  | .mul => "*"
  | .div => "/"
  | .rem => "%"

/-- The symbol of a comparison. -/
def CompareOp.text : CompareOp → String
  | .eq => "=="
  | .ne => "!="
  | .lt => "<"
  | .le => "<="
  | .gt => ">"
  | .ge => ">="

/-- The symbol of a logical operator. -/
def LogicOp.text : LogicOp → String
  | .and => "&&"
  | .or => "||"

namespace BinaryOp

/-- The symbol of a binary operator. -/
def text : BinaryOp → String
  | .arith op => op.text
  | .compare op => op.text
  | .logic op => op.text

/-- Whether the operator computes a number. -/
def isArith : BinaryOp → Bool
  | .arith _ => true
  | _ => false

/-- Whether the operator compares. -/
def isCompare : BinaryOp → Bool
  | .compare _ => true
  | _ => false

/-- How tightly the operator binds, from one for the loosest to five. All
    operators group to the left. -/
def level : BinaryOp → Nat
  | .logic .or => 1
  | .logic .and => 2
  | .compare _ => 3
  | .arith .add | .arith .sub => 4
  | .arith .mul | .arith .div | .arith .rem => 5

end BinaryOp

end Treewalk
