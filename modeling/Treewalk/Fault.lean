import Treewalk.Diagnostic
import Treewalk.Template.Directive
import Treewalk.Tree.Operator
import Treewalk.Value.Basic

/-! # Faults of running programs

What can go wrong while a program runs, and in which words it is reported.
-/

namespace Treewalk

/-- Why a program stopped. -/
inductive Fault where
  /-- A name that nothing is bound to. -/
  | unbound (name : String)
  /-- A value of a kind that does not fit. -/
  | typeMismatch (detail : String)
  /-- A write to something that cannot be written. -/
  | immutable (target : String)
  | indexOutOfRange (index : Int) (len : Nat)
  /-- A function with a result that ran to its end. -/
  | missingReturn (function : String)
  /-- More calls inside one another than the limit. -/
  | stackOverflow (limit : Nat)
  | divisionByZero
  /-- A call with the wrong number of arguments. -/
  | arity (callee : String) (expected found : Nat)
  /-- A second declaration of a name in one scope. -/
  | redeclared (name : String)
  /-- A print of which there is no text. It ends the process and not only the run. -/
  | unprintable (excess : Template.Excess)
  deriving DecidableEq

namespace Fault

/-- The message for a fault. -/
def message : Fault → String
  | .unbound name => s!"undefined: {name}"
  | .typeMismatch detail => s!"type mismatch: {detail}"
  | .immutable target => s!"cannot assign to {target}"
  | .indexOutOfRange index len => s!"index out of range [{index}] with length {len}"
  | .missingReturn function => s!"missing return at end of function {function}"
  | .stackOverflow limit => s!"stack overflow: call depth exceeds {limit}"
  | .divisionByZero => "integer divide by zero"
  | .arity callee expected found =>
      s!"wrong number of arguments in call to {callee}: have {found}, want {expected}"
  | .redeclared name => s!"{name} redeclared in this block"
  | .unprintable .width => "capacity overflow"
  | .unprintable .precision => "Formatting argument out of range"

/-- A truth value where something is to be stored. -/
def boolStored (target : String) : Fault :=
  .immutable s!"{target} (boolean values have no storage)"

/-- A declaration of something that mentions `bool`. -/
def boolDeclared (ty : Ty) : Fault :=
  .immutable s!"storage of type {ty.text} (bool variables are not supported)"

/-- A declaration of an array of arrays. -/
def nestedArray (ty : Ty) : Fault :=
  .typeMismatch s!"multi-dimensional array type {ty.text} is not supported"

/-- A declaration from a call without a result. -/
def voidDeclared (target : String) : Fault :=
  .typeMismatch s!"void call used as value in declaration of {target}"

/-- An assignment from a call without a result. -/
def voidStored (target : String) : Fault :=
  .typeMismatch s!"void call used as value in assignment to {target}"

/-- A print of a call without a result. -/
def voidPrinted : Fault := .typeMismatch "void call used as value"

/-- A value that does not fit the type of its target. -/
def cannotStore (kind : Kind) (ty : Ty) (target : String) : Fault :=
  .typeMismatch s!"cannot use {kind.text} value as {ty.text} value in assignment to {target}"

/-- A value that does not fit the result type of a function. -/
def cannotReturn (kind : Kind) (ty : Ty) : Fault :=
  .typeMismatch s!"cannot use {kind.text} value as {ty.text} value in return statement"

/-- A declaration with neither type nor value. -/
def emptyDeclaration (name : String) : Fault :=
  .typeMismatch s!"declaration of {name} needs a type or an initializer"

/-- A constant outside the range of whole numbers. -/
def constantOverflow (n : Int) : Fault :=
  .typeMismatch s!"constant {n} overflows int"

/-- A string literal outside a print. -/
def strayString : Fault :=
  .typeMismatch "string literals are only allowed as print arguments"

/-- An operator on a kind of value that it does not take. -/
def notDefined (op : String) (kind : Kind) : Fault :=
  .typeMismatch s!"operator {op} not defined on {kind.text}"

/-- A logical operator on a value that is neither true nor false. -/
def notLogical (op : String) (kind : Kind) (value : String) : Fault :=
  .typeMismatch s!"operator {op} not defined on {kind.text} value {value}"

/-- An operator between values of two kinds. -/
def mismatchedOperands (left right : Kind) (op : BinaryOp) : Fault :=
  .typeMismatch s!"mismatched types {left.text} and {right.text} for operator {op.text}"

/-- A conversion that does not exist. -/
def cannotConvert (kind : Kind) (ty : Ty) : Fault :=
  .typeMismatch s!"cannot convert {kind.text} value to {ty.text}"

/-- An element of something that is no array. -/
def cannotIndex (kind : Kind) : Fault :=
  .typeMismatch s!"cannot index {kind.text} value"

/-- An index that is no whole number. -/
def indexKind (kind : Kind) : Fault :=
  .typeMismatch s!"array index must be int, not {kind.text}"

/-- A template that is no string literal. -/
def templateKind (package : String) (kind : Kind) : Fault :=
  .typeMismatch s!"{package}.Printf format must be a string, not {kind.text}"

/-- A condition that is neither true nor false. -/
def notCondition (kind : Kind) : Fault :=
  .typeMismatch s!"non-boolean condition in if statement: {kind.text}"

/-- A returned value that nobody asked for. -/
def tooManyResults : Fault := .typeMismatch "too many return values"

/-- A missing value in a `return`. -/
def notEnoughResults (ty : Ty) : Fault :=
  .typeMismatch s!"not enough return values, want {ty.text}"

/-- An assignment to a constant. -/
def constantAssigned (name : String) : Fault := .immutable s!"constant {name}"

/-- A program that is a library. -/
def notRunnable (package : String) : Fault :=
  .typeMismatch s!"package {package} is not runnable; expected package main"

/-- A `main` with parameters or a result. -/
def mainSignature : Fault :=
  .typeMismatch "func main must have no arguments and no return values"

end Fault

/-- A fault, and its place once that is known. -/
structure RunError where
  fault : Fault
  pos : Option Pos
  deriving DecidableEq

namespace RunError

/-- Give a place to an error that has none yet. -/
def within (pos : Pos) (e : RunError) : RunError :=
  { e with pos := some (e.pos.getD pos) }

/-- The error as a diagnostic. -/
def diagnostic (e : RunError) : Diagnostic := ⟨e.fault.message, e.pos⟩

end RunError

end Treewalk
