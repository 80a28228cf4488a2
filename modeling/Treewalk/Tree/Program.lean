import Treewalk.Tree.Expr

/-! # Statements, functions and programs -/

namespace Treewalk

/-- A statement, with the place that errors in it are reported at. -/
inductive Stmt where
  /-- A declaration with a type, a first value, or both. -/
  | var (pos : Pos) (name : String) (ty : Option Ty) (init : Option Expr)
  | const (pos : Pos) (name : String) (ty : Option Ty) (value : Expr)
  /-- An assignment, plain or together with arithmetic. -/
  | assign (pos : Pos) (target : Expr) (op : Option ArithOp) (value : Expr)
  /-- A step up or down by one. -/
  | bump (pos : Pos) (target : Expr) (up : Bool)
  | if_ (pos : Pos) (init : Option Stmt) (cond : Expr) (body : List Stmt)
      (orelse : Option Stmt)
  | return_ (pos : Pos) (value : Option Expr)
  | block (pos : Pos) (body : List Stmt)
  | expr (pos : Pos) (e : Expr)

/-- The place of a statement. -/
def Stmt.pos : Stmt → Pos
  | .var p _ _ _ | .const p _ _ _ | .assign p _ _ _ | .bump p _ _ | .if_ p _ _ _ _
  | .return_ p _ | .block p _ | .expr p _ => p

/-- A parameter of a function. -/
structure Param where
  name : String
  ty : Ty
  deriving DecidableEq

/-- A function. -/
structure Func where
  pos : Pos
  name : String
  params : List Param
  result : Option Ty
  body : List Stmt

/-- What may stand in a source file after its imports. -/
inductive Item where
  | func (f : Func)
  | stmt (s : Stmt)

/-- A source file. -/
structure Program where
  package : String
  imports : List String
  items : List Item

namespace Program

/-- The functions of a program. -/
def functions (p : Program) : List Func :=
  p.items.filterMap fun
    | .func f => some f
    | .stmt _ => none

/-- The statements of a program that stand outside its functions. -/
def globals (p : Program) : List Stmt :=
  p.items.filterMap fun
    | .func _ => none
    | .stmt s => some s

end Program

end Treewalk
