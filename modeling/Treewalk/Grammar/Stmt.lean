import Treewalk.Grammar.Expr
import Treewalk.Tree.Program

/-! # Parsing statements -/

namespace Treewalk.Parser

/-- The type of a declaration. It is left out only before `=`. -/
def declaredType : Parser (Option Ty) := do
  if ← nextIs .assign then return none else return some (← type)

/-- A `var` declaration. -/
def varDecl : Parser Stmt := do
  let pos ← place
  expectWord .var
  let x ← name
  let ty ← declaredType
  if ← eat .assign then return .var pos x ty (some (← expr)) else return .var pos x ty none

/-- A `const` declaration. -/
def constDecl : Parser Stmt := do
  let pos ← place
  expectWord .const
  let x ← name
  let ty ← declaredType
  expect .assign
  return .const pos x ty (← expr)

/-- The assignment that a token stands for: plain, or with an operator. -/
def assignOp? : Token.Kind → Option (Option ArithOp)
  | .symbol .assign => some none
  | .symbol .plusAssign => some (some .add)
  | .symbol .minusAssign => some (some .sub)
  | .symbol .starAssign => some (some .mul)
  | .symbol .slashAssign => some (some .div)
  | .symbol .percentAssign => some (some .rem)
  | _ => none

/-- What follows the first expression of a statement. -/
def simpleTail (pos : Pos) (left : Expr) : Parser Stmt := do
  let opPos ← place
  match ← peek with
  | some (.symbol .plusPlus) =>
      advance
      return .bump pos left true
  | some (.symbol .minusMinus) =>
      advance
      return .bump pos left false
  | some (.symbol .define) =>
      advance
      match left with
      | .name _ x => return .var pos x none (some (← expr))
      | _ => failAt opPos .defineOfNonName
  | next =>
      match next.bind assignOp? with
      | some op =>
          advance
          return .assign pos left op (← expr)
      | none => return .expr pos left

/-- An expression, an assignment, a step or a short declaration. -/
def simple : Parser Stmt := do
  let pos ← place
  simpleTail pos (← expr)

/-- Step over empty statements. -/
def skipSemicolons : Parser Unit := fun _ ts =>
  .ok () (ts.dropWhile (·.kind == .symbol .semicolon))

/-- One more statement of a block. -/
def blockStep (stmt : Parser Stmt) (body : List Stmt) : Parser (List Stmt × Bool) := do
  skipSemicolons
  if ← eat .rbrace then return (body, false)
  else
    let s ← stmt
    terminator (some .rbrace)
    return (body ++ [s], true)

/-- Statements in braces. -/
def block (stmt : Parser Stmt) : Parser (List Stmt) := do
  expect .lbrace
  loop (blockStep stmt) []

/-- What an `if` tests, after a first statement of its own. -/
def condition : Parser (Option Stmt × Expr) := do
  let s ← simple
  if ← eat .semicolon then return (some s, ← expr)
  else
    match s with
    | .expr _ e => return (none, e)
    | _ => failAt s.pos .missingCondition

/-- The alternative of an `if`: another `if`, or a block. -/
def alternative (stmt : Parser Stmt) : Parser (Option Stmt) := do
  if (← peek) == some (.keyword .else_) then
    advance
    let pos ← place
    if (← peek) == some (.keyword .if_) then return some (← stmt)
    else return some (.block pos (← block stmt))
  else
    return none

/-- A statement whose inner statements are parsed by `stmt`. -/
def stmtBody (stmt : Parser Stmt) : Parser Stmt := do
  let pos ← place
  match ← peek with
  | some (.keyword .var) => varDecl
  | some (.keyword .const) => constDecl
  | some (.keyword .if_) =>
      advance
      let (init, cond) ← condition
      let body ← block stmt
      return .if_ pos init cond body (← alternative stmt)
  | some (.symbol .lbrace) => return .block pos (← block stmt)
  | some (.keyword .return_) =>
      advance
      if (← nextIs .semicolon) || (← nextIs .rbrace) then return .return_ pos none
      else return .return_ pos (some (← expr))
  | _ => simple

/-- A statement. -/
def stmt : Parser Stmt := fix stmtBody

end Treewalk.Parser
