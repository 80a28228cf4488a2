import Treewalk.Grammar.Stmt

/-! # Parsing source files -/

namespace Treewalk.Parser

/-- Parameters read so far: those that have their type, and names that wait for
    the next one. -/
structure ParamList where
  done : List Param
  waiting : List String

/-- One more name of a parameter, with its type if no comma follows. -/
def paramStep (ps : ParamList) : Parser (ParamList × Bool) := do
  if ← nextIs .rparen then return (ps, false)
  else
    let x ← name
    if ← eat .comma then return (⟨ps.done, ps.waiting ++ [x]⟩, true)
    else
      let ty ← type
      let named := (ps.waiting ++ [x]).map fun x => ⟨x, ty⟩
      return (⟨ps.done ++ named, []⟩, ← eat .comma)

/-- The parameters of a function. A type holds for all names since the type
    before it. -/
def params : Parser (List Param) := do
  let ps ← loop paramStep ⟨[], []⟩
  if ps.waiting.isEmpty then return ps.done else unexpected .paramType

/-- The result type of a function, which may stand in parentheses. -/
def result : Parser (Option Ty) := do
  if ← nextIs .lbrace then return none
  else if ← eat .lparen then
    let ty ← type
    expect .rparen
    return some ty
  else return some (← type)

/-- A function. -/
def function : Parser Func := do
  let pos ← place
  expectWord .func
  let x ← name
  expect .lparen
  let ps ← params
  expect .rparen
  let res ← result
  return ⟨pos, x, ps, res, ← block stmt⟩

/-- The path of an import. -/
def importPath : Parser String := do
  match ← peek with
  | some (.str path) =>
      advance
      return path
  | _ => unexpected .importPath

/-- One more path of a list of imports. -/
def importListStep (paths : List String) : Parser (List String × Bool) := do
  if ← nextIs .rparen then return (paths, false)
  else
    let path ← importPath
    terminator (some .rparen)
    return (paths ++ [path], true)

/-- One more import declaration: a path, or a list of paths in parentheses. -/
def importStep (paths : List String) : Parser (List String × Bool) := do
  if (← peek) == some (.keyword .import_) then
    advance
    if ← eat .lparen then
      let more ← loop importListStep []
      expect .rparen
      terminator none
      return (paths ++ more, true)
    else
      let path ← importPath
      terminator none
      return (paths ++ [path], true)
  else
    return (paths, false)

/-- A function or a declaration. -/
def item : Parser Item := do
  match ← peek with
  | some (.keyword .func) => return .func (← function)
  | some (.keyword .var) => return .stmt (← varDecl)
  | some (.keyword .const) => return .stmt (← constDecl)
  | _ => unexpected .item

/-- One more item, unless the text ends. -/
def itemStep (items : List Item) : Parser (List Item × Bool) := do
  if (← peek).isNone then return (items, false)
  else
    let i ← item
    terminator none
    return (items ++ [i], true)

/-- A source file. -/
def program : Parser Program := do
  expectWord .package
  let package ← name
  terminator none
  let imports ← loop importStep []
  let items ← loop itemStep []
  return ⟨package, imports, items⟩

end Treewalk.Parser

namespace Treewalk

/-- The program that a token stream spells. -/
def Program.ofTokens (stream : TokenStream) : Except ParseError Program :=
  match Parser.program stream.stop stream.tokens with
  | .ok p _ => .ok p
  | .error e _ => .error e

end Treewalk
