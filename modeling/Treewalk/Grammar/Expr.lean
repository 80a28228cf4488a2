import Treewalk.Grammar.Type
import Treewalk.Tree.Expr

/-! # Parsing expressions

Five levels of binary operators, signs and negation, element access, and at the
bottom literals, names, calls and parentheses. Each parser below takes the
parser for whole expressions, which it uses inside brackets, as an argument.
-/

namespace Treewalk.Parser

/-- The operator that a token stands for in front of an operand. -/
def unaryOp? : Token.Kind → Option UnaryOp
  | .symbol .bang => some .not
  | .symbol .minus => some .neg
  | .symbol .plus => some .plus
  | _ => none

/-- The operator that a token stands for between two operands. -/
def binaryOp? : Token.Kind → Option BinaryOp
  | .symbol .orOr => some (.logic .or)
  | .symbol .andAnd => some (.logic .and)
  | .symbol .eqEq => some (.compare .eq)
  | .symbol .notEq => some (.compare .ne)
  | .symbol .less => some (.compare .lt)
  | .symbol .lessEq => some (.compare .le)
  | .symbol .greater => some (.compare .gt)
  | .symbol .greaterEq => some (.compare .ge)
  | .symbol .plus => some (.arith .add)
  | .symbol .minus => some (.arith .sub)
  | .symbol .star => some (.arith .mul)
  | .symbol .slash => some (.arith .div)
  | .symbol .percent => some (.arith .rem)
  | _ => none

/-- One more argument. A comma may follow the last one. -/
def argsStep (expr : Parser Expr) (args : List Expr) : Parser (List Expr × Bool) := do
  if ← nextIs .rparen then return (args, false)
  else
    let arg ← expr
    return (args ++ [arg], ← eat .comma)

/-- Arguments in parentheses. -/
def args (expr : Parser Expr) : Parser (List Expr) := do
  expect .lparen
  let es ← loop (argsStep expr) []
  expect .rparen
  return es

/-- The printing function that a member of a package is. -/
def printStyle? : String → String → Option PrintStyle
  | "fmt", "Print" => some .print
  | "fmt", "Println" => some .println
  | "fmt", "Printf" => some .printf
  | _, _ => none

/-- A call of a function of a package, from the dot on. -/
def packageCall (expr : Parser Expr) (pos : Pos) (package : String) : Parser Expr := do
  expect .dot
  let memberPos ← place
  let member ← name
  match printStyle? package member with
  | none => failAt memberPos (.unknownFunction package member)
  | some style =>
      if ← nextIs .lparen then
        return .print pos package style (← args expr)
      else
        unexpected .packageArgs

/-- A call or a conversion, from the parenthesis on. -/
def callOrConversion (expr : Parser Expr) (pos : Pos) (callee : String) : Parser Expr := do
  let es ← args expr
  match Ty.ofName? callee, es with
  | none, es => return .call pos callee es
  | some ty, [e] => return .convert pos ty e
  | some ty, _ => failAt pos (.conversionArity ty)

/-- What a name that stands alone means. -/
def nameAlone (pos : Pos) : String → Expr
  | "true" => .bool pos true
  | "false" => .bool pos false
  | x => .name pos x

/-- An operand without operators and element access. -/
def primary (expr : Parser Expr) : Parser Expr := do
  let pos ← place
  match ← peek with
  | some (.int n) =>
      advance
      return .int pos n.toInt
  | some (.float x) =>
      advance
      return .float pos x
  | some (.str s) =>
      advance
      return .str pos s
  | some (.symbol .lparen) =>
      advance
      let e ← expr
      expect .rparen
      return e
  | some (.name x) =>
      advance
      if ← nextIs .dot then packageCall expr pos x
      else if ← nextIs .lparen then callOrConversion expr pos x
      else return nameAlone pos x
  | _ => unexpected .expression

/-- One more element access. It is reported where the array is. -/
def indexStep (expr : Parser Expr) (array : Expr) : Parser (Expr × Bool) := do
  if ← eat .lbracket then
    let i ← expr
    expect .rbracket
    return (.index array.pos array i, true)
  else
    return (array, false)

/-- An operand with element accesses. -/
def element (expr : Parser Expr) : Parser Expr := do
  loop (indexStep expr) (← primary expr)

/-- One more operator in front of an operand. -/
def signStep (signs : List (Pos × UnaryOp)) : Parser (List (Pos × UnaryOp) × Bool) := do
  let pos ← place
  match (← peek).bind unaryOp? with
  | some op =>
      advance
      return (signs ++ [(pos, op)], true)
  | none => return (signs, false)

/-- Operators in front of an operand, the last of which applies first. -/
def signed (expr : Parser Expr) : Parser Expr := do
  let signs ← loop signStep []
  let e ← element expr
  return signs.foldr (fun (pos, op) e => .unary pos op e) e

/-- One more operator of a level, and its right operand. -/
def levelStep (level : Nat) (operand : Parser Expr) (left : Expr) : Parser (Expr × Bool) := do
  let pos ← place
  match ((← peek).bind binaryOp?).filter (·.level == level) with
  | some op =>
      advance
      let right ← operand
      return (.binary pos op left right, true)
  | none => return (left, false)

/-- Operands joined by the operators of a level, from left to right. -/
def joined (level : Nat) (operand : Parser Expr) : Parser Expr := do
  loop (levelStep level operand) (← operand)

/-- An expression whose inner expressions are parsed by `expr`. -/
def exprBody (expr : Parser Expr) : Parser Expr :=
  joined 1 (joined 2 (joined 3 (joined 4 (joined 5 (signed expr)))))

/-- An expression. -/
def expr : Parser Expr := fix exprBody

end Treewalk.Parser
