import Treewalk.Grammar.Program
import Mathlib.Algebra.Order.Ring.Int

/-! # Writing programs as tokens

Every tree is written in one way. An operand stands in parentheses only if its
own operator binds too loosely for its place, and a semicolon ends every
statement, item and import.
-/

namespace Treewalk

open Token (Kind)

/-! ## Trees without places -/

/-- An expression with all its places left out. -/
def Expr.erase : Expr → Expr
  | .int _ n => .int default n
  | .float _ x => .float default x
  | .bool _ b => .bool default b
  | .str _ s => .str default s
  | .name _ x => .name default x
  | .unary _ op e => .unary default op e.erase
  | .binary _ op l r => .binary default op l.erase r.erase
  | .convert _ ty e => .convert default ty e.erase
  | .index _ a i => .index default a.erase i.erase
  | .call _ f args => .call default f (args.map erase)
  | .print _ package style args => .print default package style (args.map erase)

mutual

/-- A statement with all its places left out. -/
def Stmt.erase : Stmt → Stmt
  | .var _ x ty init => .var default x ty (init.map Expr.erase)
  | .const _ x ty value => .const default x ty value.erase
  | .assign _ target op value => .assign default target.erase op value.erase
  | .bump _ target up => .bump default target.erase up
  | .if_ _ init cond body orelse =>
      .if_ default (eraseOption init) cond.erase (body.map erase) (eraseOption orelse)
  | .return_ _ value => .return_ default (value.map Expr.erase)
  | .block _ body => .block default (body.map erase)
  | .expr _ e => .expr default e.erase

def Stmt.eraseOption : Option Stmt → Option Stmt
  | none => none
  | some s => some s.erase

end

def Func.erase (f : Func) : Func := { f with pos := default, body := f.body.map Stmt.erase }

def Item.erase : Item → Item
  | .func f => .func f.erase
  | .stmt s => .stmt s.erase

/-- A program with all its places left out. -/
def Program.erase (p : Program) : Program := { p with items := p.items.map Item.erase }

/-! ## Symbols and words -/

def UnaryOp.symbol : UnaryOp → Symbol
  | .neg => .minus
  | .plus => .plus
  | .not => .bang

def BinaryOp.symbol : BinaryOp → Symbol
  | .logic .or => .orOr
  | .logic .and => .andAnd
  | .compare .eq => .eqEq
  | .compare .ne => .notEq
  | .compare .lt => .less
  | .compare .le => .lessEq
  | .compare .gt => .greater
  | .compare .ge => .greaterEq
  | .arith .add => .plus
  | .arith .sub => .minus
  | .arith .mul => .star
  | .arith .div => .slash
  | .arith .rem => .percent

/-- How tightly an operator binds: `||`, then `&&`, then comparisons, then `+` and `-`,
    then `*`, `/` and `%`. -/
def BinaryOp.precedence : BinaryOp → Nat
  | .logic .or => 1
  | .logic .and => 2
  | .compare .eq | .compare .ne | .compare .lt | .compare .le | .compare .gt | .compare .ge => 3
  | .arith .add | .arith .sub => 4
  | .arith .mul | .arith .div | .arith .rem => 5

def ArithOp.assignSymbol : Option ArithOp → Symbol
  | none => .assign
  | some .add => .plusAssign
  | some .sub => .minusAssign
  | some .mul => .starAssign
  | some .div => .slashAssign
  | some .rem => .percentAssign

def PrintStyle.member : PrintStyle → String
  | .print => "Print"
  | .println => "Println"
  | .printf => "Printf"

/-! ## Tokens -/

def parens (ks : List Kind) : List Kind := .symbol .lparen :: (ks ++ [.symbol .rparen])

/-- Lists of tokens with commas between them. -/
def commas (kss : List (List Kind)) : List Kind := [.symbol .comma].intercalate kss

def Ty.tokens : Ty → List Kind
  | .int => [.name "int"]
  | .float32 => [.name "float32"]
  | .bool => [.name "bool"]
  | .array len elem =>
      .symbol .lbracket :: .int (.ofNat len) :: .symbol .rbracket :: elem.tokens

namespace Expr

/-- How tightly an expression holds together: the precedence of its operator, six
    for a sign, and seven for element access and whatever cannot fall apart. -/
def level : Expr → Nat
  | .binary _ op _ _ => op.precedence
  | .unary .. => 6
  | _ => 7

/-- The tokens of an expression `e`, in parentheses in a place where only
    operators of a level from `least` on may stand. -/
def enclosed (least : Nat) (e : Expr) (ks : List Kind) : List Kind :=
  if e.level < least then parens ks else ks

/-- The tokens of an expression. Operators group to the left, so the right
    operand has to bind tighter than the operator. -/
def tokens : Expr → List Kind
  | .int _ n => [.int (.ofInt n)]
  | .float _ x => [.float x]
  | .bool _ b => [.name (if b then "true" else "false")]
  | .str _ s => [.str s]
  | .name _ x => [.name x]
  | .unary _ op e => .symbol op.symbol :: e.enclosed 6 e.tokens
  | .binary _ op l r =>
      l.enclosed op.precedence l.tokens ++
        .symbol op.symbol :: r.enclosed (op.precedence + 1) r.tokens
  | .convert _ ty e => ty.tokens ++ parens e.tokens
  | .index _ a i =>
      a.enclosed 7 a.tokens ++ .symbol .lbracket :: (i.tokens ++ [.symbol .rbracket])
  | .call _ f args => .name f :: parens (commas (args.map tokens))
  | .print _ package style args =>
      .name package :: .symbol .dot :: .name style.member :: parens (commas (args.map tokens))

/-- The tokens of an expression in a place where only operators of a level from
    `least` on may stand. -/
def tokensAt (least : Nat) (e : Expr) : List Kind := e.enclosed least e.tokens

end Expr

namespace Stmt

/-- The tokens of a list of statements whose own tokens are given, in braces. -/
def braces (body : List (List Kind)) : List Kind :=
  .symbol .lbrace :: (body.flatMap (· ++ [.symbol .semicolon]) ++ [.symbol .rbrace])

/-- The type and the first value of a declaration. -/
def declaredTokens (ty : Option Ty) (init : Option Expr) : List Kind :=
  (ty.map Ty.tokens).getD [] ++ (init.map fun e => .symbol .assign :: e.tokens).getD []

/-- The tokens of a statement before the condition of an `if`, given those that
    it has elsewhere. A declaration is short there. -/
def headTokens (ks : List Kind) : Stmt → List Kind
  | .var _ x none (some e) => .name x :: .symbol .define :: e.tokens
  | _ => ks

mutual

/-- The tokens of a statement. -/
def tokens : Stmt → List Kind
  | .var _ x ty init => .keyword .var :: .name x :: declaredTokens ty init
  | .const _ x ty value => .keyword .const :: .name x :: declaredTokens ty (some value)
  | .assign _ target op value =>
      target.tokens ++ .symbol (ArithOp.assignSymbol op) :: value.tokens
  | .bump _ target up => target.tokens ++ [.symbol (if up then .plusPlus else .minusMinus)]
  | .if_ _ init cond body orelse =>
      .keyword .if_ ::
        (initTokens init ++ cond.tokens ++ braces (body.map tokens) ++ elseTokens orelse)
  | .return_ _ value => .keyword .return_ :: (value.map Expr.tokens).getD []
  | .block _ body => braces (body.map tokens)
  | .expr _ e => e.tokens

/-- The tokens of the statement before the condition of an `if`. -/
def initTokens : Option Stmt → List Kind
  | none => []
  | some s => s.headTokens s.tokens ++ [.symbol .semicolon]

/-- The tokens of the alternative of an `if`. -/
def elseTokens : Option Stmt → List Kind
  | none => []
  | some s => .keyword .else_ :: s.tokens

end

end Stmt

def Param.tokens (p : Param) : List Kind := .name p.name :: p.ty.tokens

def Func.tokens (f : Func) : List Kind :=
  .keyword .func :: .name f.name ::
    (parens (commas (f.params.map Param.tokens)) ++ (f.result.map Ty.tokens).getD [] ++
      Stmt.braces (f.body.map Stmt.tokens))

def Item.tokens : Item → List Kind
  | .func f => f.tokens
  | .stmt s => s.tokens

/-- The tokens of a program. -/
def Program.tokens (p : Program) : List Kind :=
  .keyword .package :: .name p.package :: .symbol .semicolon ::
    (p.imports.flatMap (fun path => [.keyword .import_, .str path, .symbol .semicolon]) ++
      p.items.flatMap fun i => i.tokens ++ [.symbol .semicolon])

/-! ## Trees that can be written -/

def Ty.WellFormed : Ty → Prop
  | .array len elem => len < 2 ^ 63 ∧ elem.WellFormed
  | _ => True

/-- Whether a name means what it says where it stands alone. -/
def IsPlainName (x : String) : Prop := x ≠ "true" ∧ x ≠ "false"

/-- Expressions of the shapes that the grammar has. -/
def Expr.WellFormed : Expr → Prop
  | .int _ n => -2 ^ 63 ≤ n ∧ n < 2 ^ 63
  | .float .. | .bool .. | .str .. => True
  | .name _ x => IsPlainName x
  | .unary _ _ e => e.WellFormed
  | .binary _ _ l r => l.WellFormed ∧ r.WellFormed
  | .convert _ ty e => (ty = .int ∨ ty = .float32 ∨ ty = .bool) ∧ e.WellFormed
  | .index _ a i => a.WellFormed ∧ i.WellFormed
  | .call _ f args => Ty.ofName? f = none ∧ ∀ e ∈ args, e.WellFormed
  | .print _ package _ args => package = "fmt" ∧ ∀ e ∈ args, e.WellFormed

namespace Stmt

/-- What may stand before the condition of an `if`. A declaration is short there, and
    the left side of a short one is read as an expression, so its name has to be one
    of those that `heads` allows. -/
def IsHead (heads : String → Prop) : Stmt → Prop
  | .expr .. | .assign .. | .bump .. => True
  | .var _ x none (some _) => heads x
  | _ => False

/-- What may stand after `else`. -/
def IsAlternative : Stmt → Prop
  | .block .. | .if_ .. => True
  | _ => False

/-- What may stand outside functions. -/
def IsDeclaration : Stmt → Prop
  | .var .. | .const .. => True
  | _ => False

/-- Statements of the shapes that the grammar has, if it lets the names that `heads`
    allows be declared before a condition. -/
def Shaped (heads : String → Prop) : Stmt → Prop
  | .var _ _ ty init =>
      (ty.isSome ∨ init.isSome) ∧ (∀ t ∈ ty, t.WellFormed) ∧ ∀ e ∈ init, e.WellFormed
  | .const _ _ ty value => (∀ t ∈ ty, t.WellFormed) ∧ value.WellFormed
  | .assign _ target _ value => target.WellFormed ∧ value.WellFormed
  | .bump _ target _ => target.WellFormed
  | .if_ _ init cond body orelse =>
      (∀ s ∈ init, s.IsHead heads ∧ s.Shaped heads) ∧ cond.WellFormed ∧
        (∀ s ∈ body, s.Shaped heads) ∧ ∀ s ∈ orelse, s.IsAlternative ∧ s.Shaped heads
  | .return_ _ value => ∀ e ∈ value, e.WellFormed
  | .block _ body => ∀ s ∈ body, s.Shaped heads
  | .expr _ e => e.WellFormed

/-- Statements that can be read: before a condition only a plain name is declared. -/
abbrev WellFormed : Stmt → Prop := Shaped IsPlainName

end Stmt

def Func.Shaped (heads : String → Prop) (f : Func) : Prop :=
  (∀ p ∈ f.params, p.ty.WellFormed) ∧ (∀ t ∈ f.result, t.WellFormed) ∧
    ∀ s ∈ f.body, s.Shaped heads

abbrev Func.WellFormed : Func → Prop := Func.Shaped IsPlainName

def Item.Shaped (heads : String → Prop) : Item → Prop
  | .func f => f.Shaped heads
  | .stmt s => s.IsDeclaration ∧ s.Shaped heads

abbrev Item.WellFormed : Item → Prop := Item.Shaped IsPlainName

/-- Programs of the shapes that the grammar has, if it lets the names that `heads`
    allows be declared before a condition. -/
def Program.Shaped (heads : String → Prop) (p : Program) : Prop := ∀ i ∈ p.items, i.Shaped heads

/-- Programs that can be read. -/
abbrev Program.WellFormed : Program → Prop := Program.Shaped IsPlainName

end Treewalk
