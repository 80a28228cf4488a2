import Treewalk.Decimal.Shortest
import Treewalk.Pos
import Treewalk.Text.Quoted

/-! # Tokens

The words of the language. A token stream is a list of tokens and the place
where the text ends; semicolons put in at line ends are tokens like any other.
-/

namespace Treewalk

/-- Reserved words. -/
inductive Keyword where
  | package
  | import_
  | func
  | var
  | const
  | if_
  | else_
  | return_
  deriving DecidableEq

namespace Keyword

/-- Every reserved word. -/
def all : List Keyword :=
  [.package, .import_, .func, .var, .const, .if_, .else_, .return_]

/-- The spelling of a reserved word. -/
def text : Keyword → String
  | .package => "package"
  | .import_ => "import"
  | .func => "func"
  | .var => "var"
  | .const => "const"
  | .if_ => "if"
  | .else_ => "else"
  | .return_ => "return"

/-- The reserved word with a spelling. -/
def ofText? (s : String) : Option Keyword := all.find? (·.text == s)

end Keyword

/-- Punctuation and operators. -/
inductive Symbol where
  | lparen
  | rparen
  | lbrace
  | rbrace
  | lbracket
  | rbracket
  | comma
  | semicolon
  | dot
  | assign
  | define
  | plusAssign
  | minusAssign
  | starAssign
  | slashAssign
  | percentAssign
  | plusPlus
  | minusMinus
  | plus
  | minus
  | star
  | slash
  | percent
  | eqEq
  | notEq
  | less
  | lessEq
  | greater
  | greaterEq
  | andAnd
  | orOr
  | bang
  deriving DecidableEq

namespace Symbol

/-- The spelling of a symbol. -/
def text : Symbol → String
  | .lparen => "("
  | .rparen => ")"
  | .lbrace => r"{"
  | .rbrace => r"}"
  | .lbracket => "["
  | .rbracket => "]"
  | .comma => ","
  | .semicolon => ";"
  | .dot => "."
  | .assign => "="
  | .define => ":="
  | .plusAssign => "+="
  | .minusAssign => "-="
  | .starAssign => "*="
  | .slashAssign => "/="
  | .percentAssign => "%="
  | .plusPlus => "++"
  | .minusMinus => "--"
  | .plus => "+"
  | .minus => "-"
  | .star => "*"
  | .slash => "/"
  | .percent => "%"
  | .eqEq => "=="
  | .notEq => "!="
  | .less => "<"
  | .lessEq => "<="
  | .greater => ">"
  | .greaterEq => ">="
  | .andAnd => "&&"
  | .orOr => "||"
  | .bang => "!"

end Symbol

namespace Token

/-- What a token is, and what it stands for. -/
inductive Kind where
  /-- A name of a variable, function, package or type. -/
  | name (x : String)
  /-- A whole number of 64 bits. Source text spells none below zero. -/
  | int (n : Int64)
  /-- A number with a fraction or an exponent. -/
  | float (x : Float)
  /-- A string literal with its escapes resolved. -/
  | str (s : String)
  | keyword (k : Keyword)
  | symbol (s : Symbol)
  deriving DecidableEq

namespace Kind

/-- Whether a statement may end after the token, so that a line break after it
    counts as a semicolon. -/
def mayEnd : Kind → Bool
  | .name _ | .int _ | .float _ | .str _ => true
  | .keyword k => k == .return_
  | .symbol s =>
      s == .plusPlus || s == .minusMinus || s == .rparen || s == .rbracket || s == .rbrace

/-- A number with its point in its place, in the fewest digits that read back. -/
def floatText (x : Float) : String :=
  match Decimal.Reading.ofFloat x with
  | .nan => "NaN"
  | .infinite neg => Decimal.sign neg ++ "inf"
  | .finite neg v =>
      Decimal.sign neg ++ if v.mant = 0 then "0" else v.shortest.positional

/-- A token as messages name it. -/
def text : Kind → String
  | .name x => s!"identifier '{x}'"
  | .int n => s!"number {n.toInt}"
  | .float x => "number " ++ floatText x
  | .str s => "string " ++ Text.quoted s
  | .keyword k => "'" ++ k.text ++ "'"
  | .symbol s => "'" ++ s.text ++ "'"

end Kind

end Token

/-- A token and the place where it starts. -/
structure Token where
  kind : Token.Kind
  pos : Pos
  deriving DecidableEq

/-- The tokens of a text and the place where the text ends. -/
structure TokenStream where
  tokens : List Token
  stop : Pos
  deriving DecidableEq

end Treewalk
