import Treewalk.Token
import Treewalk.Ty

/-! # Token streams that are not programs -/

namespace Treewalk

/-- What a parser was looking for. -/
inductive Expected where
  | keyword (k : Keyword)
  | symbol (s : Symbol)
  | name
  | terminator
  | item
  | importPath
  | paramType
  | arrayLength
  | type
  | expression
  | packageArgs
  deriving DecidableEq

/-- What was looked for, as messages name it. -/
def Expected.text : Expected → String
  | .keyword k => (Token.Kind.keyword k).text
  | .symbol s => (Token.Kind.symbol s).text
  | .name => "identifier"
  | .terminator => "';' or newline"
  | .item => "'func', 'var' or 'const' at package level"
  | .importPath => "import path string"
  | .paramType => "parameter type"
  | .arrayLength => "array length"
  | .type => "type"
  | .expression => "expression"
  | .packageArgs => "'(' after package function"

/-- What may stand at the front of a token stream, as messages name it: a token,
    or the end of the text. -/
def foundText : Option Token.Kind → String
  | some kind => kind.text
  | none => "end of file"

/-- Why tokens cannot be parsed. -/
inductive ParseFault where
  /-- Something other than what was looked for. -/
  | expected (what : Expected) (found : Option Token.Kind)
  /-- A name in the place of a type that names none. -/
  | unknownType (name : String)
  /-- A short declaration of something other than a name. -/
  | defineOfNonName
  /-- An `if` with a statement in the place of its condition. -/
  | missingCondition
  /-- A conversion of no operand or of several. -/
  | conversionArity (ty : Ty)
  /-- A function of a package that is not there. -/
  | unknownFunction (package member : String)
  /-- A step over the end of the text, or one that would repeat forever. No
      parser of the grammar takes such a step. -/
  | stuck
  deriving DecidableEq

/-- The message for a fault. -/
def ParseFault.message : ParseFault → String
  | .expected what found => "Expected " ++ what.text ++ ", found " ++ foundText found
  | .unknownType name => s!"Unknown type '{name}'"
  | .defineOfNonName => "Non-name on left side of ':='"
  | .missingCondition => "Expected condition after 'if'"
  | .conversionArity ty => "Conversion to " ++ ty.text ++ " takes exactly one argument"
  | .unknownFunction package member => s!"Unsupported package function {package}.{member}"
  | .stuck => "Parsing makes no progress"

/-- A fault and its place. -/
structure ParseError where
  fault : ParseFault
  pos : Pos
  deriving DecidableEq

end Treewalk
