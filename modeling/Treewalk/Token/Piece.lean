import Treewalk.Decimal.Literal
import Treewalk.Text.Blank
import Treewalk.Token
import Treewalk.Token.Error

/-! # Pieces of source text

Source text is cut into pieces, one after the other and without a gap: blanks,
comments and tokens. Each reader below takes one piece off the front of a text,
so that the texts of the pieces make up what was read.
-/

namespace Treewalk

/-- A stretch of source text. -/
structure Piece where
  text : List Char
  /-- The token that the text spells, if it is not a blank or a comment. -/
  token : Option Token.Kind
  deriving DecidableEq

namespace Piece

/-- Whether the piece separates tokens and reaches over the end of a line. -/
def breaksLine (p : Piece) : Bool := p.token.isNone && p.text.contains '\n'

/-- The rest of a block comment up to its end, and what follows. -/
def commentTail : List Char → Option (List Char × List Char)
  | [] => none
  | '*' :: '/' :: rest => some (['*', '/'], rest)
  | c :: rest => (commentTail rest).map fun (text, rest) => (c :: text, rest)

/-- Whether a character may stand in a name. -/
def isNameChar (c : Char) : Bool := c.isAlphanum || c == '_'

/-- Whether a character may start a name. -/
def isNameStart (c : Char) : Bool := c.isAlpha || c == '_'

/-- The token that a name or reserved word spells. -/
def wordKind (text : List Char) : Token.Kind :=
  match Keyword.ofText? (String.ofList text) with
  | some k => .keyword k
  | none => .name (String.ofList text)

/-- Whether a digit comes next. -/
def atDigit (cs : List Char) : Bool := cs.head?.any Char.isDigit

/-- The text of a number from a place inside it on, and whether the number has a
    fraction or an exponent. `float` tells whether one of them has begun before
    that place, and `marked` whether the exponent has. -/
def numberTail (float marked : Bool) : List Char → List Char × Bool
  | [] => ([], float)
  | c :: rest =>
      if c.isDigit then
        (numberTail float marked rest).map (c :: ·) id
      else if c == '.' && !float && atDigit rest then
        (numberTail true marked rest).map (c :: ·) id
      else if (c == 'e' || c == 'E') && !marked then
        match rest with
        | d :: after =>
            if d.isDigit || (d == '+' || d == '-') && atDigit after then
              (numberTail true true after).map (c :: d :: ·) id
            else ([], float)
        | [] => ([], float)
      else ([], float)

/-- The number at the front. -/
def number (cs : List Char) : Except LexFault Piece :=
  let (text, float) := numberTail false false cs
  let kind? :=
    if float then (Decimal.float? text).map Token.Kind.float
    else (Decimal.int? text).map Token.Kind.int
  match kind? with
  | some kind => .ok ⟨text, some kind⟩
  | none => .error (.invalidNumber (String.ofList text))

/-- The character that an escape stands for. -/
def unescape? : Char → Option Char
  | 'n' => some '\n'
  | 't' => some '\t'
  | 'r' => some '\r'
  | '\\' => some '\\'
  | '"' => some '"'
  | _ => none

/-- The rest of a string literal: its text up to the closing quote, and the
    characters that it stands for. -/
def stringTail : List Char → Except LexFault (List Char × List Char)
  | [] => .error .openString
  | '"' :: _ => .ok (['"'], [])
  | '\n' :: _ => .error .openString
  | '\\' :: [] => .error .openString
  | '\\' :: c :: rest =>
      match unescape? c, stringTail rest with
      | none, _ => .error (.unknownEscape c ['\\', c])
      | some _, .error fault => .error (fault.behind ['\\', c])
      | some d, .ok (text, value) => .ok ('\\' :: c :: text, d :: value)
  | c :: rest =>
      match stringTail rest with
      | .error fault => .error (fault.behind [c])
      | .ok (text, value) => .ok (c :: text, c :: value)

/-- The symbol at the front: the longest that is spelled there. -/
def symbol? : List Char → Option Symbol
  | '(' :: _ => some .lparen
  | ')' :: _ => some .rparen
  | '{' :: _ => some .lbrace
  | '}' :: _ => some .rbrace
  | '[' :: _ => some .lbracket
  | ']' :: _ => some .rbracket
  | ',' :: _ => some .comma
  | ';' :: _ => some .semicolon
  | '.' :: _ => some .dot
  | '=' :: '=' :: _ => some .eqEq
  | '=' :: _ => some .assign
  | '!' :: '=' :: _ => some .notEq
  | '!' :: _ => some .bang
  | '<' :: '=' :: _ => some .lessEq
  | '<' :: _ => some .less
  | '>' :: '=' :: _ => some .greaterEq
  | '>' :: _ => some .greater
  | '*' :: '=' :: _ => some .starAssign
  | '*' :: _ => some .star
  | '/' :: '=' :: _ => some .slashAssign
  | '/' :: _ => some .slash
  | '%' :: '=' :: _ => some .percentAssign
  | '%' :: _ => some .percent
  | '+' :: '+' :: _ => some .plusPlus
  | '+' :: '=' :: _ => some .plusAssign
  | '+' :: _ => some .plus
  | '-' :: '-' :: _ => some .minusMinus
  | '-' :: '=' :: _ => some .minusAssign
  | '-' :: _ => some .minus
  | ':' :: '=' :: _ => some .define
  | '&' :: '&' :: _ => some .andAnd
  | '|' :: '|' :: _ => some .orOr
  | _ => none

/-- The piece at the front of the text `c :: rest`. -/
def front (c : Char) (rest : List Char) : Except LexFault Piece :=
  if Text.isBlank c then
    .ok ⟨[c], none⟩
  else if c == '/' && rest.head? == some '/' then
    .ok ⟨c :: rest.takeWhile (· != '\n'), none⟩
  else if c == '/' && rest.head? == some '*' then
    match commentTail rest.tail with
    | some (text, _) => .ok ⟨'/' :: '*' :: text, none⟩
    | none => .error .openComment
  else if c.isDigit then
    number (c :: rest)
  else if isNameStart c then
    let text := c :: rest.takeWhile isNameChar
    .ok ⟨text, some (wordKind text)⟩
  else if c == '"' then
    match stringTail rest with
    | .error fault => .error (fault.behind [c])
    | .ok (text, value) => .ok ⟨c :: text, some (.str (String.ofList value))⟩
  else
    match symbol? (c :: rest) with
    | some s => .ok ⟨s.text.toList, some (.symbol s)⟩
    | none => .error (if c == '&' || c == '|' then .halfOperator c else .unexpected c)

/-- The pieces of a text, up to its end or to the first fault. -/
def split : List Char → List Piece × Option LexFault
  | [] => ([], none)
  | c :: rest =>
      match front c rest with
      | .error fault => ([], some fault)
      | .ok p =>
          let (ps, fault) := split (rest.drop (p.text.length - 1))
          (p :: ps, fault)
termination_by cs => cs.length
decreasing_by
  simp only [List.length_cons, List.length_drop]
  omega

end Piece

end Treewalk
