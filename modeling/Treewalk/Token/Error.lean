import Treewalk.Pos

/-! # Texts that are not made of tokens -/

namespace Treewalk

/-- Why no token starts at some place. -/
inductive LexFault where
  /-- A whole number that does not fit into 64 bits with a sign. -/
  | invalidNumber (digits : String)
  /-- A block comment without an end. -/
  | openComment
  /-- A string literal without an end on its line. -/
  | openString
  /-- A backslash before a character that it does not escape, together with the
      text of the literal up to and with that character. -/
  | unknownEscape (c : Char) (read : List Char)
  /-- One half of a logical operator. -/
  | halfOperator (c : Char)
  /-- A character that starts no token. -/
  | unexpected (c : Char)
  deriving DecidableEq

namespace LexFault

/-- The message for a fault. -/
def message : LexFault → String
  | .invalidNumber digits => s!"Invalid number '{digits}'"
  | .openComment => "Unterminated block comment"
  | .openString => "Unterminated string"
  | .unknownEscape c _ => s!"Unknown escape sequence '\\{c}'"
  | .halfOperator c => s!"Unexpected '{c}' (did you mean '{c}{c}'?)"
  | .unexpected c => s!"Unexpected character '{c}'"

/-- The fault in a literal of which some text stands before. -/
def behind (text : List Char) : LexFault → LexFault
  | .unknownEscape c read => .unknownEscape c (text ++ read)
  | fault => fault

/-- The place of a fault in a piece of text that begins at `start`. An escape is
    reported one column before the place where reading stopped, everything else
    at the beginning. -/
def pos (start : Pos) : LexFault → Pos
  | .unknownEscape _ read =>
      let stop := start.after read
      ⟨stop.line, stop.col - 1⟩
  | _ => start

end LexFault

/-- A fault and its place. -/
structure LexError where
  fault : LexFault
  pos : Pos
  deriving DecidableEq

end Treewalk
