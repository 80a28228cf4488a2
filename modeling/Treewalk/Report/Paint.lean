/-! # Coloured text

The escape sequences that make a terminal show text in colour.
-/

namespace Treewalk.Paint

/-- A terminal command: its numbers after the escape character. -/
def command (n : Nat) : String := s!"\x1b[{n}m"

/-- Text between switching on a colour and going back to the usual one. -/
def colored (n : Nat) (s : String) : String := command n ++ s ++ command 39

/-- Errors. -/
def red (s : String) : String := colored 31 s

/-- Help. -/
def yellow (s : String) : String := colored 33 s

/-- Things of less importance. -/
def gray (s : String) : String := colored 90 s

/-- Text in heavy type. -/
def bold (s : String) : String := command 1 ++ s ++ command 0

end Treewalk.Paint
