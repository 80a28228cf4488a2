import Treewalk.Pos

/-! # Diagnostics

What every stage reports when it fails: a message, and a place in the source if
there is one.
-/

namespace Treewalk

/-- A message and its place. -/
structure Diagnostic where
  message : String
  pos : Option Pos
  deriving DecidableEq

/-- A diagnostic on one line. -/
def Diagnostic.text (d : Diagnostic) : String :=
  match d.pos with
  | some pos => d.message ++ " at " ++ pos.text
  | none => d.message

end Treewalk
