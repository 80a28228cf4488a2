import Treewalk.Diagnostic
import Treewalk.Report.Paint

/-! # Errors with the source line they are in -/

namespace Treewalk.Excerpt

/-- The line at the front of a text. A carriage return before the line end does
    not belong to it. -/
def firstLine (cs : List Char) : List Char :=
  let line := cs.takeWhile (· != '\n')
  if line.length < cs.length && line.getLast? == some '\r' then line.dropLast else line

/-- The line with a number, counted from zero. What follows the last line end is
    a line only if it is not empty. -/
def lineAt : Nat → List Char → Option (List Char)
  | _, [] => none
  | 0, cs => some (firstLine cs)
  | n + 1, cs => lineAt n (cs.dropWhile (· != '\n')).tail

/-- The margin in front of a source line: its number, three columns wide or
    more. -/
def margin (line : Nat) : String :=
  let digits := toString line
  String.ofList (List.replicate (3 - digits.length) ' ') ++ digits ++ " | "

/-- A row of spaces. -/
def spaces (n : Nat) : String := String.ofList (List.replicate n ' ')

/-- The source line at a place, with a mark under the column. -/
def shown (pos : Pos) (line : List Char) : List String :=
  let mark := spaces (margin pos.line).length ++ spaces (pos.col - 1) ++ "^"
  ["     |", Paint.gray (margin pos.line) ++ String.ofList line,
    Paint.red mark ++ Paint.red " error here", "     |"]

/-- The heading of an error. -/
def heading (kind message : String) : String :=
  Paint.bold (Paint.red kind) ++ ": " ++ Paint.red message

/-- The lines that report a diagnostic of some kind in a source text. -/
def lines (kind source : String) (d : Diagnostic) : List String :=
  heading kind d.message ::
    match d.pos with
    | none => []
    | some pos =>
        s!"  --> line {pos.line}, column {pos.col}" ::
          ((lineAt (pos.line - 1) source.toList).map (shown pos)).getD []

end Treewalk.Excerpt
