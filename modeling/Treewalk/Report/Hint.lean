import Treewalk.Fault
import Treewalk.Report.Paint
import Treewalk.Text.Search

/-! # Hints

Advice that goes with an error. Errors in source text are told apart by their
messages, errors of running programs by what happened.
-/

namespace Treewalk

/-- Advice, and sometimes more detail. -/
structure Hint where
  help : String
  detail : Option String
  deriving DecidableEq

namespace Hint

/-- The lines of a hint. -/
def lines (h : Hint) : List String :=
  Paint.yellow ("💡 Help: " ++ h.help) ::
    (h.detail.map fun d => "    " ++ Paint.gray d).toList

/-- More detail on something that is missing in source text. -/
def missingDetail (message : String) : Option String :=
  let mentions := Text.mentions message
  if mentions "'package'" then some "Every file starts with: package main"
  else if mentions r"'}'" || mentions r"'{'" then
    some r"Check that braces are balanced and '{' ends the line of an if or func"
  else if mentions "identifier" then some "Expected a variable or function name"
  else none

/-- The hint for an error in source text. -/
def ofMessage (message : String) : Option Hint :=
  let mentions := Text.mentions message
  if mentions "did you mean '&&'" || mentions "did you mean '||'" then
    some ⟨"Goo has no bitwise operators.", some "Use && and || to combine conditions"⟩
  else if mentions "Unsupported package function" then
    some ⟨"Only fmt.Print, fmt.Println and fmt.Printf are available.",
      some "Example: fmt.Println(\"k =\", k)"⟩
  else if mentions "Unknown type" then
    some ⟨"Goo has types: int, float32 and fixed-size arrays like [10]int", none⟩
  else if mentions "Non-name on left side of ':='" then
    some ⟨"':=' declares a new variable and needs a plain name on the left.",
      some "Use '=' to assign to an array element: arr[k] = v"⟩
  else if mentions "Expected" then
    some ⟨"Missing required syntax element.", missingDetail message⟩
  else if mentions "Unterminated string" then
    some ⟨"String is missing closing quote.",
      some "Make sure every \" has a matching closing \" on the same line"⟩
  else if mentions "Invalid number" then
    some ⟨"Number format is not recognized.",
      some "Use integers like 42 or floats like 2.5 and 1e3"⟩
  else none

/-- The hint for an error of a running program. There is none for one that ends the
    process. -/
def ofFault : Fault → Option Hint
  | .unbound name =>
      if name = "fmt" then
        some ⟨"Add the import before using fmt.", some "Example: import \"fmt\""⟩
      else if name = "main" then
        some ⟨"A runnable program needs func main() { ... }", none⟩
      else
        some ⟨"Declare the name before use with var, const or :=.",
          some "Functions only see their own locals and package-level variables"⟩
  | .immutable _ =>
      some ⟨"Only variables and array elements can be assigned.",
        some "Boolean results cannot be stored; use them directly in if, &&, || or !"⟩
  | .typeMismatch _ =>
      some ⟨"Make sure the value matches the declared type.",
        some "Convert explicitly with int(x) or float32(x)"⟩
  | .indexOutOfRange _ _ =>
      some ⟨"Index is outside the valid range.",
        some "Arrays are 0-indexed: valid indices of [10]int are 0 through 9"⟩
  | .stackOverflow _ =>
      some ⟨"Recursion went too deep. Check the base case.",
        some "Raise the limit with --max-depth N or GOO_MAX_CALL_DEPTH"⟩
  | .missingReturn _ =>
      some ⟨"Every path through a function with a result type must return.", none⟩
  | .divisionByZero =>
      some ⟨"You cannot divide by zero.",
        some "Check if the divisor is zero before the operation."⟩
  | .arity _ _ _ => some ⟨"Function called with wrong number of arguments.", none⟩
  | .redeclared _ => some ⟨"Pick a new name, or use '=' to assign the existing one.", none⟩
  | .unprintable _ => none

end Hint

end Treewalk
