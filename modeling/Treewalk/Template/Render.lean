import Treewalk.Template.Directive
import Treewalk.Value.Datum

/-! # Printing into templates

Arguments are put into the directives of a template one after the other. An
argument that does not suit its verb, a directive without an argument and
arguments without a directive show up in the text. A width or a precision may be
more than any text can have; then there is no text.
-/

namespace Treewalk.Template

/-- An argument of a print. -/
inductive Arg where
  /-- A string literal. -/
  | text (s : String)
  | datum (d : Datum)

namespace Arg

/-- The kind of an argument as it is printed. -/
def kindText : Arg → String
  | .text _ => "string"
  | .datum d => d.kind.text

/-- An argument by itself. -/
def plain : Arg → String
  | .text s => s
  | .datum d => d.text

/-- Whether an argument is a string literal. -/
def isText : Arg → Bool
  | .text _ => true
  | .datum _ => false

/-- An argument with its kind. -/
def described (a : Arg) : String := a.kindText ++ "=" ++ a.plain

end Arg

mutual
/-- A datum as a verb prints it, if the verb suits it. An array is printed cell
    by cell. -/
def datum? (verb : Char) (precision : Nat) : Datum → Option String
  | .array _ cells =>
      if verb = 'v' || verb = 'd' || verb = 'f' || verb = 'e' || verb = 'g' then
        (data? verb precision cells).map fun texts => "[" ++ Datum.separated " " texts ++ "]"
      else none
  | .int n => if verb = 'v' || verb = 'd' then some (Datum.int n).text else none
  | .float x =>
      if verb = 'v' || verb = 'g' then some (FloatText.plain x)
      else if verb = 'f' then some (FloatText.fixed precision x)
      else if verb = 'e' then some (FloatText.scientific precision x)
      else none
  | .bool b =>
      if verb = 'v' || verb = 't' then some (Datum.boolText b)
      else if verb = 'd' then some (if b then "1" else "0")
      else none
  | .unit => if verb = 'v' then some Datum.unit.text else none

/-- Several data as a verb prints them, if it suits all of them. -/
def data? (verb : Char) (precision : Nat) : List Datum → Option (List String)
  | [] => some []
  | d :: ds =>
      match datum? verb precision d, data? verb precision ds with
      | some s, some ss => some (s :: ss)
      | _, _ => none
end

/-- An argument as a verb prints it, if the verb suits it. -/
def arg? (verb : Char) (precision : Nat) : Arg → Option String
  | .text s => if verb = 'v' || verb = 's' then some s else none
  | .datum d => datum? verb precision d

/-- A verb and what it does not suit. -/
def unsuited (verb : Char) (a : Arg) : String := "%!" ++ verb.toString ++ "(" ++ a.described ++ ")"

/-- A text with spaces up to the width of a directive, however many that are:
    `Directive.excess?` tells when they are too many. -/
def padded (d : Directive) (s : String) : String :=
  let fill := String.ofList (List.replicate (d.width.getD 0 - s.length) ' ')
  if d.left then s ++ fill else fill ++ s

/-- An argument in the place of a directive. Six places follow the point unless
    the directive says otherwise. -/
def place (d : Directive) (verb : Char) (a : Arg) : String :=
  padded d ((arg? verb (d.precision.getD 6) a).getD (unsuited verb a))

/-- Arguments that no directive took. -/
def extra : List Arg → String
  | [] => ""
  | as => "%!(EXTRA " ++ Datum.separated ", " (as.map Arg.described) ++ ")"

/-- The texts of a template's parts with the arguments put in. -/
def fill : List Segment → List Arg → List String
  | [], as => [extra as]
  | .char c :: ss, as => c.toString :: fill ss as
  | .percent :: ss, as => "%" :: fill ss as
  | .cut :: ss, as => "%!(NOVERB)" :: fill ss as
  | .verb d v :: ss, a :: as => place d v a :: fill ss as
  | .verb _ v :: ss, [] => ("%!" ++ v.toString ++ "(MISSING)") :: fill ss []

/-- A template with arguments put in. -/
def render (template : String) (args : List Arg) : String :=
  String.join (fill (segments template.toList) args)

/-- The most spaces that a text can be padded with. -/
def mostSpaces : Nat := UInt64.size / 2 - 1

/-- The most digits after the point that a number can be written with. -/
def mostPlaces : Nat := 65535

mutual
/-- Whether a verb writes a number with a precision to print a datum. Of an array
    only the cells before the first that the verb does not suit are printed. -/
def isPrecise (verb : Char) : Datum → Bool
  | .float _ => verb = 'f' || verb = 'e'
  | .array _ cells => areAnyPrecise verb cells
  | .int _ | .bool _ | .unit => false

def areAnyPrecise (verb : Char) : List Datum → Bool
  | [] => false
  | d :: ds => isPrecise verb d || (datum? verb 0 d).isSome && areAnyPrecise verb ds
end

/-- Whether a verb writes a number with a precision to print an argument. -/
def Arg.isPrecise (verb : Char) : Arg → Bool
  | .text _ => false
  | .datum d => Template.isPrecise verb d

/-- What is too much in a directive for an argument, if anything is. -/
def Directive.excess? (d : Directive) (verb : Char) (a : Arg) : Option Excess :=
  let places := d.precision.getD 6
  let text := (arg? verb places a).getD (unsuited verb a)
  if mostPlaces < places && a.isPrecise verb then some .precision
  else if mostSpaces < d.width.getD 0 - text.length then some .width
  else none

/-- The first thing that is too much when arguments are put into the parts of a
    template. -/
def excess? : List Segment → List Arg → Option Excess
  | [], _ => none
  | .verb d v :: ss, a :: as => (d.excess? v a).or (excess? ss as)
  | _ :: ss, as => excess? ss as

/-- The text of a template with arguments put in, if there can be such a text. -/
def printed (template : String) (args : List Arg) : Except Excess String :=
  match excess? (segments template.toList) args with
  | none => .ok (render template args)
  | some excess => .error excess

/-- The template that prints arguments on a line, with spaces between them. -/
def forLine (count : Nat) : String :=
  Datum.separated " " (List.replicate count "%v") ++ "\n"

/-- The template that prints arguments with a space only between two that are
    not string literals. -/
def forPrint : List Arg → String
  | [] => ""
  | [_] => "%v"
  | a :: b :: as =>
      (if a.isText || b.isText then "%v" else "%v ") ++ forPrint (b :: as)

end Treewalk.Template
