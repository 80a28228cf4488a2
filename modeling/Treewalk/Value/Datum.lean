import Treewalk.Value.Basic
import Treewalk.Value.FloatText

/-! # Data

A datum is a value with the contents of its arrays read out, so that it does not
change any more. It is what gets printed.
-/

namespace Treewalk

/-- A value together with what its arrays hold. -/
inductive Datum where
  | int (n : Int32)
  | float (x : Float32)
  | bool (b : Bool)
  | array (elem : Ty) (cells : List Datum)
  | unit

namespace Datum

/-- The kind of a datum. -/
def kind : Datum → Kind
  | .int _ => .data .int
  | .float _ => .data .float32
  | .bool _ => .data .bool
  | .array elem cells => .data (.array cells.length elem)
  | .unit => .void

/-- The truth values as they are printed. -/
def boolText (b : Bool) : String := if b then "true" else "false"

/-- Texts with something between each two of them. -/
def separated (sep : String) : List String → String
  | [] => ""
  | [s] => s
  | s :: ss => s ++ sep ++ separated sep ss

mutual
/-- The default text of a datum. -/
def text : Datum → String
  | .int n => toString n.toInt
  | .float x => FloatText.plain x
  | .bool b => boolText b
  | .array _ cells => "[" ++ separated " " (texts cells) ++ "]"
  | .unit => "<void>"

/-- The default texts of several data. -/
def texts : List Datum → List String
  | [] => []
  | d :: ds => d.text :: texts ds
end

/-- An array for inspection, from its type and the texts of its cells. -/
def arrayForm (ty : Ty) (cells : List String) : String :=
  "ArrayRef(" ++ ty.text ++ ", [" ++ separated ", " cells ++ "])"

mutual
/-- The text of a datum for inspection, which shows how it is made up. -/
def inspect : Datum → String
  | .int n => "Int(" ++ toString n.toInt ++ ")"
  | .float x => "Float(" ++ FloatText.inspect x ++ ")"
  | .bool b => "Bool(" ++ boolText b ++ ")"
  | .array elem cells =>
      "Array(" ++ arrayForm (.array cells.length elem) (inspectAll cells) ++ ")"
  | .unit => "Unit"

/-- The texts of several data for inspection. -/
def inspectAll : List Datum → List String
  | [] => []
  | d :: ds => d.inspect :: inspectAll ds
end

end Datum

end Treewalk
