import Treewalk.Decimal.Literal

/-! # Templates

A template is text with directives in it. A directive starts with a percent sign
and ends with a verb; between them may stand a minus sign for alignment to the
left, a width, and a point with a precision.
-/

namespace Treewalk.Template

/-- What a directive says besides its verb. -/
structure Directive where
  left : Bool
  width : Option Nat
  precision : Option Nat
  deriving DecidableEq

/-- A part of a template. -/
inductive Segment where
  /-- A character that stands for itself. -/
  | char (c : Char)
  /-- A directive for the next argument. -/
  | verb (d : Directive) (v : Char)
  /-- A directive that ends in a percent sign, which stands for one. -/
  | percent
  /-- A directive that the template ends in. -/
  | cut
  deriving DecidableEq

/-- What a directive can ask too much of. -/
inductive Excess where
  /-- More spaces than a text can hold. -/
  | width
  /-- More digits after the point than a number can be written with. -/
  | precision
  deriving DecidableEq

/-- The largest number in a directive. Digits that spell a larger one come to it. -/
def largestNumber : Nat := UInt64.size - 1

/-- The number at the front of a text, if there is one, and the rest. -/
def number (cs : List Char) : Option Nat × List Char :=
  let ds := cs.takeWhile Char.isDigit
  (if ds.isEmpty then none else some (min (Decimal.digitsValue ds) largestNumber),
    cs.dropWhile Char.isDigit)

/-- The minus sign at the front of a text, if there is one, and the rest. -/
def alignment : List Char → Bool × List Char
  | '-' :: cs => (true, cs)
  | cs => (false, cs)

/-- The precision at the front of a text, if there is one, and the rest. A point
    without digits is a precision of zero. -/
def precision : List Char → Option Nat × List Char
  | '.' :: cs => (some ((number cs).1.getD 0), (number cs).2)
  | cs => (none, cs)

/-- The directive after a percent sign up to its verb, and the rest. -/
def directive (cs : List Char) : Directive × List Char :=
  let (left, cs) := alignment cs
  let (width, cs) := number cs
  let (precision, cs) := precision cs
  (⟨left, width, precision⟩, cs)

theorem length_number_le (cs : List Char) : (number cs).2.length ≤ cs.length :=
  (List.dropWhile_suffix _).sublist.length_le

theorem length_alignment_le (cs : List Char) : (alignment cs).2.length ≤ cs.length := by
  unfold alignment
  split <;> simp

theorem length_precision_le (cs : List Char) : (precision cs).2.length ≤ cs.length := by
  unfold precision
  split
  · rename_i rest
    have := length_number_le rest
    simp only [List.length_cons]
    omega
  · simp

theorem length_directive_le (cs : List Char) : (directive cs).2.length ≤ cs.length :=
  Nat.le_trans (length_precision_le _) (Nat.le_trans (length_number_le _) (length_alignment_le _))

/-- The parts of a template. -/
def segments : List Char → List Segment
  | [] => []
  | c :: cs =>
      if c = '%' then
        match _h : directive cs with
        | (_, []) => [.cut]
        | (d, v :: rest) => (if v = '%' then .percent else .verb d v) :: segments rest
      else .char c :: segments cs
termination_by cs => cs.length
decreasing_by
  · have := length_directive_le cs
    simp_all
    omega
  · simp

end Treewalk.Template
