import Treewalk.Machine.State

/-! # Operators on values

Whole numbers wrap around, and division goes toward zero. Both operands have to
be of one kind.
-/

namespace Treewalk

/-- Arithmetic on whole numbers. -/
def ArithOp.onInt (op : ArithOp) (a b : Int32) : Except Fault Int32 :=
  match op with
  | .add => .ok (a + b)
  | .sub => .ok (a - b)
  | .mul => .ok (a * b)
  | .div => if b = 0 then .error .divisionByZero else .ok (a / b)
  | .rem => if b = 0 then .error .divisionByZero else .ok (a % b)

/-- Arithmetic on numbers with a fraction, which have no remainder. -/
def ArithOp.onFloat (op : ArithOp) (a b : Float32) : Except Fault Float32 :=
  match op with
  | .add => .ok (a + b)
  | .sub => .ok (a - b)
  | .mul => .ok (a * b)
  | .div => .ok (a / b)
  | .rem => .error (.notDefined op.text (.data .float32))

/-- A comparison, told whether the left operand is less than, equal to and
    greater than the right one. -/
def CompareOp.holds (op : CompareOp) (less equal greater : Bool) : Bool :=
  match op with
  | .eq => equal
  | .ne => !equal
  | .lt => less
  | .le => less || equal
  | .gt => greater
  | .ge => greater || equal

namespace Heap

/-- An operator on operands that it does not take. -/
def misfits (heap : Heap) (op : BinaryOp) (a b : Value) : Fault :=
  if heap.kind a = heap.kind b then .notDefined op.text (heap.kind a)
  else .mismatchedOperands (heap.kind a) (heap.kind b) op

/-- Arithmetic on values. -/
def arith (heap : Heap) (op : ArithOp) (a b : Value) : Except Fault Value :=
  match a, b with
  | .int a, .int b => (op.onInt a b).map .int
  | .float a, .float b => (op.onFloat a b).map .float
  | a, b => .error (heap.misfits (.arith op) a b)

/-- Comparison of values. Truth values are equal or not, but none is less. -/
def compare (heap : Heap) (op : CompareOp) (a b : Value) : Except Fault Value :=
  match a, b with
  | .int a, .int b => .ok (.bool (op.holds (decide (a < b)) (a == b) (decide (b < a))))
  | .float a, .float b => .ok (.bool (op.holds (decide (a < b)) (a == b) (decide (b < a))))
  | .bool a, .bool b =>
      match op with
      | .eq => .ok (.bool (a == b))
      | .ne => .ok (.bool (a != b))
      | _ => .error (.notDefined op.text (.data .bool))
  | a, b => .error (heap.misfits (.compare op) a b)

/-- A value converted to a type. -/
def convert (heap : Heap) (ty : Ty) (v : Value) : Except Fault Value :=
  match ty, v with
  | .int, .int _ => .ok v
  | .int, .float x => .ok (.int x.toInt32)
  | .float32, .int n => .ok (.float (nearestFloat n))
  | .float32, .float _ => .ok v
  | .bool, .bool _ => .ok v
  | _, _ => .error (.cannotConvert (heap.kind v) ty)

/-- A value behind a sign. -/
def signed (heap : Heap) (op : UnaryOp) (v : Value) : Except Fault Value :=
  match op, v with
  | .neg, .int n => .ok (.int (-n))
  | .neg, .float x => .ok (.float (-x))
  | .neg, v => .error (.notDefined "-" (heap.kind v))
  | _, .int n => .ok (.int n)
  | _, .float x => .ok (.float x)
  | _, v => .error (.notDefined "+" (heap.kind v))

end Heap

/-- A whole-number constant, which has to fit into 32 bits. -/
def Value.ofConstant (n : Int) : Except Fault Value :=
  if -2147483648 ≤ n && n < 2147483648 then .ok (.int (Int32.ofInt n))
  else .error (.constantOverflow n)

end Treewalk
