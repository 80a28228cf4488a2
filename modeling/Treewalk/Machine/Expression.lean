import Treewalk.Machine.Operate
import Treewalk.Machine.Storage

/-! # Evaluating expressions

Operands are evaluated from left to right, and an error is reported at the
innermost expression that has one. How a function is called, once its arguments
are known, is left to a parameter.
-/

namespace Treewalk

/-- How calls are made: of a function, with arguments, from a place. -/
abbrev Caller := Func → List Value → Pos → Effect Value

/-- An expression together with its evaluation. -/
structure Operand where
  expr : Expr
  value : Effect Value

namespace Effect

/-- The value of a name. -/
def readName (x : String) : Effect Value := do
  match (← get).env.lookup x with
  | some b => return b.value
  | none => fail (.unbound x)

/-- Arithmetic. -/
def arith (op : ArithOp) (a b : Value) : Effect Value := do
  ofExcept ((← get).heap.arith op a b)

/-- Comparison. -/
def compare (op : CompareOp) (a b : Value) : Effect Value := do
  ofExcept ((← get).heap.compare op a b)

/-- Two operands of which one may be a whole-number constant without a type next
    to a number with a fraction. -/
def balanced (left : Expr) (a : Value) (right : Expr) (b : Value) : Effect (Value × Value) := do
  match a, b with
  | .int n, .float _ => if ← isUntyped left then return (.float (nearestFloat n), b) else return (a, b)
  | .float _, .int n => if ← isUntyped right then return (a, .float (nearestFloat n)) else return (a, b)
  | _, _ => return (a, b)

/-- An operand of a logical operator. -/
def logical (op : String) (x : Operand) : Effect Bool := do
  let v ← x.value
  match v.logical? with
  | some b => return b
  | none => failAt x.expr.pos (.notLogical op (← kindOf v) ((← get).read v).text)

/-- An operand that has to be an array. -/
def array (x : Operand) : Effect Handle := do
  match ← x.value with
  | .array h => return h
  | v => failAt x.expr.pos (.cannotIndex (← kindOf v))

/-- An operand that has to be an index. -/
def index (x : Operand) : Effect Int := do
  match ← x.value with
  | .int i => return i.toInt
  | v => failAt x.expr.pos (.indexKind (← kindOf v))

/-- An operator in front of an operand. A sign belongs to the literal behind
    it. -/
def unary (op : UnaryOp) (x : Operand) : Effect Value :=
  match op, x.expr with
  | .neg, .int _ n => ofExcept (Value.ofConstant (-n))
  | .not, _ => do return .bool !(← logical "!" x)
  | _, _ => do
      let v ← x.value
      ofExcept ((← get).heap.signed op v)

/-- An operator between operands. The logical ones may leave out the right
    operand. -/
def binary (op : BinaryOp) (l r : Operand) : Effect Value :=
  match op with
  | .logic .and => do
      if ← logical "&&" l then return .bool (← logical "&&" r) else return .bool false
  | .logic .or => do
      if ← logical "||" l then return .bool true else return .bool (← logical "||" r)
  | .arith op => do
      let a ← l.value
      let b ← r.value
      let (a, b) ← balanced l.expr a r.expr b
      arith op a b
  | .compare op => do
      let a ← l.value
      let b ← r.value
      let (a, b) ← balanced l.expr a r.expr b
      compare op a b

/-- An operand converted to a type. -/
def convert (ty : Ty) (x : Operand) : Effect Value := do
  let v ← x.value
  ofExcept ((← get).heap.convert ty v)

/-- An element of an array. -/
def element (a i : Operand) : Effect Value := do
  let h ← array a
  let n ← index i
  ofExcept ((← get).heap.get h n)

/-- The arguments of a call as its parameters take them. -/
def arguments (callee : String) : List Param → List Operand → Effect (List Value)
  | p :: ps, x :: xs => do
      let v ← x.value
      let v ← located x.expr.pos do
        conform p.ty v (← isUntyped x.expr) s!"argument {p.name} of {callee}"
      return v :: (← arguments callee ps xs)
  | _, _ => return []

/-- A call by name. -/
def invoke (call : Caller) (pos : Pos) (callee : String) (args : List Operand) :
    Effect Value := do
  match (← get).function? callee with
  | none => fail (.unbound callee)
  | some f =>
      if f.params.length = args.length then
        call f (← arguments callee f.params args) pos
      else fail (.arity callee f.params.length args.length)

/-- Print arguments with a template. -/
def emit (template : String) (args : List Template.Arg) : Effect Unit := do
  let sink ← ofExcept ((← get).sink.emit ⟨template, args⟩)
  modify ({ · with sink })

/-- An argument of a print as it is now. -/
def readArg (s : State) : String ⊕ Value → Template.Arg
  | .inl text => .text text
  | .inr v => .datum (s.read v)

/-- Print evaluated arguments. The first one is the template if the style takes
    one. -/
def print (package : String) (style : PrintStyle) (args : List (String ⊕ Value)) :
    Effect Unit := do
  let args := args.map (readArg (← get))
  match style, args with
  | .println, _ => emit (Template.forLine args.length) args
  | .print, _ => emit (Template.forPrint args) args
  | .printf, [] => fail (.arity s!"{package}.Printf" 1 0)
  | .printf, .text template :: rest => emit template rest
  | .printf, .datum d :: _ => fail (.templateKind package d.kind)

/-- An argument of a print: a string literal or a value. -/
def printArg (x : Operand) : Effect (String ⊕ Value) :=
  match x.expr with
  | .str _ s => return .inl s
  | _ => do
      match ← x.value with
      | .unit => failAt x.expr.pos .voidPrinted
      | v => return .inr v

/-- The arguments of a print. -/
def printArgs : List Operand → Effect (List (String ⊕ Value))
  | [] => return []
  | x :: xs => do
      let arg ← printArg x
      return arg :: (← printArgs xs)

/-- A print of a package that is imported. -/
def printing (package : String) (style : PrintStyle) (args : List Operand) : Effect Value := do
  if (← get).imports.contains package then
    print package style (← printArgs args)
    return .unit
  else fail (.unbound package)

end Effect

open Effect

mutual
/-- The value of an expression. -/
def Expr.eval (call : Caller) : Expr → Effect Value
  | .int pos n => located pos (ofExcept (Value.ofConstant n))
  | .float _ x => return .float x.toFloat32
  | .bool _ b => return .bool b
  | .str pos _ => located pos (fail .strayString)
  | .name pos x => located pos (readName x)
  | .unary pos op e => located pos (unary op ⟨e, e.eval call⟩)
  | .binary pos op l r => located pos (binary op ⟨l, l.eval call⟩ ⟨r, r.eval call⟩)
  | .convert pos ty e => located pos (convert ty ⟨e, e.eval call⟩)
  | .index pos a i => located pos (element ⟨a, a.eval call⟩ ⟨i, i.eval call⟩)
  | .call pos callee args => located pos (invoke call pos callee (operands call args))
  | .print pos package style args => located pos (printing package style (operands call args))

/-- Expressions together with their evaluation. -/
def operands (call : Caller) : List Expr → List Operand
  | [] => []
  | e :: es => ⟨e, e.eval call⟩ :: operands call es
end

end Treewalk
