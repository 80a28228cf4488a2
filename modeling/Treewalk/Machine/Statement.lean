import Treewalk.Machine.Expression

/-! # Running statements

Statements run one after the other until one returns. Blocks and `if` have a
scope of their own, which is gone afterwards whatever happens.
-/

namespace Treewalk

/-- How a statement ends. -/
inductive Ending where
  /-- The next statement follows. -/
  | next
  /-- The call ends with a value. -/
  | done (v : Value)

/-- Whether an expression can be seen to give a truth value. -/
def Expr.isBoolean : Expr → Bool
  | .binary _ (.logic _) _ _ | .unary _ .not _ | .bool _ _ => true
  | .binary _ op _ _ => op.isCompare
  | _ => false

/-- What an expression that cannot be written is called. -/
def Expr.unwritable (e : Expr) : String :=
  if e.isBoolean then "boolean-valued expression (it has no storage)"
  else
    match e with
    | .call _ callee _ => s!"result of {callee}() (it has no storage)"
    | _ => "expression (it has no storage)"

/-- The place that an expression names. -/
def Expr.place (eval : Expr → Effect Value) : Expr → Effect Place
  | .name _ x => do
      match (← get).env.lookup x with
      | none => Effect.fail (.unbound x)
      | some b =>
          if b.role = .variable then return .var x else Effect.fail (.constantAssigned x)
  | .index _ a i => do
      let h ← Effect.array ⟨a, eval a⟩
      return .cell h (← Effect.index ⟨i, eval i⟩)
  | e => Effect.failAt e.pos (.immutable e.unwritable)

namespace Effect

/-- The type and the first value of a declaration. -/
def initial (eval : Expr → Effect Value) (x : String) :
    Option Ty → Option Expr → Effect (Ty × Value)
  | some ty, none => return (ty, ← zero ty)
  | some ty, some e => do
      ofExcept ty.declarable
      let v ← eval e
      return (ty, ← conform ty v (← isUntyped e) x)
  | none, some e => do
      let v ← eval e
      return (← ofExcept ((← get).heap.inferredType v x), v)
  | none, none => fail (.emptyDeclaration x)

/-- Declare a variable. -/
def declareVar (eval : Expr → Effect Value) (x : String) (ty : Option Ty) (init : Option Expr) :
    Effect Unit := do
  let (ty, v) ← initial eval x ty init
  declare x ⟨v, ty, .variable⟩

/-- Declare a constant. It stays without a type if neither it nor its value has
    one. -/
def declareConst (eval : Expr → Effect Value) (x : String) (ty : Option Ty) (e : Expr) :
    Effect Unit := do
  let (t, v) ← initial eval x ty (some e)
  let untyped ← isUntyped e
  declare x ⟨v, t, if ty.isNone && untyped then .untyped else .constant⟩

/-- Assign a value, or the outcome of arithmetic with it. -/
def assign (eval : Expr → Effect Value) (target : Expr) (op : Option ArithOp) (e : Expr) :
    Effect Unit := do
  let place ← target.place eval
  let v ← eval e
  match op with
  | none => place.write v (← isUntyped e)
  | some op =>
      let old ← place.read
      let (old, v) ← balanced target old e v
      let v ← located e.pos (arith op old v)
      place.write v false

/-- Step a number up or down by one. -/
def bump (eval : Expr → Effect Value) (target : Expr) (up : Bool) : Effect Unit := do
  let place ← target.place eval
  let old ← place.read
  let one : Value := match old with
    | .float _ => .float 1
    | _ => .int 1
  let v ← arith (if up then .add else .sub) old one
  place.write v false

/-- End the current call. -/
def finish (eval : Expr → Effect Value) (e : Option Expr) : Effect Ending := do
  match e, (← get).result? with
  | none, none => return .done .unit
  | some e, some ty =>
      let v ← eval e
      let untyped ← isUntyped e
      let v ← located e.pos do ofExcept ((← get).heap.conformResult ty v untyped)
      return .done v
  | some e, none => failAt e.pos .tooManyResults
  | none, some ty => fail (.notEnoughResults ty)

/-- Whether a condition holds. -/
def condition (x : Operand) : Effect Bool := do
  let v ← x.value
  match v.condition? with
  | some b => return b
  | none => failAt x.expr.pos (.notCondition (← kindOf v))

/-- Run a statement, and then one of two branches. What the statement declares
    is there for both. -/
def conditional (init : Effect Ending) (cond : Operand) (body orelse : Effect Ending) :
    Effect Ending :=
  inBlock do
    discard init
    if ← condition cond then inBlock body else orelse

/-- Run one action after the other up to one that ends the call. -/
def inOrder : List (Effect Ending) → Effect Ending
  | [] => return .next
  | x :: xs => do
      match ← x with
      | .next => inOrder xs
      | .done v => return .done v

end Effect

open Effect

mutual
/-- Run a statement. -/
def Stmt.exec (call : Caller) : Stmt → Effect Ending
  | .var pos x ty init =>
      located pos do
        declareVar (Expr.eval call) x ty init
        return .next
  | .const pos x ty e =>
      located pos do
        declareConst (Expr.eval call) x ty e
        return .next
  | .assign pos target op e =>
      located pos do
        assign (Expr.eval call) target op e
        return .next
  | .bump pos target up =>
      located pos do
        bump (Expr.eval call) target up
        return .next
  | .if_ pos init cond body orelse =>
      located pos <|
        conditional (execOption call init) ⟨cond, cond.eval call⟩
          (inOrder (execEach call body)) (execOption call orelse)
  | .return_ pos e => located pos (finish (Expr.eval call) e)
  | .block pos body => located pos (inBlock (inOrder (execEach call body)))
  | .expr pos e =>
      located pos do
        discard (e.eval call)
        return .next

/-- Run a statement if there is one. -/
def execOption (call : Caller) : Option Stmt → Effect Ending
  | none => return .next
  | some s => s.exec call

/-- How each statement runs. -/
def execEach (call : Caller) : List Stmt → List (Effect Ending)
  | [] => []
  | s :: ss => s.exec call :: execEach call ss
end

end Treewalk
