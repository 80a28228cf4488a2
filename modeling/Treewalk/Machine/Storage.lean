import Treewalk.Machine.State

/-! # What can be stored where

Variables hold numbers and arrays of numbers. A whole-number constant without a
type also fits where a number with a fraction is stored.
-/

namespace Treewalk

/-- Whether a variable can have a type. -/
def Ty.declarable (ty : Ty) : Except Fault Unit :=
  if ty.hasBool then .error (.boolDeclared ty)
  else
    match ty with
    | .array _ (.array _ _) => .error (.nestedArray ty)
    | _ => .ok ()

namespace Heap

/-- The type of a variable declared by its first value alone. -/
def inferredType (heap : Heap) (v : Value) (target : String) : Except Fault Ty :=
  match v with
  | .int _ => .ok .int
  | .float _ => .ok .float32
  | .array h => .ok (heap.store h).ty
  | .bool _ => .error (.boolStored target)
  | .unit => .error (.voidDeclared target)

/-- A value as it is stored in a target of a type. -/
def conform (heap : Heap) (ty : Ty) (v : Value) (untyped : Bool) (target : String) :
    Except Fault Value :=
  let misfit := .error (.cannotStore (heap.kind v) ty target)
  match v with
  | .bool _ => .error (.boolStored target)
  | .unit => .error (.voidStored target)
  | .int n =>
      if ty = .int then .ok v
      else if ty = .float32 && untyped then .ok (.float (nearestFloat n))
      else misfit
  | .float _ => if ty = .float32 then .ok v else misfit
  | .array h => if (heap.store h).ty = ty then .ok v else misfit

/-- A value as a function with a result of some type returns it. A truth value
    can be returned though it cannot be stored. -/
def conformResult (heap : Heap) (ty : Ty) (v : Value) (untyped : Bool) : Except Fault Value :=
  match v with
  | .bool _ => if ty = .bool then .ok v else .error (.cannotReturn (heap.kind v) ty)
  | _ =>
      if ty = .bool then .error (.cannotReturn (heap.kind v) ty)
      else heap.conform ty v untyped "return value"

end Heap

namespace Effect

/-- The first value of a variable that is declared without one. -/
def zero (ty : Ty) : Effect Value := do
  ofExcept ty.declarable
  match ty with
  | .float32 => return .float 0
  | .array len elem =>
      let (h, heap) := (← get).heap.alloc (.zero len elem)
      modify ({ · with heap })
      return .array h
  | _ => return .int 0

/-- A value as it is stored in a target of a type. -/
def conform (ty : Ty) (v : Value) (untyped : Bool) (target : String) : Effect Value := do
  ofExcept ((← get).heap.conform ty v untyped target)

end Effect

/-- What can be written: a variable, or a cell of an array. -/
inductive Place where
  | var (x : String)
  | cell (h : Handle) (index : Int)

namespace Place

/-- The value in a place. -/
def read : Place → Effect Value
  | .var x => do
      match (← get).env.lookup x with
      | some b => return b.value
      | none => Effect.fail (.unbound x)
  | .cell h i => do
      Effect.ofExcept ((← get).heap.get h i)

/-- Put a value into a place. -/
def write (v : Value) (untyped : Bool) : Place → Effect Unit
  | .var x => do
      match (← get).env.lookup x with
      | none => Effect.fail (.unbound x)
      | some b =>
          let v ← Effect.conform b.ty v untyped x
          let env ← Effect.ofExcept ((← get).env.assign x v)
          modify ({ · with env })
  | .cell h i => do
      let v ← Effect.conform ((← get).heap.store h).elem v untyped "array element"
      let heap ← Effect.ofExcept ((← get).heap.set h i v)
      modify ({ · with heap })

end Place

end Treewalk
