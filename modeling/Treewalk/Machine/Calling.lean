import Treewalk.Machine.Statement

/-! # Calling functions

There are no loops, so a run can only go on for ever by calls inside calls. The
number of calls that may still be started inside the current one bounds the
recursion: with none left, a call fails.
-/

namespace Treewalk

open Effect

/-- Bind the parameters of a function to arguments. -/
def bindParams (pos : Pos) : List Param → List Value → Effect Unit
  | p :: ps, v :: vs => do
      located pos (declare p.name ⟨v, p.ty, .variable⟩)
      bindParams pos ps vs
  | _, _ => return ()

/-- Run a function whose body runs in some way. A function with a result has to
    return. -/
def Func.run (f : Func) (args : List Value) (body : Effect Ending) : Effect Value := do
  bindParams f.pos f.params args
  match ← body with
  | .done v => return v
  | .next => if f.result.isSome then failAt f.pos (.missingReturn f.name) else return .unit

/-- Call a function whose body runs in some way. -/
def Func.enter (f : Func) (args : List Value) (site : Pos) (body : Effect Ending) : Effect Value :=
  inCall ⟨f.name, site, f.result⟩ (f.run args body)

/-- Call a function with room for some number of calls inside one another. -/
def callWithin : Nat → Caller
  | 0, _, _, _ => do fail (.stackOverflow (← get).limit)
  | room + 1, f, args, site =>
      f.enter args site (inOrder (execEach (callWithin room) f.body))

/-- Call a function. -/
def callFunction : Caller := fun f args site s => callWithin s.room f args site s

end Treewalk
