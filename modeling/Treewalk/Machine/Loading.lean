import Treewalk.Machine.Calling

/-! # Loading and running programs

Loading a program adds its imports and functions to the state and initializes
its globals in order. What was loaded before stays, and so does what a failing
program had loaded up to its failure.
-/

namespace Treewalk

open Effect

/-- Whether a function can be called: its parameters have to be storable, and
    its result unless it is a truth value. -/
def Func.checked (f : Func) : Except Fault Unit := do
  f.params.forM fun p => p.ty.declarable
  match f.result with
  | some (.array len elem) => Ty.declarable (.array len elem)
  | _ => return ()

/-- Add a function. -/
def loadFunction (f : Func) : Effect Unit := do
  located f.pos (ofExcept f.checked)
  if ((← get).function? f.name).isSome then failAt f.pos (.redeclared f.name)
  modify fun s => { s with functions := f :: s.functions }

/-- The name that a statement declares. -/
def Stmt.declares? : Stmt → Option String
  | .var _ x _ _ | .const _ x _ _ => some x
  | _ => none

/-- Run a statement that stands outside of functions. -/
def loadGlobal (exec : Stmt → Effect Ending) (s : Stmt) : Effect Unit := do
  match s.declares? with
  | some x =>
      if ((← get).function? x).isSome then failAt s.pos (.redeclared x)
  | none => pure ()
  discard (exec s)

/-- Load a program whose statements run in some way. -/
def Program.loadBy (exec : Stmt → Effect Ending) (p : Program) : Effect Unit := do
  if p.package ≠ "main" then fail (.notRunnable p.package)
  modify fun s => { s with imports := s.imports ++ p.imports }
  p.functions.forM loadFunction
  p.globals.forM (loadGlobal exec)

/-- Load a program. -/
def Program.load (p : Program) : Effect Unit := p.loadBy (Stmt.exec callFunction)

/-- Call `main` in some way. -/
def mainBy (call : Caller) : Effect Unit := do
  match (← get).function? "main" with
  | none => fail (.unbound "main")
  | some f =>
      if !f.params.isEmpty || f.result.isSome then failAt f.pos .mainSignature
      discard (call f [] ⟨0, 0⟩)

/-- Load a program and call its `main`. -/
def Program.run (p : Program) : Effect Unit := do
  p.load
  mainBy callFunction

end Treewalk
