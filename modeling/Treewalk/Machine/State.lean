import Treewalk.Template.Render
import Treewalk.Machine.Bindings
import Treewalk.Tree.Program
import Treewalk.Value.Heap

/-! # The state of a run -/

namespace Treewalk

/-- One print: a template and its arguments as they were then. -/
structure Emit where
  template : String
  args : List Template.Arg

/-- Where prints go. -/
inductive Sink where
  /-- Nowhere. -/
  | silent
  /-- Into a text. -/
  | buffer (text : String)
  /-- Into a list, the first print first. -/
  | trace (emits : Array Emit)

/-- Take one more print. Only a sink that collects text needs the text of it. -/
def Sink.emit (e : Emit) : Sink → Except Fault Sink
  | .silent => .ok .silent
  | .buffer text =>
      match Template.printed e.template e.args with
      | .ok more => .ok (.buffer (text ++ more))
      | .error excess => .error (.unprintable excess)
  | .trace emits => .ok (.trace (emits.push e))

/-- A running call. -/
structure Call where
  callee : String
  /-- Where the call stands in the caller. -/
  site : Pos
  result : Option Ty
  deriving DecidableEq

/-- Everything that a run changes. -/
structure State where
  /-- How many calls may run inside one another. -/
  limit : Nat
  functions : List Func
  imports : List String
  env : Env
  /-- The running calls, the current one first. -/
  calls : List Call
  heap : Heap
  sink : Sink

namespace State

/-- The state before anything is loaded. -/
def fresh (limit : Nat) (sink : Sink) : State :=
  ⟨limit, [], [], .empty, [], .empty, sink⟩

/-- How many more calls may be started inside the current one. -/
def room (s : State) : Nat := s.limit - s.calls.length

/-- The type of what the current call returns. -/
def result? (s : State) : Option Ty := s.calls.head?.bind Call.result

/-- The function with a name. -/
def function? (s : State) (x : String) : Option Func := s.functions.find? (·.name == x)

/-- The value of a global. -/
def global? (s : State) (x : String) : Option Value := (s.env.globals.find? x).map Binding.value

/-- Read out a value. -/
def read (s : State) (v : Value) : Datum := s.heap.read v

/-- Start a block. -/
def enterBlock (s : State) : State := { s with env := s.env.enterBlock }

/-- End a block. -/
def leaveBlock (s : State) : State := { s with env := s.env.leaveBlock }

/-- Start a call. -/
def enterCall (call : Call) (s : State) : State :=
  { s with env := s.env.enterCall, calls := call :: s.calls }

/-- End a call. -/
def leaveCall (s : State) : State :=
  { s with env := s.env.leaveCall, calls := s.calls.tail }

end State

/-- A step of a run. It changes the state whether it succeeds or fails. -/
abbrev Effect := EStateM RunError State

namespace Effect

variable {α : Type}

/-- Stop with a fault whose place the surrounding tree will tell. -/
def fail (fault : Fault) : Effect α := throw ⟨fault, none⟩

/-- Stop with a fault at a place. -/
def failAt (pos : Pos) (fault : Fault) : Effect α := throw ⟨fault, some pos⟩

/-- What may fail without touching the state. -/
def ofExcept : Except Fault α → Effect α
  | .ok a => return a
  | .error fault => fail fault

/-- An action of the tree at a place: errors without a place get this one. -/
def located (pos : Pos) (act : Effect α) : Effect α := fun s =>
  match act s with
  | .ok a s => .ok a s
  | .error e s => .error (e.within pos) s

/-- Do something before an action, and something else after it even if it
    fails. -/
def between (before after : State → State) (act : Effect α) : Effect α := fun s =>
  match act (before s) with
  | .ok a s => .ok a (after s)
  | .error e s => .error e (after s)

/-- An action in a block of its own. -/
def inBlock : Effect α → Effect α := between State.enterBlock State.leaveBlock

/-- An action in a call of its own. -/
def inCall (call : Call) : Effect α → Effect α := between (State.enterCall call) State.leaveCall

/-- The kind of a value. -/
def kindOf (v : Value) : Effect Kind := do
  return (← get).heap.kind v

/-- Bind a name. -/
def declare (x : String) (b : Binding) : Effect Unit := do
  let env ← ofExcept ((← get).env.declare x b)
  modify ({ · with env })

/-- Whether an expression is a whole-number constant without a type. -/
def isUntyped (e : Expr) : Effect Bool := do
  let env := (← get).env
  return e.isUntyped fun x => (env.lookup x).any (·.role == .untyped)

end Effect

end Treewalk
