import Treewalk.Fault

/-! # Names and what they are bound to

A name is looked up in the block scopes of the running function, innermost
first, and then among the globals. A function never sees the names of its
caller.
-/

namespace Treewalk

/-- How a name was declared. -/
inductive Role where
  | variable
  /-- A constant with a type. -/
  | constant
  /-- A whole-number constant without a type, which fits wherever a number
      does. -/
  | untyped
  deriving DecidableEq

/-- What a name is bound to. -/
structure Binding where
  value : Value
  ty : Ty
  role : Role
  deriving DecidableEq

/-- The names that one block declares. -/
abbrev Scope := List (String × Binding)

namespace Scope

/-- The binding of a name. -/
def find? (scope : Scope) (x : String) : Option Binding := scope.lookup x

/-- Give a name that is bound another value. -/
def replace (x : String) (v : Value) : Scope → Scope
  | [] => []
  | (y, b) :: rest =>
      if y = x then (y, { b with value := v }) :: rest else (y, b) :: replace x v rest

end Scope

/-- The block scopes of a call, innermost first. -/
abbrev Frame := List Scope

namespace Frame

/-- The innermost binding of a name. -/
def find? : Frame → String → Option Binding
  | [], _ => none
  | scope :: outer, x => (scope.find? x).or (find? outer x)

/-- The innermost binding of a name, and the scopes with another value in it. -/
def target? : Frame → String → Option (Binding × (Value → Frame))
  | [], _ => none
  | scope :: outer, x =>
      match scope.find? x with
      | some b => some (b, fun v => scope.replace x v :: outer)
      | none => (target? outer x).map fun (b, put) => (b, fun v => scope :: put v)

end Frame

/-- All bindings of a run: the globals, and the frames of the running calls,
    the current one first. -/
structure Env where
  globals : Scope
  frames : List Frame
  deriving DecidableEq

namespace Env

/-- Nothing bound, nothing running. -/
def empty : Env := ⟨[], []⟩

/-- The current frame. Outside of calls it has no scopes. -/
def current (env : Env) : Frame := env.frames.head?.getD []

/-- The binding of a name. -/
def lookup (env : Env) (x : String) : Option Binding :=
  (env.current.find? x).or (env.globals.find? x)

/-- Start a call. -/
def enterCall (env : Env) : Env := { env with frames := [[]] :: env.frames }

/-- End a call. -/
def leaveCall (env : Env) : Env := { env with frames := env.frames.tail }

/-- Start a block. Outside of calls blocks have no scope of their own. -/
def enterBlock (env : Env) : Env :=
  match env.frames with
  | frame :: rest => { env with frames := ([] :: frame) :: rest }
  | [] => env

/-- End a block. -/
def leaveBlock (env : Env) : Env :=
  match env.frames with
  | frame :: rest => { env with frames := frame.tail :: rest }
  | [] => env

/-- Bind a name in the innermost scope, if that does not bind it yet. -/
def declare (env : Env) (x : String) (b : Binding) : Except Fault Env :=
  match env.frames with
  | (scope :: outer) :: rest =>
      if (scope.find? x).isSome then .error (.redeclared x)
      else .ok { env with frames := (((x, b) :: scope) :: outer) :: rest }
  | _ =>
      if (env.globals.find? x).isSome then .error (.redeclared x)
      else .ok { env with globals := (x, b) :: env.globals }

/-- The binding that an assignment to a name writes, and the bindings of the run
    with another value in it. -/
def target? (env : Env) (x : String) : Option (Binding × (Value → Env)) :=
  let inFrame :=
    match env.frames with
    | frame :: rest => (frame.target? x).map fun (b, put) =>
        (b, fun v => { env with frames := put v :: rest })
    | [] => none
  match inFrame with
  | some target => some target
  | none => (env.globals.find? x).map fun b =>
      (b, fun v => { env with globals := env.globals.replace x v })

/-- Give a variable another value. -/
def assign (env : Env) (x : String) (v : Value) : Except Fault Env :=
  match env.target? x with
  | some (b, put) =>
      if b.role ≠ .variable then .error (.constantAssigned x) else .ok (put v)
  | none => .error (.unbound x)

end Env

end Treewalk
