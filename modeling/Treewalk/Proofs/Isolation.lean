import Treewalk.Proofs.Reach

/-! # Calls see no locals of their callers

Two states may differ in the local scopes of all running calls. A function called
from either of them does the same in both, and leaves these scopes alone.
-/

namespace Treewalk

open Effect

/-- Two states that differ at most in the local scopes of the running calls. -/
structure State.SameButLocals (s t : State) : Prop where
  limit : s.limit = t.limit
  depth : s.calls.length = t.calls.length
  function : s.function? = t.function?
  imports : s.imports.contains = t.imports.contains
  globals : s.env.globals.find? = t.env.globals.find?
  heap : s.heap = t.heap
  sink : s.sink = t.sink

/-- Two states in calls that were made from two others. Since then both made the
    same calls, with the same frames; below stand those of the states that they
    were made from. -/
structure State.Inside (left right s t : State) : Prop where
  same : s.SameButLocals t
  frames : ∃ top rest, s.env.frames = top :: (rest ++ left.env.frames) ∧
    t.env.frames = top :: (rest ++ right.env.frames) ∧ top ≠ [] ∧ ∀ frame ∈ rest, frame ≠ []
  result : s.result? = t.result?

namespace Env

variable {env : Env} {x : String} {b : Binding} {scope : Scope} {outer frame : Frame}
  {rest : List Frame}

theorem lookup_local (frames : env.frames = frame :: rest) :
    env.lookup x = (frame.find? x).or (env.globals.find? x) := by
  rw [lookup, current, frames]
  rfl

theorem declare_local (frames : env.frames = (scope :: outer) :: rest) :
    env.declare x b =
      if (scope.find? x).isSome then .error (.redeclared x)
      else .ok { env with frames := (((x, b) :: scope) :: outer) :: rest } := by
  rw [declare, frames]

theorem assign_local (frames : env.frames = frame :: rest) (found : env.lookup x = some b)
    (v : Value) :
    env.assign x v =
      if b.role ≠ .variable then .error (.constantAssigned x)
      else if (frame.find? x).isSome then .ok { env with frames := frame.replace x v :: rest }
      else .ok { env with globals := env.globals.replace x v } := by
  rw [assign_eq, found, replace, current, frames, apply_ite Except.ok]
  rfl

theorem enterBlock_local (frames : env.frames = frame :: rest) :
    env.enterBlock = { env with frames := ([] :: frame) :: rest } := by
  rw [enterBlock, frames]

theorem leaveBlock_local (frames : env.frames = frame :: rest) :
    env.leaveBlock = { env with frames := frame.tail :: rest } := by
  rw [leaveBlock, frames]

end Env

theorem State.SameButLocals.room {s t : State} (same : s.SameButLocals t) : s.room = t.room := by
  rw [State.room, State.room, same.limit, same.depth]

theorem State.SameButLocals.withEnv {s t : State} (same : s.SameButLocals t) {env env' : Env}
    (globals : env.globals.find? = env'.globals.find?) :
    { s with env }.SameButLocals { t with env := env' } :=
  ⟨same.limit, same.depth, same.function, same.imports, globals, same.heap, same.sink⟩

theorem State.SameButLocals.enterCall {s t : State} (same : s.SameButLocals t) (call : Call) :
    (s.enterCall call).SameButLocals (t.enterCall call) :=
  ⟨same.limit, congrArg Nat.succ same.depth, same.function, same.imports, same.globals, same.heap,
    same.sink⟩

theorem State.SameButLocals.leaveCall {s t : State} (same : s.SameButLocals t) :
    s.leaveCall.SameButLocals t.leaveCall := by
  have depth : s.leaveCall.calls.length = t.leaveCall.calls.length := by
    simp only [State.leaveCall, List.length_tail, same.depth]
  exact ⟨same.limit, depth, same.function, same.imports, same.globals, same.heap, same.sink⟩

namespace State.Inside

variable {left right s t s' t' : State} {x : String} {b : Binding}

theorem view (inside : Inside left right s t) : s.SameView t := by
  obtain ⟨same, ⟨top, rest, frames, frames', _⟩, result⟩ := inside
  refine ⟨?_, same.heap, same.function, same.imports, result⟩
  funext x
  rw [Env.lookup_local frames, Env.lookup_local frames', same.globals]

theorem declare (inside : Inside left right s t) (x : String) (b : Binding) :
    Attempts (fun env env' => Moves (Inside left right) (fun s t => t.outline = s.outline) s t
      { s with env } { t with env := env' }) noFault (s.env.declare x b) (t.env.declare x b) := by
  obtain ⟨same, ⟨top, rest, frames, frames', full, below⟩, result⟩ := inside
  cases top with
  | nil => exact absurd rfl full
  | cons scope outer =>
      have here := Env.declare_local (x := x) (b := b) frames
      have there := Env.declare_local (x := x) (b := b) frames'
      cases found : scope.find? x with
      | some c =>
          rw [here, there, found]
          exact .error _
      | none =>
          rw [found, Option.isSome_none, if_neg Bool.false_ne_true] at here there
          have outline := State.outline_declare here
          have outline' := State.outline_declare there
          rw [here, there]
          refine .ok ⟨⟨same.withEnv same.globals, ⟨_, rest, rfl, rfl, ?_, below⟩, result⟩, outline,
            outline'⟩
          exact List.cons_ne_nil _ _

theorem assign (inside : Inside left right s t) (found : s.env.lookup x = some b) (v : Value) :
    Attempts (fun env env' => Moves (Inside left right) (fun s t => t.outline = s.outline) s t
      { s with env } { t with env := env' }) noFault (s.env.assign x v) (t.env.assign x v) := by
  have found' : t.env.lookup x = some b := by rw [← inside.view.lookup, found]
  obtain ⟨same, ⟨top, rest, frames, frames', full, below⟩, result⟩ := inside
  have here := Env.assign_local frames found v
  have there := Env.assign_local frames' found' v
  by_cases role : b.role ≠ .variable
  · rw [here, there, if_pos role, if_pos role]
    exact .error _
  · rw [if_neg role] at here there
    by_cases islocal : (top.find? x).isSome
    · rw [if_pos islocal] at here there
      have outline := State.outline_assign found here
      have outline' := State.outline_assign found' there
      rw [here, there]
      refine .ok ⟨⟨same.withEnv same.globals, ⟨_, rest, rfl, rfl, ?_, below⟩, result⟩, outline,
        outline'⟩
      rwa [← List.length_pos_iff, Frame.length_replace, List.length_pos_iff]
    · rw [if_neg islocal] at here there
      have outline := State.outline_assign found here
      have outline' := State.outline_assign found' there
      rw [here, there]
      refine .ok ⟨⟨same.withEnv ?_, ⟨top, rest, frames, frames', full, below⟩, result⟩, outline,
        outline'⟩
      funext y
      rw [Scope.find?_replace, Scope.find?_replace, same.globals]

theorem enterBlock (inside : Inside left right s t) :
    Inside left right s.enterBlock t.enterBlock := by
  obtain ⟨same, ⟨top, rest, frames, frames', full, below⟩, result⟩ := inside
  rw [State.enterBlock, State.enterBlock, Env.enterBlock_local frames, Env.enterBlock_local frames']
  exact ⟨same.withEnv same.globals, ⟨_, rest, rfl, rfl, List.cons_ne_nil _ _, below⟩, result⟩

/-- The scopes that were there before a block are there after it. -/
theorem leaveBlock (before : Inside left right s t) (inside : Inside left right s' t')
    (outline : s'.outline = s.enterBlock.outline) :
    Inside left right s'.leaveBlock t'.leaveBlock := by
  obtain ⟨_, ⟨old, deep, held, _, filled, _⟩, _⟩ := before
  obtain ⟨same, ⟨top, rest, frames, frames', full, below⟩, result⟩ := inside
  have scopes := congrArg Outline.scopes outline
  rw [State.enterBlock, Env.enterBlock_local held] at scopes
  simp only [State.outline, Env.scopes, frames, List.map_cons, List.cons.injEq] at scopes
  have more : top.tail ≠ [] := by
    rw [← List.length_pos_iff] at filled ⊢
    rw [List.length_tail, scopes.1, List.length_cons]
    exact filled
  rw [State.leaveBlock, State.leaveBlock, Env.leaveBlock_local frames, Env.leaveBlock_local frames']
  exact ⟨same.withEnv same.globals, ⟨_, rest, rfl, rfl, more, below⟩, result⟩

theorem enterCall (inside : Inside left right s t) (call : Call) :
    Inside left right (s.enterCall call) (t.enterCall call) := by
  obtain ⟨same, ⟨top, rest, frames, frames', full, below⟩, result⟩ := inside
  refine ⟨same.enterCall call, ⟨[[]], top :: rest, ?_, ?_, List.cons_ne_nil _ _, ?_⟩, rfl⟩
  · simp only [State.enterCall, Env.enterCall, frames, List.cons_append]
  · simp only [State.enterCall, Env.enterCall, frames', List.cons_append]
  · simpa using ⟨full, below⟩

theorem leaveCall {call : Call} (before : Inside left right s t) (inside : Inside left right s' t')
    (outline : s'.outline = (s.enterCall call).outline)
    (outline' : t'.outline = (t.enterCall call).outline) :
    Inside left right s'.leaveCall t'.leaveCall := by
  obtain ⟨_, ⟨old, deep, held, _⟩, result⟩ := before
  obtain ⟨same, ⟨top, rest, frames, frames', _, below⟩, _⟩ := inside
  have scopes := congrArg Outline.scopes outline
  have deeper := congrArg List.length scopes
  simp only [State.outline, State.enterCall, Env.enterCall, Env.scopes, frames, held, List.map_cons,
    List.map_append, List.length_cons, List.length_append, List.length_map] at deeper
  refine ⟨same.leaveCall, ?_, ?_⟩
  · cases rest with
    | nil =>
        simp only [List.length_nil] at deeper
        omega
    | cons next rest =>
        simp only [List.mem_cons, forall_eq_or_imp] at below
        refine ⟨next, rest, ?_, ?_, below⟩
        · simp only [State.leaveCall, Env.leaveCall, frames, List.tail_cons, List.cons_append]
        · simp only [State.leaveCall, Env.leaveCall, frames', List.tail_cons, List.cons_append]
  · have calls : s'.leaveCall.calls = s.calls :=
      congrArg Outline.calls (State.outline_leaveCall outline)
    have calls' : t'.leaveCall.calls = t.calls :=
      congrArg Outline.calls (State.outline_leaveCall outline')
    rw [State.result?, calls, ← State.result?, result, State.result?, State.result?, calls']

end State.Inside

namespace Discipline

/-- Two runs in calls that were made from two states. -/
def isolated (left right : State) : Discipline where
  __ := outlined ⟨fun _ => True, fun h => h⟩ fun _ => True
  beside := State.Inside left right
  view h := h.view
  callable_named _ _ := trivial
  owns_named _ _ := trivial
  owns_cell _ _ _ := trivial
  fits_conform _ _ _ := trivial
  fits_inferred _ _ _ := trivial
  emit e h := by
    obtain ⟨same, frames, result⟩ := h
    rw [same.sink]
    refine .same _ fun sink _ => ⟨⟨⟨same.limit, same.depth, same.function, same.imports,
      same.globals, same.heap, rfl⟩, frames, result⟩, rfl, rfl⟩
  alloc h _ _ := by
    obtain ⟨same, frames, result⟩ := h
    exact ⟨⟨⟨⟨same.limit, same.depth, same.function, same.imports, same.globals, rfl, same.sink⟩,
      frames, result⟩, rfl, rfl⟩, trivial⟩
  set h _ _ _ := by
    obtain ⟨same, frames, result⟩ := h
    exact ⟨⟨⟨same.limit, same.depth, same.function, same.imports, same.globals, rfl, same.sink⟩,
      frames, result⟩, rfl, rfl⟩
  declare x h _ _ := h.declare x _
  assign h found _ := h.assign found _
  enterBlock h := h.enterBlock
  leaveBlock h moved :=
    ⟨h.leaveBlock moved.beside moved.left, State.outline_leaveBlock moved.left,
      State.outline_leaveBlock moved.right⟩
  honest_named honest := honest.elim
  alone past := past.elim

theorem closed_isolated (left right : State) : (isolated left right).Closed where
  opens call := {
    room := fun h => .inl ⟨h.same.room, h.same.limit⟩
    enter := fun h _ _ => h.enterCall call
    leave := fun h _ moved =>
      ⟨h.leaveCall moved.beside moved.left moved.right, State.outline_leaveCall moved.left,
        State.outline_leaveCall moved.right⟩ }
  loads := {
    imports := by
      rintro s t packages ⟨same, frames, result⟩
      refine ⟨⟨⟨same.limit, same.depth, same.function, ?_, same.globals, same.heap, same.sink⟩,
        frames, result⟩, rfl, rfl⟩
      funext package
      change (s.imports ++ packages).contains package = (t.imports ++ packages).contains package
      rw [List.contains_append, List.contains_append, same.imports]
    function := by
      rintro s t f ⟨same, frames, result⟩ _ _ _
      refine ⟨⟨⟨same.limit, same.depth, ?_, same.imports, same.globals, same.heap, same.sink⟩,
        frames, result⟩, rfl, rfl⟩
      funext x
      have old := congrFun same.function x
      simp only [State.function?, List.find?_cons] at old ⊢
      rw [old] }

/-- A body runs alike in two calls, whatever stands below. -/
theorem isolated_runs (left right : State) (ss : List Stmt) :
    Lockstep.Runs (isolated left right) (inOrder (evaluate.each ss)) (inOrder (evaluate.each ss)) :=
  ((closed_isolated left right).below _).inOrder (Nat.le_refl _) fun _ _ => trivial

end Discipline

open Discipline

/-- The one call that was made since is left again. -/
theorem State.Inside.leaveFirst {left right s t : State} {call : Call}
    (inside : Inside left right s t) (outline : s.outline = (left.enterCall call).outline) :
    s.leaveCall.SameButLocals t.leaveCall ∧ s.leaveCall.env.frames = left.env.frames ∧
      t.leaveCall.env.frames = right.env.frames := by
  obtain ⟨same, ⟨top, rest, frames, frames', _⟩, _⟩ := inside
  have deep := congrArg (fun o => o.scopes.length) outline
  simp only [State.outline, State.enterCall, Env.enterCall, Env.scopes, frames, List.map_cons,
    List.map_append, List.length_cons, List.length_append, List.length_map] at deep
  obtain rfl : rest = [] := List.length_eq_zero_iff.mp (by omega)
  refine ⟨same.leaveCall, ?_, ?_⟩
  · simp only [State.leaveCall, Env.leaveCall, frames, List.tail_cons, List.nil_append]
  · simp only [State.leaveCall, Env.leaveCall, frames', List.tail_cons, List.nil_append]

section Calls

variable (f : Func) (args : List Value) (site : Pos) (s : State)

theorem after_callFunction :
    (callFunction f args site).after s =
      if s.room = 0 then s
      else ((f.run args (inOrder (evaluate.each f.body))).after
        (s.enterCall ⟨f.name, site, f.result⟩)).leaveCall := by
  rw [Effect.after, callFunction_eq_callLayer, Evaluator.callLayer_apply]
  by_cases full : s.room = 0
  · rw [if_pos full, if_pos full]
    rfl
  · rw [if_neg full, if_neg full]
    exact after_between _ _ _ _

theorem outcome_callFunction :
    (callFunction f args site).outcome s =
      if s.room = 0 then .error ⟨.stackOverflow s.limit, none⟩
      else (f.run args (inOrder (evaluate.each f.body))).outcome
        (s.enterCall ⟨f.name, site, f.result⟩) := by
  rw [Effect.outcome, callFunction_eq_callLayer, Evaluator.callLayer_apply]
  by_cases full : s.room = 0
  · rw [if_pos full, if_pos full]
    rfl
  · rw [if_neg full, if_neg full]
    exact outcome_between _ _ _ _

/-- The bodies of two calls from such states run in lockstep. -/
theorem State.SameButLocals.run {s t : State} (same : s.SameButLocals t) :
    Moves (State.Inside s t) (fun s t => t.outline = s.outline)
      (s.enterCall ⟨f.name, site, f.result⟩) (t.enterCall ⟨f.name, site, f.result⟩)
      ((f.run args (inOrder (evaluate.each f.body))).after
        (s.enterCall ⟨f.name, site, f.result⟩))
      ((f.run args (inOrder (evaluate.each f.body))).after
        (t.enterCall ⟨f.name, site, f.result⟩)) ∧
    (f.run args (inOrder (evaluate.each f.body))).outcome (s.enterCall ⟨f.name, site, f.result⟩) =
      (f.run args (inOrder (evaluate.each f.body))).outcome
        (t.enterCall ⟨f.name, site, f.result⟩) := by
  have entered : (isolated s t).Beside (s.enterCall ⟨f.name, site, f.result⟩)
      (t.enterCall ⟨f.name, site, f.result⟩) :=
    ⟨same.enterCall _, ⟨[[]], [], rfl, rfl, List.cons_ne_nil _ _, nofun⟩, rfl⟩
  have suits : (isolated s t).Suits (s.enterCall ⟨f.name, site, f.result⟩).heap f.params args :=
    fun _ _ => trivial
  exact (Lockstep.run entered trivial rfl suits (isolated_runs s t f.body)).moved id

end Calls

/-- From two states that differ at most in the local scopes of their calls, a call
    gives the same value or error and leaves two such states behind. The local
    scopes of each are the ones it had. -/
theorem call_ignores_locals {s t : State} (same : s.SameButLocals t) (f : Func) (args : List Value)
    (site : Pos) :
    (callFunction f args site).outcome s = (callFunction f args site).outcome t ∧
    ((callFunction f args site).after s).SameButLocals ((callFunction f args site).after t) ∧
    ((callFunction f args site).after s).env.frames = s.env.frames ∧
    ((callFunction f args site).after t).env.frames = t.env.frames := by
  rw [outcome_callFunction, outcome_callFunction, after_callFunction, after_callFunction,
    ← same.room]
  by_cases full : s.room = 0
  · rw [if_pos full, if_pos full, if_pos full, if_pos full, same.limit]
    exact ⟨rfl, same, rfl, rfl⟩
  · rw [if_neg full, if_neg full, if_neg full, if_neg full]
    obtain ⟨moves, outcome⟩ := same.run f args site
    exact ⟨outcome, moves.beside.leaveFirst moves.left⟩

/-- A function that returns a name it has not declared. -/
def borrower : Func :=
  ⟨⟨1, 1⟩, "borrower", [], some .int, [.return_ ⟨2, 1⟩ (some (.name ⟨2, 8⟩ "x"))]⟩

/-- The state in a call that declared `x`. -/
def lender (n : Int32) : State :=
  { State.fresh 4 (.buffer "") with
    functions := [borrower]
    env := ⟨[], [[[("x", ⟨.int n, .int, .variable⟩)]]]⟩
    calls := [⟨"main", ⟨0, 0⟩, none⟩] }

/-- Whatever `x` is in the caller, the function that is called does not see it. -/
theorem call_ignores_locals_borrower :
    (lender 1).SameButLocals (lender 2) ∧
    (callFunction borrower [] ⟨5, 1⟩).outcome (lender 1) = .error ⟨.unbound "x", some ⟨2, 8⟩⟩ ∧
    (callFunction borrower [] ⟨5, 1⟩).outcome (lender 2) = .error ⟨.unbound "x", some ⟨2, 8⟩⟩ ∧
    ((callFunction borrower [] ⟨5, 1⟩).after (lender 2)).env.frames = (lender 2).env.frames := by
  have same : (lender 1).SameButLocals (lender 2) := ⟨rfl, rfl, rfl, rfl, rfl, rfl, rfl⟩
  have unbound : (callFunction borrower [] ⟨5, 1⟩).outcome (lender 1) =
      .error ⟨.unbound "x", some ⟨2, 8⟩⟩ := rfl
  obtain ⟨outcome, _, _, kept⟩ := call_ignores_locals same borrower [] ⟨5, 1⟩
  exact ⟨same, unbound, outcome ▸ unbound, kept⟩

end Treewalk
