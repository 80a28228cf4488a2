import Treewalk.Proofs.Scoping
import Treewalk.Proofs.Typing

/-! # The footprint of expressions and statements

Whatever an expression calls, it leaves the bindings of all calls in progress as
they are. A statement works in the scopes of the current call: it may assign to
their variables, and only a declaration adds a name, to the innermost one.
-/

namespace Treewalk

open Effect

/-! ## Bindings that last -/

/-- The second binding can come of the first: a variable may have another value. -/
structure Binding.Keeps (b c : Binding) : Prop where
  ty : c.ty = b.ty
  role : c.role = b.role
  value : b.role ≠ .variable → c.value = b.value

theorem Binding.keeps_of_fixed {b c : Binding} (same : c.fixed = b.fixed) : b.Keeps c := by
  simp only [fixed, Prod.mk.injEq] at same
  obtain ⟨ty, role, value⟩ := same
  refine ⟨ty, role, ?_⟩
  intro other
  rw [role, if_neg other, if_neg other] at value
  exact Option.some.inj value

namespace Scope

/-- What can come of a scope that keeps its bindings and may get the name `new`. -/
structure Becomes (new : Option String) (scope scope' : Scope) : Prop where
  kept : ∀ x b, scope.find? x = some b → ∃ c, scope'.find? x = some c ∧ b.Keeps c
  gained : ∀ x, (scope'.find? x).isSome → (scope.find? x).isSome ∨ new = some x

variable {scope scope' : Scope}

theorem becomes_of_fixed (same : scope'.fixed = scope.fixed) (new : Option String) :
    scope.Becomes new scope' := by
  have found (x : String) :
      (scope'.find? x).map Binding.fixed = (scope.find? x).map Binding.fixed := by
    rw [← lookup_fixed, ← lookup_fixed, same]
  constructor
  · intro x b bound
    have later := found x
    rw [bound, Option.map_some, Option.map_eq_some_iff] at later
    obtain ⟨c, bound', fixed⟩ := later
    exact ⟨c, bound', Binding.keeps_of_fixed fixed⟩
  · intro x bound
    left
    rw [← Option.isSome_map (f := Binding.fixed), ← found x, Option.isSome_map]
    exact bound

theorem Becomes.cons {x : String} (h : scope.Becomes (some x) scope')
    (absent : scope'.find? x = none) (b : Binding) :
    scope.Becomes (some x) ((x, b) :: scope') := by
  constructor
  · intro y c bound
    obtain ⟨c', bound', keeps⟩ := h.kept y c bound
    have other : y ≠ x := by
      rintro rfl
      simp [absent] at bound'
    exact ⟨c', by rw [find?_cons, if_neg other, bound'], keeps⟩
  · intro y bound
    rw [find?_cons] at bound
    split at bound
    · rename_i same
      exact .inr (same ▸ rfl)
    · exact h.gained y bound

theorem forall₂_becomes {outer outer' : List Scope} (same : outer'.map fixed = outer.map fixed) :
    List.Forall₂ (Becomes none) outer outer' := by
  induction outer generalizing outer' with
  | nil =>
      rw [List.map_eq_nil_iff.mp same]
      exact .nil
  | cons scope outer ih =>
      obtain ⟨scope', rest, rfl, first, others⟩ := List.map_eq_cons_iff.mp same
      exact .cons (becomes_of_fixed first _) (ih others)

end Scope

namespace Env

variable {env env' env'' : Env}

/-- What a statement may make of an environment with a current call: the scopes
    that there are keep their bindings, and the innermost one may get the name
    `new`. -/
def Advances (new : Option String) (env env' : Env) : Prop :=
  ∃ scope outer callers scope' outer',
    env.frames = (scope :: outer) :: callers ∧ env'.frames = (scope' :: outer') :: callers ∧
    scope.Becomes new scope' ∧ List.Forall₂ (Scope.Becomes none) outer outer' ∧
    env.globals.Becomes none env'.globals

/-- There is a call, and every call has a scope. -/
structure Active (env : Env) : Prop where
  called : env.frames ≠ []
  full : ∀ frame ∈ env.frames, frame ≠ []

theorem Active.frames (active : env.Active) :
    ∃ scope outer callers, env.frames = (scope :: outer) :: callers := by
  obtain ⟨frame, callers, same⟩ := List.exists_cons_of_ne_nil active.called
  have first := active.full frame (same ▸ List.mem_cons_self)
  obtain ⟨scope, outer, rfl⟩ := List.exists_cons_of_ne_nil first
  exact ⟨scope, outer, callers, same⟩

/-- The scopes of the current call before and after. -/
theorem SameButValues.scopes (kept : env.SameButValues env') (active : env.Active) :
    ∃ scope outer callers scope' outer', env.frames = (scope :: outer) :: callers ∧
      env'.frames = (scope' :: outer') :: callers ∧ scope'.fixed = scope.fixed ∧
      outer'.map Scope.fixed = outer.map Scope.fixed := by
  obtain ⟨scope, outer, callers, same⟩ := active.frames
  obtain ⟨frame, frames, fixed⟩ := kept.frames same
  obtain ⟨scope', outer', rfl, first, others⟩ := List.map_eq_cons_iff.mp fixed
  exact ⟨scope, outer, callers, scope', outer', same, frames, first, others⟩

/-- All that a block declares is gone after it. -/
theorem sameButValues_leaveBlock (active : env.Active) (follows : env.enterBlock.Follows env') :
    env.SameButValues env'.leaveBlock := by
  obtain ⟨scope, outer, callers, same⟩ := active.frames
  obtain ⟨globals, frames⟩ := env
  dsimp only at same
  subst same
  obtain ⟨top, inner, frames, fixed, globals⟩ := frames_of_beyond follows.beyond
  have left : env'.leaveBlock = ⟨env'.globals, inner :: callers⟩ := by
    rw [leaveBlock, frames]
    rfl
  rw [left]
  exact ⟨globals, congrArg some fixed, rfl⟩

theorem SameButValues.advances (kept : env.SameButValues env') (active : env.Active)
    (new : Option String) : env.Advances new env' := by
  obtain ⟨scope, outer, callers, scope', outer', same, frames, first, others⟩ := kept.scopes active
  exact ⟨scope, outer, callers, scope', outer', same, frames, Scope.becomes_of_fixed first new,
    Scope.forall₂_becomes others, Scope.becomes_of_fixed kept.globals none⟩

theorem Advances.declare {x : String} {b : Binding} (h : env.Advances (some x) env')
    (ok : env'.declare x b = .ok env'') : env.Advances (some x) env'' := by
  obtain ⟨scope, outer, callers, scope', outer', same, frames, inner, others, globals⟩ := h
  rcases declare_cases ok with ⟨top, rest, below, frames', absent, rfl⟩ | ⟨bare, _, _⟩
  · rw [frames] at frames'
    cases frames'
    exact ⟨scope, outer, callers, _, outer', same, rfl, inner.cons absent b, others, globals⟩
  · rw [frames] at bare
    exact absurd (bare _ rfl) (List.cons_ne_nil _ _)

end Env

/-! ## Statements in a call -/

theorem declare_apply (x : String) (b : Binding) (s : State) :
    declare x b s = match s.env.declare x b with
      | .ok env => .ok () { s with env }
      | .error fault => .error ⟨fault, none⟩ s := by
  rw [declare, get_bind]
  cases s.env.declare x b with
  | ok env => rfl
  | error fault => rfl

section Statements

open Discipline

variable {s : State}

theorem sameButValues_expr (full : ∀ frame ∈ s.env.frames, frame ≠ []) (e : Expr) :
    s.env.SameButValues ((e.eval callFunction).after s).env := by
  have met := closed_scoping.self (p := .expr e) ⟨rfl, full⟩ fun _ _ => trivial
  have allowed := Lockstep.allowed met
  exact Env.sameButValues_of_frames allowed.1 allowed.2.1

/-- The first value of a declaration is found without a declaration. -/
theorem allowed_initial (full : ∀ frame ∈ s.env.frames, frame ≠ []) (x : String) (ty : Option Ty)
    (init : Option Expr) :
    scoping.allows .store s ((initial (Expr.eval callFunction) x ty init).after s) := by
  have start : scoping.Beside s s := ⟨rfl, full⟩
  have below := closed_scoping.below (sizeOf init)
  exact (Lockstep.initial start x ty init
    (below.optional (Nat.le_refl _) fun _ _ => trivial)).allowed

variable (active : s.env.Active)

include active

theorem sameButValues_inBlock {x : Effect Ending} (runs : Lockstep.Runs .scoping x x) :
    s.env.SameButValues ((inBlock x).after s).env := by
  have inside := (runs s.enterBlock s.enterBlock ⟨rfl, Env.full_enterBlock active.full⟩).allowed
  rw [inBlock, after_between]
  exact Env.sameButValues_leaveBlock active inside.1

theorem sameButValues_stmt {st : Stmt} (declares : st.declares? = none) :
    s.env.SameButValues ((st.exec callFunction).after s).env := by
  have start : scoping.Beside s s := ⟨rfl, active.full⟩
  have below {n : Nat} := closed_scoping.below n
  have marked {places : List Pos} : scoping.MarksAll places := fun _ _ => trivial
  rw [exec_eq_stmtLayer]
  cases st with
  | var | const => cases declares
  | assign pos target op e =>
      rw [Evaluator.stmtLayer, after_located, after_bind_pure]
      have assigned := Lockstep.assign start target op e marked (below.evaluates (Nat.le_refl _))
        (below.alike (Nat.lt_succ_self _) marked)
      exact assigned.allowed.1
  | bump pos target up =>
      rw [Evaluator.stmtLayer, after_located, after_bind_pure]
      exact (Lockstep.bump start target up marked (below.evaluates (Nat.le_refl _))).allowed.1
  | if_ pos init cond body orelse =>
      -- All of it, the first statement too, is in one block and gone with its scope.
      rw [Evaluator.stmtLayer, after_located]
      have branches := Lockstep.branching (below.option (Nat.le_refl (sizeOf init)) marked)
        (below.alike (Nat.lt_succ_self (sizeOf cond)) marked)
        (below.inOrder (Nat.le_refl (sizeOf body)) marked)
        (below.option (Nat.le_refl (sizeOf orelse)) marked)
      exact sameButValues_inBlock active branches
  | return_ pos result =>
      rw [Evaluator.stmtLayer, after_located]
      exact (Lockstep.finish start result (below.optional (Nat.le_refl _) marked)).allowed.1
  | block pos body =>
      rw [Evaluator.stmtLayer, after_located]
      exact sameButValues_inBlock active (below.inOrder (Nat.le_refl _) marked)
  | expr pos e =>
      rw [Evaluator.stmtLayer, after_located, after_bind_pure]
      exact (after_bind_pure _ _ s).symm ▸ sameButValues_expr active.full e

theorem advances_declare {t : State} {x : String} (kept : s.env.SameButValues t.env) (b : Binding) :
    s.env.Advances (some x) ((declare x b).after t).env := by
  have advances := kept.advances active (some x)
  rw [Effect.after, declare_apply]
  cases ok : t.env.declare x b with
  | ok env => exact advances.declare ok
  | error fault => exact advances

theorem advances_stmt (st : Stmt) :
    s.env.Advances st.declares? ((st.exec callFunction).after s).env := by
  have stop {x : String} (t : State) (kept : s.env.SameButValues t.env) :
      s.env.Advances (some x) t.env := kept.advances active _
  cases st with
  | var pos x ty init =>
      rw [Stmt.exec, after_located, after_bind_pure]
      apply afterwards (allowed_initial active.full x ty init).1 stop
      exact fun _ t kept => advances_declare active kept _
  | const pos x ty e =>
      rw [Stmt.exec, after_located, after_bind_pure]
      apply afterwards (allowed_initial active.full x ty (some e)).1 stop
      exact fun _ t kept => advances_declare active kept _
  | assign | bump | if_ | return_ | block | expr =>
      exact (sameButValues_stmt active rfl).advances active none

end Statements

/-! ## Reachable states -/

/-- Wherever a run is, and whether it succeeds or fails from there: an expression
    leaves the bindings of all calls alone, changes no more of the globals than
    the values of variables, and keeps functions, imports and the types of
    arrays. A statement that runs in a call keeps the bindings of the call in the
    same sense, adds at most the name that it declares, to the innermost scope,
    and leaves the callers alone. -/
theorem evaluation_footprint {limit : Nat} {sink : Sink} {s : State}
    (reachable : Reachable limit sink s) :
    (∀ e : Expr, let t := (e.eval callFunction).after s
      t.env.frames = s.env.frames ∧ s.env.globals.Becomes none t.env.globals ∧
      t.functions = s.functions ∧ t.imports = s.imports ∧
      ∀ h : Handle, h.index < s.heap.stores.size → h.index < t.heap.stores.size ∧
        (t.heap.store h).cells.size = (s.heap.store h).cells.size ∧
        (t.heap.store h).elem = (s.heap.store h).elem) ∧
    (s.env.frames ≠ [] → ∀ st : Stmt,
      s.env.Advances st.declares? ((st.exec callFunction).after s).env) := by
  have full := (Discipline.invariant_scoping limit sink).reachable reachable
  have typed := (Discipline.invariant_typed limit sink).reachable reachable
  constructor
  · intro e t
    have scopes := Discipline.closed_scoping.self (p := .expr e) full fun _ _ => trivial
    have types := Discipline.closed_typed.self (p := .expr e) typed fun _ _ => trivial
    obtain ⟨frames, globals, functions, imports, _⟩ := Discipline.Lockstep.allowed scopes
    obtain ⟨ext, _⟩ := Discipline.Lockstep.allowed types
    refine ⟨frames, Scope.becomes_of_fixed globals none, functions, imports, ?_⟩
    intro h known
    have ty := ext.ty h known
    simp only [Store.ty, Ty.array.injEq] at ty
    exact ⟨Nat.lt_of_lt_of_le known ext.size, ty⟩
  · exact fun called st => advances_stmt ⟨called, full.2⟩ st

/-- A function that counts its calls in a global. -/
def tally : Func :=
  ⟨⟨2, 1⟩, "tally", [], some .int, [.bump ⟨3, 1⟩ (.name ⟨3, 1⟩ "calls") true,
    .return_ ⟨4, 1⟩ (some (.name ⟨4, 8⟩ "calls"))]⟩

/-- Declares an array, and then a variable by a call of `tally`. -/
def tallyMain : Func :=
  ⟨⟨5, 1⟩, "main", [], none, [.var ⟨6, 1⟩ "a" (some (.array 2 .int)) none,
    .var ⟨7, 1⟩ "b" none (some (.call ⟨7, 9⟩ "tally" []))]⟩

def tallyProgram : Program :=
  ⟨"main", [], [.stmt (.var ⟨1, 1⟩ "calls" (some .int) none), .func tally, .func tallyMain]⟩

/-- In the call of `main`, once the array is there. -/
def tallyInside : State :=
  (evaluate (.stmt (.var ⟨6, 1⟩ "a" (some (.array 2 .int)) none))).after
    ((tallyProgram.load.after (.fresh 5 .silent)).enterCall ⟨"main", ⟨0, 0⟩, none⟩)

/-- The call of `tally` changes a global and leaves the array of `main` bound as it
    was; the declaration adds its name. -/
theorem evaluation_footprint_tally :
    Reachable 5 .silent tallyInside ∧ tallyInside.env.frames ≠ [] ∧
    (((Expr.call ⟨7, 9⟩ "tally" []).eval callFunction).after tallyInside).global? "calls" =
      some (.int 1) ∧
    (((Expr.call ⟨7, 9⟩ "tally" []).eval callFunction).after tallyInside).env.frames =
      tallyInside.env.frames ∧
    tallyInside.env.Advances (some "b")
      (((Stmt.var ⟨7, 1⟩ "b" none (some (.call ⟨7, 9⟩ "tally" []))).exec callFunction).after
        tallyInside).env := by
  have started : Session 5 .silent (.fresh 5 .silent) := .fresh
  have called : Visited 5 .silent (.call tallyMain [] ⟨0, 0⟩)
      (tallyProgram.load.after (.fresh 5 .silent)) :=
    .enter (.run tallyProgram started) (.main rfl rfl rfl rfl)
  have inside := called.enter (Enters.body (by decide) rfl rfl)
  have reachable : Reachable 5 .silent tallyInside := ⟨_, _, inside, .inr rfl⟩
  have active : tallyInside.env.frames ≠ [] := List.cons_ne_nil _ _
  obtain ⟨expressions, statements⟩ := evaluation_footprint reachable
  exact ⟨reachable, active, rfl, (expressions _).1, statements active _⟩

end Treewalk
