import Treewalk.Proofs.Distinct
import Treewalk.Proofs.Footprint

/-! # What a session has defined stays

Loading and running programs only adds to what there is: functions, globals and
imports last, whatever the programs are and wherever they fail. A definition that
fails, such as one of a name that is taken, changes nothing about earlier ones.
-/

namespace Treewalk

open Effect

/-- All that the first state has defined is there in the second: functions as they
    were, and globals with at most other values of variables. -/
structure State.DefinitionsSubset (s t : State) : Prop where
  functions : ∀ x f, s.function? x = some f → t.function? x = some f
  globals : ∀ x b, s.env.globals.find? x = some b →
    ∃ c, t.env.globals.find? x = some c ∧ b.Keeps c
  imports : ∀ package ∈ s.imports, package ∈ t.imports

/-- The states that a session comes to by loads and runs from one of its states. -/
inductive State.SessionSteps (s : State) : State → Prop where
  | refl : SessionSteps s s
  | load {t : State} (p : Program) : SessionSteps s t → SessionSteps s (p.load.after t)
  | run {t : State} (p : Program) : SessionSteps s t → SessionSteps s (p.run.after t)

theorem Scope.map_fst_fixed (scope : Scope) : scope.fixed.map Prod.fst = scope.names := by
  simp [fixed, names]

/-- What names keep at least, where each is declared once. -/
theorem State.Distinct.definitionsSubset {s t : State} (distinct : t.Distinct)
    (allowed : Discipline.scoping.allows .program s t) : s.DefinitionsSubset t := by
  obtain ⟨globals, functions, imports⟩ := allowed
  refine ⟨?_, ?_, fun package listed => imports.subset listed⟩
  · intro x f found
    have member := functions.subset (List.mem_of_find?_eq_some found)
    have name : f.name = x := by simpa using List.find?_some found
    exact name ▸ distinct.functions.function? member
  · intro x b bound
    have names : (t.env.globals.fixed.map Prod.fst).Nodup := by
      rw [Scope.map_fst_fixed]
      exact distinct.env.globals
    have before : s.env.globals.fixed.lookup x = some b.fixed := by
      rw [Scope.lookup_fixed, bound, Option.map_some]
    have later := lookup_of_suffix names globals before
    rw [Scope.lookup_fixed, Option.map_eq_some_iff] at later
    obtain ⟨c, bound', fixed⟩ := later
    exact ⟨c, bound', Binding.keeps_of_fixed fixed⟩

section Sessions

variable {limit : Nat} {sink : Sink} {s t : State} {p : Point}

open Discipline

theorem Visited.definitionsSubset (visited : Visited limit sink p s) :
    s.DefinitionsSubset ((evaluate p).after s) := by
  obtain ⟨full, ready⟩ := (invariant_scoping limit sink).visited visited
  have reached : Reachable limit sink ((evaluate p).after s) := ⟨p, s, visited, .inr rfl⟩
  have distinct := ((invariant_distinct limit sink).reachable reached).2
  have met := closed_scoping.self full ready
  exact distinct.definitionsSubset met.lockstep.allowed

theorem Session.steps (session : Session limit sink s) (steps : s.SessionSteps t) :
    Session limit sink t := by
  induction steps with
  | refl => exact session
  | load p _ ih => exact ih.load p
  | run p _ ih => exact ih.run p

theorem Session.allows (session : Session limit sink s) (steps : s.SessionSteps t) :
    scoping.allows .program s t := by
  induction steps with
  | refl => exact scoping.allows_refl .program s
  | load p steps ih =>
      have full := (invariant_scoping limit sink).session (session.steps steps)
      have met := closed_scoping.self (p := .load p) full
        ((invariant_scoping limit sink).ready p)
      exact scoping.allows_trans ih met.lockstep.allowed
  | run p steps ih =>
      have full := (invariant_scoping limit sink).session (session.steps steps)
      have met := closed_scoping.self (p := .run p) full
        ((invariant_scoping limit sink).ready p)
      exact scoping.allows_trans ih met.lockstep.allowed

theorem Session.definitionsSubset (session : Session limit sink s) (steps : s.SessionSteps t) :
    s.DefinitionsSubset t := by
  have distinct := ((invariant_distinct limit sink).session (session.steps steps)).2
  exact distinct.definitionsSubset (session.allows steps)

end Sessions

/-! ## Loads that stop in between -/

/-- What a program begins with: some of its functions, or all of them and some of
    its globals. -/
structure Program.Begins (q p : Program) : Prop where
  package : q.package = p.package
  imports : q.imports = p.imports
  functions : q.functions <+: p.functions
  globals : q.globals <+: p.globals
  order : q.functions = p.functions ∨ q.globals = []

theorem forM_append_apply {α : Type} {f : α → Effect PUnit} {xs : List α} (ys : List α)
    {s t : State} (ok : xs.forM f s = .ok () t) : (xs ++ ys).forM f s = ys.forM f t := by
  induction xs generalizing s with
  | nil =>
      cases ok
      rfl
  | cons x xs ih =>
      obtain ⟨_, u, first, others⟩ := bind_eq_ok.mp ok
      exact (bind_ok first).trans (ih others)

theorem Program.exists_parts (fs : List Func) (gs : List Stmt) :
    ∃ r : Program, r.package = "main" ∧ r.imports = [] ∧ r.functions = fs ∧ r.globals = gs := by
  refine ⟨⟨"main", [], fs.map .func ++ gs.map .stmt⟩, rfl, rfl, ?_, ?_⟩
  · simp [Program.functions, List.filterMap_append, List.filterMap_map]
  · simp [Program.globals, List.filterMap_append, List.filterMap_map]

/-- What is left to load of a program is a program. -/
theorem Program.Begins.rest {p q : Program} {s t : State} (begins : q.Begins p)
    (ok : q.load s = .ok () t) : ∃ r : Program, p.load s = r.load t := by
  have package : q.package = "main" := by
    by_contra other
    unfold Program.load Program.loadBy at ok
    rw [if_pos other] at ok
    cases ok
  obtain ⟨fs, functions⟩ := begins.functions
  obtain ⟨gs, globals⟩ := begins.globals
  obtain ⟨r, main, packages, rfl, rfl⟩ := exists_parts fs gs
  refine ⟨r, ?_⟩
  rw [load_apply package] at ok
  obtain ⟨_, u, loaded, initialized⟩ := bind_eq_ok.mp ok
  rw [load_apply (begins.package ▸ package), load_apply main, ← begins.imports, packages,
    List.append_nil, ← functions, ← globals]
  rcases begins.order with all | none
  · rw [← all, List.append_right_eq_self] at functions
    rw [functions, List.append_nil]
    exact (bind_ok loaded).trans (forM_append_apply _ initialized)
  · rw [none] at initialized ⊢
    cases initialized
    exact bind_congr (forM_append_apply _ loaded)

/-! ## Definitions that fail -/

theorem loadFunction_error {f : Func} {s t : State} {e : RunError}
    (failed : loadFunction f s = .error e t) : t = s := by
  unfold loadFunction at failed
  rcases bind_eq_error.mp failed with checked | ⟨_, u, checked, failed⟩
  · obtain ⟨e', checked, _⟩ := located_eq_error.mp checked
    cases r : f.checked with
    | ok a => rw [r] at checked; cases checked
    | error fault => rw [r] at checked; cases checked; rfl
  · rw [located_eq_ok, ofExcept_eq_ok] at checked
    obtain ⟨_, rfl⟩ := checked
    rw [get_bind] at failed
    split at failed <;> cases failed
    rfl

/-- The state once the first value of a declaration is known, or could not be
    found. -/
def Stmt.initialized (s : State) : Stmt → State
  | .var _ _ _ (some e) | .const _ _ _ e => (e.eval callFunction).after s
  | _ => s

theorem env_after_bind {α β : Type} {x : Effect α} {f : α → Effect β}
    (still : ∀ a u, ((f a).after u).env = u.env) (s : State) :
    ((x >>= f).after s).env = (x.after s).env := by
  cases ran : x s with
  | ok a t => rw [after_of_ok ran, Effect.after, bind_ok ran]; exact still a t
  | error e t => rw [after_of_error ran, Effect.after, bind_error ran]

theorem env_after_zero (ty : Ty) (s : State) : ((zero ty).after s).env = s.env := by
  unfold Effect.after zero
  cases ty.declarable with
  | error fault => rfl
  | ok _ =>
      cases ty with
      | int | float32 | bool | array => rfl

theorem env_after_initial (x : String) (ty : Option Ty) (init : Option Expr) (s : State) :
    ((initial (Expr.eval callFunction) x ty init).after s).env = s.env ∨
    ∃ e ∈ init, ((initial (Expr.eval callFunction) x ty init).after s).env =
      ((e.eval callFunction).after s).env := by
  cases init with
  | none =>
      left
      cases ty with
      | none => rfl
      | some ty =>
          rw [initial, after_bind_pure]
          exact env_after_zero ty s
  | some e =>
      cases ty with
      | none =>
          refine .inr ⟨e, rfl, env_after_bind ?_ s⟩
          intro v u
          rw [Effect.after, get_bind, ← Effect.after, after_bind_pure, after_ofExcept]
      | some ty =>
          cases declarable : ty.declarable with
          | error fault =>
              left
              rw [initial, Effect.after, declarable]
              rfl
          | ok a =>
              have checked : initial (Expr.eval callFunction) x (some ty) (some e) s =
                  (do let v ← e.eval callFunction
                      return (ty, ← conform ty v (← isUntyped e) x) : Effect (Ty × Value)) s := by
                rw [initial, declarable]
                rfl
              refine .inr ⟨e, rfl, ?_⟩
              rw [Effect.after, checked]
              refine env_after_bind ?_ s
              intro v u
              rw [Effect.after, bind_ok (isUntyped_apply e u), ← Effect.after, after_bind_pure,
                conform, Effect.after, get_bind, ← Effect.after, after_ofExcept]

theorem declare_error {x : String} {b : Binding} {s t : State} {e : RunError}
    (failed : declare x b s = .error e t) : t = s := by
  rw [declare_apply] at failed
  split at failed <;> cases failed
  rfl

/-- A declaration that stops has done no more than look for its first value. -/
theorem initial_error {x : String} {ty : Option Ty} {init : Option Expr}
    {bind : Ty × Value → Effect Unit} {s t : State} {e : RunError}
    (still : ∀ a u e' t', bind a u = .error e' t' → t' = u)
    (failed : (initial (Expr.eval callFunction) x ty init >>= bind) s = .error e t) :
    t.env = s.env ∨ ∃ e ∈ init, t.env = ((e.eval callFunction).after s).env := by
  have stopped : t = (initial (Expr.eval callFunction) x ty init).after s := by
    rcases bind_eq_error.mp failed with failed | ⟨a, u, ok, failed⟩
    · exact (after_of_error failed).symm
    · rw [after_of_ok ok]
      exact still a u e t failed
  rw [stopped]
  exact env_after_initial x ty init s

theorem declaration_error {st : Stmt} {x : String} {s t : State} {e : RunError}
    (declares : st.declares? = some x) (failed : st.exec callFunction s = .error e t) :
    t.env = s.env ∨ t.env = (st.initialized s).env := by
  cases st with
  | var pos x ty init =>
      obtain ⟨e', failed, _⟩ := located_eq_error.mp failed
      rcases bind_eq_error.mp failed with failed | ⟨_, _, _, failed⟩
      · rcases initial_error (fun _ _ _ _ => declare_error) failed with same | ⟨e, rfl, same⟩
        · exact .inl same
        · exact .inr same
      · cases failed
  | const pos x ty e =>
      obtain ⟨e', failed, _⟩ := located_eq_error.mp failed
      rcases bind_eq_error.mp failed with failed | ⟨_, _, _, failed⟩
      · rcases initial_error (fun _ _ _ _ => declare_error) failed with same | ⟨_, ⟨⟩, same⟩
        · exact .inl same
        · exact .inr same
      · cases failed
  | assign | bump | if_ | return_ | block | expr => cases declares

theorem loadGlobal_error {st : Stmt} {x : String} {s t : State} {e : RunError}
    (declares : st.declares? = some x)
    (failed : loadGlobal (Stmt.exec callFunction) st s = .error e t) :
    t.env = s.env ∨ t.env = (st.initialized s).env := by
  unfold loadGlobal at failed
  rw [declares] at failed
  change (if (s.function? x).isSome then _ else _ : Effect Unit) s = _ at failed
  split at failed
  · cases failed
    exact .inl rfl
  · rcases bind_eq_error.mp failed with failed | ⟨_, _, _, failed⟩
    · exact declaration_error declares failed
    · cases failed

theorem Reachable.loadGlobal_definitionsSubset {limit : Nat} {sink : Sink} {s : State}
    (reachable : Reachable limit sink s) (st : Stmt) :
    s.DefinitionsSubset ((loadGlobal (Stmt.exec callFunction) st).after s) := by
  have full := (Discipline.invariant_scoping limit sink).reachable reachable
  have names := (Discipline.invariant_distinct limit sink).reachable reachable
  have scopes : Discipline.scoping.Lockstep .program (loadGlobal (Stmt.exec callFunction) st)
      (loadGlobal (Stmt.exec callFunction) st) s s fun _ _ => True :=
    .loadGlobal full trivial fun _ _ h =>
      Discipline.closed_scoping.meets (p := .stmt st) h fun _ _ => trivial
  have distinct : Discipline.distinct.Lockstep .program (loadGlobal (Stmt.exec callFunction) st)
      (loadGlobal (Stmt.exec callFunction) st) s s fun _ _ => True :=
    .loadGlobal names trivial fun _ _ h =>
      Discipline.closed_distinct.meets (p := .stmt st) h fun _ _ => trivial
  exact (distinct.moved id).1.beside.2.definitionsSubset scopes.allowed

/-! ## Sessions -/

/-- What a session has defined lasts: from any of its states to any later one, from
    any evaluation on the way to its end, and from any part of a program that was
    loaded to the end of the load or run, even if the rest of it fails. A function
    that cannot be loaded leaves the state as it was, and a declaration that fails
    leaves the bindings as they were, or as the evaluation of its value left them. -/
theorem session_monotone (limit : Nat) (sink : Sink) :
    (∀ s t, Session limit sink s → s.SessionSteps t → s.DefinitionsSubset t) ∧
    (∀ p s, Visited limit sink p s → s.DefinitionsSubset ((evaluate p).after s)) ∧
    (∀ p q s t, Session limit sink s → Program.Begins q p → q.load s = .ok () t →
      t.DefinitionsSubset (p.load.after s) ∧ t.DefinitionsSubset (p.run.after s)) ∧
    (∀ f s e t, loadFunction f s = .error e t → t = s) ∧
    ∀ st x s e t, Reachable limit sink s → Stmt.declares? st = some x →
      loadGlobal (Stmt.exec callFunction) st s = .error e t →
      s.DefinitionsSubset t ∧ (t.env = s.env ∨ t.env = (st.initialized s).env) := by
  refine ⟨fun s t => Session.definitionsSubset, fun p s => Visited.definitionsSubset, ?_,
    fun f s e t => loadFunction_error, ?_⟩
  · intro p q s t session begins ok
    obtain ⟨r, rest⟩ := begins.rest ok
    have loaded : Session limit sink t := after_of_ok ok ▸ session.load q
    have load : p.load.after s = r.load.after t := by rw [Effect.after, rest, Effect.after]
    have run : p.run.after s = r.run.after t := by
      rw [Effect.after, Program.run, bind_congr rest, Effect.after, Program.run]
    rw [load, run]
    exact ⟨loaded.definitionsSubset (.load r .refl), loaded.definitionsSubset (.run r .refl)⟩
  · intro st x s e t reachable declares failed
    have kept := reachable.loadGlobal_definitionsSubset st
    rw [after_of_error failed] at kept
    exact ⟨kept, loadGlobal_error declares failed⟩

/-- A constant. -/
def constantProgram : Program :=
  ⟨"main", [], [.stmt (.const ⟨1, 1⟩ "k" (some .int) (.int ⟨1, 15⟩ 3))]⟩

def idle : Func := ⟨⟨1, 1⟩, "idle", [], none, []⟩

/-- A function, and a variable with the name of the constant. -/
def clashingProgram : Program :=
  ⟨"main", [], [.func idle, .stmt (.var ⟨2, 1⟩ "k" (some .int) none)]⟩

/-- The state with the constant. -/
def constantLoaded : State := constantProgram.load.after (.fresh 5 .silent)

/-- The second program fails. Both the constant and the function are there then. -/
theorem session_monotone_clashing :
    clashingProgram.load.outcome constantLoaded =
      .error ⟨.redeclared "k", some ⟨2, 1⟩⟩ ∧
    (∃ c, (clashingProgram.load.after constantLoaded).env.globals.find? "k" = some c ∧
      Binding.Keeps ⟨.int 3, .int, .constant⟩ c) ∧
    (clashingProgram.load.after constantLoaded).function? "idle" = some idle := by
  obtain ⟨steps, _, parts, _⟩ := session_monotone 5 .silent
  have session : Session 5 .silent constantLoaded := .load constantProgram .fresh
  have kept := steps _ _ session (.load clashingProgram .refl)
  have begins : Program.Begins ⟨"main", [], [.func idle]⟩ clashingProgram :=
    ⟨rfl, rfl, List.prefix_rfl, List.nil_prefix, .inr rfl⟩
  have part := (parts _ _ _ _ session begins rfl).1
  exact ⟨rfl, kept.globals "k" _ rfl, part.functions "idle" _ rfl⟩

end Treewalk
