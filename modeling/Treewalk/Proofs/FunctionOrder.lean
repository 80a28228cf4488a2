import Treewalk.Proofs.Distinct
import Treewalk.Proofs.Reach

/-! # The order of functions

Functions are loaded before the first global is initialized, and each is found by its
name. So a program does the same wherever its functions stand among its statements,
as long as their names are distinct and each of them can be loaded.
-/

namespace Treewalk

open Effect

/-- A program with its functions moved: the same items, with the statements in the
    same order. -/
structure Program.Reorders (q p : Program) : Prop where
  package : q.package = p.package
  imports : q.imports = p.imports
  items : q.items.Perm p.items
  globals : q.globals = p.globals

/-- A program whose functions can all be loaded. -/
structure Program.Loadable (p : Program) : Prop where
  names : (p.functions.map Func.name).Nodup
  checked : ∀ f ∈ p.functions, f.checked = .ok ()

/-! ## Functions in another order -/

theorem find?_of_perm {fs gs : List Func} (perm : fs.Perm gs) (names : (fs.map Func.name).Nodup)
    (x : String) : fs.find? (·.name == x) = gs.find? (·.name == x) := by
  cases found : fs.find? (·.name == x) with
  | some f =>
      have name : f.name = x := by simpa using List.find?_some found
      have member := perm.mem_iff.mp (List.mem_of_find?_eq_some found)
      rw [← name, find?_of_mem ((perm.map Func.name).nodup names) member]
  | none =>
      simp only [List.find?_eq_none] at found
      exact (List.find?_eq_none.mpr fun f member => found f (perm.mem_iff.mpr member)).symm

/-- The same functions in another order, and no two of one name. -/
def SameFunctions (fs gs : List Func) : Prop := fs.Perm gs ∧ (fs.map Func.name).Nodup

/-- Two states that are the same but for the order of their functions. -/
def State.Reorders (s t : State) : Prop :=
  ∃ functions, SameFunctions s.functions functions ∧ t = { s with functions }

namespace State.Reorders

variable {s t : State}

theorem view (h : s.Reorders t) : s.SameView t := by
  obtain ⟨functions, ⟨perm, names⟩, rfl⟩ := h
  exact ⟨rfl, rfl, funext (find?_of_perm perm names), rfl, rfl⟩

theorem perm (h : s.Reorders t) :
    t = { s with functions := t.functions } ∧ s.functions.Perm t.functions := by
  obtain ⟨functions, ⟨perm, _⟩, rfl⟩ := h
  exact ⟨rfl, perm⟩

/-- Whatever is done to the rest of the two states is done to both. -/
theorem map {f : State → State} (h : s.Reorders t)
    (aside : ∀ functions, f { s with functions } = { f s with functions }) :
    (f s).Reorders (f t) := by
  obtain ⟨functions, same, rfl⟩ := h
  refine ⟨functions, ?_, aside functions⟩
  have own : f s = { f s with functions := s.functions } := aside s.functions
  rw [own]
  exact same

/-- An attempt to change the bindings comes to the same in both. -/
theorem attempt (h : s.Reorders t) (change : Env → Except Fault Env)
    (outline : ∀ env, change s.env = .ok env → { s with env }.outline = s.outline) :
    Attempts (fun env env' => Moves Reorders (fun s t => t.outline = s.outline) s t
      { s with env } { t with env := env' }) noFault (change s.env) (change t.env) := by
  obtain ⟨functions, same, rfl⟩ := h
  apply Attempts.same
  intro env ok
  exact ⟨⟨functions, same, rfl⟩, outline env ok, outline env ok⟩

end State.Reorders

namespace Discipline

/-- Two runs from states that are the same but for the order of their functions. -/
def reordered : Discipline where
  __ := outlined ⟨fun _ => True, fun h => h⟩ fun _ => True
  beside := State.Reorders
  view h := h.view
  callable_named _ _ := trivial
  owns_named _ _ := trivial
  owns_cell _ _ _ := trivial
  fits_conform _ _ _ := trivial
  fits_inferred _ _ _ := trivial
  emit e h := by
    obtain ⟨functions, same, rfl⟩ := h
    exact .same _ fun _ _ => ⟨⟨functions, same, rfl⟩, rfl, rfl⟩
  alloc h _ _ := ⟨⟨h.map (f := fun s => { s with heap := _ }) fun _ => rfl, rfl, rfl⟩, trivial⟩
  set h _ _ _ := ⟨h.map (f := fun s => { s with heap := _ }) fun _ => rfl, rfl, rfl⟩
  declare x h _ _ := h.attempt (fun env => env.declare x _) fun _ => State.outline_declare
  assign h found _ := h.attempt (fun env => env.assign _ _) fun _ => State.outline_assign found
  enterBlock h := h.map fun _ => rfl
  leaveBlock _ moved :=
    ⟨moved.beside.map fun _ => rfl, State.outline_leaveBlock moved.left,
      State.outline_leaveBlock moved.right⟩
  honest_named honest := honest.elim
  alone past := past.elim

theorem opens_reordered (call : Call) : reordered.Opens reordered call where
  room := by
    rintro s t ⟨functions, same, rfl⟩
    exact .inl ⟨rfl, rfl⟩
  enter h _ _ := State.Reorders.map h fun _ => rfl
  leave _ _ moved :=
    ⟨State.Reorders.map moved.beside fun _ => rfl, State.outline_leaveCall moved.left,
      State.outline_leaveCall moved.right⟩

theorem loads_reordered : reordered.Loads where
  imports packages h :=
    ⟨State.Reorders.map (f := fun s => { s with imports := s.imports ++ packages }) h fun _ => rfl,
      rfl, rfl⟩
  function := by
    rintro s t f ⟨functions, ⟨perm, names⟩, rfl⟩ _ _ absent
    exact ⟨⟨f :: functions, ⟨perm.cons f, nodup_names_cons names absent⟩, rfl⟩, rfl, rfl⟩

theorem ready_reordered (p : Point) (s : State) : reordered.Ready p s := by
  cases p with
  | expr | stmt => exact fun _ _ => trivial
  | call => exact ⟨trivial, fun _ _ => trivial⟩
  | load | run => exact ⟨fun _ _ => trivial, fun _ _ => trivial⟩

/-- Evaluations of a point from two such states are in lockstep. -/
theorem meets_reordered {s : State} {t : SecondRun} (h : reordered.Beside s t) (p : Point) :
    reordered.Meets s t p (evaluate p) (evaluate p) := by
  have closed : reordered.Closed := ⟨opens_reordered, loads_reordered⟩
  exact closed.meets h (ready_reordered p s)

end Discipline

/-! ## Loading -/

theorem loadFunction_ok {f : Func} {s : State} (checked : f.checked = .ok ())
    (absent : s.function? f.name = none) :
    loadFunction f s = .ok () { s with functions := f :: s.functions } := by
  unfold loadFunction
  rw [checked]
  change (if (s.function? f.name).isSome then _ else _ : Effect Unit) s = _
  rw [absent]
  rfl

theorem forM_loadFunction {fs : List Func} {s : State} (checked : ∀ f ∈ fs, f.checked = .ok ())
    (names : ((fs ++ s.functions).map Func.name).Nodup) :
    fs.forM loadFunction s = .ok () { s with functions := fs.reverse ++ s.functions } := by
  induction fs generalizing s with
  | nil => rfl
  | cons f fs ih =>
      simp only [List.mem_cons, forall_eq_or_imp] at checked
      have moved : ((fs ++ f :: s.functions).map Func.name).Nodup :=
        (List.perm_middle.map Func.name).nodup_iff.mpr names
      have absent : s.function? f.name = none := by
        simp only [List.map_append, List.map_cons, List.nodup_append, List.nodup_cons] at moved
        refine List.find?_eq_none.mpr fun g member same => moved.2.1.1 ?_
        rw [← beq_iff_eq.mp same]
        exact List.mem_map_of_mem member
      have others := ih (s := { s with functions := f :: s.functions }) checked.2 moved
      calc (f :: fs).forM loadFunction s
          = fs.forM loadFunction { s with functions := f :: s.functions } :=
            bind_ok (loadFunction_ok checked.1 absent)
        _ = .ok () { s with functions := (f :: fs).reverse ++ s.functions } := by simpa using others

/-- What is left to do once the functions of a program are there. -/
def Program.begin (globals : List Stmt) : Effect Unit := do
  globals.forM (loadGlobal (Stmt.exec callFunction))
  mainBy callFunction

/-- The state in which a program starts with its globals. -/
def Program.prepared (p : Program) (limit : Nat) (sink : Sink) : State :=
  { State.fresh limit sink with imports := p.imports, functions := p.functions.reverse }

theorem Program.Loadable.run_fresh {p : Program} (loadable : p.Loadable) (main : p.package = "main")
    (limit : Nat) (sink : Sink) :
    p.run (.fresh limit sink) = Program.begin p.globals (p.prepared limit sink) := by
  let start : State := { State.fresh limit sink with imports := p.imports }
  have names : ((p.functions ++ start.functions).map Func.name).Nodup := by
    simpa [start, State.fresh] using loadable.names
  have loaded : p.functions.forM loadFunction start = .ok () (p.prepared limit sink) := by
    rw [forM_loadFunction loadable.checked names]
    simp [start, State.fresh, prepared]
  have load : p.load (.fresh limit sink) =
      p.globals.forM (loadGlobal (Stmt.exec callFunction)) (p.prepared limit sink) :=
    (load_apply main _).trans (bind_ok loaded)
  exact bind_congr load

/-- From two lists of the same functions, the same statements do the same. -/
theorem State.Reorders.begin {s t : State} (h : s.Reorders t) (globals : List Stmt) :
    Discipline.reordered.Lockstep .program (Program.begin globals) (Program.begin globals) s t
      fun _ _ => True := by
  unfold Program.begin
  have initializing : Discipline.reordered.Lockstep .program
      (globals.forM (loadGlobal (Stmt.exec callFunction)))
      (globals.forM (loadGlobal (Stmt.exec callFunction))) s t fun _ _ => True :=
    .forM (fun st _ _ _ h => .loadGlobal h trivial fun _ _ h =>
      Discipline.meets_reordered h (.stmt st)) h
  apply initializing.bind
  intro _ s' t' moved _
  apply Discipline.Lockstep.mainBy moved.beside
  intro f s t h _
  exact Discipline.meets_reordered h (.call f [] ⟨0, 0⟩)

theorem Program.Reorders.functions {p q : Program} (reorders : q.Reorders p) :
    p.functions.Perm q.functions :=
  (reorders.items.filterMap _).symm

theorem Program.Reorders.loadable {p q : Program} (reorders : q.Reorders p)
    (loadable : p.Loadable) : q.Loadable where
  names := (reorders.functions.map Func.name).nodup loadable.names
  checked f member := loadable.checked f (reorders.functions.mem_iff.mpr member)

theorem Program.Reorders.prepared {p q : Program} (reorders : q.Reorders p)
    (loadable : p.Loadable) (limit : Nat) (sink : Sink) :
    (p.prepared limit sink).Reorders (q.prepared limit sink) := by
  have listed : p.functions.reverse.Perm q.functions.reverse :=
    p.functions.reverse_perm.trans (reorders.functions.trans q.functions.reverse_perm.symm)
  have names : (p.functions.reverse.map Func.name).Nodup :=
    (p.functions.reverse_perm.map Func.name).nodup_iff.mpr loadable.names
  refine ⟨q.functions.reverse, ⟨listed, names⟩, ?_⟩
  simp [Program.prepared, State.fresh, reorders.imports]

/-- A program whose functions can be loaded does the same in a fresh state if its
    functions are moved: it ends alike, having printed the same, with the same globals
    and arrays. The two states differ in the order of functions only. -/
theorem function_order_irrelevant {p q : Program} (reorders : q.Reorders p)
    (loadable : p.Loadable) (limit : Nat) (sink : Sink) :
    q.run.outcome (.fresh limit sink) = p.run.outcome (.fresh limit sink) ∧
    q.run.after (.fresh limit sink) =
      { p.run.after (.fresh limit sink) with
        functions := (q.run.after (.fresh limit sink)).functions } ∧
    (p.run.after (.fresh limit sink)).functions.Perm
      (q.run.after (.fresh limit sink)).functions := by
  unfold Effect.outcome Effect.after
  by_cases main : p.package = "main"
  · have run := (reorders.prepared loadable limit sink).begin p.globals
    rw [loadable.run_fresh main,
      (reorders.loadable loadable).run_fresh (reorders.package.trans main), reorders.globals]
    obtain ⟨moves, outcome⟩ := run.moved id
    exact ⟨outcome.symm, moves.beside.perm⟩
  · have other : q.package ≠ "main" := reorders.package ▸ main
    rw [Program.run, Program.run, bind_error (Program.load_error main _),
      bind_error (Program.load_error other _), reorders.package]
    exact ⟨rfl, rfl, .refl _⟩

/-- A global whose value is a call, before and after the functions that are called. -/
def callBefore : Program :=
  ⟨"main", ["fmt"],
    [.stmt (.var ⟨1, 1⟩ "x" none (some (.call ⟨1, 9⟩ "twice" [.int ⟨1, 15⟩ 3]))),
      .func ⟨⟨2, 1⟩, "twice", [⟨"n", .int⟩], some .int,
        [.return_ ⟨3, 1⟩ (some (.binary ⟨3, 10⟩ (.arith .mul) (.int ⟨3, 8⟩ 2) (.name ⟨3, 12⟩ "n")))]⟩,
      .func ⟨⟨5, 1⟩, "main", [], none,
        [.expr ⟨6, 1⟩ (.print ⟨6, 1⟩ "fmt" .print [.name ⟨6, 5⟩ "x"]),
          .expr ⟨7, 1⟩ (.call ⟨7, 1⟩ "missing" [])]⟩]⟩

def callAfter : Program := { callBefore with items := callBefore.items.reverse }

/-- Both print the global, and both fail at the same place. -/
theorem function_order_irrelevant_calls :
    callAfter.Reorders callBefore ∧ callBefore.Loadable ∧
    callBefore.run.outcome (.fresh 3 (.trace #[])) = .error ⟨.unbound "missing", some ⟨7, 1⟩⟩ ∧
    callAfter.run.outcome (.fresh 3 (.trace #[])) = .error ⟨.unbound "missing", some ⟨7, 1⟩⟩ ∧
    (callAfter.run.after (.fresh 3 (.trace #[]))).sink = .trace #[⟨"%v", [.datum (.int 6)]⟩] ∧
    (callAfter.run.after (.fresh 3 (.trace #[]))).env.globals =
      [("x", ⟨.int 6, .int, .variable⟩)] := by
  have reorders : callAfter.Reorders callBefore :=
    ⟨rfl, rfl, List.reverse_perm _, rfl⟩
  have loadable : callBefore.Loadable := ⟨by decide, by decide⟩
  obtain ⟨outcome, after, _⟩ := function_order_irrelevant reorders loadable 3 (.trace #[])
  have failed : callBefore.run.outcome (.fresh 3 (.trace #[])) =
      .error ⟨.unbound "missing", some ⟨7, 1⟩⟩ := rfl
  have printed : (callBefore.run.after (.fresh 3 (.trace #[]))).sink =
      .trace #[⟨"%v", [.datum (.int 6)]⟩] := rfl
  have globals : (callBefore.run.after (.fresh 3 (.trace #[]))).env.globals =
      [("x", ⟨.int 6, .int, .variable⟩)] := rfl
  rw [outcome, after]
  exact ⟨reorders, loadable, failed, failed, printed, globals⟩

end Treewalk
