import Treewalk.Proofs.Blame
import Treewalk.Proofs.History
import Treewalk.Proofs.Parsing.Soundness
import Treewalk.Report.Outcome

/-! # Names of functions and of globals

A global is declared only under a name that no function has. It is not the other
way round: a function may get the name of a global that an earlier program has
declared, and from then on the name stands for both.
-/

namespace Treewalk

open Effect

/-- The name stands for a function and for a global. -/
def State.Clashes (s : State) (x : String) : Prop :=
  (s.function? x).isSome ∧ (s.env.globals.find? x).isSome

/-- The program is what some tokens spell. -/
def Program.Spelled (p : Program) : Prop := ∃ stream, Program.ofTokens stream = .ok p

/-- The states between loads and runs of programs that are admitted in the state
    that they find. -/
inductive SessionOf (admits : State → Program → Prop) (limit : Nat) (sink : Sink) :
    State → Prop where
  | fresh : SessionOf admits limit sink (.fresh limit sink)
  | load {s : State} {p : Program} : SessionOf admits limit sink s → admits s p →
      SessionOf admits limit sink (p.load.after s)
  | run {s : State} {p : Program} : SessionOf admits limit sink s → admits s p →
      SessionOf admits limit sink (p.run.after s)

/-- None of the functions has the name of a global. -/
def Program.Avoids (p : Program) (s : State) : Prop :=
  ∀ f ∈ p.functions, s.env.globals.find? f.name = none

theorem Program.spelled_of_ofSource {source : String} {p : Program}
    (ok : Program.ofSource source = .ok p) : p.Spelled := by
  unfold Program.ofSource at ok
  split at ok
  · cases ok
  · split at ok <;> cases ok
    exact ⟨_, by assumption⟩

theorem SessionOf.session {admits : State → Program → Prop} {limit : Nat} {sink : Sink} {s : State}
    (h : SessionOf admits limit sink s) : Session limit sink s := by
  induction h with
  | fresh => exact .fresh
  | load _ _ ih => exact ih.load _
  | run _ _ ih => exact ih.run _

theorem Session.outside {limit : Nat} {sink : Sink} {s : State} (h : Session limit sink s) :
    s.env.frames = [] :=
  List.map_eq_nil_iff.mp (congrArg Outline.scopes h.outline)

theorem Program.Spelled.declarations {p : Program} (spelled : p.Spelled) {st : Stmt}
    (listed : st ∈ p.globals) : ∃ x, st.declares? = some x := by
  obtain ⟨stream, parsed⟩ := spelled
  obtain ⟨item, member, here⟩ := List.mem_filterMap.mp listed
  have declaration := Program.wellFormed_of_ofTokens parsed item member
  cases item with
  | func f => cases here
  | stmt st' =>
      cases here
      cases st with
      | var pos x ty init => exact ⟨x, rfl⟩
      | const pos x ty e => exact ⟨x, rfl⟩
      | assign | bump | if_ | return_ | block | expr => exact declaration.1.elim

/-! ## Declarations outside of calls -/

/-- The second state is outside of calls, too, and has the functions and the
    declared names of the first. -/
structure State.SameDefinitions (s t : State) : Prop where
  outside : t.env.frames = []
  functions : t.functions = s.functions
  globals : t.env.globals.fixed = s.env.globals.fixed

/-- The same, except that one more name may be declared. -/
structure State.DefinesAtMost (x : String) (s t : State) : Prop where
  outside : t.env.frames = []
  functions : t.functions = s.functions
  globals : s.env.globals.Becomes (some x) t.env.globals

variable {s t : State} {x : String}

theorem State.SameDefinitions.definesAtMost (same : s.SameDefinitions t) : s.DefinesAtMost x t :=
  ⟨same.outside, same.functions, Scope.becomes_of_fixed same.globals _⟩

/-- Where no call runs, every frame has a scope. -/
theorem full_of_outside (outside : s.env.frames = []) : ∀ frame ∈ s.env.frames, frame ≠ [] := by
  rw [outside]
  nofun

theorem sameDefinitions_of_allowed (outside : s.env.frames = [])
    (allowed : Discipline.scoping.allows .store s t) : s.SameDefinitions t :=
  ⟨allowed.1.outside outside, allowed.2.1, allowed.1.globals⟩

theorem State.SameDefinitions.declare (same : s.SameDefinitions t) (b : Binding) :
    s.DefinesAtMost x ((declare x b).after t) := by
  rw [Effect.after, declare_apply]
  cases ok : t.env.declare x b with
  | error fault => exact same.definesAtMost
  | ok env =>
      rcases Env.declare_cases ok with ⟨scope, outer, rest, frames, _⟩ | ⟨_, absent, rfl⟩
      · rw [same.outside] at frames
        cases frames
      · exact ⟨same.outside, same.functions, same.definesAtMost.globals.cons absent b⟩

/-- A declaration that is run outside of calls adds at most its own name to the
    globals. -/
theorem definesAtMost_declaration {st : Stmt} (declares : st.declares? = some x)
    (outside : s.env.frames = []) : s.DefinesAtMost x ((st.exec callFunction).after s) := by
  have first (x : String) (ty : Option Ty) (init : Option Expr) :
      s.SameDefinitions ((initial (Expr.eval callFunction) x ty init).after s) :=
    sameDefinitions_of_allowed outside (allowed_initial (full_of_outside outside) x ty init)
  cases st with
  | var pos x ty init =>
      cases declares
      rw [Stmt.exec, after_located, after_bind_pure]
      apply afterwards (first x ty init) fun _ same => same.definesAtMost
      exact fun _ _ same => same.declare _
  | const pos x ty e =>
      cases declares
      rw [Stmt.exec, after_located, after_bind_pure]
      apply afterwards (first x ty (some e)) fun _ same => same.definesAtMost
      exact fun _ _ same => same.declare _
  | assign | bump | if_ | return_ | block | expr => cases declares

/-! ## Loads -/

/-- Outside of calls, with the functions of the first state, and with no new global
    that has the name of one of them. -/
structure State.NoNewClash (s t : State) : Prop where
  outside : t.env.frames = []
  functions : t.functions = s.functions
  globals : ∀ x, (t.env.globals.find? x).isSome →
    (s.env.globals.find? x).isSome ∨ s.function? x = none

theorem State.function?_of_functions (same : t.functions = s.functions) (x : String) :
    t.function? x = s.function? x := by
  rw [State.function?, same, State.function?]

section Globals

variable {exec : Stmt → Effect Ending} {st : Stmt} (declares : st.declares? = some x)

include declares

theorem loadGlobal_taken (taken : (s.function? x).isSome) :
    loadGlobal exec st s = .error ⟨.redeclared x, some st.pos⟩ s := by
  unfold loadGlobal
  rw [declares]
  change (if (s.function? x).isSome then _ else _ : Effect Unit) s = _
  rw [if_pos taken]
  rfl

theorem loadGlobal_free (free : s.function? x = none) :
    loadGlobal exec st s = (discard (exec st) : Effect Unit) s := by
  unfold loadGlobal
  rw [declares]
  change (if (s.function? x).isSome then _ else _ : Effect Unit) s = _
  rw [free, Option.isSome_none, if_neg Bool.false_ne_true]

end Globals

theorem State.NoNewClash.loadGlobal (clear : s.NoNewClash t) {st : Stmt}
    (declares : st.declares? = some x) :
    s.NoNewClash ((loadGlobal (Stmt.exec callFunction) st).after t) := by
  have named : t.function? x = s.function? x := State.function?_of_functions clear.functions x
  cases free : s.function? x with
  | some f =>
      rw [after_of_error (loadGlobal_taken declares (by rw [named, free]; rfl))]
      exact clear
  | none =>
      have defined := definesAtMost_declaration declares clear.outside
      rw [Effect.after, loadGlobal_free declares (named.trans free)]
      change s.NoNewClash ((st.exec callFunction >>= fun _ => pure ()).after t)
      rw [after_bind_pure]
      refine ⟨defined.outside, defined.functions.trans clear.functions, ?_⟩
      intro y bound
      rcases defined.globals.gained y bound with before | new
      · exact clear.globals y before
      · cases new
        exact .inr free

theorem after_loadFunction (f : Func) (s : State) :
    (loadFunction f).after s = s ∨
      (loadFunction f).after s = { s with functions := f :: s.functions } := by
  cases ran : loadFunction f s with
  | error e t => exact .inl ((after_of_error ran).trans (loadFunction_error ran))
  | ok _ t =>
      obtain ⟨_, u, checked, rest⟩ := bind_eq_ok.mp ran
      rw [located_eq_ok, ofExcept_eq_ok] at checked
      obtain ⟨_, rfl⟩ := checked
      rw [get_bind] at rest
      split at rest <;> cases rest
      exact .inr (after_of_ok ran)

/-- What a load does: at first it adds functions, and then only globals that have
    none of their names. -/
theorem Program.Spelled.load_steps {p : Program} (spelled : p.Spelled)
    (outside : s.env.frames = []) :
    ∃ t : State, t.env = s.env ∧ (∀ f ∈ t.functions, f ∈ s.functions ∨ f ∈ p.functions) ∧
      t.NoNewClash (p.load.after s) := by
  by_cases package : p.package = "main"
  · let start : State := { s with imports := s.imports ++ p.imports }
    let Added (t : State) : Prop :=
      t.env = s.env ∧ ∀ f ∈ t.functions, f ∈ s.functions ∨ f ∈ p.functions
    have added : Added ((p.functions.forM loadFunction).after start) := by
      refine after_forM ?_ ⟨rfl, fun _ => .inl⟩
      intro f listed t kept
      rcases after_loadFunction f t with same | new
      · rw [same]
        exact kept
      · rw [new]
        exact ⟨kept.1, List.forall_mem_cons.mpr ⟨.inr listed, kept.2⟩⟩
    have clear (t : State) (kept : Added t) : t.NoNewClash t :=
      ⟨kept.1 ▸ outside, rfl, fun _ => .inl⟩
    have loads : p.load.after s = (do
        p.functions.forM loadFunction
        p.globals.forM (loadGlobal (Stmt.exec callFunction)) : Effect Unit).after start := by
      rw [Effect.after, Program.load_apply package]
      rfl
    rw [loads]
    let Steps (u : State) : Prop := ∃ t : State, t.env = s.env ∧
      (∀ f ∈ t.functions, f ∈ s.functions ∨ f ∈ p.functions) ∧ t.NoNewClash u
    apply afterwards (Q := Steps) added (fun t kept => ⟨t, kept.1, kept.2, clear t kept⟩)
    intro _ t kept
    refine ⟨t, kept.1, kept.2, after_forM ?_ (clear t kept)⟩
    intro st listed u unclashed
    obtain ⟨x, declares⟩ := spelled.declarations listed
    exact unclashed.loadGlobal declares
  · rw [after_of_error (Program.load_error package s)]
    exact ⟨s, rfl, fun _ => .inl, outside, rfl, fun _ => .inl⟩

theorem Program.Spelled.global_of_clash {p : Program} (spelled : p.Spelled)
    (outside : s.env.frames = []) (clashes : (p.load.after s).Clashes x) :
    (s.env.globals.find? x).isSome := by
  obtain ⟨t, env, _, clear⟩ := spelled.load_steps outside
  rcases clear.globals x clashes.2 with before | free
  · exact env ▸ before
  · have named := clashes.1
    rw [State.function?_of_functions clear.functions, free] at named
    cases named

theorem Program.Spelled.function_of_load {p : Program} (spelled : p.Spelled)
    (outside : s.env.frames = []) (named : ((p.load.after s).function? x).isSome) :
    (s.function? x).isSome ∨ ∃ f ∈ p.functions, f.name = x := by
  obtain ⟨t, _, added, clear⟩ := spelled.load_steps outside
  rw [State.function?_of_functions clear.functions, State.function?, List.find?_isSome] at named
  obtain ⟨f, member, same⟩ := named
  rcases added f member with before | new
  · exact .inl (List.find?_isSome.mpr ⟨f, before, same⟩)
  · exact .inr ⟨f, new, by simpa using same⟩

/-- Calling `main` defines nothing. -/
theorem sameDefinitions_main (outside : s.env.frames = []) :
    s.SameDefinitions ((mainBy callFunction).after s) := by
  have start : s.SameDefinitions s := ⟨outside, rfl, rfl⟩
  have calling (f : Func) : s.SameDefinitions ((callFunction f [] ⟨0, 0⟩).after s) := by
    have ready : Discipline.scoping.Ready (.call f [] ⟨0, 0⟩) s := ⟨trivial, fun _ _ => trivial⟩
    have met := Discipline.closed_scoping.self (p := .call f [] ⟨0, 0⟩)
      ⟨rfl, full_of_outside outside⟩ ready
    exact sameDefinitions_of_allowed outside
      (Discipline.scoping.allows_store (Discipline.Lockstep.allowed met))
  cases found : s.function? "main" with
  | none =>
      rw [after_of_error (Program.mainBy_unbound found)]
      exact start
  | some f =>
      have main : mainBy callFunction s = _ := Program.mainBy_apply found
      split at main
      · rw [after_of_error main]
        exact start
      · rw [after, main]
        change s.SameDefinitions ((callFunction f [] ⟨0, 0⟩ >>= fun _ => pure ()).after s)
        rw [after_bind_pure]
        exact calling f

theorem State.SameDefinitions.clashes (same : s.SameDefinitions t) : t.Clashes x ↔ s.Clashes x := by
  have globals : (t.env.globals.find? x).isSome = (s.env.globals.find? x).isSome := by
    rw [← Option.isSome_map (f := Binding.fixed), ← Scope.lookup_fixed, same.globals,
      Scope.lookup_fixed, Option.isSome_map]
  rw [State.Clashes, State.Clashes, globals, State.function?_of_functions same.functions]

/-- A run defines what the load in it does. -/
theorem sameDefinitions_run {p : Program} (outside : (p.load.after s).env.frames = []) :
    (p.load.after s).SameDefinitions (p.run.after s) := by
  cases loaded : p.load s with
  | ok _ t =>
      rw [after_of_ok loaded] at outside ⊢
      rw [Program.run, Effect.after, bind_ok loaded]
      exact sameDefinitions_main outside
  | error e t =>
      rw [after_of_error loaded] at outside ⊢
      rw [Program.run, Effect.after, bind_error loaded]
      exact ⟨outside, rfl, rfl⟩

/-! ## Sessions -/

/-- The program as far as it stands before a statement outside of its functions. -/
structure Program.UpTo (q p : Program) (st : Stmt) : Prop where
  package : q.package = p.package
  imports : q.imports = p.imports
  functions : q.functions = p.functions
  globals : ∃ later, p.globals = q.globals ++ st :: later

/-- A declaration of a name that a function has stops the load. -/
theorem Program.UpTo.load_taken {p q : Program} {st : Stmt} (upTo : q.UpTo p st)
    (loaded : q.load s = .ok () t) (declares : st.declares? = some x)
    (taken : (t.function? x).isSome) : p.load s = .error ⟨.redeclared x, some st.pos⟩ t := by
  obtain ⟨later, globals⟩ := upTo.globals
  have package : q.package = "main" := by
    by_contra other
    rw [Program.load_error other] at loaded
    cases loaded
  rw [Program.load_apply package] at loaded
  obtain ⟨_, u, functions, before⟩ := bind_eq_ok.mp loaded
  rw [Program.load_apply (upTo.package ▸ package), ← upTo.imports, ← upTo.functions,
    bind_ok functions, globals, forM_append_apply _ before]
  exact bind_error (loadGlobal_taken declares taken)

/-- After a load or run of a parsed program, a name stands for both a function and a
    global exactly if it was a global before and is a function now: a new global never
    has the name of a function, since its declaration stops the load with an error at
    its place. So as long as no program names a function after a global that is there,
    no name stands for both. -/
theorem clashes_come_with_functions (limit : Nat) (sink : Sink) :
    (∀ s p x, Session limit sink s → Program.Spelled p →
      ((p.load.after s).Clashes x ↔
        (s.env.globals.find? x).isSome ∧ ((p.load.after s).function? x).isSome) ∧
      ((p.run.after s).Clashes x ↔
        (s.env.globals.find? x).isSome ∧ ((p.run.after s).function? x).isSome)) ∧
    (∀ s t p q st x, Program.UpTo q p st → q.load s = .ok () t → Stmt.declares? st = some x →
      (t.function? x).isSome →
      p.load s = .error ⟨.redeclared x, some st.pos⟩ t ∧
        p.run s = .error ⟨.redeclared x, some st.pos⟩ t) ∧
    ∀ s, SessionOf (fun s p => p.Spelled ∧ p.Avoids s) limit sink s → ∀ x, ¬ s.Clashes x := by
  refine ⟨?_, ?_, ?_⟩
  · intro s p x session spelled
    have lasting {t : State} (subset : s.DefinitionsSubset t)
        (bound : (s.env.globals.find? x).isSome) : (t.env.globals.find? x).isSome := by
      obtain ⟨b, found⟩ := Option.isSome_iff_exists.mp bound
      obtain ⟨c, kept, _⟩ := subset.globals x b found
      rw [kept]
      rfl
    have same := sameDefinitions_run (session.load p).outside
    refine ⟨⟨?_, ?_⟩, ⟨?_, ?_⟩⟩
    · exact fun clashes => ⟨spelled.global_of_clash session.outside clashes, clashes.1⟩
    · exact fun both => ⟨both.2, lasting (session.definitionsSubset (.load p .refl)) both.1⟩
    · exact fun clashes =>
        ⟨spelled.global_of_clash session.outside (same.clashes.mp clashes), clashes.1⟩
    · exact fun both => ⟨both.2, lasting (session.definitionsSubset (.run p .refl)) both.1⟩
  · intro s t p q st x upTo loaded declares taken
    have failed := upTo.load_taken loaded declares taken
    exact ⟨failed, bind_error failed⟩
  · intro s session
    have step {s : State} {p : Program} (outside : s.env.frames = [])
        (admitted : p.Spelled ∧ p.Avoids s) (apart : ∀ x, ¬ s.Clashes x) (x : String) :
        ¬ (p.load.after s).Clashes x := by
      intro clashes
      have global := admitted.1.global_of_clash outside clashes
      rcases admitted.1.function_of_load outside clashes.1 with before | ⟨f, member, rfl⟩
      · exact apart x ⟨before, global⟩
      · rw [admitted.2 f member] at global
        cases global
    induction session with
    | fresh =>
        rintro x ⟨named, _⟩
        cases named
    | load session admitted ih => exact step session.session.outside admitted ih
    | @run s p session admitted ih =>
        have same := sameDefinitions_run (session.session.load p).outside
        exact fun x clashes => step session.session.outside admitted ih x (same.clashes.mp clashes)

def emptyFunction (pos : Pos) : Func := ⟨pos, "f", [], none, []⟩

/-- A variable and a function of one name. -/
def takenProgram : Program :=
  ⟨"main", [], [.stmt (.var ⟨2, 1⟩ "f" (some .int) none), .func (emptyFunction ⟨3, 1⟩)]⟩

/-- The function is there first, and the variable is not declared. -/
theorem clashes_come_with_functions_taken :
    takenProgram.Spelled ∧ takenProgram.Avoids (.fresh 5 .silent) ∧
    takenProgram.load.outcome (.fresh 5 .silent) = .error ⟨.redeclared "f", some ⟨2, 1⟩⟩ ∧
    ((takenProgram.load.after (.fresh 5 .silent)).function? "f").isSome ∧
    ¬ (takenProgram.load.after (.fresh 5 .silent)).Clashes "f" := by
  obtain ⟨_, stops, apart⟩ := clashes_come_with_functions 5 .silent
  have parsed :
      Program.ofSource "package main\nvar f int\nfunc f() {}\n" = .ok takenProgram := by
    with_unfolding_all rfl
  have spelled := Program.spelled_of_ofSource parsed
  have avoids : takenProgram.Avoids (.fresh 5 .silent) := fun _ _ => rfl
  have upTo : Program.UpTo ⟨"main", [], [.func (emptyFunction ⟨3, 1⟩)]⟩ takenProgram
      (.var ⟨2, 1⟩ "f" (some .int) none) := ⟨rfl, rfl, rfl, [], rfl⟩
  have failed := (stops (.fresh 5 .silent) _ _ _ _ "f" upTo rfl rfl rfl).1
  refine ⟨spelled, avoids, ?_, rfl, ?_⟩
  · rw [Effect.outcome, failed]
    rfl
  · exact apart _ (.load .fresh ⟨spelled, avoids⟩) "f"

/-- A variable. -/
def variableProgram : Program := ⟨"main", [], [.stmt (.var ⟨2, 1⟩ "f" (some .int) none)]⟩

/-- A function with the name of the variable. -/
def namesakeProgram : Program := ⟨"main", [], [.func (emptyFunction ⟨2, 1⟩)]⟩

/-- Loaded one after the other, both programs succeed, and the name stands for both. -/
theorem function_takes_name_of_global :
    Program.ofSource "package main\nvar f int\n" = .ok variableProgram ∧
    Program.ofSource "package main\nfunc f() {}\n" = .ok namesakeProgram ∧
    SessionOf (fun _ p => p.Spelled) 5 .silent
      (namesakeProgram.load.after (variableProgram.load.after (.fresh 5 .silent))) ∧
    variableProgram.load.outcome (.fresh 5 .silent) = .ok () ∧
    namesakeProgram.load.outcome (variableProgram.load.after (.fresh 5 .silent)) = .ok () ∧
    (namesakeProgram.load.after (variableProgram.load.after (.fresh 5 .silent))).Clashes "f" := by
  have first : Program.ofSource "package main\nvar f int\n" = .ok variableProgram := by
    with_unfolding_all rfl
  have second : Program.ofSource "package main\nfunc f() {}\n" = .ok namesakeProgram := by
    with_unfolding_all rfl
  have started : SessionOf (fun _ p => p.Spelled) 5 .silent (.fresh 5 .silent) := .fresh
  have session := (started.load (Program.spelled_of_ofSource first)).load
    (Program.spelled_of_ofSource second)
  exact ⟨first, second, session, rfl, rfl, rfl, rfl⟩

end Treewalk
