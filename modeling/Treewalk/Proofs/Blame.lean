import Treewalk.Proofs.CallStack
import Treewalk.Proofs.Places

/-! # Where errors are said to be

An error that knows no place gets one from the innermost expression or statement
around it, or from the function that it is about. So the places of errors are
those of the program, and an error goes without one only outside of all of them.
-/

namespace Treewalk

open Effect

/-! ## Errors at places of a program -/

/-- All functions are those of the program. -/
def Program.Provides (p : Program) (s : State) : Prop := ∀ f ∈ s.functions, f ∈ p.functions

namespace Discipline

/-- Runs of one state with the functions of a program, at whose places the errors
    are. -/
def blaming (p : Program) : Discipline where
  beside s t := s = t ∧ p.Provides s
  callable f := f ∈ p.functions
  marks pos := pos ∈ p.places
  view h := h.1 ▸ .refl _
  callable_named h found := h.2 _ (List.mem_of_find?_eq_some found)
  callable_marked member _ place := Program.func_places_subset member place
  emit e h := by
    obtain ⟨rfl, h⟩ := h
    exact .same _ fun _ _ => .same h rfl
  alloc h _ _ := by
    obtain ⟨rfl, h⟩ := h
    exact ⟨.same h rfl, trivial⟩
  set h _ _ _ := by
    obtain ⟨rfl, h⟩ := h
    exact .same h rfl
  declare x h _ _ := by
    obtain ⟨rfl, h⟩ := h
    exact Attempts.same _ fun _ _ => .same h rfl
  assign h _ _ := by
    obtain ⟨rfl, h⟩ := h
    exact Attempts.same _ fun _ _ => .same h rfl
  enterBlock h := by
    obtain ⟨rfl, h⟩ := h
    exact ⟨rfl, h⟩
  leaveBlock h moved := by
    obtain ⟨rfl, _⟩ := h
    obtain ⟨⟨rfl, inside⟩, left, _⟩ := moved
    exact .same inside left

theorem closed_blaming (p : Program) : (blaming p).Closed where
  opens call := {
    room := fun h => .inl (h.1 ▸ ⟨rfl, rfl⟩)
    enter := by
      rintro s t ⟨rfl, h⟩ _ _
      exact ⟨rfl, h⟩
    leave := by
      rintro s t s' t' ⟨rfl, _⟩ _ ⟨⟨rfl, inside⟩, calls, _⟩
      exact .same inside (congrArg List.tail calls) }
  loads := {
    imports := by
      rintro s t packages ⟨rfl, h⟩
      exact .same h rfl
    function := by
      rintro s t f ⟨rfl, h⟩ member _ _
      exact .same (List.forall_mem_cons.mpr ⟨member, h⟩) rfl }

end Discipline

/-! ## Errors that have a place -/

/-- Every error of the action has a place. -/
def Effect.PlacesErrors {α : Type} (x : Effect α) : Prop :=
  ∀ s e t, x s = .error e t → e.pos.isSome

namespace Effect.PlacesErrors

variable {α β : Type} {x : Effect α}

theorem pure (a : α) : PlacesErrors (pure a) := fun _ _ _ => nofun

theorem located (pos : Pos) (x : Effect α) : PlacesErrors (located pos x) := by
  intro s e t failed
  obtain ⟨e', _, rfl⟩ := located_eq_error.mp failed
  rfl

theorem failAt (pos : Pos) (fault : Fault) : PlacesErrors (failAt pos fault : Effect α) := by
  intro s e t failed
  cases failed
  rfl

theorem bind {f : α → Effect β} (first : x.PlacesErrors) (next : ∀ a, (f a).PlacesErrors) :
    (x >>= f).PlacesErrors := by
  intro s e t failed
  rcases bind_eq_error.mp failed with failed | ⟨a, u, _, failed⟩
  · exact first s e t failed
  · exact next a u e t failed

theorem between (enter leave : State → State) (h : x.PlacesErrors) :
    (between enter leave x).PlacesErrors := by
  intro s e t failed
  unfold Effect.between at failed
  split at failed
  · cases failed
  · rename_i inside
    cases failed
    exact h _ _ _ inside

theorem forM {f : α → Effect PUnit} (each : ∀ a, (f a).PlacesErrors) (xs : List α) :
    (xs.forM f).PlacesErrors := by
  induction xs with
  | nil => exact pure _
  | cons a xs ih => exact (each a).bind fun _ => ih

theorem inOrder {xs : List (Effect Ending)} (each : ∀ x ∈ xs, x.PlacesErrors) :
    (inOrder xs).PlacesErrors := by
  induction xs with
  | nil => exact pure _
  | cons x xs ih =>
      obtain ⟨first, others⟩ := List.forall_mem_cons.mp each
      apply first.bind
      intro ending
      cases ending with
      | next => exact ih others
      | done v => exact pure _

theorem exec (call : Caller) (st : Stmt) : (st.exec call).PlacesErrors := by
  cases st with
  | var | const | assign | bump | if_ | return_ | block | expr => exact located _ _

theorem bindParams (pos : Pos) (params : List Param) (args : List Value) :
    (bindParams pos params args).PlacesErrors := by
  induction params generalizing args with
  | nil => exact pure _
  | cons param params ih =>
      cases args with
      | nil => exact pure _
      | cons v args => exact (located pos _).bind fun _ => ih args

theorem enter (f : Func) (args : List Value) (site : Pos) {body : Effect Ending}
    (h : body.PlacesErrors) : (f.enter args site body).PlacesErrors := by
  apply between
  apply (bindParams f.pos f.params args).bind
  intro _
  apply h.bind
  intro ending
  cases ending with
  | done v => exact pure _
  | next =>
      cases f.result with
      | none => exact pure _
      | some ty => exact failAt _ _

theorem loadFunction (f : Func) : (loadFunction f).PlacesErrors := by
  apply (located f.pos (ofExcept f.checked)).bind
  intro _ s e t failed
  rw [get_bind] at failed
  cases found : s.function? f.name with
  | none =>
      rw [found] at failed
      cases failed
  | some g =>
      rw [found] at failed
      cases failed
      rfl

theorem loadGlobal (st : Stmt) : (loadGlobal (Stmt.exec callFunction) st).PlacesErrors := by
  have runs : (discard (st.exec callFunction)).PlacesErrors :=
    (exec callFunction st).bind fun _ => pure _
  unfold Treewalk.loadGlobal
  cases st.declares? with
  | none => exact runs
  | some x =>
      intro s e t failed
      change (if (s.function? x).isSome then _ else _ : Effect Unit) s = _ at failed
      split at failed
      · cases failed
        rfl
      · exact runs s e t failed

theorem load {p : Program} (main : p.package = "main") : p.load.PlacesErrors := by
  intro s e t failed
  rw [Program.load_apply main] at failed
  exact (forM loadFunction p.functions).bind (fun _ => forM loadGlobal p.globals) _ e t failed

end Effect.PlacesErrors

namespace Program

variable {p : Program}

/-- The runs of a program that stop outside of all its places: it is not to be run,
    it has no `main`, or not even one call may be made. -/
inductive Unplaced (p : Program) (limit : Nat) (sink : Sink) : Prop where
  | package : p.package ≠ "main" → Unplaced p limit sink
  | unbound {s : State} : p.load (.fresh limit sink) = .ok () s → s.function? "main" = none →
      Unplaced p limit sink
  | noRoom {s : State} {f : Func} : limit = 0 → p.load (.fresh limit sink) = .ok () s →
      s.function? "main" = some f → f.params = [] → f.result = none → Unplaced p limit sink

variable {limit : Nat} {sink : Sink} {s t : State} {e : RunError}

theorem room_of_load (loaded : p.load (.fresh limit sink) = .ok () s) : s.room = limit := by
  have started : Session limit sink (.fresh limit sink) := .fresh
  have session : Session limit sink s := after_of_ok loaded ▸ started.load p
  have outline := session.outline
  simp only [State.outline, Outline.mk.injEq] at outline
  simp [State.room, outline]

theorem mainBy_unbound {call : Caller} (absent : s.function? "main" = none) :
    mainBy call s = .error ⟨.unbound "main", none⟩ s := by
  unfold mainBy
  rw [get_bind, absent]
  rfl

theorem mainBy_apply {call : Caller} {f : Func} (found : s.function? "main" = some f) :
    mainBy call s =
      if !f.params.isEmpty || f.result.isSome then .error ⟨.mainSignature, some f.pos⟩ s
      else discard (call f [] ⟨0, 0⟩) s := by
  unfold mainBy
  rw [get_bind, found]
  dsimp only
  split <;> rfl

theorem callFunction_error {f : Func} (full : s.room = 0) (args : List Value) (site : Pos) :
    callFunction f args site s = .error ⟨.stackOverflow s.limit, none⟩ s := by
  rw [callFunction, full]
  rfl

theorem Unplaced.run (unplaced : p.Unplaced limit sink) :
    ∃ e t, p.run (.fresh limit sink) = .error e t ∧ e.pos = none := by
  cases unplaced with
  | package other => exact ⟨_, _, bind_error (load_error other _), rfl⟩
  | unbound loaded absent =>
      exact ⟨_, _, (bind_ok loaded).trans (mainBy_unbound absent), rfl⟩
  | noRoom zero loaded found params result =>
      have full := (room_of_load loaded).trans zero
      have main : mainBy callFunction _ = _ := mainBy_apply found
      rw [params, result] at main
      have overflow := main.trans (bind_error (callFunction_error full _ _))
      exact ⟨_, _, (bind_ok loaded).trans overflow, rfl⟩

/-- Inside of a call every error has a place; the limit of calls has none by
    itself. -/
theorem placesErrors_call {f : Func} {args : List Value} {site : Pos} (room : s.room ≠ 0)
    (failed : callFunction f args site s = .error e t) : e.pos.isSome := by
  rw [callFunction_eq_callLayer, Evaluator.callLayer_apply, if_neg room] at failed
  refine PlacesErrors.enter f args site (.inOrder ?_) s e t failed
  unfold Evaluator.each
  rw [List.forall_mem_map]
  exact fun st _ => .exec callFunction st

/-- An error without a place stops the run outside of all places. -/
theorem unplaced_of_run (failed : p.run (.fresh limit sink) = .error e t)
    (none : e.pos = none) : p.Unplaced limit sink := by
  have absurd_placed : ¬ e.pos.isSome := by simp [none]
  by_cases main : p.package = "main"
  · rcases bind_eq_error.mp failed with failed | ⟨_, s, loaded, failed⟩
    · exact absurd (PlacesErrors.load main _ _ _ failed) absurd_placed
    · cases found : s.function? "main" with
      | none => exact .unbound loaded found
      | some f =>
          rw [mainBy_apply found] at failed
          split at failed
          · cases failed
            cases none
          · rename_i signature
            rcases bind_eq_error.mp failed with failed | ⟨_, _, _, failed⟩
            · by_cases full : s.room = 0
              · have zero := (room_of_load loaded).symm.trans full
                simp only [Bool.or_eq_true, Bool.not_eq_true', not_or, List.isEmpty_iff,
                  Bool.not_eq_false, Option.not_isSome_iff_eq_none] at signature
                exact .noRoom zero loaded found signature.1 signature.2
              · exact absurd (placesErrors_call full failed) absurd_placed
            · cases failed
  · exact .package main

end Program

/-- If a run fails, its error is at a place of the program, an expression, a
    statement or a function of it. It has no place in three cases: the package is
    not to be run, there is no `main` once the program is loaded, or there is one that
    can be run but no call is allowed. -/
theorem run_error_places (p : Program) (limit : Nat) (sink : Sink) :
    (∀ e t, p.run (.fresh limit sink) = .error e t →
      (∀ pos, e.pos = some pos → pos ∈ p.places) ∧ (e.pos = none ↔ p.Unplaced limit sink)) ∧
    (p.Unplaced limit sink → ∃ e t, p.run (.fresh limit sink) = .error e t) := by
  constructor
  · intro e t failed
    refine ⟨?_, Program.unplaced_of_run failed, ?_⟩
    · have fresh : p.Provides (.fresh limit sink) := nofun
      have met := (Discipline.closed_blaming p).self (p := .run p)
        ⟨rfl, fresh⟩ ⟨fun _ member => member, fun _ place => place⟩
      exact met.lockstep.error failed
    · intro unplaced
      obtain ⟨e', t', failed', none⟩ := unplaced.run
      rw [failed] at failed'
      cases failed'
      exact none
  · intro unplaced
    obtain ⟨e, t, failed, _⟩ := unplaced.run
    exact ⟨e, t, failed⟩

/-- A global with the value of a name that there is not. -/
def danglingProgram : Program :=
  ⟨"main", [], [.stmt (.var ⟨1, 1⟩ "x" none (some (.name ⟨1, 9⟩ "y"))),
    .func ⟨⟨2, 1⟩, "main", [], none, []⟩]⟩

/-- It is the name that is blamed. -/
theorem run_error_places_dangling :
    (∃ t, danglingProgram.run (.fresh 5 .silent) = .error ⟨.unbound "y", some ⟨1, 9⟩⟩ t) ∧
    ⟨1, 9⟩ ∈ danglingProgram.places ∧ ¬ danglingProgram.Unplaced 5 .silent := by
  have failed : danglingProgram.run (.fresh 5 .silent) =
      .error ⟨.unbound "y", some ⟨1, 9⟩⟩ (danglingProgram.run.after (.fresh 5 .silent)) := rfl
  obtain ⟨placed, none⟩ := (run_error_places danglingProgram 5 .silent).1 _ _ failed
  refine ⟨⟨_, failed⟩, placed _ rfl, ?_⟩
  intro unplaced
  cases none.mpr unplaced

end Treewalk
