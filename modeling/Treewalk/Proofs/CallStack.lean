import Treewalk.Proofs.Reach

/-! # The stack of calls

Every evaluation gives the stacks back as it found them, whether it succeeds or
fails. While it goes on, there is one frame for each running call, and never
more of them than the limit allows.
-/

namespace Treewalk

open Discipline

/-- Each call has a frame with a scope in it, and the limit is kept. -/
structure Outline.Balanced (limit : Nat) (o : Outline) : Prop where
  bound : o.limit = limit
  frames : o.scopes.length = o.calls.length
  depth : o.calls.length ≤ limit
  scopes : ∀ n ∈ o.scopes, 0 < n

namespace Outline.Balanced

variable {limit : Nat} {o : Outline}

theorem enterBlock (h : o.Balanced limit) : o.enterBlock.Balanced limit := by
  obtain ⟨limit', calls, scopes⟩ := o
  cases scopes with
  | nil => exact h
  | cons n rest =>
      obtain ⟨same, frames, depth, positive⟩ := h
      refine ⟨same, frames, depth, ?_⟩
      intro m member
      rcases List.mem_cons.mp member with rfl | member
      · exact Nat.succ_pos n
      · exact positive m (List.mem_cons_of_mem n member)

theorem enterCall (call : Call) (h : o.Balanced limit) (room : o.room ≠ 0) :
    (o.enterCall call).Balanced limit := by
  obtain ⟨same, frames, depth, positive⟩ := h
  refine ⟨same, congrArg Nat.succ frames, ?_, ?_⟩
  · simp only [Outline.room, Outline.enterCall, List.length_cons] at room ⊢
    omega
  · intro m member
    rcases List.mem_cons.mp member with rfl | member
    · exact Nat.one_pos
    · exact positive m member

end Outline.Balanced

/-- Runs of one balanced state. -/
def Discipline.balanced (limit : Nat) : Discipline :=
  outlined ⟨Outline.Balanced limit, Outline.Balanced.enterBlock⟩ fun _ => True

theorem Discipline.invariant_balanced (limit : Nat) (sink : Sink) :
    (balanced limit).Invariant limit sink where
  opens _ := opens_outlined fun h room => h.enterCall _ room
  loads := loads_outlined
  single := ⟨fun h => h.1, id⟩
  callable _ := trivial
  fresh := by
    have none : ∀ n ∈ (State.fresh limit sink).outline.scopes, 0 < n := nofun
    exact ⟨rfl, ⟨rfl, rfl, Nat.zero_le _, none⟩, fun _ _ => trivial⟩

theorem Session.outline {limit : Nat} {sink : Sink} {s : State} (h : Session limit sink s) :
    s.outline = ⟨limit, [], []⟩ := by
  induction h with
  | fresh => rfl
  | load p _ ih => exact (outline_after (.load p) _).trans ih
  | run p _ ih => exact (outline_after (.run p) _).trans ih

/-- Evaluation gives back the calls it found, on success and on failure. Wherever
    a session evaluates anything, calls and frames are in step and within the
    limit. Between loads and runs there is neither a call nor a frame. -/
theorem call_stack_discipline (limit : Nat) (sink : Sink) :
    (∀ e s, ((Expr.eval callFunction e).after s).calls = s.calls) ∧
    (∀ st s, ((Stmt.exec callFunction st).after s).calls = s.calls) ∧
    (∀ p s, Visited limit sink p s →
      s.env.frames.length = s.calls.length ∧ s.calls.length ≤ limit ∧
        ∀ frame ∈ s.env.frames, frame ≠ []) ∧
    (∀ s, Session limit sink s → s.calls = [] ∧ s.env.frames = []) := by
  refine ⟨fun e => calls_after (.expr e), fun st => calls_after (.stmt st), ?_, ?_⟩
  · intro p s visited
    obtain ⟨_, ⟨_, frames, depth, scopes⟩, _⟩ := ((invariant_balanced limit sink).visited visited).1
    refine ⟨(List.length_map _).symm.trans frames, depth, ?_⟩
    intro frame listed
    exact List.ne_nil_of_length_pos (scopes _ (List.mem_map_of_mem listed))
  · intro s between
    have same := between.outline
    exact ⟨congrArg Outline.calls same, List.map_eq_nil_iff.mp (congrArg Outline.scopes same)⟩

/-- Inside of a `main` that calls itself there is one call and one frame, and when
    it has failed there is none. -/
theorem call_stack_discipline_endless :
    Visited 3 .silent (.stmt (.expr ⟨2, 1⟩ (.call ⟨2, 1⟩ "main" [])))
      (endlessLoaded.enterCall ⟨"main", ⟨0, 0⟩, none⟩) ∧
    (endlessLoaded.enterCall ⟨"main", ⟨0, 0⟩, none⟩).env.frames.length = 1 ∧
    Session 3 .silent ((Program.run ⟨"main", [], [.func endless]⟩).after (.fresh 3 .silent)) ∧
    ((Program.run ⟨"main", [], [.func endless]⟩).after (.fresh 3 .silent)).calls = [] := by
  obtain ⟨_, _, visits, sessions⟩ := call_stack_discipline 3 .silent
  have started : Visited 3 .silent (.run ⟨"main", [], [.func endless]⟩) (.fresh 3 .silent) :=
    .run _ .fresh
  have called : Visited 3 .silent (.call endless [] ⟨0, 0⟩) endlessLoaded :=
    started.enter (.main rfl rfl rfl rfl)
  have inside := called.enter (Enters.body (by decide) rfl rfl)
  have between : Session 3 .silent (.fresh 3 .silent) := .fresh
  have finished := between.run ⟨"main", [], [.func endless]⟩
  exact ⟨inside, (visits _ _ inside).1, finished, (sessions _ finished).1⟩

end Treewalk
