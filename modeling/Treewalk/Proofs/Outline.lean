import Treewalk.Proofs.Bindings
import Treewalk.Proofs.Unrolling

/-! # The outline of a state

The outline of a state is how its stacks stand: the limit, the running calls and
the number of scopes that each frame has. Whatever is evaluated leaves it as it
was, on success and on failure, in every state.
-/

namespace Treewalk

/-- How the stacks of a state stand. -/
structure Outline where
  limit : Nat
  calls : List Call
  /-- How many scopes each frame has, the current one first. -/
  scopes : List Nat

namespace Outline

def room (o : Outline) : Nat := o.limit - o.calls.length

/-- One more scope in the current frame, if there is one. -/
def enterBlock (o : Outline) : Outline :=
  match o.scopes with
  | n :: rest => { o with scopes := (n + 1) :: rest }
  | [] => o

/-- One more call, with a frame of one scope. -/
def enterCall (call : Call) (o : Outline) : Outline := ⟨o.limit, call :: o.calls, 1 :: o.scopes⟩

/-- A kind of outlines that a block keeps. -/
structure Shape where
  holds : Outline → Prop
  block : ∀ {o : Outline}, holds o → holds o.enterBlock

end Outline

namespace State

variable {s t : State}

def outline (s : State) : Outline := ⟨s.limit, s.calls, s.env.scopes⟩

theorem outline_enterBlock (s : State) : s.enterBlock.outline = s.outline.enterBlock := by
  obtain ⟨limit, functions, imports, ⟨globals, frames⟩, calls, heap, sink⟩ := s
  cases frames <;> rfl

theorem outline_enterCall (call : Call) (s : State) :
    (s.enterCall call).outline = s.outline.enterCall call := rfl

theorem outline_leaveBlock (h : t.outline = s.enterBlock.outline) :
    t.leaveBlock.outline = s.outline := by
  rw [outline_enterBlock] at h
  obtain ⟨limit, functions, imports, ⟨globals, frames⟩, calls, heap, sink⟩ := s
  obtain ⟨limit', functions', imports', ⟨globals', frames'⟩, calls', heap', sink'⟩ := t
  cases frames with
  | nil =>
      cases frames' with
      | nil => exact h
      | cons frame' rest' => simp [outline, Outline.enterBlock, Env.scopes] at h
  | cons frame rest =>
      cases frames' with
      | nil => simp [outline, Outline.enterBlock, Env.scopes] at h
      | cons frame' rest' =>
          simp only [outline, Outline.enterBlock, Env.scopes, List.map_cons, Outline.mk.injEq,
            List.cons.injEq] at h
          obtain ⟨rfl, rfl, top, below⟩ := h
          simp only [outline, leaveBlock, Env.leaveBlock, Env.scopes, List.map_cons,
            List.length_tail, top, below, Nat.add_sub_cancel]

theorem outline_leaveCall {call : Call} (h : t.outline = (s.enterCall call).outline) :
    t.leaveCall.outline = s.outline := by
  rw [outline_enterCall] at h
  simp only [outline, Outline.enterCall, Env.scopes, Outline.mk.injEq] at h
  obtain ⟨limit, calls, scopes⟩ := h
  simp only [outline, leaveCall, Env.leaveCall, Env.scopes, List.map_tail, limit, calls, scopes,
    List.tail_cons]

theorem outline_declare {x : String} {b : Binding} {env : Env}
    (ok : s.env.declare x b = .ok env) : { s with env }.outline = s.outline :=
  congrArg (Outline.mk _ _) (Env.scopes_declare ok)

theorem outline_assign {x : String} {b : Binding} {v : Value} {env : Env}
    (found : s.env.lookup x = some b) (ok : s.env.assign x v = .ok env) :
    { s with env }.outline = s.outline :=
  congrArg (Outline.mk _ _) (Env.scopes_assign found ok)

end State

namespace Discipline

/-- Runs of one state whose outline is of some kind and whose functions are, too. -/
def outlined (shape : Outline.Shape) (callable : Func → Prop) : Discipline where
  beside s t := s = t ∧ shape.holds s.outline ∧ ∀ f ∈ s.functions, callable f
  allows _ s t := t.outline = s.outline
  callable := callable
  allows_refl _ _ := rfl
  allows_trans first second := second.trans first
  view h := h.1 ▸ .refl _
  result_kept h := State.SameCalls.result? (congrArg Outline.calls h)
  callable_named h found := h.2.2 _ (List.mem_of_find?_eq_some found)
  emit e h := by
    obtain ⟨rfl, h⟩ := h
    exact .same _ fun _ _ => .same h rfl
  alloc h _ _ := by
    obtain ⟨rfl, h⟩ := h
    exact ⟨.same h rfl, trivial⟩
  set h _ _ _ := by
    obtain ⟨rfl, h⟩ := h
    exact .same h rfl
  declare x h _ _ := by
    obtain ⟨rfl, h⟩ := h
    apply Attempts.same
    intro env ok
    have same := State.outline_declare ok
    exact .same ⟨same ▸ h.1, h.2⟩ same
  assign h found _ := by
    obtain ⟨rfl, h⟩ := h
    apply Attempts.same
    intro env ok
    have same := State.outline_assign found ok
    exact .same ⟨same ▸ h.1, h.2⟩ same
  enterBlock h := by
    obtain ⟨rfl, h⟩ := h
    exact ⟨rfl, State.outline_enterBlock _ ▸ shape.block h.1, h.2⟩
  leaveBlock h moved := by
    obtain ⟨rfl, h⟩ := h
    obtain ⟨⟨rfl, inside⟩, left, right⟩ := moved
    have same := State.outline_leaveBlock left
    exact .same ⟨same ▸ h.1, inside.2⟩ same

variable {shape shape' : Outline.Shape} {callable : Func → Prop}

theorem opens_outlined {call : Call}
    (enter : ∀ {o : Outline}, shape.holds o → o.room ≠ 0 → shape'.holds (o.enterCall call)) :
    (outlined shape callable).Opens (outlined shape' callable) call where
  room h := .inl (h.1 ▸ ⟨rfl, rfl⟩)
  enter h room _ := by
    obtain ⟨rfl, h⟩ := h
    exact ⟨rfl, enter h.1 room, h.2⟩
  leave h room moved := by
    obtain ⟨rfl, h⟩ := h
    obtain ⟨⟨rfl, inside⟩, left, right⟩ := moved
    have same := State.outline_leaveCall left
    exact .same ⟨same ▸ h.1, inside.2⟩ same

theorem loads_outlined : (outlined shape callable).Loads where
  imports _ h := by
    obtain ⟨rfl, h⟩ := h
    exact .same h rfl
  function h known _ _ := by
    obtain ⟨rfl, h⟩ := h
    refine .same ⟨h.1, ?_⟩ rfl
    intro g member
    rcases List.mem_cons.mp member with rfl | member
    · exact known
    · exact h.2 g member

end Discipline

end Treewalk
