import Treewalk.Machine.Bindings

/-! # Bindings after a change

A declaration adds one binding to one scope, and an assignment changes the value
of the one binding that its name means. All else about the names of a run
follows from that.
-/

namespace Treewalk

/-! ## One scope and one frame -/

theorem Scope.mem_of_find? {scope : Scope} {x : String} {b : Binding}
    (found : scope.find? x = some b) : (x, b) ∈ scope := by
  induction scope with
  | nil => cases found
  | cons entry rest ih =>
      obtain ⟨y, c⟩ := entry
      simp only [find?, List.lookup_cons] at found
      split at found
      · rename_i same
        cases found
        rw [eq_of_beq same]
        exact List.mem_cons_self
      · exact List.mem_cons_of_mem _ (ih found)

theorem Scope.mem_replace {scope : Scope} {x y : String} {v : Value} {b c : Binding}
    (found : scope.find? x = some b) (member : (y, c) ∈ scope.replace x v) :
    (y, c) ∈ scope ∨ c = { b with value := v } := by
  induction scope with
  | nil => cases found
  | cons entry rest ih =>
      obtain ⟨z, d⟩ := entry
      simp only [find?, List.lookup_cons, replace] at found member
      by_cases same : z = x
      · subst same
        simp only [beq_self_eq_true, if_true, Option.some.injEq, List.mem_cons,
          Prod.mk.injEq] at found member
        subst found
        rcases member with ⟨_, rfl⟩ | member
        · exact .inr rfl
        · exact .inl (List.mem_cons_of_mem _ member)
      · have other : (x == z) = false := by simp [Ne.symm same]
        simp only [other, if_neg same, List.mem_cons] at found member
        rcases member with first | member
        · exact .inl (first ▸ List.mem_cons_self)
        · exact (ih found member).imp (List.mem_cons_of_mem _) id

theorem Scope.find?_cons (x y : String) (b : Binding) (scope : Scope) :
    Scope.find? ((y, b) :: scope) x = if x = y then some b else scope.find? x := by
  by_cases same : x = y
  · simp [find?, same]
  · simp [find?, List.lookup_cons, beq_false_of_ne same, same]

theorem Scope.find?_replace (scope : Scope) (x y : String) (v : Value) :
    (scope.replace x v).find? y =
      if y = x then (scope.find? x).map fun b => { b with value := v } else scope.find? y := by
  induction scope with
  | nil => simp [replace, find?]
  | cons entry rest ih =>
      obtain ⟨z, b⟩ := entry
      by_cases here : z = x
      · subst here
        by_cases wanted : y = z <;> simp [replace, find?_cons, wanted]
      · by_cases wanted : y = x
        · subst wanted
          simp [replace, find?_cons, here, Ne.symm here, ih]
        · simp [replace, find?_cons, here, wanted, ih]

/-- Give the innermost binding of a name another value. -/
def Frame.replace (x : String) (v : Value) : Frame → Frame
  | [] => []
  | scope :: outer =>
      if (scope.find? x).isSome then scope.replace x v :: outer
      else scope :: replace x v outer

/-- The binding that is written is the one that is found. -/
theorem Frame.target?_eq (frame : Frame) (x : String) :
    frame.target? x = (frame.find? x).map fun b => (b, fun v => frame.replace x v) := by
  induction frame with
  | nil => rfl
  | cons scope outer ih =>
      cases here : scope.find? x with
      | some b => simp [target?, find?, replace, here]
      | none => simp [target?, find?, replace, here, ih, Function.comp_def]

theorem Frame.mem_of_find? {frame : Frame} {x : String} {b : Binding}
    (found : frame.find? x = some b) : ∃ scope ∈ frame, (x, b) ∈ scope := by
  induction frame with
  | nil => cases found
  | cons inner outer ih =>
      rw [find?, Option.or_eq_some_iff] at found
      rcases found with here | ⟨_, deeper⟩
      · exact ⟨inner, List.mem_cons_self, Scope.mem_of_find? here⟩
      · obtain ⟨scope, listed, member⟩ := ih deeper
        exact ⟨scope, List.mem_cons_of_mem _ listed, member⟩

theorem Frame.mem_replace {frame : Frame} {x y : String} {v : Value} {b c : Binding} {scope : Scope}
    (found : frame.find? x = some b) (listed : scope ∈ frame.replace x v)
    (member : (y, c) ∈ scope) :
    (∃ scope ∈ frame, (y, c) ∈ scope) ∨ c = { b with value := v } := by
  induction frame with
  | nil => cases found
  | cons inner outer ih =>
      unfold find? at found
      unfold replace at listed
      cases here : inner.find? x with
      | some d =>
          rw [here] at found listed
          cases found
          rw [Option.isSome_some, if_pos rfl, List.mem_cons] at listed
          rcases listed with rfl | listed
          · rcases Scope.mem_replace here member with old | changed
            · exact .inl ⟨inner, List.mem_cons_self, old⟩
            · exact .inr changed
          · exact .inl ⟨scope, List.mem_cons_of_mem _ listed, member⟩
      | none =>
          rw [here] at found listed
          rw [if_neg (by simp), List.mem_cons] at listed
          rcases listed with rfl | listed
          · exact .inl ⟨scope, List.mem_cons_self, member⟩
          · rcases ih found listed with ⟨old, deep, kept⟩ | changed
            · exact .inl ⟨old, List.mem_cons_of_mem _ deep, kept⟩
            · exact .inr changed

theorem Frame.length_replace (x : String) (v : Value) (frame : Frame) :
    (frame.replace x v).length = frame.length := by
  induction frame with
  | nil => rfl
  | cons scope outer ih =>
      unfold Frame.replace
      split
      · rfl
      · simp only [List.length_cons, ih]

namespace Env

variable {env env' : Env} {x y : String} {v : Value} {b c : Binding}

/-! ## What declarations and assignments do -/

theorem declare_cases (ok : env.declare x b = .ok env') :
    (∃ scope outer rest, env.frames = (scope :: outer) :: rest ∧ scope.find? x = none ∧
      env' = { env with frames := (((x, b) :: scope) :: outer) :: rest }) ∨
    ((∀ frame ∈ env.frames.head?, frame = []) ∧ env.globals.find? x = none ∧
      env' = { env with globals := (x, b) :: env.globals }) := by
  unfold declare at ok
  split at ok
  · rename_i scope outer rest same
    split at ok <;> cases ok
    rename_i absent
    exact .inl ⟨scope, outer, rest, same, Option.not_isSome_iff_eq_none.mp absent, rfl⟩
  · rename_i other
    split at ok <;> cases ok
    rename_i absent
    refine .inr ⟨?_, Option.not_isSome_iff_eq_none.mp absent, rfl⟩
    intro frame first
    cases frame with
    | nil => rfl
    | cons scope outer =>
        obtain ⟨rest, same⟩ := List.head?_eq_some_iff.mp first
        exact absurd same (other scope outer rest)

/-- Give the binding that a name means another value. -/
def replace (env : Env) (x : String) (v : Value) : Env :=
  if (env.current.find? x).isSome then
    { env with frames := env.current.replace x v :: env.frames.tail }
  else { env with globals := env.globals.replace x v }

/-- The binding that an assignment writes is the one that a lookup finds. -/
theorem target?_eq (env : Env) (x : String) :
    env.target? x = (env.lookup x).map fun b => (b, fun v => env.replace x v) := by
  obtain ⟨globals, frames⟩ := env
  cases frames with
  | nil => simp [target?, lookup, replace, current, Frame.find?]
  | cons frame rest =>
      cases here : frame.find? x <;>
        simp [target?, lookup, replace, current, Frame.target?_eq, here]

theorem assign_eq (env : Env) (x : String) (v : Value) : env.assign x v =
    match env.lookup x with
    | some b =>
        if b.role ≠ .variable then .error (.constantAssigned x) else .ok (env.replace x v)
    | none => .error (.unbound x) := by
  rw [assign, target?_eq]
  cases env.lookup x <;> rfl

theorem assign_cases (found : env.lookup x = some b) (ok : env.assign x v = .ok env') :
    b.role = .variable ∧
    ((∃ frame rest, env.frames = frame :: rest ∧ frame.find? x = some b ∧
      env' = { env with frames := frame.replace x v :: rest }) ∨
    (env.current.find? x = none ∧ env.globals.find? x = some b ∧
      env' = { env with globals := env.globals.replace x v })) := by
  rw [assign_eq, found] at ok
  rw [lookup, Option.or_eq_some_iff] at found
  dsimp only at ok
  split at ok
  · cases ok
  · rename_i role
    refine ⟨Decidable.not_not.mp role, ?_⟩
    cases ok
    rcases found with here | ⟨absent, global⟩
    · obtain ⟨globals, _ | ⟨frame, rest⟩⟩ := env
      · cases here
      · refine .inl ⟨frame, rest, rfl, here, ?_⟩
        rw [replace, here]
        rfl
    · exact .inr ⟨absent, global, by simp [replace, absent]⟩

/-! ## How many scopes there are -/

/-- How many scopes each frame has. -/
def scopes (env : Env) : List Nat := env.frames.map List.length

theorem scopes_declare (ok : env.declare x b = .ok env') : env'.scopes = env.scopes := by
  rcases declare_cases ok with ⟨scope, outer, rest, same, _, rfl⟩ | ⟨_, _, rfl⟩
  · simp only [scopes, same, List.map_cons, List.length_cons]
  · rfl

theorem scopes_assign (found : env.lookup x = some b) (ok : env.assign x v = .ok env') :
    env'.scopes = env.scopes := by
  rcases (assign_cases found ok).2 with ⟨frame, rest, same, _, rfl⟩ | ⟨_, _, rfl⟩
  · simp only [scopes, same, List.map_cons, Frame.length_replace]
  · rfl

/-! ## Which bindings there are -/

/-- Some scope, of whatever call, has this binding of a name. -/
def Binds (env : Env) (x : String) (b : Binding) : Prop :=
  (x, b) ∈ env.globals ∨ ∃ frame ∈ env.frames, ∃ scope ∈ frame, (x, b) ∈ scope

theorem binds_lookup (found : env.lookup x = some b) : env.Binds x b := by
  obtain ⟨globals, frames⟩ := env
  rw [lookup, Option.or_eq_some_iff] at found
  rcases found with here | ⟨_, global⟩
  · cases frames with
    | nil => cases here
    | cons frame rest => exact .inr ⟨frame, List.mem_cons_self, Frame.mem_of_find? here⟩
  · exact .inl (Scope.mem_of_find? global)

theorem binds_declare (ok : env.declare x b = .ok env') (h : env'.Binds y c) :
    env.Binds y c ∨ c = b := by
  rcases declare_cases ok with ⟨scope, outer, rest, same, _, rfl⟩ | ⟨_, _, rfl⟩
  · simp only [Binds, same, List.mem_cons, exists_eq_or_imp, Prod.mk.injEq] at h ⊢
    grind
  · simp only [Binds, List.mem_cons, Prod.mk.injEq] at h ⊢
    grind

theorem binds_assign (found : env.lookup x = some b) (ok : env.assign x v = .ok env')
    (h : env'.Binds y c) : env.Binds y c ∨ c = { b with value := v } := by
  rcases (assign_cases found ok).2 with ⟨frame, rest, same, here, rfl⟩ | ⟨_, global, rfl⟩
  · rcases h with global | ⟨changed, listed, scope, deep, member⟩
    · exact .inl (.inl global)
    · rw [Binds, same]
      rcases List.mem_cons.mp listed with rfl | listed
      · exact (Frame.mem_replace here deep member).imp
          (fun old => .inr ⟨frame, List.mem_cons_self, old⟩) id
      · exact .inl (.inr ⟨changed, List.mem_cons_of_mem _ listed, scope, deep, member⟩)
  · rcases h with changed | inside
    · exact (Scope.mem_replace global changed).imp .inl id
    · exact .inl (.inr inside)

theorem binds_enterBlock (h : env.enterBlock.Binds y c) : env.Binds y c := by
  obtain ⟨globals, frames⟩ := env
  cases frames with
  | nil => exact h
  | cons frame rest =>
      simp only [Binds, enterBlock, List.mem_cons, exists_eq_or_imp, List.not_mem_nil,
        false_or] at h ⊢
      exact h

theorem binds_leaveBlock (h : env.leaveBlock.Binds y c) : env.Binds y c := by
  obtain ⟨globals, frames⟩ := env
  cases frames with
  | nil => exact h
  | cons frame rest =>
      simp only [Binds, leaveBlock, List.mem_cons, exists_eq_or_imp] at h ⊢
      rcases h with global | ⟨scope, listed, member⟩ | deeper
      · exact .inl global
      · exact .inr (.inl ⟨scope, List.mem_of_mem_tail listed, member⟩)
      · exact .inr (.inr deeper)

theorem binds_enterCall (h : env.enterCall.Binds y c) : env.Binds y c := by
  rcases h with global | ⟨frame, listed, scope, deep, member⟩
  · exact .inl global
  · rcases List.mem_cons.mp listed with rfl | listed
    · rw [List.mem_singleton.mp deep] at member
      cases member
    · exact .inr ⟨frame, listed, scope, deep, member⟩

theorem binds_leaveCall (h : env.leaveCall.Binds y c) : env.Binds y c := by
  rcases h with global | ⟨frame, listed, inside⟩
  · exact .inl global
  · exact .inr ⟨frame, List.mem_of_mem_tail listed, inside⟩

end Env

end Treewalk
