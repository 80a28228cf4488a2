import Treewalk.Proofs.Bindings
import Treewalk.Proofs.Reach

/-! # What names keep

Expressions leave all local bindings alone, and of the globals they change the
values of variables only: they can call functions, and each call has a frame of
its own. Statements may add bindings to the innermost scope.
-/

namespace Treewalk

/-- What stays the same while a binding is there: all but the value of a variable. -/
def Binding.fixed (b : Binding) : Ty × Role × Option Value :=
  (b.ty, b.role, if b.role = .variable then none else some b.value)

namespace Scope

/-- What stays the same of a scope. -/
def fixed (scope : Scope) : List (String × Ty × Role × Option Value) :=
  scope.map fun (x, b) => (x, b.fixed)

variable {scope : Scope} {x : String} {b : Binding}

theorem lookup_fixed (scope : Scope) (x : String) :
    scope.fixed.lookup x = (scope.find? x).map Binding.fixed := by
  induction scope with
  | nil => rfl
  | cons entry rest ih =>
      obtain ⟨y, c⟩ := entry
      simp only [find?, fixed, List.map_cons, List.lookup_cons] at ih ⊢
      split
      · rfl
      · exact ih

theorem fixed_replace (v : Value) (found : scope.find? x = some b) (role : b.role = .variable) :
    (scope.replace x v).fixed = scope.fixed := by
  induction scope with
  | nil => rfl
  | cons entry rest ih =>
      obtain ⟨y, c⟩ := entry
      simp only [find?, List.lookup_cons] at found
      unfold replace
      split
      · rename_i same
        rw [same, beq_self_eq_true] at found
        cases found
        simp [fixed, Binding.fixed, role]
      · rename_i other
        rw [beq_false_of_ne (Ne.symm other)] at found
        exact congrArg (List.cons _) (ih found)

end Scope

theorem Frame.fixed_replace {frame : Frame} {x : String} {b : Binding} (v : Value)
    (found : frame.find? x = some b) (role : b.role = .variable) :
    (frame.replace x v).map Scope.fixed = frame.map Scope.fixed := by
  induction frame with
  | nil => rfl
  | cons inner outer ih =>
      rw [find?, Option.or_eq_some_iff] at found
      unfold replace
      rcases found with here | ⟨absent, deeper⟩
      · rw [here, Option.isSome_some, if_pos rfl, List.map_cons, List.map_cons,
          Scope.fixed_replace v here role]
      · rw [absent, Option.isSome_none, if_neg Bool.false_ne_true, List.map_cons, List.map_cons,
          ih deeper]

namespace Env

variable {env env' : Env}

/-- The scope that declarations go to. -/
def innermost (env : Env) : Scope :=
  match env.frames with
  | (scope :: _) :: _ => scope
  | _ => env.globals

/-- What declarations leave alone: outer scopes, frames of callers and, inside of
    a call, the globals. -/
def beyond (env : Env) :
    List (List (String × Ty × Role × Option Value)) × List Frame ×
      Option (List (String × Ty × Role × Option Value)) :=
  match env.frames with
  | (_ :: outer) :: rest => (outer.map Scope.fixed, rest, some env.globals.fixed)
  | frames => ([], frames, none)

/-- What an environment can become by statements. -/
structure Follows (env env' : Env) : Prop where
  innermost : env.innermost.fixed <:+ env'.innermost.fixed
  beyond : env'.beyond = env.beyond

theorem Follows.refl (env : Env) : env.Follows env := ⟨List.suffix_rfl, rfl⟩

theorem Follows.trans {env'' : Env} (first : env.Follows env') (second : env'.Follows env'') :
    env.Follows env'' :=
  ⟨first.innermost.trans second.innermost, second.beyond.trans first.beyond⟩

theorem follows_of_frames (frames : env'.frames = env.frames)
    (globals : env'.globals.fixed = env.globals.fixed) : env.Follows env' := by
  obtain ⟨globals₁, frames₁⟩ := env
  obtain ⟨globals₂, frames₂⟩ := env'
  dsimp only at frames globals
  subst frames
  rcases frames₂ with _ | ⟨_ | ⟨scope, outer⟩, rest⟩
  · exact ⟨globals ▸ List.suffix_rfl, rfl⟩
  · exact ⟨globals ▸ List.suffix_rfl, rfl⟩
  · refine ⟨List.suffix_rfl, ?_⟩
    simp only [beyond, globals]

theorem frames_of_beyond {outer : List (List (String × Ty × Role × Option Value))}
    {rest : List Frame} {globals : List (String × Ty × Role × Option Value)}
    (h : env.beyond = (outer, rest, some globals)) :
    ∃ scope inner, env.frames = (scope :: inner) :: rest ∧ inner.map Scope.fixed = outer ∧
      env.globals.fixed = globals := by
  unfold beyond at h
  split at h
  · rename_i scope inner rest' same
    simp only [Prod.mk.injEq, Option.some.injEq] at h
    obtain ⟨rfl, rfl, rfl⟩ := h
    exact ⟨scope, inner, same, rfl, rfl⟩
  · cases h

theorem frames_of_bare {outer : List (List (String × Ty × Role × Option Value))}
    {frames : List Frame} (h : env.beyond = (outer, frames, none)) :
    env.frames = frames ∧ env.innermost = env.globals := by
  unfold beyond at h
  split at h
  · cases h
  · rename_i bare
    simp only [Prod.mk.injEq] at h
    refine ⟨h.2.1, ?_⟩
    unfold innermost
    split
    · rename_i same
      exact (bare _ _ _ same).elim
    · rfl

theorem Follows.globals (follows : env.Follows env') :
    env.globals.fixed <:+ env'.globals.fixed := by
  obtain ⟨inner, beyond⟩ := follows
  rcases h : env.beyond with ⟨outer, rest, _ | globals⟩
  · rw [h] at beyond
    rw [(frames_of_bare h).2, (frames_of_bare beyond).2] at inner
    exact inner
  · rw [h] at beyond
    obtain ⟨_, _, _, _, before⟩ := frames_of_beyond h
    obtain ⟨_, _, _, _, after⟩ := frames_of_beyond beyond
    exact before.trans after.symm ▸ List.suffix_rfl

theorem Follows.full (follows : env.Follows env') (full : ∀ frame ∈ env.frames, frame ≠ []) :
    ∀ frame ∈ env'.frames, frame ≠ [] := by
  obtain ⟨_, beyond⟩ := follows
  rcases h : env.beyond with ⟨outer, rest, _ | globals⟩
  · rw [h] at beyond
    rw [(frames_of_bare beyond).1, ← (frames_of_bare h).1]
    exact full
  · rw [h] at beyond
    obtain ⟨_, _, before, _⟩ := frames_of_beyond h
    obtain ⟨_, _, after, _⟩ := frames_of_beyond beyond
    rw [before] at full
    rw [after]
    intro frame listed
    rcases List.mem_cons.mp listed with rfl | listed
    · exact List.cons_ne_nil _ _
    · exact full frame (List.mem_cons_of_mem _ listed)

theorem follows_declare {x : String} {b : Binding} (ok : env.declare x b = .ok env') :
    env.Follows env' := by
  obtain ⟨globals, frames⟩ := env
  rcases declare_cases ok with ⟨scope, outer, rest, same, _, rfl⟩ | ⟨bare, _, rfl⟩
  · dsimp only at same
    subst same
    exact ⟨List.suffix_cons _ _, rfl⟩
  · rcases frames with _ | ⟨_ | ⟨scope, outer⟩, rest⟩
    · exact ⟨List.suffix_cons _ _, rfl⟩
    · exact ⟨List.suffix_cons _ _, rfl⟩
    · exact absurd (bare _ rfl) (List.cons_ne_nil _ _)

/-- What an environment can become by assignments: variables may have other
    values, and only those of the current call and the globals. -/
structure SameButValues (env env' : Env) : Prop where
  globals : env'.globals.fixed = env.globals.fixed
  current : env'.frames.head?.map (·.map Scope.fixed) = env.frames.head?.map (·.map Scope.fixed)
  callers : env'.frames.tail = env.frames.tail

theorem SameButValues.refl (env : Env) : env.SameButValues env := ⟨rfl, rfl, rfl⟩

theorem SameButValues.trans {env'' : Env} (first : env.SameButValues env')
    (second : env'.SameButValues env'') : env.SameButValues env'' :=
  ⟨second.globals.trans first.globals, second.current.trans first.current,
    second.callers.trans first.callers⟩

theorem sameButValues_of_frames (frames : env'.frames = env.frames)
    (globals : env'.globals.fixed = env.globals.fixed) : env.SameButValues env' :=
  ⟨globals, by rw [frames], by rw [frames]⟩

/-- The frame of the current call before and after. -/
theorem SameButValues.frames (kept : env.SameButValues env') {frame : Frame}
    {callers : List Frame} (same : env.frames = frame :: callers) :
    ∃ frame', env'.frames = frame' :: callers ∧
      frame'.map Scope.fixed = frame.map Scope.fixed := by
  obtain ⟨_, current, rest⟩ := kept
  rw [same] at current rest
  cases frames : env'.frames with
  | nil =>
      rw [frames] at current
      cases current
  | cons frame' callers' =>
      rw [frames] at current rest
      cases rest
      exact ⟨frame', rfl, Option.some.inj current⟩

theorem sameButValues_assign {x : String} {b : Binding} {v : Value} (found : env.lookup x = some b)
    (ok : env.assign x v = .ok env') : env.SameButValues env' := by
  obtain ⟨role, ⟨frame, rest, same, here, rfl⟩ | ⟨_, global, rfl⟩⟩ := assign_cases found ok
  · refine ⟨rfl, ?_, ?_⟩
    · rw [same]
      exact congrArg some (Frame.fixed_replace v here role)
    · rw [same]
      rfl
  · exact sameButValues_of_frames rfl (Scope.fixed_replace v global role)

/-- Outside of calls there is no frame after it either. -/
theorem SameButValues.outside (kept : env.SameButValues env') (none : env.frames = []) :
    env'.frames = [] := by
  have current := kept.current
  rw [none, List.head?_nil, Option.map_none, Option.map_eq_none_iff] at current
  exact List.head?_eq_none_iff.mp current

theorem SameButValues.follows (kept : env.SameButValues env') : env.Follows env' := by
  cases same : env.frames with
  | nil => exact follows_of_frames ((kept.outside same).trans same.symm) kept.globals
  | cons frame callers =>
      obtain ⟨frame', frames, fixed⟩ := kept.frames same
      cases frame with
      | nil =>
          rw [List.map_eq_nil_iff.mp fixed] at frames
          exact follows_of_frames (frames.trans same.symm) kept.globals
      | cons scope outer =>
          obtain ⟨scope', outer', rfl, first, others⟩ := List.map_eq_cons_iff.mp fixed
          constructor
          · rw [innermost, innermost, same, frames]
            exact first ▸ List.suffix_rfl
          · rw [beyond, beyond, same, frames]
            simp only [others, kept.globals]

theorem full_enterBlock (full : ∀ frame ∈ env.frames, frame ≠ []) :
    ∀ frame ∈ env.enterBlock.frames, frame ≠ [] := by
  obtain ⟨globals, frames⟩ := env
  cases frames with
  | nil => exact full
  | cons top rest =>
      intro frame listed
      rcases List.mem_cons.mp listed with rfl | listed
      · exact List.cons_ne_nil _ _
      · exact full frame (List.mem_cons_of_mem _ listed)

/-- Where every frame has a scope, a block leaves only changed values behind. -/
theorem Follows.leaveBlock (full : ∀ frame ∈ env.frames, frame ≠ [])
    (follows : env.enterBlock.Follows env') : env.Follows env'.leaveBlock := by
  obtain ⟨globals, frames⟩ := env
  rcases frames with _ | ⟨_ | ⟨scope, outer⟩, rest⟩
  · have none : env'.frames = [] := (frames_of_bare follows.beyond).1
    have same : env'.leaveBlock = env' := by rw [Env.leaveBlock, none]
    rw [same]
    exact follows
  · exact absurd rfl (full [] List.mem_cons_self)
  · obtain ⟨scope', inner', frames', fixed, globals'⟩ := frames_of_beyond follows.beyond
    rcases inner' with _ | ⟨scope'', outer'⟩
    · cases fixed
    · simp only [List.map_cons, List.cons.injEq] at fixed
      have left : env'.leaveBlock = ⟨env'.globals, (scope'' :: outer') :: rest⟩ := by
        rw [Env.leaveBlock, frames']
        rfl
      rw [left]
      refine ⟨fixed.1 ▸ List.suffix_rfl, ?_⟩
      simp only [Env.beyond, fixed.2, globals']
      rfl

/-- A call leaves the frames of its callers alone. -/
theorem Follows.leaveCall (follows : env.enterCall.Follows env') :
    env'.leaveCall.frames = env.frames ∧ env'.globals.fixed = env.globals.fixed := by
  obtain ⟨scope, inner, frames, _, globals⟩ := frames_of_beyond follows.beyond
  rw [Env.leaveCall, frames]
  exact ⟨rfl, globals⟩

end Env

namespace Discipline

/-- Runs of one state in which every frame has a scope. -/
def scoping : Discipline where
  beside s t := s = t ∧ ∀ frame ∈ s.env.frames, frame ≠ []
  allows
    | .expr, s, t => t.env.frames = s.env.frames ∧ t.env.globals.fixed = s.env.globals.fixed ∧
        t.functions = s.functions ∧ t.imports = s.imports ∧ t.calls = s.calls
    | .store, s, t => s.env.SameButValues t.env ∧
        t.functions = s.functions ∧ t.imports = s.imports ∧ t.calls = s.calls
    | .stmt, s, t => s.env.Follows t.env ∧
        t.functions = s.functions ∧ t.imports = s.imports ∧ t.calls = s.calls
    | .program, s, t => s.env.globals.fixed <:+ t.env.globals.fixed ∧
        s.functions <:+ t.functions ∧ s.imports <+: t.imports
  allows_refl k s := by
    cases k with
    | expr => exact ⟨rfl, rfl, rfl, rfl, rfl⟩
    | store => exact ⟨.refl _, rfl, rfl, rfl⟩
    | stmt => exact ⟨.refl _, rfl, rfl, rfl⟩
    | program => exact ⟨List.suffix_rfl, List.suffix_rfl, List.prefix_rfl⟩
  allows_trans := by
    intro k s t u first second
    cases k with
    | expr =>
        obtain ⟨frames, globals, functions, imports, calls⟩ := first
        obtain ⟨frames', globals', functions', imports', calls'⟩ := second
        exact ⟨frames'.trans frames, globals'.trans globals, functions'.trans functions,
          imports'.trans imports, calls'.trans calls⟩
    | store =>
        obtain ⟨env, functions, imports, calls⟩ := first
        obtain ⟨env', functions', imports', calls'⟩ := second
        exact ⟨env.trans env', functions'.trans functions, imports'.trans imports,
          calls'.trans calls⟩
    | stmt =>
        obtain ⟨follows, functions, imports, calls⟩ := first
        obtain ⟨follows', functions', imports', calls'⟩ := second
        exact ⟨follows.trans follows', functions'.trans functions, imports'.trans imports,
          calls'.trans calls⟩
    | program =>
        obtain ⟨globals, functions, imports⟩ := first
        obtain ⟨globals', functions', imports'⟩ := second
        exact ⟨globals.trans globals', functions.trans functions', imports.trans imports'⟩
  allows_store h := ⟨Env.sameButValues_of_frames h.1 h.2.1, h.2.2⟩
  allows_stmt h := ⟨h.1.follows, h.2⟩
  allows_program h :=
    ⟨h.1.globals, h.2.1 ▸ List.suffix_rfl, h.2.2.1 ▸ List.prefix_rfl⟩
  view h := h.1 ▸ .refl _
  result_kept h := State.SameCalls.result? h.2.2.2
  emit e h := by
    obtain ⟨rfl, h⟩ := h
    exact .same _ fun _ _ => .same h ⟨rfl, rfl, rfl, rfl, rfl⟩
  alloc h _ _ := by
    obtain ⟨rfl, h⟩ := h
    exact ⟨.same h ⟨.refl _, rfl, rfl, rfl⟩, trivial⟩
  set h _ _ _ := by
    obtain ⟨rfl, h⟩ := h
    exact .same h ⟨.refl _, rfl, rfl, rfl⟩
  declare x h _ _ := by
    obtain ⟨rfl, h⟩ := h
    apply Attempts.same
    intro env ok
    have follows := Env.follows_declare ok
    exact .same (follows.full h) ⟨follows, rfl, rfl, rfl⟩
  assign h found _ := by
    obtain ⟨rfl, h⟩ := h
    apply Attempts.same
    intro env ok
    have kept := Env.sameButValues_assign found ok
    exact .same (kept.follows.full h) ⟨kept, rfl, rfl, rfl⟩
  enterBlock h := by
    obtain ⟨rfl, h⟩ := h
    exact ⟨rfl, Env.full_enterBlock h⟩
  leaveBlock h moved := by
    obtain ⟨rfl, h⟩ := h
    obtain ⟨⟨rfl, _⟩, ⟨follows, same⟩, _⟩ := moved
    have left := follows.leaveBlock h
    exact .same (left.full h) ⟨left, same⟩

theorem closed_scoping : scoping.Closed where
  opens call := {
    room := fun h => .inl (h.1 ▸ ⟨rfl, rfl⟩)
    enter := by
      rintro s t ⟨rfl, h⟩ _ _
      refine ⟨rfl, ?_⟩
      intro frame listed
      rcases List.mem_cons.mp listed with rfl | listed
      · exact List.cons_ne_nil _ _
      · exact h frame listed
    leave := by
      rintro s t s' t' ⟨rfl, h⟩ _ ⟨⟨rfl, _⟩, ⟨follows, functions, imports, calls⟩, _⟩
      obtain ⟨frames, globals⟩ := follows.leaveCall
      have kept : ∀ frame ∈ s'.leaveCall.env.frames, frame ≠ [] := frames.symm ▸ h
      exact .same kept ⟨frames, globals, functions, imports, congrArg List.tail calls⟩ }
  loads := {
    imports := by
      rintro s t packages ⟨rfl, h⟩
      exact .same h ⟨List.suffix_rfl, List.suffix_rfl, List.prefix_append _ _⟩
    function := by
      rintro s t f ⟨rfl, h⟩ _ _ _
      exact .same h ⟨List.suffix_rfl, List.suffix_cons _ _, List.prefix_rfl⟩ }

theorem single_scoping : scoping.Single := ⟨fun h => h.1, id⟩

theorem invariant_scoping (limit : Nat) (sink : Sink) : scoping.Invariant limit sink where
  toClosed := closed_scoping
  single := single_scoping
  callable _ := trivial
  fresh := ⟨rfl, fun _ listed => absurd listed List.not_mem_nil⟩

end Discipline

end Treewalk
