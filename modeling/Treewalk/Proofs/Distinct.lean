import Treewalk.Proofs.Bindings
import Treewalk.Proofs.Reach

/-! # Names are declared once

A name stands at most once in a scope, and at most once among the functions. So
whatever is listed under a name is what a lookup finds, and it is still found
when the list has grown.
-/

namespace Treewalk

/-! ## Lists without a name twice -/

theorem lookup_of_mem {α : Type} {entries : List (String × α)} {x : String} {a : α}
    (distinct : (entries.map Prod.fst).Nodup) (member : (x, a) ∈ entries) :
    entries.lookup x = some a := by
  obtain ⟨before, later, rfl⟩ := List.append_of_mem member
  refine List.lookup_eq_some_iff.mpr ⟨before, later, rfl, ?_⟩
  intro entry first
  rw [List.map_append, List.nodup_append] at distinct
  have other := distinct.2.2 entry.1 (List.mem_map_of_mem first) x (by simp)
  exact bne_iff_ne.mpr (Ne.symm other)

theorem lookup_of_suffix {α : Type} {entries grown : List (String × α)} {x : String} {a : α}
    (distinct : (grown.map Prod.fst).Nodup) (suffix : entries <:+ grown)
    (found : entries.lookup x = some a) : grown.lookup x = some a := by
  obtain ⟨before, later, rfl, _⟩ := List.lookup_eq_some_iff.mp found
  exact lookup_of_mem distinct (suffix.subset (by simp))

/-- The function with a name is the one that is listed. -/
theorem find?_of_mem {fs : List Func} {f : Func} (distinct : (fs.map Func.name).Nodup)
    (member : f ∈ fs) : fs.find? (·.name == f.name) = some f := by
  obtain ⟨before, later, rfl⟩ := List.append_of_mem member
  refine List.find?_eq_some_iff_append.mpr ⟨beq_self_eq_true _, before, later, rfl, ?_⟩
  intro g first
  rw [List.map_append, List.nodup_append] at distinct
  have other := distinct.2.2 g.name (List.mem_map_of_mem first) f.name (by simp)
  simp [other]

theorem nodup_names_cons {fs : List Func} {f : Func} (distinct : (fs.map Func.name).Nodup)
    (absent : fs.find? (·.name == f.name) = none) : ((f :: fs).map Func.name).Nodup := by
  refine List.nodup_cons.mpr ⟨?_, distinct⟩
  intro listed
  obtain ⟨g, member, same⟩ := List.mem_map.mp listed
  simpa [same] using List.find?_eq_none.mp absent g member

/-- No two functions have one name. -/
def State.NamesFunctions (s : State) : Prop := (s.functions.map Func.name).Nodup

theorem State.NamesFunctions.function? {s : State} (distinct : s.NamesFunctions) {f : Func}
    (member : f ∈ s.functions) : s.function? f.name = some f :=
  find?_of_mem distinct member

theorem State.NamesFunctions.cons {s : State} (distinct : s.NamesFunctions) {f : Func}
    (absent : s.function? f.name = none) :
    { s with functions := f :: s.functions }.NamesFunctions :=
  nodup_names_cons distinct absent

namespace Scope

def names (scope : Scope) : List String := scope.map Prod.fst

theorem names_replace (scope : Scope) (x : String) (v : Value) :
    (scope.replace x v).names = scope.names := by
  induction scope with
  | nil => rfl
  | cons entry rest ih =>
      obtain ⟨y, b⟩ := entry
      unfold replace
      split
      · simp [names]
      · simp only [names, List.map_cons] at ih ⊢
        rw [ih]

theorem not_mem_names {scope : Scope} {x : String} (absent : scope.find? x = none) :
    x ∉ scope.names := by
  intro listed
  obtain ⟨entry, member, rfl⟩ := List.mem_map.mp listed
  simpa using List.lookup_eq_none_iff.mp absent entry member

end Scope

theorem Frame.names_replace (frame : Frame) (x : String) (v : Value) :
    (frame.replace x v).map Scope.names = frame.map Scope.names := by
  induction frame with
  | nil => rfl
  | cons inner outer ih =>
      unfold replace
      split
      · simp [Scope.names_replace]
      · simp [ih]

/-! ## Environments -/

namespace Env

variable {env env' : Env} {x : String} {b : Binding} {v : Value}

/-- The names of every scope. -/
def names (env : Env) : List (List String) := (env.globals :: env.frames.flatten).map Scope.names

/-- No scope has a name twice. -/
def Distinct (env : Env) : Prop := ∀ names ∈ env.names, names.Nodup

theorem Distinct.globals (distinct : env.Distinct) : env.globals.names.Nodup :=
  distinct _ List.mem_cons_self

theorem Distinct.subset (distinct : env.Distinct) (subset : env'.names ⊆ env.names) :
    env'.Distinct :=
  fun names listed => distinct names (subset listed)

theorem Distinct.declare (distinct : env.Distinct) (ok : env.declare x b = .ok env') :
    env'.Distinct := by
  rcases declare_cases ok with ⟨scope, outer, rest, same, absent, rfl⟩ | ⟨_, absent, rfl⟩
  · have new := Scope.not_mem_names absent
    simp only [Distinct, names, same, List.flatten_cons, List.cons_append, List.map_cons,
      List.forall_mem_cons] at distinct ⊢
    exact ⟨distinct.1, List.nodup_cons.mpr ⟨new, distinct.2.1⟩, distinct.2.2⟩
  · have new := Scope.not_mem_names absent
    simp only [Distinct, names, List.map_cons, List.forall_mem_cons] at distinct ⊢
    exact ⟨List.nodup_cons.mpr ⟨new, distinct.1⟩, distinct.2⟩

theorem Distinct.assign (distinct : env.Distinct) (found : env.lookup x = some b)
    (ok : env.assign x v = .ok env') : env'.Distinct := by
  apply distinct.subset
  rcases (assign_cases found ok).2 with ⟨frame, rest, same, _, rfl⟩ | ⟨_, _, rfl⟩
  · simp [names, same, Frame.names_replace]
  · simp [names, Scope.names_replace]

theorem Distinct.enterBlock (distinct : env.Distinct) : env.enterBlock.Distinct := by
  obtain ⟨globals, frames⟩ := env
  cases frames with
  | nil => exact distinct
  | cons frame rest =>
      simp only [Distinct, names, Env.enterBlock, List.flatten_cons, List.cons_append,
        List.map_cons, List.forall_mem_cons] at distinct ⊢
      exact ⟨distinct.1, List.nodup_nil, distinct.2⟩

theorem Distinct.leaveBlock (distinct : env.Distinct) : env.leaveBlock.Distinct := by
  obtain ⟨globals, frames⟩ := env
  cases frames with
  | nil => exact distinct
  | cons frame rest =>
      apply distinct.subset
      cases frame with
      | nil => exact List.Subset.refl _
      | cons scope outer =>
          simp only [names, Env.leaveBlock, List.tail_cons, List.flatten_cons, List.cons_append,
            List.map_cons]
          exact List.cons_subset_cons _ (List.subset_cons_self _ _)

theorem Distinct.enterCall (distinct : env.Distinct) : env.enterCall.Distinct := by
  simp only [Distinct, names, Env.enterCall, List.flatten_cons, List.cons_append, List.nil_append,
    List.map_cons, List.forall_mem_cons] at distinct ⊢
  exact ⟨distinct.1, List.nodup_nil, distinct.2⟩

theorem Distinct.leaveCall (distinct : env.Distinct) : env.leaveCall.Distinct := by
  obtain ⟨globals, frames⟩ := env
  apply distinct.subset
  cases frames with
  | nil => exact List.Subset.refl _
  | cons frame rest =>
      simp only [names, Env.leaveCall, List.tail_cons, List.flatten_cons, List.map_cons,
        List.map_append]
      exact List.cons_subset_cons _ (List.subset_append_right _ _)

end Env

/-! ## Runs -/

/-- Every name is declared once where it is declared. -/
structure State.Distinct (s : State) : Prop where
  functions : s.NamesFunctions
  env : s.env.Distinct

namespace Discipline

/-- Runs of one state in which names are declared once. -/
def distinct : Discipline where
  beside s t := s = t ∧ s.Distinct
  view h := h.1 ▸ .refl _
  emit e h := by
    obtain ⟨rfl, h⟩ := h
    exact .same _ fun _ _ => .same ⟨h.functions, h.env⟩ rfl
  alloc h _ _ := by
    obtain ⟨rfl, h⟩ := h
    exact ⟨.same ⟨h.functions, h.env⟩ rfl, trivial⟩
  set h _ _ _ := by
    obtain ⟨rfl, h⟩ := h
    exact .same ⟨h.functions, h.env⟩ rfl
  declare x h _ _ := by
    obtain ⟨rfl, h⟩ := h
    exact Attempts.same _ fun env ok => .same ⟨h.functions, h.env.declare ok⟩ rfl
  assign h found _ := by
    obtain ⟨rfl, h⟩ := h
    exact Attempts.same _ fun env ok => .same ⟨h.functions, h.env.assign found ok⟩ rfl
  enterBlock h := by
    obtain ⟨rfl, h⟩ := h
    exact ⟨rfl, h.functions, h.env.enterBlock⟩
  leaveBlock h moved := by
    obtain ⟨rfl, h⟩ := h
    obtain ⟨⟨rfl, inside⟩, left, _⟩ := moved
    exact .same ⟨inside.functions, inside.env.leaveBlock⟩ left

theorem closed_distinct : distinct.Closed where
  opens call := {
    room := fun h => .inl (h.1 ▸ ⟨rfl, rfl⟩)
    enter := by
      rintro s t ⟨rfl, h⟩ _ _
      exact ⟨rfl, h.functions, h.env.enterCall⟩
    leave := by
      rintro s t s' t' ⟨rfl, h⟩ _ ⟨⟨rfl, inside⟩, calls, _⟩
      exact .same ⟨inside.functions, inside.env.leaveCall⟩ (congrArg List.tail calls) }
  loads := {
    imports := by
      rintro s t packages ⟨rfl, h⟩
      exact .same ⟨h.functions, h.env⟩ rfl
    function := by
      rintro s t f ⟨rfl, h⟩ _ _ absent
      exact .same ⟨h.functions.cons absent, h.env⟩ rfl }

theorem single_distinct : distinct.Single := ⟨fun h => h.1, id⟩

theorem invariant_distinct (limit : Nat) (sink : Sink) : distinct.Invariant limit sink where
  toClosed := closed_distinct
  single := single_distinct
  callable _ := trivial
  fresh := by
    refine ⟨rfl, List.nodup_nil, ?_⟩
    simp [State.fresh, Env.empty, Env.Distinct, Env.names, Scope.names]

end Discipline

end Treewalk
