import Treewalk.Proofs.Constants
import Treewalk.Proofs.History

/-! # Targets stay valid

An assignment finds its target first, evaluates its value then, and looks the
target up once more to write it. In between whole functions can run. None of them
removes, hides or freezes the binding that was found, so all that can go wrong
after the value is known is arithmetic, a value that does not fit, and an index
outside of its array; and then nothing is written.
-/

namespace Treewalk

open Effect

/-! ## Where a binding stands -/

/-- The number of a scope, the innermost one being the first, and of an entry in it. -/
structure Site where
  scope : Nat
  entry : Nat
  deriving DecidableEq

namespace Scope

variable {scope : Scope} {x : String} {b : Binding}

theorem slot_of_find? (found : scope.find? x = some b) :
    ∃ i, scope.names.idxOf? x = some i ∧ scope[i]? = some (x, b) := by
  induction scope with
  | nil => cases found
  | cons entry rest ih =>
      obtain ⟨y, c⟩ := entry
      rw [find?_cons] at found
      split at found
      · rename_i same
        cases found
        exact ⟨0, by simp [names, List.idxOf?_cons, same], by simp [same]⟩
      · rename_i other
        obtain ⟨i, named, stands⟩ := ih found
        refine ⟨i + 1, ?_, by simpa using stands⟩
        rw [names] at named
        simp [names, List.idxOf?_cons, Ne.symm other, named]

end Scope

namespace Frame

/-- Where the innermost entry of a name stands. -/
def site? (x : String) : Frame → Option Site
  | [] => none
  | scope :: outer =>
      match scope.names.idxOf? x with
      | some i => some ⟨0, i⟩
      | none => (site? x outer).map fun site => { site with scope := site.scope + 1 }

/-- What stands somewhere. -/
def entry? (frame : Frame) (site : Site) : Option (String × Binding) :=
  frame[site.scope]?.bind (·[site.entry]?)

variable {frame frame' : Frame} {x : String} {b : Binding}

theorem site_of_find? (found : frame.find? x = some b) :
    ∃ site, frame.site? x = some site ∧ frame.entry? site = some (x, b) := by
  induction frame with
  | nil => cases found
  | cons scope outer ih =>
      rw [find?, Option.or_eq_some_iff] at found
      rcases found with here | ⟨absent, deeper⟩
      · obtain ⟨i, named, stands⟩ := Scope.slot_of_find? here
        exact ⟨⟨0, i⟩, by rw [site?, named], stands⟩
      · obtain ⟨site, first, stands⟩ := ih deeper
        have unnamed := List.idxOf?_eq_none_iff.mpr (Scope.not_mem_names absent)
        exact ⟨{ site with scope := site.scope + 1 }, by rw [site?, unnamed, first]; rfl, stands⟩

theorem site?_eq_none (absent : frame.find? x = none) : frame.site? x = none := by
  induction frame with
  | nil => rfl
  | cons scope outer ih =>
      rw [find?, Option.or_eq_none_iff] at absent
      have unnamed := List.idxOf?_eq_none_iff.mpr (Scope.not_mem_names absent.1)
      rw [site?, unnamed, ih absent.2]
      rfl

/-- Only names count for where an entry stands. -/
theorem site?_of_names (same : frame'.map Scope.names = frame.map Scope.names) :
    frame'.site? x = frame.site? x := by
  induction frame generalizing frame' with
  | nil => rw [List.map_eq_nil_iff.mp same]
  | cons scope outer ih =>
      obtain ⟨scope', outer', rfl, first, others⟩ := List.map_eq_cons_iff.mp same
      rw [site?, site?, first, ih others]

theorem find?_append (frame frame' : Frame) (x : String) :
    Frame.find? (frame ++ frame') x = (frame.find? x).or (frame'.find? x) := by
  induction frame with
  | nil => rfl
  | cons scope outer ih => rw [List.cons_append, find?, find?, ih, Option.or_assoc]

theorem find?_replace (frame : Frame) (x : String) (v : Value) :
    (frame.replace x v).find? x = (frame.find? x).map fun b => { b with value := v } := by
  induction frame with
  | nil => rfl
  | cons scope outer ih =>
      unfold replace
      cases here : scope.find? x with
      | some b => simp [find?, here, Scope.find?_replace]
      | none => simp [find?, here, ih]

end Frame

namespace Env

variable {env env' : Env} {x : String} {site : Site} {b : Binding}

/-- The scopes that a name is looked up in, one after the other. -/
def visible (env : Env) : Frame := env.current ++ [env.globals]

/-- A name means a binding that stands somewhere among the visible scopes. -/
structure Means (env : Env) (x : String) (site : Site) (b : Binding) : Prop where
  first : env.visible.site? x = some site
  entry : env.visible.entry? site = some (x, b)

theorem find?_visible (env : Env) (x : String) : env.visible.find? x = env.lookup x := by
  rw [visible, Frame.find?_append, lookup, Frame.find?, Frame.find?, Option.or_none]

theorem exists_means (found : env.lookup x = some b) : ∃ site, env.Means x site b := by
  rw [← find?_visible] at found
  obtain ⟨site, first, stands⟩ := Frame.site_of_find? found
  exact ⟨site, first, stands⟩

theorem Means.lookup (means : env.Means x site b) : env.lookup x = some b := by
  cases found : env.lookup x with
  | none =>
      rw [← find?_visible] at found
      have nowhere := means.first
      rw [Frame.site?_eq_none found] at nowhere
      cases nowhere
  | some c =>
      obtain ⟨site', means'⟩ := exists_means found
      obtain rfl := Option.some.inj (means'.first.symm.trans means.first)
      have same := means'.entry.symm.trans means.entry
      simp only [Option.some.injEq, Prod.mk.injEq, true_and] at same
      rw [same]

/-- What a name means stands where it stood if the names are the same. -/
theorem Means.renew {c : Binding} (means : env.Means x site b)
    (names : env'.visible.map Scope.names = env.visible.map Scope.names)
    (found : env'.lookup x = some c) : env'.Means x site c := by
  obtain ⟨site', means'⟩ := exists_means found
  have same := means'.first
  rw [Frame.site?_of_names names, means.first] at same
  obtain rfl := Option.some.inj same
  exact means'

theorem lookup_fixed (frames : env'.frames = env.frames)
    (globals : env'.globals.fixed = env.globals.fixed) (x : String) :
    (env'.lookup x).map Binding.fixed = (env.lookup x).map Binding.fixed := by
  rw [lookup, lookup, current, current, frames, Option.map_or, Option.map_or,
    ← Scope.lookup_fixed, ← Scope.lookup_fixed env.globals, globals]

/-- Where frames stay and globals keep their declarations, a name means the
    binding that it meant; and a local one has the value that it had. -/
theorem Means.kept (means : env.Means x site b) (frames : env'.frames = env.frames)
    (globals : env'.globals.fixed = env.globals.fixed) :
    ∃ c, env'.Means x site c ∧ b.Keeps c ∧ (site.scope < env.current.length → c = b) := by
  have current : env'.current = env.current := by rw [current, current, frames]
  have names : env'.globals.names = env.globals.names := by
    rw [← Scope.map_fst_fixed, globals, Scope.map_fst_fixed]
  have later := lookup_fixed frames globals x
  rw [means.lookup, Option.map_some, Option.map_eq_some_iff] at later
  obtain ⟨c, found, fixed⟩ := later
  have means' : env'.Means x site c := by
    apply means.renew _ found
    simp only [visible, current, List.map_append, List.map_cons, names]
  refine ⟨c, means', Binding.keeps_of_fixed fixed, ?_⟩
  intro here
  have old := means.entry
  have new := means'.entry
  rw [visible, Frame.entry?, List.getElem?_append_left here] at old
  rw [visible, Frame.entry?, current, List.getElem?_append_left here, old] at new
  simpa using new.symm

/-- A variable can be assigned to, and it is its binding that gets the value. -/
theorem Means.assign (means : env.Means x site b) (role : b.role = .variable) (v : Value) :
    ∃ env', env.assign x v = .ok env' ∧ env'.Means x site { b with value := v } := by
  have found := means.lookup
  obtain ⟨env', ok⟩ : ∃ env', env.assign x v = .ok env' := by
    rw [Env.assign_eq, found]
    exact ⟨_, if_neg (not_not.mpr role)⟩
  refine ⟨env', ok, ?_⟩
  -- In the current frame or among the globals, the names stay as they are.
  rcases (assign_cases found ok).2 with ⟨frame, rest, same, here, rfl⟩ | ⟨absent, global, rfl⟩
  · apply means.renew
    · simp [visible, current, same, Frame.names_replace]
    · simp [Env.lookup, current, Frame.find?_replace, here]
  · apply means.renew
    · simp [visible, current, Scope.names_replace]
    · rw [current] at absent
      simp [Env.lookup, current, absent, Scope.find?_replace, global]

end Env

/-! ## Faults -/

/-- Faults of arithmetic. -/
inductive Fault.OfArith (op : ArithOp) : Fault → Prop where
  | division : op = .div ∨ op = .rem → OfArith op .divisionByZero
  | undefined (kind : Kind) : OfArith op (.notDefined op.text kind)
  | mismatched {left right : Kind} : left ≠ right →
      OfArith op (.mismatchedOperands left right (.arith op))

/-- Faults of storing a value in a target of a type. -/
inductive Fault.OfStore (ty : Ty) (target : String) : Fault → Prop where
  | bool : OfStore ty target (.boolStored target)
  | void : OfStore ty target (.voidStored target)
  | misfit {kind : Kind} : kind ≠ .data ty → OfStore ty target (.cannotStore kind ty target)

/-- Why a place is not written although it is known what with. -/
inductive Place.Refuses (s : State) (op : Option ArithOp) : Place → Fault → Prop where
  | arith {place : Place} {op' : ArithOp} {fault : Fault} :
      op = some op' → fault.OfArith op' → Refuses s op place fault
  | var {x : String} {b : Binding} {fault : Fault} :
      s.env.lookup x = some b → fault.OfStore b.ty x → Refuses s op (.var x) fault
  | cell {h : Handle} {i : Int} {fault : Fault} :
      fault.OfStore (s.heap.store h).elem "array element" → Refuses s op (.cell h i) fault
  | index {h : Handle} {i : Int} : ¬ (0 ≤ i ∧ i < (s.heap.store h).cells.size) →
      Refuses s op (.cell h i) (.indexOutOfRange i (s.heap.store h).cells.size)

namespace Heap

variable {heap : Heap} {fault : Fault}

theorem ofArith_misfits (op : ArithOp) (a b : Value) :
    (heap.misfits (.arith op) a b).OfArith op := by
  unfold misfits
  split
  · exact .undefined _
  · exact .mismatched ‹_›

theorem ofArith_of_error {op : ArithOp} {a b : Value} (failed : heap.arith op a b = .error fault) :
    fault.OfArith op := by
  unfold arith at failed
  split at failed
  · cases op with
    | add | sub | mul => cases failed
    | div =>
        simp only [ArithOp.onInt] at failed
        split at failed <;> cases failed
        exact .division (.inl rfl)
    | rem =>
        simp only [ArithOp.onInt] at failed
        split at failed <;> cases failed
        exact .division (.inr rfl)
  · cases op with
    | add | sub | mul | div => cases failed
    | rem =>
        cases failed
        exact .undefined _
  · cases failed
    exact ofArith_misfits _ _ _

theorem ofStore_of_error {ty : Ty} {v : Value} {untyped : Bool} {target : String}
    (failed : heap.conform ty v untyped target = .error fault) : fault.OfStore ty target := by
  unfold conform at failed
  cases v with
  | bool b =>
      cases failed
      exact .bool
  | unit =>
      cases failed
      exact .void
  | int n =>
      dsimp only at failed
      split at failed
      · cases failed
      · rename_i other
        split at failed <;> cases failed
        exact .misfit (by simpa [kind] using Ne.symm other)
  | float x =>
      dsimp only at failed
      split at failed <;> cases failed
      rename_i other
      exact .misfit (by simpa [kind] using Ne.symm other)
  | array h =>
      dsimp only at failed
      split at failed <;> cases failed
      rename_i other
      exact .misfit (by simpa [kind] using other)

end Heap

/-! ## Variables that can be written -/

/-- A name that means a variable, with what comes of reading and writing it. -/
structure State.Writable (s : State) (x : String) (site : Site) (b : Binding) : Prop where
  means : s.env.Means x site b
  role : b.role = .variable
  read : (Place.var x).read s = .ok b.value s
  assign : ∀ v, ∃ env, s.env.assign x v = .ok env ∧ env.Means x site { b with value := v }
  write : ∀ w untyped v, s.heap.conform b.ty w untyped x = .ok v →
    ∃ env, s.env.assign x v = .ok env ∧ (Place.var x).write w untyped s = .ok () { s with env }
  refuse : ∀ w untyped fault, s.heap.conform b.ty w untyped x = .error fault →
    fault.OfStore b.ty x ∧ (Place.var x).write w untyped s = .error ⟨fault, none⟩ s

theorem Env.Means.writable {s : State} {x : String} {site : Site} {b : Binding}
    (means : s.env.Means x site b) (role : b.role = .variable) : s.Writable x site b where
  means := means
  role := role
  read := by
    rw [Place.read, get_bind, means.lookup]
    rfl
  assign := means.assign role
  write := by
    intro w untyped v conforms
    obtain ⟨env, ok, _⟩ := means.assign role v
    refine ⟨env, ok, ?_⟩
    rw [Place.write, get_bind, means.lookup]
    dsimp only
    rw [Effect.conform, bind_congr (get_bind _ s), conforms]
    exact (bind_ok (ofExcept_eq_ok.mpr ⟨ok, rfl⟩)).trans rfl
  refuse := by
    intro w untyped fault misfits
    refine ⟨Heap.ofStore_of_error misfits, ?_⟩
    rw [Place.write, get_bind, means.lookup]
    dsimp only
    rw [Effect.conform, bind_congr (get_bind _ s), misfits]
    rfl

/-! ## Statements that fail -/

section Failures

variable {α : Type} {s t : State} {err : RunError} {place : Place} {op : Option ArithOp}

theorem ofExcept_eq_error {r : Except Fault α} (failed : ofExcept r s = .error err t) :
    r = .error err.fault ∧ t = s := by
  cases r with
  | ok a => cases failed
  | error fault =>
      cases failed
      exact ⟨rfl, rfl⟩

theorem located_fault {x : Effect α} {pos : Pos} (failed : located pos x s = .error err t) :
    ∃ err', x s = .error err' t ∧ err'.fault = err.fault := by
  unfold located at failed
  cases ran : x s with
  | ok a u =>
      rw [ran] at failed
      cases failed
  | error err' u =>
      rw [ran] at failed
      cases failed
      exact ⟨err', rfl, rfl⟩

theorem refuses_arith {op' : ArithOp} {a b : Value} (same : op = some op')
    (failed : arith op' a b s = .error err t) : t = s ∧ place.Refuses s op err.fault := by
  rw [arith, get_bind] at failed
  obtain ⟨fault, rfl⟩ := ofExcept_eq_error failed
  exact ⟨rfl, .arith same (Heap.ofArith_of_error fault)⟩

/-- Where the last of two checks cannot fail, the first one has. -/
theorem error_of_bind_pure {β : Type} {r : Except Fault α} {f : α → β} {fault : Fault}
    (failed : (r >>= fun a => pure (f a)) = .error fault) : r = .error fault := by
  cases r with
  | ok a => cases failed
  | error fault' =>
      cases failed
      rfl

theorem refuses_slot {h : Handle} {i : Int} {fault : Fault}
    (failed : (s.heap.store h).slot i = .error fault) : (Place.cell h i).Refuses s op fault := by
  unfold Store.slot at failed
  split at failed <;> cases failed
  rename_i outside
  exact .index (by simpa using outside)

/-- A place of which only its own name or cell can tell whether it is written. -/
def Place.Stands (s : State) (place : Place) : Prop :=
  ∀ x, place = .var x → ∃ site b, s.Writable x site b

theorem refuses_read (stands : place.Stands s) (failed : place.read s = .error err t) :
    t = s ∧ place.Refuses s op err.fault := by
  cases place with
  | var x =>
      obtain ⟨site, b, writable⟩ := stands x rfl
      rw [writable.read] at failed
      cases failed
  | cell h i =>
      rw [Place.read, get_bind] at failed
      obtain ⟨fault, rfl⟩ := ofExcept_eq_error failed
      exact ⟨rfl, refuses_slot (error_of_bind_pure fault)⟩

theorem refuses_write {v : Value} {untyped : Bool} (stands : place.Stands s)
    (failed : place.write v untyped s = .error err t) : t = s ∧ place.Refuses s op err.fault := by
  cases place with
  | var x =>
      obtain ⟨site, b, writable⟩ := stands x rfl
      cases conforms : s.heap.conform b.ty v untyped x with
      | ok w =>
          obtain ⟨env, _, written⟩ := writable.write v untyped w conforms
          rw [written] at failed
          cases failed
      | error fault =>
          obtain ⟨store, refused⟩ := writable.refuse v untyped fault conforms
          rw [refused] at failed
          cases failed
          exact ⟨rfl, .var writable.means.lookup store⟩
  | cell h i =>
      rw [Place.write, get_bind] at failed
      rcases bind_eq_error.mp failed with refused | ⟨w, s₁, conforms, rest⟩
      · rw [Effect.conform, get_bind] at refused
        obtain ⟨fault, rfl⟩ := ofExcept_eq_error refused
        exact ⟨rfl, .cell (Heap.ofStore_of_error fault)⟩
      · rw [Effect.conform, get_bind] at conforms
        obtain ⟨_, rfl⟩ := ofExcept_eq_ok.mp conforms
        rw [get_bind] at rest
        rcases bind_eq_error.mp rest with refused | ⟨heap, s₂, _, done⟩
        · obtain ⟨fault, rfl⟩ := ofExcept_eq_error refused
          exact ⟨rfl, refuses_slot (error_of_bind_pure fault)⟩
        · cases done

/-- Once the value of an assignment is known, it fails without a trace, and only
    by arithmetic, at the store or at the index. -/
theorem refuses_assign {eval : Expr → Effect Value} {target e : Expr} {v : Value} {s₁ s₂ : State}
    (aimed : target.place eval s = .ok place s₁) (value : eval e s₁ = .ok v s₂)
    (stands : place.Stands s₂) (failed : assign eval target op e s = .error err t) :
    t = s₂ ∧ place.Refuses s₂ op err.fault := by
  rw [assign, bind_ok aimed, bind_ok value] at failed
  -- From here on nothing is evaluated: only the last step, the write, changes the state.
  cases op with
  | none =>
      dsimp only at failed
      rw [bind_ok (s₂.isUntyped_eq e)] at failed
      exact refuses_write stands failed
  | some op =>
      rcases bind_eq_error.mp failed with unread | ⟨old, s₃, read, rest⟩
      · exact refuses_read stands unread
      · obtain rfl := read_eq_ok read
        obtain ⟨ty, ty', balances⟩ := exists_balanced_fitted target e old v s₃
        rw [bind_ok balances] at rest
        rcases bind_eq_error.mp rest with undone | ⟨w, s₄, outcome, unwritten⟩
        · obtain ⟨err', undone, fault⟩ := located_fault undone
          rw [← fault]
          exact refuses_arith rfl undone
        · obtain rfl := arith_eq_ok (located_eq_ok.mp outcome)
          exact refuses_write stands unwritten

theorem refuses_bump {eval : Expr → Effect Value} {target : Expr} {up : Bool} {s₁ : State}
    (aimed : target.place eval s = .ok place s₁) (stands : place.Stands s₁)
    (failed : bump eval target up s = .error err t) :
    t = s₁ ∧ place.Refuses s₁ (some (if up then .add else .sub)) err.fault := by
  rw [bump, bind_ok aimed] at failed
  rcases bind_eq_error.mp failed with unread | ⟨old, s₂, read, rest⟩
  · exact refuses_read stands unread
  · obtain rfl := read_eq_ok read
    rcases bind_eq_error.mp rest with undone | ⟨w, s₃, outcome, unwritten⟩
    · exact refuses_arith rfl undone
    · obtain rfl := arith_eq_ok outcome
      exact refuses_write stands unwritten

end Failures

/-! ## Reachable states -/

theorem Expr.place_eq_var {eval : Expr → Effect Value} {target : Expr} {x : String} {s t : State}
    (aimed : target.place eval s = .ok (.var x) t) :
    t = s ∧ ∃ b, s.env.lookup x = some b ∧ b.role = .variable := by
  cases target with
  | name pos y =>
      rw [Expr.place, get_bind] at aimed
      cases found : s.env.lookup y with
      | none =>
          rw [found] at aimed
          cases aimed
      | some b =>
          rw [found] at aimed
          dsimp only at aimed
          split at aimed
          · rename_i role
            obtain ⟨same, rfl⟩ := pure_eq_ok.mp aimed
            cases same
            exact ⟨rfl, b, found, role⟩
          · cases aimed
  | index pos a i =>
      obtain ⟨h, s₁, _, rest⟩ := bind_eq_ok.mp aimed
      obtain ⟨n, s₂, _, done⟩ := bind_eq_ok.mp rest
      cases (pure_eq_ok.mp done).1
  | int | float | bool | str | unary | binary | convert | call | print => cases aimed

/-- Whatever an expression runs, a variable is as writable after it as before. -/
theorem State.Writable.eval {s t : State} {x : String} {site : Site} {b : Binding} {e : Expr}
    {v : Value} (writable : s.Writable x site b) (full : ∀ frame ∈ s.env.frames, frame ≠ [])
    (ok : e.eval callFunction s = .ok v t) :
    t.env.frames = s.env.frames ∧ ∃ c, t.Writable x site c ∧ c.ty = b.ty ∧
      (site.scope < s.env.current.length → c = b) := by
  have met := Discipline.closed_scoping.self (p := .expr e) ⟨rfl, full⟩ fun _ _ => trivial
  obtain ⟨_, ⟨frames, globals, _⟩, _⟩ :=
    Discipline.Lockstep.kept Discipline.single_scoping met ok
  obtain ⟨c, means, keeps, unchanged⟩ := writable.means.kept frames globals
  exact ⟨frames, c, means.writable (keeps.role.trans writable.role), keeps.ty, unchanged⟩

/-- A target that turns out to be a variable is one and stays one. -/
theorem Expr.writable_of_place {target : Expr} {x : String} {s s₁ : State}
    (full : ∀ frame ∈ s.env.frames, frame ≠ [])
    (aimed : target.place (Expr.eval callFunction) s = .ok (.var x) s₁) :
    ∃ site b, s₁.Writable x site b ∧
      ∀ (e : Expr) v s₂, e.eval callFunction s₁ = .ok v s₂ →
        s₂.env.frames = s₁.env.frames ∧ ∃ c, s₂.Writable x site c ∧ c.ty = b.ty ∧
          (site.scope < s₁.env.current.length → c = b) := by
  obtain ⟨rfl, b, found, role⟩ := Expr.place_eq_var aimed
  obtain ⟨site, means⟩ := Env.exists_means found
  have writable := means.writable role
  exact ⟨site, b, writable, fun e v s₂ ok => writable.eval full ok⟩

/-- Wherever a run is, at package level or in a call: if the target of an
    assignment turns out to be a variable, then its name means the same binding
    after the value has been evaluated, whatever that has called and changed. It
    is a variable of the type that it had, it can be read and assigned to, and a
    write fails only if the value does not fit. Of whatever kind the target is,
    once its place and the value are known the statement fails only by arithmetic,
    at the store or at an index out of range, and it leaves the state as the value
    has left it. -/
theorem target_stays_valid {limit : Nat} {sink : Sink} {s : State}
    (reachable : Reachable limit sink s) (target : Expr) :
    (∀ x s₁, target.place (Expr.eval callFunction) s = .ok (.var x) s₁ →
      ∃ site b, s₁.Writable x site b ∧
        ∀ (e : Expr) v s₂, e.eval callFunction s₁ = .ok v s₂ →
          s₂.env.frames = s₁.env.frames ∧ ∃ c, s₂.Writable x site c ∧ c.ty = b.ty ∧
            (site.scope < s₁.env.current.length → c = b)) ∧
    (∀ place s₁, target.place (Expr.eval callFunction) s = .ok place s₁ →
      (∀ op e v s₂ pos err t, e.eval callFunction s₁ = .ok v s₂ →
        (Stmt.assign pos target op e).exec callFunction s = .error err t →
        t = s₂ ∧ place.Refuses s₂ op err.fault) ∧
      ∀ up pos err t, (Stmt.bump pos target up).exec callFunction s = .error err t →
        t = s₁ ∧ place.Refuses s₁ (some (if up then .add else .sub)) err.fault) := by
  have full := ((Discipline.invariant_scoping limit sink).reachable reachable).2
  refine ⟨fun x s₁ aimed => Expr.writable_of_place full aimed, ?_⟩
  intro place s₁ aimed
  constructor
  · intro op e v s₂ pos err t value failed
    rw [Stmt.exec] at failed
    obtain ⟨err', failed, fault⟩ := located_fault failed
    rw [← fault]
    rcases bind_eq_error.mp failed with failed | ⟨_, _, _, done⟩
    · apply refuses_assign aimed value _ failed
      rintro x rfl
      obtain ⟨site, b, _, later⟩ := Expr.writable_of_place full aimed
      obtain ⟨_, c, writable, _⟩ := later e v s₂ value
      exact ⟨site, c, writable⟩
    · cases done
  · intro up pos err t failed
    rw [Stmt.exec] at failed
    obtain ⟨err', failed, fault⟩ := located_fault failed
    rw [← fault]
    rcases bind_eq_error.mp failed with failed | ⟨_, _, _, done⟩
    · apply refuses_bump aimed _ failed
      rintro x rfl
      obtain ⟨site, b, writable, _⟩ := Expr.writable_of_place full aimed
      exact ⟨site, b, writable⟩
    · cases done

/-- A function that writes to a global and gives back zero. -/
def spoil : Func :=
  ⟨⟨2, 1⟩, "spoil", [], some .int, [.assign ⟨3, 1⟩ (.name ⟨3, 1⟩ "total") none (.int ⟨3, 9⟩ 7),
    .return_ ⟨4, 1⟩ (some (.int ⟨4, 8⟩ 0))]⟩

/-- Divide the global by what `spoil` gives back. -/
def divideTotal : Stmt :=
  .assign ⟨6, 1⟩ (.name ⟨6, 1⟩ "total") (some .div) (.call ⟨6, 10⟩ "spoil" [])

def spoilMain : Func := ⟨⟨5, 1⟩, "main", [], none, [divideTotal]⟩

def spoilProgram : Program :=
  ⟨"main", [], [.stmt (.var ⟨1, 1⟩ "total" (some .int) none), .func spoil, .func spoilMain]⟩

/-- In the call of `main`, with some number in the global. -/
def spoilState (total : Int32) : State :=
  { State.fresh 5 .silent with
    functions := [spoilMain, spoil]
    env := ⟨[("total", ⟨.int total, .int, .variable⟩)], [[[]]]⟩
    calls := [⟨"main", ⟨0, 0⟩, none⟩] }

/-- The call changes the very variable that is to be divided. The division fails,
    and the variable keeps what the call has put there. -/
theorem target_stays_valid_spoil :
    Reachable 5 .silent (spoilState 0) ∧
    (Expr.name ⟨6, 1⟩ "total").place (Expr.eval callFunction) (spoilState 0) =
      .ok (.var "total") (spoilState 0) ∧
    (Expr.call ⟨6, 10⟩ "spoil" []).eval callFunction (spoilState 0) =
      .ok (.int 0) (spoilState 7) ∧
    (∃ c, (spoilState 7).Writable "total" ⟨1, 0⟩ c ∧ c.ty = .int) ∧
    (divideTotal.exec callFunction).after (spoilState 0) = spoilState 7 ∧
    (Place.var "total").Refuses (spoilState 7) (some .div) .divisionByZero := by
  have started : Session 5 .silent (.fresh 5 .silent) := .fresh
  have loaded : spoilProgram.load (.fresh 5 .silent) = .ok () (spoilState 0).leaveCall := by
    with_unfolding_all rfl
  have called : Visited 5 .silent (.call spoilMain [] ⟨0, 0⟩) (spoilState 0).leaveCall :=
    .enter (.run spoilProgram started) (.main loaded rfl rfl rfl)
  have dividing : Visited 5 .silent (.stmt divideTotal) (spoilState 0) :=
    called.enter (.body (by decide) rfl rfl)
  have reachable : Reachable 5 .silent (spoilState 0) := ⟨_, _, dividing, .inl rfl⟩
  have aimed : (Expr.name ⟨6, 1⟩ "total").place (Expr.eval callFunction) (spoilState 0) =
      .ok (.var "total") (spoilState 0) := rfl
  have value : (Expr.call ⟨6, 10⟩ "spoil" []).eval callFunction (spoilState 0) =
      .ok (.int 0) (spoilState 7) := by with_unfolding_all rfl
  have failed : divideTotal.exec callFunction (spoilState 0) =
      .error ⟨.divisionByZero, some ⟨6, 10⟩⟩ (spoilState 7) := by with_unfolding_all rfl
  obtain ⟨stays, fails⟩ := target_stays_valid reachable (.name ⟨6, 1⟩ "total")
  obtain ⟨site, b, before, later⟩ := stays "total" _ aimed
  obtain ⟨_, c, writable, ty, _⟩ := later _ _ _ value
  obtain ⟨_, refuses⟩ := (fails _ _ aimed).1 _ _ _ _ _ _ _ value failed
  have stands : site = ⟨1, 0⟩ := Option.some.inj (before.means.first.symm.trans rfl)
  have bound : b = ⟨.int 0, .int, .variable⟩ :=
    Option.some.inj (before.means.lookup.symm.trans rfl)
  subst stands bound
  exact ⟨reachable, aimed, value, ⟨c, writable, ty⟩, after_of_error failed, refuses⟩

end Treewalk
