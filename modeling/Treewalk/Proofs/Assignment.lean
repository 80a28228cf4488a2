import Treewalk.Proofs.Targets

/-! # What an assignment changes

Every scope of a run has a seat, in whatever call it is. A name means the binding at
the first seat where it has one, in the order in which names are looked up. An
assignment gives this binding another value and leaves everything else at every seat
as it is, also other bindings of the same name.
-/

namespace Treewalk

/-! ## Seats -/

/-- Where a scope is: among the globals, or in a running call. Calls are counted from
    the current one, and blocks from the innermost one. -/
inductive Seat where
  | globals
  | block (call depth : Nat)
  deriving DecidableEq

/-- How many scopes of a frame are inside of the innermost one that binds a name. -/
def Frame.depth? (frame : Frame) (x : String) : Option Nat :=
  frame.findIdx? fun scope => (scope.find? x).isSome

namespace Env

/-- The scope at a seat. -/
def scopeAt? (env : Env) : Seat → Option Scope
  | .globals => some env.globals
  | .block call depth => env.frames[call]?.bind (·[depth]?)

/-- The binding of a name at a seat. -/
def bindingAt? (env : Env) (seat : Seat) (x : String) : Option Binding :=
  (env.scopeAt? seat).bind (·.find? x)

/-- The seat of the binding that a name means. -/
def seat? (env : Env) (x : String) : Option Seat :=
  match env.current.depth? x with
  | some depth => some (.block 0 depth)
  | none => if (env.globals.find? x).isSome then some .globals else none

end Env

/-! ## Frames -/

namespace Frame

theorem depth?_cons (scope : Scope) (outer : Frame) (x : String) :
    Frame.depth? (scope :: outer) x =
      if (scope.find? x).isSome then some 0 else (depth? outer x).map (· + 1) :=
  List.findIdx?_cons

theorem find?_eq_depth? (frame : Frame) (x : String) :
    frame.find? x = (frame.depth? x).bind fun depth => frame[depth]?.bind (·.find? x) := by
  induction frame with
  | nil => rfl
  | cons scope outer ih =>
      rw [find?, depth?_cons]
      cases here : scope.find? x with
      | some b => simp [here]
      | none =>
          simp only [ih, Option.isSome_none, Bool.false_eq_true, if_false, Option.bind_map]
          rfl

/-- Only the innermost scope that binds the name is another one. -/
theorem getElem?_replace (frame : Frame) (x : String) (v : Value) (depth : Nat) :
    (frame.replace x v)[depth]? =
      if frame.depth? x = some depth then frame[depth]?.map (Scope.replace x v)
      else frame[depth]? := by
  induction frame generalizing depth with
  | nil => rfl
  | cons scope outer ih =>
      rw [replace, depth?_cons]
      cases here : scope.find? x with
      | some b => cases depth <;> simp
      | none =>
          cases depth with
          | zero => simp
          | succ depth => by_cases deep : depth? outer x = some depth <;> simp [ih, deep]

theorem exists_of_depth? {frame : Frame} {x : String} {depth : Nat}
    (deep : frame.depth? x = some depth) :
    ∃ scope b, frame[depth]? = some scope ∧ scope.find? x = some b := by
  obtain ⟨inside, binds, _⟩ := List.findIdx?_eq_some_iff_getElem.mp deep
  obtain ⟨b, found⟩ := Option.isSome_iff_exists.mp binds
  exact ⟨_, b, List.getElem?_eq_getElem inside, found⟩

end Frame

namespace Env

variable {env env' : Env} {seat : Seat} {x : String} {v : Value}

theorem bindingAt?_globals (env : Env) (x : String) :
    env.bindingAt? .globals x = env.globals.find? x := rfl

theorem bindingAt?_current (env : Env) (depth : Nat) (x : String) :
    env.bindingAt? (.block 0 depth) x = env.current[depth]?.bind (·.find? x) := by
  obtain ⟨globals, _ | ⟨frame, rest⟩⟩ := env <;> rfl

/-- A lookup finds the binding at the seat of a name. -/
theorem lookup_eq_seat? (env : Env) (x : String) :
    env.lookup x = (env.seat? x).bind (env.bindingAt? · x) := by
  rw [lookup, Frame.find?_eq_depth?, seat?]
  cases deep : env.current.depth? x with
  | none => cases here : env.globals.find? x <;> simp [bindingAt?_globals, here]
  | some depth =>
      obtain ⟨scope, b, inside, found⟩ := Frame.exists_of_depth? deep
      simp [bindingAt?_current, inside, found]

/-- What it is to give another value to what a name means. -/
theorem replace_cases (found : env.seat? x = some seat) (v : Value) :
    (∃ frame rest depth, env.frames = frame :: rest ∧ frame.depth? x = some depth ∧
      seat = .block 0 depth ∧ env.replace x v = { env with frames := frame.replace x v :: rest }) ∨
    (seat = .globals ∧ env.replace x v = { env with globals := env.globals.replace x v }) := by
  rw [seat?] at found
  cases deep : env.current.depth? x with
  | none =>
      have absent : env.current.find? x = none := by simp [Frame.find?_eq_depth?, deep]
      simp only [deep, Option.ite_none_right_eq_some, Option.some.injEq] at found
      exact .inr ⟨found.2.symm, by simp [replace, absent]⟩
  | some depth =>
      obtain ⟨scope, b, inside, here⟩ := Frame.exists_of_depth? deep
      have present : (env.current.find? x).isSome := by
        simp [Frame.find?_eq_depth?, deep, inside, here]
      obtain ⟨globals, _ | ⟨frame, rest⟩⟩ := env
      · cases inside
      · simp only [deep, Option.some.injEq] at found
        exact .inl ⟨frame, rest, depth, rfl, deep, found.symm, if_pos present⟩

/-- Another value for what a name means is another value at its seat, and nothing else
    anywhere. -/
theorem bindingAt?_replace (found : env.seat? x = some seat) (v : Value) (seat' : Seat)
    (y : String) :
    (env.replace x v).bindingAt? seat' y =
      if seat' = seat ∧ y = x then (env.bindingAt? seat x).map fun b => { b with value := v }
      else env.bindingAt? seat' y := by
  rcases replace_cases found v with ⟨frame, rest, depth, frames, deep, rfl, same⟩ | ⟨rfl, same⟩
  · rw [same]
    -- of the seats only those of the current call can be the one
    rcases seat' with _ | ⟨_ | call, depth'⟩
    · simp [bindingAt?, scopeAt?]
    · simp only [bindingAt?, scopeAt?, List.getElem?_cons_zero, Option.bind_some, frames,
        Frame.getElem?_replace, deep]
      by_cases here : depth' = depth
      · subst here
        cases frame[depth']? <;> simp [Scope.find?_replace]
      · simp [here, Ne.symm here]
    · simp [bindingAt?, scopeAt?, frames]
  · rw [same]
    cases seat' with
    | globals => simp [bindingAt?_globals, Scope.find?_replace]
    | block call depth => simp [bindingAt?, scopeAt?]

theorem assign_eq_ok_iff : env.assign x v = .ok env' ↔
    (∃ b, env.lookup x = some b ∧ b.role = .variable) ∧ env' = env.replace x v := by
  rw [assign_eq]
  cases found : env.lookup x with
  | none => simp
  | some b =>
      by_cases role : b.role = .variable
      · simp [role, eq_comm]
      · simp [role]

end Env

/-! ## Failures -/

theorem Place.write_var_error {x : String} {v : Value} {untyped : Bool} {s t : State} {e : RunError}
    (failed : (Place.var x).write v untyped s = .error e t) : t = s := by
  rw [Place.write, Effect.get_bind] at failed
  cases found : s.env.lookup x with
  | none =>
      rw [found] at failed
      cases failed
      rfl
  | some b =>
      rw [found] at failed
      rcases Effect.bind_eq_error.mp failed with refused | ⟨w, s₁, conforms, rest⟩
      · rw [Effect.conform, Effect.get_bind] at refused
        exact (ofExcept_eq_error refused).2
      · rw [Effect.conform, Effect.get_bind] at conforms
        obtain ⟨_, rfl⟩ := Effect.ofExcept_eq_ok.mp conforms
        rw [Effect.get_bind] at rest
        rcases Effect.bind_eq_error.mp rest with refused | ⟨env, s₂, _, done⟩
        · exact (ofExcept_eq_error refused).2
        · cases done

/-- A variable can be assigned to exactly if a lookup finds it. Its binding gets the
    value and keeps all else, and every other binding of every scope stays as it is. An
    assignment or a declaration that fails changes nothing. -/
theorem assign_updates_found (env : Env) (x : String) (v : Value) :
    ((∃ env', env.assign x v = .ok env') ↔ ∃ b, env.lookup x = some b ∧ b.role = .variable) ∧
    (∀ env', env.assign x v = .ok env' → ∃ b seat, env.lookup x = some b ∧
      env.seat? x = some seat ∧ env.bindingAt? seat x = some b ∧
      env'.lookup x = some { b with value := v } ∧ env'.scopes = env.scopes ∧
      ∀ seat' y, env'.bindingAt? seat' y =
        if seat' = seat ∧ y = x then some { b with value := v } else env.bindingAt? seat' y) ∧
    ∀ (s t : State) (e : RunError), s.env = env →
      (∀ w untyped, (Place.var x).write w untyped s = .error e t → t = s) ∧
      (∀ b, Effect.declare x b s = .error e t → t = s) := by
  refine ⟨by simp [Env.assign_eq_ok_iff], ?_, ?_⟩
  · intro env' ok
    obtain ⟨⟨b, found, role⟩, same⟩ := Env.assign_eq_ok_iff.mp ok
    obtain ⟨seat, placed, bound⟩ : ∃ seat, env.seat? x = some seat ∧
        env.bindingAt? seat x = some b := by
      rwa [Env.lookup_eq_seat?, Option.bind_eq_some_iff] at found
    refine ⟨b, seat, found, placed, bound, ?_, Env.scopes_assign found ok, ?_⟩
    · obtain ⟨site, means⟩ := Env.exists_means found
      obtain ⟨env'', ok', means'⟩ := means.assign role v
      cases ok.symm.trans ok'
      exact means'.lookup
    · intro seat' y
      rw [same, Env.bindingAt?_replace placed, bound, Option.map_some]
  · rintro s t e rfl
    exact ⟨fun w untyped failed => Place.write_var_error failed, fun b failed => declare_error failed⟩

/-- A variable with some value. -/
def counter (n : Int32) : Binding := ⟨.int n, .int, .variable⟩

/-- A global that is hidden by two variables of the current call, in a block without
    names of its own, and a variable of the same name in the caller. -/
def hiddenTwice : Env :=
  ⟨[("n", counter 1)], [[[], [("n", counter 3)], [("n", counter 2)]], [[("n", counter 9)]]]⟩

/-- Only the innermost of five scopes that has the name gets the value. -/
theorem assign_updates_found_hiddenTwice :
    ∃ env, hiddenTwice.assign "n" (.int 7) = .ok env ∧ env.lookup "n" = some (counter 7) ∧
      env.bindingAt? (.block 0 1) "n" = some (counter 7) ∧
      env.bindingAt? (.block 0 2) "n" = some (counter 2) ∧
      env.bindingAt? (.block 1 0) "n" = some (counter 9) ∧
      env.bindingAt? .globals "n" = some (counter 1) := by
  obtain ⟨succeeds, changes, _⟩ := assign_updates_found hiddenTwice "n" (.int 7)
  obtain ⟨env, ok⟩ := succeeds.mpr ⟨counter 3, by decide, rfl⟩
  obtain ⟨b, seat, found, placed, _, now, _, elsewhere⟩ := changes env ok
  obtain rfl : counter 3 = b := Option.some.inj ((by decide : some (counter 3) = _).trans found)
  obtain rfl : .block 0 1 = seat := Option.some.inj ((by decide : some _ = _).trans placed)
  refine ⟨env, ok, now, ?_⟩
  simp only [elsewhere]
  decide

end Treewalk
