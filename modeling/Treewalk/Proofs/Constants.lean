import Treewalk.Proofs.Updates

/-! # Constants without a type

A whole-number constant without a type fits where a number with a fraction is
wanted. What is flagged as such a constant is a whole number in all states, so
expressions made of them change nothing and give whole numbers; and nothing else
is ever converted without being asked to.
-/

namespace Treewalk

open Effect

/-- Whether an expression is taken for a whole-number constant without a type. -/
abbrev Expr.UntypedIn (e : Expr) (s : State) : Prop := Effect.isUntyped e s = .ok true s

theorem Expr.untypedIn_iff {e : Expr} {s : State} :
    e.UntypedIn s ↔ s.signature.isUntyped e = true := by
  rw [UntypedIn, State.isUntyped_eq]
  simp

/-- A whole number, declared as one. -/
structure Binding.IsWhole (b : Binding) : Prop where
  ty : b.ty = .int
  value : ∃ n, b.value = .int n

/-- Every constant without a type is a whole number. -/
def State.Honest (s : State) : Prop := ∀ x b, s.env.Binds x b → b.role = .untyped → b.IsWhole

/-! ## What comes of a constant -/

/-- The whole numbers that are written in an expression. A sign belongs to the
    literal behind it. -/
def Expr.literals : Expr → List Int
  | .int _ n => [n]
  | .unary _ .neg (.int _ n) => [-n]
  | .unary _ _ e | .convert _ _ e => e.literals
  | .binary _ _ l r | .index _ l r => l.literals ++ r.literals
  | _ => []

/-- What may come of a constant expression: the state stays, and there is a whole
    number, a literal that does not fit or a division by zero. -/
inductive ComesToWhole (e : Expr) (s : State) : EStateM.Result RunError State Value → Prop where
  | value (n : Int32) : ComesToWhole e s (.ok (.int n) s)
  | overflow {err : RunError} {n : Int} : n ∈ e.literals → (n < -2147483648 ∨ 2147483648 ≤ n) →
      err.fault = .constantOverflow n → ComesToWhole e s (.error err s)
  | division {err : RunError} : err.fault = .divisionByZero → ComesToWhole e s (.error err s)

namespace ComesToWhole

variable {e l r : Expr} {s t : State}

theorem ok {v : Value} (h : ComesToWhole e s (.ok v t)) : t = s ∧ ∃ n, v = .int n := by
  cases h with
  | value n => exact ⟨rfl, n, rfl⟩

theorem located {x : Effect Value} (h : ComesToWhole e s (x s)) (pos : Pos) :
    ComesToWhole e s (located pos x s) := by
  unfold Effect.located
  generalize x s = r at h
  cases h with
  | value n => exact .value n
  | overflow member outside fault => exact .overflow member outside fault
  | division fault => exact .division fault

theorem ofConstant {n : Int} (member : n ∈ e.literals) :
    ComesToWhole e s (ofExcept (Value.ofConstant n) s) := by
  unfold Value.ofConstant
  split
  · exact .value _
  · rename_i outside
    simp only [Bool.and_eq_true, decide_eq_true_eq] at outside
    exact .overflow member (by omega) rfl

theorem arith (op : ArithOp) (m n : Int32) : ComesToWhole e s (arith op (.int m) (.int n) s) := by
  rw [Effect.arith, get_bind]
  cases op with
  | add | sub | mul => exact .value _
  | div | rem =>
      simp only [Heap.arith, ArithOp.onInt]
      split
      · exact .division rfl
      · exact .value _

/-- Sequencing: the state is the same at the next action. -/
theorem bind {x : Effect Value} {f : Value → Effect Value} (first : ComesToWhole e s (x s))
    (next : ∀ n, ComesToWhole e s (f (.int n) s)) : ComesToWhole e s ((x >>= f) s) := by
  cases ran : x s with
  | ok v t =>
      rw [ran] at first
      obtain ⟨rfl, n, rfl⟩ := first.ok
      rw [bind_ok ran]
      exact next n
  | error err t =>
      rw [bind_error ran]
      rwa [ran] at first

theorem mono {e' : Expr} {r : EStateM.Result RunError State Value} (h : ComesToWhole e s r)
    (literals : ∀ n ∈ e.literals, n ∈ e'.literals) : ComesToWhole e' s r := by
  cases h with
  | value n => exact .value n
  | overflow member outside fault => exact .overflow (literals _ member) outside fault
  | division fault => exact .division fault

theorem signed {op : UnaryOp} (n : Int32) (sign : op ≠ .not) :
    ComesToWhole e s (ofExcept (s.heap.signed op (.int n)) s) := by
  cases op with
  | neg | plus => exact .value _
  | not => exact absurd rfl sign

theorem unary {op : UnaryOp} {x : Effect Value} {pos : Pos} (sign : op ≠ .not)
    (inner : ComesToWhole e s (x s)) :
    ComesToWhole (.unary pos op e) s (unary op ⟨e, x⟩ s) := by
  unfold Effect.unary
  dsimp only
  split
  · exact .ofConstant List.mem_cons_self
  · exact absurd rfl sign
  · rename_i _ other
    have literals : (Expr.unary pos op e).literals = e.literals := by
      rw [Expr.literals]
      exact other
    apply bind (inner.mono fun n member => by rwa [literals])
    intro n
    rw [get_bind]
    exact signed n sign

theorem binary {op : ArithOp} {x y : Effect Value} {pos : Pos} (left : ComesToWhole l s (x s))
    (right : ComesToWhole r s (y s)) :
    ComesToWhole (.binary pos (.arith op) l r) s (binary (.arith op) ⟨l, x⟩ ⟨r, y⟩ s) := by
  apply bind (left.mono fun n member => List.mem_append_left _ member)
  intro m
  apply bind (right.mono fun n member => List.mem_append_right _ member)
  exact fun n => arith op m n

end ComesToWhole

/-- A constant expression changes nothing, however calls are made. -/
theorem Expr.comesToWhole (call : Caller) {s : State} (honest : s.Honest) (e : Expr)
    (untyped : s.signature.isUntyped e) : ComesToWhole e s (e.eval call s) := by
  cases e with
  | int pos n =>
      rw [Expr.eval]
      exact .located (.ofConstant List.mem_cons_self) pos
  | name pos x =>
      rw [Expr.eval]
      apply ComesToWhole.located
      rw [readName, get_bind]
      cases found : s.env.lookup x with
      | none => simp [Signature.isUntyped, isUntyped, allUntyped, State.signature, found] at untyped
      | some b =>
          have role : b.role = .untyped := by
            simpa [Signature.isUntyped, isUntyped, allUntyped, State.signature, found] using untyped
          obtain ⟨n, value⟩ := (honest x b (Env.binds_lookup found) role).value
          dsimp only
          rw [value]
          exact .value n
  | unary pos op e =>
      rw [Signature.isUntyped, isUntyped_unary, Bool.and_eq_true] at untyped
      have inner := Expr.comesToWhole call honest e untyped.2
      rw [Expr.eval]
      exact .located (.unary (by simpa using untyped.1) inner) pos
  | binary pos op l r =>
      rw [Signature.isUntyped, isUntyped_binary, Bool.and_eq_true, Bool.and_eq_true] at untyped
      have left := Expr.comesToWhole call honest l untyped.2.2
      have right := Expr.comesToWhole call honest r untyped.2.1
      cases op with
      | arith op =>
          rw [Expr.eval]
          exact .located (.binary left right) pos
      | compare | logic => cases untyped.1
  | float | bool | str | convert | index | call | print =>
      simp [Signature.isUntyped, isUntyped, allUntyped] at untyped

/-! ## Constants are whole numbers in all states -/

/-- Where names are bound to no more than before, what is flagged stays a whole
    number. -/
theorem State.Honest.mono {s t : State} (honest : s.Honest)
    (fewer : ∀ x b, t.env.Binds x b → s.env.Binds x b) : t.Honest :=
  fun x b bound => honest x b (fewer x b bound)

theorem State.Honest.declare {s : State} {x : String} {b : Binding} {env : Env}
    (honest : s.Honest) (whole : b.role = .untyped → b.IsWhole)
    (ok : s.env.declare x b = .ok env) : State.Honest { s with env } := by
  intro y c bound role
  rcases Env.binds_declare ok bound with old | rfl
  · exact honest y c old role
  · exact whole role

theorem State.Honest.assign {s : State} {x : String} {b : Binding} {v : Value} {env : Env}
    (honest : s.Honest) (found : s.env.lookup x = some b) (ok : s.env.assign x v = .ok env) :
    State.Honest { s with env } := by
  intro y c bound role
  rcases Env.binds_assign found ok bound with old | rfl
  · exact honest y c old role
  · rw [(Env.assign_cases found ok).1] at role
    cases role

/-- Only what is declared as a whole number holds one. -/
theorem Heap.ty_of_conform {heap : Heap} {ty : Ty} {v w : Value} {untyped : Bool} {target : String}
    (ok : heap.conform ty v untyped target = .ok w) (int : w.IsInt) : ty = .int := by
  obtain ⟨n, rfl⟩ := int
  unfold Heap.conform at ok
  cases v with
  | int m =>
      dsimp only at ok
      split at ok
      · assumption
      · split at ok <;> cases ok
  | float | array =>
      dsimp only at ok
      split at ok <;> cases ok
  | bool | unit => cases ok

theorem Heap.ty_of_inferredType {heap : Heap} {ty : Ty} {v : Value} {target : String}
    (ok : heap.inferredType v target = .ok ty) (int : v.IsInt) : ty = .int := by
  obtain ⟨n, rfl⟩ := int
  cases ok
  rfl

namespace Discipline

/-- Runs of one state in which constants without a type are whole numbers. -/
def wholeConstants : Discipline where
  beside s t := s = t ∧ s.Honest
  fits _ ty v := v.IsInt → ty = .int
  honest := True
  view h := h.1 ▸ .refl _
  fits_kept _ fit := fit
  honest_named _ h found role := (h.2 _ _ (Env.binds_lookup found) role).value
  fits_conform _ _ ok := Heap.ty_of_conform ok
  fits_inferred _ _ ok := Heap.ty_of_inferredType ok
  emit e h := by
    obtain ⟨rfl, h⟩ := h
    exact .same _ fun _ _ => .same h rfl
  alloc h _ _ := by
    obtain ⟨rfl, h⟩ := h
    exact ⟨.same h rfl, nofun⟩
  set h _ _ _ := by
    obtain ⟨rfl, h⟩ := h
    exact .same h rfl
  declare x h fit int := by
    obtain ⟨rfl, h⟩ := h
    apply Attempts.same
    intro env ok
    exact .same (h.declare (fun role => ⟨fit (int trivial role), int trivial role⟩) ok) rfl
  assign h found _ := by
    obtain ⟨rfl, h⟩ := h
    apply Attempts.same
    intro env ok
    exact .same (h.assign found ok) rfl
  enterBlock h := by
    obtain ⟨rfl, h⟩ := h
    exact ⟨rfl, h.mono fun _ _ => Env.binds_enterBlock⟩
  leaveBlock h moved := by
    obtain ⟨rfl, _⟩ := h
    obtain ⟨⟨rfl, inside⟩, left, _⟩ := moved
    exact .same (inside.mono fun _ _ => Env.binds_leaveBlock) left

theorem single_wholeConstants : wholeConstants.Single := ⟨fun h => h.1, id⟩

theorem invariant_wholeConstants (limit : Nat) (sink : Sink) :
    wholeConstants.Invariant limit sink where
  opens call := {
    room := fun h => .inl (h.1 ▸ ⟨rfl, rfl⟩)
    enter := by
      rintro s t ⟨rfl, h⟩ _ _
      exact ⟨rfl, h.mono fun _ _ => Env.binds_enterCall⟩
    leave := by
      rintro s t s' t' ⟨rfl, _⟩ _ ⟨⟨rfl, inside⟩, calls, _⟩
      exact .same (inside.mono fun _ _ => Env.binds_leaveCall) (congrArg List.tail calls) }
  loads := {
    imports := by
      rintro s t packages ⟨rfl, h⟩
      exact .same h rfl
    function := by
      rintro s t f ⟨rfl, h⟩ _ _ _
      exact .same h rfl }
  single := single_wholeConstants
  callable _ := trivial
  fresh := by
    refine ⟨rfl, ?_⟩
    rintro x b (bound | ⟨frame, listed, _⟩)
    · cases bound
    · cases listed

end Discipline

/-- States in which what is declared is sound, and constants are whole numbers. -/
structure State.Regular (s : State) : Prop extends State.Sound s where
  honest : s.Honest

theorem Reachable.regular {limit : Nat} {sink : Sink} {s : State} (h : Reachable limit sink s) :
    s.Regular where
  toSound := h.sound
  honest := ((Discipline.invariant_wholeConstants limit sink).reachable h).2

namespace State.Regular

variable {s t : State} {e : Expr}

theorem eval {v : Value} (regular : s.Regular) (ok : e.eval callFunction s = .ok v t) :
    t.Regular ∧ t.signature = s.signature := by
  have led := regular.toSound.led ok
  have met := (Discipline.invariant_wholeConstants s.limit s.sink).self (p := .expr e)
    ⟨rfl, regular.honest⟩ fun _ _ => trivial
  have honest := (Discipline.Lockstep.kept Discipline.single_wholeConstants met ok).1.2
  exact ⟨⟨led.sound, honest⟩, led.signature⟩

theorem place {place : Place} (regular : s.Regular)
    (ok : e.place (Expr.eval callFunction) s = .ok place t) :
    t.Regular ∧ t.signature = s.signature := by
  cases e with
  | name pos x =>
      obtain rfl := Expr.place_of_quiet rfl ok
      exact ⟨regular, rfl⟩
  | index pos a i =>
      obtain ⟨h, s₁, first, rest⟩ := bind_eq_ok.mp ok
      obtain ⟨n, s₂, second, done⟩ := bind_eq_ok.mp rest
      obtain ⟨_, rfl⟩ := pure_eq_ok.mp done
      obtain ⟨regular₁, signature₁⟩ := regular.eval (array_eq_ok first)
      obtain ⟨m, value⟩ := index_eq_ok second
      obtain ⟨regular₂, signature₂⟩ := regular₁.eval value
      exact ⟨regular₂, signature₂.trans signature₁⟩
  | int | float | bool | str | unary | binary | convert | call | print => cases ok

end State.Regular

/-! ## What is converted -/

/-- The value of an expression as it is used, after its evaluation from one state
    to another: as it is, or converted if the expression is a constant without a
    type. -/
inductive Delivers (e : Expr) (s : State) : Value → State → Prop where
  | asIs {v : Value} {t : State} : e.eval callFunction s = .ok v t → Delivers e s v t
  | converted {n : Int32} : e.UntypedIn s → e.eval callFunction s = .ok (.int n) s →
      Delivers e s (.float (nearestFloat n)) s

/-- The values of expressions, one after the other. -/
inductive DeliversAll : List Expr → State → List Value → State → Prop where
  | nil {s : State} : DeliversAll [] s [] s
  | cons {e : Expr} {es : List Expr} {v : Value} {vs : List Value} {s t u : State} :
      Delivers e s v t → DeliversAll es t vs u → DeliversAll (e :: es) s (v :: vs) u

/-- A value on its way to a target of a type. -/
def Value.fitted (ty : Ty) (untyped : Bool) : Value → Value
  | .int n => if ty = .float32 && untyped then .float (nearestFloat n) else .int n
  | v => v

theorem Value.fitted_false (ty : Ty) (v : Value) : v.fitted ty false = v := by
  cases v <;> simp [fitted]

theorem Value.fitted_int (untyped : Bool) (v : Value) : v.fitted .int untyped = v := by
  cases v <;> simp [fitted]

namespace Heap

variable (heap : Heap) (ty : Ty) (v : Value) (untyped : Bool) (target : String)

theorem conform_fitted :
    heap.conform ty v untyped target = heap.conform ty (v.fitted ty untyped) false target := by
  cases v with
  | int n =>
      cases ty <;> cases untyped <;> simp [conform, Value.fitted]
  | float | bool | array | unit => rfl

theorem conformResult_fitted :
    heap.conformResult ty v untyped = heap.conformResult ty (v.fitted ty untyped) false := by
  cases v with
  | int n =>
      cases ty <;> cases untyped <;> simp [conformResult, conform, Value.fitted]
  | float | bool | array | unit => rfl

variable {heap ty v target} {w : Value}

/-- What has a type is stored as it is. -/
theorem conform_typed (ok : heap.conform ty v false target = .ok w) : w = v := by
  unfold conform at ok
  cases v with
  | int | float | array =>
      simp only [Bool.and_false, Bool.false_eq_true, if_false] at ok
      split at ok <;> cases ok
      rfl
  | bool | unit => cases ok

theorem conformResult_typed (ok : heap.conformResult ty v false = .ok w) : w = v := by
  unfold conformResult at ok
  split at ok
  · split at ok <;> cases ok
    rfl
  · split at ok
    · cases ok
    · exact conform_typed ok

end Heap

theorem Place.exists_write_fitted (place : Place) (v : Value) (untyped : Bool) (s : State) :
    ∃ ty, place.write v untyped s = place.write (v.fitted ty untyped) false s := by
  cases place with
  | var x =>
      cases found : s.env.lookup x with
      | none =>
          refine ⟨.int, ?_⟩
          rw [Place.write, Place.write, get_bind, get_bind, found]
      | some b =>
          refine ⟨b.ty, ?_⟩
          rw [Place.write, Place.write, get_bind, get_bind, found]
          apply Effect.bind_congr
          rw [Effect.conform, Effect.conform, get_bind, get_bind, Heap.conform_fitted]
  | cell h i =>
      refine ⟨(s.heap.store h).elem, ?_⟩
      rw [Place.write, Place.write, get_bind, get_bind]
      apply Effect.bind_congr
      rw [Effect.conform, Effect.conform, get_bind, get_bind, Heap.conform_fitted]

theorem exists_balanced_fitted (l r : Expr) (a b : Value) (s : State) :
    ∃ ty ty', balanced l a r b s = .ok (a.fitted ty (s.signature.isUntyped l),
      b.fitted ty' (s.signature.isUntyped r)) s := by
  unfold balanced
  split
  · refine ⟨.float32, .int, ?_⟩
    rw [bind_ok (s.isUntyped_eq l)]
    cases s.signature.isUntyped l <;> rfl
  · refine ⟨.int, .float32, ?_⟩
    rw [bind_ok (s.isUntyped_eq r)]
    cases s.signature.isUntyped r <;> rfl
  · refine ⟨.int, .int, ?_⟩
    rw [Value.fitted_int, Value.fitted_int]
    rfl

namespace State.Regular

variable {s t : State} {e : Expr} {v : Value}

/-- A value is delivered, whatever target it is fitted to. -/
theorem delivers (regular : s.Regular) (ok : e.eval callFunction s = .ok v t) (ty : Ty) :
    Delivers e s (v.fitted ty (t.signature.isUntyped e)) t := by
  cases untyped : t.signature.isUntyped e with
  | false =>
      rw [Value.fitted_false]
      exact .asIs ok
  | true =>
      rw [(regular.eval ok).2] at untyped
      have whole := Expr.comesToWhole callFunction regular.honest e untyped
      rw [ok] at whole
      obtain ⟨rfl, n, rfl⟩ := whole.ok
      rw [Value.fitted]
      split
      · exact .converted (Expr.untypedIn_iff.mpr untyped) ok
      · exact .asIs ok

theorem operators {l r : Expr} {a b : Value} {s₁ s₂ : State} (regular : s.Regular)
    (left : l.eval callFunction s = .ok a s₁) (right : r.eval callFunction s₁ = .ok b s₂) :
    ∃ a' b', Delivers l s a' s₁ ∧ Delivers r s₁ b' s₂ ∧
      (∀ op, binary (.arith op) ⟨l, l.eval callFunction⟩ ⟨r, r.eval callFunction⟩ s =
        arith op a' b' s₂) ∧
      (∀ op, binary (.compare op) ⟨l, l.eval callFunction⟩ ⟨r, r.eval callFunction⟩ s =
        compare op a' b' s₂) := by
  obtain ⟨regular₁, _⟩ := regular.eval left
  obtain ⟨_, later⟩ := regular₁.eval right
  obtain ⟨ty, ty', balances⟩ := exists_balanced_fitted l r a b s₂
  -- The left operand is asked for its type only after the right one has been evaluated.
  have first := regular.delivers left ty
  rw [← later] at first
  refine ⟨_, _, first, regular₁.delivers right ty', ?_, ?_⟩
  · intro op
    rw [binary, bind_ok left, bind_ok right, bind_ok balances]
  · intro op
    rw [binary, bind_ok left, bind_ok right, bind_ok balances]

theorem stored {ty : Ty} {target : String} {w : Value} {u : State} (regular : s.Regular)
    (ok : e.eval callFunction s = .ok v t)
    (conforms : Effect.conform ty v (t.signature.isUntyped e) target t = .ok w u) :
    u = t ∧ Delivers e s w t := by
  rw [Effect.conform, get_bind, Heap.conform_fitted] at conforms
  obtain ⟨fits, rfl⟩ := ofExcept_eq_ok.mp conforms
  rw [Heap.conform_typed fits]
  exact ⟨rfl, regular.delivers ok ty⟩

theorem declaration {x : String} {ty ty' : Ty} (regular : s.Regular)
    (ok : initial (Expr.eval callFunction) x (some ty) (some e) s = .ok (ty', v) t) :
    Delivers e s v t := by
  obtain ⟨_, s₁, checked, rest⟩ := bind_eq_ok.mp ok
  obtain ⟨_, rfl⟩ := ofExcept_eq_ok.mp checked
  obtain ⟨w, s₂, value, rest⟩ := bind_eq_ok.mp rest
  rw [bind_ok (s₂.isUntyped_eq e)] at rest
  obtain ⟨w', s₃, conforms, done⟩ := bind_eq_ok.mp rest
  obtain ⟨rfl, delivers⟩ := regular.stored value conforms
  obtain ⟨same, rfl⟩ := pure_eq_ok.mp done
  cases same
  exact delivers

theorem assignment {target : Expr} {place : Place} {s₁ s₂ : State} (regular : s.Regular)
    (aimed : target.place (Expr.eval callFunction) s = .ok place s₁)
    (value : e.eval callFunction s₁ = .ok v s₂) :
    ∃ v', Delivers e s₁ v' s₂ ∧
      assign (Expr.eval callFunction) target none e s = place.write v' false s₂ := by
  obtain ⟨ty, written⟩ := place.exists_write_fitted v (s₂.signature.isUntyped e) s₂
  refine ⟨_, (regular.place aimed).1.delivers value ty, ?_⟩
  rw [assign, bind_ok aimed, bind_ok value]
  dsimp only
  rw [bind_ok (s₂.isUntyped_eq e), written]

theorem update {target : Expr} {place : Place} {s₁ s₂ : State} {old : Value} (op : ArithOp)
    (regular : s.Regular) (aimed : target.place (Expr.eval callFunction) s = .ok place s₁)
    (value : e.eval callFunction s₁ = .ok v s₂) (held : place.read s₂ = .ok old s₂) :
    ∃ v', Delivers e s₁ v' s₂ ∧
      assign (Expr.eval callFunction) target (some op) e s =
        (do place.write (← located e.pos (arith op old v')) false) s₂ := by
  obtain ⟨regular₁, signature₁⟩ := regular.place aimed
  obtain ⟨_, signature₂⟩ := regular₁.eval value
  obtain ⟨ty, ty', balances⟩ := exists_balanced_fitted target e old v s₂
  have typed := Expr.isUntyped_of_place aimed
  rw [← signature₁, ← signature₂] at typed
  rw [typed, Value.fitted_false] at balances
  refine ⟨_, regular₁.delivers value ty', ?_⟩
  rw [assign, bind_ok aimed, bind_ok value]
  dsimp only
  rw [bind_ok held, bind_ok balances]

theorem arguments {callee : String} {params : List Param} {es : List Expr} {vs : List Value}
    (regular : s.Regular) (count : params.length = es.length)
    (ok : arguments callee params (operands callFunction es) s = .ok vs t) :
    DeliversAll es s vs t := by
  induction es generalizing params s vs with
  | nil =>
      obtain rfl := List.length_eq_zero_iff.mp count
      obtain ⟨rfl, rfl⟩ := pure_eq_ok.mp ok
      exact .nil
  | cons e es ih =>
      cases params with
      | nil => cases count
      | cons param params =>
          obtain ⟨v, s₁, value, rest⟩ := bind_eq_ok.mp ok
          obtain ⟨w, s₂, conforms, rest⟩ := bind_eq_ok.mp rest
          obtain ⟨ws, s₃, others, done⟩ := bind_eq_ok.mp rest
          obtain ⟨rfl, rfl⟩ := pure_eq_ok.mp done
          rw [located_eq_ok, bind_ok (s₁.isUntyped_eq e)] at conforms
          obtain ⟨rfl, delivers⟩ := regular.stored value conforms
          exact .cons delivers (ih (regular.eval value).1 (Nat.succ.inj count) others)

theorem result {ending : Ending} (regular : s.Regular)
    (ok : finish (Expr.eval callFunction) (some e) s = .ok ending t) :
    ∃ v, ending = .done v ∧ Delivers e s v t := by
  rw [finish, get_bind] at ok
  cases wanted : s.result? with
  | none =>
      rw [wanted] at ok
      cases ok
  | some ty =>
      rw [wanted] at ok
      obtain ⟨v, s₁, value, rest⟩ := bind_eq_ok.mp ok
      rw [bind_ok (s₁.isUntyped_eq e)] at rest
      obtain ⟨w, s₂, conforms, done⟩ := bind_eq_ok.mp rest
      obtain ⟨rfl, rfl⟩ := pure_eq_ok.mp done
      rw [located_eq_ok, get_bind, Heap.conformResult_fitted] at conforms
      obtain ⟨fits, rfl⟩ := ofExcept_eq_ok.mp conforms
      rw [Heap.conformResult_typed fits]
      exact ⟨_, rfl, regular.delivers value ty⟩

end State.Regular

theorem Expr.place_of_constant {s : State} {x : String} {b : Binding}
    (found : s.env.lookup x = some b) (constant : b.role ≠ .variable) (pos : Pos)
    (eval : Expr → Effect Value) :
    (Expr.name pos x).place eval s = .error ⟨.constantAssigned x, none⟩ s := by
  rw [Expr.place, get_bind, found]
  dsimp only
  rw [if_neg constant]
  rfl

/-- All that the values of expressions are used for in a state: they are
    delivered, and from there on no value is converted. -/
structure ConvertsConstants (s : State) : Prop where
  operators : ∀ l r a b s₁ s₂, l.eval callFunction s = .ok a s₁ →
    r.eval callFunction s₁ = .ok b s₂ →
    ∃ a' b', Delivers l s a' s₁ ∧ Delivers r s₁ b' s₂ ∧
      (∀ op, binary (.arith op) ⟨l, l.eval callFunction⟩ ⟨r, r.eval callFunction⟩ s =
        arith op a' b' s₂) ∧
      (∀ op, binary (.compare op) ⟨l, l.eval callFunction⟩ ⟨r, r.eval callFunction⟩ s =
        compare op a' b' s₂)
  declaration : ∀ x ty e ty' v t,
    initial (Expr.eval callFunction) x (some ty) (some e) s = .ok (ty', v) t → Delivers e s v t
  assignment : ∀ target e place v s₁ s₂,
    target.place (Expr.eval callFunction) s = .ok place s₁ →
    e.eval callFunction s₁ = .ok v s₂ →
    ∃ v', Delivers e s₁ v' s₂ ∧
      assign (Expr.eval callFunction) target none e s = place.write v' false s₂
  update : ∀ target e place v old s₁ s₂ op,
    target.place (Expr.eval callFunction) s = .ok place s₁ →
    e.eval callFunction s₁ = .ok v s₂ → place.read s₂ = .ok old s₂ →
    ∃ v', Delivers e s₁ v' s₂ ∧
      assign (Expr.eval callFunction) target (some op) e s =
        (do place.write (← located e.pos (arith op old v')) false) s₂
  arguments : ∀ callee params es vs t, params.length = es.length →
    arguments callee params (operands callFunction es) s = .ok vs t → DeliversAll es s vs t
  result : ∀ e ending t, finish (Expr.eval callFunction) (some e) s = .ok ending t →
    ∃ v, ending = .done v ∧ Delivers e s v t

theorem State.Regular.convertsConstants {s : State} (regular : s.Regular) :
    ConvertsConstants s where
  operators _ _ _ _ _ _ := regular.operators
  declaration _ _ _ _ _ _ := regular.declaration
  assignment _ _ _ _ _ _ := regular.assignment
  update _ _ _ _ _ _ _ op := regular.update op
  arguments _ _ _ _ _ := regular.arguments
  result _ _ _ := regular.result

/-- In whatever state of a run: what is flagged as a constant without a type is a
    whole number, declared as one, and cannot be assigned to. An expression made
    of such constants changes nothing, whether it gives a whole number or fails,
    and it only fails by a literal that does not fit or a division by zero. Where
    a value is used, it is converted only if it came from such an expression. -/
theorem untyped_constants_pure {limit : Nat} {sink : Sink} {s : State}
    (reachable : Reachable limit sink s) :
    (∀ x b, s.env.Binds x b → b.role = .untyped → b.IsWhole) ∧
    (∀ x b, s.env.lookup x = some b → b.role = .untyped → ∀ pos,
      (∀ op e, assign (Expr.eval callFunction) (.name pos x) op e s =
        .error ⟨.constantAssigned x, none⟩ s) ∧
      (∀ up, bump (Expr.eval callFunction) (.name pos x) up s =
        .error ⟨.constantAssigned x, none⟩ s)) ∧
    (∀ e : Expr, e.UntypedIn s → ComesToWhole e s (e.eval callFunction s)) ∧
    ConvertsConstants s := by
  have regular := reachable.regular
  refine ⟨regular.honest, ?_, ?_, regular.convertsConstants⟩
  · intro x b found role pos
    have refused := Expr.place_of_constant found (by simp [role]) pos (Expr.eval callFunction)
    exact ⟨fun op e => bind_error refused, fun up => bind_error refused⟩
  · intro e untyped
    exact e.comesToWhole callFunction regular.honest (Expr.untypedIn_iff.mp untyped)

/-- Half of a constant, as far as whole numbers go. -/
def halfOfK : Expr := .binary ⟨4, 7⟩ (.arith .div) (.name ⟨4, 5⟩ "k") (.int ⟨4, 9⟩ 2)

/-- Put half of `k` into `x`. -/
def storeHalf : Stmt := .assign ⟨4, 1⟩ (.name ⟨4, 1⟩ "x") none halfOfK

/-- A `main` that stores half of a constant. -/
def halfMain : Func := ⟨⟨3, 1⟩, "main", [], none, [storeHalf]⟩

/-- A constant without a type, a variable for a number with a fraction, and a
    `main` that stores half of the constant in it. -/
def halfProgram : Program :=
  ⟨"main", [], [.stmt (.const ⟨1, 1⟩ "k" none (.int ⟨1, 11⟩ 3)),
    .stmt (.var ⟨2, 1⟩ "x" (some .float32) none), .func halfMain]⟩

/-- The state in which `storeHalf` runs. -/
def halfState : State :=
  { State.fresh 5 .silent with
    functions := [halfMain]
    env := ⟨[("x", ⟨.float 0, .float32, .variable⟩), ("k", ⟨.int 3, .int, .untyped⟩)], [[[]]]⟩
    calls := [⟨"main", ⟨0, 0⟩, none⟩] }

/-- Half of three is one, and it is one that is stored. -/
theorem untyped_constants_pure_half :
    Reachable 5 .silent halfState ∧ halfOfK.UntypedIn halfState ∧
      ComesToWhole halfOfK halfState (.ok (.int 1) halfState) ∧
      bump (Expr.eval callFunction) (.name ⟨4, 1⟩ "k") true halfState =
        .error ⟨.constantAssigned "k", none⟩ halfState ∧
      ∃ v, Delivers halfOfK halfState v halfState ∧
        assign (Expr.eval callFunction) (.name ⟨4, 1⟩ "x") none halfOfK halfState =
          (Place.var "x").write v false halfState := by
  have started : Session 5 .silent (.fresh 5 .silent) := .fresh
  have loaded : halfProgram.load (.fresh 5 .silent) = .ok () halfState.leaveCall := by
    with_unfolding_all rfl
  have called : Visited 5 .silent (.call halfMain [] ⟨0, 0⟩) halfState.leaveCall :=
    .enter (.run halfProgram started) (.main loaded rfl rfl rfl)
  have storing : Visited 5 .silent (.stmt storeHalf) halfState :=
    called.enter (.body (by decide) rfl rfl)
  have reachable : Reachable 5 .silent halfState := ⟨_, _, storing, .inl rfl⟩
  have untyped : halfOfK.UntypedIn halfState := by with_unfolding_all rfl
  have value : halfOfK.eval callFunction halfState = .ok (.int 1) halfState := by
    with_unfolding_all rfl
  obtain ⟨_, fixed, whole, uses⟩ := untyped_constants_pure reachable
  exact ⟨reachable, untyped, value ▸ whole halfOfK untyped, (fixed "k" _ rfl rfl _).2 true,
    uses.assignment _ _ _ _ _ _ rfl value⟩

end Treewalk
