import Treewalk.Proofs.Effects

/-! # Negation turns a logical operator into its dual

A negation in front of `&&` or `||` may be moved to the operands, whatever these
call, print or fail with: the other operator then skips its right operand in the
same cases. Only an operand that is neither true nor false shows a difference,
since its message names the operator that has asked.
-/

namespace Treewalk

/-- The operator that a negation in front leaves behind. -/
def LogicOp.dual : LogicOp → LogicOp
  | .and => .or
  | .or => .and

namespace Effect

variable {α β : Type}

/-! ## Places

An error that has a place keeps it, so only the innermost place counts. -/

theorem located_located (pos inner : Pos) (x : Effect α) :
    located pos (located inner x) = located inner x := by
  funext s
  unfold located
  cases x s with
  | ok a t => rfl
  | error e t => rfl

theorem located_bind (pos : Pos) (x : Effect α) (f : α → Effect β) :
    located pos (x >>= f) = located pos x >>= fun a => located pos (f a) := by
  funext s
  cases ran : x s with
  | ok a t =>
      rw [bind_ok (located_eq_ok.mpr ran)]
      unfold located
      rw [bind_ok ran]
  | error e t =>
      have failed : located pos x s = .error (e.within pos) t := by rw [located, ran]
      rw [bind_error failed, located, bind_error ran]

theorem located_eval (pos : Pos) (call : Caller) (e : Expr) :
    located pos (e.eval call) = e.eval call := by
  cases e with
  | float | bool =>
      rw [Expr.eval]
      rfl
  | int | str | name | unary | binary | convert | index | call | print =>
      rw [Expr.eval, located_located]

theorem located_logical {pos : Pos} {op : String} {x : Operand}
    (placed : located pos x.value = x.value) : located pos (logical op x) = logical op x := by
  unfold logical
  rw [located_bind, placed]
  congr 1
  funext v
  cases v.logical? with
  | some b => rfl
  | none => rfl

/-! ## Truth values -/

/-- The truth value of an action, as a value. -/
def asValue (x : Effect Bool) : Effect Value := do
  return .bool (← x)

/-- The opposite truth value. -/
def negated (x : Effect Bool) : Effect Bool := do
  return !(← x)

/-- Both operands of a logical operator, the right one only if it counts. -/
def shortcut (op : LogicOp) (x y : Effect Bool) : Effect Bool :=
  match op with
  | .and => do if ← x then y else return false
  | .or => do if ← x then return true else y

theorem negated_shortcut (op : LogicOp) (x y : Effect Bool) :
    negated (shortcut op x y) = shortcut op.dual (negated x) (negated y) := by
  cases op with
  | and | or =>
      simp only [negated, shortcut, LogicOp.dual, bind_assoc, pure_bind]
      congr 1
      funext b
      cases b with
      | true => rfl
      | false => rfl

theorem unary_not (x : Operand) : unary .not x = asValue (negated (logical "!" x)) := by
  simp only [asValue, negated, bind_assoc, pure_bind]
  rfl

theorem binary_logic (op : LogicOp) (l r : Operand) :
    binary (.logic op) l r = asValue (shortcut op (logical op.text l) (logical op.text r)) := by
  cases op with
  | and | or =>
      simp only [binary, asValue, shortcut, LogicOp.text, bind_assoc]
      congr 1
      funext b
      cases b with
      | true => rfl
      | false => rfl

/-- A truth value passes every logical operator. -/
theorem logical_asValue (op : String) (e : Expr) (x : Effect Bool) :
    logical op ⟨e, asValue x⟩ = x := by
  simp only [logical, asValue, bind_assoc, pure_bind, Value.logical?, bind_pure]

theorem located_asValue {pos : Pos} {x : Effect Bool} (placed : located pos x = x) :
    located pos (asValue x) = asValue x := by
  rw [asValue, located_bind, placed]
  rfl

theorem located_negated {pos : Pos} {x : Effect Bool} (placed : located pos x = x) :
    located pos (negated x) = negated x := by
  rw [negated, located_bind, placed]
  rfl

theorem located_shortcut {pos : Pos} (op : LogicOp) {x y : Effect Bool} (left : located pos x = x)
    (right : located pos y = y) : located pos (shortcut op x y) = shortcut op x y := by
  have either (next : Bool → Effect Bool) (placed : ∀ b, located pos (next b) = next b) :
      located pos (x >>= next) = x >>= next := by
    rw [located_bind, left]
    exact congrArg (x >>= ·) (funext placed)
  cases op with
  | and =>
      apply either
      rintro (_ | _)
      · rfl
      · exact right
  | or =>
      apply either
      rintro (_ | _)
      · exact right
      · rfl

end Effect

open Effect

namespace Expr

variable (call : Caller) (pos : Pos)

/-- An expression as an operand of a logical operator. -/
def truth (op : String) (e : Expr) : Effect Bool := logical op ⟨e, e.eval call⟩

theorem located_truth (op : String) (e : Expr) : located pos (e.truth call op) = e.truth call op :=
  located_logical (located_eval pos call e)

theorem eval_not (e : Expr) :
    (Expr.unary pos .not e).eval call = asValue (negated (e.truth call "!")) := by
  rw [Expr.eval, unary_not]
  exact located_asValue (located_negated (located_truth call pos "!" e))

theorem eval_logic (op : LogicOp) (l r : Expr) :
    (Expr.binary pos (.logic op) l r).eval call =
      asValue (shortcut op (l.truth call op.text) (r.truth call op.text)) := by
  rw [Expr.eval, binary_logic]
  exact located_asValue
    (located_shortcut op (located_truth call pos op.text l) (located_truth call pos op.text r))

theorem truth_not (op : String) (e : Expr) :
    (Expr.unary pos .not e).truth call op = negated (e.truth call "!") := by
  rw [truth, eval_not, logical_asValue]

theorem truth_logic (op : String) (op' : LogicOp) (l r : Expr) :
    (Expr.binary pos (.logic op') l r).truth call op =
      shortcut op' (l.truth call op'.text) (r.truth call op'.text) := by
  rw [truth, eval_logic, logical_asValue]

end Expr

/-! ## Up to the operator that has asked -/

/-- The same outcome, up to the operator that the message for an operand
    names. -/
inductive Alike {α : Type} :
    EStateM.Result RunError State α → EStateM.Result RunError State α → Prop where
  | ok (a : α) (s : State) : Alike (.ok a s) (.ok a s)
  | error (e : RunError) (s : State) : Alike (.error e s) (.error e s)
  | operand (op op' : String) (kind : Kind) (value : String) (pos : Pos) (s : State) :
      Alike (.error ⟨.notLogical op kind value, some pos⟩ s)
        (.error ⟨.notLogical op' kind value, some pos⟩ s)

namespace Alike

variable {α β : Type}

theorem refl (r : EStateM.Result RunError State α) : Alike r r := by
  cases r with
  | ok a s => exact .ok a s
  | error e s => exact .error e s

theorem eq_ok {a : α} {s : State} {r : EStateM.Result RunError State α}
    (alike : Alike (.ok a s) r) : r = .ok a s := by
  cases alike
  rfl

theorem bind {x y : Effect α} {f g : α → Effect β} {s : State} (first : Alike (x s) (y s))
    (next : ∀ a t, Alike (f a t) (g a t)) : Alike ((x >>= f) s) ((y >>= g) s) := by
  generalize ran : x s = r, ran' : y s = r' at first
  cases first with
  | ok a t =>
      rw [bind_ok ran, bind_ok ran']
      exact next a t
  | error e t =>
      rw [bind_error ran, bind_error ran']
      exact .error e t
  | operand op op' kind value pos t =>
      rw [bind_error ran, bind_error ran']
      exact .operand op op' kind value pos t

theorem truth (call : Caller) (op op' : String) (e : Expr) (s : State) :
    Alike (e.truth call op s) (e.truth call op' s) := by
  apply bind (refl _)
  intro v t
  cases v.logical? with
  | some b => exact .ok b t
  | none => exact .operand op op' _ _ e.pos t

theorem negated {x y : Effect Bool} {s : State} (alike : Alike (x s) (y s)) :
    Alike (negated x s) (negated y s) :=
  bind alike fun _ _ => refl _

theorem asValue {x y : Effect Bool} {s : State} (alike : Alike (x s) (y s)) :
    Alike (asValue x s) (asValue y s) :=
  bind alike fun _ _ => refl _

theorem shortcut (op : LogicOp) {x x' y y' : Effect Bool} {s : State} (left : Alike (x s) (x' s))
    (right : ∀ t, Alike (y t) (y' t)) : Alike (shortcut op x y s) (shortcut op x' y' s) := by
  cases op with
  | and =>
      apply bind left
      rintro (_ | _) t
      · exact .ok false t
      · exact right t
  | or =>
      apply bind left
      rintro (_ | _) t
      · exact right t
      · exact .ok true t

end Alike

/-- A negated `&&` and the `||` of the negated operands, and the other way round:
    from every state they come to the same truth value and leave the same state
    behind, or they fail with the same error and leave the same state behind. If
    an operand is neither true nor false, both say so at the operand, but in one
    message its negation has asked. -/
theorem negation_moves_inward (call : Caller) (op : LogicOp) (a b : Expr)
    (pos pos' pos'' outer outer' : Pos) (s : State) :
    Alike ((Expr.unary outer .not (.binary pos (.logic op) a b)).eval call s)
      ((Expr.binary outer' (.logic op.dual) (.unary pos' .not a) (.unary pos'' .not b)).eval call s) ∧
    ∀ v t, (Expr.unary outer .not (.binary pos (.logic op) a b)).eval call s = .ok v t →
      ∃ truth, v = .bool truth := by
  -- Once the negation is inside, both are the same operator on the same operands, asked for by
  -- different operators.
  rw [Expr.eval_not, Expr.truth_logic, negated_shortcut, Expr.eval_logic, Expr.truth_not,
    Expr.truth_not]
  constructor
  · exact .asValue (.shortcut op.dual (.negated (.truth call _ _ a s))
      fun t => .negated (.truth call _ _ b t))
  · intro v t ok
    obtain ⟨truth, u, -, result⟩ := bind_eq_ok.mp ok
    exact ⟨truth, (pure_eq_ok.mp result).1.symm⟩

/-- A function that prints and says yes. -/
def agreeing : Func :=
  ⟨⟨1, 1⟩, "agreeing", [], some .int,
    [.expr ⟨2, 1⟩ (.print ⟨2, 1⟩ "fmt" .println [.str ⟨2, 13⟩ "yes"]),
      .return_ ⟨3, 1⟩ (some (.int ⟨3, 8⟩ 1))]⟩

/-- `!(a && agreeing())` and `!a || !agreeing()`: if `a` is false, neither prints, and if it is
    true, both do. -/
theorem negation_moves_inward_agreeing :
    let s : State :=
      { State.fresh 1 (.trace #[]) with functions := [agreeing], imports := ["fmt"] }
    let printed : State := { s with sink := .trace #[⟨Template.forLine 1, [.text "yes"]⟩] }
    let whole (a : Bool) : Expr := .unary ⟨5, 1⟩ .not
      (.binary ⟨5, 6⟩ (.logic .and) (.bool ⟨5, 3⟩ a) (.call ⟨5, 9⟩ "agreeing" []))
    let parts (a : Bool) : Expr := .binary ⟨5, 6⟩ (.logic .or)
      (.unary ⟨5, 2⟩ .not (.bool ⟨5, 3⟩ a)) (.unary ⟨5, 8⟩ .not (.call ⟨5, 9⟩ "agreeing" []))
    ((whole false).eval callFunction s = .ok (.bool true) s ∧
      (parts false).eval callFunction s = .ok (.bool true) s) ∧
    (whole true).eval callFunction s = .ok (.bool false) printed ∧
      (parts true).eval callFunction s = .ok (.bool false) printed := by
  intro s printed whole parts
  have moves (a : Bool) {b : Bool} {t : State}
      (ok : (whole a).eval callFunction s = .ok (.bool b) t) :
      (parts a).eval callFunction s = .ok (.bool b) t := by
    have alike := (negation_moves_inward callFunction .and (.bool ⟨5, 3⟩ a)
      (.call ⟨5, 9⟩ "agreeing" []) ⟨5, 6⟩ ⟨5, 2⟩ ⟨5, 8⟩ ⟨5, 1⟩ ⟨5, 6⟩ s).1
    exact (ok ▸ alike).eq_ok
  have skipped : (whole false).eval callFunction s = .ok (.bool true) s := rfl
  have ran : (whole true).eval callFunction s = .ok (.bool false) printed := rfl
  exact ⟨⟨skipped, moves false skipped⟩, ran, moves true ran⟩

end Treewalk
