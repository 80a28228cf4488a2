import Treewalk.Machine.State

/-! # Expressions without calls and prints

Only calls and prints change the state. Whole-number constants without a type
have neither.
-/

namespace Treewalk

/-- Whether there is no call and no print in an expression. -/
def Expr.quiet : Expr → Bool
  | .int _ _ | .float _ _ | .bool _ _ | .str _ _ | .name _ _ => true
  | .unary _ _ e | .convert _ _ e => e.quiet
  | .binary _ _ l r | .index _ l r => l.quiet && r.quiet
  | .call _ _ _ | .print _ _ _ _ => false

/-- Whether an expression is a whole-number constant without a type, by the names
    of a state. -/
def State.isUntyped (s : State) (e : Expr) : Bool :=
  e.isUntyped fun x => (s.env.lookup x).any (·.role == .untyped)

theorem Effect.isUntyped_apply (e : Expr) (s : State) :
    Effect.isUntyped e s = .ok (s.isUntyped e) s := rfl

/-! ## Constants without a type -/

namespace Expr

variable (untyped : String → Bool)

theorem allUntyped_cons (e : Expr) (es : List Expr) :
    allUntyped untyped (e :: es) = (e.isUntyped untyped && allUntyped untyped es) := by
  cases e with
  | int pos n => simp [isUntyped, allUntyped]
  | name pos x => simp [isUntyped, allUntyped]
  | unary pos op e =>
      rw [isUntyped, allUntyped, allUntyped, allUntyped_cons e es, allUntyped_cons e []]
      simp [allUntyped, Bool.and_assoc]
  | binary pos op l r =>
      rw [isUntyped, allUntyped, allUntyped, allUntyped_cons r (l :: es), allUntyped_cons r [l],
        allUntyped_cons l es, allUntyped_cons l []]
      simp [allUntyped, Bool.and_assoc]
  | float | bool | str | convert | index | call | print => simp [isUntyped, allUntyped]

theorem isUntyped_unary (pos : Pos) (op : UnaryOp) (e : Expr) :
    (unary pos op e).isUntyped untyped = (op != .not && e.isUntyped untyped) := by
  rw [isUntyped, allUntyped, isUntyped]

theorem isUntyped_binary (pos : Pos) (op : BinaryOp) (l r : Expr) :
    (binary pos op l r).isUntyped untyped =
      (op.isArith && (r.isUntyped untyped && l.isUntyped untyped)) := by
  rw [isUntyped, allUntyped, allUntyped_cons, ← isUntyped]

theorem quiet_of_isUntyped (e : Expr) (constant : e.isUntyped untyped) : e.quiet := by
  cases e with
  | int | name => rfl
  | unary pos op e =>
      rw [isUntyped_unary, Bool.and_eq_true] at constant
      exact quiet_of_isUntyped e constant.2
  | binary pos op l r =>
      rw [isUntyped_binary, Bool.and_eq_true, Bool.and_eq_true] at constant
      rw [quiet, quiet_of_isUntyped l constant.2.2, quiet_of_isUntyped r constant.2.1]
      rfl
  | float | bool | str | convert | index | call | print => simp [isUntyped, allUntyped] at constant

end Expr

end Treewalk
