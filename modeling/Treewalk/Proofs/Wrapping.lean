import Mathlib.Data.Int.ModEq
import Treewalk.Proofs.Effects

/-! # Whole numbers wrap around

Every operator cuts its outcome down to 32 bits. It comes to the same as if
sums, differences and products were taken exactly and only the last outcome were
cut down, as long as every literal fits where it stands.
-/

namespace Treewalk

open Effect

namespace Expr

/-- An expression of whole numbers and its exact value: made of literals, names
    of whole numbers, signs, sums, differences and products. -/
inductive Exact (env : Env) : Expr → Int → Prop where
  | int (pos : Pos) (n : Nat) : Exact env (.int pos n) n
  | name (pos : Pos) {x : String} {b : Binding} {n : Int32} :
      env.lookup x = some b → b.value = .int n → Exact env (.name pos x) n.toInt
  | neg (pos : Pos) {e : Expr} {n : Int} : Exact env e n → Exact env (.unary pos .neg e) (-n)
  | plus (pos : Pos) {e : Expr} {n : Int} : Exact env e n → Exact env (.unary pos .plus e) n
  | add (pos : Pos) {l r : Expr} {m n : Int} : Exact env l m → Exact env r n →
      Exact env (.binary pos (.arith .add) l r) (m + n)
  | sub (pos : Pos) {l r : Expr} {m n : Int} : Exact env l m → Exact env r n →
      Exact env (.binary pos (.arith .sub) l r) (m - n)
  | mul (pos : Pos) {l r : Expr} {m n : Int} : Exact env l m → Exact env r n →
      Exact env (.binary pos (.arith .mul) l r) (m * n)

/-- The first literal that is too large, with the place where it is reported. A
    sign belongs to the literal behind it, and the least number has no positive
    counterpart. -/
def misfit? : Expr → Option (Pos × Int)
  | .int pos n => if n ≤ 2147483647 then none else some (pos, n)
  | .unary pos .neg (.int _ n) => if n ≤ 2147483648 then none else some (pos, -n)
  | .unary _ _ e => e.misfit?
  | .binary _ _ l r => l.misfit?.or r.misfit?
  | _ => none

end Expr

/-! ## Outcomes -/

/-- What comes of an expression with an exact value: the value cut down to 32
    bits, or the misfit. The state is the one before. -/
def Wrapped (s : State) (n : Int) : Option (Pos × Int) → EStateM.Result RunError State Value
  | none => .ok (.int (Int32.ofInt n)) s
  | some (pos, k) => .error ⟨.constantOverflow k, some pos⟩ s

section Outcomes

variable {s : State} {m n : Int} {misfit misfit' : Option (Pos × Int)} {x y : Effect Value}

theorem located_wrapped (pos : Pos) (comes : x s = Wrapped s n misfit) :
    located pos x s = Wrapped s n misfit := by
  unfold located
  rw [comes]
  cases misfit with
  | none => rfl
  | some found => rfl

/-- A literal, with the sign that belongs to it. -/
theorem located_ofConstant (pos : Pos) {fits : Prop} [Decidable fits]
    (range : fits ↔ -2147483648 ≤ n ∧ n < 2147483648) :
    located pos (ofExcept (Value.ofConstant n)) s =
      Wrapped s n (if fits then none else some (pos, n)) := by
  unfold Value.ofConstant
  simp only [Bool.and_eq_true, decide_eq_true_eq, ← range]
  split
  · rfl
  · rfl

theorem signed_wrapped {op : UnaryOp} {k : Int} (comes : x s = Wrapped s n misfit)
    (sign : s.heap.signed op (.int (Int32.ofInt n)) = .ok (.int (Int32.ofInt k))) :
    (do let v ← x; ofExcept ((← get).heap.signed op v) : Effect Value) s = Wrapped s k misfit := by
  cases misfit with
  | none =>
      rw [bind_ok comes, get_bind, sign]
      rfl
  | some found => exact bind_error comes

/-- The first operand is asked first, and so is its misfit. -/
theorem arith_wrapped {op : ArithOp} {k : Int} (l r : Expr) (left : x s = Wrapped s m misfit)
    (right : y s = Wrapped s n misfit')
    (outcome : op.onInt (Int32.ofInt m) (Int32.ofInt n) = .ok (Int32.ofInt k)) :
    binary (.arith op) ⟨l, x⟩ ⟨r, y⟩ s = Wrapped s k (misfit.or misfit') := by
  cases misfit with
  | some found => exact bind_error left
  | none =>
      rw [binary, bind_ok left]
      cases misfit' with
      | some found => exact bind_error right
      | none =>
          rw [bind_ok right]
          change ofExcept (s.heap.arith op _ _) s = _
          rw [Heap.arith, outcome]
          rfl

end Outcomes

/-- Cutting down goes through every operator, so it may wait until the end. -/
theorem Expr.Exact.eval {s : State} {e : Expr} {n : Int} (exact : e.Exact s.env n) (call : Caller) :
    e.eval call s = Wrapped s n e.misfit? := by
  induction exact with
  | int pos n =>
      rw [Expr.eval]
      exact located_ofConstant pos (by omega)
  | @name pos x b n found value =>
      rw [Expr.eval]
      simp only [misfit?]
      apply located_wrapped
      rw [readName, get_bind, found]
      dsimp only
      rw [value, Wrapped, Int32.ofInt_toInt]
      rfl
  | @neg pos e n exact ih =>
      rw [Expr.eval]
      -- A literal behind the sign is not evaluated on its own, so `ih` says nothing about it.
      cases exact with
      | int pos' n => exact located_ofConstant pos (by omega)
      | name | neg | plus | add | sub | mul =>
          apply located_wrapped
          apply signed_wrapped ih
          rw [Heap.signed, ← Int32.ofInt_neg]
  | plus pos exact ih =>
      rw [Expr.eval, misfit?]
      · exact located_wrapped pos (signed_wrapped ih rfl)
      · nofun
  | add pos left right ihl ihr =>
      rw [Expr.eval, misfit?]
      apply located_wrapped
      apply arith_wrapped _ _ ihl ihr
      rw [ArithOp.onInt, Int32.ofInt_add]
  | sub pos left right ihl ihr =>
      rw [Expr.eval, misfit?]
      apply located_wrapped
      apply arith_wrapped _ _ ihl ihr
      rw [ArithOp.onInt, Int32.ofInt_sub]
  | mul pos left right ihl ihr =>
      rw [Expr.eval, misfit?]
      apply located_wrapped
      apply arith_wrapped _ _ ihl ihr
      rw [ArithOp.onInt, Int32.ofInt_mul]

/-- Of all numbers that differ by multiples of 2^32, one is in range. -/
theorem modEq_iff_eq_ofInt {m : Int32} {n : Int} :
    m.toInt ≡ n [ZMOD 2 ^ 32] ↔ m = Int32.ofInt n := by
  constructor
  · intro congruent
    have same : m.toInt.bmod Int32.size = n.bmod Int32.size := by
      rw [← Int.emod_bmod, ← Int.emod_bmod n]
      exact congrArg (Int.bmod · Int32.size) congruent
    rw [← Int32.toInt_inj, Int32.toInt_ofInt, ← same, Int32.toInt_bmod_size]
  · rintro rfl
    rw [Int32.toInt_ofInt]
    exact Int.bmod_emod

/-- An expression of literals, names of whole numbers, signs, sums, differences
    and products, in whatever state: if every literal fits where it stands, the
    state stays, and the value is the one 32-bit number that differs from the
    exact value by a multiple of 2^32. Otherwise the first literal that does not
    fit is reported. -/
theorem arithmetic_wraps (call : Caller) (s : State) {e : Expr} {n : Int}
    (exact : e.Exact s.env n) :
    (e.misfit? = none →
      ∃ m : Int32, e.eval call s = .ok (.int m) s ∧ m.toInt ≡ n [ZMOD 2 ^ 32] ∧
        ∀ m' : Int32, m'.toInt ≡ n [ZMOD 2 ^ 32] → m' = m) ∧
    (∀ pos k, e.misfit? = some (pos, k) →
      e.eval call s = .error ⟨.constantOverflow k, some pos⟩ s) := by
  have outcome := exact.eval call
  constructor
  · intro fits
    rw [fits] at outcome
    exact ⟨Int32.ofInt n, outcome, modEq_iff_eq_ofInt.mpr rfl, fun m' => modEq_iff_eq_ofInt.mp⟩
  · intro pos k misfit
    rw [misfit] at outcome
    exact outcome

/-- `x * x` less something. -/
def squareLess (e : Expr) : Expr :=
  .binary ⟨1, 7⟩ (.arith .sub)
    (.binary ⟨1, 3⟩ (.arith .mul) (.name ⟨1, 1⟩ "x") (.name ⟨1, 5⟩ "x")) e

/-- `x` is the largest number. -/
def squareState : State :=
  { State.fresh 5 .silent with env := ⟨[("x", ⟨.int 2147483647, .int, .variable⟩)], []⟩ }

theorem squareLess_exact {e : Expr} {n : Int} (exact : e.Exact squareState.env n) :
    (squareLess e).Exact squareState.env (2147483647 * 2147483647 - n) :=
  have x (pos : Pos) : Expr.Exact squareState.env (.name pos "x") (2147483647 : Int32).toInt :=
    .name pos rfl rfl
  .sub _ (.mul _ (x _) (x _)) exact

/-- The square alone is far out of range, and the difference too. The least number
    can be written, but not without its sign. -/
theorem arithmetic_wraps_square :
    (squareLess (.unary ⟨1, 9⟩ .neg (.int ⟨1, 10⟩ 2147483648))).eval callFunction squareState =
      .ok (.int (-2147483647)) squareState ∧
    (squareLess (.int ⟨1, 9⟩ 2147483648)).eval callFunction squareState =
      .error ⟨.constantOverflow 2147483648, some ⟨1, 9⟩⟩ squareState := by
  constructor
  · obtain ⟨m, value, -, only⟩ :=
      (arithmetic_wraps callFunction squareState (squareLess_exact (.neg _ (.int _ 2147483648)))).1 rfl
    rw [only (-2147483647) (by decide)]
    exact value
  · exact (arithmetic_wraps callFunction squareState (squareLess_exact (.int _ 2147483648))).2 _ _ rfl

end Treewalk
