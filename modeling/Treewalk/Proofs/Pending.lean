import Treewalk.Tree.Expr

/-! # The test for constants without a type

The test keeps a list of expressions that it still has to look at, and takes one off
in each turn. It comes to an answer after no more turns than the tree has nodes, and
the answer is what the grammar of constants says.
-/

namespace Treewalk.Expr

/-- The whole-number constants that have no type yet: literals, names that `untyped`
    accepts, and signs and arithmetic on such. -/
inductive Untyped (untyped : String → Bool) : Expr → Prop where
  | int (pos : Pos) (n : Int) : Untyped untyped (.int pos n)
  | name {pos : Pos} {x : String} : untyped x → Untyped untyped (.name pos x)
  | sign {pos : Pos} {op : UnaryOp} {e : Expr} : op = .neg ∨ op = .plus →
      Untyped untyped e → Untyped untyped (.unary pos op e)
  | arith {pos : Pos} (op : ArithOp) {l r : Expr} : Untyped untyped l → Untyped untyped r →
      Untyped untyped (.binary pos (.arith op) l r)

/-! ## Turns -/

/-- What a turn of the test comes to. -/
inductive Turn where
  /-- These expressions are left to look at. -/
  | pending (es : List Expr)
  | answer (b : Bool)

/-- One turn of the test. -/
def turn (untyped : String → Bool) : List Expr → Turn
  | [] => .answer true
  | .int _ _ :: rest => .pending rest
  | .name _ x :: rest => if untyped x then .pending rest else .answer false
  | .unary _ op e :: rest => if op = .not then .answer false else .pending (e :: rest)
  | .binary _ op l r :: rest => if op.isArith then .pending (r :: l :: rest) else .answer false
  | _ => .answer false

/-- The answer of the test, if it comes within some number of turns. -/
def answer? (untyped : String → Bool) : Nat → List Expr → Option Bool
  | 0, _ => none
  | n + 1, es =>
      match turn untyped es with
      | .pending rest => answer? untyped n rest
      | .answer b => some b

/-- The number of operators and operands that the test can get to see. -/
def nodes : Expr → Nat
  | .unary _ _ e => e.nodes + 1
  | .binary _ _ l r => l.nodes + r.nodes + 1
  | _ => 1

/-- The same for a list of expressions. -/
def allNodes : List Expr → Nat
  | [] => 0
  | e :: es => e.nodes + allNodes es

variable {untyped : String → Bool} {es rest : List Expr}

theorem untyped_name_iff {pos : Pos} {x : String} :
    Untyped untyped (.name pos x) ↔ untyped x := by
  constructor
  · rintro ⟨⟩
    assumption
  · exact .name

theorem untyped_unary_iff {pos : Pos} {op : UnaryOp} {e : Expr} :
    Untyped untyped (.unary pos op e) ↔ op ≠ .not ∧ Untyped untyped e := by
  constructor
  · rintro (_ | _ | ⟨rfl | rfl, inner⟩)
    · exact ⟨by decide, inner⟩
    · exact ⟨by decide, inner⟩
  · rintro ⟨sign, inner⟩
    cases op with
    | neg => exact .sign (.inl rfl) inner
    | plus => exact .sign (.inr rfl) inner
    | not => exact absurd rfl sign

theorem untyped_binary_iff {pos : Pos} {op : BinaryOp} {l r : Expr} :
    Untyped untyped (.binary pos op l r) ↔
      op.isArith ∧ Untyped untyped l ∧ Untyped untyped r := by
  constructor
  · rintro (_ | _ | _ | ⟨op, left, right⟩)
    exact ⟨rfl, left, right⟩
  · rintro ⟨arith, left, right⟩
    cases op with
    | arith op => exact .arith op left right
    | compare op => cases arith
    | logic op => cases arith

/-- A turn that leaves something to look at takes one node off, and neither the answer
    nor what the grammar says is changed by it. -/
theorem turn_pending (goes : turn untyped es = .pending rest) :
    allNodes es = allNodes rest + 1 ∧
      allUntyped untyped es = allUntyped untyped rest ∧
      ((∀ e ∈ es, Untyped untyped e) ↔ ∀ e ∈ rest, Untyped untyped e) := by
  revert goes
  fun_cases turn untyped es with
  | case1 => rintro ⟨⟩
  | case2 pos n rest =>
      rintro ⟨⟩
      refine ⟨by simp only [allNodes, nodes, Nat.add_comm], by rw [allUntyped], ?_⟩
      simp [Untyped.int pos n]
  | case3 pos x rest accepted =>
      rintro ⟨⟩
      refine ⟨by simp only [allNodes, nodes, Nat.add_comm],
        by rw [allUntyped, accepted, Bool.true_and], ?_⟩
      simp [untyped_name_iff, accepted]
  | case4 => rintro ⟨⟩
  | case5 => rintro ⟨⟩
  | case6 pos op e rest sign =>
      rintro ⟨⟩
      refine ⟨by simp only [allNodes, nodes]; omega, ?_, by simp [untyped_unary_iff, sign]⟩
      rw [allUntyped, bne_iff_ne.mpr sign, Bool.true_and]
  | case7 pos op l r rest arith =>
      rintro ⟨⟩
      refine ⟨by simp only [allNodes, nodes]; omega, by rw [allUntyped, arith, Bool.true_and], ?_⟩
      simp only [List.forall_mem_cons, untyped_binary_iff, arith, true_and]
      constructor
      · rintro ⟨⟨left, right⟩, more⟩
        exact ⟨right, left, more⟩
      · rintro ⟨right, left, more⟩
        exact ⟨⟨left, right⟩, more⟩
  | case8 => rintro ⟨⟩
  | case9 => rintro ⟨⟩

/-- A turn that comes to an answer comes to the right one. -/
theorem turn_answer {b : Bool} (stops : turn untyped es = .answer b) :
    allUntyped untyped es = b ∧ (b = true ↔ ∀ e ∈ es, Untyped untyped e) := by
  revert stops
  fun_cases turn untyped es with
  | case1 =>
      rintro ⟨⟩
      simp [allUntyped]
  | case2 => rintro ⟨⟩
  | case3 => rintro ⟨⟩
  | case4 pos x rest refused =>
      rintro ⟨⟩
      simp [allUntyped, untyped_name_iff, refused]
  | case5 pos e rest =>
      rintro ⟨⟩
      simp [allUntyped, untyped_unary_iff]
  | case6 => rintro ⟨⟩
  | case7 => rintro ⟨⟩
  | case8 pos op l r rest other =>
      rintro ⟨⟩
      simp [allUntyped, untyped_binary_iff, other]
  | case9 es some int name unary binary =>
      -- the forms that no rule of the grammar has
      rintro ⟨⟩
      rw [allUntyped.eq_def]
      cases es with
      | nil => exact absurd rfl some
      | cons e rest =>
          cases e with
          | int => exact absurd rfl (int _ _ _)
          | name => exact absurd rfl (name _ _ _)
          | unary => exact absurd rfl (unary _ _ _ _)
          | binary => exact absurd rfl (binary _ _ _ _ _)
          | float | bool | str | convert | index | call | print =>
              refine ⟨rfl, by rintro ⟨⟩, fun all => ?_⟩
              cases all _ List.mem_cons_self

/-! ## Runs -/

theorem answer?_eq (untyped : String → Bool) {n : Nat} (enough : allNodes es < n) :
    answer? untyped n es = some (allUntyped untyped es) := by
  induction n generalizing es with
  | zero => exact absurd enough (Nat.not_lt_zero _)
  | succ n ih =>
      rw [answer?]
      cases outcome : turn untyped es with
      | pending rest =>
          obtain ⟨fewer, same, _⟩ := turn_pending outcome
          rw [same]
          exact ih (by omega)
      | answer b => rw [(turn_answer outcome).1]

theorem answer?_sound {n : Nat} {b : Bool} (answered : answer? untyped n es = some b) :
    b = true ↔ ∀ e ∈ es, Untyped untyped e := by
  induction n generalizing es with
  | zero => cases answered
  | succ n ih =>
      rw [answer?] at answered
      cases outcome : turn untyped es with
      | pending rest =>
          rw [outcome] at answered
          exact (ih answered).trans (turn_pending outcome).2.2.symm
      | answer c =>
          rw [outcome] at answered
          cases answered
          exact (turn_answer outcome).2

/-- The test comes to its answer after at most one turn more than there are nodes, and
    accepts exactly the constants of the grammar. -/
theorem isUntyped_iff_generated (untyped : String → Bool) (e : Expr) :
    answer? untyped (e.nodes + 1) [e] = some (e.isUntyped untyped) ∧
      (e.isUntyped untyped = true ↔ Untyped untyped e) := by
  have answered : answer? untyped (e.nodes + 1) [e] = some (e.isUntyped untyped) :=
    answer?_eq untyped (Nat.lt_succ_self _)
  refine ⟨answered, ?_⟩
  simpa using answer?_sound answered

end Treewalk.Expr
