import Treewalk.Proofs.Kinds
import Treewalk.Proofs.Quiet

/-! # Updates of a target

`t op= e` does what `t = t op e` does, except that the operands of `t` are
evaluated once. Where they change nothing, both succeed together and do the same.
`t++` and `t--` are `t += 1` and `t -= 1`, whatever the operands of `t` do.
-/

namespace Treewalk

open Effect

/-! ## Expressions without calls and prints -/

namespace Expr

/-- Where nothing is called it does not matter how calls are made. -/
theorem eval_of_quiet (call call' : Caller) (e : Expr) (quiet : e.quiet) :
    e.eval call = e.eval call' := by
  cases e with
  | int | float | bool | str | name => rfl
  | unary pos op e => rw [eval, eval, eval_of_quiet call call' e quiet]
  | convert pos ty e => rw [eval, eval, eval_of_quiet call call' e quiet]
  | binary pos op l r =>
      rw [Expr.quiet, Bool.and_eq_true] at quiet
      rw [eval, eval, eval_of_quiet call call' l quiet.1, eval_of_quiet call call' r quiet.2]
  | index pos a i =>
      rw [Expr.quiet, Bool.and_eq_true] at quiet
      rw [eval, eval, eval_of_quiet call call' a quiet.1, eval_of_quiet call call' i quiet.2]
  | call | print => cases quiet

theorem eq_of_quiet {call : Caller} {e : Expr} {s t : State} {v : Value} (quiet : e.quiet)
    (ok : e.eval call s = .ok v t) : t = s := by
  rw [eval_of_quiet call callFunction e quiet] at ok
  obtain ⟨size, bounded⟩ := Point.exists_bounded (.expr e) s
  have met := Discipline.meets_level (Discipline.beside_level bounded)
    (Discipline.ready_level.mpr bounded.2)
  exact (Discipline.Lockstep.kept Discipline.single_level met ok).2.2.still quiet

end Expr

/-! ## Updates that succeed -/

section Updates

variable {call : Caller} {target e : Expr} {s t u : State}

/-- The target is written with the outcome of arithmetic on what it holds and on
    the value of `e`, and nothing else is changed on the way. -/
def Updates (call : Caller) (target : Expr) (op : ArithOp) (e : Expr) (s u : State) : Prop :=
  ∃ place old v a b w, target.place (Expr.eval call) s = .ok place s ∧
    place.read s = .ok old s ∧ e.eval call s = .ok v s ∧
    balanced target old e v s = .ok (a, b) s ∧ arith op a b s = .ok w s ∧
    place.write w false s = .ok () u

theorem arith_eq_ok {op : ArithOp} {a b w : Value} (ok : arith op a b s = .ok w t) : t = s := by
  rw [arith, get_bind] at ok
  exact (ofExcept_eq_ok.mp ok).2.symm

theorem read_eq_ok {place : Place} {v : Value} (ok : place.read s = .ok v t) : t = s := by
  cases place with
  | var x =>
      rw [Place.read, get_bind] at ok
      cases found : s.env.lookup x with
      | none =>
          rw [found] at ok
          cases ok
      | some b =>
          rw [found] at ok
          exact (pure_eq_ok.mp ok).2.symm
  | cell h i =>
      rw [Place.read, get_bind] at ok
      exact (ofExcept_eq_ok.mp ok).2.symm

theorem Expr.place_of_quiet {place : Place} (quiet : target.quiet)
    (ok : target.place (Expr.eval call) s = .ok place t) : t = s := by
  cases target with
  | name pos x =>
      rw [Expr.place, get_bind] at ok
      cases found : s.env.lookup x with
      | none =>
          rw [found] at ok
          cases ok
      | some b =>
          rw [found] at ok
          dsimp only at ok
          split at ok
          · exact (pure_eq_ok.mp ok).2.symm
          · cases ok
  | index pos a i =>
      rw [Expr.quiet, Bool.and_eq_true] at quiet
      obtain ⟨h, s₁, first, rest⟩ := bind_eq_ok.mp ok
      obtain ⟨n, s₂, second, done⟩ := bind_eq_ok.mp rest
      obtain ⟨m, value⟩ := index_eq_ok second
      obtain rfl := Expr.eq_of_quiet quiet.1 (array_eq_ok first)
      obtain rfl := Expr.eq_of_quiet quiet.2 value
      exact (pure_eq_ok.mp done).2.symm
  | int | float | bool | str | unary | binary | convert | call | print => cases ok

/-- A target that can be written evaluates to what its place holds. -/
theorem Expr.eval_of_place {place : Place} {v : Value} (quiet : target.quiet)
    (aimed : target.place (Expr.eval call) s = .ok place s) :
    target.eval call s = .ok v s ↔ place.read s = .ok v s := by
  cases target with
  | name pos x =>
      rw [Expr.place, get_bind] at aimed
      cases found : s.env.lookup x with
      | none =>
          rw [found] at aimed
          cases aimed
      | some b =>
          rw [found] at aimed
          dsimp only at aimed
          split at aimed
          · obtain ⟨rfl, _⟩ := pure_eq_ok.mp aimed
            rw [Expr.eval, located_eq_ok]
            exact Iff.rfl
          · cases aimed
  | index pos a i =>
      rw [Expr.quiet, Bool.and_eq_true] at quiet
      obtain ⟨h, s₁, first, rest⟩ := bind_eq_ok.mp aimed
      obtain rfl := Expr.eq_of_quiet quiet.1 (array_eq_ok first)
      obtain ⟨n, s₂, second, done⟩ := bind_eq_ok.mp rest
      obtain ⟨rfl, rfl⟩ := pure_eq_ok.mp done
      rw [Expr.eval, located_eq_ok, element, bind_ok first, bind_ok second]
      exact Iff.rfl
  | int | float | bool | str | unary | binary | convert | call | print => cases aimed

/-- A target that can be written is no constant. -/
theorem Expr.isUntyped_of_place {place : Place}
    (aimed : target.place (Expr.eval call) s = .ok place t) :
    s.signature.isUntyped target = false := by
  cases target with
  | name pos x =>
      rw [Expr.place, get_bind] at aimed
      cases found : s.env.lookup x with
      | none =>
          rw [found] at aimed
          cases aimed
      | some b =>
          rw [found] at aimed
          dsimp only at aimed
          split at aimed
          · next role =>
              simp [Signature.isUntyped, isUntyped, allUntyped, State.signature, found, role]
          · cases aimed
  | index pos a i => simp [Signature.isUntyped, isUntyped, allUntyped]
  | int | float | bool | str | unary | binary | convert | call | print => cases aimed

theorem assign_some_eq_ok {op : ArithOp} (still : target.quiet) (quiet : e.quiet) :
    assign (Expr.eval call) target (some op) e s = .ok () u ↔ Updates call target op e s u := by
  constructor
  · intro ok
    obtain ⟨place, s₁, aimed, rest⟩ := bind_eq_ok.mp ok
    obtain rfl := Expr.place_of_quiet still aimed
    obtain ⟨v, s₂, value, rest'⟩ := bind_eq_ok.mp rest
    obtain rfl := Expr.eq_of_quiet quiet value
    obtain ⟨old, s₃, read, rest''⟩ := bind_eq_ok.mp rest'
    obtain rfl := read_eq_ok read
    obtain ⟨⟨a, b⟩, s₄, balances, last⟩ := bind_eq_ok.mp rest''
    obtain ⟨rfl, _⟩ := balanced_cases balances
    obtain ⟨w, s₅, outcome, written⟩ := bind_eq_ok.mp last
    have outcome := located_eq_ok.mp outcome
    obtain rfl := arith_eq_ok outcome
    exact ⟨place, old, v, a, b, w, aimed, read, value, balances, outcome, written⟩
  · rintro ⟨place, old, v, a, b, w, aimed, read, value, balances, outcome, written⟩
    refine bind_eq_ok.mpr ⟨place, s, aimed, bind_eq_ok.mpr ⟨v, s, value, ?_⟩⟩
    refine bind_eq_ok.mpr ⟨old, s, read, bind_eq_ok.mpr ⟨(a, b), s, balances, ?_⟩⟩
    exact bind_eq_ok.mpr ⟨w, s, located_eq_ok.mpr outcome, written⟩

/-- The outcome of arithmetic with a target that can be written has a type. -/
theorem isUntyped_expanded {place : Place} {pos : Pos} {op : ArithOp}
    (aimed : target.place (Expr.eval call) s = .ok place s) :
    isUntyped (.binary pos (.arith op) target e) s = .ok false s := by
  have typed := Expr.isUntyped_of_place aimed
  rw [State.isUntyped_eq, Signature.isUntyped, Expr.isUntyped_binary]
  rw [Signature.isUntyped] at typed
  simp [typed]

theorem assign_expanded_eq_ok {pos : Pos} {op : ArithOp} (still : target.quiet)
    (quiet : e.quiet) :
    assign (Expr.eval call) target none (.binary pos (.arith op) target e) s = .ok () u ↔
      Updates call target op e s u := by
  constructor
  · intro ok
    obtain ⟨place, s₁, aimed, rest⟩ := bind_eq_ok.mp ok
    obtain rfl := Expr.place_of_quiet still aimed
    obtain ⟨w, s₂, value, rest'⟩ := bind_eq_ok.mp rest
    rw [Expr.eval, located_eq_ok] at value
    obtain ⟨old, s₃, first, more⟩ := bind_eq_ok.mp value
    obtain rfl := Expr.eq_of_quiet still first
    obtain ⟨v, s₄, second, more'⟩ := bind_eq_ok.mp more
    obtain rfl := Expr.eq_of_quiet quiet second
    obtain ⟨⟨a, b⟩, s₅, balances, outcome⟩ := bind_eq_ok.mp more'
    obtain ⟨rfl, _⟩ := balanced_cases balances
    obtain rfl := arith_eq_ok outcome
    have read := (Expr.eval_of_place still aimed).mp first
    obtain ⟨untyped, s₆, asked, written⟩ := bind_eq_ok.mp rest'
    rw [isUntyped_expanded aimed] at asked
    cases asked
    exact ⟨place, old, v, a, b, w, aimed, read, second, balances, outcome, written⟩
  · rintro ⟨place, old, v, a, b, w, aimed, read, value, balances, outcome, written⟩
    have first := (Expr.eval_of_place still aimed).mpr read
    refine bind_eq_ok.mpr ⟨place, s, aimed, bind_eq_ok.mpr ⟨w, s, ?_, ?_⟩⟩
    · rw [Expr.eval, located_eq_ok]
      refine bind_eq_ok.mpr ⟨old, s, first, bind_eq_ok.mpr ⟨v, s, value, ?_⟩⟩
      exact bind_eq_ok.mpr ⟨(a, b), s, balances, outcome⟩
    · exact bind_eq_ok.mpr ⟨false, s, isUntyped_expanded aimed, written⟩

end Updates

/-! ## Steps by one -/

namespace Effect

variable {α β : Type}

/-- What an action does, no matter where its error is said to be: its value or
    its fault, and the state that it leaves behind. -/
def unplaced (x : Effect α) (s : State) : Except Fault α × State :=
  match x s with
  | .ok a t => (.ok a, t)
  | .error e t => (.error e.fault, t)

theorem unplaced_located (pos : Pos) (x : Effect α) (s : State) :
    (located pos x).unplaced s = x.unplaced s := by
  unfold unplaced located
  cases x s with
  | ok a t => rfl
  | error e t =>
      cases place : e.pos <;> simp [RunError.within, place]

theorem unplaced_bind {x y : Effect α} {f g : α → Effect β} {s : State}
    (first : x.unplaced s = y.unplaced s) (next : ∀ a t, (f a).unplaced t = (g a).unplaced t) :
    (x >>= f).unplaced s = (y >>= g).unplaced s := by
  unfold unplaced at first
  cases ran : x s with
  | ok a t =>
      cases ran' : y s with
      | ok b u =>
          simp only [ran, ran', Prod.mk.injEq, Except.ok.injEq] at first
          obtain ⟨rfl, rfl⟩ := first
          have same := next a t
          unfold unplaced at same ⊢
          rw [bind_ok ran, bind_ok ran']
          exact same
      | error e u => simp [ran, ran'] at first
  | error e t =>
      cases ran' : y s with
      | ok b u => simp [ran, ran'] at first
      | error e' u =>
          simp only [ran, ran', Prod.mk.injEq, Except.error.injEq] at first
          unfold unplaced
          rw [bind_error ran, bind_error ran']
          simp only [first]

/-- A step by one asks what its target holds, and adds or subtracts a one of that
    kind. -/
theorem balanced_one (target : Expr) (pos : Pos) (old : Value) (s : State) :
    balanced target old (.int pos 1) (.int 1) s =
      .ok (old, match old with | .float _ => .float 1 | _ => .int 1) s := by
  cases old with
  | float x =>
      have untyped : isUntyped (.int pos 1) s = .ok true s := by
        rw [State.isUntyped_eq]
        simp [Signature.isUntyped, Expr.isUntyped, Expr.allUntyped]
      exact bind_ok untyped
  | int | bool | array | unit => rfl

theorem unplaced_bump (call : Caller) (target : Expr) (up : Bool) (pos : Pos) (s : State) :
    (bump (Expr.eval call) target up).unplaced s =
      (assign (Expr.eval call) target (some (if up then .add else .sub)) (.int pos 1)).unplaced s := by
  apply unplaced_bind rfl
  intro place s
  have one : Expr.eval call (.int pos 1) s = .ok (.int 1) s := by
    rw [Expr.eval]
    rfl
  unfold unplaced
  rw [bind_ok one]
  apply unplaced_bind rfl
  intro old s
  unfold unplaced
  rw [bind_ok (balanced_one target pos old s)]
  exact unplaced_bind (unplaced_located ..).symm fun _ _ => rfl

end Effect

/-- An update by an operator and the plain assignment that spells it out succeed
    together, and then do the same, as long as the target and the operand have no
    calls and prints. A step up or down by one does what the update by one does,
    whatever the target is: it leaves the same state behind, and it succeeds or
    has the same fault. -/
theorem updates_agree (call : Caller) (target : Expr) (pos pos' pos'' : Pos) (s : State) :
    (∀ op e ending u, target.quiet → e.quiet →
      ((Stmt.assign pos target (some op) e).exec call s = .ok ending u ↔
        (Stmt.assign pos' target none (.binary pos'' (.arith op) target e)).exec call s =
          .ok ending u)) ∧
    ∀ up, ((Stmt.bump pos target up).exec call).unplaced s =
      ((Stmt.assign pos' target (some (if up then .add else .sub)) (.int pos'' 1)).exec
        call).unplaced s := by
  constructor
  · intro op e ending u still quiet
    rw [Stmt.exec, Stmt.exec, located_eq_ok, located_eq_ok, bind_eq_ok, bind_eq_ok]
    simp only [assign_some_eq_ok still quiet, assign_expanded_eq_ok still quiet]
  · intro up
    rw [Stmt.exec, Stmt.exec, unplaced_located, unplaced_located]
    exact unplaced_bind (unplaced_bump call target up pos'' s) fun _ _ => rfl

/-- `a[0] -= k` and `a[0] = a[0] - k` on an array of one number. -/
theorem updates_agree_element :
    let here : Pos := default
    let s : State := { State.fresh 8 .silent with
      env := ⟨[("a", ⟨.array ⟨0⟩, .array 1 .int, .variable⟩), ("k", ⟨.int 2, .int, .untyped⟩)], []⟩
      heap := ⟨#[⟨.int, #[.int 7]⟩]⟩ }
    let u : State := { s with heap := ⟨#[⟨.int, #[.int 5]⟩]⟩ }
    let target : Expr := .index here (.name here "a") (.int here 0)
    let e : Expr := .name here "k"
    target.quiet ∧ e.quiet ∧
      (Stmt.assign here target (some .sub) e).exec callFunction s = .ok .next u ∧
      (Stmt.assign here target none (.binary here (.arith .sub) target e)).exec callFunction s =
        .ok .next u := by
  intro here s u target e
  have updated : (Stmt.assign here target (some .sub) e).exec callFunction s = .ok .next u := rfl
  have agree := (updates_agree callFunction target here here here s).1 .sub e .next u rfl rfl
  exact ⟨rfl, rfl, updated, agree.mp updated⟩

end Treewalk
