import Mathlib.Data.List.Forall2
import Treewalk.Proofs.Lockstep.Discipline
import Treewalk.Proofs.Quiet

/-! # Expressions in lockstep

Operands that are evaluated in lockstep make up expressions that are. Apart
from calls and prints, no expression touches the state.
-/

namespace Treewalk

namespace Value

theorem isScalar_int (n : Int32) : (int n).IsScalar := fun _ => nofun

theorem isScalar_float (x : Float32) : (float x).IsScalar := fun _ => nofun

theorem isScalar_bool (b : Bool) : (bool b).IsScalar := fun _ => nofun

theorem isScalar_unit : unit.IsScalar := fun _ => nofun

theorem isInt_ofConstant {n : Int} {v : Value} (h : ofConstant n = .ok v) : v.IsInt := by
  unfold ofConstant at h
  split at h
  · cases h
    exact ⟨_, rfl⟩
  · cases h

theorem IsInt.isScalar {v : Value} (h : v.IsInt) : v.IsScalar := by
  obtain ⟨n, rfl⟩ := h
  exact isScalar_int n

end Value

namespace Heap

open Value

theorem isInt_arith {heap : Heap} {op : ArithOp} {a b v : Value} (left : a.IsInt)
    (right : b.IsInt) (h : heap.arith op a b = .ok v) : v.IsInt := by
  obtain ⟨m, rfl⟩ := left
  obtain ⟨n, rfl⟩ := right
  rw [arith] at h
  cases r : op.onInt m n <;> rw [r] at h <;> cases h
  exact ⟨_, rfl⟩

theorem isInt_signed {heap : Heap} {op : UnaryOp} {v w : Value} (int : v.IsInt)
    (h : heap.signed op v = .ok w) : w.IsInt := by
  obtain ⟨n, rfl⟩ := int
  cases op <;> cases h <;> exact ⟨_, rfl⟩

theorem isScalar_arith {heap : Heap} {op : ArithOp} {a b v : Value}
    (h : heap.arith op a b = .ok v) : v.IsScalar := by
  unfold arith at h
  split at h
  · rename_i m n
    cases r : op.onInt m n <;> rw [r] at h <;> cases h
    exact isScalar_int _
  · rename_i x y
    cases r : op.onFloat x y <;> rw [r] at h <;> cases h
    exact isScalar_float _
  · cases h

theorem isScalar_compare {heap : Heap} {op : CompareOp} {a b v : Value}
    (h : heap.compare op a b = .ok v) : v.IsScalar := by
  unfold compare at h
  split at h
  · cases h; exact isScalar_bool _
  · cases h; exact isScalar_bool _
  · split at h <;> cases h <;> exact isScalar_bool _
  · cases h

theorem isScalar_convert {heap : Heap} {ty : Ty} {v w : Value}
    (h : heap.convert ty v = .ok w) : w.IsScalar := by
  unfold convert at h
  split at h <;> cases h
  · exact isScalar_int _
  · exact isScalar_int _
  · exact isScalar_float _
  · exact isScalar_float _
  · exact isScalar_bool _

theorem isScalar_signed {heap : Heap} {op : UnaryOp} {v w : Value}
    (h : heap.signed op v = .ok w) : w.IsScalar := by
  unfold signed at h
  split at h <;> cases h
  · exact isScalar_int _
  · exact isScalar_float _
  · exact isScalar_int _
  · exact isScalar_float _

end Heap

namespace Discipline

variable {D : Discipline} {k : Scale} {s : State} {t : SecondRun}

variable (D) in
/-- What a call may give back, by the type of its result. -/
def answers (heap : Heap) : Option Ty → Value → Prop
  | none, v => v = .unit
  | some .bool, v => ∃ b, v = .bool b
  | some ty, v => D.fits heap ty v

theorem owns_answer {heap : Heap} {ty : Option Ty} {v : Value} (h : D.answers heap ty v) :
    D.owns heap v := by
  unfold answers at h
  split at h
  · subst h
    exact D.owns_scalar Value.isScalar_unit
  · obtain ⟨b, rfl⟩ := h
    exact D.owns_scalar (Value.isScalar_bool b)
  · exact D.owns_fitting h

variable (D) in
/-- Arguments that may be bound to parameters. -/
def Suits (heap : Heap) (params : List Param) (args : List Value) : Prop :=
  ∀ pv ∈ params.zip args, D.fits heap pv.1.ty pv.2

variable (D) in
/-- What is known of the value of an expression, and of the state after it. -/
structure Yields (e : Expr) (s : State) (v : Value) (u : State) : Prop where
  owned : D.owns u.heap v
  still : e.quiet → u = s
  int : D.honest → u.isUntyped e → v.IsInt

/-- The value of an expression that is never taken for a constant without a type. -/
theorem Yields.typed {e : Expr} {v : Value} {u : State} (owned : D.owns u.heap v)
    (still : e.quiet → u = s)
    (typed : u.isUntyped e = false := by
      simp [State.isUntyped, Expr.isUntyped, Expr.allUntyped, BinaryOp.isArith]) :
    D.Yields e s v u :=
  ⟨owned, still, fun _ untyped => absurd (typed.symm.trans untyped) Bool.false_ne_true⟩

variable (D) in
/-- Two operands of one expression, evaluated in lockstep wherever that starts. -/
structure Alike (x y : Operand) : Prop where
  expr : x.expr = y.expr
  mark : D.marks x.expr.pos
  value : ∀ {s t}, D.Beside s t → D.Lockstep .expr x.value y.value s t (D.Yields x.expr s)

namespace Lockstep

/-! ## Reading the state -/

/-- What both read is the same, and the state stays. -/
theorem reading {α γ : Type} {r : State → γ} {f g : γ → Effect α} {Q : α → State → Prop}
    (h : D.Beside s t) (same : ∀ {u}, s.SameView u → r u = r s)
    (next : D.Lockstep k (f (r s)) (g (r s)) s t Q) :
    D.Lockstep k (do f (r (← MonadState.get))) (do g (r (← MonadState.get))) s t Q := by
  refine .get h fun u view => ?_
  rw [same view]
  exact next

theorem isUntyped {α : Type} {f g : Bool → Effect α} {Q : α → State → Prop} (h : D.Beside s t)
    (e : Expr) (next : D.Lockstep k (f (s.isUntyped e)) (g (s.isUntyped e)) s t Q) :
    D.Lockstep k (Effect.isUntyped e >>= f) (Effect.isUntyped e >>= g) s t Q := by
  apply reading (r := fun s => s.isUntyped e) h _ next
  intro u view
  rw [State.isUntyped, ← view.lookup]
  rfl

theorem kindOf {α : Type} {f g : Kind → Effect α} {Q : α → State → Prop} (h : D.Beside s t)
    (v : Value) (next : D.Lockstep k (f (s.heap.kind v)) (g (s.heap.kind v)) s t Q) :
    D.Lockstep k (Effect.kindOf v >>= f) (Effect.kindOf v >>= g) s t Q := by
  apply reading (r := fun s => s.heap.kind v) h _ next
  intro u view
  rw [view.heap]

/-- What comes of a look at the heap. -/
theorem ofHeap {α : Type} (r : Heap → Except Fault α) {Q : α → State → Prop} (h : D.Beside s t)
    (post : ∀ a, r s.heap = .ok a → Q a s) :
    D.Lockstep k (do Effect.ofExcept (r (← MonadState.get).heap))
      (do Effect.ofExcept (r (← MonadState.get).heap)) s t Q := by
  refine .get h fun u view => ?_
  rw [← view.heap]
  exact .ofExcept h rfl post

theorem conform (h : D.Beside s t) {v : Value} (owned : D.owns s.heap v) (ty : Ty)
    (untyped : Bool) (target : String) :
    D.Lockstep k (Effect.conform ty v untyped target) (Effect.conform ty v untyped target) s t
      fun w u => D.fits u.heap ty w := by
  obtain ⟨_, here⟩ := h.exists
  exact ofHeap (fun heap => heap.conform ty v untyped target) h
    fun w ok => D.fits_conform here owned ok

/-- A check that is milder if the value is that of a constant without a type. -/
theorem conformBy (h : D.Beside s t) {v : Value} (owned : D.owns s.heap v) (ty : Ty) (e : Expr)
    (target : String) :
    D.Lockstep k (do Effect.conform ty v (← Effect.isUntyped e) target)
      (do Effect.conform ty v (← Effect.isUntyped e) target) s t fun w u => D.fits u.heap ty w :=
  isUntyped h e (conform h owned ty _ target)

/-- Whole numbers need not be balanced. -/
theorem balanced {α : Type} {f g : Value × Value → Effect α} {Q : α → State → Prop}
    (h : D.Beside s t) (left : Expr) (a : Value) (right : Expr) (b : Value)
    (next : ∀ a' b', (a.IsInt → b.IsInt → a' = a ∧ b' = b) →
      D.Lockstep k (f (a', b')) (g (a', b')) s t Q) :
    D.Lockstep k (Effect.balanced left a right b >>= f) (Effect.balanced left a right b >>= g) s t
      Q := by
  have same := next a b fun _ _ => ⟨rfl, rfl⟩
  unfold Effect.balanced
  split
  · rename_i n x
    rw [bind_assoc, bind_assoc]
    apply isUntyped h
    cases s.isUntyped left with
    | true => exact next _ _ fun _ ⟨m, float⟩ => by cases float
    | false => exact same
  · rename_i x n
    rw [bind_assoc, bind_assoc]
    apply isUntyped h
    cases s.isUntyped right with
    | true => exact next _ _ fun ⟨m, float⟩ _ => by cases float
    | false => exact same
  · exact same

/-! ## Operands -/

theorem readName (h : D.Beside s t) (pos : Pos) (x : String) :
    D.Lockstep k (Effect.readName x) (Effect.readName x) s t (D.Yields (.name pos x) s) := by
  obtain ⟨_, here⟩ := h.exists
  unfold Effect.readName
  refine .get h fun u view => ?_
  rw [← view.lookup]
  cases found : s.env.lookup x with
  | none => exact .fail h _
  | some b =>
      refine .pure h ⟨D.owns_named here found, fun _ => rfl, fun honest untyped => ?_⟩
      have role : b.role = .untyped := by
        simpa [State.isUntyped, Expr.isUntyped, Expr.allUntyped, found] using untyped
      exact D.honest_named honest here found role

section Operands

variable {x y : Operand}

theorem logical (h : D.Beside s t) (alike : D.Alike x y) (op : String) :
    D.Lockstep .expr (Effect.logical op x) (Effect.logical op y) s t
      fun _ u => x.expr.quiet → u = s := by
  unfold Effect.logical
  refine (alike.value h).bind fun v s' t' moved yields => ?_
  rw [← alike.expr]
  cases v.logical? with
  | some b => exact .pure moved.beside yields.still
  | none =>
      refine kindOf moved.beside v (.get moved.beside fun u view => ?_)
      rw [State.read, State.read, view.heap]
      exact .failAt moved.beside alike.mark _

theorem array (h : D.Beside s t) (alike : D.Alike x y) :
    D.Lockstep .expr (Effect.array x) (Effect.array y) s t
      fun handle u => D.owns u.heap (.array handle) ∧ (x.expr.quiet → u = s) := by
  unfold Effect.array
  refine (alike.value h).bind fun v s' t' moved yields => ?_
  rw [← alike.expr]
  cases v with
  | array handle => exact .pure moved.beside ⟨yields.owned, yields.still⟩
  | int | float | bool | unit => exact kindOf moved.beside _ (.failAt moved.beside alike.mark _)

theorem index (h : D.Beside s t) (alike : D.Alike x y) :
    D.Lockstep .expr (Effect.index x) (Effect.index y) s t
      fun _ u => x.expr.quiet → u = s := by
  unfold Effect.index
  refine (alike.value h).bind fun v s' t' moved yields => ?_
  rw [← alike.expr]
  cases v with
  | int n => exact .pure moved.beside yields.still
  | array | float | bool | unit => exact kindOf moved.beside _ (.failAt moved.beside alike.mark _)

theorem unary (h : D.Beside s t) (alike : D.Alike x y) (pos : Pos) (op : UnaryOp) :
    D.Lockstep .expr (Effect.unary op x) (Effect.unary op y) s t
      (D.Yields (.unary pos op x.expr) s) := by
  unfold Effect.unary
  rw [← alike.expr]
  split
  · refine .ofExcept h rfl fun v ok => ?_
    have int := Value.isInt_ofConstant ok
    exact ⟨D.owns_scalar int.isScalar, fun _ => rfl, fun _ _ => int⟩
  · refine (logical h alike "!").bind fun b _ _ moved still => .pure moved.beside ?_
    exact .typed (D.owns_scalar (Value.isScalar_bool _)) still
  · refine (alike.value h).bind fun v _ _ moved yields => ?_
    refine ofHeap (fun heap => heap.signed _ v) moved.beside fun w ok => ?_
    refine ⟨D.owns_scalar (Heap.isScalar_signed ok), yields.still, fun honest untyped => ?_⟩
    rw [State.isUntyped, Expr.isUntyped_unary, Bool.and_eq_true] at untyped
    exact Heap.isInt_signed (yields.int honest untyped.2) ok

theorem convert (h : D.Beside s t) (alike : D.Alike x y) (pos : Pos) (ty : Ty) :
    D.Lockstep .expr (Effect.convert ty x) (Effect.convert ty y) s t
      (D.Yields (.convert pos ty x.expr) s) := by
  unfold Effect.convert
  refine (alike.value h).bind fun v _ _ moved yields => ?_
  refine ofHeap (fun heap => heap.convert ty v) moved.beside fun w ok => ?_
  exact .typed (D.owns_scalar (Heap.isScalar_convert ok)) yields.still

variable {l l' r r' : Operand}

/-- The state after two operands without calls and prints is the one before. -/
theorem binary_still {pos : Pos} {op : BinaryOp} {s₁ s₂ : State}
    (first : l.expr.quiet → s₁ = s) (second : r.expr.quiet → s₂ = s₁)
    (quiet : (Expr.binary pos op l.expr r.expr).quiet) : s₂ = s := by
  rw [Expr.quiet, Bool.and_eq_true] at quiet
  exact (second quiet.2).trans (first quiet.1)

theorem binary (h : D.Beside s t) (left : D.Alike l l') (right : D.Alike r r') (pos : Pos)
    (op : BinaryOp) :
    D.Lockstep .expr (Effect.binary op l r) (Effect.binary op l' r') s t
      (D.Yields (.binary pos op l.expr r.expr) s) := by
  have bool : ∀ {heap} b, D.owns heap (.bool b) := fun b => D.owns_scalar (Value.isScalar_bool b)
  unfold Effect.binary
  split
  · refine (logical h left "&&").bind fun b _ _ moved first => ?_
    cases b with
    | false => exact .pure moved.beside (.typed (bool _) (binary_still first fun _ => rfl))
    | true =>
        refine (logical moved.beside right "&&").bind fun c _ _ moved second => ?_
        exact .pure moved.beside (.typed (bool _) (binary_still first second))
  · refine (logical h left "||").bind fun b _ _ moved first => ?_
    cases b with
    | true => exact .pure moved.beside (.typed (bool _) (binary_still first fun _ => rfl))
    | false =>
        refine (logical moved.beside right "||").bind fun c _ _ moved second => ?_
        exact .pure moved.beside (.typed (bool _) (binary_still first second))
  · rw [← left.expr, ← right.expr]
    refine (left.value h).bind fun a s₁ _ moved first => ?_
    refine (right.value moved.beside).bind fun b s₂ _ moved second => ?_
    refine balanced moved.beside _ a _ b fun a' b' same => ?_
    refine ofHeap (fun heap => heap.arith _ a' b') moved.beside fun v ok => ?_
    refine ⟨D.owns_scalar (Heap.isScalar_arith ok), binary_still first.still second.still, ?_⟩
    intro honest untyped
    rw [State.isUntyped, Expr.isUntyped_binary, Bool.and_eq_true, Bool.and_eq_true] at untyped
    -- The right operand is a constant, so the left one still is what it was before it.
    have quiet := Expr.quiet_of_isUntyped _ _ untyped.2.1
    have b := second.int honest untyped.2.1
    have a := first.int honest (second.still quiet ▸ untyped.2.2)
    obtain ⟨rfl, rfl⟩ := same a b
    exact Heap.isInt_arith a b ok
  · rw [← left.expr, ← right.expr]
    refine (left.value h).bind fun a _ _ moved first => ?_
    refine (right.value moved.beside).bind fun b _ _ moved second => ?_
    refine balanced moved.beside _ a _ b fun a' b' _ => ?_
    refine ofHeap (fun heap => heap.compare _ a' b') moved.beside fun v ok => ?_
    exact .typed (D.owns_scalar (Heap.isScalar_compare ok)) (binary_still first.still second.still)

theorem element (h : D.Beside s t) (left : D.Alike l l') (right : D.Alike r r') (pos : Pos) :
    D.Lockstep .expr (Effect.element l r) (Effect.element l' r') s t
      (D.Yields (.index pos l.expr r.expr) s) := by
  unfold Effect.element
  refine (array h left).bind fun handle _ _ moved first => ?_
  refine (index moved.beside right).bind fun i _ _ moved second => ?_
  obtain ⟨_, here⟩ := moved.beside.exists
  refine ofHeap (fun heap => heap.get handle i) moved.beside fun v ok => ?_
  refine .typed (D.owns_cell here (moved.owns first.1) ok) fun quiet => ?_
  rw [Expr.quiet, Bool.and_eq_true] at quiet
  exact (second quiet.2).trans (first.2 quiet.1)

end Operands

/-! ## Calls -/

/-- Each argument is checked when the ones before it have been, and what it was
    found to fit it still fits when the call starts. -/
theorem arguments (callee : String) {xs ys : List Operand} (alike : List.Forall₂ D.Alike xs ys) :
    ∀ {s t} (params : List Param), D.Beside s t →
      D.Lockstep .expr (Effect.arguments callee params xs) (Effect.arguments callee params ys) s t
        fun vs u => D.Suits u.heap params vs := by
  induction alike with
  | nil =>
      intro s t params h
      cases params <;> exact .pure h (by simp [Suits])
  | @cons x y xs ys head _ ih =>
      intro s t params h
      cases params with
      | nil => exact .pure h (by simp [Suits])
      | cons p ps =>
          rw [Effect.arguments, Effect.arguments, ← head.expr]
          refine (head.value h).bind fun v s₁ t₁ moved yields => ?_
          have checked := conformBy (k := .expr) moved.beside yields.owned p.ty x.expr
            s!"argument {p.name} of {callee}"
          refine (located head.mark checked).bind fun w s₂ t₂ moved fit => ?_
          refine (ih ps moved.beside).bind fun ws s₃ t₃ moved suits => .pure moved.beside ?_
          intro pv member
          rcases List.mem_cons.mp member with rfl | member
          · exact moved.fits fit
          · exact suits pv member

theorem invoke {call call' : Caller} {xs ys : List Operand} (h : D.Beside s t)
    (alike : List.Forall₂ D.Alike xs ys) (pos : Pos) (callee : String) (args : List Expr)
    (calls : ∀ {f vs s t}, D.Beside s t → D.callable f → D.Suits s.heap f.params vs →
      D.Lockstep .expr (call f vs pos) (call' f vs pos) s t fun v u => D.answers u.heap f.result v) :
    D.Lockstep .expr (Effect.invoke call pos callee xs) (Effect.invoke call' pos callee ys) s t
      (D.Yields (.call pos callee args) s) := by
  obtain ⟨_, here⟩ := h.exists
  unfold Effect.invoke
  refine .get h fun u view => ?_
  rw [← view.function, alike.length_eq]
  cases found : s.function? callee with
  | none => exact .fail h _
  | some f =>
      dsimp only
      split
      · refine (arguments callee alike f.params h).bind fun vs s' t' moved suits => ?_
        have called := calls moved.beside (D.callable_named here found) suits
        exact called.imp fun v _ _ _ answer => .typed (owns_answer answer) nofun
      · exact .fail h _

/-! ## Prints -/

section Prints

theorem printArg {x y : Operand} (h : D.Beside s t) (alike : D.Alike x y) :
    D.Lockstep .expr (Effect.printArg x) (Effect.printArg y) s t fun _ _ => True := by
  unfold Effect.printArg
  rw [← alike.expr]
  split
  · exact .pure h trivial
  · refine (alike.value h).bind fun v _ _ moved _ => ?_
    cases v with
    | unit => exact .failAt moved.beside alike.mark _
    | int | float | bool | array => exact .pure moved.beside trivial

theorem printArgs {xs ys : List Operand} (alike : List.Forall₂ D.Alike xs ys) :
    ∀ {s t}, D.Beside s t →
      D.Lockstep .expr (Effect.printArgs xs) (Effect.printArgs ys) s t fun _ _ => True := by
  induction alike with
  | nil => exact fun h => .pure h trivial
  | cons head _ ih =>
      intro s t h
      refine (printArg h head).bind fun arg _ _ moved _ => ?_
      exact (ih moved.beside).bind fun args _ _ moved _ => .pure moved.beside trivial

theorem emit (h : D.Beside s t) (template : String) (args : List Template.Arg) :
    D.Lockstep .expr (Effect.emit template args) (Effect.emit template args) s t
      fun _ _ => True :=
  attempt (fun s => s.sink.emit ⟨template, args⟩) (fun sink s => { s with sink }) h (D.emit _)
    fun ok past => D.past_emit past ok

theorem print (h : D.Beside s t) (package : String) (style : PrintStyle)
    (args : List (String ⊕ Value)) :
    D.Lockstep .expr (Effect.print package style args) (Effect.print package style args) s t
      fun _ _ => True := by
  unfold Effect.print
  refine .get h fun u view => ?_
  have same : Effect.readArg u = Effect.readArg s := by
    funext arg
    cases arg with
    | inl text => rfl
    | inr v => simp only [Effect.readArg, State.read, view.heap]
  rw [same]
  dsimp only
  split
  · exact emit h _ _
  · exact emit h _ _
  · exact .fail h _
  · exact emit h _ _
  · exact .fail h _

theorem printing {xs ys : List Operand} (h : D.Beside s t) (alike : List.Forall₂ D.Alike xs ys)
    (pos : Pos) (package : String) (style : PrintStyle) (args : List Expr) :
    D.Lockstep .expr (Effect.printing package style xs) (Effect.printing package style ys) s t
      (D.Yields (.print pos package style args) s) := by
  unfold Effect.printing
  refine .get h fun u view => ?_
  rw [← view.imports]
  split
  · refine (printArgs alike h).bind fun args _ _ moved _ => ?_
    refine (print moved.beside package style args).bind fun _ _ _ moved _ => .pure moved.beside ?_
    exact .typed (D.owns_scalar Value.isScalar_unit) nofun
  · exact .fail h _

end Prints

end Lockstep

end Discipline

end Treewalk
