import Treewalk.Proofs.Lockstep.Expression

/-! # Statements in lockstep

Every value goes through a check before it is stored, and the check comes right
before the store. So what a statement writes fits its target.
-/

namespace Treewalk

namespace Discipline

variable {D : Discipline} {k : Scale} {s s' : State} {t t' : SecondRun}

variable (D) in
/-- How a statement may end in a call that returns a type. -/
def ends (heap : Heap) (result : Option Ty) : Ending → Prop
  | .next => True
  | .done v => D.answers heap result v

variable (D) in
/-- The places that may be written. -/
def reaches (heap : Heap) : Place → Prop
  | .var _ => True
  | .cell h _ => D.owns heap (.array h)

theorem Moved.reaches (moved : D.Moved k s t s' t') {place : Place}
    (reached : D.reaches s.heap place) : D.reaches s'.heap place := by
  cases place with
  | var x => trivial
  | cell h i => exact moved.owns reached

theorem answers_conformResult {ty : Ty} {v w : Value} {untyped : Bool} (h : D.Beside s t)
    (owned : D.owns s.heap v) (ok : s.heap.conformResult ty v untyped = .ok w) :
    D.answers s.heap (some ty) w := by
  obtain ⟨_, here⟩ := h.exists
  unfold Heap.conformResult at ok
  split at ok
  · split at ok
    · rename_i b isBool
      subst isBool
      cases ok
      exact ⟨b, rfl⟩
    · cases ok
  · split at ok
    · cases ok
    · rename_i notBool
      have fit := D.fits_conform here owned ok
      cases ty with
      | bool => exact absurd rfl notBool
      | int | float32 | array => exact fit

variable (D) in
/-- Two evaluations of the expressions below some size. -/
def Evaluates (size : Nat) (eval eval' : Expr → Effect Value) : Prop :=
  ∀ e, sizeOf e < size → D.MarksAll e.places → D.Alike ⟨e, eval e⟩ ⟨e, eval' e⟩

namespace Lockstep

/-! ## Places -/

section Places

variable {eval eval' : Expr → Effect Value}

theorem place (h : D.Beside s t) (target : Expr) (marked : D.MarksAll target.places)
    (evaluates : D.Evaluates (sizeOf target) eval eval') :
    D.Lockstep .expr (target.place eval) (target.place eval') s t
      fun place u => D.reaches u.heap place := by
  cases target with
  | name pos x =>
      unfold Expr.place
      apply Lockstep.get h
      intro u view
      rw [← view.lookup]
      cases s.env.lookup x with
      | none => exact .fail h _
      | some b =>
          dsimp only
          split
          · exact .pure h trivial
          · exact .fail h _
  | index pos a i =>
      simp only [Expr.places, marksAll_cons, marksAll_append] at marked
      have left : D.Alike ⟨a, eval a⟩ ⟨a, eval' a⟩ :=
        evaluates a (by simp only [Expr.index.sizeOf_spec]; omega) marked.2.1
      have right : D.Alike ⟨i, eval i⟩ ⟨i, eval' i⟩ :=
        evaluates i (by simp only [Expr.index.sizeOf_spec]; omega) marked.2.2
      unfold Expr.place
      apply (array h left).bind
      intro handle s₁ t₁ moved owned
      apply (index moved.beside right).bind
      intro n s₂ t₂ moved _
      exact .pure moved.beside (moved.owns owned.1)
  | int | float | bool | str | unary | binary | convert | call | print =>
      unfold Expr.place
      exact .failAt h (marked _ (Expr.pos_mem_places _)) _

theorem readPlace (h : D.Beside s t) {place : Place} (reached : D.reaches s.heap place) :
    D.Lockstep k place.read place.read s t fun v u => D.owns u.heap v := by
  cases place with
  | var x => exact (readName h ⟨0, 0⟩ x).imp fun _ _ _ _ yields => yields.owned
  | cell handle i =>
      obtain ⟨_, here⟩ := h.exists
      exact ofHeap (fun heap => heap.get handle i) h fun v ok => D.owns_cell here reached ok

/-- A check of a value against a type, with the states before it. -/
theorem conforming {α : Type} {f g : Value → Effect α} {Q : α → State → Prop} (h : D.Beside s t)
    {v : Value} (owned : D.owns s.heap v) {ty : Ty} {untyped : Bool} {target : String}
    (next : ∀ w, D.fits s.heap ty w → D.Lockstep k (f w) (g w) s t Q) :
    D.Lockstep k (Effect.conform ty v untyped target >>= f)
      (Effect.conform ty v untyped target >>= g) s t Q := by
  obtain ⟨_, here⟩ := h.exists
  unfold Effect.conform
  rw [bind_assoc, bind_assoc]
  apply Lockstep.get h
  intro u view
  rw [← view.heap]
  exact check h rfl fun w ok => next w (D.fits_conform here owned ok)

theorem writePlace (h : D.Beside s t) {place : Place} (reached : D.reaches s.heap place)
    {v : Value} (owned : D.owns s.heap v) (untyped : Bool) :
    D.Lockstep .store (place.write v untyped) (place.write v untyped) s t fun _ _ => True := by
  cases place with
  | var x =>
      unfold Place.write
      apply Lockstep.get h
      intro u view
      rw [← view.lookup]
      cases found : s.env.lookup x with
      | none => exact .fail h _
      | some b =>
          apply conforming h owned
          intro w fit
          exact attempt (fun s => s.env.assign x w) (fun env s => { s with env }) h
            (fun beside => (D.assign beside found fit).imp (fun _ _ _ _ => id) nofun)
            fun _ past => past
  | cell handle i =>
      unfold Place.write
      apply Lockstep.get h
      intro u view
      rw [← view.heap]
      apply conforming h owned
      intro w fit
      apply Lockstep.get h
      intro u view
      rw [← view.heap]
      apply check h rfl
      intro heap ok
      exact change h (fun beside => D.set beside reached fit ok) trivial

end Places

/-! ## Declarations -/

section Declarations

variable {eval eval' : Expr → Effect Value}

theorem fits_int (h : D.Beside s t) (n : Int32) : D.fits s.heap .int (.int n) := by
  obtain ⟨_, here⟩ := h.exists
  have ok : s.heap.conform .int (.int n) false "" = .ok (.int n) := rfl
  exact D.fits_conform here (D.owns_scalar (Value.isScalar_int n)) ok

theorem fits_float (h : D.Beside s t) (x : Float32) : D.fits s.heap .float32 (.float x) := by
  obtain ⟨_, here⟩ := h.exists
  have ok : s.heap.conform .float32 (.float x) false "" = .ok (.float x) := rfl
  exact D.fits_conform here (D.owns_scalar (Value.isScalar_float x)) ok

theorem zero (h : D.Beside s t) (ty : Ty) :
    D.Lockstep .store (Effect.zero ty) (Effect.zero ty) s t fun v u => D.fits u.heap ty v := by
  unfold Effect.zero
  apply check h rfl
  intro _ declarable
  cases ty with
  | int => exact .pure h (fits_int h 0)
  | float32 => exact .pure h (fits_float h 0)
  | bool => simp [Ty.declarable, Ty.hasBool] at declarable
  | array len elem =>
      obtain ⟨_, here⟩ := h.exists
      apply Lockstep.get h
      intro u view
      rw [← view.heap]
      have fit := (D.alloc here declarable rfl).2
      apply Lockstep.bind (P := fun _ u => D.fits u.heap _ _)
      · exact change h (fun beside => (D.alloc beside declarable rfl).1) fit
      · intro _ s' t' moved fit
        exact .pure moved.beside fit

variable (D) in
/-- What is known of the type and the value of a declaration. A constant without a
    type is a whole number. -/
structure Starts (ty : Option Ty) (init : Option Expr) (p : Ty × Value) (u : State) : Prop where
  fits : D.fits u.heap p.1 p.2
  int : D.honest → ty = none → ∀ e, init = some e → u.isUntyped e → p.2.IsInt

theorem initial (h : D.Beside s t) (x : String) (ty : Option Ty) (init : Option Expr)
    (evaluates : ∀ e, init = some e → D.Alike ⟨e, eval e⟩ ⟨e, eval' e⟩) :
    D.Lockstep .store (Effect.initial eval x ty init) (Effect.initial eval' x ty init) s t
      (Starts D ty init) := by
  cases init with
  | none =>
      cases ty with
      | none => exact .fail h _
      | some ty =>
          apply (zero h ty).bind
          intro v s' t' moved fit
          exact .pure moved.beside ⟨fit, fun _ => nofun⟩
  | some e =>
      have value := (evaluates e rfl).value h
      cases ty with
      | none =>
          apply value.lift.bind
          intro v s' t' moved yields
          obtain ⟨_, here⟩ := moved.beside.exists
          apply Lockstep.get moved.beside
          intro u view
          rw [← view.heap]
          apply check moved.beside rfl
          intro ty ok
          apply Lockstep.pure moved.beside
          refine ⟨D.fits_inferred here yields.owned ok, fun honest _ _ same => ?_⟩
          cases same
          exact yields.int honest
      | some ty =>
          apply check h rfl
          intro _ _
          apply value.lift.bind
          intro v s' t' moved yields
          apply isUntyped moved.beside
          apply conforming moved.beside yields.owned
          intro w fit
          exact .pure moved.beside ⟨fit, fun _ => nofun⟩

theorem declare (h : D.Beside s t) (x : String) {b : Binding} (fit : D.fits s.heap b.ty b.value)
    (int : D.honest → b.role = .untyped → b.value.IsInt) :
    D.Lockstep .stmt (Effect.declare x b) (Effect.declare x b) s t fun _ _ => True :=
  attempt (fun s => s.env.declare x b) (fun env s => { s with env }) h
    (fun beside => (D.declare x beside fit int).imp (fun _ _ _ _ => id) nofun) fun _ past => past

theorem declareVar (h : D.Beside s t) (x : String) (ty : Option Ty) (init : Option Expr)
    (evaluates : ∀ e, init = some e → D.Alike ⟨e, eval e⟩ ⟨e, eval' e⟩) :
    D.Lockstep .stmt (Effect.declareVar eval x ty init) (Effect.declareVar eval' x ty init) s t
      fun _ _ => True := by
  unfold Effect.declareVar
  apply (initial h x ty init evaluates).lift.bind
  intro (ty, v) s' t' moved starts
  exact declare moved.beside x starts.fits fun _ => nofun

theorem declareConst (h : D.Beside s t) (x : String) (ty : Option Ty) (e : Expr)
    (evaluates : D.Alike ⟨e, eval e⟩ ⟨e, eval' e⟩) :
    D.Lockstep .stmt (Effect.declareConst eval x ty e) (Effect.declareConst eval' x ty e) s t
      fun _ _ => True := by
  unfold Effect.declareConst
  apply (initial h x ty (some e) fun _ same => by cases same; exact evaluates).lift.bind
  intro (ty', v) s' t' moved starts
  apply isUntyped moved.beside
  apply declare moved.beside x starts.fits
  intro honest role
  cases ty with
  | some ty => cases role
  | none =>
      apply starts.int honest rfl e rfl
      cases untyped : s'.isUntyped e with
      | true => rfl
      | false => rw [untyped] at role; cases role

end Declarations

/-! ## Assignments and returns -/

section Assignments

variable {eval eval' : Expr → Effect Value}

theorem assign (h : D.Beside s t) (target : Expr) (op : Option ArithOp) (e : Expr)
    (marked : D.MarksAll target.places) (targets : D.Evaluates (sizeOf target) eval eval')
    (evaluates : D.Alike ⟨e, eval e⟩ ⟨e, eval' e⟩) :
    D.Lockstep .store (Effect.assign eval target op e) (Effect.assign eval' target op e) s t
      fun _ _ => True := by
  unfold Effect.assign
  apply (place h target marked targets).lift.bind
  intro place s₁ t₁ moved reached
  apply (evaluates.value moved.beside).lift.bind
  intro v s₂ t₂ moved yields
  replace reached := moved.reaches reached
  cases op with
  | none =>
      apply isUntyped moved.beside
      exact writePlace moved.beside reached yields.owned _
  | some op =>
      apply (readPlace moved.beside reached).bind
      intro old s₃ t₃ moved _
      replace reached := moved.reaches reached
      apply balanced moved.beside
      intro old v _
      have computed := ofHeap (k := .store) (Q := fun v _ => v.IsScalar)
        (fun heap => heap.arith op old v) moved.beside fun _ => Heap.isScalar_arith
      apply (located evaluates.mark computed).bind
      intro v s₄ t₄ moved scalar
      exact writePlace moved.beside (moved.reaches reached) (D.owns_scalar scalar) false

theorem bump (h : D.Beside s t) (target : Expr) (up : Bool) (marked : D.MarksAll target.places)
    (targets : D.Evaluates (sizeOf target) eval eval') :
    D.Lockstep .store (Effect.bump eval target up) (Effect.bump eval' target up) s t
      fun _ _ => True := by
  unfold Effect.bump
  apply (place h target marked targets).lift.bind
  intro place s₁ t₁ moved reached
  apply (readPlace moved.beside reached).bind
  intro old s₂ t₂ moved _
  replace reached := moved.reaches reached
  have computed := fun op one => ofHeap (k := .store) (Q := fun v _ => v.IsScalar)
    (fun heap => heap.arith op old one) moved.beside fun _ => Heap.isScalar_arith
  apply (computed _ _).bind
  intro v s₃ t₃ moved scalar
  exact writePlace moved.beside (moved.reaches reached) (D.owns_scalar scalar) false

theorem finish (h : D.Beside s t) (e : Option Expr)
    (evaluates : ∀ e', e = some e' → D.Alike ⟨e', eval e'⟩ ⟨e', eval' e'⟩) :
    D.Lockstep .store (Effect.finish eval e) (Effect.finish eval' e) s t
      fun r u => D.ends u.heap s.result? r := by
  unfold Effect.finish
  apply Lockstep.get h
  intro u view
  rw [← view.result]
  cases e with
  | none =>
      cases result : s.result? with
      | none => exact .pure h rfl
      | some ty => exact .fail h _
  | some e =>
      have alike := evaluates e rfl
      cases result : s.result? with
      | none => exact .failAt h alike.mark _
      | some ty =>
          apply (alike.value h).lift.bind
          intro v s₁ t₁ moved yields
          apply isUntyped moved.beside
          have checked := ofHeap (k := .store) (Q := fun w u => D.answers u.heap (some ty) w)
            (fun heap => heap.conformResult ty v (s₁.isUntyped e)) moved.beside
            fun w => answers_conformResult moved.beside yields.owned
          apply (located alike.mark checked).bind
          intro w s₂ t₂ moved answer
          exact .pure moved.beside answer

end Assignments

/-! ## Blocks -/

section Blocks

variable {x x' : Effect Ending}

variable (D) in
/-- Two ways to run a statement, in lockstep wherever that starts. -/
def Runs (x x' : Effect Ending) : Prop :=
  ∀ s t, D.Beside s t → D.Lockstep .stmt x x' s t fun r u => D.ends u.heap s.result? r

theorem condition {c c' : Operand} (h : D.Beside s t) (alike : D.Alike c c') :
    D.Lockstep .expr (Effect.condition c) (Effect.condition c') s t fun _ _ => True := by
  unfold Effect.condition
  apply (alike.value h).bind
  intro v s' t' moved _
  rw [← alike.expr]
  cases v.condition? with
  | some b => exact .pure moved.beside trivial
  | none => exact kindOf moved.beside _ (.failAt moved.beside alike.mark _)

theorem Runs.inBlock (runs : Runs D x x') : Runs D (Effect.inBlock x) (Effect.inBlock x') := by
  intro s t h
  apply Lockstep.inBlock (Q := fun r heap => D.ends heap s.result? r) h
  intro s' t' inside _ result
  rw [← result]
  exact runs s' t' inside

/-- What follows a statement of a call still runs in that call. -/
theorem after {α : Type} {f f' : α → Effect Ending} {y y' : Effect α} {Q : α → State → Prop}
    (first : D.Lockstep .stmt y y' s t Q)
    (next : ∀ a s' t', D.Moved .stmt s t s' t' → Q a s' →
      D.Lockstep .stmt (f a) (f' a) s' t' fun r u => D.ends u.heap s'.result? r) :
    D.Lockstep .stmt (y >>= f) (y' >>= f') s t fun r u => D.ends u.heap s.result? r := by
  apply first.bind
  intro a s' t' moved post
  rw [← D.result_kept moved.left]
  exact next a s' t' moved post

/-- What a conditional does in its block. -/
theorem branching {init init' body body' orelse orelse' : Effect Ending} {c c' : Operand}
    (first : Runs D init init') (alike : D.Alike c c') (thens : Runs D body body')
    (elses : Runs D orelse orelse') :
    Runs D
      (do discard init; if ← Effect.condition c then Effect.inBlock body else orelse)
      (do discard init'; if ← Effect.condition c' then Effect.inBlock body' else orelse') := by
  intro s t h
  apply after ((first s t h).discard (R := fun _ _ => True) fun _ _ _ => trivial)
  intro _ s₁ t₁ moved _
  apply after (condition moved.beside alike).lift
  intro taken s₂ t₂ moved _
  cases taken with
  | true => exact thens.inBlock s₂ t₂ moved.beside
  | false => exact elses s₂ t₂ moved.beside

theorem conditional {init init' body body' orelse orelse' : Effect Ending} {c c' : Operand}
    (first : Runs D init init') (alike : D.Alike c c') (thens : Runs D body body')
    (elses : Runs D orelse orelse') :
    Runs D (Effect.conditional init c body orelse) (Effect.conditional init' c' body' orelse') :=
  (branching first alike thens elses).inBlock

theorem inOrder {xs ys : List (Effect Ending)} (runs : List.Forall₂ (Runs D) xs ys) :
    Runs D (Effect.inOrder xs) (Effect.inOrder ys) := by
  induction runs with
  | nil => exact fun s t h => .pure h trivial
  | cons head _ ih =>
      intro s t h
      unfold Effect.inOrder
      apply after (head s t h)
      intro r s' t' moved ended
      cases r with
      | next => exact ih s' t' moved.beside
      | done v =>
          rw [← D.result_kept moved.left] at ended
          exact .pure moved.beside ended

end Blocks

end Lockstep

end Discipline

end Treewalk
