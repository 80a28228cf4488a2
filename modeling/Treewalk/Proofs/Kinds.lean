import Treewalk.Proofs.Scoping
import Treewalk.Proofs.Typing

/-! # Kinds that are known before a run

The kind of an expression can be read off its syntax, the declarations of the
names in it and the results of the functions that it calls. If the evaluation of
an expression gives a value, the value is of that kind.
-/

namespace Treewalk

/-- What is declared: names and functions. -/
structure Signature where
  /-- The type of a name, and whether it is a constant without a type. -/
  name : String → Option (Ty × Bool)
  /-- The result of a function. -/
  result : String → Option (Option Ty)

/-- What is declared in a state. -/
def State.signature (s : State) : Signature where
  name x := (s.env.lookup x).map fun b => (b.ty, b.role == .untyped)
  result x := (s.function? x).map Func.result

/-- Whether an expression is a whole-number constant that has no type yet. -/
def Signature.isUntyped (sig : Signature) (e : Expr) : Bool :=
  e.isUntyped fun x => (sig.name x).any Prod.snd

namespace Kind

/-- What a call of a function with this result gives. -/
def ofResult : Option Ty → Kind
  | none => .void
  | some ty => .data ty

/-- The kind of arithmetic on operands of two kinds, each of which may be a
    constant without a type. -/
def arith (left : Kind) (leftUntyped : Bool) (right : Kind) (rightUntyped : Bool) : Option Kind :=
  match left, right with
  | .data .int, .data .int => some (.data .int)
  | .data .float32, .data .float32 => some (.data .float32)
  | .data .int, .data .float32 => if leftUntyped then some (.data .float32) else none
  | .data .float32, .data .int => if rightUntyped then some (.data .float32) else none
  | _, _ => none

/-- The kind of an element. -/
def element : Kind → Option Kind
  | .data (.array _ elem) => some (.data elem)
  | _ => none

end Kind

/-- The kind of an expression, if it has one. -/
def Expr.kind? (sig : Signature) : Expr → Option Kind
  | .int _ _ => some (.data .int)
  | .float _ _ => some (.data .float32)
  | .bool _ _ => some (.data .bool)
  | .str _ _ => none
  | .name _ x => (sig.name x).map fun (ty, _) => .data ty
  | .unary _ .not _ => some (.data .bool)
  | .unary _ _ e => e.kind? sig
  | .binary _ (.arith _) l r => do
      Kind.arith (← l.kind? sig) (sig.isUntyped l) (← r.kind? sig) (sig.isUntyped r)
  | .binary _ _ _ _ => some (.data .bool)
  | .convert _ ty _ => some (.data ty)
  | .index _ a _ => do (← a.kind? sig).element
  | .call _ callee _ => (sig.result callee).map Kind.ofResult
  | .print _ _ _ _ => some .void

/-! ## Kinds of values -/

theorem Value.IsNumber.kind {ty : Ty} {v : Value} (number : v.IsNumber ty) (heap : Heap) :
    heap.kind v = .data ty := by
  cases number with
  | int | float => rfl

namespace Heap

variable {heap heap' : Heap} {ty : Ty} {v w a b : Value}

theorem Holds.kind (holds : heap.Holds ty v) : heap.kind v = .data ty := by
  cases holds with
  | int | float => rfl
  | array _ len elem => rw [Heap.kind, Store.ty, len, elem]

/-- What a function with this result may give back. A truth value is returned
    though it is not stored. -/
inductive Returns (heap : Heap) : Option Ty → Value → Prop where
  | void : Returns heap none .unit
  | bool (b : Bool) : Returns heap (some .bool) (.bool b)
  | stored {ty : Ty} {v : Value} : heap.Holds ty v → Returns heap (some ty) v

theorem Returns.kind {result : Option Ty} (returns : heap.Returns result v) :
    heap.kind v = Kind.ofResult result := by
  cases returns with
  | void | bool => rfl
  | stored holds => exact holds.kind

theorem kind_extends (ext : heap.Extends heap')
    (known : ∀ h, v = .array h → h.index < heap.stores.size) : heap'.kind v = heap.kind v := by
  cases v with
  | array h => rw [kind, kind, ext.ty h (known h rfl)]
  | int | float | bool | unit => rfl

theorem kind_ofConstant {n : Int} (ok : Value.ofConstant n = .ok v) : heap.kind v = .data .int := by
  unfold Value.ofConstant at ok
  split at ok <;> cases ok
  rfl

theorem kind_signed {op : UnaryOp} (ok : heap.signed op v = .ok w) : heap.kind w = heap.kind v := by
  unfold signed at ok
  split at ok <;> cases ok <;> rfl

theorem kind_convert (ok : heap.convert ty v = .ok w) : heap.kind w = .data ty := by
  unfold convert at ok
  split at ok <;> cases ok <;> rfl

theorem kind_compare {op : CompareOp} (ok : heap.compare op a b = .ok v) :
    heap.kind v = .data .bool := by
  unfold compare at ok
  split at ok
  · cases ok; rfl
  · cases ok; rfl
  · split at ok <;> cases ok <;> rfl
  · cases ok

theorem kind_arith {op : ArithOp} (ok : heap.arith op a b = .ok v) :
    Kind.arith (heap.kind a) false (heap.kind b) false = some (heap.kind v) := by
  unfold arith at ok
  split at ok
  · rename_i m n
    cases r : op.onInt m n <;> rw [r] at ok <;> cases ok
    rfl
  · rename_i x y
    cases r : op.onFloat x y <;> rw [r] at ok <;> cases ok
    rfl
  · cases ok

end Heap

/-- A constant without a type does no harm where it is not needed. -/
theorem Kind.arith_untyped {left right kind : Kind} (l r : Bool)
    (h : Kind.arith left false right false = some kind) :
    Kind.arith left l right r = some kind := by
  unfold Kind.arith at h ⊢
  split at h <;> simp_all

/-! ## What is declared stays -/

theorem State.isUntyped_eq (s : State) (e : Expr) :
    Effect.isUntyped e s = .ok (s.signature.isUntyped e) s := by
  have same : (fun x => (s.env.lookup x).any fun b => b.role == .untyped) =
      fun x => (s.signature.name x).any Prod.snd := by
    funext x
    simp only [signature, Option.any_map]
  rw [Signature.isUntyped, ← same]
  rfl

theorem Env.lookup_declared {env env' : Env} (frames : env'.frames = env.frames)
    (globals : env'.globals.fixed = env.globals.fixed) (x : String) :
    (env'.lookup x).map (fun b => (b.ty, b.role == .untyped)) =
      (env.lookup x).map fun b => (b.ty, b.role == .untyped) := by
  have global : ∀ scope : Scope, (scope.find? x).map (fun b => (b.ty, b.role == .untyped)) =
      (scope.fixed.lookup x).map fun fixed => (fixed.1, fixed.2.1 == .untyped) := by
    intro scope
    rw [Scope.lookup_fixed, Option.map_map]
    rfl
  rw [lookup, lookup, current, current, frames, Option.map_or, Option.map_or, global, global,
    globals]

/-- States in which what is stored has its type and every frame has a scope. -/
structure State.Sound (s : State) : Prop where
  typed : s.Typed
  full : ∀ frame ∈ s.env.frames, frame ≠ []

open Discipline

theorem Reachable.sound {limit : Nat} {sink : Sink} {s : State} (h : Reachable limit sink s) :
    s.Sound where
  typed := ((invariant_typed limit sink).reachable h).2
  full := ((invariant_scoping limit sink).reachable h).2

namespace State.Sound

variable {s t : State} {e : Expr} {v : Value}

/-- A state that an expression has led to: it declares the same, and the value
    is of that state. -/
structure Led (s : State) (v : Value) (t : State) : Prop where
  sound : t.Sound
  signature : t.signature = s.signature
  heap : s.heap.Extends t.heap
  known : ∀ h, v = .array h → h.index < t.heap.stores.size

theorem led (sound : s.Sound) (ok : e.eval callFunction s = .ok v t) : Led s v t := by
  have types := closed_typed.self (p := .expr e) ⟨rfl, sound.typed⟩ fun _ _ => trivial
  have scopes := closed_scoping.self (p := .expr e) ⟨rfl, sound.full⟩ fun _ _ => trivial
  obtain ⟨⟨_, typed⟩, ⟨ext, _⟩, yields⟩ := Lockstep.kept single_typed types ok
  obtain ⟨⟨_, full⟩, ⟨frames, globals, functions, _⟩, _⟩ := Lockstep.kept single_scoping scopes ok
  refine ⟨⟨typed, full⟩, ?_, ext, yields.owned⟩
  have names := funext (Env.lookup_declared frames globals)
  have results : t.function? = s.function? := by
    funext x
    rw [State.function?, State.function?, functions]
  rw [State.signature, State.signature, results]
  exact congrArg (Signature.mk · _) names

end State.Sound

/-! ## Kinds of expressions -/

section

open Effect

variable {s t : State} {v : Value}

theorem balanced_cases {left right : Expr} {a b a' b' : Value}
    (ok : Effect.balanced left a right b s = .ok (a', b') t) : s = t ∧
      ((a' = a ∧ b' = b) ∨
      (∃ n x, a = .int n ∧ b = .float x ∧ s.signature.isUntyped left ∧
        a' = .float (nearestFloat n) ∧ b' = b) ∨
      (∃ x n, a = .float x ∧ b = .int n ∧ s.signature.isUntyped right ∧
        a' = a ∧ b' = .float (nearestFloat n))) := by
  unfold Effect.balanced at ok
  split at ok
  · rw [bind_ok (s.isUntyped_eq left)] at ok
    split at ok <;> obtain ⟨same, rfl⟩ := pure_eq_ok.mp ok <;> cases same
    · exact ⟨rfl, .inr (.inl ⟨_, _, rfl, rfl, ‹_›, rfl, rfl⟩)⟩
    · exact ⟨rfl, .inl ⟨rfl, rfl⟩⟩
  · rw [bind_ok (s.isUntyped_eq right)] at ok
    split at ok <;> obtain ⟨same, rfl⟩ := pure_eq_ok.mp ok <;> cases same
    · exact ⟨rfl, .inr (.inr ⟨_, _, rfl, rfl, ‹_›, rfl, rfl⟩)⟩
    · exact ⟨rfl, .inl ⟨rfl, rfl⟩⟩
  · obtain ⟨same, rfl⟩ := pure_eq_ok.mp ok
    cases same
    exact ⟨rfl, .inl ⟨rfl, rfl⟩⟩

theorem kind_balanced {left right : Expr} {a b a' b' : Value} {op : ArithOp}
    (ok : Effect.balanced left a right b s = .ok (a', b') t)
    (done : t.heap.arith op a' b' = .ok v) :
    s = t ∧ Kind.arith (s.heap.kind a) (s.signature.isUntyped left) (s.heap.kind b)
      (s.signature.isUntyped right) = some (t.heap.kind v) := by
  obtain ⟨rfl, cases⟩ := balanced_cases ok
  have kind := Heap.kind_arith done
  refine ⟨rfl, ?_⟩
  rcases cases with ⟨rfl, rfl⟩ | ⟨n, x, rfl, rfl, untyped, rfl, rfl⟩ |
    ⟨x, n, rfl, rfl, untyped, rfl, rfl⟩
  · exact Kind.arith_untyped _ _ kind
  · rw [untyped]
    exact kind
  · rw [untyped]
    exact kind

theorem array_eq_ok {x : Operand} {h : Handle} (ok : array x s = .ok h t) :
    x.value s = .ok (.array h) t := by
  obtain ⟨v, s₁, value, rest⟩ := bind_eq_ok.mp ok
  cases v with
  | array h' =>
      obtain ⟨rfl, rfl⟩ := pure_eq_ok.mp rest
      exact value
  | int | float | bool | unit => cases rest

theorem index_eq_ok {x : Operand} {i : Int} (ok : index x s = .ok i t) :
    ∃ n, x.value s = .ok (.int n) t := by
  obtain ⟨v, s₁, value, rest⟩ := bind_eq_ok.mp ok
  cases v with
  | int n =>
      obtain ⟨_, rfl⟩ := pure_eq_ok.mp rest
      exact ⟨n, value⟩
  | array | float | bool | unit => cases rest

theorem returns_of_answers {heap : Heap} {result : Option Ty} (h : typed.answers heap result v) :
    heap.Returns result v := by
  unfold answers at h
  split at h
  · rw [h]
    exact .void
  · obtain ⟨b, rfl⟩ := h
    exact .bool b
  · exact .stored h

/-- Whenever the expression gives a value, the value is of its kind. -/
def Expr.Kinded (e : Expr) : Prop :=
  ∀ s v t, s.Sound → e.eval callFunction s = .ok v t → e.kind? s.signature = some (t.heap.kind v)

namespace Expr.Kinded

variable {pos : Pos} {e l r a i : Expr}

theorem name (x : String) : (Expr.name pos x).Kinded := by
  intro s v t sound ok
  have read : readName x s = .ok v t := located_eq_ok.mp ok
  rw [readName, get_bind] at read
  cases found : s.env.lookup x with
  | none => rw [found] at read; cases read
  | some b =>
      rw [found] at read
      obtain ⟨rfl, rfl⟩ := pure_eq_ok.mp read
      have holds := sound.typed.bindings x b (Env.binds_lookup found)
      simp only [kind?, State.signature, found, Option.map_some, holds.kind]

theorem unary (op : UnaryOp) (kinded : e.Kinded) : (Expr.unary pos op e).Kinded := by
  intro s v t sound ok
  have ran : Effect.unary op ⟨e, e.eval callFunction⟩ s = .ok v t := located_eq_ok.mp ok
  unfold Effect.unary at ran
  dsimp only at ran
  split at ran
  · obtain ⟨constant, rfl⟩ := ofExcept_eq_ok.mp ran
    rw [Heap.kind_ofConstant constant]
    rfl
  · obtain ⟨b, s₁, _, rest⟩ := bind_eq_ok.mp ran
    obtain ⟨rfl, rfl⟩ := pure_eq_ok.mp rest
    rfl
  · rename_i sign _
    obtain ⟨w, s₁, value, rest⟩ := bind_eq_ok.mp ran
    rw [get_bind] at rest
    obtain ⟨signed, rfl⟩ := ofExcept_eq_ok.mp rest
    rw [kind?, kinded s w s₁ sound value, Heap.kind_signed signed]
    exact sign

theorem arith (op : ArithOp) (left : l.Kinded) (right : r.Kinded) :
    (Expr.binary pos (.arith op) l r).Kinded := by
  intro s v t sound ok
  have ran : Effect.binary (.arith op) ⟨l, l.eval callFunction⟩ ⟨r, r.eval callFunction⟩ s =
      .ok v t := located_eq_ok.mp ok
  obtain ⟨a, s₁, first, rest⟩ := bind_eq_ok.mp ran
  obtain ⟨b, s₂, second, rest⟩ := bind_eq_ok.mp rest
  obtain ⟨⟨a', b'⟩, s₃, balanced, rest⟩ := bind_eq_ok.mp rest
  have last : Effect.arith op a' b' s₃ = .ok v t := rest
  rw [Effect.arith, get_bind] at last
  obtain ⟨done, rfl⟩ := ofExcept_eq_ok.mp last
  have led := sound.led first
  have led' := led.sound.led second
  obtain ⟨rfl, kind⟩ := kind_balanced balanced done
  -- The right operand may run code, so the left value is looked at in a later
  -- state than its own; there it still has its kind.
  have leftKind := left s a s₁ sound first
  have rightKind := right s₁ b s₂ led.sound second
  rw [led.signature] at rightKind
  rw [led'.signature, led.signature, Heap.kind_extends led'.heap led.known] at kind
  rw [kind?, leftKind, rightKind]
  exact kind

theorem compare (op : CompareOp) : (Expr.binary pos (.compare op) l r).Kinded := by
  intro s v t sound ok
  have ran : Effect.binary (.compare op) ⟨l, l.eval callFunction⟩ ⟨r, r.eval callFunction⟩ s =
      .ok v t := located_eq_ok.mp ok
  obtain ⟨a, s₁, _, rest⟩ := bind_eq_ok.mp ran
  obtain ⟨b, s₂, _, rest⟩ := bind_eq_ok.mp rest
  obtain ⟨⟨a', b'⟩, s₃, _, rest⟩ := bind_eq_ok.mp rest
  have last : Effect.compare op a' b' s₃ = .ok v t := rest
  rw [Effect.compare, get_bind] at last
  obtain ⟨done, rfl⟩ := ofExcept_eq_ok.mp last
  rw [Heap.kind_compare done]
  rfl

theorem logic (op : LogicOp) : (Expr.binary pos (.logic op) l r).Kinded := by
  intro s v t sound ok
  have ran : Effect.binary (.logic op) ⟨l, l.eval callFunction⟩ ⟨r, r.eval callFunction⟩ s =
      .ok v t := located_eq_ok.mp ok
  have truth : ∃ b, v = .bool b := by
    have either : ∀ {x y : Effect Value} {s₁ : State} {b : Bool},
        (if b then x else y) s₁ = .ok v t → x s₁ = .ok v t ∨ y s₁ = .ok v t := by
      intro x y s₁ b
      cases b with
      | true => exact .inl
      | false => exact .inr
    cases op with
    | and =>
        obtain ⟨b, s₁, _, rest⟩ := bind_eq_ok.mp ran
        rcases either rest with both | left
        · obtain ⟨c, s₂, _, done⟩ := bind_eq_ok.mp both
          exact ⟨c, (pure_eq_ok.mp done).1.symm⟩
        · exact ⟨false, (pure_eq_ok.mp left).1.symm⟩
    | or =>
        obtain ⟨b, s₁, _, rest⟩ := bind_eq_ok.mp ran
        rcases either rest with left | both
        · exact ⟨true, (pure_eq_ok.mp left).1.symm⟩
        · obtain ⟨c, s₂, _, done⟩ := bind_eq_ok.mp both
          exact ⟨c, (pure_eq_ok.mp done).1.symm⟩
  obtain ⟨b, rfl⟩ := truth
  rfl

theorem convert (ty : Ty) : (Expr.convert pos ty e).Kinded := by
  intro s v t sound ok
  have ran : Effect.convert ty ⟨e, e.eval callFunction⟩ s = .ok v t := located_eq_ok.mp ok
  obtain ⟨w, s₁, _, rest⟩ := bind_eq_ok.mp ran
  rw [get_bind] at rest
  obtain ⟨done, rfl⟩ := ofExcept_eq_ok.mp rest
  rw [Heap.kind_convert done]
  rfl

theorem index (array : a.Kinded) : (Expr.index pos a i).Kinded := by
  intro s v t sound ok
  have ran : element ⟨a, a.eval callFunction⟩ ⟨i, i.eval callFunction⟩ s = .ok v t :=
    located_eq_ok.mp ok
  obtain ⟨h, s₁, first, rest⟩ := bind_eq_ok.mp ran
  obtain ⟨n, s₂, second, rest⟩ := bind_eq_ok.mp rest
  rw [get_bind] at rest
  obtain ⟨done, rfl⟩ := ofExcept_eq_ok.mp rest
  have value := array_eq_ok first
  have led := sound.led value
  obtain ⟨j, position⟩ := index_eq_ok second
  have led' := led.sound.led position
  have known := led.known h rfl
  have number := led'.sound.typed.heap.get (Nat.lt_of_lt_of_le known led'.heap.size) done
  have elem := congrArg (fun ty => (Kind.data ty).element) (led'.heap.ty h known)
  rw [kind?, array s _ s₁ sound value, number.kind]
  exact elem.symm

theorem call (callee : String) (args : List Expr) : (Expr.call pos callee args).Kinded := by
  intro s v t sound ok
  have ran : invoke callFunction pos callee (operands callFunction args) s = .ok v t :=
    located_eq_ok.mp ok
  rw [invoke, get_bind] at ran
  cases found : s.function? callee with
  | none => rw [found] at ran; cases ran
  | some f =>
      rw [found] at ran
      dsimp only at ran
      split at ran
      · obtain ⟨values, s₁, checked, called⟩ := bind_eq_ok.mp ran
        -- The call is given arguments of the right types, so that its body starts
        -- in a typed state.
        have alike : List.Forall₂ typed.Alike (operands callFunction args)
            (operands callFunction args) := by
          rw [operands_eq_map]
          exact (closed_typed.below _).operands (Nat.le_refl _) fun _ _ => trivial
        have arguing := Lockstep.arguments (t := s) callee alike f.params ⟨rfl, sound.typed⟩
        obtain ⟨h, _, suits⟩ := arguing.kept single_typed checked
        have calling := closed_typed.self (p := .call f values pos) h ⟨trivial, suits⟩
        obtain ⟨_, _, answers⟩ := Lockstep.kept single_typed calling called
        simp only [kind?, State.signature, found, Option.map_some,
          (returns_of_answers answers).kind]
      · cases ran

theorem print (package : String) (style : PrintStyle) (args : List Expr) :
    (Expr.print pos package style args).Kinded := by
  intro s v t sound ok
  have ran : printing package style (operands callFunction args) s = .ok v t :=
    located_eq_ok.mp ok
  rw [printing, get_bind] at ran
  split at ran
  · obtain ⟨shown, s₁, _, rest⟩ := bind_eq_ok.mp ran
    obtain ⟨_, s₂, _, done⟩ := bind_eq_ok.mp rest
    obtain ⟨rfl, rfl⟩ := pure_eq_ok.mp done
    rfl
  · cases ran

end Expr.Kinded

theorem Expr.kinded : ∀ e : Expr, e.Kinded
  | .int pos n => by
      intro s v t sound ok
      obtain ⟨constant, rfl⟩ := ofExcept_eq_ok.mp (located_eq_ok.mp ok)
      rw [Heap.kind_ofConstant constant]
      rfl
  | .float pos x => by
      intro s v t sound ok
      obtain ⟨rfl, rfl⟩ := pure_eq_ok.mp ok
      rfl
  | .bool pos b => by
      intro s v t sound ok
      obtain ⟨rfl, rfl⟩ := pure_eq_ok.mp ok
      rfl
  | .str pos text => by
      intro s v t sound ok
      cases located_eq_ok.mp ok
  | .name pos x => .name x
  | .unary pos op e => .unary op e.kinded
  | .binary pos (.arith op) l r => .arith op l.kinded r.kinded
  | .binary pos (.compare op) l r => .compare op
  | .binary pos (.logic op) l r => .logic op
  | .convert pos ty e => .convert ty
  | .index pos a i => .index a.kinded
  | .call pos callee args => .call callee args
  | .print pos package style args => .print package style args

end

/-- In whatever state of a run: if an expression gives a value, the value is of
    the kind that the declarations of that state give the expression. If a call
    gives a value, it is what the function's result says. -/
theorem kinds_known (limit : Nat) (sink : Sink) :
    (∀ s, Reachable limit sink s → ∀ (e : Expr) v t, e.eval callFunction s = .ok v t →
      e.kind? s.signature = some (t.heap.kind v)) ∧
    (∀ f args site s, Visited limit sink (.call f args site) s → ∀ v t,
      callFunction f args site s = .ok v t → t.heap.Returns f.result v) := by
  constructor
  · intro s reachable e v t ok
    exact e.kinded s v t reachable.sound ok
  · intro f args site s visited v t ok
    obtain ⟨h, ready⟩ := (invariant_typed limit sink).visited visited
    have calling := closed_typed.self h ready
    obtain ⟨_, _, answers⟩ := Lockstep.kept single_typed calling ok
    exact returns_of_answers answers

/-- The element of an array. -/
def elementOfA : Expr := .index ⟨3, 2⟩ (.name ⟨3, 1⟩ "a") (.int ⟨3, 3⟩ 1)

/-- A `main` that reads an element of an array. -/
def elementMain : Func := ⟨⟨2, 1⟩, "main", [], none, [.expr ⟨3, 1⟩ elementOfA]⟩

/-- An array and a `main` that reads an element of it. -/
def elementProgram : Program :=
  ⟨"main", [], [.stmt (.var ⟨1, 1⟩ "a" (some (.array 3 .int)) none), .func elementMain]⟩

theorem kinds_known_element :
    ∃ s, Reachable 5 .silent s ∧ elementOfA.eval callFunction s = .ok (.int 0) s ∧
      elementOfA.kind? s.signature = some (.data .int) ∧
      Visited 5 .silent (.call elementMain [] ⟨0, 0⟩) s ∧
      callFunction elementMain [] ⟨0, 0⟩ s = .ok .unit s ∧
      s.heap.Returns elementMain.result .unit := by
  obtain ⟨expressions, calls⟩ := kinds_known 5 .silent
  have started : Session 5 .silent (.fresh 5 .silent) := .fresh
  have called : Visited 5 .silent (.call elementMain [] ⟨0, 0⟩)
      (elementProgram.load.after (.fresh 5 .silent)) :=
    .enter (.run elementProgram started) (.main rfl rfl rfl rfl)
  have reachable : Reachable 5 .silent (elementProgram.load.after (.fresh 5 .silent)) :=
    ⟨_, _, called, .inl rfl⟩
  have value : elementOfA.eval callFunction (elementProgram.load.after (.fresh 5 .silent)) =
      .ok (.int 0) (elementProgram.load.after (.fresh 5 .silent)) := rfl
  exact ⟨_, reachable, value, expressions _ reachable _ _ _ value, called, rfl,
    calls _ _ _ _ called _ _ rfl⟩

end Treewalk
