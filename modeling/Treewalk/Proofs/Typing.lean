import Treewalk.Proofs.Bindings
import Treewalk.Proofs.Reach

/-! # What is stored has its type

Every variable and constant holds a value of its type, and every array has cells
of one kind of number. This is an invariant of all runs: of those that succeed
and of those that fail, at every depth of calls and blocks.
-/

namespace Treewalk

/-- Numbers of a type. -/
inductive Value.IsNumber : Ty → Value → Prop where
  | int (n : Int32) : IsNumber .int (.int n)
  | float (x : Float32) : IsNumber .float32 (.float x)

/-- The cells all hold numbers of the type that the array was made for. -/
structure Store.Typed (store : Store) : Prop where
  elem : store.elem = .int ∨ store.elem = .float32
  cells : ∀ v ∈ store.cells, v.IsNumber store.elem

namespace Heap

/-- Values of a type: numbers, and handles of arrays that have this length and
    were made for this type of elements. -/
inductive Holds (heap : Heap) : Ty → Value → Prop where
  | int (n : Int32) : Holds heap .int (.int n)
  | float (x : Float32) : Holds heap .float32 (.float x)
  | array {h : Handle} {len : Nat} {elem : Ty} : h.index < heap.stores.size →
      (heap.store h).cells.size = len → (heap.store h).elem = elem →
      Holds heap (.array len elem) (.array h)

/-- A heap of arrays of numbers. -/
def Typed (heap : Heap) : Prop := ∀ store ∈ heap.stores, store.Typed

/-- What a heap can become: its arrays stay and keep their types. -/
structure Extends (heap heap' : Heap) : Prop where
  size : heap.stores.size ≤ heap'.stores.size
  ty : ∀ h : Handle, h.index < heap.stores.size → (heap'.store h).ty = (heap.store h).ty

variable {heap heap' : Heap} {ty : Ty} {v w : Value} {h : Handle}

theorem Extends.refl (heap : Heap) : heap.Extends heap := ⟨Nat.le_refl _, fun _ _ => rfl⟩

theorem Extends.trans {heap'' : Heap} (first : heap.Extends heap') (second : heap'.Extends heap'') :
    heap.Extends heap'' where
  size := Nat.le_trans first.size second.size
  ty h old := (second.ty h (Nat.lt_of_lt_of_le old first.size)).trans (first.ty h old)

/-! ## Values of a type -/

theorem holds_array_iff :
    heap.Holds ty (.array h) ↔ h.index < heap.stores.size ∧ (heap.store h).ty = ty := by
  constructor
  · rintro (_ | _ | ⟨known, rfl, rfl⟩)
    exact ⟨known, rfl⟩
  · rintro ⟨known, rfl⟩
    exact .array known rfl rfl

theorem Holds.extends (ext : heap.Extends heap') (holds : heap.Holds ty v) :
    heap'.Holds ty v := by
  cases holds with
  | int n => exact .int n
  | float x => exact .float x
  | array known len elem =>
      rw [holds_array_iff, ext.ty _ known, Store.ty, len, elem]
      exact ⟨Nat.lt_of_lt_of_le known ext.size, rfl⟩

theorem Holds.isNumber (holds : heap.Holds ty v) (number : ty = .int ∨ ty = .float32) :
    v.IsNumber ty := by
  cases holds with
  | int n => exact .int n
  | float x => exact .float x
  | array => simp at number

theorem Holds.index_lt (holds : heap.Holds ty (.array h)) : h.index < heap.stores.size :=
  (holds_array_iff.mp holds).1

theorem holds_conform {untyped : Bool} {target : String}
    (known : ∀ h, v = .array h → h.index < heap.stores.size)
    (ok : heap.conform ty v untyped target = .ok w) : heap.Holds ty w := by
  unfold conform at ok
  cases v with
  | bool b => cases ok
  | unit => cases ok
  | int n =>
      dsimp only at ok
      split at ok
      · rename_i same
        cases ok
        rw [same]
        exact .int n
      · split at ok <;> cases ok
        rename_i float
        simp only [Bool.and_eq_true, decide_eq_true_eq] at float
        rw [float.1]
        exact .float _
  | float x =>
      dsimp only at ok
      split at ok <;> cases ok
      rename_i same
      rw [same]
      exact .float x
  | array h =>
      dsimp only at ok
      split at ok <;> cases ok
      rename_i same
      exact holds_array_iff.mpr ⟨known h rfl, same⟩

theorem holds_inferredType {target : String}
    (known : ∀ h, v = .array h → h.index < heap.stores.size)
    (ok : heap.inferredType v target = .ok ty) : heap.Holds ty v := by
  cases v with
  | array h =>
      cases ok
      exact holds_array_iff.mpr ⟨known h rfl, rfl⟩
  | int n => cases ok; exact .int n
  | float x => cases ok; exact .float x
  | bool | unit => cases ok

/-! ## Arrays after a change -/

theorem store_eq (heap : Heap) (h : Handle) :
    heap.store h = heap.stores[h.index]?.getD default := by
  rw [store, Array.getD_eq_getD_getElem?]

theorem store_mem (known : h.index < heap.stores.size) : heap.store h ∈ heap.stores := by
  rw [store_eq, Array.getElem?_eq_getElem known]
  exact Array.getElem_mem known

section Alloc

variable {store : Store} (new : heap.alloc store = (h, heap'))

include new

theorem extends_alloc : heap.Extends heap' := by
  cases new
  refine ⟨by simp, ?_⟩
  intro other known
  rw [store_eq, store_eq, Array.getElem?_push_lt known, Array.getElem?_eq_getElem known]

theorem holds_alloc : heap'.Holds store.ty (.array h) := by
  cases new
  refine holds_array_iff.mpr ⟨by simp, ?_⟩
  rw [store_eq, Array.getElem?_push_size]
  rfl

theorem Typed.alloc (typed : heap.Typed) (fits : store.Typed) : heap'.Typed := by
  cases new
  intro other member
  rcases Array.mem_push.mp member with old | rfl
  · exact typed other old
  · exact fits

end Alloc

end Heap

/-- Arrays of numbers can be declared, and no others. -/
theorem Ty.declarable_array {len : Nat} {elem : Ty}
    (ok : Ty.declarable (.array len elem) = .ok ()) : elem = .int ∨ elem = .float32 := by
  cases elem with
  | int => exact .inl rfl
  | float32 => exact .inr rfl
  | bool => cases ok
  | array n inner =>
      unfold declarable at ok
      split at ok <;> cases ok

theorem Store.ty_zero (len : Nat) (elem : Ty) : (Store.zero len elem).ty = .array len elem := by
  simp [Store.ty, Store.zero]

theorem Store.typed_zero {elem : Ty} (len : Nat) (number : elem = .int ∨ elem = .float32) :
    (Store.zero len elem).Typed := by
  refine ⟨number, ?_⟩
  intro v member
  rw [(Array.mem_replicate.mp member).2]
  rcases number with rfl | rfl
  · exact .int 0
  · exact .float 0

theorem Store.mem_of_get {store : Store} {i : Int} {v : Value} (ok : store.get i = .ok v) :
    v ∈ store.cells := by
  unfold get at ok
  cases slot : store.slot i with
  | error fault => rw [slot] at ok; cases ok
  | ok n =>
      rw [slot] at ok
      cases ok
      have inside : n < store.cells.size := by
        unfold Store.slot at slot
        split at slot <;> cases slot
        rename_i range
        simp only [Bool.and_eq_true, decide_eq_true_eq] at range
        omega
      rw [Array.getD_eq_getD_getElem?, Array.getElem?_eq_getElem inside]
      exact Array.getElem_mem inside

namespace Heap

variable {heap heap' : Heap} {v : Value} {h : Handle} {i : Int}

theorem set_cases (ok : heap.set h i v = .ok heap') :
    ∃ n, heap' = ⟨heap.stores.modify h.index
      fun store => { store with cells := store.cells.setIfInBounds n v }⟩ := by
  unfold set at ok
  cases slot : (heap.store h).slot i with
  | error fault => rw [slot] at ok; cases ok
  | ok n =>
      rw [slot] at ok
      cases ok
      exact ⟨n, rfl⟩

theorem extends_set (ok : heap.set h i v = .ok heap') : heap.Extends heap' := by
  obtain ⟨n, rfl⟩ := set_cases ok
  refine ⟨by simp, ?_⟩
  intro other known
  rw [store_eq, store_eq, Array.getElem?_modify, Array.getElem?_eq_getElem known]
  split <;> simp [Store.ty]

theorem Typed.set (typed : heap.Typed) (number : v.IsNumber (heap.store h).elem)
    (ok : heap.set h i v = .ok heap') : heap'.Typed := by
  obtain ⟨n, rfl⟩ := set_cases ok
  intro store member
  obtain ⟨k, lt, rfl⟩ := Array.mem_iff_getElem.mp member
  rw [Array.size_modify] at lt
  have old := typed _ (Array.getElem_mem lt)
  rw [Array.getElem_modify]
  split
  · rename_i same
    have here : heap.store h = heap.stores[k] := by
      rw [store_eq, same, Array.getElem?_eq_getElem lt]
      rfl
    rw [here] at number
    refine ⟨old.elem, ?_⟩
    intro w cell
    rcases Array.mem_or_eq_of_mem_setIfInBounds cell with cell | rfl
    · exact old.cells w cell
    · exact number
  · exact old

theorem Typed.elem (typed : heap.Typed) (known : h.index < heap.stores.size) :
    (heap.store h).elem = .int ∨ (heap.store h).elem = .float32 :=
  (typed _ (store_mem known)).elem

theorem Typed.get (typed : heap.Typed) (known : h.index < heap.stores.size)
    (ok : heap.get h i = .ok v) : v.IsNumber (heap.store h).elem :=
  (typed _ (store_mem known)).cells v (Store.mem_of_get ok)

end Heap

theorem Value.IsNumber.isScalar {ty : Ty} {v : Value} (number : v.IsNumber ty) : v.IsScalar := by
  cases number with
  | int n => exact isScalar_int n
  | float x => exact isScalar_float x

/-! ## States -/

/-- Arrays hold numbers, and every name is bound to a value of its type. -/
structure State.Typed (s : State) : Prop where
  heap : s.heap.Typed
  bindings : ∀ x b, s.env.Binds x b → s.heap.Holds b.ty b.value

theorem State.Typed.withHeap {s : State} {heap : Heap} (h : s.Typed) (ext : s.heap.Extends heap)
    (typed : heap.Typed) : { s with heap }.Typed :=
  ⟨typed, fun x b bound => (h.bindings x b bound).extends ext⟩

namespace Discipline

/-- Runs of one typed state. -/
def typed : Discipline where
  beside s t := s = t ∧ s.Typed
  allows _ s t := s.heap.Extends t.heap ∧ t.calls = s.calls
  owns heap v := ∀ h, v = .array h → h.index < heap.stores.size
  fits := Heap.Holds
  allows_refl _ s := ⟨.refl _, rfl⟩
  allows_trans first second := ⟨first.1.trans second.1, second.2.trans first.2⟩
  view h := h.1 ▸ .refl _
  result_kept h := State.SameCalls.result? h.2
  owns_scalar scalar h same := absurd same (scalar h)
  owns_fitting holds h same := (same ▸ holds).index_lt
  owns_kept allowed owned h same := Nat.lt_of_lt_of_le (owned h same) allowed.1.size
  fits_kept allowed holds := holds.extends allowed.1
  owns_named h found array same := by
    have holds := h.2.bindings _ _ (Env.binds_lookup found)
    rw [same] at holds
    exact holds.index_lt
  owns_cell h owned ok array same :=
    absurd same ((h.2.heap.get (owned _ rfl) ok).isScalar array)
  fits_conform _ owned ok := Heap.holds_conform owned ok
  fits_inferred _ owned ok := Heap.holds_inferredType owned ok
  emit e h := by
    obtain ⟨rfl, h⟩ := h
    exact .same _ fun _ _ => .same ⟨h.heap, h.bindings⟩ ⟨.refl _, rfl⟩
  alloc h declarable new := by
    obtain ⟨rfl, h⟩ := h
    have number := Ty.declarable_array declarable
    have ext := Heap.extends_alloc new
    have typed := h.heap.alloc new (Store.typed_zero _ number)
    have holds := Heap.holds_alloc new
    rw [Store.ty_zero] at holds
    exact ⟨.same (h.withHeap ext typed) ⟨ext, rfl⟩, holds⟩
  set h owned fit ok := by
    obtain ⟨rfl, h⟩ := h
    have ext := Heap.extends_set ok
    -- What fits the elements of an array is a number, since there are no others.
    have number := fit.isNumber (h.heap.elem (owned _ rfl))
    exact .same (h.withHeap ext (h.heap.set number ok)) ⟨ext, rfl⟩
  declare x h fit _ := by
    obtain ⟨rfl, h⟩ := h
    apply Attempts.same
    intro env ok
    refine .same ⟨h.heap, ?_⟩ ⟨.refl _, rfl⟩
    intro y c bound
    rcases Env.binds_declare ok bound with old | rfl
    · exact h.bindings y c old
    · exact fit
  assign h found fit := by
    obtain ⟨rfl, h⟩ := h
    apply Attempts.same
    intro env ok
    refine .same ⟨h.heap, ?_⟩ ⟨.refl _, rfl⟩
    intro y c bound
    rcases Env.binds_assign found ok bound with old | rfl
    · exact h.bindings y c old
    · exact fit
  enterBlock h := by
    obtain ⟨rfl, h⟩ := h
    exact ⟨rfl, h.heap, fun y c bound => h.bindings y c (Env.binds_enterBlock bound)⟩
  leaveBlock h moved := by
    obtain ⟨rfl, h⟩ := h
    obtain ⟨⟨rfl, inside⟩, left, _⟩ := moved
    refine .same ⟨inside.heap, ?_⟩ left
    exact fun y c bound => inside.bindings y c (Env.binds_leaveBlock bound)

theorem closed_typed : typed.Closed where
  opens call := {
    room := fun h => .inl (h.1 ▸ ⟨rfl, rfl⟩)
    enter := by
      rintro s t ⟨rfl, h⟩ _ _
      exact ⟨rfl, h.heap, fun y c bound => h.bindings y c (Env.binds_enterCall bound)⟩
    leave := by
      rintro s t s' t' ⟨rfl, h⟩ _ ⟨⟨rfl, inside⟩, ⟨ext, calls⟩, _⟩
      have kept : s'.leaveCall.calls = s.calls := congrArg List.tail calls
      refine .same ⟨inside.heap, ?_⟩ ⟨ext, kept⟩
      exact fun y c bound => inside.bindings y c (Env.binds_leaveCall bound) }
  loads := {
    imports := by
      rintro s t packages ⟨rfl, h⟩
      exact .same ⟨h.heap, h.bindings⟩ ⟨.refl _, rfl⟩
    function := by
      rintro s t f ⟨rfl, h⟩ _ _ _
      exact .same ⟨h.heap, h.bindings⟩ ⟨.refl _, rfl⟩ }

theorem single_typed : typed.Single := ⟨fun h => h.1, id⟩

theorem invariant_typed (limit : Nat) (sink : Sink) : typed.Invariant limit sink where
  toClosed := closed_typed
  single := single_typed
  callable _ := trivial
  fresh := by
    refine ⟨rfl, ?_, ?_⟩
    · intro store member
      simp [State.fresh, Heap.empty] at member
    · intro x b bound
      simp [State.fresh, Env.empty, Env.Binds] at bound

end Discipline

/-! ## The types that names have -/

theorem Heap.Holds.hasBool {heap : Heap} {ty : Ty} {v : Value} (typed : heap.Typed)
    (holds : heap.Holds ty v) : ty.hasBool = false ∧ ∀ m n elem, ty ≠ .array m (.array n elem) := by
  cases holds with
  | int | float => simp [Ty.hasBool]
  | array known _ elem =>
      rcases typed.elem known with int | float
      · simp [← elem, int, Ty.hasBool]
      · simp [← elem, float, Ty.hasBool]

theorem Heap.Holds.stored {heap : Heap} {ty : Ty} {v : Value} (holds : heap.Holds ty v) :
    (∀ b, v ≠ .bool b) ∧ v ≠ .unit := by
  cases holds with
  | int | float | array => simp

/-- Wherever a run is, every name of every scope is bound to a value of its type,
    no truth value and no void is stored, no type of a name has `bool` or arrays
    of arrays in it, and every array has numbers of one type in its cells. -/
theorem storage_typed {limit : Nat} {sink : Sink} {s : State} (reachable : Reachable limit sink s) :
    (∀ x b, s.env.Binds x b →
      s.heap.Holds b.ty b.value ∧ ((∀ t, b.value ≠ .bool t) ∧ b.value ≠ .unit) ∧
        b.ty.hasBool = false ∧ ∀ m n elem, b.ty ≠ .array m (.array n elem)) ∧
    ∀ store ∈ s.heap.stores, (store.elem = .int ∨ store.elem = .float32) ∧
      ∀ v ∈ store.cells, v.IsNumber store.elem := by
  obtain ⟨_, heap, bindings⟩ := (Discipline.invariant_typed limit sink).reachable reachable
  constructor
  · intro x b bound
    have holds := bindings x b bound
    exact ⟨holds, holds.stored, holds.hasBool heap⟩
  · intro store member
    exact ⟨(heap store member).elem, (heap store member).cells⟩

/-- Three whole numbers, and then a truth value, which cannot be declared. -/
def arrayThenBool : Program :=
  ⟨"main", [], [.stmt (.var ⟨1, 1⟩ "a" (some (.array 3 .int)) none),
    .stmt (.var ⟨2, 1⟩ "b" (some .bool) none)]⟩

/-- What a program declared before it failed has its type. -/
theorem storage_typed_arrayThenBool :
    Reachable 5 .silent (arrayThenBool.load.after (.fresh 5 .silent)) ∧
    (arrayThenBool.load.after (.fresh 5 .silent)).env.Binds "a"
      ⟨.array ⟨0⟩, .array 3 .int, .variable⟩ ∧
    (arrayThenBool.load.after (.fresh 5 .silent)).heap.Holds (.array 3 .int) (.array ⟨0⟩) := by
  have started : Session 5 .silent (.fresh 5 .silent) := .fresh
  have reachable : Reachable 5 .silent (arrayThenBool.load.after (.fresh 5 .silent)) :=
    ⟨.load arrayThenBool, _, .load _ (started.load arrayThenBool), .inl rfl⟩
  have bound : (arrayThenBool.load.after (.fresh 5 .silent)).env.Binds "a"
      ⟨.array ⟨0⟩, .array 3 .int, .variable⟩ := .inl List.mem_cons_self
  exact ⟨reachable, bound, ((storage_typed reachable).1 _ _ bound).1⟩

end Treewalk
