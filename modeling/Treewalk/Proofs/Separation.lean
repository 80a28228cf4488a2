import Treewalk.Proofs.Distinct
import Treewalk.Proofs.Isolation
import Treewalk.Proofs.Typing

/-! # Arrays that a call cannot reach

An array that no name and no cell refers to stays as it is: whatever a run stores
it has from a name, from a cell or from an array that it made itself. A call does
the same whatever its callers have in their scopes, so for a call the names that
count are the globals, and its parameters.
-/

namespace Treewalk

open Effect

/-! ## Values that come from elsewhere -/

theorem Store.isScalar_zero {len : Nat} {elem : Ty} {v : Value}
    (cell : v ∈ (Store.zero len elem).cells) : v.IsScalar := by
  rw [(Array.mem_replicate.mp cell).2, zeroCell]
  split
  · exact Value.isScalar_float _
  · exact Value.isScalar_int _

namespace Heap

variable {heap heap' : Heap} {h : Handle} {i : Int} {v w : Value}

theorem mem_of_get (ok : heap.get h i = .ok v) : ∃ store ∈ heap.stores, v ∈ store.cells := by
  have cell := Store.mem_of_get ok
  by_cases known : h.index < heap.stores.size
  · exact ⟨heap.store h, store_mem known, cell⟩
  · rw [store_eq, Array.getElem?_eq_none (Nat.le_of_not_lt known)] at cell
    exact absurd cell (Array.not_mem_empty v)

theorem mem_of_set {store : Store} (ok : heap.set h i v = .ok heap') (listed : store ∈ heap'.stores)
    (cell : w ∈ store.cells) : w = v ∨ ∃ old ∈ heap.stores, w ∈ old.cells := by
  obtain ⟨n, rfl⟩ := set_cases ok
  obtain ⟨k, lt, rfl⟩ := Array.mem_iff_getElem.mp listed
  rw [Array.size_modify] at lt
  rw [Array.getElem_modify] at cell
  have old := Array.getElem_mem lt
  split at cell
  · rcases Array.mem_or_eq_of_mem_setIfInBounds cell with cell | rfl
    · exact .inr ⟨_, old, cell⟩
    · exact .inl rfl
  · exact .inr ⟨_, old, cell⟩

theorem store_of_set {g : Handle} (other : g ≠ h) (ok : heap.set g i v = .ok heap') :
    heap'.stores[h.index]? = heap.stores[h.index]? := by
  obtain ⟨n, rfl⟩ := set_cases ok
  have apart : g.index ≠ h.index := by
    intro same
    cases g
    cases h
    exact other (congrArg Handle.mk same)
  rw [Array.getElem?_modify, if_neg apart]

theorem conform_cases {ty : Ty} {untyped : Bool} {target : String}
    (ok : heap.conform ty v untyped target = .ok w) : w = v ∨ w.IsScalar := by
  unfold conform at ok
  cases v with
  | bool | unit => cases ok
  | int n =>
      dsimp only at ok
      split at ok
      · cases ok
        exact .inl rfl
      · split at ok <;> cases ok
        exact .inr (Value.isScalar_float _)
  | float x =>
      dsimp only at ok
      split at ok <;> cases ok
      exact .inl rfl
  | array g =>
      dsimp only at ok
      split at ok <;> cases ok
      exact .inl rfl

end Heap

/-! ## Arrays that nothing refers to -/

/-- Nothing refers to an array, and this is what it holds. -/
structure State.Forgets (h : Handle) (store : Store) (s : State) : Prop where
  names : ∀ x b, s.env.Binds x b → b.value ≠ .array h
  cells : ∀ other ∈ s.heap.stores, .array h ∉ other.cells
  store : s.heap.stores[h.index]? = some store

namespace Discipline

/-- Runs of one state in which nothing refers to an array. -/
def forgetting (h : Handle) (store : Store) : Discipline where
  __ := distinct
  beside s t := s = t ∧ s.Forgets h store
  owns _ v := v ≠ .array h
  fits _ _ v := v ≠ .array h
  view same := same.1 ▸ .refl _
  owns_scalar scalar := scalar h
  owns_fitting fit := fit
  owns_kept _ owned := owned
  fits_kept _ fit := fit
  callable_named _ _ := trivial
  owns_named forgets found := forgets.2.names _ _ (Env.binds_lookup found)
  owns_cell forgets _ ok same := by
    obtain ⟨other, listed, cell⟩ := Heap.mem_of_get ok
    exact forgets.2.cells other listed (same ▸ cell)
  fits_conform _ owned ok := by
    rcases Heap.conform_cases ok with rfl | scalar
    · exact owned
    · exact scalar h
  fits_inferred _ owned _ := owned
  emit e forgets := by
    obtain ⟨rfl, forgets⟩ := forgets
    exact .same _ fun _ _ => .same ⟨forgets.names, forgets.cells, forgets.store⟩ rfl
  alloc forgets declarable new := by
    obtain ⟨rfl, forgets⟩ := forgets
    have known := (Array.getElem?_eq_some_iff.mp forgets.store).1
    cases new
    refine ⟨.same ⟨forgets.names, ?_, ?_⟩ rfl, ?_⟩
    · intro other listed cell
      rcases Array.mem_push.mp listed with old | rfl
      · exact forgets.cells other old cell
      · exact Store.isScalar_zero cell h rfl
    · rw [← forgets.store, Array.getElem?_eq_getElem known]
      exact Array.getElem?_push_lt known
    · -- The array is there already, so the new one is another.
      intro same
      cases same
      exact absurd known (Nat.lt_irrefl _)
  set forgets owned fit ok := by
    obtain ⟨rfl, forgets⟩ := forgets
    refine .same ⟨forgets.names, ?_, ?_⟩ rfl
    · intro other listed cell
      rcases Heap.mem_of_set ok listed cell with same | ⟨old, listed, cell⟩
      · exact fit same.symm
      · exact forgets.cells old listed cell
    · have other : _ ≠ h := fun same => owned (congrArg Value.array same)
      exact (Heap.store_of_set other ok).trans forgets.store
  declare x forgets fit _ := by
    obtain ⟨rfl, forgets⟩ := forgets
    apply Attempts.same
    intro env ok
    refine .same ⟨?_, forgets.cells, forgets.store⟩ rfl
    intro y c bound
    rcases Env.binds_declare ok bound with old | rfl
    · exact forgets.names y c old
    · exact fit
  assign forgets found fit := by
    obtain ⟨rfl, forgets⟩ := forgets
    apply Attempts.same
    intro env ok
    refine .same ⟨?_, forgets.cells, forgets.store⟩ rfl
    intro y c bound
    rcases Env.binds_assign found ok bound with old | rfl
    · exact forgets.names y c old
    · exact fit
  enterBlock forgets := by
    obtain ⟨rfl, forgets⟩ := forgets
    exact ⟨rfl, fun y c bound => forgets.names y c (Env.binds_enterBlock bound), forgets.cells,
      forgets.store⟩
  leaveBlock before moved := by
    obtain ⟨rfl, _⟩ := before
    obtain ⟨⟨rfl, inside⟩, left, _⟩ := moved
    refine .same ⟨?_, inside.cells, inside.store⟩ left
    exact fun y c bound => inside.names y c (Env.binds_leaveBlock bound)
  honest_named honest := honest.elim
  alone past := past.elim

theorem closed_forgetting (h : Handle) (store : Store) : (forgetting h store).Closed where
  opens call := {
    room := fun forgets => .inl (forgets.1 ▸ ⟨rfl, rfl⟩)
    enter := by
      rintro s t ⟨rfl, forgets⟩ _ _
      exact ⟨rfl, fun y c bound => forgets.names y c (Env.binds_enterCall bound), forgets.cells,
        forgets.store⟩
    leave := by
      rintro s t s' t' ⟨rfl, _⟩ _ ⟨⟨rfl, inside⟩, calls, _⟩
      refine .same ⟨?_, inside.cells, inside.store⟩ (congrArg List.tail calls)
      exact fun y c bound => inside.names y c (Env.binds_leaveCall bound) }
  loads := {
    imports := by
      rintro s t packages ⟨rfl, forgets⟩
      exact .same ⟨forgets.names, forgets.cells, forgets.store⟩ rfl
    function := by
      rintro s t f ⟨rfl, forgets⟩ _ _ _
      exact .same ⟨forgets.names, forgets.cells, forgets.store⟩ rfl }

end Discipline

open Discipline

/-! ## Calls -/

/-- What a call leaves in the heap does not depend on the scopes of its callers. -/
theorem heap_after_callFunction {s t : State} (same : s.SameButLocals t) (f : Func)
    (args : List Value) (site : Pos) :
    ((callFunction f args site).after s).heap = ((callFunction f args site).after t).heap := by
  rw [after_callFunction, after_callFunction, same.room]
  split
  · exact same.heap
  · exact (same.run f args site).1.beside.same.heap

/-- A call leaves an array alone that is bound to no global and is none of its
    arguments. -/
theorem call_spares_array {limit : Nat} {sink : Sink} {s : State}
    (reachable : Reachable limit sink s) (f : Func) (args : List Value) (site : Pos) {h : Handle}
    (known : h.index < s.heap.stores.size)
    (global : ∀ x b, s.env.globals.find? x = some b → b.value ≠ .array h)
    (argument : .array h ∉ args) :
    ((callFunction f args site).after s).heap.stores[h.index]? = s.heap.stores[h.index]? := by
  have distinct := ((invariant_distinct limit sink).reachable reachable).2.env
  have typed := ((invariant_typed limit sink).reachable reachable).2.heap
  -- Without the scopes of its callers, nothing but globals could refer to the array.
  let bare : State := { s with env := { s.env with frames := [] } }
  have same : s.SameButLocals bare := ⟨rfl, rfl, rfl, rfl, rfl, rfl, rfl⟩
  have forgets : bare.Forgets h s.heap.stores[h.index] := by
    refine ⟨?_, ?_, Array.getElem?_eq_getElem known⟩
    · intro x b bound
      rcases bound with bound | ⟨frame, listed, _⟩
      · exact global x b (lookup_of_mem distinct.globals bound)
      · cases listed
    · intro store listed cell
      exact ((typed store listed).cells _ cell).isScalar h rfl
  have suits : (forgetting h s.heap.stores[h.index]).Suits bare.heap f.params args := by
    intro pv member
    have passed := (List.of_mem_zip member).2
    exact fun is => argument (is ▸ passed)
  have met := (closed_forgetting h _).self (p := .call f args site) ⟨rfl, forgets⟩
    ⟨trivial, suits⟩
  rw [heap_after_callFunction same, Array.getElem?_eq_getElem known]
  exact (met.lockstep.moved id).1.beside.2.store

/-- A function that writes to a global array and to one of its own. -/
def scribble : Func :=
  ⟨⟨2, 1⟩, "scribble", [], none, [.var ⟨3, 1⟩ "own" (some (.array 2 .int)) none,
    .assign ⟨4, 1⟩ (.index ⟨4, 1⟩ (.name ⟨4, 1⟩ "own") (.int ⟨4, 5⟩ 0)) none (.int ⟨4, 10⟩ 5),
    .assign ⟨5, 1⟩ (.index ⟨5, 1⟩ (.name ⟨5, 1⟩ "shared") (.int ⟨5, 8⟩ 0)) none (.int ⟨5, 13⟩ 7)]⟩

def scribbleMain : Func :=
  ⟨⟨6, 1⟩, "main", [], none, [.var ⟨7, 1⟩ "kept" (some (.array 2 .int)) none,
    .expr ⟨8, 1⟩ (.call ⟨8, 1⟩ "scribble" [])]⟩

def scribbleProgram : Program :=
  ⟨"main", [], [.stmt (.var ⟨1, 1⟩ "shared" (some (.array 1 .int)) none), .func scribble,
    .func scribbleMain]⟩

/-- In the call of `main`, once it has an array of its own. -/
def scribbleInside : State :=
  (evaluate (.stmt (.var ⟨7, 1⟩ "kept" (some (.array 2 .int)) none))).after
    ((scribbleProgram.load.after (.fresh 5 .silent)).enterCall ⟨"main", ⟨0, 0⟩, none⟩)

/-- Of two arrays, `scribble` changes the one that is bound to a global. -/
theorem call_spares_array_scribble :
    Reachable 5 .silent scribbleInside ∧
    ((callFunction scribble [] ⟨8, 1⟩).after scribbleInside).heap.stores[0]? =
      some ⟨.int, #[.int 7]⟩ ∧
    ((callFunction scribble [] ⟨8, 1⟩).after scribbleInside).heap.stores[1]? =
      some ⟨.int, #[.int 0, .int 0]⟩ := by
  have started : Session 5 .silent (.fresh 5 .silent) := .fresh
  have called : Visited 5 .silent (.call scribbleMain [] ⟨0, 0⟩)
      (scribbleProgram.load.after (.fresh 5 .silent)) :=
    .enter (.run scribbleProgram started) (.main rfl rfl rfl rfl)
  have inside := called.enter (Enters.body (by decide) rfl rfl)
  have reachable : Reachable 5 .silent scribbleInside := ⟨_, _, inside, .inr rfl⟩
  have global : ∀ x b, scribbleInside.env.globals.find? x = some b → b.value ≠ .array ⟨1⟩ := by
    intro x b bound
    have member := Scope.mem_of_find? bound
    have globals : scribbleInside.env.globals =
        [("shared", ⟨.array ⟨0⟩, .array 1 .int, .variable⟩)] := rfl
    rw [globals, List.mem_singleton, Prod.mk.injEq] at member
    rw [member.2]
    simp
  have spared := call_spares_array reachable scribble [] ⟨8, 1⟩ (h := ⟨1⟩)
    (by decide) global List.not_mem_nil
  exact ⟨reachable, rfl, spared.trans rfl⟩

end Treewalk
