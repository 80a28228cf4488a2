import Treewalk.Proofs.Typing

/-! # Arrays as they are seen through handles

A list of handles grows by new arrays and by copies of handles, and cells are
read and written through any of them. What a read gives follows from the
operations so far: it is the latest value that was put there through a handle of
the same array.
-/

namespace Treewalk

/-- An operation on a growing list of handles, which are called by their numbers
    in it. -/
inductive ArrayOp where
  /-- Make an array, and a handle of it. -/
  | new (len : Nat) (elem : Ty)
  /-- Copy a handle. -/
  | clone (k : Nat)
  | get (k : Nat) (index : Int)
  | set (k : Nat) (index : Int) (v : Value)

namespace ArrayOp

/-- What comes of an operation. -/
inductive Answer where
  /-- There is one more handle. -/
  | handle
  | value (v : Value)
  /-- The value was put in. -/
  | done
  | refused (fault : Fault)
  /-- There is no handle of that number. -/
  | unknown

/-- A heap and handles of its arrays. -/
structure Bench where
  heap : Heap
  handles : List Handle

/-- Do an operation. -/
def perform (b : Bench) : ArrayOp → Answer × Bench
  | .new len elem =>
      let (h, heap) := b.heap.alloc (.zero len elem)
      (.handle, ⟨heap, b.handles ++ [h]⟩)
  | .clone k =>
      match b.handles[k]? with
      | none => (.unknown, b)
      | some h => (.handle, { b with handles := b.handles ++ [h] })
  | .get k index =>
      match b.handles[k]? with
      | none => (.unknown, b)
      | some h =>
          match b.heap.get h index with
          | .error fault => (.refused fault, b)
          | .ok v => (.value v, b)
  | .set k index v =>
      match b.handles[k]? with
      | none => (.unknown, b)
      | some h =>
          match b.heap.set h index v with
          | .error fault => (.refused fault, b)
          | .ok heap => (.done, { b with heap })

/-- Operations and their answers, the latest first. -/
abbrev Log := List (ArrayOp × Answer)

/-- Do operations, of which the latest comes first, on a heap that is there
    already. -/
def run (heap : Heap) : List ArrayOp → Log × Bench
  | [] => ([], ⟨heap, []⟩)
  | op :: past =>
      let (log, b) := run heap past
      let (answer, b) := op.perform b
      ((op, answer) :: log, b)

/-! ## What the log tells -/

/-- The length and the type of elements of each array that was made, in order. -/
def births : Log → List (Nat × Ty)
  | [] => []
  | (.new len elem, _) :: past => births past ++ [(len, elem)]
  | _ :: past => births past

/-- Which of the arrays each handle goes back to. -/
def origins : Log → List Nat
  | [] => []
  | (.new _ _, _) :: past => origins past ++ [(births past).length]
  | (.clone k, _) :: past => origins past ++ (origins past)[k]?.toList
  | _ :: past => origins past

/-- The value that was put in last at an index of the `n`-th array, through any
    handle of it. -/
def latest (n : Nat) (index : Int) : Log → Option Value
  | [] => none
  | (.set k i v, .done) :: past =>
      if (origins past)[k]? = some n ∧ i = index then some v else latest n index past
  | _ :: past => latest n index past

/-- The value of a cell that nothing was put into. Floats start as the float zero, all other
    elements as the number zero. -/
def untouched : Ty → Value
  | .float32 => .float 0
  | .int | .bool | .array _ _ => .int 0

/-- The `n`-th array, made with a length and a type of elements. -/
def told (log : Log) (n : Nat) (birth : Nat × Ty) : Store :=
  ⟨birth.2, Array.ofFn fun i : Fin birth.1 => (latest n i log).getD (untouched birth.2)⟩

end ArrayOp

/-! ## Single cells -/

theorem Store.slot_eq (s : Store) (i : Int) :
    s.slot i = if 0 ≤ i ∧ i < s.cells.size then .ok i.toNat
      else .error (.indexOutOfRange i s.cells.size) := by
  simp [slot]

namespace ArrayOp

variable {log : Log} {n : Nat} {birth : Nat × Ty} {i : Int}

theorem zeroCell_eq_untouched (elem : Ty) : Store.zeroCell elem = untouched elem := by
  cases elem <;> rfl

theorem size_told : (told log n birth).cells.size = birth.1 := by
  simp [told]

theorem ty_told : (told log n birth).ty = .array birth.1 birth.2 := by
  rw [Store.ty, size_told]
  rfl

theorem get_told (inside : 0 ≤ i ∧ i < birth.1) :
    (told log n birth).get i = .ok ((latest n i log).getD (untouched birth.2)) := by
  have cell : ((i.toNat : Nat) : Int) = i := Int.toNat_of_nonneg inside.1
  have lt : i.toNat < birth.1 := by omega
  rw [Store.get, Store.slot_eq, size_told, if_pos inside]
  simp [told, Array.getD_eq_getD_getElem?, lt, cell, bind, Except.bind, pure, Except.pure]

theorem set_told (v : Value) {k : Nat} (origin : (origins log)[k]? = some n)
    (inside : 0 ≤ i ∧ i < birth.1) :
    told ((.set k i v, .done) :: log) n birth =
      { told log n birth with cells := (told log n birth).cells.setIfInBounds i.toNat v } := by
  simp only [told, Store.mk.injEq, true_and]
  apply Array.ext
  · simp
  intro j lt _
  have same : i = (j : Int) ↔ i.toNat = j := by omega
  by_cases here : i.toNat = j
  · simp [latest, origin, same, here]
  · have lt : j < birth.1 := by simpa using lt
    rw [Array.getElem_setIfInBounds_ne (by simpa using lt) here]
    simp [latest, same, here]

theorem told_set_other (v : Value) {k m : Nat} (origin : (origins log)[k]? = some m)
    (other : m ≠ n) : told ((.set k i v, .done) :: log) n birth = told log n birth := by
  simp [told, latest, origin, other]

/-! ## The log and the heap -/

theorem lt_births (known : n ∈ origins log) : n < (births log).length := by
  fun_induction origins log with
  | case1 => simp at known
  | case2 len elem answer past ih =>
      rw [List.mem_append, List.mem_singleton] at known
      rw [births, List.length_append, List.length_singleton]
      rcases known with old | rfl
      · have := ih old
        omega
      · omega
  | case3 k answer past ih =>
      rw [List.mem_append, Option.mem_toList] at known
      exact known.elim ih fun copied => ih (List.mem_of_getElem? copied)
  | case4 entry past notNew notClone ih =>
      obtain ⟨_ | _ | _ | _, answer⟩ := entry
      · exact absurd rfl (notNew _ _ _)
      · exact absurd rfl (notClone _ _)
      · exact ih known
      · exact ih known

theorem latest_unborn (unborn : (births log).length ≤ n) : latest n i log = none := by
  induction log with
  | nil => rfl
  | cons entry past ih =>
      have grows : (births past).length ≤ (births (entry :: past)).length := by
        obtain ⟨_ | _ | _ | _, answer⟩ := entry <;> simp [births]
      have before := ih (Nat.le_trans grows unborn)
      obtain ⟨op, answer⟩ := entry
      cases op with
      | new | clone | get => exact before
      | set k j v =>
          cases answer with
          | handle | value | refused | unknown => exact before
          | done =>
              -- No handle goes back to an array that is not made yet.
              have other : (origins past)[k]? ≠ some n := by
                intro origin
                have := lt_births (List.mem_of_getElem? origin)
                omega
              simp [latest, other, before]

/-- What an operation can do: it makes an array, copies a handle or writes a cell,
    and otherwise leaves everything as it is. -/
inductive Performs (b : Bench) : ArrayOp → Answer → Bench → Prop where
  | new (len : Nat) (elem : Ty) : Performs b (.new len elem) .handle
      ⟨⟨b.heap.stores.push (.zero len elem)⟩, b.handles ++ [⟨b.heap.stores.size⟩]⟩
  | clone {k : Nat} {h : Handle} : b.handles[k]? = some h →
      Performs b (.clone k) .handle { b with handles := b.handles ++ [h] }
  | set {k : Nat} {h : Handle} {i : Int} {v : Value} {heap : Heap} : b.handles[k]? = some h →
      b.heap.set h i v = .ok heap → Performs b (.set k i v) .done { b with heap }
  | get (k : Nat) (i : Int) (answer : Answer) : Performs b (.get k i) answer b
  | noClone {k : Nat} : b.handles[k]? = none → Performs b (.clone k) .unknown b
  | noSet (k : Nat) (i : Int) (v : Value) {answer : Answer} : answer ≠ .done →
      Performs b (.set k i v) answer b

theorem performs (b : Bench) (op : ArrayOp) : Performs b op (op.perform b).1 (op.perform b).2 := by
  cases op with
  | new len elem => exact .new len elem
  | clone k =>
      cases has : b.handles[k]? with
      | none => simpa only [perform, has] using Performs.noClone has
      | some h => simpa only [perform, has] using Performs.clone has
  | get k i =>
      have same : ((ArrayOp.get k i).perform b).2 = b := by
        simp only [perform]
        split
        · rfl
        · split <;> rfl
      rw [same]
      exact .get k i _
  | set k i v =>
      cases has : b.handles[k]? with
      | none =>
          simp only [perform, has]
          exact .noSet k i v nofun
      | some h =>
          cases put : b.heap.set h i v with
          | error fault =>
              simp only [perform, has, put]
              exact .noSet k i v nofun
          | ok heap => simpa only [perform, has, put] using Performs.set has put

/-- The heap and the handles are as the log tells. Behind the arrays that were
    there already stand the new ones in order. -/
structure Bench.Agrees (heap : Heap) (log : Log) (b : Bench) : Prop where
  handles : b.handles = (origins log).map fun n => ⟨heap.stores.size + n⟩
  size : b.heap.stores.size = heap.stores.size + (births log).length
  stores : ∀ n birth, (births log)[n]? = some birth →
    b.heap.stores[heap.stores.size + n]? = some (told log n birth)

namespace Bench.Agrees

variable {heap : Heap} {b : Bench} {k : Nat} {h : Handle}

theorem origin (agrees : b.Agrees heap log) (has : b.handles[k]? = some h) :
    ∃ n birth, (origins log)[k]? = some n ∧ (births log)[n]? = some birth ∧
      h = ⟨heap.stores.size + n⟩ ∧ b.heap.store h = told log n birth := by
  rw [agrees.handles, List.getElem?_map, Option.map_eq_some_iff] at has
  obtain ⟨n, origin, rfl⟩ := has
  have born := List.getElem?_eq_getElem (lt_births (List.mem_of_getElem? origin))
  refine ⟨n, _, origin, born, rfl, ?_⟩
  rw [Heap.store_eq, agrees.stores n _ born]
  rfl

theorem new (agrees : b.Agrees heap log) (len : Nat) (elem : Ty) (answer : Answer) :
    (⟨⟨b.heap.stores.push (.zero len elem)⟩, b.handles ++ [⟨b.heap.stores.size⟩]⟩ : Bench).Agrees
      heap ((.new len elem, answer) :: log) where
  handles := by simp [agrees.handles, agrees.size, origins]
  size := by simp [agrees.size, births, Nat.add_assoc]
  stores n birth born := by
    obtain ⟨lt, _⟩ := List.getElem?_eq_some_iff.mp born
    rw [births, List.length_append, List.length_singleton] at lt
    rw [births] at born
    rw [Array.getElem?_push, agrees.size]
    by_cases last : n = (births log).length
    -- The new array stands last, and nothing was put into it before.
    · rw [last, List.getElem?_concat_length] at born
      cases born
      rw [if_pos (by rw [last]), last]
      have fresh (i : Int) : latest (births log).length i log = none :=
        latest_unborn (Nat.le_refl _)
      have zero : Store.zero len elem = told log (births log).length (len, elem) := by
        simp only [told, fresh, Store.zero, zeroCell_eq_untouched, Store.mk.injEq, true_and]
        exact Array.ext (by simp) (by simp)
      exact congrArg some zero
    · rw [List.getElem?_append_left (by omega)] at born
      rw [if_neg (by omega)]
      exact agrees.stores n birth born

theorem clone (agrees : b.Agrees heap log) (has : b.handles[k]? = some h) (answer : Answer) :
    ({ b with handles := b.handles ++ [h] } : Bench).Agrees heap ((.clone k, answer) :: log) := by
  obtain ⟨n, _, origin, _, rfl, _⟩ := agrees.origin has
  exact ⟨by simp [agrees.handles, origins, origin], agrees.size, agrees.stores⟩

theorem set (agrees : b.Agrees heap log) (has : b.handles[k]? = some h) {v : Value} {heap' : Heap}
    (ok : b.heap.set h i v = .ok heap') :
    ({ b with heap := heap' } : Bench).Agrees heap ((.set k i v, .done) :: log) := by
  obtain ⟨n, birth, origin, born, rfl, named⟩ := agrees.origin has
  rw [Heap.set, named, Store.slot_eq, size_told] at ok
  split at ok
  · rename_i inside
    cases ok
    refine ⟨agrees.handles, by simpa [births] using agrees.size, ?_⟩
    intro m birth' born'
    -- The write is seen in the array that the handle goes back to and in no other.
    rw [Array.getElem?_modify, agrees.stores m birth' born']
    by_cases same : n = m
    · subst same
      obtain rfl : birth = birth' := Option.some.inj (born.symm.trans born')
      rw [if_pos rfl, set_told v origin inside]
      rfl
    · rw [if_neg (by simpa using same), told_set_other v origin same]
  · cases ok

/-- An entry that tells nothing new. -/
theorem unchanged (agrees : b.Agrees heap log) {entry : ArrayOp × Answer}
    (born : births (entry :: log) = births log) (origin : origins (entry :: log) = origins log)
    (put : ∀ n i, latest n i (entry :: log) = latest n i log) : b.Agrees heap (entry :: log) := by
  refine ⟨by rw [origin, agrees.handles], by rw [born, agrees.size], ?_⟩
  intro n birth known
  rw [born] at known
  rw [agrees.stores n birth known]
  simp only [told, put]

end Bench.Agrees

theorem Performs.agrees {heap : Heap} {b b' : Bench} {op : ArrayOp} {answer : Answer}
    (performs : Performs b op answer b') (agrees : b.Agrees heap log) :
    b'.Agrees heap ((op, answer) :: log) := by
  cases performs with
  | new len elem => exact agrees.new len elem .handle
  | clone has => exact agrees.clone has .handle
  | set has put => exact agrees.set has put
  | get k i => exact agrees.unchanged rfl rfl fun _ _ => rfl
  | @noClone k unknown =>
      have absent : (origins log)[k]? = none := by simpa [agrees.handles] using unknown
      exact agrees.unchanged rfl (by simp [origins, absent]) fun _ _ => rfl
  | noSet k i v refused =>
      refine agrees.unchanged rfl rfl fun n j => ?_
      cases answer with
      | done => exact absurd rfl refused
      | handle | value | refused | unknown => rfl

theorem agrees_run (heap : Heap) (past : List ArrayOp) :
    (run heap past).2.Agrees heap (run heap past).1 := by
  induction past with
  | nil => exact ⟨rfl, rfl, fun n birth born => by simp [births, run] at born⟩
  | cons op past ih => exact (performs (run heap past).2 op).agrees ih

/-! ## Later on -/

theorem Performs.extends {b b' : Bench} {op : ArrayOp} {answer : Answer}
    (performs : Performs b op answer b') : b.heap.Extends b'.heap ∧ b.handles <+: b'.handles := by
  cases performs with
  | new => exact ⟨Heap.extends_alloc rfl, List.prefix_append ..⟩
  | clone => exact ⟨.refl _, List.prefix_append ..⟩
  | set _ put => exact ⟨Heap.extends_set put, List.prefix_rfl⟩
  | get | noClone | noSet => exact ⟨.refl _, List.prefix_rfl⟩

theorem extends_run (heap : Heap) (past later : List ArrayOp) :
    (run heap past).2.heap.Extends (run heap (later ++ past)).2.heap ∧
      (run heap past).2.handles <+: (run heap (later ++ past)).2.handles := by
  induction later with
  | nil => exact ⟨.refl _, List.prefix_rfl⟩
  | cons op later ih =>
      have next := (performs (run heap (later ++ past)).2 op).extends
      exact ⟨ih.1.trans next.1, ih.2.trans next.2⟩

/-! ## Reading and writing through a handle -/

section Handle

variable {b : Bench} {k : Nat} {h : Handle} (has : b.handles[k]? = some h)
  (named : b.heap.store h = told log n birth)

include has named

theorem perform_get (i : Int) :
    (ArrayOp.get k i).perform b =
      if 0 ≤ i ∧ i < birth.1 then (.value ((latest n i log).getD (untouched birth.2)), b)
      else (.refused (.indexOutOfRange i birth.1), b) := by
  have read : b.heap.get h i = (told log n birth).get i := by rw [Heap.get, named]
  split
  · rename_i inside
    rw [get_told inside] at read
    simp only [perform, has, read]
  · rename_i outside
    have fault : (told log n birth).get i = .error (.indexOutOfRange i birth.1) := by
      rw [Store.get, Store.slot_eq, size_told, if_neg outside]
      rfl
    simp only [perform, has, read, fault]

theorem perform_set (i : Int) (v : Value) :
    if 0 ≤ i ∧ i < birth.1 then ((ArrayOp.set k i v).perform b).1 = .done
    else (ArrayOp.set k i v).perform b = (.refused (.indexOutOfRange i birth.1), b) := by
  have slot := Store.slot_eq (b.heap.store h) i
  rw [show (b.heap.store h).cells.size = birth.1 by rw [named, size_told]] at slot
  split
  · rename_i inside
    rw [if_pos inside] at slot
    simp only [perform, has, Heap.set, slot]
    rfl
  · rename_i outside
    rw [if_neg outside] at slot
    simp only [perform, has, Heap.set, slot]
    rfl

end Handle

/-- A handle stands for the array it goes back to. Through it every index below
    the length can be read and written and no other; a read gives the latest value
    put there through any handle of the array, or else zero; what is refused
    changes nothing; length and type stay as they were given; and handles are the
    same if they go back to the same array. -/
theorem handles_name_arrays (heap : Heap) (past : List ArrayOp) {k : Nat} {h : Handle}
    (has : (run heap past).2.handles[k]? = some h) :
    let log := (run heap past).1
    let b := (run heap past).2
    ∃ n len elem, (origins log)[k]? = some n ∧ (births log)[n]? = some (len, elem) ∧
      (∀ i : Int, (ArrayOp.get k i).perform b =
        if 0 ≤ i ∧ i < len then (.value ((latest n i log).getD (untouched elem)), b)
        else (.refused (.indexOutOfRange i len), b)) ∧
      (∀ (i : Int) (v : Value), if 0 ≤ i ∧ i < len then ((ArrayOp.set k i v).perform b).1 = .done
        else (ArrayOp.set k i v).perform b = (.refused (.indexOutOfRange i len), b)) ∧
      (∀ later, let b' := (run heap (later ++ past)).2
        b'.handles[k]? = some h ∧ (b'.heap.store h).ty = .array len elem) ∧
      ∀ (k' : Nat) (h' : Handle), b.handles[k']? = some h' →
        ((Value.array h).same (.array h') ↔ (origins log)[k']? = some n) := by
  intro log b
  have agrees : b.Agrees heap log := agrees_run heap past
  obtain ⟨n, birth, origin, born, index, named⟩ := agrees.origin has
  refine ⟨n, birth.1, birth.2, origin, born, perform_get has named, perform_set has named, ?_, ?_⟩
  · intro later
    obtain ⟨ext, more⟩ := extends_run heap past later
    have known : h.index < b.heap.stores.size := by
      have lt := lt_births (List.mem_of_getElem? origin)
      rw [index, agrees.size]
      exact Nat.add_lt_add_left lt _
    refine ⟨?_, by rw [ext.ty h known, named, ty_told]⟩
    obtain ⟨lt, _⟩ := List.getElem?_eq_some_iff.mp has
    obtain ⟨rest, longer⟩ := more
    rw [← longer, List.getElem?_append_left lt, has]
  · intro k' h' has'
    obtain ⟨n', _, origin', _, index', _⟩ := agrees.origin has'
    have same : (Value.array h).same (.array h') ↔ h = h' := beq_iff_eq
    rw [same, index, index', origin', Handle.mk.injEq, Nat.add_left_cancel_iff, Option.some.injEq]
    exact eq_comm

/-- Two arrays of two cells, and a copy of the first handle that is written
    through. The last write is refused. -/
def shared : List ArrayOp :=
  [.set 0 2 (.int 9), .set 1 1 .unit, .set 2 1 (.int 5), .clone 0, .new 2 .float32, .new 2 .int]

theorem handles_name_arrays_shared :
    let b := (run .empty shared).2
    b.handles = [⟨0⟩, ⟨1⟩, ⟨0⟩] ∧
      (ArrayOp.get 0 1).perform b = (.value (.int 5), b) ∧
      (ArrayOp.get 0 0).perform b = (.value (.int 0), b) ∧
      (ArrayOp.get 1 0).perform b = (.value (.float 0), b) ∧
      (ArrayOp.get 0 (-1)).perform b = (.refused (.indexOutOfRange (-1) 2), b) ∧
      (ArrayOp.set 0 2 .unit).perform b = (.refused (.indexOutOfRange 2 2), b) ∧
      (Value.array ⟨0⟩).same (.array ⟨0⟩) ∧ ¬ (Value.array ⟨0⟩).same (.array ⟨1⟩) := by
  intro b
  have has : b.handles[0]? = some ⟨0⟩ := rfl
  obtain ⟨n, len, elem, origin, born, get, set, later, same⟩ :=
    handles_name_arrays .empty shared has
  obtain rfl : 0 = n := Option.some.inj origin
  obtain ⟨rfl, rfl⟩ : 2 = len ∧ Ty.int = elem := Prod.mk.inj (Option.some.inj born)
  obtain ⟨n, len, elem, origin, born, floats, -⟩ :=
    handles_name_arrays .empty shared (show b.handles[1]? = some ⟨1⟩ from rfl)
  obtain rfl : 1 = n := Option.some.inj origin
  obtain ⟨rfl, rfl⟩ : 2 = len ∧ Ty.float32 = elem := Prod.mk.inj (Option.some.inj born)
  refine ⟨rfl, get 1, get 0, floats 0, get (-1), set 2 .unit, (same 2 ⟨0⟩ rfl).mpr rfl, ?_⟩
  rw [same 1 ⟨1⟩ rfl]
  decide

end ArrayOp

end Treewalk
