import Treewalk.Fault
import Treewalk.Value.Datum

/-! # Arrays in memory

Arrays have a fixed length. All arrays of a run are kept in one heap, and
handles are numbers of entries in it.
-/

namespace Treewalk

/-- The cells of an array and the type it was made for. -/
structure Store where
  elem : Ty
  cells : Array Value
  deriving DecidableEq, Inhabited

namespace Store

/-- A cell before anything is stored in it. -/
def zeroCell (elem : Ty) : Value := if elem = .float32 then .float 0 else .int 0

/-- Cells that all hold zero. There is a store of every length here, while a machine
    has no memory for one of more than `2 ^ 59 - 1` cells. -/
def zero (len : Nat) (elem : Ty) : Store := ⟨elem, Array.replicate len (zeroCell elem)⟩

/-- The type of an array with these cells. -/
def ty (s : Store) : Ty := .array s.cells.size s.elem

/-- The number of the cell at an index. -/
def slot (s : Store) (index : Int) : Except Fault Nat :=
  if 0 ≤ index && index < s.cells.size then .ok index.toNat
  else .error (.indexOutOfRange index s.cells.size)

/-- The value at an index. -/
def get (s : Store) (index : Int) : Except Fault Value := do
  let i ← s.slot index
  return s.cells.getD i .unit

/-- Put a value at an index. Its kind is up to the caller. -/
def set (s : Store) (index : Int) (v : Value) : Except Fault Store := do
  let i ← s.slot index
  return { s with cells := s.cells.setIfInBounds i v }

end Store

/-- All arrays of a run. -/
structure Heap where
  stores : Array Store
  deriving DecidableEq

namespace Heap

/-- No arrays. -/
def empty : Heap := ⟨#[]⟩

/-- What a handle names. A handle that the heap did not give out names an array
    without cells. -/
def store (heap : Heap) (h : Handle) : Store := heap.stores.getD h.index default

/-- Add an array. -/
def alloc (heap : Heap) (s : Store) : Handle × Heap :=
  (⟨heap.stores.size⟩, ⟨heap.stores.push s⟩)

/-- The value at an index of an array. -/
def get (heap : Heap) (h : Handle) (index : Int) : Except Fault Value :=
  (heap.store h).get index

/-- Put a value at an index of an array. -/
def set (heap : Heap) (h : Handle) (index : Int) (v : Value) : Except Fault Heap := do
  let i ← (heap.store h).slot index
  return ⟨heap.stores.modify h.index fun s => { s with cells := s.cells.setIfInBounds i v }⟩

/-- The kind of a value. -/
def kind (heap : Heap) : Value → Kind
  | .int _ => .data .int
  | .float _ => .data .float32
  | .bool _ => .data .bool
  | .array h => .data (heap.store h).ty
  | .unit => .void

/-- Read out a value through at most `depth` arrays inside one another. -/
def readTo (heap : Heap) : Nat → Value → Datum
  | _, .int n => .int n
  | _, .float x => .float x
  | _, .bool b => .bool b
  | _, .unit => .unit
  | 0, .array h => .array (heap.store h).elem []
  | depth + 1, .array h =>
      .array (heap.store h).elem ((heap.store h).cells.toList.map (heap.readTo depth))

/-- Read out a value. Arrays that lie inside one another are all different, so
    there are no more of them than the heap has. -/
def read (heap : Heap) (v : Value) : Datum := heap.readTo heap.stores.size v

mutual
/-- Put a datum into the heap, its arrays as new ones. -/
def load (heap : Heap) : Datum → Value × Heap
  | .int n => (.int n, heap)
  | .float x => (.float x, heap)
  | .bool b => (.bool b, heap)
  | .unit => (.unit, heap)
  | .array elem ds =>
      let (cells, heap) := heap.loadAll ds
      let (h, heap) := heap.alloc ⟨elem, cells.toArray⟩
      (.array h, heap)

/-- Put several data into the heap. -/
def loadAll (heap : Heap) : List Datum → List Value × Heap
  | [] => ([], heap)
  | d :: ds =>
      let (v, heap) := heap.load d
      let (vs, heap) := heap.loadAll ds
      (v :: vs, heap)
end

end Heap

end Treewalk
