import Treewalk.Tree.Program

/-! # The places of a program

Every expression, statement and function of a program has a place in its text.
-/

namespace Treewalk

mutual
/-- The places of an expression and of its parts. -/
def Expr.places : Expr → List Pos
  | .int pos _ | .float pos _ | .bool pos _ | .str pos _ | .name pos _ => [pos]
  | .unary pos _ e | .convert pos _ e => pos :: e.places
  | .binary pos _ l r => pos :: (l.places ++ r.places)
  | .index pos a i => pos :: (a.places ++ i.places)
  | .call pos _ args | .print pos _ _ args => pos :: Expr.placesOfAll args

def Expr.placesOfAll : List Expr → List Pos
  | [] => []
  | e :: es => e.places ++ Expr.placesOfAll es
end

mutual
/-- The places of a statement and of its parts. -/
def Stmt.places : Stmt → List Pos
  | .var pos _ _ init => pos :: Expr.placesOfAll init.toList
  | .const pos _ _ e | .expr pos e => pos :: e.places
  | .assign pos target _ e => pos :: (target.places ++ e.places)
  | .bump pos target _ => pos :: target.places
  | .if_ pos init cond body orelse =>
      pos :: (Stmt.placesOfOption init ++ cond.places ++ Stmt.placesOfAll body ++
        Stmt.placesOfOption orelse)
  | .return_ pos e => pos :: Expr.placesOfAll e.toList
  | .block pos body => pos :: Stmt.placesOfAll body

def Stmt.placesOfOption : Option Stmt → List Pos
  | none => []
  | some st => st.places

def Stmt.placesOfAll : List Stmt → List Pos
  | [] => []
  | st :: ss => st.places ++ Stmt.placesOfAll ss
end

/-- The places of a function, of its statements and of their parts. -/
def Func.places (f : Func) : List Pos := f.pos :: Stmt.placesOfAll f.body

/-- The places of a function or a declaration. -/
def Item.places : Item → List Pos
  | .func f => f.places
  | .stmt st => st.places

/-- The places of all functions, statements and expressions of a program. -/
def Program.places (p : Program) : List Pos :=
  p.functions.flatMap Func.places ++ Stmt.placesOfAll p.globals

theorem Expr.pos_mem_places (e : Expr) : e.pos ∈ e.places := by
  cases e <;> simp [Expr.pos, Expr.places]

theorem Stmt.pos_mem_places (st : Stmt) : st.pos ∈ st.places := by
  cases st <;> simp [Stmt.pos, Stmt.places]

theorem Expr.placesOfAll_append (es es' : List Expr) :
    Expr.placesOfAll (es ++ es') = Expr.placesOfAll es ++ Expr.placesOfAll es' := by
  induction es with
  | nil => rfl
  | cons e es ih => simp [Expr.placesOfAll, ih]

theorem Stmt.placesOfAll_append (ss ss' : List Stmt) :
    Stmt.placesOfAll (ss ++ ss') = Stmt.placesOfAll ss ++ Stmt.placesOfAll ss' := by
  induction ss with
  | nil => rfl
  | cons st ss ih => simp [Stmt.placesOfAll, ih]

theorem Expr.places_subset {es : List Expr} {e : Expr} {places : List Pos}
    (inside : Expr.placesOfAll es ⊆ places) (member : e ∈ es) : e.places ⊆ places := by
  induction es with
  | nil => cases member
  | cons first rest ih =>
      rw [Expr.placesOfAll, List.append_subset] at inside
      rcases List.mem_cons.mp member with rfl | member
      · exact inside.1
      · exact ih inside.2 member

theorem Stmt.places_subset {ss : List Stmt} {st : Stmt} {places : List Pos}
    (inside : Stmt.placesOfAll ss ⊆ places) (member : st ∈ ss) : st.places ⊆ places := by
  induction ss with
  | nil => cases member
  | cons first rest ih =>
      rw [Stmt.placesOfAll, List.append_subset] at inside
      rcases List.mem_cons.mp member with rfl | member
      · exact inside.1
      · exact ih inside.2 member

theorem Program.func_places_subset {p : Program} {f : Func} (member : f ∈ p.functions) :
    f.places ⊆ p.places :=
  List.subset_append_of_subset_left _ fun _ place => List.mem_flatMap.mpr ⟨f, member, place⟩

theorem Program.global_places_subset {p : Program} {st : Stmt} (member : st ∈ p.globals) :
    st.places ⊆ p.places :=
  Stmt.places_subset (List.subset_append_right _ _) member

/-- The places of a program are those of its items. -/
theorem Program.mem_places {p : Program} {pos : Pos} :
    pos ∈ p.places ↔ pos ∈ p.items.flatMap Item.places := by
  rcases p with ⟨package, imports, items⟩
  simp only [Program.places, Program.functions, Program.globals]
  induction items with
  | nil => simp [Stmt.placesOfAll]
  | cons i items ih =>
      cases i with
      | func f => simpa [Item.places, or_assoc] using or_congr_right ih
      | stmt st => simpa [Item.places, Stmt.placesOfAll, or_left_comm] using or_congr_right ih

end Treewalk
