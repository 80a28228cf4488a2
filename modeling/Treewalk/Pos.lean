/-! # Positions in source text

Lines and columns count characters from one, and only a line feed starts a line.
-/

namespace Treewalk

/-- A place in source text. -/
structure Pos where
  line : Nat
  col : Nat
  deriving DecidableEq, Inhabited

namespace Pos

/-- The place of the first character. -/
def first : Pos := ⟨1, 1⟩

/-- The place after a character. -/
def step (p : Pos) (c : Char) : Pos :=
  if c = '\n' then ⟨p.line + 1, 1⟩ else ⟨p.line, p.col + 1⟩

/-- The place after a stretch of text. -/
def after (p : Pos) (cs : List Char) : Pos := cs.foldl step p

/-- A place as messages write it. -/
def text (p : Pos) : String := s!"{p.line}:{p.col}"

@[simp] theorem after_nil (p : Pos) : p.after [] = p := rfl

@[simp] theorem after_cons (p : Pos) (c : Char) (cs : List Char) :
    p.after (c :: cs) = (p.step c).after cs := rfl

@[simp] theorem after_append (p : Pos) (cs ds : List Char) :
    p.after (cs ++ ds) = (p.after cs).after ds := by
  simp [after]

end Pos

end Treewalk
