import Treewalk.Token.Piece

/-! # From source text to tokens

Tokens are the pieces that spell one, at the places where they begin. Where a
statement may end and the text goes on to another line, or stops, a semicolon is
put in.
-/

namespace Treewalk

namespace Piece

/-- The place after a list of pieces. -/
def stop (start : Pos) (ps : List Piece) : Pos :=
  ps.foldl (fun pos p => pos.after p.text) start

/-- The tokens of the pieces from a place on. `ends` tells whether a statement
    may end at that place. -/
def tokens (pos : Pos) (ends : Bool) : List Piece → List Token
  | [] => if ends then [⟨.symbol .semicolon, pos⟩] else []
  | p :: ps =>
      let next := pos.after p.text
      match p.token with
      | some kind => ⟨kind, pos⟩ :: tokens next kind.mayEnd ps
      | none =>
          if ends && p.breaksLine then ⟨.symbol .semicolon, pos⟩ :: tokens next false ps
          else tokens next ends ps

end Piece

namespace TokenStream

/-- The tokens of a text, or the first fault in it. -/
def ofChars (cs : List Char) : Except LexError TokenStream :=
  let (ps, fault) := Piece.split cs
  let stop := Piece.stop .first ps
  match fault with
  | some fault => .error ⟨fault, fault.pos stop⟩
  | none => .ok ⟨Piece.tokens .first false ps, stop⟩

/-- The tokens of source text. -/
def ofSource (source : String) : Except LexError TokenStream := ofChars source.toList

end TokenStream

end Treewalk
