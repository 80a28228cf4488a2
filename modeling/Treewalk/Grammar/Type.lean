import Treewalk.Grammar.Basic

/-! # Parsing types -/

namespace Treewalk.Parser

/-- A type whose element type, if it is an array, is parsed by `ty`. -/
def typeBody (ty : Parser Ty) : Parser Ty := do
  let pos ← place
  match ← peek with
  | some (.symbol .lbracket) =>
      advance
      match ← peek with
      | some (.int len) =>
          if 0 ≤ len then
            advance
            expect .rbracket
            return .array len.toNatClampNeg (← ty)
          else unexpected .arrayLength
      | _ => unexpected .arrayLength
  | some (.name x) =>
      advance
      match Ty.ofName? x with
      | some t => return t
      | none => failAt pos (.unknownType x)
  | _ => unexpected .type

/-- A type. -/
def type : Parser Ty := fix typeBody

end Treewalk.Parser
