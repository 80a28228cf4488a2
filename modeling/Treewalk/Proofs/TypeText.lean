import Treewalk.Machine.Operate
import Treewalk.Proofs.Lexing.Spelling
import Treewalk.Proofs.Parsing.Statements

/-! # Types as text

The text of a type is one that source text can have in its place, and a declaration with
it reads as one of that type. No two types have the same text, so comparing texts is
comparing types.
-/

namespace Treewalk

open Lexeme

/-! ## Lexemes of a type -/

theorem stands_bracket {s : Symbol} (bracket : s = .lbracket ∨ s = .rbracket) (after : List Char) :
    Stands after s.text.toList (.symbol s) := by
  have alone : ∀ c : Char, s.text.toList = [c] → c.isDigit = false → Piece.isNameStart c = false →
      c ≠ '"' → c ≠ '/' → Piece.symbol? (c :: after) = some s →
      Stands after s.text.toList (.symbol s) := by
    intro c text digit start quote slash read
    have noComment : NoComment (c :: after) := by
      constructor <;> simp [slash.symm]
    obtain ⟨after', same, stands⟩ := stands_symbol digit start quote noComment read
    rw [text, List.singleton_append, List.cons.injEq] at same
    exact same.2 ▸ stands
  obtain rfl | rfl := bracket
  · exact alone '[' rfl (by decide) (by decide) (by decide) (by decide) rfl
  · exact alone ']' rfl (by decide) (by decide) (by decide) (by decide) rfl

/-- A length is read up to the bracket behind it. -/
theorem stands_length {n : Nat} (small : n < 2 ^ 63) (after : List Char) :
    Stands (']' :: after) (Nat.toDigits 10 n) (.int (.ofNat n)) := by
  have digits := Spelling.digits_toDigits n
  have value := Spelling.digitsValue_toDigits n
  generalize Nat.toDigits 10 n = ds at digits value ⊢
  obtain ⟨c, cs, rfl⟩ := List.exists_cons_of_ne_nil digits.1
  have digit : c.isDigit := digits.2 c (by simp)
  have stop : Piece.numberTail false false (']' :: after) = ([], false) := by cases after <;> rfl
  have read : Piece.number (c :: (cs ++ ']' :: after)) =
      .ok ⟨c :: cs, some (.int (.ofNat n))⟩ := by
    rw [← List.cons_append, Piece.number, numberTail_digits digits.2, stop]
    have small : n < 9223372036854775808 := small
    simp [Decimal.int?, value, small]
  have noComment : NoComment (c :: (cs ++ ']' :: after)) := by
    have slash : '/' ≠ c := by
      rintro rfl
      revert digit
      decide
    constructor <;> simp [slash]
  obtain ⟨after', kind, token, same, stands⟩ := stands_number digit noComment read
  obtain rfl := Option.some.inj token
  obtain rfl : ']' :: after = after' := by simpa using same
  exact stands

namespace Ty

/-- The lexemes of a type, with nothing between them. -/
def lexemes : Ty → List Lexeme
  | .int => [⟨"int".toList, .name "int", []⟩]
  | .float32 => [⟨"float32".toList, .name "float32", []⟩]
  | .bool => [⟨"bool".toList, .name "bool", []⟩]
  | .array len elem =>
      ⟨['['], .symbol .lbracket, []⟩ :: ⟨Nat.toDigits 10 len, .int (.ofNat len), []⟩ ::
        ⟨[']'], .symbol .rbracket, []⟩ :: elem.lexemes

theorem toList_text_array (len : Nat) (elem : Ty) :
    (array len elem).text.toList = '[' :: (Nat.toDigits 10 len ++ ']' :: elem.text.toList) := by
  simp [text, toString, Nat.repr]

theorem textOf_lexemes (t : Ty) : textOf t.lexemes = t.text.toList := by
  induction t with
  | int | float32 | bool => rfl
  | array len elem ih => simp [toList_text_array, ← ih, textOf, lexemes]

theorem kinds_lexemes (t : Ty) : t.lexemes.map Lexeme.kind = t.tokens := by
  induction t with
  | int | float32 | bool => rfl
  | array len elem ih => simp [lexemes, tokens, ih]

theorem inline_lexemes (t : Ty) : ∀ l ∈ t.lexemes, l.gap.any breaksLine = false := by
  induction t with
  | int | float32 | bool => simp [lexemes]
  | array len elem ih => simpa [lexemes] using ih

/-- The text of a type ends with a name, behind which a statement may end. -/
theorem endsStatement_tokens (t : Ty) (more : List Token.Kind) :
    (more ++ t.tokens).getLast?.any (EndsStatement ·) := by
  induction t generalizing more with
  | int | float32 | bool => simp [tokens, EndsStatement.name]
  | array len elem ih =>
      have := ih (more ++ [.symbol .lbracket, .int (.ofNat len), .symbol .rbracket])
      simpa [tokens] using this

theorem laid_lexemes {t : Ty} (wf : t.WellFormed) : Laid t.lexemes := by
  have name : ∀ {text : String}, Word text.toList → (∀ k : Keyword, text ≠ k.text) →
      Laid [⟨text.toList, .name text, []⟩] := fun word free =>
    ⟨(Spelling.name _ word free).denotes.stands (by simp [textOf]), trivial, trivial⟩
  induction t with
  | int | float32 | bool =>
      refine name (word_iff.mpr ⟨_, _, rfl, by decide, List.all_eq_true.mp (by decide)⟩) fun k => ?_
      cases k <;> decide
  | array len elem ih =>
      refine ⟨stands_bracket (.inl rfl) _, trivial, ?_, trivial, stands_bracket (.inr rfl) _,
        trivial, ih wf.2⟩
      simpa [textOf] using stands_length wf.1 _

end Ty

/-! ## Declarations with a type -/

/-- Lexemes that are laid out on one line are read with one semicolon behind them, if a
    statement may end there. -/
theorem lexes_laid {ls : List Lexeme} (laid : Laid ls)
    (inline : ∀ l ∈ ls, l.gap.any breaksLine = false) :
    ∃ stream, TokenStream.ofSource (String.ofList (textOf ls)) = .ok stream ∧
      stream.tokens.map Token.kind = ls.map Lexeme.kind ++
        if (ls.map Lexeme.kind).getLast?.any (EndsStatement ·) then [.symbol .semicolon]
        else [] := by
  let layout : Layout := ⟨[], ls⟩
  have split : Piece.split (textOf ls) = (layout.pieces, none) :=
    Piece.split_eq_iff.mpr ⟨layout.textOf_pieces, layout.cut_pieces.mpr ⟨trivial, laid⟩⟩
  refine ⟨⟨Piece.tokens .first false layout.pieces, Piece.stop .first layout.pieces⟩, ?_, ?_⟩
  · rw [TokenStream.ofSource, String.toList_ofList, ofChars_eq_ok_iff]
    exact ⟨layout.pieces, split, rfl⟩
  · rw [layout.tokens_pieces]
    exact kinds_tokens inline _

/-- The lexemes of a declaration without a value. -/
def declarationLexemes (t : Ty) : List Lexeme :=
  ⟨"var".toList, .keyword .var, [[' ']]⟩ :: ⟨"x".toList, .name "x", [[' ']]⟩ :: t.lexemes

theorem laid_declaration {t : Ty} (wf : t.WellFormed) : Laid (declarationLexemes t) := by
  have blank : ∀ after, IsGap after [[' ']] := fun _ => ⟨.blank (by decide), trivial⟩
  refine ⟨(Spelling.keyword .var).denotes.stands ?_, blank _, ?_, blank _, Ty.laid_lexemes wf⟩
  · simp
    decide
  · have word : Word "x".toList := ⟨'x', [], rfl, by decide, by simp⟩
    refine (Spelling.name "x" word fun k => ?_).denotes.stands ?_
    · cases k <;> decide
    · simp
      decide

theorem textOf_declaration (t : Ty) :
    String.ofList (textOf (declarationLexemes t)) = "var x " ++ t.text := by
  rw [← String.toList_inj, String.toList_ofList, String.toList_append, ← t.textOf_lexemes]
  rfl

/-- A declaration with the text of a type is read as one of that type, up to the semicolon
    behind it. -/
theorem reads_declaration {t : Ty} (wf : t.WellFormed) :
    ∃ stream pos rest, TokenStream.ofSource ("var x " ++ t.text) = .ok stream ∧
      Parser.stmt stream.stop stream.tokens = .ok (.var pos "x" (some t) none) rest ∧
      rest.map Token.kind = [.symbol .semicolon] := by
  have inline : ∀ l ∈ declarationLexemes t, l.gap.any breaksLine = false := by
    simpa [declarationLexemes, breaksLine] using t.inline_lexemes
  obtain ⟨stream, lexed, kinds⟩ := lexes_laid (laid_declaration wf) inline
  rw [textOf_declaration] at lexed
  let decl : Stmt := .var default "x" (some t) none
  have spelled : (declarationLexemes t).map Lexeme.kind = decl.tokens := by
    simp [decl, declarationLexemes, t.kinds_lexemes, Stmt.tokens, Stmt.declaredTokens]
  have ends : decl.tokens.getLast?.any (EndsStatement ·) := by
    simpa [decl, Stmt.tokens, Stmt.declaredTokens] using
      t.endsStatement_tokens [.keyword .var, .name "x"]
  rw [spelled, if_pos ends] at kinds
  obtain ⟨ts, rest, tokens, front, semicolon⟩ := List.map_eq_append_iff.mp kinds
  have declWf : decl.WellFormed := by simpa [decl, Stmt.WellFormed, Stmt.Shaped] using wf
  have follow : Parser.AtSemicolon (Parser.next rest) := by
    rw [Parser.AtSemicolon, Parser.next, ← List.head?_map, semicolon]
    rfl
  obtain ⟨s, like, read⟩ :=
    (Parser.legibleStmt decl declWf).1 _ stream.stop ts rest front follow le_rfl
  rw [← tokens] at read
  obtain ⟨pos, rfl⟩ : ∃ pos, s = .var pos "x" (some t) none := by
    cases s with
    | var pos x ty init =>
        rw [Parser.LikeStmt, Stmt.erase, Stmt.erase] at like
        simpa using like
    | _ => simp [Parser.LikeStmt, Stmt.erase, decl] at like
  exact ⟨stream, pos, rest, lexed, read, semicolon⟩

/-! ## Types with one text -/

theorem Ty.text_injective : Function.Injective Ty.text := by
  intro t
  induction t with
  | int | float32 | bool =>
      intro u same
      cases u with
      | int | float32 | bool => simp_all [text]
      | array len elem =>
          rw [← String.toList_inj, toList_text_array] at same
          cases same
  | array len elem ih =>
      intro u same
      rw [← String.toList_inj, toList_text_array] at same
      cases u with
      | int | float32 | bool => cases same
      | array len' elem' =>
          rw [toList_text_array, List.cons.injEq] at same
          -- The digits reach up to the bracket in both texts.
          have digits := congrArg (List.takeWhile Char.isDigit) same.2
          rw [takeWhile_eq (Spelling.digits_toDigits len).2 (by simp),
            takeWhile_eq (Spelling.digits_toDigits len').2 (by simp)] at digits
          obtain rfl : len = len' := by
            rw [← Spelling.digitsValue_toDigits len, digits, Spelling.digitsValue_toDigits]
          have elems : elem.text.toList = elem'.text.toList := by simpa using same.2
          rw [ih (String.toList_inj.mp elems)]

theorem Kind.text_injective : Function.Injective Kind.text := by
  have named : ∀ t : Ty, t.text ≠ "void" := by
    intro t same
    rw [← String.toList_inj] at same
    cases t with
    | int | float32 | bool => cases same
    | array len elem =>
        rw [Ty.toList_text_array] at same
        cases same
  rintro (t | _) (u | _) same
  · rw [Ty.text_injective same]
  · exact absurd same (named t)
  · exact absurd same.symm (named u)
  · rfl

/-- A declaration with the text of a type is one of exactly that type, and no two types
    have the same text. Operands of which the kinds have the same text are therefore of
    one kind. -/
theorem type_text_reads_back :
    (∀ t : Ty, t.WellFormed →
      ∃ stream pos rest, TokenStream.ofSource ("var x " ++ t.text) = .ok stream ∧
        Parser.stmt stream.stop stream.tokens = .ok (.var pos "x" (some t) none) rest ∧
        rest.map Token.kind = [.symbol .semicolon]) ∧
    Function.Injective Ty.text ∧
    ∀ (heap : Heap) (op : BinaryOp) (a b : Value),
      heap.misfits op a b =
        if (heap.kind a).text = (heap.kind b).text then .notDefined op.text (heap.kind a)
        else .mismatchedOperands (heap.kind a) (heap.kind b) op := by
  refine ⟨fun t => reads_declaration, Ty.text_injective, fun heap op a b => ?_⟩
  simp only [Heap.misfits, Kind.text_injective.eq_iff]

/-- The longest array that can be written, inside two others. -/
def deepType : Ty := .array 3 (.array 0 (.array 9223372036854775807 .float32))

theorem type_text_reads_back_deep :
    deepType.text = "[3][0][9223372036854775807]float32" ∧ deepType.WellFormed ∧
    ∃ stream pos rest,
      TokenStream.ofSource "var x [3][0][9223372036854775807]float32" = .ok stream ∧
      Parser.stmt stream.stop stream.tokens = .ok (.var pos "x" (some deepType) none) rest ∧
      rest.map Token.kind = [.symbol .semicolon] := by
  have text : deepType.text = "[3][0][9223372036854775807]float32" := by decide +kernel
  have wf : deepType.WellFormed := by simp [deepType, Ty.WellFormed]
  have read := type_text_reads_back.1 deepType wf
  rw [text] at read
  exact ⟨text, wf, read⟩

end Treewalk
