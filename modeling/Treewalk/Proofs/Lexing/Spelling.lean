import Treewalk.Proofs.Lexing.Borders

/-! # Tokens that are written down

A row of tokens is written with separators between them, which start with a blank and
stay on the line. Reading that line gives the tokens back.
-/

namespace Treewalk

open Lexeme

/-- A token as it is written. -/
inductive Spelling where
  /-- A name that is not a reserved word. -/
  | name (x : String) (word : Word x.toList) (free : ∀ k : Keyword, x ≠ k.text)
  | int (n : Nat) (small : n < 2 ^ 63)
  /-- A number with digits on both sides of its point. -/
  | float (whole places : List Char) (left : Digits whole) (right : Digits places)
  | str (s : String)
  | keyword (k : Keyword)
  | symbol (s : Symbol)

namespace Spelling

/-- The text of a character in a string literal. -/
def escaped (c : Char) : List Char :=
  match c with
  | '\n' => ['\\', 'n']
  | '\t' => ['\\', 't']
  | '\r' => ['\\', 'r']
  | '\\' => ['\\', '\\']
  | '"' => ['\\', '"']
  | c => [c]

def text : Spelling → List Char
  | .name x _ _ => x.toList
  | .int n _ => Nat.toDigits 10 n
  | .float whole places _ _ => whole ++ '.' :: places
  | .str s => '"' :: (s.toList.flatMap escaped ++ ['"'])
  | .keyword k => k.text.toList
  | .symbol s => s.text.toList

def kind : Spelling → Token.Kind
  | .name x _ _ => .name x
  | .int n _ => .int (.ofNat n)
  | .float whole places _ _ =>
      .float (Decimal.nearest (Decimal.digitsValue (whole ++ places)) (-places.length))
  | .str s => .str s
  | .keyword k => .keyword k
  | .symbol s => .symbol s

theorem quoted_escaped (cs : List Char) : Quoted (cs.flatMap escaped) cs := by
  induction cs with
  | nil => exact .nil
  | cons c cs ih =>
      rw [List.flatMap_cons]
      fun_cases escaped c with
      | case1 | case2 | case3 | case4 | case5 => exact .escape (by simp) ih
      | case6 c newline tab return_ backslash quote => exact .plain quote backslash newline ih

theorem digitsValue_toDigits (n : Nat) : Decimal.digitsValue (Nat.toDigits 10 n) = n := by
  have value := Nat.ofDigitChars_ten_toDigits (n := n)
  rwa [Nat.ofDigitChars_eq_foldl] at value

theorem digits_toDigits (n : Nat) : Digits (Nat.toDigits 10 n) :=
  ⟨Nat.toDigits_ne_nil, fun _ => Nat.isDigit_of_mem_toDigits (by omega) (by omega)⟩

theorem denotes (token : Spelling) : Denotes token.text token.kind := by
  cases token with
  | name x word free =>
      have other : ∀ k : Keyword, x.toList ≠ k.text.toList :=
        fun k same => free k (String.toList_inj.mp same)
      simpa [text, kind] using Denotes.name word other
  | int n small =>
      have value := digitsValue_toDigits n
      simpa [text, kind, value] using Denotes.int (digits_toDigits n) (value.symm ▸ small)
  | float whole places left right =>
      simpa [text, kind] using Denotes.float left (.point right) .none (.inl (by simp))
  | str s => simpa [kind, text] using Denotes.quoted (quoted_escaped s.toList)
  | keyword k => exact .keyword k
  | symbol s => exact .symbol s

end Spelling

/-! ## Separators -/

/-- A blank or a block comment within a line. -/
inductive Spacing where
  | blank (c : Char) (isBlank : Text.isBlank c) (inline : c ≠ '\n')
  | comment (body : List Char) (unended : ¬ ['*', '/'] <:+: body) (inline : '\n' ∉ body)

namespace Spacing

def text : Spacing → List Char
  | .blank c _ _ => [c]
  | .comment body _ _ => '/' :: '*' :: (body ++ ['*', '/'])

theorem filler (spacing : Spacing) (after : List Char) : Filler after spacing.text := by
  cases spacing with
  | blank c isBlank _ => exact .blank isBlank
  | comment body unended _ => exact .block unended

theorem inline (spacing : Spacing) : breaksLine spacing.text = false := by
  cases spacing with
  | blank c _ inline => simpa [breaksLine, text] using inline.symm
  | comment body _ inline => simpa [breaksLine, text] using inline

theorem isGap (spacings : List Spacing) (after : List Char) :
    IsGap after (spacings.map text) := by
  induction spacings with
  | nil => trivial
  | cons spacing spacings ih => exact ⟨spacing.filler _, ih⟩

end Spacing

/-- What stands between two tokens: a blank, and what follows it within the line. -/
structure Separator where
  first : Char
  isBlank : Text.isBlank first
  inline : first ≠ '\n'
  more : List Spacing

namespace Separator

def spacings (sep : Separator) : List Spacing :=
  .blank sep.first sep.isBlank sep.inline :: sep.more

def gap (sep : Separator) : List (List Char) := sep.spacings.map Spacing.text

def text (sep : Separator) : List Char := sep.gap.flatten

end Separator

/-! ## Lines -/

/-- The text of tokens with the separators behind them. The last separator is not
    written. -/
def lineText : List (Spelling × Separator) → List Char
  | [] => []
  | [(token, _)] => token.text
  | (token, sep) :: row => token.text ++ sep.text ++ lineText row

example :
    let sep : Separator := ⟨'\t', by decide, by decide, [.comment ['"', '*'] (by decide) (by decide)]⟩
    lineText [(.int 1 (by decide), sep), (.symbol .minus, sep), (.str "*/\n", sep)] =
      "1\t/*\"**/-\t/*\"**/\"*/\\n\"".toList := by
  decide +kernel

/-- The lexemes of such a text. -/
def lineLexemes : List (Spelling × Separator) → List Lexeme
  | [] => []
  | [(token, _)] => [⟨token.text, token.kind, []⟩]
  | (token, sep) :: row => ⟨token.text, token.kind, sep.gap⟩ :: lineLexemes row

theorem textOf_lineLexemes (row : List (Spelling × Separator)) :
    Lexeme.textOf (lineLexemes row) = lineText row := by
  fun_induction lineLexemes row with
  | case1 => rfl
  | case2 token sep => simp [Lexeme.textOf, lineText]
  | case3 token sep row more ih =>
      rw [lineText, ← ih, Separator.text]
      · simp [Lexeme.textOf]
      · exact more

theorem laid_lineLexemes (row : List (Spelling × Separator)) : Laid (lineLexemes row) := by
  fun_induction lineLexemes row with
  | case1 => trivial
  | case2 token sep => exact ⟨token.denotes.stands (by simp [Lexeme.textOf]), trivial, trivial⟩
  | case3 token sep row more ih =>
      refine ⟨token.denotes.stands ?_, Spacing.isGap .., ih⟩
      simpa [Separator.gap, Separator.spacings, Spacing.text] using sep.isBlank

theorem inline_lineLexemes (row : List (Spelling × Separator)) :
    ∀ l ∈ lineLexemes row, l.gap.any breaksLine = false := by
  fun_induction lineLexemes row with
  | case1 => simp
  | case2 token sep => simp
  | case3 token sep row more ih =>
      have inline : sep.gap.any breaksLine = false := by simp [Separator.gap, Spacing.inline]
      exact List.forall_mem_cons.mpr ⟨inline, ih⟩

theorem kinds_lineLexemes (row : List (Spelling × Separator)) :
    (lineLexemes row).map Lexeme.kind = row.map (·.1.kind) := by
  fun_induction lineLexemes row <;> simp_all

/-- Lexemes on one line have one semicolon put in, behind the last of them. -/
theorem kinds_tokens {ls : List Lexeme} (inline : ∀ l ∈ ls, l.gap.any breaksLine = false)
    (before : List Char) :
    (Lexeme.tokens before ls).map Token.kind =
      ls.map Lexeme.kind ++
        if (ls.map Lexeme.kind).getLast?.any (EndsStatement ·) then [.symbol .semicolon] else [] := by
  induction ls generalizing before with
  | nil => rfl
  | cons l ls ih =>
      obtain ⟨here, later⟩ := List.forall_mem_cons.mp inline
      rw [Lexeme.tokens, List.map_cons, List.map_append, ih later, Lexeme.semicolon, here]
      cases ls with
      | nil => by_cases ends : EndsStatement l.kind <;> simp [ends]
      | cons l' ls => simp

/-- Tokens that are written on a line are read back, up to the end of the text. A
    semicolon follows the last of them if a statement may end there. -/
theorem lexes_line (row : List (Spelling × Separator)) :
    ∃ stream, TokenStream.ofSource (String.ofList (lineText row)) = .ok stream ∧
      stream.tokens.map Token.kind =
        row.map (·.1.kind) ++
          (if (row.map (·.1.kind)).getLast?.any (EndsStatement ·) then [.symbol .semicolon] else []) ∧
      stream.stop = Pos.endOf (lineText row) := by
  let layout : Layout := ⟨[], lineLexemes row⟩
  have valid : layout.Valid := ⟨trivial, laid_lineLexemes row⟩
  have text : Piece.textOf layout.pieces = lineText row := by
    rw [layout.textOf_pieces, ← textOf_lineLexemes row]
    rfl
  have split : Piece.split (lineText row) = (layout.pieces, none) :=
    Piece.split_eq_iff.mpr ⟨text, layout.cut_pieces.mpr valid⟩
  refine ⟨⟨Piece.tokens .first false layout.pieces, Piece.stop .first layout.pieces⟩, ?_, ?_, ?_⟩
  · rw [TokenStream.ofSource, String.toList_ofList, ofChars_eq_ok_iff]
    exact ⟨layout.pieces, split, rfl⟩
  · rw [layout.tokens_pieces, ← kinds_lineLexemes row]
    exact kinds_tokens (inline_lineLexemes row) _
  · rw [Pos.first_eq_endOf, Piece.stop_eq, text, List.nil_append]

/-- A name with digits in it, a number and a string are read back, with a semicolon behind
    them. -/
theorem lexes_line_call :
    ∃ stream, TokenStream.ofSource "_f2 ( 10 ,\t\"a\\n\" )" = .ok stream ∧
      stream.tokens.map Token.kind =
        [.name "_f2", .symbol .lparen, .int 10, .symbol .comma, .str "a\n", .symbol .rparen,
          .symbol .semicolon] := by
  let space : Separator := ⟨' ', by decide, by decide, []⟩
  let tab : Separator := ⟨'\t', by decide, by decide, []⟩
  have word : Word "_f2".toList := ⟨'_', ['f', '2'], rfl, by decide, by simp [IsLetter]⟩
  obtain ⟨stream, lexed, kinds, _⟩ := lexes_line
    [(.name "_f2" word (by rintro ⟨⟩ <;> decide), space), (.symbol .lparen, space),
      (.int 10 (by decide), space), (.symbol .comma, tab), (.str "a\n", space),
      (.symbol .rparen, space)]
  exact ⟨stream, lexed, kinds.trans rfl⟩

end Treewalk
