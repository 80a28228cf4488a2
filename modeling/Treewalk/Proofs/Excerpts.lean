import Treewalk.Proofs.Lexing.Lines
import Treewalk.Report.Excerpt

/-! # The mark under a source line

A report shows the line of a place and a mark under a column. For the place of a
token the line is there, and the mark stands under the first character of the
token, whatever the line holds and however its end is written.
-/

namespace Treewalk

/-! ## Lines by number -/

theorem bne_newline {row : List Char} (oneLine : '\n' ∉ row) : ∀ c ∈ row, (c != '\n') = true := by
  intro c mem
  simpa using ne_of_mem_of_not_mem mem oneLine

namespace Pos

theorem endOf_oneLine {row : List Char} (oneLine : '\n' ∉ row) :
    endOf row = ⟨1, row.length + 1⟩ := by
  have inside : ∀ c ∈ row.reverse, (c != '\n') = true := bne_newline (by simpa using oneLine)
  rw [endOf, List.count_eq_zero_of_not_mem oneLine, List.takeWhile_eq_self_iff.mpr inside,
    List.length_reverse]

theorem endOf_below {row : List Char} (oneLine : '\n' ∉ row) (below : List Char) :
    endOf (row ++ '\n' :: below) = (endOf below).down 1 := by
  have start := endOf_newline row
  rw [List.count_eq_zero_of_not_mem oneLine] at start
  have place := after_endOf (row ++ ['\n']) below
  rw [start, after_down, first_eq_endOf, after_endOf] at place
  simpa using place.symm

theorem eq_nil_of_endOf {before more : List Char} (same : endOf (before ++ more) = endOf before) :
    more = [] := by
  simp only [endOf, List.count_append, List.reverse_append, Pos.mk.injEq] at same
  have oneLine : '\n' ∉ more := List.count_eq_zero.mp (by omega)
  have inside : ∀ c ∈ more.reverse, (c != '\n') = true := bne_newline (by simpa using oneLine)
  rw [List.takeWhile_append_of_pos inside, List.length_append, List.length_reverse] at same
  exact List.eq_nil_of_length_eq_zero (by omega)

/-- No two characters of a text have the same place. -/
theorem endOf_inj {before before' after after' : List Char}
    (text : before ++ after = before' ++ after') (same : endOf before = endOf before') :
    before = before' := by
  rcases List.append_eq_append_iff.mp text with ⟨more, rfl, _⟩ | ⟨more, rfl, _⟩
  · rw [eq_nil_of_endOf same.symm, List.append_nil]
  · rw [eq_nil_of_endOf same, List.append_nil]

end Pos

namespace Excerpt

theorem lineAt_below {row : List Char} (oneLine : '\n' ∉ row) (n : Nat) (below : List Char) :
    lineAt (n + 1) (row ++ '\n' :: below) = lineAt n below := by
  have rest : (row ++ '\n' :: below).dropWhile (· != '\n') = '\n' :: below := by
    rw [List.dropWhile_append_of_pos (bne_newline oneLine)]
    simp
  rw [lineAt, rest, List.tail_cons]
  simp

theorem lineAt_zero {cs : List Char} (more : cs ≠ []) : lineAt 0 cs = some (firstLine cs) := by
  cases cs with
  | nil => exact absurd rfl more
  | cons c cs => rfl

/-- What is dropped at the end of a line is a blank. -/
theorem getElem?_firstLine {row : List Char} {c : Char} (oneLine : '\n' ∉ row)
    (visible : Text.isBlank c = false) (after : List Char) :
    (firstLine (row ++ c :: after))[row.length]? = some c := by
  have newline : c ≠ '\n' := by
    rintro rfl
    exact absurd visible (by decide)
  have whole : (row ++ c :: after).takeWhile (· != '\n') =
      row ++ c :: after.takeWhile (· != '\n') := by
    rw [List.takeWhile_append_of_pos (bne_newline oneLine)]
    simp [newline]
  unfold firstLine
  dsimp only
  rw [whole]
  generalize after.takeWhile (· != '\n') = tail
  split
  · rename_i dropped
    cases tail with
    | nil =>
        -- The line would end in a carriage return, which is blank.
        simp only [Bool.and_eq_true, List.getLast?_concat, beq_iff_eq, Option.some.injEq] at dropped
        rw [dropped.2] at visible
        exact absurd visible (by decide)
    | cons d ds => simp [List.dropLast_append_of_ne_nil]
  · simp

/-- A character that is no blank is found in the line of its place, at the column
    of its place. -/
theorem lineAt_endOf (before : List Char) {c : Char} (visible : Text.isBlank c = false)
    (after : List Char) :
    ∃ row, lineAt ((Pos.endOf before).line - 1) (before ++ c :: after) = some row ∧
      row[(Pos.endOf before).col - 1]? = some c := by
  -- Lines are taken off the top until the character is in the first one.
  by_cases more : '\n' ∈ before
  · obtain ⟨above, below, split, oneLine⟩ := List.eq_append_cons_of_mem more
    have shorter : below.length < before.length := by simp [split]; omega
    obtain ⟨row, read, column⟩ := lineAt_endOf below visible after
    have number : ((Pos.endOf below).down 1).line - 1 = (Pos.endOf below).line - 1 + 1 := by
      simp [Pos.down, Pos.endOf]
    rw [split, Pos.endOf_below oneLine, number, List.append_assoc, List.cons_append,
      lineAt_below oneLine]
    exact ⟨row, read, column⟩
  · rw [Pos.endOf_oneLine more]
    exact ⟨_, lineAt_zero (by simp), getElem?_firstLine more visible after⟩
termination_by before.length

end Excerpt

/-! ## Tokens that are written -/

namespace Piece

theorem Cut.suffix {ps qs : List Piece} (cut : Cut (ps ++ qs)) : Cut qs := by
  induction ps with
  | nil => exact cut
  | cons p ps ih => exact ih cut.2

/-- How a token comes about in pieces from a place on: it is spelled by a piece, or
    it is a semicolon at the end or before a piece that spells none. -/
def Yields (pos : Pos) (ps : List Piece) (t : Token) : Prop :=
  ∃ before after, ps = before ++ after ∧ t.pos = stop pos before ∧
    ((∃ p ∈ after.head?, p.token = some t.kind) ∨
      t.kind = .symbol .semicolon ∧ ∀ p ∈ after.head?, p.token = none)

theorem Yields.behind {t : Token} {pos : Pos} {p : Piece} {ps : List Piece}
    (yields : Yields (pos.after p.text) ps t) : Yields pos (p :: ps) t := by
  obtain ⟨before, after, rfl, place, told⟩ := yields
  exact ⟨p :: before, after, rfl, place, told⟩

theorem yields_of_mem {t : Token} {pos : Pos} {ends : Bool} {ps : List Piece}
    (mem : t ∈ tokens pos ends ps) : Yields pos ps t := by
  induction ps generalizing pos ends with
  | nil =>
      cases ends with
      | false => simp [tokens] at mem
      | true =>
          cases List.mem_singleton.mp mem
          exact ⟨[], [], rfl, rfl, .inr ⟨rfl, by simp⟩⟩
  | cons p ps ih =>
      unfold tokens at mem
      dsimp only at mem
      split at mem
      · rename_i kind spelled
        rcases List.mem_cons.mp mem with rfl | mem
        · exact ⟨[], p :: ps, rfl, rfl, .inl ⟨p, rfl, spelled⟩⟩
        · exact (ih mem).behind
      · rename_i silent
        split at mem
        · rcases List.mem_cons.mp mem with rfl | mem
          · exact ⟨[], p :: ps, rfl, rfl, .inr ⟨rfl, by simpa using silent⟩⟩
          · exact (ih mem).behind
        · exact (ih mem).behind

end Piece

/-- A token that is not put in: if it is a semicolon, the text has one at its place. -/
def Token.Written (source : List Char) (t : Token) : Prop :=
  t.kind = .symbol .semicolon → ∃ before after, source = before ++ ';' :: after ∧
    t.pos = Pos.endOf before

theorem Filler.ne_semicolon {after text : List Char} (filler : Filler after text)
    (rest : List Char) : (text ++ rest).head? ≠ some ';' := by
  cases filler with
  | blank blank =>
      intro same
      cases same
      exact absurd blank (by decide)
  | line | block => simp

theorem Token.Written.head? {source before after : List Char} {t : Token}
    (written : t.Written source) (semicolon : t.kind = .symbol .semicolon)
    (same : source = before ++ after) (place : t.pos = Pos.endOf before) :
    after.head? = some ';' := by
  obtain ⟨before', after', rfl, place'⟩ := written semicolon
  obtain rfl := Pos.endOf_inj same (place'.symm.trans place)
  rw [← List.append_cancel_left same]
  rfl

/-- A token that is not put in is a lexeme, at the place where it stands. -/
theorem TokenStream.lexeme_of_mem {source : String} {stream : TokenStream} {t : Token}
    (lexes : ofSource source = .ok stream) (mem : t ∈ stream.tokens)
    (written : t.Written source.toList) :
    ∃ before text after, source.toList = before ++ (text ++ after) ∧ t.pos = Pos.endOf before ∧
      Lexeme.Stands after text t.kind := by
  obtain ⟨ps, read, rfl⟩ := (ofChars_eq_ok_iff _ _).mp lexes
  obtain ⟨text, cut⟩ := Piece.split_eq_iff.mp read
  obtain ⟨before, after, rfl, place, told⟩ := Piece.yields_of_mem mem
  rw [Pos.first_eq_endOf, Piece.stop_eq, List.nil_append] at place
  have same : source.toList = Piece.textOf before ++ Piece.textOf after := by
    rw [← text, Piece.textOf, List.flatMap_append]
    rfl
  have cut := cut.suffix
  cases after with
  | nil =>
      obtain ⟨_, first, _⟩ | ⟨semicolon, _⟩ := told
      · cases first
      · cases written.head? semicolon same place
  | cons p after =>
      obtain ⟨reads, _⟩ := cut
      obtain ⟨_, first, spelled⟩ | ⟨semicolon, silent⟩ := told
      · cases first
        refine ⟨_, p.text, Piece.textOf after, same, place, ?_⟩
        simpa only [Piece.Reads, spelled] using reads
      · have silent := silent p rfl
        simp only [Piece.Reads, silent] at reads
        exact absurd (written.head? semicolon same place) (reads.ne_semicolon _)

/-! ## Printed rows -/

/-- A stretch of a printed row, in a colour or in none. -/
structure Stretch where
  color : Option Nat
  text : String

namespace Stretch

/-- A row as it is printed. -/
def painted (row : List Stretch) : String :=
  String.join (row.map fun s => (s.color.map fun n => Paint.colored n s.text).getD s.text)

/-- The characters of a row without what switches colours. -/
def bare (row : List Stretch) : List Char := row.flatMap fun s => s.text.toList

end Stretch

open Stretch

namespace Excerpt

/-- The row that shows a source line. -/
def excerptRow (pos : Pos) (row : List Char) : List Stretch :=
  [⟨some 90, margin pos.line⟩, ⟨none, String.ofList row⟩]

/-- The row with the mark. -/
def markRow (pos : Pos) : List Stretch :=
  [⟨some 31, spaces (margin pos.line).length ++ spaces (pos.col - 1) ++ "^"⟩,
    ⟨some 31, " error here"⟩]

theorem lines_eq {source : String} {pos : Pos} {row : List Char}
    (read : lineAt (pos.line - 1) source.toList = some row) (kind message : String) :
    lines kind source ⟨message, some pos⟩ =
      [heading kind message, s!"  --> line {pos.line}, column {pos.col}", "     |"] ++
        painted (excerptRow pos row) :: painted (markRow pos) :: ["     |"] := by
  simp [lines, read, shown, painted, excerptRow, markRow, Paint.gray, Paint.red]

theorem bare_markRow (pos : Pos) :
    bare (markRow pos) =
      List.replicate ((margin pos.line).length + (pos.col - 1)) ' ' ++
        '^' :: " error here".toList := by
  simp [bare, markRow, spaces]

theorem bare_excerptRow (pos : Pos) (row : List Char) :
    bare (excerptRow pos row) = (margin pos.line).toList ++ row := by
  simp [bare, excerptRow]

end Excerpt

/-- The report on the place of a token that is written in the source shows the line
    of the token. The column finds the token's first character there, and the mark
    has as many characters before it as that character has in the row above. -/
theorem caret_marks_token {source : String} {stream : TokenStream} {t : Token}
    (lexes : TokenStream.ofSource source = .ok stream) (mem : t ∈ stream.tokens)
    (written : t.Written source.toList) (kind message : String) :
    ∃ before c cs after row, source.toList = before ++ (c :: cs ++ after) ∧
      t.pos = Pos.endOf before ∧ Lexeme.Stands after (c :: cs) t.kind ∧
      Excerpt.lineAt (t.pos.line - 1) source.toList = some row ∧ row[t.pos.col - 1]? = some c ∧
      ∃ above excerpt mark below n,
        Excerpt.lines kind source ⟨message, some t.pos⟩ =
          above ++ painted excerpt :: painted mark :: below ∧
        bare excerpt = (Excerpt.margin t.pos.line).toList ++ row ∧
        n = (Excerpt.margin t.pos.line).length + (t.pos.col - 1) ∧
        (bare excerpt)[n]? = some c ∧
        bare mark = List.replicate n ' ' ++ '^' :: " error here".toList := by
  obtain ⟨before, text, after, same, place, stands⟩ := TokenStream.lexeme_of_mem lexes mem written
  obtain ⟨c, cs, rfl, visible, _⟩ := stands.denotes.shape.first
  obtain ⟨row, read, column⟩ := Excerpt.lineAt_endOf before visible (cs ++ after)
  rw [← place] at read column
  rw [← List.cons_append, ← same] at read
  refine ⟨before, c, cs, after, row, same, place, stands, read, column, ?_⟩
  refine ⟨_, _, _, _, _, Excerpt.lines_eq read kind message, Excerpt.bare_excerptRow _ _, rfl, ?_,
    Excerpt.bare_markRow _⟩
  rw [Excerpt.bare_excerptRow, ← String.length_toList,
    List.getElem?_append_right (Nat.le_add_right ..), Nat.add_sub_cancel_left, column]

/-- A sum behind a comment over two lines. The line ends with a carriage return. -/
def sumBelow : String := "/*\n*/ s = \"é\" + x\r\n"

def sumBelowTokens : TokenStream where
  tokens := [⟨.name "s", ⟨2, 4⟩⟩, ⟨.symbol .assign, ⟨2, 6⟩⟩, ⟨.str "é", ⟨2, 8⟩⟩,
    ⟨.symbol .plus, ⟨2, 12⟩⟩, ⟨.name "x", ⟨2, 14⟩⟩, ⟨.symbol .semicolon, ⟨2, 16⟩⟩]
  stop := ⟨3, 1⟩

theorem caret_marks_token_sumBelow :
    TokenStream.ofSource sumBelow = .ok sumBelowTokens ∧
      ⟨.name "x", ⟨2, 14⟩⟩ ∈ sumBelowTokens.tokens ∧
      ∃ above excerpt mark below,
        Excerpt.lines "Parse error" sumBelow ⟨"Expected an operand", some ⟨2, 14⟩⟩ =
          above ++ painted excerpt :: painted mark :: below ∧
        (bare excerpt)[19]? = some 'x' ∧
        bare mark = List.replicate 19 ' ' ++ '^' :: " error here".toList := by
  have lexes : TokenStream.ofSource sumBelow = .ok sumBelowTokens := by with_unfolding_all rfl
  have mem : ⟨.name "x", ⟨2, 14⟩⟩ ∈ sumBelowTokens.tokens := List.mem_of_getElem? (i := 4) rfl
  obtain ⟨_, c, _, _, row, _, _, _, read, column, above, excerpt, mark, below, n, rows, _, rfl,
    first, bare⟩ :=
    caret_marks_token lexes mem (by simp [Token.Written]) "Parse error" "Expected an operand"
  have found : Excerpt.lineAt 1 sumBelow.toList = some "*/ s = \"é\" + x".toList := by
    decide +kernel
  obtain rfl : row = _ := Option.some.inj (read.symm.trans found)
  obtain rfl : c = 'x' := Option.some.inj (column.symm.trans (by decide))
  have width : (Excerpt.margin 2).length = 6 := by decide +kernel
  rw [width] at first bare
  exact ⟨lexes, mem, above, excerpt, mark, below, rows, first, bare⟩

end Treewalk
