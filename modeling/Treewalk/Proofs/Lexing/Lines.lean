import Treewalk.Proofs.Lexing.Borders

/-! # One text below another

No lexeme reaches over the end of a line, and a line comment ends there. So a text
with another one below it has the tokens of the first and then those of the second,
further down by the lines of the first.
-/

namespace Treewalk

/-! ## Places further down -/

/-- The place some lines further down. -/
def Pos.down (n : Nat) (p : Pos) : Pos := ⟨p.line + n, p.col⟩

/-- The token some lines further down. -/
def Token.down (n : Nat) (t : Token) : Token := { t with pos := t.pos.down n }

/-- The error some lines further down. -/
def LexError.down (n : Nat) (e : LexError) : LexError := { e with pos := e.pos.down n }

namespace Pos

theorem step_down (n : Nat) (p : Pos) (c : Char) : (p.down n).step c = (p.step c).down n := by
  by_cases newline : c = '\n'
  · simp [step, down, newline, Nat.add_right_comm]
  · simp [step, down, newline]

theorem after_down (n : Nat) (p : Pos) (cs : List Char) :
    (p.down n).after cs = (p.after cs).down n := by
  induction cs generalizing p with
  | nil => simp
  | cons c cs ih => simp [step_down, ih]

/-- The place below a text. -/
theorem endOf_newline (cs : List Char) : endOf (cs ++ ['\n']) = first.down (cs.count '\n' + 1) := by
  simp only [endOf, down, first, List.count_append, List.reverse_append]
  simp
  omega

end Pos

theorem LexFault.pos_down (n : Nat) (fault : LexFault) (start : Pos) :
    fault.pos (start.down n) = (fault.pos start).down n := by
  cases fault with
  | unknownEscape c read =>
      simp only [LexFault.pos, Pos.after_down]
      rfl
  | invalidNumber | openComment | openString | halfOperator | unexpected => rfl

namespace Piece

theorem stop_down (n : Nat) (start : Pos) (ps : List Piece) :
    stop (start.down n) ps = (stop start ps).down n := by
  induction ps generalizing start with
  | nil => simp [stop]
  | cons p ps ih => simpa [stop, Pos.after_down] using ih (start.after p.text)

theorem tokens_down (n : Nat) (pos : Pos) (ends : Bool) (ps : List Piece) :
    tokens (pos.down n) ends ps = (tokens pos ends ps).map (Token.down n) := by
  induction ps generalizing pos ends with
  | nil => cases ends <;> simp [tokens, Token.down]
  | cons p ps ih =>
      obtain ⟨text, _ | kind⟩ := p
      · simp only [tokens, Pos.after_down, ih]
        split <;> simp [Token.down]
      · simp [tokens, Pos.after_down, ih, Token.down]

end Piece

/-! ## Pieces above another line -/

namespace Lexeme

theorem Stands.above {after text : List Char} {kind : Token.Kind} (stands : Stands after text kind)
    (below : List Char) : Stands (after ++ '\n' :: below) text kind := by
  obtain ⟨denotes, longest, noLine, noBlock⟩ := stands
  have front : ∀ {front}, '\n' ∉ front → front <+: text ++ (after ++ '\n' :: below) →
      front <+: text ++ after := by
    intro front oneLine pre
    have none : ∀ c ∈ front, ¬ c = '\n' := fun c mem same => oneLine (same ▸ mem)
    rw [← List.append_assoc] at pre
    exact prefix_of_stop none (by simp) pre
  exact ⟨denotes, fun longer pre shape => longest longer (front shape.oneLine pre) shape,
    fun pre => noLine (front (by decide) pre), fun pre => noBlock (front (by decide) pre)⟩

end Lexeme

theorem Filler.above {after text : List Char} (filler : Filler after text) (below : List Char) :
    Filler (after ++ '\n' :: below) text := by
  cases filler with
  | blank blank => exact .blank blank
  | line oneLine stop =>
      refine .line oneLine ?_
      cases after with
      | nil => simp
      | cons c after => simpa using stop
  | block unended => exact .block unended

namespace Piece

theorem Reads.above {p : Piece} {after : List Char} (reads : p.Reads after) (below : List Char) :
    p.Reads (after ++ '\n' :: below) := by
  obtain ⟨text, _ | kind⟩ := p
  · exact Filler.above reads below
  · exact Lexeme.Stands.above reads below

/-- The piece that is the end of a line. -/
def newline : Piece := ⟨['\n'], none⟩

/-- Pieces that are cut to the end of their text are cut alike above another text. -/
theorem Cut.split_above {ps : List Piece} (cut : Cut ps) (below : List Char) :
    split (textOf ps ++ '\n' :: below) =
      (ps ++ newline :: (split below).1, (split below).2) := by
  induction ps with
  | nil =>
      have blank : newline.Reads below := .blank (by decide)
      exact split_append blank
  | cons p ps ih =>
      have here := split_append (cut.1.above below)
      rw [ih cut.2] at here
      simpa [textOf] using here

/-- At the end of a line stands the semicolon that the end of the text puts in. -/
theorem tokens_above (pos : Pos) (ends : Bool) (ps qs : List Piece) :
    tokens pos ends (ps ++ newline :: qs) =
      tokens pos ends ps ++ tokens ((stop pos ps).step '\n') false qs := by
  induction ps generalizing pos ends with
  | nil => cases ends <;> simp [tokens, newline, breaksLine, stop]
  | cons p ps ih =>
      obtain ⟨text, _ | kind⟩ := p
      · simp only [List.cons_append, tokens, ih]
        split <;> simp [stop]
      · simp [tokens, ih, stop]

theorem stop_above (pos : Pos) (ps qs : List Piece) :
    stop pos (ps ++ newline :: qs) = stop ((stop pos ps).step '\n') qs := by
  simp [stop, newline]

theorem stop_newline (ps : List Piece) :
    (stop .first ps).step '\n' = Pos.first.down ((textOf ps).count '\n' + 1) := by
  rw [Pos.first_eq_endOf, stop_eq, ← Pos.endOf_concat, List.nil_append, Pos.endOf_newline]
  rfl

end Piece

/-- Below a text that has tokens, another one has the same tokens or the same fault as
    by itself, further down by the lines of the first. -/
theorem lexes_above (s₁ s₂ : String) {above : TokenStream}
    (lexes : TokenStream.ofSource s₁ = .ok above) :
    let lines := s₁.toList.count '\n' + 1
    (∀ below, TokenStream.ofSource s₂ = .ok below →
      TokenStream.ofSource (s₁ ++ "\n" ++ s₂) =
        .ok ⟨above.tokens ++ below.tokens.map (Token.down lines), below.stop.down lines⟩) ∧
    ∀ error, TokenStream.ofSource s₂ = .error error →
      TokenStream.ofSource (s₁ ++ "\n" ++ s₂) = .error (error.down lines) := by
  intro lines
  obtain ⟨ps, read, rfl⟩ := (ofChars_eq_ok_iff _ _).mp lexes
  obtain ⟨text, cut⟩ := Piece.cut_of_split read
  have chars : (s₁ ++ "\n" ++ s₂).toList = Piece.textOf ps ++ '\n' :: s₂.toList := by
    simp [text]
  have place : (Piece.stop .first ps).step '\n' = Pos.first.down lines := by
    rw [Piece.stop_newline, text]
  have split := cut.split_above s₂.toList
  simp only [TokenStream.ofSource, TokenStream.ofChars, chars, split]
  cases Piece.split s₂.toList with
  | mk qs fault =>
      cases fault with
      | none =>
          simp [Piece.tokens_above, Piece.stop_above, place, Piece.tokens_down, Piece.stop_down]
      | some fault =>
          simp [Piece.stop_above, place, Piece.stop_down, LexFault.pos_down, LexError.down]

/-- A line comment ends where the second text begins, and the semicolon stands in front
    of that whether a text follows or not. -/
theorem lexes_above_comment :
    TokenStream.ofSource "x // y" =
      .ok ⟨[⟨.name "x", ⟨1, 1⟩⟩, ⟨.symbol .semicolon, ⟨1, 7⟩⟩], ⟨1, 7⟩⟩ ∧
    TokenStream.ofSource ("x // y" ++ "\n" ++ " 1e") =
      .ok ⟨[⟨.name "x", ⟨1, 1⟩⟩, ⟨.symbol .semicolon, ⟨1, 7⟩⟩, ⟨.int 1, ⟨2, 2⟩⟩, ⟨.name "e", ⟨2, 3⟩⟩,
        ⟨.symbol .semicolon, ⟨2, 4⟩⟩], ⟨2, 4⟩⟩ ∧
    TokenStream.ofSource ("x // y" ++ "\n" ++ "\"\\q") =
      .error ⟨.unknownEscape 'q' ['"', '\\', 'q'], ⟨2, 3⟩⟩ := by
  have above : TokenStream.ofSource "x // y" =
      .ok ⟨[⟨.name "x", ⟨1, 1⟩⟩, ⟨.symbol .semicolon, ⟨1, 7⟩⟩], ⟨1, 7⟩⟩ := by
    with_unfolding_all rfl
  have number : TokenStream.ofSource " 1e" =
      .ok ⟨[⟨.int 1, ⟨1, 2⟩⟩, ⟨.name "e", ⟨1, 3⟩⟩, ⟨.symbol .semicolon, ⟨1, 4⟩⟩], ⟨1, 4⟩⟩ := by
    with_unfolding_all rfl
  have escape : TokenStream.ofSource "\"\\q" =
      .error ⟨.unknownEscape 'q' ['"', '\\', 'q'], ⟨1, 3⟩⟩ := by
    with_unfolding_all rfl
  exact ⟨above, (lexes_above _ _ above).1 _ number, (lexes_above _ _ above).2 _ escape⟩

end Treewalk
