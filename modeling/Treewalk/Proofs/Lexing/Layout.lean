import Treewalk.Proofs.Lexing.Reader

/-! # How a text is laid out

A text is made of lexemes with gaps of blanks and comments between them. Its
tokens are those that the lexemes denote, and the semicolons that the gaps put
in.
-/

namespace Treewalk

/-- The place behind a text that starts at the first line and column. -/
def Pos.endOf (cs : List Char) : Pos :=
  ⟨cs.count '\n' + 1, (cs.reverse.takeWhile (· != '\n')).length + 1⟩

/-- The fillers between two lexemes, before the text `after`. -/
def IsGap (after : List Char) : List (List Char) → Prop
  | [] => True
  | filler :: gap => Filler (gap.flatten ++ after) filler ∧ IsGap after gap

/-- Whether a filler reaches over the end of a line. -/
def breaksLine (filler : List Char) : Bool := filler.contains '\n'

/-- The tokens that a statement may end with. -/
inductive EndsStatement : Token.Kind → Prop
  | name (x : String) : EndsStatement (.name x)
  | int (n : Int64) : EndsStatement (.int n)
  | float (x : Float) : EndsStatement (.float x)
  | str (s : String) : EndsStatement (.str s)
  | return_ : EndsStatement (.keyword .return_)
  | plusPlus : EndsStatement (.symbol .plusPlus)
  | minusMinus : EndsStatement (.symbol .minusMinus)
  | rparen : EndsStatement (.symbol .rparen)
  | rbracket : EndsStatement (.symbol .rbracket)
  | rbrace : EndsStatement (.symbol .rbrace)

theorem mayEnd_iff (kind : Token.Kind) : kind.mayEnd ↔ EndsStatement kind := by
  constructor
  · intro ends
    cases kind with
    | name | int | float | str => constructor
    | keyword k =>
        obtain rfl : k = .return_ := by simpa [Token.Kind.mayEnd] using ends
        exact .return_
    | symbol s => cases s <;> first | contradiction | constructor
  · intro ends
    cases ends <;> rfl

instance : DecidablePred EndsStatement := fun kind => decidable_of_iff _ (mayEnd_iff kind)

/-- A lexeme and the gap behind it. -/
structure Lexeme where
  text : List Char
  kind : Token.Kind
  gap : List (List Char)

namespace Lexeme

/-- The text of lexemes with their gaps. -/
def textOf (ls : List Lexeme) : List Char := ls.flatMap fun l => l.text ++ l.gap.flatten

/-- Every lexeme is one at its place, and every gap is one. -/
def Laid : List Lexeme → Prop
  | [] => True
  | l :: ls => Stands (l.gap.flatten ++ textOf ls) l.text l.kind ∧ IsGap (textOf ls) l.gap ∧ Laid ls

/-- The semicolon that the gap behind a lexeme puts in. It stands at the first
    filler that reaches over the end of a line. Without such a filler only the
    last gap puts one in, at its end. -/
def semicolon (before : List Char) (l : Lexeme) (last : Bool) : List Token :=
  if EndsStatement l.kind ∧ (last || l.gap.any breaksLine) then
    let line := l.gap.takeWhile (!breaksLine ·)
    [⟨.symbol .semicolon, Pos.endOf (before ++ l.text ++ line.flatten)⟩]
  else []

/-- The tokens of lexemes that stand behind the text `before`. -/
def tokens (before : List Char) : List Lexeme → List Token
  | [] => []
  | l :: ls =>
      ⟨l.kind, Pos.endOf before⟩ ::
        (l.semicolon before ls.isEmpty ++ tokens (before ++ l.text ++ l.gap.flatten) ls)

end Lexeme

/-- A text by its lexemes, with the gap before the first of them. -/
structure Layout where
  lead : List (List Char)
  lexemes : List Lexeme

namespace Layout

open Lexeme

def text (layout : Layout) : List Char := layout.lead.flatten ++ textOf layout.lexemes

def Valid (layout : Layout) : Prop :=
  IsGap (textOf layout.lexemes) layout.lead ∧ Laid layout.lexemes

def tokens (layout : Layout) : List Token := Lexeme.tokens layout.lead.flatten layout.lexemes

end Layout

/-! ## Places -/

namespace Pos

theorem endOf_concat (cs : List Char) (c : Char) : endOf (cs ++ [c]) = (endOf cs).step c := by
  by_cases newline : c = '\n' <;> simp [endOf, step, newline]

theorem after_endOf (cs ds : List Char) : (endOf cs).after ds = endOf (cs ++ ds) := by
  induction ds generalizing cs with
  | nil => simp
  | cons d ds ih => rw [after_cons, ← endOf_concat, ih, List.append_assoc, List.singleton_append]

theorem first_eq_endOf : first = endOf [] := rfl

end Pos

/-! ## Pieces in order -/

namespace Piece

def textOf (ps : List Piece) : List Char := ps.flatMap Piece.text

/-- Every piece is one at its place. -/
def Cut : List Piece → Prop
  | [] => True
  | p :: ps => p.Reads (textOf ps) ∧ Cut ps

theorem Reads.ne_nil {p : Piece} {after : List Char} (reads : p.Reads after) : p.text ≠ [] := by
  obtain ⟨text, _ | kind⟩ := p
  · cases reads <;> simp
  · obtain ⟨_, _, rfl, _⟩ := reads.denotes.shape.first
    simp

theorem drop_text {c : Char} {rest text after : List Char} (same : c :: rest = text ++ after)
    (some : text ≠ []) : rest.drop (text.length - 1) = after := by
  obtain ⟨d, ds, rfl⟩ := List.exists_cons_of_ne_nil some
  simp [(List.cons.inj same).2]

theorem cut_of_split {cs : List Char} {ps : List Piece} (read : split cs = (ps, none)) :
    textOf ps = cs ∧ Cut ps := by
  fun_induction split cs generalizing ps with
  | case1 =>
      cases read
      exact ⟨rfl, trivial⟩
  | case2 => simp at read
  | case3 c rest p front tail fault readTail ih =>
      obtain ⟨rfl, rfl⟩ := Prod.mk.inj read
      obtain ⟨after, same, reads⟩ := front_sound front
      rw [drop_text same reads.ne_nil] at readTail ih
      obtain ⟨rfl, cut⟩ := ih readTail
      exact ⟨same.symm, reads, cut⟩

/-- The text of a piece is split off, and what follows it is split as it would be alone. -/
theorem split_append {p : Piece} {after : List Char} (reads : p.Reads after) :
    split (p.text ++ after) = (p :: (split after).1, (split after).2) := by
  obtain ⟨c, rest, same⟩ : ∃ c rest, p.text ++ after = c :: rest :=
    List.exists_cons_of_ne_nil (by simp [reads.ne_nil])
  have front := reads.front same.symm
  have drop := drop_text same.symm reads.ne_nil
  rw [same, split.eq_def]
  simp [front, drop]

theorem split_of_cut {ps : List Piece} (cut : Cut ps) : split (textOf ps) = (ps, none) := by
  induction ps with
  | nil => exact split.eq_def []
  | cons p ps ih =>
      change split (p.text ++ textOf ps) = _
      rw [split_append cut.1, ih cut.2]

theorem split_eq_iff {cs : List Char} {ps : List Piece} :
    split cs = (ps, none) ↔ textOf ps = cs ∧ Cut ps := by
  constructor
  · exact cut_of_split
  · rintro ⟨rfl, cut⟩
    exact split_of_cut cut

theorem stop_eq (before : List Char) (ps : List Piece) :
    stop (Pos.endOf before) ps = Pos.endOf (before ++ textOf ps) := by
  induction ps generalizing before with
  | nil => simp [stop, textOf]
  | cons p ps ih =>
      have := ih (before ++ p.text)
      simpa [stop, textOf, Pos.after_endOf] using this

end Piece

/-! ## Pieces of a layout -/

namespace Layout

open Lexeme

def fillers (gap : List (List Char)) : List Piece := gap.map fun text => ⟨text, none⟩

/-- The pieces of lexemes and their gaps. -/
def lexemePieces (ls : List Lexeme) : List Piece :=
  ls.flatMap fun l => ⟨l.text, some l.kind⟩ :: fillers l.gap

/-- The pieces of a text that is laid out. -/
def pieces (layout : Layout) : List Piece := fillers layout.lead ++ lexemePieces layout.lexemes

theorem textOf_fillers (gap : List (List Char)) (ps : List Piece) :
    Piece.textOf (fillers gap ++ ps) = gap.flatten ++ Piece.textOf ps := by
  simp [Piece.textOf, fillers, List.flatMap_map, List.flatMap_id']

theorem textOf_lexemePieces (ls : List Lexeme) :
    Piece.textOf (lexemePieces ls) = Lexeme.textOf ls := by
  induction ls with
  | nil => rfl
  | cons l ls ih =>
      have tail := textOf_fillers l.gap (lexemePieces ls)
      rw [ih] at tail
      simpa [Piece.textOf, lexemePieces, Lexeme.textOf] using tail

theorem textOf_pieces (layout : Layout) : Piece.textOf layout.pieces = layout.text := by
  rw [pieces, textOf_fillers, textOf_lexemePieces, text]

theorem cut_fillers (gap : List (List Char)) (ps : List Piece) :
    Piece.Cut (fillers gap ++ ps) ↔ IsGap (Piece.textOf ps) gap ∧ Piece.Cut ps := by
  induction gap with
  | nil => simp [fillers, IsGap]
  | cons filler gap ih =>
      change Filler (Piece.textOf (fillers gap ++ ps)) filler ∧ Piece.Cut (fillers gap ++ ps) ↔ _
      rw [ih, textOf_fillers, IsGap, and_assoc]

theorem cut_lexemePieces (ls : List Lexeme) : Piece.Cut (lexemePieces ls) ↔ Laid ls := by
  induction ls with
  | nil => rfl
  | cons l ls ih =>
      change Stands (Piece.textOf (fillers l.gap ++ lexemePieces ls)) l.text l.kind ∧
        Piece.Cut (fillers l.gap ++ lexemePieces ls) ↔ _
      rw [cut_fillers, textOf_fillers, textOf_lexemePieces, ih, Laid]

theorem cut_pieces (layout : Layout) : Piece.Cut layout.pieces ↔ layout.Valid := by
  rw [pieces, cut_fillers, textOf_lexemePieces, cut_lexemePieces, Valid]

/-- Every list of pieces is that of a layout. -/
theorem exists_pieces (ps : List Piece) : ∃ layout : Layout, layout.pieces = ps := by
  induction ps with
  | nil => exact ⟨⟨[], []⟩, rfl⟩
  | cons p ps ih =>
      obtain ⟨⟨lead, lexemes⟩, rfl⟩ := ih
      obtain ⟨text, _ | kind⟩ := p
      · exact ⟨⟨text :: lead, lexemes⟩, rfl⟩
      · exact ⟨⟨[], ⟨text, kind, lead⟩ :: lexemes⟩, by simp [pieces, lexemePieces, fillers]⟩

theorem tokens_fillers (before : List Char) (ends : Bool) (gap : List (List Char))
    (ps : List Piece) :
    Piece.tokens (Pos.endOf before) ends (fillers gap ++ ps) =
      if ends && gap.any breaksLine then
        ⟨.symbol .semicolon, Pos.endOf (before ++ (gap.takeWhile (!breaksLine ·)).flatten)⟩ ::
          Piece.tokens (Pos.endOf (before ++ gap.flatten)) false ps
      else Piece.tokens (Pos.endOf (before ++ gap.flatten)) ends ps := by
  induction gap generalizing before ends with
  | nil => simp [fillers]
  | cons filler gap ih =>
      have unfolded : Piece.tokens (Pos.endOf before) ends (fillers (filler :: gap) ++ ps) =
          if ends && breaksLine filler then
            ⟨.symbol .semicolon, Pos.endOf before⟩ ::
              Piece.tokens (Pos.endOf (before ++ filler)) false (fillers gap ++ ps)
          else Piece.tokens (Pos.endOf (before ++ filler)) ends (fillers gap ++ ps) := by
        rw [← Pos.after_endOf]
        rfl
      rw [unfolded, ih, ih]
      cases ends <;> cases breaks : breaksLine filler <;> simp [breaks]

/-- Whether a statement may end before a lexeme does not matter; before the end
    of the text it puts in a semicolon. -/
theorem tokens_ends (pos : Pos) (ends : Bool) (ls : List Lexeme) :
    Piece.tokens pos ends (lexemePieces ls) =
      (if ends && ls.isEmpty then [⟨.symbol .semicolon, pos⟩] else []) ++
        Piece.tokens pos false (lexemePieces ls) := by
  cases ls <;> cases ends <;> rfl

theorem tokens_lexemePieces (before : List Char) (ls : List Lexeme) :
    Piece.tokens (Pos.endOf before) false (lexemePieces ls) = Lexeme.tokens before ls := by
  induction ls generalizing before with
  | nil => rfl
  | cons l ls ih =>
      change ⟨l.kind, _⟩ :: Piece.tokens ((Pos.endOf before).after l.text) l.kind.mayEnd
        (fillers l.gap ++ lexemePieces ls) = _
      rw [Pos.after_endOf, tokens_fillers, Lexeme.tokens, Lexeme.semicolon,
        tokens_ends _ l.kind.mayEnd, ih]
      cases may : l.kind.mayEnd with
      | false =>
          have goesOn : ¬ EndsStatement l.kind := by simp [← mayEnd_iff, may]
          simp [goesOn]
      | true =>
          have ends : EndsStatement l.kind := (mayEnd_iff _).mp may
          cases breaks : l.gap.any breaksLine with
          | false =>
              have line : l.gap.takeWhile (!breaksLine ·) = l.gap :=
                List.takeWhile_eq_self_iff.mpr (by simpa using breaks)
              simp [ends, line]
          | true => simp [ends]

theorem tokens_pieces (layout : Layout) :
    Piece.tokens .first false layout.pieces = layout.tokens := by
  rw [Pos.first_eq_endOf, pieces, tokens_fillers, Bool.false_and, List.nil_append]
  exact tokens_lexemePieces ..

end Layout

theorem ofChars_eq_ok_iff (cs : List Char) (stream : TokenStream) :
    TokenStream.ofChars cs = .ok stream ↔ ∃ ps, Piece.split cs = (ps, none) ∧
      stream = ⟨Piece.tokens .first false ps, Piece.stop .first ps⟩ := by
  unfold TokenStream.ofChars
  obtain ⟨ps, _ | fault⟩ := Piece.split cs <;> simp [eq_comm]

/-- The tokens of a text are denoted by parts of it. -/
theorem denotes_of_lexed {source : String} {stream : TokenStream}
    (lexed : TokenStream.ofSource source = .ok stream) :
    ∀ t ∈ stream.tokens, ∃ text, Lexeme.Denotes text t.kind := by
  obtain ⟨ps, split, rfl⟩ := (ofChars_eq_ok_iff _ _).mp lexed
  obtain ⟨layout, rfl⟩ := Layout.exists_pieces ps
  obtain ⟨-, laid⟩ := layout.cut_pieces.mp (Piece.split_eq_iff.mp split).2
  rw [layout.tokens_pieces, Layout.tokens]
  generalize layout.lead.flatten = before
  generalize layout.lexemes = ls at laid ⊢
  induction ls generalizing before with
  | nil => simp [Lexeme.tokens]
  | cons l ls ih =>
      obtain ⟨stands, -, laid⟩ := laid
      intro t mem
      rw [Lexeme.tokens, List.mem_cons, List.mem_append] at mem
      obtain rfl | inserted | later := mem
      · exact ⟨l.text, stands.denotes⟩
      · rw [Lexeme.semicolon] at inserted
        split at inserted
        · obtain rfl := List.mem_singleton.mp inserted
          exact ⟨_, .symbol .semicolon⟩
        · cases inserted
      · exact ih _ laid t later

/-- A text has tokens exactly if it is laid out in lexemes and gaps. The tokens
    are then those of the layout, up to the end of the text. -/
theorem lexes_iff_layout (source : String) (stream : TokenStream) :
    TokenStream.ofSource source = .ok stream ↔
      ∃ layout : Layout, layout.text = source.toList ∧ layout.Valid ∧
        stream.tokens = layout.tokens ∧ stream.stop = Pos.endOf source.toList := by
  rw [TokenStream.ofSource, ofChars_eq_ok_iff]
  constructor
  · rintro ⟨ps, read, rfl⟩
    obtain ⟨text, cut⟩ := Piece.split_eq_iff.mp read
    obtain ⟨layout, rfl⟩ := Layout.exists_pieces ps
    refine ⟨layout, layout.textOf_pieces ▸ text, layout.cut_pieces.mp cut, layout.tokens_pieces, ?_⟩
    rw [Pos.first_eq_endOf, Piece.stop_eq, text, List.nil_append]
  · rintro ⟨layout, text, valid, tokens, stop⟩
    rw [← layout.textOf_pieces] at text
    refine ⟨layout.pieces, Piece.split_eq_iff.mpr ⟨text, layout.cut_pieces.mpr valid⟩, ?_⟩
    rw [layout.tokens_pieces, Pos.first_eq_endOf, Piece.stop_eq, text, ← tokens, List.nil_append,
      ← stop]

/-- A line break behind a name puts in a semicolon, one behind an operator does not, and
    the end of the text puts in the last one. -/
theorem lexes_iff_layout_sum :
    ∃ layout : Layout, layout.text = "x1 // one\n_y2+\n3".toList ∧ layout.Valid ∧
      layout.tokens =
        [⟨.name "x1", ⟨1, 1⟩⟩, ⟨.symbol .semicolon, ⟨1, 10⟩⟩, ⟨.name "_y2", ⟨2, 1⟩⟩,
          ⟨.symbol .plus, ⟨2, 4⟩⟩, ⟨.int 3, ⟨3, 1⟩⟩, ⟨.symbol .semicolon, ⟨3, 2⟩⟩] := by
  obtain ⟨layout, text, valid, tokens, _⟩ := (lexes_iff_layout "x1 // one\n_y2+\n3"
    ⟨[⟨.name "x1", ⟨1, 1⟩⟩, ⟨.symbol .semicolon, ⟨1, 10⟩⟩, ⟨.name "_y2", ⟨2, 1⟩⟩,
      ⟨.symbol .plus, ⟨2, 4⟩⟩, ⟨.int 3, ⟨3, 1⟩⟩, ⟨.symbol .semicolon, ⟨3, 2⟩⟩], ⟨3, 2⟩⟩).mp
    (by decide +kernel)
  exact ⟨layout, text, valid, tokens.symm⟩

end Treewalk
