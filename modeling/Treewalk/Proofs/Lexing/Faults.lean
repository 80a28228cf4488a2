import Treewalk.Proofs.Lexing.Layout

/-! # Where faults are reported

A text without tokens has pieces up to some place and a fault there. The fault is
reported at a character of the text, with one exception: a backslash before the
end of a line is reported in front of the next line, where no character is.
-/

namespace Treewalk

/-! ## Places -/

namespace Pos

/-- The place of a character of a text. -/
def IsIn (text : List Char) (pos : Pos) : Prop :=
  ∃ before c after, text = before ++ c :: after ∧ pos = endOf before

theorem IsIn.one_le {text : List Char} {pos : Pos} (inside : pos.IsIn text) :
    1 ≤ pos.line ∧ 1 ≤ pos.col := by
  obtain ⟨before, _, _, _, rfl⟩ := inside
  simp [endOf]

/-- One column back from the place behind a character is the character, unless
    the character ends its line. -/
theorem step_back (pos : Pos) (c : Char) :
    (⟨(pos.step c).line, (pos.step c).col - 1⟩ : Pos) =
      if c = '\n' then ⟨pos.line + 1, 0⟩ else pos := by
  unfold step
  split <;> simp

end Pos

/-! ## Faults -/

namespace LexFault

/-- Whether a fault is a backslash before the end of a line. -/
def escapesLine : LexFault → Bool
  | .unknownEscape c _ => c == '\n'
  | _ => false

/-- A fault in a text has read the text up to the character that it names. -/
def Points (cs : List Char) : LexFault → Prop
  | .unknownEscape c read => ∃ init after, cs = init ++ c :: after ∧ read = init ++ [c]
  | _ => True

theorem Points.behind {cs : List Char} {fault : LexFault} (points : fault.Points cs)
    (text : List Char) : (fault.behind text).Points (text ++ cs) := by
  cases fault with
  | unknownEscape c read =>
      obtain ⟨init, after, rfl, rfl⟩ := points
      exact ⟨text ++ init, after, by simp, by simp⟩
  | _ => trivial

/-- The place of a fault at a text that is not empty. -/
theorem Points.pos {c : Char} {rest : List Char} {fault : LexFault}
    (points : fault.Points (c :: rest)) : ∃ init d after, c :: rest = init ++ d :: after ∧
      (fault.escapesLine → d = '\n') ∧
      ∀ before, fault.pos (Pos.endOf before) =
        if fault.escapesLine then ⟨(Pos.endOf (before ++ init)).line + 1, 0⟩
        else Pos.endOf (before ++ init) := by
  cases fault with
  | unknownEscape d read =>
      obtain ⟨init, after, same, rfl⟩ := points
      refine ⟨init, d, after, same, by simp [escapesLine], fun before => ?_⟩
      have back := Pos.step_back (Pos.endOf (before ++ init)) d
      simpa [LexFault.pos, Pos.after_endOf, escapesLine] using back
  | _ => exact ⟨[], c, rest, rfl, by simp [escapesLine], by simp [LexFault.pos, escapesLine]⟩

end LexFault

namespace Piece

theorem stringTail_points {cs : List Char} {fault : LexFault}
    (failed : stringTail cs = .error fault) : fault.Points cs := by
  fun_induction stringTail cs generalizing fault with
  | case1 | case3 | case4 =>
      cases failed
      trivial
  | case2 | case7 | case9 => cases failed
  | case5 c rest unknown =>
      cases failed
      exact ⟨['\\'], rest, rfl, rfl⟩
  | case6 c rest d inner read known ih =>
      cases failed
      exact (ih read).behind ['\\', c]
  | case8 c rest _ _ _ _ inner read ih =>
      cases failed
      exact (ih read).behind [c]

theorem number_points {cs : List Char} {fault : LexFault} (failed : number cs = .error fault) :
    fault.Points cs := by
  unfold number at failed
  dsimp only at failed
  split at failed <;> cases failed
  trivial

theorem front_points {c : Char} {rest : List Char} {fault : LexFault}
    (failed : front c rest = .error fault) : fault.Points (c :: rest) := by
  revert failed
  fun_cases front c rest with
  | case1 | case2 | case3 | case6 | case8 | case9 => simp
  | case4 =>
      rintro ⟨⟩
      trivial
  | case5 => exact number_points
  | case7 _ _ _ _ _ _ inner read =>
      rintro ⟨⟩
      exact (stringTail_points read).behind [c]
  | case10 =>
      rintro ⟨⟩
      split <;> trivial

/-- A text that is not split to its end has a fault where the pieces stop. -/
theorem split_error {cs : List Char} {ps : List Piece} {fault : LexFault}
    (read : split cs = (ps, some fault)) :
    ∃ c rest, cs = textOf ps ++ c :: rest ∧ front c rest = .error fault := by
  fun_induction split cs generalizing ps with
  | case1 => cases read
  | case2 c rest fault' failed =>
      cases read
      exact ⟨c, rest, rfl, failed⟩
  | case3 c rest p front tail fault' readTail ih =>
      obtain ⟨rfl, rfl⟩ := Prod.mk.inj read
      obtain ⟨after, same, reads⟩ := front_sound front
      rw [drop_text same reads.ne_nil] at readTail ih
      obtain ⟨d, rest', rfl, failed⟩ := ih readTail
      refine ⟨d, rest', ?_, failed⟩
      simpa [textOf] using same

end Piece

theorem ofChars_eq_error_iff (cs : List Char) (e : LexError) :
    TokenStream.ofChars cs = .error e ↔ ∃ ps fault, Piece.split cs = (ps, some fault) ∧
      e = ⟨fault, fault.pos (Piece.stop .first ps)⟩ := by
  unfold TokenStream.ofChars
  obtain ⟨ps, _ | fault⟩ := Piece.split cs <;> simp [eq_comm]

/-- A fault is reported at the place of a character of the text, whose line and
    column count from one, unless it is a backslash before the end of a line. That
    one is reported at column zero of the line that begins behind it. -/
theorem lexing_fault_places (source : String) (e : LexError)
    (fails : TokenStream.ofSource source = .error e) :
    (e.pos.IsIn source.toList ↔ e.fault.escapesLine = false) ∧
      (e.pos.IsIn source.toList → 1 ≤ e.pos.line ∧ 1 ≤ e.pos.col) ∧
      (e.fault.escapesLine → ∃ before after, source.toList = before ++ '\n' :: after ∧
        e.pos = ⟨(Pos.endOf before).line + 1, 0⟩) := by
  obtain ⟨ps, fault, read, rfl⟩ := (ofChars_eq_error_iff _ e).mp fails
  obtain ⟨c, rest, same, failed⟩ := Piece.split_error read
  obtain ⟨init, d, after, found, newline, place⟩ := (Piece.front_points failed).pos
  rw [found, ← List.append_assoc] at same
  have stop := Piece.stop_eq [] ps
  rw [List.nil_append, ← Pos.first_eq_endOf] at stop
  simp only [stop, place]
  -- All else is reported at the character `d`, the escaped end of a line behind it.
  cases broken : fault.escapesLine with
  | false =>
      have inside : (Pos.endOf (Piece.textOf ps ++ init)).IsIn source.toList :=
        ⟨_, d, after, same, rfl⟩
      simpa using ⟨inside, fun _ => inside.one_le⟩
  | true =>
      have outside (line : Nat) : ¬ (⟨line, 0⟩ : Pos).IsIn source.toList := fun inside =>
        absurd inside.one_le.2 (by simp)
      refine ⟨by simpa using outside _, fun inside => absurd inside (by simpa using outside _), ?_⟩
      intro _
      exact ⟨_, after, newline broken ▸ same, rfl⟩

/-- A half operator behind a comment over two lines is where it should be. -/
theorem lexing_fault_places_half :
    TokenStream.ofSource "/*\n*/ &x" = .error ⟨.halfOperator '&', ⟨2, 4⟩⟩ ∧
      (⟨2, 4⟩ : Pos).IsIn "/*\n*/ &x".toList := by
  have fails : TokenStream.ofSource "/*\n*/ &x" = .error ⟨.halfOperator '&', ⟨2, 4⟩⟩ := by
    with_unfolding_all rfl
  exact ⟨fails, (lexing_fault_places _ _ fails).1.mpr rfl⟩

/-- The backslash at the end of the first line is reported at column zero of the
    second. -/
theorem lexing_fault_misplaced :
    TokenStream.ofSource "\"\\\n\"" = .error ⟨.unknownEscape '\n' ['"', '\\', '\n'], ⟨2, 0⟩⟩ ∧
      ¬ (⟨2, 0⟩ : Pos).IsIn "\"\\\n\"".toList := by
  refine ⟨by with_unfolding_all rfl, fun inside => ?_⟩
  exact absurd inside.one_le.2 (by decide)

end Treewalk
