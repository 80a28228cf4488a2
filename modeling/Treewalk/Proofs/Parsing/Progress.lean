import Treewalk.Proofs.Parsing.Soundness

/-! # Where parsers get to

Parsers take tokens from the front and put none back. They never step over the
end, and they go on only behind a token that they took. The places in what they
give are those of tokens that they took, and their errors are at a token that
was there when they started, or at the end. So it is for every turn of a parser
that is asked again and again.
-/

namespace Treewalk

/-- What a parser can be asked for. -/
inductive Request where
  | program
  | stmt
  | expr

/-- What it gives then. -/
inductive Tree where
  | program (p : Program)
  | stmt (st : Stmt)
  | expr (e : Expr)

/-- The places of a tree and of its parts. -/
def Tree.places : Tree → List Pos
  | .program p => p.places
  | .stmt st => st.places
  | .expr e => e.places

/-- The parser for a request. -/
def Request.parser : Request → Parser Tree
  | .program => do return .program (← Parser.program)
  | .stmt => do return .stmt (← Parser.stmt)
  | .expr => do return .expr (← Parser.expr)

/-- One turn of a parser: the tokens in front of it, and what came of it. -/
structure Turn where
  start : List Token
  outcome : Parsed Tree

/-- The turns for requests one after the other. Whatever came of a turn, the next
    one goes on where it stopped. -/
def Request.turns (stop : Pos) : List Token → List Request → List Turn
  | _, [] => []
  | ts, r :: rs => ⟨ts, r.parser stop ts⟩ :: turns stop (r.parser stop ts).rest rs

theorem Request.parses (r : Request) (stop : Pos) (ts : List Token) :
    Parser.Parses ts stop r.parser ts
      fun tree rest => Shows ts rest tree.places ∧ rest.length < ts.length := by
  cases r with
  | program =>
      apply Parser.parses_program.bind
      exact fun p rest _ good => .pure good.2
  | stmt =>
      apply Parser.parses_stmt.bind
      exact fun st rest _ derived => .pure ⟨derived.shows, derived.length_lt⟩
  | expr =>
      apply Parser.parses_expr.bind
      exact fun e rest _ good => .pure ⟨good.1.shows, good.1.length_lt⟩

theorem Request.start_suffix {stop : Pos} {ts : List Token} {requests : List Request} {turn : Turn}
    (made : turn ∈ Request.turns stop ts requests) : turn.start <:+ ts := by
  induction requests generalizing ts with
  | nil => cases made
  | cons r rs ih =>
      rcases List.mem_cons.mp made with rfl | later
      · exact List.suffix_refl ts
      · exact (ih later).trans (r.parses stop ts).suffix

theorem Request.of_made {stop : Pos} {ts : List Token} {requests : List Request} {turn : Turn}
    (made : turn ∈ Request.turns stop ts requests) :
    ∃ r : Request, turn.outcome = r.parser stop turn.start := by
  induction requests generalizing ts with
  | nil => cases made
  | cons r rs ih =>
      rcases List.mem_cons.mp made with rfl | later
      · exact ⟨r, rfl⟩
      · exact ih later

theorem Request.turns_forward (stop : Pos) (ts : List Token) (requests : List Request) :
    (Request.turns stop ts requests).Pairwise
      fun before after => after.start <:+ before.outcome.rest := by
  induction requests generalizing ts with
  | nil => exact .nil
  | cons r rs ih => exact .cons (fun after made => Request.start_suffix made) (ih _)

/-- However often a parser is asked on the same tokens, and whatever came of its
    turns before: it only goes forward and not over the end, it is never stuck,
    what it gives is behind tokens that it took and tells only the places of these
    tokens, and its errors are at tokens that were there when it was asked, or at
    the end. -/
theorem parser_proceeds (stream : TokenStream) (requests : List Request) :
    (Request.turns stream.stop stream.tokens requests).Pairwise
      (fun before after => after.start <:+ before.outcome.rest) ∧
    ∀ turn ∈ Request.turns stream.stop stream.tokens requests,
      turn.start <:+ stream.tokens ∧ turn.outcome.rest <:+ turn.start ∧
      (∀ tree rest, turn.outcome = .ok tree rest →
        ∃ taken, taken ≠ [] ∧ turn.start = taken ++ rest ∧
          tree.places ⊆ taken.map Token.pos) ∧
      ∀ e rest, turn.outcome = .error e rest →
        e.fault ≠ .stuck ∧ e.pos ∈ turn.start.map Token.pos ++ [stream.stop] := by
  refine ⟨Request.turns_forward _ _ _, ?_⟩
  intro turn made
  obtain ⟨r, came⟩ := Request.of_made made
  have parses := r.parses stream.stop turn.start
  refine ⟨Request.start_suffix made, came ▸ parses.suffix, ?_, ?_⟩
  · intro tree rest ok
    obtain ⟨⟨taken, split, seen⟩, fewer⟩ := parses.of_ok (came.symm.trans ok)
    refine ⟨taken, ?_, split, seen⟩
    rintro rfl
    rw [split] at fewer
    exact Nat.lt_irrefl _ fewer
  · intro e rest error
    have explained := parses.of_error (came.symm.trans error)
    exact ⟨explained.moving, explained.place⟩

/-- A conversion without an operand fails behind its parentheses, at its own
    place, and the next turn reads the name that follows. -/
theorem parser_proceeds_afterFailure :
    let tokens : List Token := [⟨.name "int", ⟨1, 1⟩⟩, ⟨.symbol .lparen, ⟨1, 4⟩⟩,
      ⟨.symbol .rparen, ⟨1, 5⟩⟩, ⟨.name "y", ⟨1, 7⟩⟩]
    let stop : Pos := ⟨1, 8⟩
    let failed : Turn := ⟨tokens, .error ⟨.conversionArity .int, ⟨1, 1⟩⟩ (tokens.drop 3)⟩
    let read : Turn := ⟨tokens.drop 3, .ok (.expr (.name ⟨1, 7⟩ "y")) []⟩
    Request.turns stop tokens [.expr, .expr] = [failed, read] ∧
      read.start <:+ failed.outcome.rest ∧
      (∃ taken, taken ≠ [] ∧ read.start = taken ++ [] ∧ [⟨1, 7⟩] ⊆ taken.map Token.pos) ∧
      (⟨1, 1⟩ : Pos) ∈ failed.start.map Token.pos ++ [stop] := by
  intro tokens stop failed read
  have turns : Request.turns stop tokens [.expr, .expr] = [failed, read] := by
    with_unfolding_all rfl
  obtain ⟨forward, each⟩ := parser_proceeds ⟨tokens, stop⟩ [.expr, .expr]
  rw [turns] at forward each
  have took := (each read (by simp)).2.2.1 _ [] rfl
  have placed := (each failed (by simp)).2.2.2 _ (tokens.drop 3) rfl
  exact ⟨turns, List.rel_of_pairwise_cons forward (by simp), took, placed.2⟩

end Treewalk
