import Treewalk.Proofs.Parsing.Soundness

/-! # The tokens behind an expression

An expression keeps all tokens that it was read from, in their order, except for
parentheses and commas. Reading stops only before a token that cannot go on with
the expression.
-/

namespace Treewalk

open Token (Kind)

/-- Tokens without parentheses and commas. -/
def bare (ks : List Kind) : List Kind :=
  ks.filter (· ∉ [.symbol .lparen, .symbol .rparen, .symbol .comma])

/-- The tokens of an expression from left to right, without parentheses and
    commas. -/
def Expr.yield : Expr → List Kind
  | .int _ n => [.int (.ofInt n)]
  | .float _ x => [.float x]
  | .bool _ b => [.name (if b then "true" else "false")]
  | .str _ s => [.str s]
  | .name _ x => [.name x]
  | .unary _ op e => .symbol op.symbol :: e.yield
  | .binary _ op l r => l.yield ++ .symbol op.symbol :: r.yield
  | .convert _ ty e => ty.tokens ++ e.yield
  | .index _ a i => a.yield ++ .symbol .lbracket :: (i.yield ++ [.symbol .rbracket])
  | .call _ f args => .name f :: args.flatMap yield
  | .print _ package style args =>
      .name package :: .symbol .dot :: .name style.member :: args.flatMap yield

/-- The tokens of `ts` in front of `rest` are these, without parentheses and commas. -/
def Spells (ts rest : List Token) (ks : List Kind) : Prop :=
  ∃ taken, ts = taken ++ rest ∧ bare (taken.map Token.kind) = ks

namespace Spells

variable {t : Token} {ts mid rest : List Token} {ks ks' : List Kind}

theorem nil (ts : List Token) : Spells ts ts [] := ⟨[], rfl, rfl⟩

theorem append (first : Spells ts mid ks) (second : Spells mid rest ks') :
    Spells ts rest (ks ++ ks') := by
  obtain ⟨taken, rfl, same⟩ := first
  obtain ⟨more, rfl, same'⟩ := second
  refine ⟨taken ++ more, (List.append_assoc ..).symm, ?_⟩
  rw [List.map_append, bare, List.filter_append, ← bare, ← bare, same, same']

theorem token {k : Kind} (here : t.kind = k) : Spells (t :: rest) rest (bare [k]) :=
  ⟨[t], rfl, by rw [List.map_singleton, here]⟩

theorem cons {k : Kind} (h : Spells ts rest ks) (here : t.kind = k) :
    Spells (t :: ts) rest (bare [k] ++ ks) :=
  (token here).append h

theorem concat {k : Kind} (h : Spells ts (t :: rest) ks) (here : t.kind = k) :
    Spells ts rest (ks ++ bare [k]) :=
  h.append (token here)

end Spells

/-! ## Derivations -/

namespace Expr

open Treewalk.Parser

theorem binaryOp?_eq_some {k : Kind} {op : BinaryOp} (known : binaryOp? k = some op) :
    k = .symbol op.symbol := by
  unfold binaryOp? at known
  split at known <;> cases known <;> rfl

theorem unaryOp?_eq_some {k : Kind} {op : UnaryOp} (known : unaryOp? k = some op) :
    k = .symbol op.symbol := by
  unfold unaryOp? at known
  split at known <;> cases known <;> rfl

theorem bare_binary (op : BinaryOp) : bare [.symbol op.symbol] = [.symbol op.symbol] := by
  obtain op | op | op := op <;> cases op <;> rfl

theorem bare_unary (op : UnaryOp) : bare [.symbol op.symbol] = [.symbol op.symbol] := by
  cases op <;> rfl

theorem tokens_of_ofName? {x : String} {ty : Ty} (known : Ty.ofName? x = some ty) :
    ty.tokens = [.name x] := by
  unfold Ty.ofName? at known
  split at known <;> cases known <;> rfl

theorem member_of_printStyle? {package member : String} {style : PrintStyle}
    (known : printStyle? package member = some style) : style.member = member := by
  unfold printStyle? at known
  split at known <;> cases known <;> rfl

theorem yield_nameAlone (pos : Pos) (x : String) : (nameAlone pos x).yield = [.name x] := by
  unfold nameAlone
  split <;> rw [Expr.yield] <;> rfl

def Phrase.yield : Phrase → List Kind
  | .expr e => e.yield
  | .begun es | .args es => es.flatMap Expr.yield

variable {ts rest : List Token} {ph : Phrase}

/-- What is derived from tokens yields them. -/
theorem Phrase.Derives.spells (h : ph.Derives ts rest) : Spells ts rest ph.yield := by
  induction h with
  | int here =>
      rw [Phrase.yield, Expr.yield, Int64.ofInt_toInt]
      exact .token here
  | float here | str here =>
      rw [Phrase.yield, Expr.yield]
      exact .token here
  | name here =>
      rw [Phrase.yield, yield_nameAlone]
      exact .token here
  | parens opened _ closed ih =>
      have shown := (ih.concat closed).cons opened
      simpa [bare] using shown
  | call named _ opened _ closed ih =>
      have shown := ((ih.concat closed).cons opened).cons named
      rw [Phrase.yield, Expr.yield]
      simpa [bare, Phrase.yield] using shown
  | convert named known opened _ closed ih =>
      have shown := ((ih.concat closed).cons opened).cons named
      rw [Phrase.yield, Expr.yield, tokens_of_ofName? known]
      simpa [bare, Phrase.yield] using shown
  | print named dotted chosen known opened _ closed ih =>
      have shown := ((((ih.concat closed).cons opened).cons chosen).cons dotted).cons named
      rw [Phrase.yield, Expr.yield, member_of_printStyle? known]
      simpa [bare, Phrase.yield] using shown
  | index _ opened _ closed ih ih' =>
      have shown := (ih.concat opened).append (ih'.concat closed)
      rw [Phrase.yield, Expr.yield]
      simpa [bare, Phrase.yield] using shown
  | unary known _ ih =>
      have shown := ih.cons (unaryOp?_eq_some known)
      rw [bare_unary] at shown
      rw [Phrase.yield, Expr.yield]
      exact shown
  | binary _ known _ ih ih' =>
      have shown := ih.append (ih'.cons (binaryOp?_eq_some known))
      rw [bare_binary] at shown
      rw [Phrase.yield, Expr.yield]
      exact shown
  | start => exact .nil _
  | more _ _ parted ih ih' =>
      have shown := ih.append (ih'.concat parted)
      rw [Phrase.yield, List.flatMap_append, List.flatMap_singleton]
      simpa [bare, Phrase.yield] using shown
  | last _ _ ih ih' =>
      rw [Phrase.yield, List.flatMap_append, List.flatMap_singleton]
      exact ih.append ih'
  | ended _ ih => exact ih

end Expr

/-- Reading an expression loses and reorders nothing: without parentheses and
    commas, the tokens that it takes are those of the expression from left to
    right. It stops before a token that is no operator and no bracket, so it has
    taken all that belongs to the expression. -/
theorem expr_yield {stop : Pos} {ts rest : List Token} {e : Expr}
    (ok : Parser.expr stop ts = .ok e rest) :
    ∃ taken, ts = taken ++ rest ∧ bare (taken.map Token.kind) = e.yield ∧
      (∀ op : BinaryOp, Parser.next rest ≠ some (.symbol op.symbol)) ∧
      Parser.next rest ≠ some (.symbol .lbracket) := by
  obtain ⟨derived, bracket, operator⟩ := Parser.parses_expr.of_ok ok
  obtain ⟨taken, split, same⟩ := derived.spells
  refine ⟨taken, split, same, ?_, bracket⟩
  intro op stands
  have below := operator op (by rw [stands]; exact Parser.binaryOp?_symbol op)
  have least := (Parser.level_binary op).1
  omega

/-- `((x)) - f(a, b[1],) )` is read up to the last parenthesis. -/
theorem expr_yield_nested :
    let kinds : List Kind := [.symbol .lparen, .symbol .lparen, .name "x", .symbol .rparen,
      .symbol .rparen, .symbol .minus, .name "f", .symbol .lparen, .name "a", .symbol .comma,
      .name "b", .symbol .lbracket, .int 1, .symbol .rbracket, .symbol .comma, .symbol .rparen,
      .symbol .rparen]
    let here : Pos := default
    let e : Expr := .binary here (.arith .sub) (.name here "x")
      (.call here "f" [.name here "a", .index here (.name here "b") (.int here 1)])
    let ts : List Token := kinds.map (⟨·, here⟩)
    Parser.expr here ts = .ok e (ts.drop 16) ∧
    ∃ taken, ts = taken ++ ts.drop 16 ∧ bare (taken.map Token.kind) = e.yield ∧
      (∀ op : BinaryOp, Parser.next (ts.drop 16) ≠ some (.symbol op.symbol)) ∧
      Parser.next (ts.drop 16) ≠ some (.symbol .lbracket) := by
  intro kinds here e ts
  have ok : Parser.expr here ts = .ok e (ts.drop 16) := by with_unfolding_all rfl
  exact ⟨ok, expr_yield ok⟩

end Treewalk
