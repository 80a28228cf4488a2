import Treewalk.Proofs.Parsing.Soundness
import Treewalk.Proofs.Parsing.Groups

/-! # Reading written programs -/

namespace Treewalk.Parser

open Token (Kind)

variable {n : Nat} {follow : Option Kind → Prop}

/-! ## Functions -/

theorem acts_paramStep {p : Param} (wf : p.ty.WellFormed) (acc : List Param) :
    Acts n (paramStep ⟨acc, []⟩) p.tokens AtComma (id · = id p)
      fun p' => do return (⟨acc ++ [p'], []⟩, ← eat .comma) := by
  refine (acts_paramStep_type wf).with (⟨p.name, ·⟩) ?_ fun _ => rfl
  rintro _ rfl
  rfl

theorem reads_params {ps : List Param} (wf : ∀ p ∈ ps, p.ty.WellFormed) :
    Reads n params (commas (ps.map Param.tokens)) (· = some (.symbol .rparen)) (· = ps) := by
  refine Acts.last (Acts.commas (fun ps => ParamList.mk ps []) id
    (fun p mem => acts_paramStep (wf p mem)) (fun acc => reads_paramStep_end _) []) ?_
    fun _ same => same
  rintro _ ⟨_, ⟨ps', like, rfl⟩, rfl⟩
  exact .pure (by simpa using like)

theorem reads_result {ty : Option Ty} (wf : ∀ t ∈ ty, t.WellFormed) :
    Reads n result ((ty.map Ty.tokens).getD []) (· = some (.symbol .lbrace)) (· = ty) := by
  cases ty with
  | none =>
      refine Acts.look (reads_nextIs .lbrace) ?_ fun _ same => same
      rintro _ rfl
      exact .pure rfl
  | some t =>
      rw [Option.map_some, Option.getD_some, ← List.append_nil t.tokens]
      refine Acts.look (reads_nextIs_not .lbrace) ?_ fun _ begins =>
        begins_type begins .lbrace (by decide)
      rintro _ rfl
      refine Acts.look (reads_eat_not .lparen) ?_ fun _ begins =>
        begins_type begins .lparen (by decide)
      rintro _ rfl
      rw [List.append_nil]
      exact Acts.map (reads_type (wf t rfl)) fun _ same => congrArg some same

theorem reads_function {f : Func} (wf : f.WellFormed) :
    Reads n function f.tokens follow fun f' => f'.erase = f.erase := by
  obtain ⟨paramsWf, resultWf, bodyWf⟩ := wf
  simp only [Func.tokens, parens, List.cons_append, List.append_assoc, List.nil_append]
  refine Acts.look reads_place (fun pos _ => ?_) fun _ _ => trivial
  refine Acts.drop (reads_expectWord .func) fun _ _ => ?_
  refine Acts.drop (reads_name f.name) ?_
  rintro _ rfl
  refine Acts.drop (reads_expect .lparen) fun _ _ => ?_
  refine Acts.bind (reads_params paramsWf) ?_ fun _ same => same
  rintro _ rfl
  refine Acts.drop (reads_expect .rparen) fun _ _ => ?_
  refine Acts.bind (reads_result resultWf) ?_ fun _ same => same
  rintro _ rfl
  have near : Near n stmt stmt := fun _ _ _ => rfl
  refine Acts.map ((reads_block near fun s mem =>
    ⟨bodyWf s mem, (legibleStmt s (bodyWf s mem)).1⟩).mono (Nat.le_succ n)) fun body' like => ?_
  simpa [Func.erase, LikeBody] using like

/-! ## Source files -/

theorem reads_item {i : Item} (wf : i.WellFormed) :
    Reads n item i.tokens AtSemicolon fun i' => i'.erase = i.erase := by
  cases i with
  | func f =>
      refine Acts.look reads_peek ?_ fun _ same => same
      rintro _ rfl
      refine Acts.map (reads_function wf) fun f' like => ?_
      simpa [Item.erase] using like
  | stmt s =>
      obtain ⟨shape, wf⟩ := wf
      cases s with
      | var pos x ty init =>
          refine Acts.look reads_peek ?_ (by rw [Item.tokens, Stmt.tokens]; exact fun _ same => same)
          rintro _ rfl
          exact Acts.map (reads_varDecl wf) fun s' like => congrArg Item.stmt like
      | const pos x ty value =>
          refine Acts.look reads_peek ?_ (by rw [Item.tokens, Stmt.tokens]; exact fun _ same => same)
          rintro _ rfl
          exact Acts.map (reads_constDecl wf) fun s' like => congrArg Item.stmt like
      | _ => exact shape.elim

/-- An item starts with a reserved word of its own. -/
theorem begins_item {i : Item} (wf : i.WellFormed) {ks : List Kind} {k : Option Kind}
    (begins : Begins (i.tokens ++ ks) follow k) :
    ∃ w, k = some (.keyword w) ∧ w ≠ .import_ := by
  cases i with
  | func f => exact ⟨_, begins, by decide⟩
  | stmt s =>
      obtain ⟨shape, _⟩ := wf
      rw [Item.tokens] at begins
      cases s with
      | var | const =>
          rw [Stmt.tokens] at begins
          exact ⟨_, begins, by decide⟩
      | _ => exact shape.elim

theorem reads_itemStep {i : Item} (wf : i.WellFormed) (acc : List Item) :
    Reads n (itemStep acc) (i.tokens ++ [.symbol .semicolon]) follow
      fun r => r.2 = true ∧ Adds Item.erase acc i r.1 := by
  refine Acts.look reads_peek (fun k begins => ?_) fun _ begins => begins
  obtain ⟨w, rfl, _⟩ := begins_item wf begins
  refine Acts.bind (reads_item wf) (fun i' like => ?_) fun _ same => same
  exact Acts.map (reads_terminator none) fun _ _ => ⟨rfl, i', like, rfl⟩

theorem reads_items {is : List Item} (wf : ∀ i ∈ is, i.WellFormed) :
    Reads n (loop itemStep []) (is.flatMap fun i => i.tokens ++ [.symbol .semicolon])
      (· = none) fun all => all.map Item.erase = is.map Item.erase := by
  have stop : ∀ acc, Reads n (loop itemStep acc) [] (· = none) (· = acc) := by
    intro acc
    refine Acts.done (Acts.look reads_peek ?_ fun _ same => same)
    rintro _ rfl
    exact .pure ⟨rfl, rfl⟩
  have each := Acts.each Item.erase (fun i mem => ⟨by simp, reads_itemStep (wf i mem)⟩) stop []
  rw [List.append_nil] at each
  refine each.imp (fun _ same => same) ?_
  rintro _ ⟨is', like, rfl⟩
  exact like

theorem reads_importStep (path : String) (acc : List String) :
    Reads n (importStep acc) [.keyword .import_, .str path, .symbol .semicolon] follow
      fun r => r.2 = true ∧ Adds id acc path r.1 := by
  refine Acts.look reads_peek ?_ fun _ same => same
  rintro _ rfl
  refine Acts.drop reads_advance fun _ _ => ?_
  refine Acts.look (reads_eat_not .lparen) ?_ (by rintro _ rfl; simp)
  rintro _ rfl
  have importPath : Reads n importPath [.str path] Anything (· = path) := by
    refine Acts.look reads_peek ?_ fun _ same => same
    rintro _ rfl
    exact Acts.drop reads_advance fun _ _ => .pure rfl
  refine Acts.drop importPath ?_
  rintro _ rfl
  exact Acts.map (reads_terminator none) fun _ _ => ⟨rfl, _, rfl, rfl⟩

theorem reads_imports (paths : List String) :
    Reads n (loop importStep [])
      (paths.flatMap fun path => [.keyword .import_, .str path, .symbol .semicolon])
      (· ≠ some (.keyword .import_)) (· = paths) := by
  have stop : ∀ acc, Reads n (loop importStep acc) [] (· ≠ some (.keyword .import_)) (· = acc) := by
    intro acc
    refine Acts.done (Acts.look reads_peek (fun k other => ?_) fun _ other => other)
    have other : k ≠ some (.keyword .import_) := other
    rw [if_neg (by simpa using other)]
    exact .pure ⟨rfl, rfl⟩
  have each := Acts.each id (fun path (_ : path ∈ paths) => ⟨by simp, reads_importStep path⟩) stop []
  rw [List.append_nil] at each
  refine each.imp (fun _ other => other) ?_
  rintro _ ⟨paths', like, rfl⟩
  simpa using like

theorem reads_program {p : Program} (wf : p.WellFormed) :
    Reads n program p.tokens (· = none) fun p' => p'.erase = p.erase := by
  refine Acts.drop (reads_expectWord .package) fun _ _ => ?_
  refine Acts.drop (reads_name p.package) ?_
  rintro _ rfl
  refine Acts.drop (reads_terminator none) fun _ _ => ?_
  refine Acts.bind (reads_imports p.imports) ?_ fun k begins => ?_
  · rintro _ rfl
    exact Acts.map (reads_items wf) fun _ like => by simpa [Program.erase] using like
  · cases all : p.items with
    | nil =>
        rw [all] at begins
        cases begins
        simp
    | cons i is =>
        rw [all, List.flatMap_cons, List.append_assoc] at begins
        obtain ⟨w, rfl, other⟩ := begins_item (wf i (by simp [all])) begins
        simpa using other

end Treewalk.Parser

namespace Treewalk

/-- A program can be read from its tokens, wherever they stand. -/
theorem Program.ofTokens_tokens {p : Program} (wf : p.WellFormed) {stream : TokenStream}
    (spelled : stream.tokens.map Token.kind = p.tokens) :
    ∃ p', Program.ofTokens stream = .ok p' ∧ p'.erase = p.erase := by
  obtain ⟨p', like, same⟩ := Parser.reads_program wf stream.stop stream.tokens [] spelled rfl
    (Nat.le_refl _)
  rw [List.append_nil] at same
  exact ⟨p', by simp [Program.ofTokens, same, pure], like⟩

/-- The programs of the grammar that declare only plain names before a condition are
    those that can be read, and each is read back from its own tokens up to places. -/
theorem parse_undoes_print (p : Program) :
    (p.WellFormed → ∀ stream : TokenStream, stream.tokens.map Token.kind = p.tokens →
      ∃ q, Program.ofTokens stream = .ok q ∧ q.erase = p.erase) ∧
    ∀ stream, Program.ofTokens stream = .ok p →
      p.WellFormed ∧ ∀ again : TokenStream, again.tokens.map Token.kind = p.tokens →
        ∃ q, Program.ofTokens again = .ok q ∧ q.erase = p.erase := by
  refine ⟨fun wf stream spelled => Program.ofTokens_tokens wf spelled, fun stream read => ?_⟩
  have wf := Program.wellFormed_of_ofTokens read
  exact ⟨wf, fun again spelled => Program.ofTokens_tokens wf spelled⟩

/-- A file with one declaration, `var x = (a || b) && c < 1 - (2 - 3) * -4`. -/
def everyPrecedence : Program :=
  let join op l r := Expr.binary ⟨1, 1⟩ op l r
  let int n := Expr.int ⟨1, 1⟩ n
  let name x := Expr.name ⟨1, 1⟩ x
  let product := join (.arith .mul) (join (.arith .sub) (int 2) (int 3)) (.unary ⟨1, 1⟩ .neg (int 4))
  let value := join (.logic .and) (join (.logic .or) (name "a") (name "b"))
    (join (.compare .lt) (name "c") (join (.arith .sub) (int 1) product))
  ⟨"main", [], [.stmt (.var ⟨1, 1⟩ "x" none (some value))]⟩

/-- Only the disjunction and the difference in front of a product need parentheses. -/
theorem parse_undoes_print_everyPrecedence :
    everyPrecedence.WellFormed ∧
    everyPrecedence.tokens =
      [.keyword .package, .name "main", .symbol .semicolon,
       .keyword .var, .name "x", .symbol .assign,
       .symbol .lparen, .name "a", .symbol .orOr, .name "b", .symbol .rparen, .symbol .andAnd,
       .name "c", .symbol .less, .int 1, .symbol .minus,
       .symbol .lparen, .int 2, .symbol .minus, .int 3, .symbol .rparen, .symbol .star,
       .symbol .minus, .int 4, .symbol .semicolon] ∧
    ∃ q, Program.ofTokens ⟨everyPrecedence.tokens.map (⟨·, ⟨1, 1⟩⟩), ⟨1, 1⟩⟩ = .ok q ∧
      q.erase = everyPrecedence.erase ∧ q.WellFormed := by
  have wf : everyPrecedence.WellFormed := by
    simp [everyPrecedence, Program.WellFormed, Program.Shaped, Item.Shaped, Stmt.IsDeclaration,
      Stmt.Shaped, Expr.WellFormed, IsPlainName]
  refine ⟨wf, ?_, ?_⟩
  · simp [everyPrecedence, Program.tokens, Item.tokens, Stmt.tokens, Stmt.declaredTokens,
      Expr.tokens, Expr.enclosed, Expr.level, BinaryOp.precedence, BinaryOp.symbol, UnaryOp.symbol,
      parens]
  · obtain ⟨q, read, like⟩ := (parse_undoes_print everyPrecedence).1 wf
      ⟨everyPrecedence.tokens.map (⟨·, ⟨1, 1⟩⟩), ⟨1, 1⟩⟩ (by simp [Function.comp_def])
    exact ⟨q, read, like, ((parse_undoes_print q).2 _ read).1⟩

/-- A file with one function that does `if true := 1; 1 {}`. -/
def trueBeforeCondition : Program :=
  let declaration := Stmt.var ⟨1, 1⟩ "true" none (some (.int ⟨1, 1⟩ 1))
  ⟨"main", [], [.func ⟨⟨1, 1⟩, "main", [], none,
    [.if_ ⟨1, 1⟩ (some declaration) (.int ⟨1, 1⟩ 1) [] none]⟩]⟩

/-- Before a condition, `true` is no name that can be declared: where it stands alone it
    is an expression. -/
theorem true_not_declared_before_condition :
    trueBeforeCondition.Shaped (fun _ => True) ∧
    ∀ q, Program.ofTokens ⟨trueBeforeCondition.tokens.map (⟨·, ⟨1, 1⟩⟩), ⟨1, 1⟩⟩ ≠ .ok q := by
  have tokens : trueBeforeCondition.tokens =
      [.keyword .package, .name "main", .symbol .semicolon,
       .keyword .func, .name "main", .symbol .lparen, .symbol .rparen, .symbol .lbrace,
       .keyword .if_, .name "true", .symbol .define, .int 1, .symbol .semicolon, .int 1,
       .symbol .lbrace, .symbol .rbrace, .symbol .semicolon, .symbol .rbrace,
       .symbol .semicolon] := by
    simp [trueBeforeCondition, Program.tokens, Item.tokens, Func.tokens, Stmt.tokens,
      Stmt.initTokens, Stmt.headTokens, Stmt.elseTokens, Stmt.braces, Expr.tokens, parens, commas]
  constructor
  · simp [trueBeforeCondition, Program.Shaped, Item.Shaped, Func.Shaped, Stmt.Shaped, Stmt.IsHead,
      Expr.WellFormed]
  · intro q read
    have refused : (Program.ofTokens
        ⟨trueBeforeCondition.tokens.map (⟨·, ⟨1, 1⟩⟩), ⟨1, 1⟩⟩).isOk = false := by
      rw [tokens]
      decide +kernel
    rw [read] at refused
    cases refused

end Treewalk
