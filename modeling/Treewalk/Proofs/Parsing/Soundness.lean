import Treewalk.Proofs.Parsing.Derivations
import Treewalk.Proofs.Parsing.Expressions

/-! # Parsers read trees from their tokens

For each parser one lemma: the tree that it gives is derived from the tokens that it
took. An expression is read as far as it goes.
-/

namespace Treewalk.Parser

open Token (Kind)

variable {all ts : List Token} {stop : Pos}

theorem parses_type : Parses all stop type ts fun ty rest => ty.Derives ts rest := by
  apply Parses.fix
  intro inner ts hi
  apply Parses.place
  intro pos at_ known
  apply Parses.peek
  split
  · next bracket =>
      apply Parses.advance bracket
      rintro bracket ts rfl opened
      apply Parses.peek
      split
      · next n here =>
          split
          · next least =>
              apply Parses.advance here
              rintro len ts rfl length
              apply Parses.expect
              rintro close ts rfl closed
              have fewer : ts.length < ts.length + 3 := Nat.lt_add_of_pos_right (by decide)
              apply (hi ts fewer).bind
              intro elem rest _ elements
              exact .pure (.array opened length least closed elements)
          · exact .unexpected
      · exact .unexpected
  · next x here =>
      apply Parses.advance here
      rintro t rest rfl named
      split
      · next ty type => exact .pure (.named named type)
      · exact .failAt known trivial
  · exact .unexpected

/-! ## Expressions -/

/-- Behind operands that are joined by operators from a level on: no element
    access, and no operator of these levels. -/
def Past (level : Nat) (k : Option Kind) : Prop :=
  k ≠ some (.symbol .lbracket) ∧ ∀ op, k.bind binaryOp? = some op → op.level < level

section Expressions

variable {n : Nat} {inner : Parser Expr} (hi : ∀ ts : List Token, ts.length < n →
  Parses all stop inner ts fun e rest => e.Derives ts rest ∧ Past 1 (next rest))
include hi

theorem parses_argsStep {start : List Token} (short : ts.length < n) (es : List Expr)
    (before : (Expr.Phrase.begun es).Derives start ts) :
    Parses all stop (argsStep inner es) ts
      (Parses.Stepped (fun es rest => (Expr.Phrase.begun es).Derives start rest)
        (fun es rest => (Expr.Phrase.args es).Derives start rest) ts) := by
  apply Parses.nextIs
  · exact fun _ => .pure (.ended before)
  · intro _
    apply (hi ts short).bind
    rintro e mid _ ⟨arg, _⟩
    apply Parses.eat
    · rintro comma rest rfl parted
      exact .pure ⟨.more before arg parted, Nat.lt_of_succ_lt arg.length_lt⟩
    · exact fun _ => .pure (.last before arg)

theorem parses_args (short : ts.length ≤ n) :
    Parses all stop (args inner) ts fun es rest => ∃ paren mid close,
      ts = paren :: mid ∧ paren.kind = .symbol .lparen ∧
      (Expr.Phrase.args es).Derives mid (close :: rest) ∧ close.kind = .symbol .rparen := by
  apply Parses.expect
  rintro paren start rfl opened
  have listed : Parses all stop (loop (argsStep inner) []) start
      fun es rest => (Expr.Phrase.args es).Derives start rest := by
    refine Parses.loop (I := fun es rest => (Expr.Phrase.begun es).Derives start rest) ?_ .start
    intro es mid suffix before
    exact parses_argsStep hi (Nat.lt_of_le_of_lt suffix.length_le short) es before
  apply listed.bind
  intro es mid _ listed
  apply Parses.expect
  rintro close rest rfl closed
  exact .pure ⟨paren, start, close, rfl, opened, listed, closed⟩

theorem parses_packageCall {package : Token} {x : String} (short : ts.length < n)
    (named : package.kind = .name x) :
    Parses all stop (packageCall inner package.pos x) ts
      fun e rest => e.Derives (package :: ts) rest := by
  apply Parses.expect
  rintro dot ts rfl dotted
  apply Parses.place
  intro memberPos _ known
  apply Parses.name
  rintro member ts y rfl chosen
  split
  · exact .failAt known trivial
  · next style style_ =>
      apply Parses.nextIs
      · intro _
        rw [List.length_cons, List.length_cons] at short
        apply (parses_args hi (by omega)).bind
        rintro es rest _ ⟨paren, ts, close, rfl, opened, args, closed⟩
        exact .pure (.print named dotted chosen style_ opened args closed)
      · exact fun _ => .unexpected

theorem parses_callOrConversion {callee : Token} {x : String} (short : ts.length < n)
    (named : callee.kind = .name x) (known : Known all stop callee.pos) :
    Parses all stop (callOrConversion inner callee.pos x) ts
      fun e rest => e.Derives (callee :: ts) rest := by
  apply (parses_args hi (Nat.le_of_lt short)).bind
  rintro es rest _ ⟨paren, ts, close, rfl, opened, args, closed⟩
  split
  · next other => exact .pure (.call named other opened args closed)
  · next ty e type => exact .pure (.convert named type opened args closed)
  · exact .failAt known trivial

theorem parses_primary (short : ts.length ≤ n) :
    Parses all stop (primary inner) ts fun e rest => e.Derives ts rest := by
  apply Parses.place
  intro pos at_ known
  apply Parses.peek
  cases here : next ts with
  | none => exact .unexpected
  | some k =>
      cases k with
      | int n =>
          apply Parses.advance here
          rintro t rest rfl kind
          obtain rfl := at_ t rest rfl
          exact .pure (.int kind)
      | float x =>
          apply Parses.advance here
          rintro t rest rfl kind
          obtain rfl := at_ t rest rfl
          exact .pure (.float kind)
      | str s =>
          apply Parses.advance here
          rintro t rest rfl kind
          obtain rfl := at_ t rest rfl
          exact .pure (.str kind)
      | name x =>
          apply Parses.advance here
          rintro t ts rfl kind
          obtain rfl := at_ t ts rfl
          apply Parses.nextIs
          · exact fun _ => parses_packageCall hi short kind
          · intro _
            apply Parses.nextIs
            · exact fun _ => parses_callOrConversion hi short kind known
            · exact fun _ => .pure (.name kind)
      | keyword => exact .unexpected
      | symbol s =>
          cases s with
          | lparen =>
              apply Parses.advance here
              rintro paren ts rfl opened
              apply (hi ts short).bind
              rintro e mid _ ⟨inside, _⟩
              apply Parses.expect
              rintro close rest rfl closed
              exact .pure (.parens opened inside closed)
          | _ => exact .unexpected

theorem parses_element (short : ts.length ≤ n) :
    Parses all stop (element inner) ts
      fun e rest => e.Derives ts rest ∧ next rest ≠ some (.symbol .lbracket) := by
  apply (parses_primary hi short).bind
  intro e mid suffix first
  refine Parses.loop (I := fun e rest => Expr.Derives ts e rest) ?_ first
  intro array mid' suffix' before
  apply Parses.eat
  · rintro bracket mid'' rfl opened
    have fewer : mid''.length < n :=
      Nat.lt_of_lt_of_le (suffix'.trans suffix).length_le short
    apply (hi mid'' fewer).bind
    rintro i last _ ⟨inside, _⟩
    apply Parses.expect
    rintro close rest rfl closed
    refine .pure ⟨.index before opened inside closed, ?_⟩
    exact Nat.lt_succ_of_lt (Nat.lt_of_succ_lt inside.length_lt)
  · exact fun other => .pure ⟨before, other⟩

/-- The tokens in front of `mid` are these signs: what they stand before is signed. -/
def Signs (start : List Token) (signs : List (Pos × UnaryOp)) (mid : List Token) : Prop :=
  ∀ (e : Expr) (rest : List Token), e.Derives mid rest →
    Expr.Derives start (signs.foldr (fun (pos, op) e => .unary pos op e) e) rest

omit hi in
theorem parses_signStep {start : List Token} (signs : List (Pos × UnaryOp))
    (before : Signs start signs ts) :
    Parses all stop (signStep signs) ts (Parses.Stepped (Signs start) (Signs start) ts) := by
  apply Parses.place
  intro pos at_ known
  apply Parses.peek
  split
  · next op here =>
      obtain ⟨k, here, sign⟩ := Option.bind_eq_some_iff.mp here
      apply Parses.advance here
      rintro t rest rfl rfl
      obtain rfl := at_ t rest rfl
      refine .pure ⟨?_, Nat.lt_succ_self _⟩
      intro e rest operand
      rw [List.foldr_append]
      exact before _ _ (.unary sign operand)
  · exact .pure before

theorem parses_signed (short : ts.length ≤ n) :
    Parses all stop (signed inner) ts fun e rest => e.Derives ts rest ∧ Past 6 (next rest) := by
  have signs : Parses all stop (loop signStep []) ts (Signs ts) :=
    Parses.loop (fun signs mid _ before => parses_signStep signs before) fun _ _ derived => derived
  apply signs.bind
  intro signs mid suffix before
  apply (parses_element hi (Nat.le_trans suffix.length_le short)).bind
  rintro e rest _ ⟨operand, other⟩
  exact .pure ⟨before e rest operand, other, fun op _ => Nat.lt_succ_of_le (level_binary op).2⟩

omit hi in
theorem parses_joined {operand : Parser Expr} {level : Nat}
    (ho : ∀ ts : List Token, ts.length ≤ n → Parses all stop operand ts
      fun e rest => e.Derives ts rest ∧ Past (level + 1) (next rest)) (ts : List Token)
    (short : ts.length ≤ n) :
    Parses all stop (joined level operand) ts
      fun e rest => e.Derives ts rest ∧ Past level (next rest) := by
  apply (ho ts short).bind
  intro e mid suffix first
  refine Parses.loop (I := fun e rest => Expr.Derives ts e rest ∧ Past (level + 1) (next rest)) ?_
    first
  rintro left mid' suffix' ⟨before, past⟩
  apply Parses.place
  intro pos at_ _
  apply Parses.peek
  split
  · next op known =>
      obtain ⟨k, here, sign⟩ := Option.bind_eq_some_iff.mp (Option.filter_eq_some_iff.mp known).1
      apply Parses.advance here
      rintro t mid'' rfl rfl
      obtain rfl := at_ t mid'' rfl
      have fewer : mid''.length ≤ n :=
        Nat.le_of_succ_le (Nat.le_trans (suffix'.trans suffix).length_le short)
      apply (ho mid'' fewer).bind
      rintro right rest _ ⟨derived, past⟩
      refine .pure ⟨⟨.binary before sign derived, past⟩, ?_⟩
      exact Nat.lt_succ_of_lt derived.length_lt
  · next none =>
      refine .pure ⟨before, past.1, ?_⟩
      intro op known
      have below := past.2 op known
      have other : op.level ≠ level := by simpa [known] using none
      omega

end Expressions

/-- An expression is read from its tokens, up to one that cannot go on with it. -/
theorem parses_expr :
    Parses all stop expr ts fun e rest => e.Derives ts rest ∧ Past 1 (next rest) := by
  apply Parses.fix (Q := fun ts e rest => Expr.Derives ts e rest ∧ Past 1 (next rest))
  intro inner ts hi
  refine parses_joined ?_ ts (Nat.le_refl _)
  refine parses_joined ?_
  refine parses_joined ?_
  refine parses_joined ?_
  refine parses_joined ?_
  exact fun ts short => parses_signed hi short

/-! ## Statements -/

theorem parses_declaredType : Parses all stop declaredType ts fun ty rest =>
    Ty.Declared ts ty rest ∧ (ty = none → next rest = some (.symbol .assign)) := by
  apply Parses.nextIs
  · exact fun here => .pure ⟨.absent, fun _ => here⟩
  · intro _
    apply parses_type.bind
    intro ty rest _ type
    exact .pure ⟨.given type, nofun⟩

theorem parses_varDecl : Parses all stop varDecl ts fun st rest => Stmt.Declaration ts st rest := by
  apply Parses.place
  intro pos at_ _
  apply Parses.expectWord
  rintro word ts rfl here
  obtain rfl := at_ word ts rfl
  apply Parses.name
  rintro named ts x rfl name
  apply parses_declaredType.bind
  rintro ty mid _ ⟨type, absent⟩
  apply Parses.eat
  · rintro eq mid rfl given
    apply parses_expr.bind
    rintro e rest _ ⟨value, _⟩
    exact .pure (.var here name type given value)
  · intro other
    cases type with
    | absent => exact absurd (absent rfl) other
    | given type => exact .pure (.typed here name type)

theorem parses_constDecl :
    Parses all stop constDecl ts fun st rest => Stmt.Declaration ts st rest := by
  apply Parses.place
  intro pos at_ _
  apply Parses.expectWord
  rintro word ts rfl here
  obtain rfl := at_ word ts rfl
  apply Parses.name
  rintro named ts x rfl name
  apply parses_declaredType.bind
  rintro ty mid _ ⟨type, _⟩
  apply Parses.expect
  rintro eq mid rfl given
  apply parses_expr.bind
  rintro e rest _ ⟨value, _⟩
  exact .pure (.const here name type given value)

theorem parses_simpleTail {t : Token} {start : List Token} {left : Expr}
    (first : left.Derives (t :: start) ts) :
    Parses all stop (simpleTail t.pos left) ts
      fun st rest => Stmt.Simple (t :: start) st rest := by
  apply Parses.place
  intro opPos _ known
  apply Parses.peek
  split
  · next here =>
      apply Parses.advance here
      rintro sign rest rfl stepped
      exact .pure (.bump true first stepped)
  · next here =>
      apply Parses.advance here
      rintro sign rest rfl stepped
      exact .pure (.bump false first stepped)
  · next here =>
      apply Parses.advance here
      rintro sign mid rfl defined
      split
      · apply parses_expr.bind
        rintro e rest _ ⟨value, _⟩
        exact .pure (.define first defined value)
      · exact .failAt known trivial
  · split
    · next op here =>
        obtain ⟨k, here, assigned⟩ := Option.bind_eq_some_iff.mp here
        apply Parses.advance here
        rintro sign mid rfl rfl
        apply parses_expr.bind
        rintro e rest _ ⟨value, _⟩
        exact .pure (.assign first assigned value)
    · exact .pure (.expr first)

theorem parses_simple : Parses all stop simple ts fun st rest => Stmt.Simple ts st rest := by
  apply Parses.place
  intro pos at_ _
  apply parses_expr.bind
  rintro left mid _ ⟨first, _⟩
  obtain ⟨t, start, rfl⟩ := List.exists_cons_of_length_pos (Nat.zero_lt_of_lt first.length_lt)
  obtain rfl := at_ t start rfl
  exact parses_simpleTail first

/-- The places of trees are places to fail at. -/
theorem known_of_shows {rest : List Token} {places : List Pos} {pos : Pos} (last : ts <:+ all)
    (h : Shows ts rest places) (member : pos ∈ places) : Known all stop pos := by
  obtain ⟨taken, rfl, seen⟩ := h
  have taken_all : taken ⊆ all :=
    List.Subset.trans (List.subset_append_left taken rest) last.subset
  exact List.mem_append_left _ (List.map_subset Token.pos taken_all (seen member))

theorem parses_condition : Parses all stop condition ts fun tested rest =>
    Stmt.Condition ts tested.1 tested.2 rest := by
  apply Parses.within
  intro last
  apply parses_simple.bind
  intro st mid _ first
  apply Parses.eat
  · rintro semicolon mid rfl parted
    apply parses_expr.bind
    rintro e rest _ ⟨value, _⟩
    exact .pure (.after first parted value)
  · intro _
    cases st with
    | expr pos e => exact .pure (Stmt.Condition.plain first)
    | _ =>
        exact .failAt (known_of_shows last first.shows (Stmt.pos_mem_places _)) trivial

section Blocks

variable {n : Nat} {inner : Parser Stmt} (hi : ∀ ts : List Token, ts.length < n →
  Parses all stop inner ts fun st rest => st.Derives ts rest)
include hi

theorem parses_blockStep {start : List Token} (short : ts.length < n) (body : List Stmt)
    (before : (Stmt.Phrase.begun body).Derives start ts) :
    Parses all stop (blockStep inner body) ts
      (Parses.Stepped (fun body rest => (Stmt.Phrase.begun body).Derives start rest)
        (fun body rest => ∃ empty close, (Stmt.Phrase.begun body).Derives start
          (empty ++ close :: rest) ∧ (∀ t ∈ empty, t.kind = .symbol .semicolon) ∧
          close.kind = .symbol .rbrace) ts) := by
  apply Parses.skipSemicolons
  rintro empty mid rfl empties
  rw [List.length_append] at short
  apply Parses.eat
  · rintro close rest rfl closed
    exact .pure ⟨empty, close, before, empties, closed⟩
  · intro _
    apply (hi mid (by omega)).bind
    intro st last _ next
    apply Parses.terminator
    intro rest terminated
    refine .pure ⟨.more before empties next terminated, ?_⟩
    have behind := Nat.lt_of_le_of_lt terminated.suffix.length_le next.length_lt
    rw [List.length_append]
    omega

theorem parses_block (short : ts.length ≤ n) : Parses all stop (block inner) ts fun body rest =>
    ∃ brace mid, ts = brace :: mid ∧ (Stmt.Phrase.block brace.pos body).Derives ts rest := by
  apply Parses.expect
  rintro brace start rfl opened
  have inside : Parses all stop (loop (blockStep inner) []) start fun body rest =>
      ∃ empty close, (Stmt.Phrase.begun body).Derives start (empty ++ close :: rest) ∧
        (∀ t ∈ empty, t.kind = .symbol .semicolon) ∧ close.kind = .symbol .rbrace := by
    refine Parses.loop (I := fun body rest => (Stmt.Phrase.begun body).Derives start rest) ?_ .start
    intro body mid suffix before
    exact parses_blockStep hi (Nat.lt_of_le_of_lt suffix.length_le short) body before
  apply inside.imp
  rintro body rest ⟨empty, close, before, empties, closed⟩
  exact ⟨brace, start, rfl, .block opened before empties closed⟩

theorem parses_alternative (short : ts.length ≤ n) : Parses all stop (alternative inner) ts
    fun orelse rest => (Stmt.Phrase.alternative orelse).Derives ts rest := by
  apply Parses.peek
  split
  · next here =>
      apply Parses.advance (beq_iff_eq.mp here)
      rintro word ts rfl isElse
      apply Parses.place
      intro pos at_ _
      apply Parses.peek
      split
      · next again =>
          apply (hi ts short).bind
          intro st rest _ tested
          cases ts with
          | nil => cases again
          | cons nested ts =>
              exact .pure (.elseIf isElse (Option.some.inj (beq_iff_eq.mp again)) tested)
      · apply (parses_block hi (Nat.le_of_lt short)).bind
        rintro body rest _ ⟨brace, ts, rfl, block⟩
        obtain rfl := at_ brace ts rfl
        exact .pure (.else_ isElse block)
  · exact .pure .noElse

theorem parses_stmtBody (short : ts.length ≤ n) :
    Parses all stop (stmtBody inner) ts fun st rest => st.Derives ts rest := by
  apply Parses.place
  intro pos at_ _
  apply Parses.peek
  split
  · exact parses_varDecl.imp fun _ _ declared => .declaration declared
  · exact parses_constDecl.imp fun _ _ declared => .declaration declared
  · next here =>
      apply Parses.advance here
      rintro word ts rfl isIf
      obtain rfl := at_ word ts rfl
      apply parses_condition.bind
      rintro ⟨init, cond⟩ mid suffix tested
      have fewer : mid.length ≤ n := Nat.le_of_lt (Nat.lt_of_le_of_lt suffix.length_le short)
      apply (parses_block hi fewer).bind
      rintro body last suffix' ⟨_, _, _, then_⟩
      apply (parses_alternative hi (Nat.le_trans suffix'.length_le fewer)).bind
      intro orelse rest _ otherwise
      exact .pure (.if_ isIf tested then_ otherwise)
  · apply (parses_block hi short).bind
    rintro body rest _ ⟨brace, ts, rfl, block⟩
    obtain rfl := at_ brace ts rfl
    exact .pure (.inner block)
  · next here =>
      apply Parses.advance here
      rintro word ts rfl isReturn
      obtain rfl := at_ word ts rfl
      apply Parses.nextIs
      · intro _
        apply Parses.nextIs
        · exact fun _ => .pure (.return_ isReturn)
        · exact fun _ => .pure (.return_ isReturn)
      · intro _
        apply Parses.nextIs
        · exact fun _ => .pure (.return_ isReturn)
        · intro _
          apply parses_expr.bind
          rintro e rest _ ⟨value, _⟩
          exact .pure (.returnValue isReturn value)
  · exact parses_simple.imp fun _ _ simple => .simple simple

end Blocks

theorem parses_stmt : Parses all stop stmt ts fun st rest => st.Derives ts rest := by
  apply Parses.fix
  intro inner ts hi
  exact parses_stmtBody hi (Nat.le_refl _)

/-! ## Source files -/

theorem parses_paramStep (ps : ParamList) (wf : ∀ p ∈ ps.done, p.ty.WellFormed) :
    Parses all stop (paramStep ps) ts
      (Parses.Stepped (fun ps _ => ∀ p ∈ ps.done, p.ty.WellFormed)
        (fun ps _ => ∀ p ∈ ps.done, p.ty.WellFormed) ts) := by
  apply Parses.nextIs
  · exact fun _ => .pure wf
  · intro _
    apply Parses.name
    rintro named ts x rfl _
    apply Parses.eat
    · rintro comma rest rfl _
      exact .pure ⟨wf, Nat.lt_succ_of_lt (Nat.lt_succ_self _)⟩
    · intro _
      apply parses_type.bind
      intro ty mid suffix type
      have wf' : ∀ p ∈ ps.done ++ (ps.waiting ++ [x]).map (Param.mk · ty), p.ty.WellFormed :=
        List.forall_mem_append.mpr ⟨wf, List.forall_mem_map.mpr fun _ _ => type.wellFormed⟩
      apply Parses.eat
      · rintro comma rest rfl _
        exact .pure ⟨wf', Nat.lt_succ_of_le (Nat.le_of_succ_le suffix.length_le)⟩
      · exact fun _ => .pure wf'

theorem parses_params :
    Parses all stop params ts fun ps _ => ∀ p ∈ ps, p.ty.WellFormed := by
  have listed : Parses all stop (loop paramStep ⟨[], []⟩) ts
      fun ps _ => ∀ p ∈ ps.done, p.ty.WellFormed :=
    Parses.loop (fun ps _ _ wf => parses_paramStep ps wf) nofun
  apply listed.bind
  intro ps rest _ wf
  split
  · exact .pure wf
  · exact .unexpected

theorem parses_result : Parses all stop result ts fun ty _ => ∀ t ∈ ty, t.WellFormed := by
  have some {ty : Ty} (wf : ty.WellFormed) : ∀ t ∈ some ty, t.WellFormed := by
    rintro _ ⟨⟩
    exact wf
  apply Parses.nextIs
  · exact fun _ => .pure nofun
  · intro _
    apply Parses.eat
    · rintro paren ts rfl _
      apply parses_type.bind
      intro ty mid _ type
      apply Parses.expect
      exact fun _ _ _ _ => .pure (some type.wellFormed)
    · intro _
      apply parses_type.bind
      exact fun ty rest _ type => .pure (some type.wellFormed)

theorem parses_function : Parses all stop function ts fun f rest =>
    f.WellFormed ∧ Shows ts rest f.places := by
  apply Parses.place
  intro pos at_ _
  apply Parses.expectWord
  rintro word ts rfl _
  obtain rfl := at_ word ts rfl
  apply Parses.name
  rintro named ts x rfl _
  apply Parses.expect
  rintro paren ts rfl _
  apply parses_params.bind
  intro ps mid suffix params
  apply Parses.expect
  rintro close mid rfl _
  apply parses_result.bind
  intro res last suffix' result
  apply (parses_block (fun _ _ => parses_stmt) (Nat.le_refl _)).bind
  rintro body rest _ ⟨brace, _, _, block⟩
  refine .pure ⟨⟨params, result, block.wellFormed⟩, ?_⟩
  have shown := (block.shows.mono (List.subset_cons_self _ _)).behind suffix'
  exact (shown.after.behind suffix).after.after.cons

theorem parses_importPath :
    Parses all stop importPath ts fun _ rest => ∃ t, ts = t :: rest ∧ True := by
  apply Parses.peek
  split
  · next path here =>
      apply Parses.advance here
      exact fun t rest same _ => .pure ⟨t, same, trivial⟩
  · exact .unexpected

theorem parses_importListStep (paths : List String) : Parses all stop (importListStep paths) ts
    (Parses.Stepped (fun _ _ => True) (fun _ _ => True) ts) := by
  apply Parses.nextIs
  · exact fun _ => .pure trivial
  · intro _
    apply parses_importPath.token
    rintro t ts path rfl _
    apply Parses.terminator
    intro rest terminated
    exact .pure ⟨trivial, Nat.lt_succ_of_le terminated.suffix.length_le⟩

theorem parses_importStep (paths : List String) : Parses all stop (importStep paths) ts
    (Parses.Stepped (fun _ _ => True) (fun _ _ => True) ts) := by
  apply Parses.peek
  split
  · next here =>
      apply Parses.advance (beq_iff_eq.mp here)
      rintro word ts rfl _
      apply Parses.eat
      · rintro paren ts rfl _
        have listed : Parses all stop (loop importListStep []) ts fun _ _ => True :=
          Parses.loop (fun paths _ _ _ => parses_importListStep paths) trivial
        apply listed.bind
        intro more mid suffix _
        apply Parses.expect
        rintro close mid rfl _
        apply Parses.terminator
        intro rest terminated
        have behind := Nat.le_trans terminated.suffix.length_le (Nat.le_of_succ_le suffix.length_le)
        exact .pure ⟨trivial, Nat.lt_succ_of_lt (Nat.lt_succ_of_le behind)⟩
      · intro _
        apply parses_importPath.token
        rintro t ts path rfl _
        apply Parses.terminator
        intro rest terminated
        exact .pure ⟨trivial, Nat.lt_succ_of_lt (Nat.lt_succ_of_le terminated.suffix.length_le)⟩
  · exact .pure trivial

theorem parses_item : Parses all stop item ts fun i rest =>
    i.WellFormed ∧ Shows ts rest i.places ∧ rest.length < ts.length := by
  apply Parses.peek
  split
  · apply parses_function.bind
    rintro f rest _ ⟨wf, shown⟩
    exact .pure ⟨wf, shown, shown.length_lt List.mem_cons_self⟩
  · apply parses_varDecl.bind
    rintro st rest _ declared
    exact .pure ⟨declared.wellFormed, declared.shows, declared.shows.length_lt st.pos_mem_places⟩
  · apply parses_constDecl.bind
    rintro st rest _ declared
    exact .pure ⟨declared.wellFormed, declared.shows, declared.shows.length_lt st.pos_mem_places⟩
  · exact .unexpected

/-- The tokens in front of `mid` are those of these items. -/
def Items (start : List Token) (items : List Item) (mid : List Token) : Prop :=
  (∀ i ∈ items, i.WellFormed) ∧ Shows start mid (items.flatMap Item.places)

theorem parses_itemStep {start : List Token} (items : List Item) (before : Items start items ts) :
    Parses all stop (itemStep items) ts (Parses.Stepped (Items start) (Items start) ts) := by
  apply Parses.peek
  split
  · exact .pure before
  · apply parses_item.bind
    rintro i mid _ ⟨wf, shown, fewer⟩
    apply Parses.terminator
    intro rest terminated
    refine .pure ⟨⟨?_, ?_⟩, Nat.lt_of_le_of_lt terminated.suffix.length_le fewer⟩
    · exact List.forall_mem_append.mpr ⟨before.1, List.forall_mem_singleton.mpr wf⟩
    · rw [List.flatMap_append, List.flatMap_singleton]
      exact before.2.append (shown.upTo terminated.suffix)

theorem parses_program : Parses all stop program ts fun p rest =>
    p.WellFormed ∧ Shows ts rest p.places ∧ rest.length < ts.length := by
  apply Parses.expectWord
  rintro word ts rfl _
  apply Parses.name
  rintro named ts package rfl _
  apply Parses.terminator
  intro start terminated
  have imported : Parses all stop (loop importStep []) start fun _ _ => True :=
    Parses.loop (fun paths _ _ _ => parses_importStep paths) trivial
  apply imported.bind
  intro imports mid suffix _
  have listed : Parses all stop (loop itemStep []) mid (Items mid) :=
    Parses.loop (fun items _ _ before => parses_itemStep items before) ⟨nofun, .nil mid⟩
  apply listed.bind
  rintro items rest suffix' ⟨wf, shown⟩
  have behind : mid <:+ ts := suffix.trans terminated.suffix
  refine .pure ⟨wf, ?_, ?_⟩
  · exact ((shown.mono fun _ => Program.mem_places.mp).behind behind).after.after
  · exact Nat.lt_succ_of_lt (Nat.lt_succ_of_le (suffix'.trans behind).length_le)

end Treewalk.Parser

namespace Treewalk

/-- Only well-formed programs can be read. -/
theorem Program.wellFormed_of_ofTokens {stream : TokenStream} {p : Program}
    (ok : Program.ofTokens stream = .ok p) : p.WellFormed := by
  unfold Program.ofTokens at ok
  split at ok
  · next read =>
      cases ok
      exact (Parser.parses_program.of_ok read).1
  · cases ok

/-- A token that an error found is one of the text. -/
theorem Program.found_mem {stream : TokenStream} {what : Expected} {k : Token.Kind} {pos : Pos}
    (failed : Program.ofTokens stream = .error ⟨.expected what (some k), pos⟩) :
    ∃ t ∈ stream.tokens, t.kind = k := by
  unfold Program.ofTokens at failed
  split at failed
  · cases failed
  · next read =>
      cases failed
      exact (Parser.parses_program.of_error read).found what k rfl

end Treewalk
