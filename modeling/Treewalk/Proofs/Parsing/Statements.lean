import Treewalk.Proofs.Parsing.Expressions

/-! # Reading written statements -/

namespace Treewalk.Parser

open Token (Kind)

variable {n : Nat} {follow : Option Kind → Prop}

/-- A statement is written before a semicolon. -/
abbrev AtSemicolon (k : Option Kind) : Prop := k = some (.symbol .semicolon)

/-- A statement before the condition of an `if`, and the condition, end here. -/
abbrev AtEnd (k : Option Kind) : Prop := AtSemicolon k ∨ k = some (.symbol .lbrace)

/-- Equal up to places. -/
def LikeStmt (s s' : Stmt) : Prop := s'.erase = s.erase

theorem reads_expr {e : Expr} (wf : e.WellFormed) : Reads n expr e.tokens (Stops 1) (Like e) :=
  (readable e wf).1 n

theorem AtEnd.stops {k : Option Kind} (h : AtEnd k) : Stops 1 k := by
  obtain rfl | rfl := h <;> decide

/-! ## Declarations -/

/-- No symbol starts a type but a bracket. -/
theorem begins_type {t : Ty} {ks : List Kind} {k : Option Kind}
    (begins : Begins (t.tokens ++ ks) follow k) (s : Symbol) (other : s ≠ .lbracket) :
    k ≠ some (.symbol s) := by
  cases t <;> cases begins <;> simp [other.symm]

theorem reads_declaredType {ty : Option Ty} (wf : ∀ t ∈ ty, t.WellFormed) :
    Reads n declaredType ((ty.map Ty.tokens).getD [])
      (fun k => ty = none → k = some (.symbol .assign)) (· = ty) := by
  cases ty with
  | none =>
      refine Acts.look (reads_nextIs .assign) ?_ fun _ same => same rfl
      rintro _ rfl
      exact .pure rfl
  | some t =>
      rw [Option.map_some, Option.getD_some, ← List.append_nil t.tokens]
      refine Acts.look (reads_nextIs_not .assign) ?_ fun _ begins =>
        begins_type begins .assign (by decide)
      rintro _ rfl
      rw [List.append_nil]
      exact Acts.map (reads_type (wf t rfl)) fun _ same => congrArg some same

theorem reads_varDecl {pos : Pos} {x : String} {ty : Option Ty} {init : Option Expr}
    (wf : (Stmt.var pos x ty init).WellFormed) :
    Reads n varDecl (Stmt.var pos x ty init).tokens AtSemicolon (LikeStmt (.var pos x ty init)) := by
  rw [Stmt.WellFormed, Stmt.Shaped] at wf
  obtain ⟨some, tyWf, initWf⟩ := wf
  rw [Stmt.tokens]
  refine Acts.look reads_place (fun pos' _ => ?_) fun _ _ => trivial
  refine Acts.drop (reads_expectWord .var) fun _ _ => ?_
  refine Acts.drop (reads_name x) ?_
  rintro _ rfl
  refine Acts.bind (reads_declaredType tyWf) ?_ ?_
  · rintro _ rfl
    cases init with
    | none =>
        refine Acts.look (reads_eat_not .assign) ?_ (by rintro _ rfl; decide)
        rintro _ rfl
        exact .pure (by simp [LikeStmt, Stmt.erase])
    | some e =>
        refine Acts.drop (reads_eat .assign) ?_
        rintro _ rfl
        refine (Acts.map (reads_expr (initWf e rfl)) fun e' like => ?_).imp
          (fun _ ends => AtEnd.stops (.inl ends)) fun _ isGood => isGood
        simpa [LikeStmt, Stmt.erase, Like] using like
  · rintro k begins rfl
    cases init with
    | none => simp at some
    | some e => exact begins

theorem reads_constDecl {pos : Pos} {x : String} {ty : Option Ty} {value : Expr}
    (wf : (Stmt.const pos x ty value).WellFormed) :
    Reads n constDecl (Stmt.const pos x ty value).tokens AtSemicolon
      (LikeStmt (.const pos x ty value)) := by
  rw [Stmt.WellFormed, Stmt.Shaped] at wf
  rw [Stmt.tokens]
  refine Acts.look reads_place (fun pos' _ => ?_) fun _ _ => trivial
  refine Acts.drop (reads_expectWord .const) fun _ _ => ?_
  refine Acts.drop (reads_name x) ?_
  rintro _ rfl
  refine Acts.bind (reads_declaredType wf.1) ?_ fun _ begins _ => begins
  rintro _ rfl
  refine Acts.drop (reads_expect .assign) fun _ _ => ?_
  refine (Acts.map (reads_expr wf.2) fun e' like => ?_).imp
    (fun _ ends => AtEnd.stops (.inl ends)) fun _ isGood => isGood
  simpa [LikeStmt, Stmt.erase, Like] using like

/-! ## Simple statements -/

/-- What follows the first expression of a statement. -/
theorem reads_simple {e : Expr} {s : Stmt} {k : Kind} {ks : List Kind} (wf : e.WellFormed)
    (stops : Stops 1 (some k))
    (h : ∀ pos e', Like e e' → Reads n (simpleTail pos e') (k :: ks) follow (LikeStmt s)) :
    Reads n simple (e.tokens ++ k :: ks) follow (LikeStmt s) := by
  refine Acts.look reads_place (fun pos _ => ?_) fun _ _ => trivial
  exact Acts.bind (reads_expr wf) (h pos) (by rintro _ rfl; exact stops)

theorem reads_expression (pos : Pos) {e : Expr} (wf : e.WellFormed) :
    Reads n simple e.tokens AtEnd (LikeStmt (.expr pos e)) := by
  refine Acts.look reads_place (fun pos' _ => ?_) fun _ _ => trivial
  refine Acts.last (reads_expr wf) (fun e' like => ?_) fun _ ends => ends.stops
  refine Acts.look reads_place (fun _ _ => ?_) fun _ _ => trivial
  refine Acts.look reads_peek ?_ fun _ ends => ends
  have same : LikeStmt (.expr pos e) (.expr pos' e') := by
    simpa [LikeStmt, Stmt.erase, Like] using like
  rintro _ (rfl | rfl)
  · exact .pure same
  · exact .pure same

theorem reads_assign {pos : Pos} {target value : Expr} {op : Option ArithOp}
    (wf : (Stmt.assign pos target op value).WellFormed) :
    Reads n simple (Stmt.assign pos target op value).tokens AtEnd
      (LikeStmt (.assign pos target op value)) := by
  rw [Stmt.WellFormed, Stmt.Shaped] at wf
  rw [Stmt.tokens]
  refine reads_simple wf.1 ?_ fun pos' target' likeT => ?_
  · obtain _ | op := op
    · decide
    · cases op <;> decide
  · refine Acts.look reads_place (fun _ _ => ?_) fun _ _ => trivial
    refine Acts.look reads_peek ?_ fun _ same => same
    rintro _ rfl
    have tail : Reads n (do return Stmt.assign pos' target' op (← expr)) value.tokens AtEnd
        (LikeStmt (.assign pos target op value)) := by
      refine (Acts.map (reads_expr wf.2) fun value' likeV => ?_).imp (fun _ ends => ends.stops)
        fun _ isGood => isGood
      simpa [LikeStmt, Stmt.erase] using ⟨likeT, likeV⟩
    obtain _ | op := op
    · exact Acts.drop reads_advance fun _ _ => tail
    · cases op <;> exact Acts.drop reads_advance fun _ _ => tail

theorem reads_bump {pos : Pos} {target : Expr} {up : Bool}
    (wf : (Stmt.bump pos target up).WellFormed) :
    Reads n simple (Stmt.bump pos target up).tokens AtEnd (LikeStmt (.bump pos target up)) := by
  rw [Stmt.WellFormed, Stmt.Shaped] at wf
  rw [Stmt.tokens]
  refine reads_simple wf (by cases up <;> decide) fun pos' target' like => ?_
  refine Acts.look reads_place (fun _ _ => ?_) fun _ _ => trivial
  refine Acts.look reads_peek ?_ fun _ same => same
  rintro _ rfl
  cases up <;>
    exact Acts.drop reads_advance fun _ _ => .pure (by simpa [LikeStmt, Stmt.erase, Like] using like)

/-- A short declaration starts like the expression that its name is. -/
theorem reads_define {pos : Pos} {x : String} {e : Expr} (plain : IsPlainName x)
    (wf : e.WellFormed) :
    Reads n simple (.name x :: .symbol .define :: e.tokens) AtEnd
      (LikeStmt (.var pos x none (some e))) := by
  have nameWf : (Expr.name default x).WellFormed := by rwa [Expr.WellFormed]
  have spelled : (Expr.name default x).tokens = [.name x] := by rw [Expr.tokens]
  rw [← List.singleton_append, ← spelled]
  refine reads_simple nameWf (by decide) fun pos' left like => ?_
  refine Acts.look reads_place (fun _ _ => ?_) fun _ _ => trivial
  refine Acts.look reads_peek ?_ fun _ same => same
  rintro _ rfl
  refine Acts.drop reads_advance fun _ _ => ?_
  obtain ⟨pos'', rfl⟩ : ∃ pos'', left = .name pos'' x := by
    cases left <;> simp_all [Like, Expr.erase]
  refine (Acts.map (reads_expr wf) fun e' likeE => ?_).imp (fun _ ends => ends.stops)
    fun _ isGood => isGood
  simpa [LikeStmt, Stmt.erase, Like] using likeE

theorem reads_head {s : Stmt} (head : s.IsHead IsPlainName) (wf : s.WellFormed) :
    Reads n simple (s.headTokens s.tokens) AtEnd (LikeStmt s) := by
  cases s with
  | expr pos e =>
      rw [Stmt.WellFormed, Stmt.Shaped] at wf
      rw [Stmt.tokens]
      exact reads_expression pos wf
  | assign => exact reads_assign wf
  | bump => exact reads_bump wf
  | var pos x ty init =>
      obtain _ | ty := ty <;> obtain _ | e := init
      · exact head.elim
      · rw [Stmt.WellFormed, Stmt.Shaped] at wf
        exact reads_define head (wf.2.2 e rfl)
      · exact head.elim
      · exact head.elim
  | _ => exact head.elim

theorem reads_condition {init : Option Stmt} {cond : Expr}
    (initWf : ∀ s ∈ init, s.IsHead IsPlainName ∧ s.WellFormed) (condWf : cond.WellFormed) :
    Reads n condition (Stmt.initTokens init ++ cond.tokens) (· = some (.symbol .lbrace))
      fun c => Stmt.eraseOption c.1 = Stmt.eraseOption init ∧ Like cond c.2 := by
  cases init with
  | none =>
      rw [Stmt.initTokens, List.nil_append]
      refine Acts.last (reads_expression default condWf) (fun s like => ?_) fun _ same => .inr same
      refine Acts.look (reads_eat_not .semicolon) ?_ (by rintro _ rfl; decide)
      rintro _ rfl
      obtain ⟨pos, e, rfl, likeE⟩ : ∃ pos e, s = .expr pos e ∧ Like cond e := by
        cases s with
        | expr pos e => exact ⟨pos, e, rfl, by simpa [LikeStmt, Stmt.erase, Like] using like⟩
        | _ => simp [LikeStmt, Stmt.erase] at like
      exact .pure ⟨rfl, likeE⟩
  | some s =>
      obtain ⟨head, wf⟩ := initWf s rfl
      rw [Stmt.initTokens, List.append_assoc]
      refine Acts.bind (reads_head head wf) (fun s' like => ?_) fun _ same => .inl same
      refine Acts.drop (reads_eat .semicolon) ?_
      rintro _ rfl
      refine (Acts.map (reads_expr condWf) fun e' likeE => ?_).imp
        (fun _ same => AtEnd.stops (.inr same)) fun _ isGood => isGood
      exact ⟨by rw [Stmt.eraseOption, Stmt.eraseOption, like], likeE⟩

/-! ## Blocks -/

/-- The statement parser reads a statement before a semicolon. -/
def LegibleStmt (s : Stmt) : Prop := ∀ n, Reads n stmt s.tokens AtSemicolon (LikeStmt s)

/-- Equal up to places, for lists. -/
def LikeBody (body body' : List Stmt) : Prop := body'.map Stmt.erase = body.map Stmt.erase

theorem first_expr {e : Expr} (wf : e.WellFormed) (more : List Kind) :
    ∃ k ks, e.tokens ++ more = k :: ks ∧ Opens k := by
  obtain ⟨k, ks, same, opens, _⟩ := first_tokens e wf
  exact ⟨k, ks ++ more, by simp [same], opens⟩

theorem first_stmt {s : Stmt} (wf : s.WellFormed) : ∃ k ks, s.tokens = k :: ks ∧
    k ≠ .symbol .semicolon ∧ k ≠ .symbol .rbrace := by
  have opens : ∀ k, Opens k → k ≠ .symbol .semicolon ∧ k ≠ .symbol .rbrace := by
    rintro k opens
    constructor <;> rintro rfl <;> simp [Opens] at opens
  cases s with
  | var | const | if_ | return_ | block =>
      rw [Stmt.tokens]
      exact ⟨_, _, rfl, by simp⟩
  | assign pos target op value =>
      rw [Stmt.WellFormed, Stmt.Shaped] at wf
      obtain ⟨k, ks, same, first⟩ := first_expr wf.1 _
      rw [Stmt.tokens]
      exact ⟨k, ks, same, opens k first⟩
  | bump pos target up =>
      rw [Stmt.WellFormed, Stmt.Shaped] at wf
      obtain ⟨k, ks, same, first⟩ := first_expr wf _
      rw [Stmt.tokens]
      exact ⟨k, ks, same, opens k first⟩
  | expr pos e =>
      rw [Stmt.WellFormed, Stmt.Shaped] at wf
      obtain ⟨k, ks, same, first⟩ := first_expr wf []
      rw [Stmt.tokens, ← List.append_nil e.tokens]
      exact ⟨k, ks, same, opens k first⟩

theorem reads_skipSemicolons :
    Reads n skipSemicolons [] (· ≠ some (.symbol .semicolon)) fun _ => True := by
  intro stop ts rest spelled other _
  obtain rfl := List.map_eq_nil_iff.mp spelled
  refine ⟨(), trivial, ?_⟩
  cases rest with
  | nil => rfl
  | cons t rest =>
      have other : t.kind ≠ .symbol .semicolon := by simpa [next] using other
      simp [skipSemicolons, Pure.pure, other]

section Blocks

variable {inner : Parser Stmt} {s : Stmt} {body : List Stmt}

theorem reads_blockStep (near : Near n inner stmt) (wf : s.WellFormed) (h : LegibleStmt s)
    (acc : List Stmt) :
    Reads n (blockStep inner acc) (s.tokens ++ [.symbol .semicolon]) follow
      fun r => r.2 = true ∧ Adds Stmt.erase acc s r.1 := by
  obtain ⟨k, ks, same, semicolon, rbrace⟩ := first_stmt wf
  have begins : ∀ o, Begins (s.tokens ++ [.symbol .semicolon]) follow o → o = some k := by
    rw [same]
    exact fun _ begins => begins
  refine Acts.look reads_skipSemicolons (fun _ _ => ?_) fun o h => ?_
  · refine Acts.look (reads_eat_not .rbrace) ?_ fun o h => ?_
    · rintro _ rfl
      refine Acts.bind (near.acts (h n)) (fun s' like => ?_) fun _ same => same
      exact Acts.map (reads_terminator _) fun _ _ => ⟨rfl, s', like, rfl⟩
    · simpa [begins o h] using rbrace
  · simpa [begins o h] using semicolon

theorem reads_blockEnd (acc : List Stmt) :
    Reads n (loop (blockStep inner) acc) [.symbol .rbrace] follow (· = acc) := by
  refine Acts.done ?_
  refine Acts.look reads_skipSemicolons (fun _ _ => ?_) (by rintro _ rfl; decide)
  refine Acts.drop (reads_eat .rbrace) ?_
  rintro _ rfl
  exact .pure ⟨rfl, rfl⟩

theorem reads_block (near : Near n inner stmt) (h : ∀ s ∈ body, s.WellFormed ∧ LegibleStmt s) :
    Reads (n + 1) (block inner) (Stmt.braces (body.map Stmt.tokens)) follow (LikeBody body) := by
  refine Acts.take (reads_expect .lbrace) fun _ _ => ?_
  rw [List.flatMap_map]
  have each : ∀ s ∈ body, s.tokens ++ [.symbol .semicolon] ≠ [] ∧ ∀ acc,
      Reads n (blockStep inner acc) (s.tokens ++ [.symbol .semicolon]) Anything
        fun r => r.2 = true ∧ Adds Stmt.erase acc s r.1 := fun s mem =>
    ⟨by simp, reads_blockStep near (h s mem).1 (h s mem).2⟩
  refine (Acts.each Stmt.erase each reads_blockEnd []).imp (fun _ allowed => allowed) ?_
  rintro _ ⟨body', like, rfl⟩
  exact like

/-- The statements inside a block can be read. -/
def LegibleBody : Stmt → Prop
  | .block _ body => ∀ s ∈ body, s.WellFormed ∧ LegibleStmt s
  | _ => True

theorem reads_alternative {orelse : Option Stmt} (near : Near n inner stmt)
    (h : ∀ s ∈ orelse, s.IsAlternative ∧ LegibleStmt s ∧ LegibleBody s) :
    Reads (n + 1) (alternative inner) (Stmt.elseTokens orelse) AtSemicolon
      fun s => Stmt.eraseOption s = Stmt.eraseOption orelse := by
  cases orelse with
  | none =>
      rw [Stmt.elseTokens]
      refine Acts.look reads_peek ?_ fun _ same => same
      rintro _ rfl
      exact .pure rfl
  | some s =>
      obtain ⟨shape, legible, inside⟩ := h s rfl
      rw [Stmt.elseTokens]
      refine Acts.look reads_peek ?_ fun _ same => same
      rintro _ rfl
      refine Acts.take reads_advance fun _ _ => ?_
      refine Acts.look reads_place (fun pos' _ => ?_) fun _ _ => trivial
      cases s with
      | if_ pos init cond body orelse =>
          refine Acts.look reads_peek ?_ (by rw [Stmt.tokens]; exact fun _ same => same)
          rintro _ rfl
          exact Acts.map (near.acts (legible n)) fun s' like => by
            rw [Stmt.eraseOption, Stmt.eraseOption, like]
      | block pos body =>
          rw [Stmt.tokens]
          refine Acts.look reads_peek ?_ fun _ same => same
          rintro _ rfl
          refine Acts.map ((reads_block near inside).mono (Nat.le_succ n)) fun body' like => ?_
          simpa [Stmt.eraseOption, Stmt.erase, LikeBody] using like
      | _ => exact shape.elim

/-! ## Statements -/

theorem reads_return {pos : Pos} {value : Option Expr} (wf : ∀ e ∈ value, e.WellFormed) :
    Reads n (stmtBody inner) (Stmt.return_ pos value).tokens AtSemicolon
      (LikeStmt (.return_ pos value)) := by
  rw [Stmt.tokens]
  refine Acts.look reads_place (fun pos' _ => ?_) fun _ _ => trivial
  refine Acts.look reads_peek ?_ fun _ same => same
  rintro _ rfl
  refine Acts.drop reads_advance fun _ _ => ?_
  cases value with
  | none =>
      refine Acts.look (reads_nextIs .semicolon) ?_ fun _ same => same
      rintro _ rfl
      refine Acts.look (reads_nextIs_not .rbrace) ?_ (by rintro _ rfl; decide)
      rintro _ rfl
      exact .pure (by simp [LikeStmt, Stmt.erase])
  | some e =>
      obtain ⟨k, ks, same, opens, _⟩ := first_tokens e (wf e rfl)
      have begins : ∀ o, Begins e.tokens AtSemicolon o → o = some k := by
        rw [same]
        exact fun _ begins => begins
      refine Acts.look (reads_nextIs_not .semicolon) ?_ fun o h => ?_
      · rintro _ rfl
        refine Acts.look (reads_nextIs_not .rbrace) ?_ fun o h => ?_
        · rintro _ rfl
          refine (Acts.map (reads_expr (wf e rfl)) fun e' like => ?_).imp
            (fun _ ends => AtEnd.stops (.inl ends)) fun _ isGood => isGood
          simpa [LikeStmt, Stmt.erase, Like] using like
        · rw [begins o h]
          rintro ⟨⟩
          simp [Opens] at opens
      · rw [begins o h]
        rintro ⟨⟩
        simp [Opens] at opens

/-- What starts like an expression is a simple statement. -/
theorem reads_stmtBody_simple {k : Kind} {ks : List Kind} (opens : Opens k)
    (h : Reads n simple (k :: ks) AtEnd (LikeStmt s)) :
    Reads n (stmtBody inner) (k :: ks) AtSemicolon (LikeStmt s) := by
  refine Acts.look reads_place (fun pos' _ => ?_) fun _ _ => trivial
  refine Acts.look reads_peek ?_ fun _ same => same
  rintro _ rfl
  have simple := h.imp (fun _ closed => (.inl closed : AtEnd _)) fun _ like => like
  cases k with
  | symbol s => obtain rfl | rfl | rfl | rfl := opens <;> exact simple
  | keyword => exact opens.elim
  | _ => exact simple

theorem reads_if {pos : Pos} {init : Option Stmt} {cond : Expr} {orelse : Option Stmt}
    (near : Near n inner stmt) (initWf : ∀ s ∈ init, s.IsHead IsPlainName ∧ s.WellFormed)
    (condWf : cond.WellFormed) (hb : ∀ s ∈ body, s.WellFormed ∧ LegibleStmt s)
    (he : ∀ s ∈ orelse, s.IsAlternative ∧ LegibleStmt s ∧ LegibleBody s) :
    Reads (n + 1) (stmtBody inner) (Stmt.if_ pos init cond body orelse).tokens AtSemicolon
      (LikeStmt (.if_ pos init cond body orelse)) := by
  rw [Stmt.tokens]
  refine Acts.look reads_place (fun pos' _ => ?_) fun _ _ => trivial
  refine Acts.look reads_peek ?_ fun _ same => same
  rintro _ rfl
  refine Acts.drop reads_advance fun _ _ => ?_
  rw [List.append_assoc, List.append_assoc, ← List.append_assoc]
  refine Acts.bind (reads_condition initWf condWf) ?_ fun _ same => same
  rintro ⟨init', cond'⟩ ⟨likeI, likeC⟩
  refine Acts.bind (reads_block near hb) (fun body' likeB => ?_) fun _ _ => trivial
  refine Acts.map (reads_alternative near he) fun orelse' likeE => ?_
  simp only [LikeStmt, Stmt.erase, Stmt.if_.injEq, true_and]
  exact ⟨likeI, likeC, likeB, likeE⟩

end Blocks

theorem legibleStmt_of {s : Stmt} (wf : s.WellFormed)
    (h : ∀ n inner, Near n inner stmt →
      Reads (n + 1) (stmtBody inner) s.tokens AtSemicolon (LikeStmt s)) : LegibleStmt s := by
  obtain ⟨k, ks, same, _⟩ := first_stmt wf
  exact fun n => Acts.fix (by simp [same]) h

/-- Every statement can be read from its tokens. -/
theorem legibleStmt (s : Stmt) (wf : s.WellFormed) : LegibleStmt s ∧ LegibleBody s := by
  have shape := wf
  cases s with
  | var pos x ty init =>
      refine ⟨legibleStmt_of wf fun n inner near => ?_, trivial⟩
      refine Acts.look reads_place (fun pos' _ => ?_) fun _ _ => trivial
      refine Acts.look reads_peek ?_ (by rw [Stmt.tokens]; exact fun _ same => same)
      rintro _ rfl
      exact reads_varDecl wf
  | const pos x ty value =>
      refine ⟨legibleStmt_of wf fun n inner near => ?_, trivial⟩
      refine Acts.look reads_place (fun pos' _ => ?_) fun _ _ => trivial
      refine Acts.look reads_peek ?_ (by rw [Stmt.tokens]; exact fun _ same => same)
      rintro _ rfl
      exact reads_constDecl wf
  | assign pos target op value =>
      rw [Stmt.WellFormed, Stmt.Shaped] at shape
      refine ⟨legibleStmt_of wf fun n inner near => ?_, trivial⟩
      obtain ⟨k, ks, same, opens⟩ := first_expr shape.1 _
      have simple := reads_assign (n := n + 1) wf
      rw [Stmt.tokens, same] at simple ⊢
      exact reads_stmtBody_simple opens simple
  | bump pos target up =>
      rw [Stmt.WellFormed, Stmt.Shaped] at shape
      refine ⟨legibleStmt_of wf fun n inner near => ?_, trivial⟩
      obtain ⟨k, ks, same, opens⟩ := first_expr shape _
      have simple := reads_bump (n := n + 1) wf
      rw [Stmt.tokens, same] at simple ⊢
      exact reads_stmtBody_simple opens simple
  | expr pos e =>
      rw [Stmt.WellFormed, Stmt.Shaped] at shape
      refine ⟨legibleStmt_of wf fun n inner near => ?_, trivial⟩
      obtain ⟨k, ks, same, opens, _⟩ := first_tokens e shape
      have simple := reads_expression (n := n + 1) pos shape
      rw [Stmt.tokens]
      rw [same] at simple ⊢
      exact reads_stmtBody_simple opens simple
  | if_ pos init cond body orelse =>
      rw [Stmt.WellFormed, Stmt.Shaped] at shape
      obtain ⟨initWf, condWf, bodyWf, elseWf⟩ := shape
      refine ⟨legibleStmt_of wf fun n inner near => ?_, trivial⟩
      refine reads_if near initWf condWf (fun s mem => ⟨bodyWf s mem, ?_⟩) fun s mem => ⟨?_, ?_⟩
      · exact (legibleStmt s (bodyWf s mem)).1
      · exact (elseWf s mem).1
      · exact legibleStmt s (elseWf s mem).2
  | return_ pos value =>
      rw [Stmt.WellFormed, Stmt.Shaped] at shape
      exact ⟨legibleStmt_of wf fun n inner near => reads_return shape, trivial⟩
  | block pos body =>
      rw [Stmt.WellFormed, Stmt.Shaped] at shape
      have inside : ∀ s ∈ body, s.WellFormed ∧ LegibleStmt s := fun s mem =>
        ⟨shape s mem, (legibleStmt s (shape s mem)).1⟩
      refine ⟨legibleStmt_of wf fun n inner near => ?_, inside⟩
      rw [Stmt.tokens]
      refine Acts.look reads_place (fun pos' _ => ?_) fun _ _ => trivial
      refine Acts.look reads_peek ?_ fun _ same => same
      rintro _ rfl
      refine Acts.map (reads_block near inside) fun body' like => ?_
      simpa [LikeStmt, Stmt.erase, LikeBody] using like

end Treewalk.Parser
