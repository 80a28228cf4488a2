import Treewalk.Proofs.Parsing.Print
import Treewalk.Proofs.Parsing.Reading

/-! # Reading written expressions

The parser of expressions gives back every expression from its tokens. The
parsers of all levels do so, each for the tokens that an operand has at its
level; those that repeat a step may have more to do behind them.
-/

namespace Treewalk.Parser

open Token (Kind)

variable {n : Nat} {follow : Option Kind → Prop}

/-! ## Types -/

theorem reads_namedType {x : String} {t : Ty} (named : Ty.ofName? x = some t) :
    Reads n type [.name x] follow (· = t) := by
  refine Acts.fix (by simp) fun n inner _ => ?_
  refine Acts.first fun pos => ?_
  refine Acts.drop reads_advance fun _ _ => ?_
  rw [named]
  exact .pure rfl

theorem reads_type {t : Ty} (wf : t.WellFormed) : Reads n type t.tokens follow (· = t) := by
  induction t generalizing n with
  | int => exact reads_namedType rfl
  | float32 => exact reads_namedType rfl
  | bool => exact reads_namedType rfl
  | array len elem ih =>
      obtain ⟨small, wf⟩ := wf
      refine Acts.fix (by simp [Ty.tokens]) fun n inner near => ?_
      refine Acts.first fun pos => ?_
      refine Acts.take reads_advance fun _ _ => ?_
      refine Acts.peek ?_
      have positive : (0 : Int64) ≤ .ofNat len := by
        rw [Int64.le_iff_toInt_le, Int64.toInt_ofNat_of_lt small]
        simp
      simp only [positive, if_true]
      refine Acts.drop reads_advance fun _ _ => ?_
      refine Acts.drop (reads_expect .rbracket) fun _ _ => ?_
      refine Acts.map (near.acts (ih wf)) ?_
      rintro _ rfl
      rw [Int64.toNatClampNeg_ofNat_of_lt small]

/-! ## What may follow an expression -/

/-- Nothing that would make a call out of a name. -/
def Detached (k : Option Kind) : Prop := k ≠ some (.symbol .lparen) ∧ k ≠ some (.symbol .dot)

/-- Nothing that goes on with an operand of a level: no element access, and no
    operator of that level or a higher one. -/
def Stops (level : Nat) (k : Option Kind) : Prop :=
  Detached k ∧ k ≠ some (.symbol .lbracket) ∧ ∀ op ∈ k.bind binaryOp?, op.level < level

instance (level : Nat) (k : Option Kind) : Decidable (Stops level k) :=
  inferInstanceAs (Decidable ((_ ∧ _) ∧ _ ∧ _))

theorem Stops.mono {k : Option Kind} {l m : Nat} (le : l ≤ m) (h : Stops l k) : Stops m k :=
  ⟨h.1, h.2.1, fun op mem => Nat.lt_of_lt_of_le (h.2.2 op mem) le⟩

theorem binaryOp?_symbol (op : BinaryOp) : binaryOp? (.symbol op.symbol) = some op := by
  obtain op | op | op := op <;> cases op <;> rfl

theorem unaryOp?_symbol (op : UnaryOp) : unaryOp? (.symbol op.symbol) = some op := by
  cases op <;> rfl

/-- An operator may follow an operand that binds tighter. -/
theorem stops_symbol {op : BinaryOp} {level : Nat} (lt : op.level < level) :
    Stops level (some (.symbol op.symbol)) := by
  refine ⟨⟨?_, ?_⟩, ?_, ?_⟩
  · obtain op | op | op := op <;> cases op <;> simp [BinaryOp.symbol]
  · obtain op | op | op := op <;> cases op <;> simp [BinaryOp.symbol]
  · obtain op | op | op := op <;> cases op <;> simp [BinaryOp.symbol]
  · simpa [binaryOp?_symbol] using lt

/-! ## The first token of an expression -/

/-- The tokens that an expression may start with. -/
def Opens : Kind → Prop
  | .symbol s => s = .lparen ∨ s = .minus ∨ s = .plus ∨ s = .bang
  | .keyword _ => False
  | _ => True

theorem level_binary (op : BinaryOp) : 1 ≤ op.level ∧ op.level ≤ 5 := by
  obtain op | op | op := op <;> cases op <;> decide

/-- Operators are read by the precedence that they are written by. -/
theorem level_eq_precedence (op : BinaryOp) : op.level = op.precedence := by
  obtain op | op | op := op <;> cases op <;> rfl

theorem level_le (e : Expr) : e.level ≤ 7 := by
  cases e with
  | binary pos op l r =>
      rw [Expr.level, ← level_eq_precedence]
      exact Nat.le_trans (level_binary op).2 (by decide)
  | _ => simp [Expr.level]

/-- The first token of an expression, which is an operator only in front of an
    operand that can fall apart. -/
theorem first_tokens (e : Expr) (wf : e.WellFormed) :
    ∃ k ks, e.tokens = k :: ks ∧ Opens k ∧ (e.level = 7 → unaryOp? k = none) := by
  -- An operand in parentheses starts with one of them.
  have enclosed : ∀ (least : Nat) (l : Expr),
      (∃ k ks, l.tokens = k :: ks ∧ Opens k ∧ (l.level = 7 → unaryOp? k = none)) →
      ∃ k ks, l.enclosed least l.tokens = k :: ks ∧ Opens k ∧
        (least = 7 → unaryOp? k = none) := by
    rintro least l ⟨k, ks, same, opens, sign⟩
    unfold Expr.enclosed
    split
    · exact ⟨_, _, rfl, .inl rfl, fun _ => rfl⟩
    · have := level_le l
      exact ⟨k, ks, same, opens, fun tight => sign (by omega)⟩
  cases e with
  | int | float | bool | str | name | call | print =>
      rw [Expr.tokens]
      exact ⟨_, _, rfl, trivial, fun _ => rfl⟩
  | unary pos op e =>
      rw [Expr.tokens]
      refine ⟨_, _, rfl, ?_, by simp [Expr.level]⟩
      cases op <;> simp [Opens, UnaryOp.symbol]
  | binary pos op l r =>
      rw [Expr.WellFormed] at wf
      obtain ⟨k, ks, same, opens, _⟩ := enclosed op.precedence l (first_tokens l wf.1)
      refine ⟨k, _, by rw [Expr.tokens, same, List.cons_append], opens, fun tight => ?_⟩
      have := level_binary op
      simp only [Expr.level, ← level_eq_precedence] at tight
      omega
  | convert pos ty e =>
      rw [Expr.WellFormed] at wf
      obtain ⟨rfl | rfl | rfl, _⟩ := wf <;> rw [Expr.tokens] <;>
        exact ⟨_, _, rfl, trivial, fun _ => rfl⟩
  | index pos a i =>
      rw [Expr.WellFormed] at wf
      obtain ⟨k, ks, same, opens, sign⟩ := enclosed 7 a (first_tokens a wf.1)
      exact ⟨k, _, by rw [Expr.tokens, same, List.cons_append], opens, fun _ => sign rfl⟩

theorem first_tokensAt {e : Expr} (wf : e.WellFormed) :
    ∃ k ks, e.tokensAt 7 = k :: ks ∧ unaryOp? k = none := by
  obtain ⟨k, ks, same, _, sign⟩ := first_tokens e wf
  unfold Expr.tokensAt Expr.enclosed
  split
  · exact ⟨_, _, rfl, rfl⟩
  · have := level_le e
    exact ⟨k, ks, same, sign (by omega)⟩

/-! ## Steps of the repeating parsers -/

/-- Equal up to places. -/
def Like (e e' : Expr) : Prop := e'.erase = e.erase

section Steps

variable {inner operand : Parser Expr} {l r a i : Expr} {op : BinaryOp} {level : Nat}
  {good : Expr → Prop} {ks : List Kind} {signs : List (Pos × UnaryOp)}

theorem acts_levelStep (at_ : op.level = level)
    (h : Reads n operand (r.tokensAt (level + 1)) (Stops (level + 1)) (Like r)) :
    Acts n (loop (levelStep level operand) l)
      (.symbol op.symbol :: r.tokensAt (level + 1)) (Stops (level + 1))
      (fun e => ∃ pos r', Like r r' ∧ e = .binary pos op l r') (loop (levelStep level operand)) := by
  refine Acts.again (by simp) ?_
  refine Acts.first fun pos => ?_
  simp only [Option.bind_some, binaryOp?_symbol, Option.filter_some, at_, beq_self_eq_true, if_true]
  refine Acts.drop reads_advance fun _ _ => ?_
  exact Acts.map h fun r' like => ⟨rfl, pos, r', like, rfl⟩

theorem reads_levelStep_none :
    Reads n (loop (levelStep level operand) l) [] (Stops level) (· = l) := by
  refine Acts.done ?_
  refine Acts.place fun pos => ?_
  refine Acts.look reads_peek (fun k stops => ?_) fun _ stops => stops
  have none : (k.bind binaryOp?).filter (·.level == level) = none := by
    rw [Option.filter_eq_none_iff]
    intro op mem
    have := stops.2.2 op mem
    simp
    omega
  rw [none]
  exact .pure ⟨rfl, rfl⟩

theorem reads_joined
    (h : Acts n (joined level operand) ks (Stops (level + 1)) good (loop (levelStep level operand))) :
    Reads n (joined level operand) ks (Stops level) good :=
  h.settle (fun _ => reads_levelStep_none) fun _ stops => stops.mono (by omega)

theorem acts_indexStep (h : Reads n inner i.tokens (Stops 1) (Like i)) :
    Acts (n + 1) (loop (indexStep inner) a) (.symbol .lbracket :: (i.tokens ++ [.symbol .rbracket]))
      follow (fun e => ∃ i', Like i i' ∧ e = .index a.pos a i') (loop (indexStep inner)) := by
  refine Acts.again (by simp) ?_
  refine Acts.take (reads_eat .lbracket) ?_
  rintro _ rfl
  refine Acts.bind h (fun i' like => ?_) ?_
  · exact Acts.drop (reads_expect .rbracket) fun _ _ => .pure ⟨rfl, i', like, rfl⟩
  · rintro _ rfl
    decide

theorem reads_indexStep_none :
    Reads n (loop (indexStep inner) a) [] (· ≠ some (.symbol .lbracket)) (· = a) := by
  refine Acts.done (Acts.look (reads_eat_not .lbracket) ?_ fun _ other => other)
  rintro _ rfl
  exact .pure ⟨rfl, rfl⟩

theorem reads_element
    (h : Acts n (element inner) ks Detached good (loop (indexStep inner))) :
    Reads n (element inner) ks (Stops level) good :=
  (h.imp (fun _ stops => stops.1) fun _ isGood => isGood).settle
    (fun _ => reads_indexStep_none.imp (fun _ stops => stops.2.1) fun _ same => same)
    fun _ stops => stops

/-- An operand behind some operators that are read already. -/
def signedFrom (inner : Parser Expr) (signs : List (Pos × UnaryOp)) : Parser Expr := do
  let signs ← loop signStep signs
  let e ← element inner
  return signs.foldr (fun (pos, op) e => .unary pos op e) e

theorem acts_signStep {op : UnaryOp} :
    Acts n (signedFrom inner signs) [.symbol op.symbol] follow
      (fun more => ∃ pos, more = signs ++ [(pos, op)]) (signedFrom inner) := by
  have step : Acts n (loop signStep signs) [.symbol op.symbol] follow
      (fun more => ∃ pos, more = signs ++ [(pos, op)]) (loop signStep) := by
    refine Acts.again (by simp) ?_
    refine Acts.first fun pos => ?_
    simp only [Option.bind_some, unaryOp?_symbol]
    exact Acts.drop reads_advance fun _ _ => .pure ⟨rfl, pos, rfl⟩
  exact step.seq

theorem acts_signedFrom {k : Kind} (sign : unaryOp? k = none)
    (h : Reads n (element inner) (k :: ks) (Stops level) good) :
    Acts n (signedFrom inner signs) (k :: ks) (Stops level) good
      fun e => pure (signs.foldr (fun (pos, op) e => .unary pos op e) e) := by
  have none : Reads n (loop signStep signs) [] (· = some k) (· = signs) := by
    refine Acts.done ?_
    refine Acts.place fun pos => ?_
    refine Acts.sees reads_peek ?_ fun _ same => same
    simp only [Option.bind_some, sign]
    exact .pure ⟨rfl, rfl⟩
  refine Acts.look none ?_ fun _ same => same
  rintro _ rfl
  exact h.bound

end Steps

/-! ## Operands -/

/-- The inner parser reads an expression before whatever may follow one. -/
def Legible (e : Expr) : Prop := ∀ n, Reads n expr e.tokens (Stops 1) (Like e)

section Operands

variable {inner : Parser Expr} {e : Expr} {es : List Expr}

theorem Near.reads (near : Near n inner expr) (h : Legible e) :
    Reads n inner e.tokens (Stops 1) (Like e) :=
  near.acts (h n)

/-- Equal up to places, for lists. -/
def LikeAll (es es' : List Expr) : Prop := es'.map Expr.erase = es.map Expr.erase

/-- What may follow an element of a list in parentheses. -/
abbrev AtComma (k : Option Kind) : Prop := k = some (.symbol .comma) ∨ k = some (.symbol .rparen)

theorem commas_cons (ks : List Kind) (kss : List (List Kind)) :
    commas (ks :: kss) = if kss = [] then ks else ks ++ .symbol .comma :: commas kss := by
  cases kss <;> simp [commas]

/-- Elements with commas between them, taken one after the other by a repeated
    step that builds its state with `wrap`. -/
theorem Acts.commas {α σ τ : Type} (wrap : List α → σ) (f : α → τ) {step : σ → Parser (σ × Bool)}
    {tokens : α → List Kind} {as : List α}
    (one : ∀ a ∈ as, ∀ acc, Acts n (step (wrap acc)) (tokens a) AtComma (f · = f a)
      fun a' => do return (wrap (acc ++ [a']), ← eat .comma))
    (stop : ∀ acc, Reads n (step (wrap acc)) [] (· = some (.symbol .rparen)) (· = (wrap acc, false)))
    (acc : List α) :
    Reads n (loop step (wrap acc)) (Treewalk.commas (as.map tokens)) (· = some (.symbol .rparen))
      fun r => ∃ all, AddsAll f acc as all ∧ r = wrap all := by
  induction as generalizing acc with
  | nil =>
      refine Acts.done ((stop acc).imp (fun _ same => same) ?_)
      rintro _ rfl
      exact ⟨rfl, acc, ⟨[], by simp⟩, rfl⟩
  | cons a as ih =>
      obtain ⟨first, others⟩ := List.forall_mem_cons.mp one
      rw [List.map_cons, commas_cons]
      split
      · rename_i last
        obtain rfl := List.map_eq_nil_iff.mp last
        refine Acts.done ?_
        rw [← List.append_nil (tokens a)]
        refine (first acc).trans (fun a' like => ?_) fun _ same => .inr same
        refine (Acts.map (reads_eat_not .comma) fun _ eaten => ?_).imp
          (by rintro _ rfl; decide) fun _ isGood => isGood
        exact ⟨eaten, _, ⟨[a'], by simpa using like, rfl⟩, rfl⟩
      · rw [← List.singleton_append, ← List.append_assoc]
        have again : Acts n (loop step (wrap acc)) (tokens a ++ [.symbol .comma]) Anything
            (fun r => ∃ mid, Adds f acc a mid ∧ r = wrap mid) (loop step) := by
          refine Acts.again (by simp) ?_
          refine (first acc).trans (fun a' like => ?_) fun _ same => .inl same
          exact Acts.map (reads_eat .comma) fun _ eaten => ⟨eaten, _, ⟨a', like, rfl⟩, rfl⟩
        refine again.trans ?_ fun _ _ => trivial
        rintro _ ⟨mid, added, rfl⟩
        refine (ih others mid).imp (fun _ same => same) ?_
        rintro _ ⟨all, addedAll, rfl⟩
        exact ⟨all, added.cons addedAll, rfl⟩

/-- An argument does not start like the end of the list. -/
theorem not_rparen (wf : e.WellFormed) {k : Option Kind} (begins : Begins e.tokens follow k) :
    k ≠ some (.symbol .rparen) := by
  obtain ⟨first, more, same, opens, _⟩ := first_tokens e wf
  rw [same] at begins
  rintro rfl
  cases begins
  simp [Opens] at opens

theorem acts_argsStep (near : Near n inner expr) (wf : e.WellFormed) (h : Legible e)
    (acc : List Expr) :
    Acts n (argsStep inner acc) e.tokens AtComma (Like e)
      fun e' => do return (acc ++ [e'], ← eat .comma) := by
  refine Acts.sees (reads_nextIs_not .rparen) ?_ fun _ begins => not_rparen wf begins
  refine (near.reads h).bound.imp ?_ fun _ like => like
  rintro _ (rfl | rfl) <;> decide

theorem reads_args (near : Near n inner expr) (h : ∀ e ∈ es, e.WellFormed ∧ Legible e) :
    Reads (n + 1) (args inner) (parens (commas (es.map Expr.tokens))) follow (LikeAll es) := by
  refine Acts.take (reads_expect .lparen) fun _ _ => ?_
  refine Acts.bind (Acts.commas id Expr.erase
    (fun e mem => acts_argsStep near (h e mem).1 (h e mem).2) (fun acc => ?_) []) ?_
    fun _ same => same
  · refine Acts.sees (reads_nextIs .rparen) ?_ fun _ same => same
    exact .pure rfl
  · rintro _ ⟨_, ⟨es', like, rfl⟩, rfl⟩
    exact Acts.drop (reads_expect .rparen) fun _ _ => .pure like

theorem reads_parens (near : Near n inner expr) (h : Legible e) :
    Reads (n + 1) (primary inner) (parens e.tokens) follow (Like e) := by
  refine Acts.first fun pos => ?_
  refine Acts.take reads_advance fun _ _ => ?_
  refine Acts.bind (near.reads h) (fun e' like => ?_) (by rintro _ rfl; decide)
  exact Acts.drop (reads_expect .rparen) fun _ _ => .pure like

theorem reads_int {pos : Pos} {i : Int} (wf : (Expr.int pos i).WellFormed) :
    Reads n (primary inner) (Expr.int pos i).tokens follow (Like (.int pos i)) := by
  rw [Expr.WellFormed] at wf
  rw [Expr.tokens]
  refine Acts.first fun pos' => ?_
  refine Acts.drop reads_advance fun _ _ => .pure ?_
  simp [Like, Expr.erase, Int64.toInt_ofInt_of_le wf.1 wf.2]

theorem reads_float {pos : Pos} {x : Float} :
    Reads n (primary inner) (Expr.float pos x).tokens follow (Like (.float pos x)) := by
  rw [Expr.tokens]
  refine Acts.first fun pos' => ?_
  exact Acts.drop reads_advance fun _ _ => .pure (by simp [Like, Expr.erase])

theorem reads_str {pos : Pos} {s : String} :
    Reads n (primary inner) (Expr.str pos s).tokens follow (Like (.str pos s)) := by
  rw [Expr.tokens]
  refine Acts.first fun pos' => ?_
  exact Acts.drop reads_advance fun _ _ => .pure (by simp [Like, Expr.erase])

/-- A name that stands alone. -/
theorem reads_nameAlone {x : String} (same : ∀ pos, Like e (nameAlone pos x)) :
    Reads n (primary inner) [.name x] Detached (Like e) := by
  refine Acts.first fun pos => ?_
  refine Acts.drop reads_advance fun _ _ => ?_
  refine Acts.sees (reads_nextIs_not .dot) ?_ fun _ detached => detached.2
  refine Acts.sees (reads_nextIs_not .lparen) ?_ fun _ detached => detached.1
  exact .pure (same pos)

theorem nameAlone_plain {x : String} (plain : IsPlainName x) (pos : Pos) :
    nameAlone pos x = .name pos x := by
  unfold nameAlone
  split
  · exact absurd rfl plain.1
  · exact absurd rfl plain.2
  · rfl

/-- A name before arguments. -/
theorem acts_callee (callee : String) :
    Acts n (primary inner) [.name callee] (· = some (.symbol .lparen)) (fun _ => True)
      fun pos => callOrConversion inner pos callee := by
  refine Acts.first fun pos => ?_
  refine Acts.drop reads_advance fun _ _ => ?_
  refine Acts.sees (reads_nextIs_not .dot) ?_ (by rintro _ rfl; decide)
  refine Acts.sees (reads_nextIs .lparen) ?_ fun _ same => same
  change Acts n (callOrConversion inner pos callee) _ _ _ _
  apply Acts.here pos
  trivial

/-- A name before a dot. -/
theorem acts_package (package : String) :
    Acts n (primary inner) [.name package] (· = some (.symbol .dot)) (fun _ => True)
      fun pos => packageCall inner pos package := by
  refine Acts.first fun pos => ?_
  refine Acts.drop reads_advance fun _ _ => ?_
  refine Acts.sees (reads_nextIs .dot) ?_ fun _ same => same
  change Acts n (packageCall inner pos package) _ _ _ _
  apply Acts.here pos
  trivial

theorem reads_call {pos : Pos} {f : String} (near : Near n inner expr)
    (other : Ty.ofName? f = none) (h : ∀ e ∈ es, e.WellFormed ∧ Legible e) :
    Reads (n + 1) (primary inner) (Expr.call pos f es).tokens follow (Like (.call pos f es)) := by
  rw [Expr.tokens, ← List.singleton_append]
  refine (acts_callee f).trans (fun pos' _ => ?_) fun _ same => same
  refine Acts.last (reads_args near h) (fun es' like => ?_) fun _ allowed => allowed
  simp only [other]
  exact .pure (by simpa [Like, LikeAll, Expr.erase] using like)

theorem reads_convert {pos : Pos} {ty : Ty} (near : Near n inner expr)
    (scalar : ty = .int ∨ ty = .float32 ∨ ty = .bool) (wf : e.WellFormed) (h : Legible e) :
    Reads (n + 1) (primary inner) (Expr.convert pos ty e).tokens follow
      (Like (.convert pos ty e)) := by
  obtain ⟨x, spelled, named⟩ : ∃ x, ty.tokens = [.name x] ∧ Ty.ofName? x = some ty := by
    obtain rfl | rfl | rfl := scalar <;> exact ⟨_, rfl, rfl⟩
  rw [Expr.tokens, spelled]
  refine (acts_callee x).trans (fun pos' _ => ?_) fun _ same => same
  have operand : Reads (n + 1) (args inner) (parens e.tokens) follow (LikeAll [e]) := by
    have single : ∀ e' ∈ [e], e'.WellFormed ∧ Legible e' := by simpa using ⟨wf, h⟩
    simpa [commas] using reads_args near single
  refine Acts.last operand (fun es' like => ?_) fun _ allowed => allowed
  obtain ⟨e', rfl, same⟩ : ∃ e', es' = [e'] ∧ Like e e' := by
    simpa [LikeAll, Like, List.map_eq_cons_iff] using like
  simp only [named]
  exact .pure (by simpa [Like, Expr.erase] using same)

theorem printStyle?_member (style : PrintStyle) : printStyle? "fmt" style.member = some style := by
  cases style <;> rfl

theorem reads_print {pos : Pos} {style : PrintStyle} (near : Near n inner expr)
    (h : ∀ e ∈ es, e.WellFormed ∧ Legible e) :
    Reads (n + 1) (primary inner) (Expr.print pos "fmt" style es).tokens follow
      (Like (.print pos "fmt" style es)) := by
  rw [Expr.tokens, ← List.singleton_append]
  refine (acts_package "fmt").trans (fun pos' _ => ?_) fun _ same => same
  refine Acts.drop (reads_expect .dot) fun _ _ => ?_
  refine Acts.place fun _ => ?_
  refine Acts.drop (reads_name style.member) ?_
  rintro _ rfl
  rw [printStyle?_member]
  refine Acts.sees (reads_nextIs .lparen) ?_ fun _ same => same
  exact Acts.map (reads_args near h) fun es' like => by simpa [Like, LikeAll, Expr.erase] using like

end Operands

/-! ## All levels -/

/-- The parsers of operands: of those with a sign, and above them one for each
    level of operators. -/
def ladder (inner : Parser Expr) : Nat → Parser Expr
  | 0 => signed inner
  | k + 1 => joined (5 - k) (ladder inner k)

/-- The parsers of all levels read the tokens that an expression has at their
    level. -/
structure ReadAt (n : Nat) (inner : Parser Expr) (e : Expr) : Prop where
  element : Acts n (element inner) (e.tokensAt 7) Detached (Like e) (loop (indexStep inner))
  signed : ∀ signs, Acts n (signedFrom inner signs) (e.tokensAt 6) (Stops 6) (Like e)
    fun e => pure (signs.foldr (fun (pos, op) e => .unary pos op e) e)
  joined : ∀ k < 5, Acts n (ladder inner (k + 1)) (e.tokensAt (5 - k)) (Stops (6 - k)) (Like e)
    (loop (levelStep (5 - k) (ladder inner k)))

section Levels

variable {inner : Parser Expr} {e : Expr} {ks : List Kind} {good : Expr → Prop}

theorem tokensAt_of_le {least : Nat} (le : least ≤ e.level) : e.tokensAt least = e.tokens :=
  if_neg (by omega)

theorem tokensAt_of_lt {least : Nat} (lt : e.level < least) : e.tokensAt least = parens e.tokens :=
  if_pos lt

theorem tokensAt_succ {least : Nat} (ne : e.level ≠ least) :
    e.tokensAt (least + 1) = e.tokensAt least := by
  simp only [Expr.tokensAt, Expr.enclosed]
  congr 1
  simp only [eq_iff_iff]
  omega

theorem reads_rung {k : Nat} (lt : k < 5)
    (h : Acts n (ladder inner (k + 1)) ks (Stops (6 - k)) good
      (loop (levelStep (5 - k) (ladder inner k)))) :
    Reads n (ladder inner (k + 1)) ks (Stops (5 - k)) good := by
  have succ : 6 - k = 5 - k + 1 := by omega
  rw [succ] at h
  exact reads_joined h

/-- What the parser of one level reads, those of all lower levels do. -/
theorem reads_exprBody {k : Nat} (le : k ≤ 5)
    (h : Reads n (ladder inner k) ks (Stops (6 - k)) good) :
    Reads n (exprBody inner) ks (Stops 1) good := by
  induction left : 5 - k generalizing k with
  | zero =>
      obtain rfl : k = 5 := by omega
      exact h
  | succ d ih =>
      have next := reads_rung (by omega) (h.bound : Acts n (ladder inner (k + 1)) ks _ good _)
      exact ih (k := k + 1) (by omega) (by simpa [Nat.add_comm 1] using next) (by omega)

theorem ReadAt.rung {k : Nat} (h : ReadAt n inner e) (le : k ≤ 5) :
    Reads n (ladder inner k) (e.tokensAt (6 - k)) (Stops (6 - k)) (Like e) := by
  cases k with
  | zero => exact h.signed []
  | succ k =>
      have := reads_rung le (h.joined k le)
      simpa [Nat.add_comm 1] using this

theorem legible_of (wf : e.WellFormed)
    (h : ∀ n inner, Near n inner expr → Reads (n + 1) (exprBody inner) e.tokens (Stops 1) (Like e)) :
    Legible e := by
  obtain ⟨k, ks, same, _⟩ := first_tokens e wf
  exact fun n => Acts.fix (by simp [same]) h

/-- It is enough to read an expression at its own level, and at the highest one. -/
theorem readAt_of (wf : e.WellFormed)
    (element : Acts n (element inner) (e.tokensAt 7) Detached (Like e) (loop (indexStep inner)))
    (signed : e.level = 6 → ∀ signs, Acts n (signedFrom inner signs) e.tokens (Stops 6) (Like e)
      fun e => pure (signs.foldr (fun (pos, op) e => .unary pos op e) e))
    (joined : ∀ k < 5, e.level = 5 - k → Acts n (ladder inner (k + 1)) e.tokens (Stops (6 - k))
      (Like e) (loop (levelStep (5 - k) (ladder inner k)))) :
    ReadAt n inner e := by
  have signed : ∀ signs, Acts n (signedFrom inner signs) (e.tokensAt 6) (Stops 6) (Like e)
      fun e => pure (signs.foldr (fun (pos, op) e => .unary pos op e) e) := by
    intro signs
    by_cases own : e.level = 6
    · rw [tokensAt_of_le (by omega)]
      exact signed own signs
    · rw [← tokensAt_succ own]
      obtain ⟨k, ks, same, sign⟩ := first_tokensAt wf
      rw [same] at element ⊢
      exact acts_signedFrom sign (reads_element element)
  refine ⟨element, signed, fun k lt => ?_⟩
  induction k with
  | zero =>
      by_cases own : e.level = 5
      · rw [tokensAt_of_le (by omega)]
        exact joined 0 lt own
      · rw [← tokensAt_succ own]
        exact Acts.bound (signed [])
  | succ k ih =>
      by_cases own : e.level = 5 - (k + 1)
      · rw [tokensAt_of_le (by omega)]
        exact joined (k + 1) lt own
      · rw [← tokensAt_succ own]
        have below := reads_rung (by omega) (ih (by omega))
        have succ : 5 - (k + 1) + 1 = 5 - k := by omega
        have succ' : 6 - (k + 1) = 5 - k := by omega
        rw [succ, succ']
        exact below.bound

/-- Readable on its own, and as an operand at any level. -/
def Readable (e : Expr) : Prop :=
  Legible e ∧ ∀ n inner, Near n inner expr → ReadAt (n + 1) inner e

theorem readable_element (wf : e.WellFormed) (tight : e.level = 7)
    (h : ∀ n inner, Near n inner expr →
      Acts (n + 1) (element inner) e.tokens Detached (Like e) (loop (indexStep inner))) :
    Readable e := by
  have readAt : ∀ n inner, Near n inner expr → ReadAt (n + 1) inner e := by
    intro n inner near
    refine readAt_of wf ?_ (by omega) (by omega)
    rw [tokensAt_of_le (by omega)]
    exact h n inner near
  refine ⟨legible_of wf fun n inner near => ?_, readAt⟩
  have whole := reads_rung (by decide) ((readAt n inner near).joined 4 (by decide))
  rwa [tokensAt_of_le (by omega)] at whole

/-- An expression that can fall apart stands in parentheses where it has to be
    tight. -/
theorem acts_parens (near : Near n inner expr) (loose : e.level < 7) (h : Legible e) :
    Acts (n + 1) (element inner) (e.tokensAt 7) Detached (Like e) (loop (indexStep inner)) := by
  rw [tokensAt_of_lt loose]
  exact (reads_parens near h).bound

theorem readable_signed (wf : e.WellFormed) (level : e.level = 6)
    (h : ∀ n inner, Near n inner expr → ∀ signs,
      Acts (n + 1) (signedFrom inner signs) e.tokens (Stops 6) (Like e)
        fun e => pure (signs.foldr (fun (pos, op) e => .unary pos op e) e)) :
    Readable e := by
  have legible : Legible e := legible_of wf fun n inner near =>
    reads_exprBody (k := 0) (by omega) (h n inner near [])
  exact ⟨legible, fun n inner near =>
    readAt_of wf (acts_parens near (by omega) legible) (fun _ => h n inner near) (by omega)⟩

theorem readable_joined {k : Nat} (wf : e.WellFormed) (lt : k < 5) (level : e.level = 5 - k)
    (h : ∀ n inner, Near n inner expr →
      Acts (n + 1) (ladder inner (k + 1)) e.tokens (Stops (6 - k)) (Like e)
        (loop (levelStep (5 - k) (ladder inner k)))) :
    Readable e := by
  have legible : Legible e := legible_of wf fun n inner near =>
    reads_exprBody (k := k + 1) (by omega) (by
      simpa [Nat.add_comm 1] using reads_rung lt (h n inner near))
  refine ⟨legible, fun n inner near => ?_⟩
  refine readAt_of wf (acts_parens near (by omega) legible) (by omega) fun j lt' level' => ?_
  obtain rfl : j = k := by omega
  exact h n inner near

end Levels

theorem readable_primary {e : Expr} (wf : e.WellFormed) (tight : e.level = 7)
    (h : ∀ n inner, Near n inner expr → Reads (n + 1) (primary inner) e.tokens Detached (Like e)) :
    Readable e :=
  readable_element wf tight fun n inner near => (h n inner near).bound

theorem readable_unary {pos : Pos} {op : UnaryOp} {e : Expr} (wf : e.WellFormed)
    (h : Readable e) : Readable (.unary pos op e) := by
  refine readable_signed (by rwa [Expr.WellFormed]) rfl fun n inner near signs => ?_
  rw [Expr.tokens, ← List.singleton_append]
  refine Acts.trans acts_signStep ?_ fun _ _ => trivial
  rintro _ ⟨pos', rfl⟩
  refine ((h.2 n inner near).signed (signs ++ [(pos', op)])).with (.unary pos' op) ?_ fun e' => ?_
  · intro e' like
    simpa [Like, Expr.erase] using like
  · simp

theorem readable_binary {pos : Pos} {op : BinaryOp} {l r : Expr}
    (wf : (Expr.binary pos op l r).WellFormed) (hl : Readable l) (hr : Readable r) :
    Readable (.binary pos op l r) := by
  have bounds := level_binary op
  obtain ⟨k, lt, level⟩ : ∃ k < 5, op.level = 5 - k := ⟨5 - op.level, by omega, by omega⟩
  refine readable_joined wf lt ((level_eq_precedence op).symm.trans level) fun n inner near => ?_
  rw [Expr.tokens, ← level_eq_precedence]
  have left := (hl.2 n inner near).joined k lt
  have right := (hr.2 n inner near).rung (Nat.le_of_lt lt)
  have succ : 6 - k = 5 - k + 1 := by omega
  rw [← level] at left
  rw [succ] at left right ⊢
  refine Acts.trans left (fun l' likeL => ?_) ?_
  · rw [level]
    refine (acts_levelStep level right).imp (fun _ stops => stops) ?_
    rintro _ ⟨pos', r', likeR, rfl⟩
    simp_all [Like, Expr.erase]
  · rintro _ rfl
    exact stops_symbol (by omega)

theorem readable_index {pos : Pos} {a i : Expr} (wf : (Expr.index pos a i).WellFormed)
    (ha : Readable a) (hi : Readable i) : Readable (.index pos a i) := by
  refine readable_element wf rfl fun n inner near => ?_
  rw [Expr.tokens]
  refine Acts.trans (ha.2 n inner near).element (fun a' likeA => ?_) ?_
  · refine (acts_indexStep (near.reads hi.1)).imp (fun _ stops => stops) ?_
    rintro _ ⟨i', likeI, rfl⟩
    simp_all [Like, Expr.erase]
  · rintro _ rfl
    exact ⟨by decide, by decide⟩

/-- Every expression can be read from its tokens. -/
theorem readable (e : Expr) (wf : e.WellFormed) : Readable e := by
  have shape := wf
  cases e with
  | int => exact readable_primary wf rfl fun _ _ _ => reads_int wf
  | float => exact readable_primary wf rfl fun _ _ _ => reads_float
  | bool pos b =>
      refine readable_primary wf rfl fun _ _ _ => ?_
      rw [Expr.tokens]
      cases b <;> exact reads_nameAlone fun _ => by simp [Like, nameAlone, Expr.erase]
  | str => exact readable_primary wf rfl fun _ _ _ => reads_str
  | name pos x =>
      rw [Expr.WellFormed] at shape
      refine readable_primary wf rfl fun _ _ _ => ?_
      rw [Expr.tokens]
      exact reads_nameAlone fun _ => by simp [Like, nameAlone_plain shape, Expr.erase]
  | unary pos op e =>
      rw [Expr.WellFormed] at shape
      exact readable_unary shape (readable e shape)
  | binary pos op l r =>
      rw [Expr.WellFormed] at shape
      exact readable_binary wf (readable l shape.1) (readable r shape.2)
  | convert pos ty e =>
      rw [Expr.WellFormed] at shape
      exact readable_primary wf rfl fun _ _ near =>
        reads_convert near shape.1 shape.2 (readable e shape.2).1
  | index pos a i =>
      rw [Expr.WellFormed] at shape
      exact readable_index wf (readable a shape.1) (readable i shape.2)
  | call pos f args =>
      rw [Expr.WellFormed] at shape
      exact readable_primary wf rfl fun _ _ near =>
        reads_call near shape.1 fun e mem => ⟨shape.2 e mem, (readable e (shape.2 e mem)).1⟩
  | print pos package style args =>
      rw [Expr.WellFormed] at shape
      obtain ⟨rfl, args_wf⟩ := shape
      exact readable_primary wf rfl fun _ _ near =>
        reads_print near fun e mem => ⟨args_wf e mem, (readable e (args_wf e mem)).1⟩

end Treewalk.Parser
