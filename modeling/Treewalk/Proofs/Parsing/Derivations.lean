import Treewalk.Proofs.Parsing.Outcomes
import Treewalk.Proofs.Parsing.Print
import Treewalk.Proofs.Places

/-! # The tokens of trees

Which tokens a tree may be read from: `Derives ts tree rest` says that the tokens `ts`
begin with those of the tree, and that `rest` comes after them. The relations follow
the shapes of the grammar. What holds for all trees that can be read, such as that they
are well-formed and that their places are those of their tokens, is shown by induction
over them.
-/

namespace Treewalk

open Token (Kind)
open Treewalk.Parser (next)

/-! ## Places in front of tokens -/

/-- The tokens of `ts` in front of `rest` have these places, and maybe others. -/
def Shows (ts rest : List Token) (places : List Pos) : Prop :=
  ∃ taken, ts = taken ++ rest ∧ places ⊆ taken.map Token.pos

namespace Shows

variable {t : Token} {ts mid rest : List Token} {places places' : List Pos}

theorem nil (ts : List Token) : Shows ts ts [] := ⟨[], rfl, List.nil_subset _⟩

theorem mono (h : Shows ts rest places) (sub : places' ⊆ places) : Shows ts rest places' := by
  obtain ⟨taken, split, seen⟩ := h
  exact ⟨taken, split, List.Subset.trans sub seen⟩

theorem append (first : Shows ts mid places) (second : Shows mid rest places') :
    Shows ts rest (places ++ places') := by
  obtain ⟨taken, rfl, seen⟩ := first
  obtain ⟨more, rfl, seen'⟩ := second
  refine ⟨taken ++ more, (List.append_assoc ..).symm, ?_⟩
  rw [List.map_append, List.append_subset]
  exact ⟨List.subset_append_of_subset_left _ seen, List.subset_append_of_subset_right _ seen'⟩

theorem token (t : Token) (rest : List Token) : Shows (t :: rest) rest [t.pos] :=
  ⟨[t], rfl, List.Subset.refl _⟩

theorem cons (h : Shows ts rest places) : Shows (t :: ts) rest (t.pos :: places) :=
  (token t ts).append h

/-- More tokens in front, whose places are not asked for. -/
theorem behind (h : Shows mid rest places) (suffix : mid <:+ ts) : Shows ts rest places := by
  obtain ⟨skipped, rfl⟩ := suffix
  obtain ⟨taken, rfl, seen⟩ := h
  refine ⟨skipped ++ taken, (List.append_assoc ..).symm, ?_⟩
  rw [List.map_append]
  exact List.subset_append_of_subset_right _ seen

/-- More tokens at the end. -/
theorem upTo (h : Shows ts mid places) (suffix : rest <:+ mid) : Shows ts rest places := by
  have all := h.append ((nil rest).behind suffix)
  rwa [List.append_nil] at all

theorem after (h : Shows ts rest places) : Shows (t :: ts) rest places :=
  h.behind (List.suffix_cons t ts)

theorem before (h : Shows ts (t :: rest) places) : Shows ts rest places :=
  h.upTo (List.suffix_cons t rest)

theorem suffix (h : Shows ts rest places) : rest <:+ ts := by
  obtain ⟨taken, rfl, _⟩ := h
  exact List.suffix_append _ _

/-- A place takes a token. -/
theorem length_lt {pos : Pos} (h : Shows ts rest places) (some : pos ∈ places) :
    rest.length < ts.length := by
  obtain ⟨taken, rfl, seen⟩ := h
  cases taken with
  | nil => cases seen some
  | cons t taken =>
      rw [List.length_append, List.length_cons]
      omega

end Shows

/-! ## Types -/

/-- The tokens of a type. -/
inductive Ty.Derives : List Token → Ty → List Token → Prop where
  | named {t : Token} {rest : List Token} {x : String} {ty : Ty} (named : t.kind = .name x)
      (known : Ty.ofName? x = some ty) : Derives (t :: rest) ty rest
  | array {bracket len close : Token} {ts rest : List Token} {n : Int64} {elem : Ty}
      (opened : bracket.kind = .symbol .lbracket) (length : len.kind = .int n) (least : 0 ≤ n)
      (closed : close.kind = .symbol .rbracket) (elements : Derives ts elem rest) :
      Derives (bracket :: len :: close :: ts) (.array n.toNatClampNeg elem) rest

/-- The tokens of the type of a declaration, which may be left out. -/
inductive Ty.Declared : List Token → Option Ty → List Token → Prop where
  | absent {ts : List Token} : Declared ts none ts
  | given {ts rest : List Token} {ty : Ty} (type : ty.Derives ts rest) : Declared ts (some ty) rest

namespace Ty

variable {ts rest : List Token} {ty : Ty}

theorem ofName?_eq_some {x : String} (known : Ty.ofName? x = some ty) :
    ty = .int ∨ ty = .float32 ∨ ty = .bool := by
  unfold Ty.ofName? at known
  split at known <;> simp_all

theorem Derives.wellFormed (h : ty.Derives ts rest) : ty.WellFormed := by
  induction h with
  | named _ known => rcases ofName?_eq_some known with rfl | rfl | rfl <;> trivial
  | array _ _ _ _ _ ih => exact ⟨Int64.toNatClampNeg_lt _, ih⟩

theorem Derives.suffix (h : ty.Derives ts rest) : rest <:+ ts := by
  induction h with
  | named => exact List.suffix_cons _ _
  | array _ _ _ _ _ ih =>
      exact ih.trans (List.suffix_append [_, _, _] _)

theorem Declared.suffix {ty : Option Ty} (h : Declared ts ty rest) : rest <:+ ts := by
  cases h with
  | absent => exact List.suffix_rfl
  | given type => exact type.suffix

theorem Declared.wellFormed {ty : Option Ty} (h : Declared ts ty rest) :
    ∀ t ∈ ty, t.WellFormed := by
  cases h with
  | absent => rintro _ ⟨⟩
  | given type =>
      rintro _ ⟨⟩
      exact type.wellFormed

end Ty

/-! ## Expressions -/

namespace Expr

/-- An expression, or a part of the arguments of a call. -/
inductive Phrase where
  | expr (e : Expr)
  /-- The first arguments, with a comma after each. -/
  | begun (es : List Expr)
  | args (es : List Expr)

/-- The tokens of an expression and of arguments. Which operators bind tighter is not
    told. -/
inductive Phrase.Derives : List Token → Phrase → List Token → Prop where
  | int {t : Token} {rest : List Token} {n : Int64} (here : t.kind = .int n) :
      Phrase.Derives (t :: rest) (.expr (.int t.pos n.toInt)) rest
  | float {t : Token} {rest : List Token} {x : Float} (here : t.kind = .float x) :
      Phrase.Derives (t :: rest) (.expr (.float t.pos x)) rest
  | str {t : Token} {rest : List Token} {s : String} (here : t.kind = .str s) :
      Phrase.Derives (t :: rest) (.expr (.str t.pos s)) rest
  | name {t : Token} {rest : List Token} {x : String} (here : t.kind = .name x) :
      Phrase.Derives (t :: rest) (.expr (Parser.nameAlone t.pos x)) rest
  | parens {paren close : Token} {ts rest : List Token} {e : Expr}
      (opened : paren.kind = .symbol .lparen) (inner : Phrase.Derives ts (.expr e) (close :: rest))
      (closed : close.kind = .symbol .rparen) : Phrase.Derives (paren :: ts) (.expr e) rest
  | call {callee paren close : Token} {ts rest : List Token} {f : String} {es : List Expr}
      (named : callee.kind = .name f) (other : Ty.ofName? f = none)
      (opened : paren.kind = .symbol .lparen) (args : Phrase.Derives ts (.args es) (close :: rest))
      (closed : close.kind = .symbol .rparen) :
      Phrase.Derives (callee :: paren :: ts) (.expr (.call callee.pos f es)) rest
  | convert {type paren close : Token} {ts rest : List Token} {x : String} {ty : Ty} {e : Expr}
      (named : type.kind = .name x) (known : Ty.ofName? x = some ty)
      (opened : paren.kind = .symbol .lparen)
      (args : Phrase.Derives ts (.args [e]) (close :: rest))
      (closed : close.kind = .symbol .rparen) :
      Phrase.Derives (type :: paren :: ts) (.expr (.convert type.pos ty e)) rest
  | print {package dot member paren close : Token} {ts rest : List Token} {x y : String}
      {style : PrintStyle} {es : List Expr} (named : package.kind = .name x)
      (dotted : dot.kind = .symbol .dot) (chosen : member.kind = .name y)
      (known : Parser.printStyle? x y = some style) (opened : paren.kind = .symbol .lparen)
      (args : Phrase.Derives ts (.args es) (close :: rest))
      (closed : close.kind = .symbol .rparen) :
      Phrase.Derives (package :: dot :: member :: paren :: ts)
        (.expr (.print package.pos x style es)) rest
  | index {bracket close : Token} {ts mid rest : List Token} {a i : Expr}
      (array : Phrase.Derives ts (.expr a) (bracket :: mid))
      (opened : bracket.kind = .symbol .lbracket)
      (inner : Phrase.Derives mid (.expr i) (close :: rest))
      (closed : close.kind = .symbol .rbracket) : Phrase.Derives ts (.expr (.index a.pos a i)) rest
  | unary {sign : Token} {ts rest : List Token} {op : UnaryOp} {e : Expr}
      (known : Parser.unaryOp? sign.kind = some op) (operand : Phrase.Derives ts (.expr e) rest) :
      Phrase.Derives (sign :: ts) (.expr (.unary sign.pos op e)) rest
  | binary {sign : Token} {ts mid rest : List Token} {op : BinaryOp} {l r : Expr}
      (left : Phrase.Derives ts (.expr l) (sign :: mid))
      (known : Parser.binaryOp? sign.kind = some op) (right : Phrase.Derives mid (.expr r) rest) :
      Phrase.Derives ts (.expr (.binary sign.pos op l r)) rest
  | start {ts : List Token} : Phrase.Derives ts (.begun []) ts
  | more {comma : Token} {ts mid rest : List Token} {es : List Expr} {e : Expr}
      (before : Phrase.Derives ts (.begun es) mid)
      (arg : Phrase.Derives mid (.expr e) (comma :: rest)) (parted : comma.kind = .symbol .comma) :
      Phrase.Derives ts (.begun (es ++ [e])) rest
  | last {ts mid rest : List Token} {es : List Expr} {e : Expr}
      (before : Phrase.Derives ts (.begun es) mid) (arg : Phrase.Derives mid (.expr e) rest) :
      Phrase.Derives ts (.args (es ++ [e])) rest
  | ended {ts rest : List Token} {es : List Expr} (before : Phrase.Derives ts (.begun es) rest) :
      Phrase.Derives ts (.args es) rest

abbrev Derives (ts : List Token) (e : Expr) (rest : List Token) : Prop :=
  (Phrase.expr e).Derives ts rest

def Phrase.WellFormed : Phrase → Prop
  | .expr e => e.WellFormed
  | .begun es | .args es => ∀ e ∈ es, e.WellFormed

def Phrase.places : Phrase → List Pos
  | .expr e => e.places
  | .begun es | .args es => placesOfAll es

variable {ts rest : List Token} {ph : Phrase} {e : Expr}

theorem nameAlone_wellFormed (pos : Pos) (x : String) : (Parser.nameAlone pos x).WellFormed := by
  unfold Parser.nameAlone
  split
  · rw [WellFormed]
    trivial
  · rw [WellFormed]
    trivial
  · next notTrue notFalse =>
      rw [WellFormed]
      exact ⟨notTrue, notFalse⟩

theorem places_nameAlone (pos : Pos) (x : String) : (Parser.nameAlone pos x).places = [pos] := by
  unfold Parser.nameAlone
  split <;> rfl

theorem package_of_printStyle? {package member : String} {style : PrintStyle}
    (known : Parser.printStyle? package member = some style) : package = "fmt" := by
  unfold Parser.printStyle? at known
  split at known <;> simp_all

theorem Phrase.Derives.wellFormed (h : ph.Derives ts rest) : ph.WellFormed := by
  have concat {es : List Expr} {e : Expr} (before : ∀ e ∈ es, e.WellFormed) (arg : e.WellFormed) :
      ∀ a ∈ es ++ [e], a.WellFormed :=
    List.forall_mem_append.mpr ⟨before, List.forall_mem_singleton.mpr arg⟩
  induction h with
  | @int _ _ n =>
      rw [Phrase.WellFormed, Expr.WellFormed]
      exact ⟨n.le_toInt, n.toInt_lt⟩
  | float | str =>
      rw [Phrase.WellFormed, Expr.WellFormed]
      trivial
  | name => exact nameAlone_wellFormed _ _
  | parens _ _ _ ih => exact ih
  | call _ other _ _ _ ih =>
      rw [Phrase.WellFormed, Expr.WellFormed]
      exact ⟨other, ih⟩
  | convert _ known _ _ _ ih =>
      rw [Phrase.WellFormed, Expr.WellFormed]
      exact ⟨Ty.ofName?_eq_some known, ih _ List.mem_cons_self⟩
  | print _ _ _ known _ _ _ ih =>
      rw [Phrase.WellFormed, Expr.WellFormed]
      exact ⟨package_of_printStyle? known, ih⟩
  | index _ _ _ _ ih ih' | binary _ _ _ ih ih' =>
      rw [Phrase.WellFormed, Expr.WellFormed]
      exact ⟨ih, ih'⟩
  | unary _ _ ih =>
      rw [Phrase.WellFormed, Expr.WellFormed]
      exact ih
  | start => exact List.forall_mem_nil _
  | more _ _ _ ih ih' | last _ _ ih ih' => exact concat ih ih'
  | ended _ ih => exact ih

theorem Phrase.Derives.shows (h : ph.Derives ts rest) : Shows ts rest ph.places := by
  have concat {ts mid rest : List Token} {es : List Expr} {e : Expr}
      (before : Shows ts mid (placesOfAll es)) (arg : Shows mid rest e.places) :
      Shows ts rest (placesOfAll (es ++ [e])) := by
    rw [placesOfAll_append, placesOfAll, placesOfAll, List.append_nil]
    exact before.append arg
  induction h with
  | int | float | str => exact .token _ _
  | name =>
      rw [Phrase.places, places_nameAlone]
      exact .token _ _
  | parens _ _ _ ih => exact ih.before.after
  | call _ _ _ _ _ ih => exact ih.before.after.cons
  | @convert _ _ _ _ _ _ _ e _ _ _ _ _ ih =>
      rw [Phrase.places, placesOfAll, placesOfAll, List.append_nil] at ih
      exact ih.before.after.cons
  | print _ _ _ _ _ _ _ ih => exact ih.before.after.after.after.cons
  | @index _ _ _ _ _ a i _ _ _ _ ih ih' =>
      have both := ih.before.append ih'.before
      exact both.mono (List.cons_subset.mpr
        ⟨List.mem_append_left _ a.pos_mem_places, List.Subset.refl _⟩)
  | unary _ _ ih => exact ih.cons
  | @binary sign _ _ _ _ l r _ _ _ ih ih' =>
      have all := ih.append ih'.cons
      refine all.mono ?_
      change sign.pos :: (l.places ++ r.places) ⊆ l.places ++ sign.pos :: r.places
      grind
  | start => exact .nil _
  | more _ _ _ ih ih' => exact concat ih ih'.before
  | last _ _ ih ih' => exact concat ih ih'
  | ended _ ih => exact ih

theorem Derives.length_lt (h : e.Derives ts rest) : rest.length < ts.length :=
  h.shows.length_lt e.pos_mem_places

theorem Derives.shows_value (h : e.Derives ts rest) :
    Shows ts rest (placesOfAll (some e).toList) := by
  rw [Option.toList_some, placesOfAll, placesOfAll, List.append_nil]
  exact h.shows

/-- No expression begins with a reserved word. -/
theorem Phrase.Derives.first (h : ph.Derives ts rest) (phrase : ph = .expr e) (w : Keyword) :
    next ts ≠ some (.keyword w) := by
  induction h generalizing e with
  | int here | float here | str here | name here => simp [next, here]
  | parens opened => simp [next, opened]
  | call named | convert named | print named => simp [next, named]
  | index _ _ _ _ ih | binary _ _ _ ih => exact ih rfl
  | unary known =>
      intro word
      rw [next, List.head?_cons, Option.map_some, Option.some.injEq] at word
      rw [word] at known
      cases known
  | start | more | last | ended => cases phrase

end Expr

/-! ## Statements -/

namespace Stmt

/-- The tokens of a declaration. Its type is left out only if it has a value. -/
inductive Declaration : List Token → Stmt → List Token → Prop where
  | typed {word named : Token} {ts rest : List Token} {x : String} {ty : Ty}
      (here : word.kind = .keyword .var) (name : named.kind = .name x)
      (type : ty.Derives ts rest) :
      Declaration (word :: named :: ts) (.var word.pos x (some ty) none) rest
  | var {word named eq : Token} {ts mid rest : List Token} {x : String} {ty : Option Ty} {e : Expr}
      (here : word.kind = .keyword .var) (name : named.kind = .name x)
      (type : Ty.Declared ts ty (eq :: mid)) (given : eq.kind = .symbol .assign)
      (value : e.Derives mid rest) :
      Declaration (word :: named :: ts) (.var word.pos x ty (some e)) rest
  | const {word named eq : Token} {ts mid rest : List Token} {x : String} {ty : Option Ty}
      {e : Expr} (here : word.kind = .keyword .const) (name : named.kind = .name x)
      (type : Ty.Declared ts ty (eq :: mid)) (given : eq.kind = .symbol .assign)
      (value : e.Derives mid rest) :
      Declaration (word :: named :: ts) (.const word.pos x ty e) rest

/-- The tokens of a statement that begins with an expression. -/
inductive Simple : List Token → Stmt → List Token → Prop where
  | expr {t : Token} {ts rest : List Token} {e : Expr} (value : e.Derives (t :: ts) rest) :
      Simple (t :: ts) (.expr t.pos e) rest
  | bump {t sign : Token} {ts rest : List Token} {e : Expr} (up : Bool)
      (target : e.Derives (t :: ts) (sign :: rest))
      (stepped : sign.kind = .symbol (if up then .plusPlus else .minusMinus)) :
      Simple (t :: ts) (.bump t.pos e up) rest
  | define {t sign : Token} {ts mid rest : List Token} {pos : Pos} {x : String} {e : Expr}
      (name : Expr.Derives (t :: ts) (.name pos x) (sign :: mid))
      (defined : sign.kind = .symbol .define) (value : e.Derives mid rest) :
      Simple (t :: ts) (.var t.pos x none (some e)) rest
  | assign {t sign : Token} {ts mid rest : List Token} {target e : Expr} {op : Option ArithOp}
      (place : target.Derives (t :: ts) (sign :: mid))
      (known : Parser.assignOp? sign.kind = some op) (value : e.Derives mid rest) :
      Simple (t :: ts) (.assign t.pos target op e) rest

/-- The tokens of what an `if` tests, after a first statement of its own. -/
inductive Condition : List Token → Option Stmt → Expr → List Token → Prop where
  | plain {ts rest : List Token} {pos : Pos} {e : Expr} (value : Simple ts (.expr pos e) rest) :
      Condition ts none e rest
  | after {semicolon : Token} {ts mid rest : List Token} {st : Stmt} {e : Expr}
      (first : Simple ts st (semicolon :: mid)) (parted : semicolon.kind = .symbol .semicolon)
      (value : e.Derives mid rest) : Condition ts (some st) e rest

/-- A statement, or a part of one that holds others. -/
inductive Phrase where
  | stmt (st : Stmt)
  /-- The first statements after a brace. -/
  | begun (body : List Stmt)
  /-- Statements in braces, the first of which is at a place. -/
  | block (pos : Pos) (body : List Stmt)
  | alternative (st : Option Stmt)

/-- The tokens of a statement and of its parts. -/
inductive Phrase.Derives : List Token → Phrase → List Token → Prop where
  | declaration {ts rest : List Token} {st : Stmt} (declared : Declaration ts st rest) :
      Phrase.Derives ts (.stmt st) rest
  | simple {ts rest : List Token} {st : Stmt} (simple : Simple ts st rest) :
      Phrase.Derives ts (.stmt st) rest
  | if_ {word : Token} {ts mid last rest : List Token} {init : Option Stmt} {cond : Expr}
      {pos : Pos} {body : List Stmt} {orelse : Option Stmt} (here : word.kind = .keyword .if_)
      (tested : Condition ts init cond mid) (then_ : Phrase.Derives mid (.block pos body) last)
      (otherwise : Phrase.Derives last (.alternative orelse) rest) :
      Phrase.Derives (word :: ts) (.stmt (.if_ word.pos init cond body orelse)) rest
  | inner {ts rest : List Token} {pos : Pos} {body : List Stmt}
      (block : Phrase.Derives ts (.block pos body) rest) :
      Phrase.Derives ts (.stmt (.block pos body)) rest
  | return_ {word : Token} {rest : List Token} (here : word.kind = .keyword .return_) :
      Phrase.Derives (word :: rest) (.stmt (.return_ word.pos none)) rest
  | returnValue {word : Token} {ts rest : List Token} {e : Expr}
      (here : word.kind = .keyword .return_) (value : e.Derives ts rest) :
      Phrase.Derives (word :: ts) (.stmt (.return_ word.pos (some e))) rest
  | start {ts : List Token} : Phrase.Derives ts (.begun []) ts
  | more {ts empty mid last rest : List Token} {body : List Stmt} {st : Stmt}
      (before : Phrase.Derives ts (.begun body) (empty ++ mid))
      (empties : ∀ t ∈ empty, t.kind = .symbol .semicolon)
      (next : Phrase.Derives mid (.stmt st) last)
      (terminated : Parser.Parses.Terminated (some .rbrace) last rest) :
      Phrase.Derives ts (.begun (body ++ [st])) rest
  | block {brace close : Token} {ts empty rest : List Token} {body : List Stmt}
      (opened : brace.kind = .symbol .lbrace)
      (inside : Phrase.Derives ts (.begun body) (empty ++ close :: rest))
      (empties : ∀ t ∈ empty, t.kind = .symbol .semicolon)
      (closed : close.kind = .symbol .rbrace) :
      Phrase.Derives (brace :: ts) (.block brace.pos body) rest
  | noElse {ts : List Token} : Phrase.Derives ts (.alternative none) ts
  | elseIf {word nested : Token} {ts rest : List Token} {st : Stmt}
      (here : word.kind = .keyword .else_) (again : nested.kind = .keyword .if_)
      (tested : Phrase.Derives (nested :: ts) (.stmt st) rest) :
      Phrase.Derives (word :: nested :: ts) (.alternative (some st)) rest
  | else_ {word : Token} {ts rest : List Token} {pos : Pos} {body : List Stmt}
      (here : word.kind = .keyword .else_) (block : Phrase.Derives ts (.block pos body) rest) :
      Phrase.Derives (word :: ts) (.alternative (some (.block pos body))) rest

abbrev Derives (ts : List Token) (st : Stmt) (rest : List Token) : Prop :=
  (Phrase.stmt st).Derives ts rest

def Phrase.WellFormed : Phrase → Prop
  | .stmt st => st.WellFormed
  | .begun body | .block _ body => ∀ st ∈ body, st.WellFormed
  | .alternative o => ∀ st ∈ o, st.IsAlternative ∧ st.WellFormed

def Phrase.places : Phrase → List Pos
  | .stmt st => st.places
  | .begun body => placesOfAll body
  | .block pos body => pos :: placesOfAll body
  | .alternative o => placesOfOption o

variable {ts rest : List Token} {st : Stmt} {ph : Phrase}

theorem Declaration.wellFormed (h : Declaration ts st rest) : st.IsDeclaration ∧ st.WellFormed := by
  cases h with
  | typed _ _ type =>
      rw [WellFormed, Shaped]
      refine ⟨trivial, .inl rfl, ?_, ?_⟩ <;> rintro _ ⟨⟩
      exact type.wellFormed
  | var _ _ type _ value =>
      rw [WellFormed, Shaped]
      refine ⟨trivial, .inr rfl, type.wellFormed, ?_⟩
      rintro _ ⟨⟩
      exact value.wellFormed
  | const _ _ type _ value =>
      rw [WellFormed, Shaped]
      exact ⟨trivial, type.wellFormed, value.wellFormed⟩

theorem Simple.wellFormed (h : Simple ts st rest) : st.IsHead IsPlainName ∧ st.WellFormed := by
  cases h with
  | expr value =>
      rw [WellFormed, Shaped]
      exact ⟨trivial, value.wellFormed⟩
  | bump _ target =>
      rw [WellFormed, Shaped]
      exact ⟨trivial, target.wellFormed⟩
  | define name _ value =>
      have plain := name.wellFormed
      rw [Expr.Phrase.WellFormed, Expr.WellFormed] at plain
      rw [WellFormed, Shaped]
      refine ⟨plain, .inr rfl, ?_, ?_⟩ <;> rintro _ ⟨⟩
      exact value.wellFormed
  | assign place _ value =>
      rw [WellFormed, Shaped]
      exact ⟨trivial, place.wellFormed, value.wellFormed⟩

theorem Condition.wellFormed {init : Option Stmt} {cond : Expr} (h : Condition ts init cond rest) :
    (∀ st ∈ init, st.IsHead IsPlainName ∧ st.WellFormed) ∧ cond.WellFormed := by
  cases h with
  | plain value =>
      have wf := value.wellFormed.2
      rw [WellFormed, Shaped] at wf
      refine ⟨?_, wf⟩
      rintro _ ⟨⟩
  | after first _ value =>
      refine ⟨?_, value.wellFormed⟩
      rintro _ ⟨⟩
      exact first.wellFormed

theorem Simple.first (h : Simple ts st rest) (w : Keyword) : next ts ≠ some (.keyword w) := by
  cases h with
  | expr value => exact value.first rfl w
  | bump _ target => exact target.first rfl w
  | define name => exact name.first rfl w
  | assign place => exact place.first rfl w

/-- What begins with `if` is an alternative. -/
theorem Derives.isAlternative (h : st.Derives ts rest) (here : next ts = some (.keyword .if_)) :
    st.IsAlternative := by
  cases h with
  | declaration declared =>
      cases declared with
      | typed other | var other | const other => simp [next, other] at here
  | simple simple => exact absurd here (simple.first _)
  | if_ | inner => trivial
  | return_ other | returnValue other => simp [next, other] at here

theorem Phrase.Derives.wellFormed (h : ph.Derives ts rest) : ph.WellFormed := by
  induction h with
  | declaration declared => exact declared.wellFormed.2
  | simple simple => exact simple.wellFormed.2
  | if_ _ tested _ _ then_ otherwise =>
      rw [Phrase.WellFormed, Stmt.WellFormed, Shaped]
      exact ⟨tested.wellFormed.1, tested.wellFormed.2, then_, otherwise⟩
  | inner _ ih =>
      rw [Phrase.WellFormed, Stmt.WellFormed, Shaped]
      exact ih
  | return_ =>
      rw [Phrase.WellFormed, Stmt.WellFormed, Shaped]
      rintro _ ⟨⟩
  | returnValue _ value =>
      rw [Phrase.WellFormed, Stmt.WellFormed, Shaped]
      rintro _ ⟨⟩
      exact value.wellFormed
  | start => exact List.forall_mem_nil _
  | more _ _ _ _ before next =>
      exact List.forall_mem_append.mpr ⟨before, List.forall_mem_singleton.mpr next⟩
  | block _ _ _ _ inside => exact inside
  | noElse => rintro _ ⟨⟩
  | elseIf _ again tested ih =>
      rintro _ ⟨⟩
      exact ⟨Stmt.Derives.isAlternative tested (congrArg some again), ih⟩
  | else_ _ _ ih =>
      rintro _ ⟨⟩
      refine ⟨trivial, ?_⟩
      rw [Stmt.WellFormed, Shaped]
      exact ih

theorem Declaration.shows (h : Declaration ts st rest) : Shows ts rest st.places := by
  cases h with
  | typed _ _ type => exact ((Shows.nil _).behind type.suffix).after.cons
  | var _ _ type _ value => exact (value.shows_value.after.behind type.suffix).after.cons
  | const _ _ type _ value => exact (value.shows.after.behind type.suffix).after.cons

/-- The place of a statement is that of its first token. -/
theorem shows_first {t : Token} {places : List Pos} (h : Shows (t :: ts) rest places)
    {pos : Pos} (some : pos ∈ places) : Shows (t :: ts) rest (t.pos :: places) := by
  obtain ⟨taken, split, seen⟩ := h
  cases taken with
  | nil => cases seen some
  | cons t' taken =>
      obtain ⟨rfl, _⟩ := List.cons.inj split
      exact ⟨_, split, List.cons_subset.mpr ⟨List.mem_cons_self, seen⟩⟩

theorem Simple.shows (h : Simple ts st rest) : Shows ts rest st.places := by
  cases h with
  | @expr _ _ _ e value => exact shows_first value.shows e.pos_mem_places
  | @bump _ _ _ _ e _ target _ => exact shows_first target.shows.before e.pos_mem_places
  | @define _ _ _ _ _ _ _ e name _ value =>
      have some : e.pos ∈ Expr.placesOfAll (some e).toList :=
        List.mem_append_left _ e.pos_mem_places
      exact shows_first (value.shows_value.behind name.shows.before.suffix) some
  | @assign _ _ _ _ _ target e _ place _ value =>
      exact shows_first (place.shows.before.append value.shows)
        (List.mem_append_right _ e.pos_mem_places)

theorem Condition.shows {init : Option Stmt} {cond : Expr} (h : Condition ts init cond rest) :
    Shows ts rest (placesOfOption init ++ cond.places) := by
  cases h with
  | plain value => exact value.shows.mono (List.subset_cons_self _ _)
  | after first _ value => exact first.shows.before.append value.shows

theorem Phrase.Derives.shows (h : ph.Derives ts rest) : Shows ts rest ph.places := by
  induction h with
  | declaration declared => exact declared.shows
  | simple simple => exact simple.shows
  | if_ _ tested _ _ then_ otherwise =>
      have body := then_.mono (List.subset_cons_self _ _)
      exact ((tested.shows.append body).append otherwise).cons
  | inner _ ih => exact ih
  | return_ => exact .token _ _
  | returnValue _ value => exact value.shows_value.cons
  | start => exact .nil _
  | more _ _ _ terminated before next =>
      rw [Phrase.places, placesOfAll_append, placesOfAll, placesOfAll, List.append_nil]
      exact before.append ((next.upTo terminated.suffix).behind (List.suffix_append _ _))
  | @block _ close _ empty rest _ _ _ _ _ inside =>
      have behind : rest <:+ empty ++ close :: rest :=
        (List.suffix_cons close rest).trans (List.suffix_append _ _)
      exact (inside.upTo behind).cons
  | noElse => exact .nil _
  | elseIf _ _ _ ih => exact ih.after
  | else_ _ _ ih => exact ih.after

theorem Derives.length_lt (h : st.Derives ts rest) : rest.length < ts.length :=
  h.shows.length_lt st.pos_mem_places

end Stmt

end Treewalk
