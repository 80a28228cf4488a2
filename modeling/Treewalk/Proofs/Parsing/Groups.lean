import Treewalk.Proofs.Parsing.Statements

/-! # Parameters in groups

Names of parameters that share a type are written together, with the type behind the
last of them. The parser keeps names that wait for their type; a comma alone does not
tell whether the group goes on or the next one begins.
-/

namespace Treewalk

open Token (Kind)

/-! ## Written groups -/

/-- Names of parameters with one type for all of them. -/
structure ParamGroup where
  names : List String
  ty : Ty
  named : names ≠ []
  /-- The type is one that can be written. -/
  written : ty.WellFormed

namespace ParamGroup

/-- Every name of the group with the type of the group. -/
def params (g : ParamGroup) : List Param := g.names.map (⟨·, g.ty⟩)

/-- Names one by one, as parts of a list with commas. -/
def nameParts (xs : List String) : List (List Kind) := xs.map fun x => [.name x]

/-- The tokens of a group. -/
def tokens (g : ParamGroup) : List Kind := commas (nameParts g.names) ++ g.ty.tokens

/-- The tokens of a list of groups, and of names without a type behind them, with commas
    in between. `comma` tells whether there is one behind the last as well. -/
def listTokens (groups : List ParamGroup) (loose : List String) (comma : Bool) : List Kind :=
  let parts := groups.map tokens ++ nameParts loose
  commas parts ++ if comma && !parts.isEmpty then [.symbol .comma] else []

end ParamGroup

/-- A list with commas, from its last part on. -/
theorem commas_concat (kss : List (List Kind)) (ks : List Kind) :
    commas (kss ++ [ks]) = kss.flatMap (· ++ [.symbol .comma]) ++ ks := by
  induction kss with
  | nil => simp [commas]
  | cons first kss ih => simp [Parser.commas_cons, ih]

namespace ParamGroup

/-- Only the last name of a group has no comma behind it. -/
theorem tokens_eq (g : ParamGroup) : ∃ xs x, g.names = xs ++ [x] ∧
    g.tokens = (nameParts xs).flatMap (· ++ [.symbol .comma]) ++ .name x :: g.ty.tokens := by
  obtain ⟨xs, x, same⟩ := (List.eq_nil_or_concat g.names).resolve_left g.named
  rw [List.concat_eq_append] at same
  refine ⟨xs, x, same, ?_⟩
  simp only [tokens, same, nameParts, List.map_append, List.map_singleton, commas_concat,
    List.append_assoc, List.singleton_append]

/-- With a comma at the end, there is one behind each part. -/
theorem listTokens_comma (groups : List ParamGroup) (loose : List String) :
    listTokens groups loose true = (groups.map tokens).flatMap (· ++ [.symbol .comma]) ++
      (nameParts loose).flatMap (· ++ [.symbol .comma]) := by
  rw [listTokens, ← List.flatMap_append]
  obtain none | ⟨parts, last, same⟩ := List.eq_nil_or_concat (groups.map tokens ++ nameParts loose)
  · simp [none, commas]
  · simp [same, commas_concat]

/-- A list that ends with a group. -/
theorem listTokens_group (groups : List ParamGroup) (g : ParamGroup) :
    listTokens (groups ++ [g]) [] false = listTokens groups [] true ++ g.tokens := by
  rw [listTokens_comma]
  simp [listTokens, nameParts, commas_concat]

/-- A list that ends with a name. -/
theorem listTokens_name (groups : List ParamGroup) (xs : List String) (x : String) :
    listTokens groups (xs ++ [x]) false = listTokens groups xs true ++ [.name x] := by
  rw [listTokens_comma]
  simp [listTokens, nameParts, ← List.append_assoc, commas_concat]

end ParamGroup

namespace Parser

variable {α β : Type} {n : Nat} {ks ks' : List Kind} {follow follow' : Option Kind → Prop}
  {what : Expected}

/-! ## Parsers that fail -/

/-- On tokens of the kinds `ks`, and behind them what `follow` allows, the parser fails
    behind them, where it looks for something else. -/
def Fails (n : Nat) (p : Parser α) (ks : List Kind) (follow : Option Kind → Prop)
    (what : Expected) : Prop :=
  ∀ stop ts rest, ts.map Token.kind = ks → follow (next rest) → (ts ++ rest).length ≤ n →
    p stop (ts ++ rest) = unexpected what stop rest

theorem Fails.here : Fails n (unexpected what : Parser α) [] follow what := by
  intro stop ts rest spelled _ _
  obtain rfl := List.map_eq_nil_iff.mp spelled
  rfl

theorem Fails.bind {p : Parser α} {f : α → Parser β} (h : Fails n p ks follow what) :
    Fails n (p >>= f) ks follow what := by
  intro stop ts rest spelled allowed short
  exact bind_of_error (h stop ts rest spelled allowed short)

theorem Fails.loop {step : β → Parser (β × Bool)} {b : β} (h : Fails n (step b) ks follow what) :
    Fails n (loop step b) ks follow what := by
  intro stop ts rest spelled allowed short
  rw [Parser.loop, h stop ts rest spelled allowed short]
  rfl

/-- A parser that gets somewhere and fails there. -/
theorem Acts.fails {p : Parser β} {good : α → Prop} {more : α → Parser β}
    (h : Acts n p ks follow good more) (hm : ∀ a, good a → Fails n (more a) ks' follow' what)
    (follows : ∀ k, Begins ks' follow' k → follow k) : Fails n p (ks ++ ks') follow' what := by
  intro stop ts rest spelled allowed short
  obtain ⟨ts₁, ts₂, rfl, first, second⟩ := List.map_eq_append_iff.mp spelled
  rw [List.append_assoc] at short ⊢
  obtain ⟨a, isGood, same⟩ := h stop ts₁ (ts₂ ++ rest) first
    (follows _ (begins_next second allowed)) short
  simp only [List.length_append] at short
  rw [same]
  exact hm a isGood stop ts₂ rest second allowed (by simp only [List.length_append]; omega)

/-! ## One step -/

variable {done : List Param} {waiting : List String} {x : String} {t : Ty}

/-- A name before a comma waits for its type. -/
theorem reads_paramStep_comma : Reads n (paramStep ⟨done, waiting⟩) [.name x, .symbol .comma] follow
    (· = (⟨done, waiting ++ [x]⟩, true)) := by
  refine Acts.look (reads_nextIs_not .rparen) ?_ (by rintro _ rfl; simp)
  rintro _ rfl
  refine Acts.drop (reads_name x) ?_
  rintro _ rfl
  refine Acts.drop (reads_eat .comma) ?_
  rintro _ rfl
  exact .pure rfl

/-- A type behind a name is that of all names that wait. -/
theorem acts_paramStep_type (wf : t.WellFormed) :
    Acts n (paramStep ⟨done, waiting⟩) (.name x :: t.tokens) follow (· = t)
      fun t => do
        return (⟨done ++ (waiting ++ [x]).map fun x => ⟨x, t⟩, []⟩, ← eat .comma) := by
  refine Acts.look (reads_nextIs_not .rparen) ?_ (by rintro _ rfl; simp)
  rintro _ rfl
  refine Acts.drop (reads_name x) ?_
  rintro _ rfl
  rw [← List.append_nil t.tokens]
  refine Acts.look (reads_eat_not .comma) ?_ fun _ begins => begins_type begins .comma (by decide)
  rintro _ rfl
  rw [List.append_nil]
  exact (reads_type wf).bound

theorem fails_type : Fails n type [] (· = some (.symbol .rparen)) .type := by
  intro stop ts rest spelled closed _
  obtain rfl := List.map_eq_nil_iff.mp spelled
  obtain ⟨⟨kind, pos⟩, first, same⟩ := Option.map_eq_some_iff.mp closed
  obtain ⟨more, rfl⟩ := List.head?_eq_some_iff.mp first
  cases same
  rw [type, fix]
  rfl

/-- A name in front of the closing parenthesis has no type. -/
theorem fails_paramStep : Fails n (paramStep ⟨done, waiting⟩) [.name x]
    (· = some (.symbol .rparen)) .type := by
  refine (reads_nextIs_not .rparen).bound.fails ?_ (by rintro _ rfl; simp)
  rintro _ rfl
  refine (reads_name x).bound.fails ?_ fun _ same => same
  rintro _ rfl
  refine (reads_eat_not .comma).bound.fails ?_ (by rintro _ rfl; simp)
  rintro _ rfl
  exact fails_type.bind

theorem reads_paramStep_end (ps : ParamList) :
    Reads n (paramStep ps) [] (· = some (.symbol .rparen)) (· = (ps, false)) := by
  refine Acts.look (reads_nextIs .rparen) ?_ fun _ same => same
  rintro _ rfl
  exact .pure rfl

/-! ## Whole lists -/

/-- Names with a comma behind each of them wait for their type. -/
theorem acts_names (xs : List String) :
    Acts n (loop paramStep ⟨done, waiting⟩)
      ((ParamGroup.nameParts xs).flatMap (· ++ [.symbol .comma])) Anything
      (· = ⟨done, waiting ++ xs⟩) (loop paramStep) := by
  induction xs generalizing waiting with
  | nil => exact .here _ (by simp)
  | cons x xs ih =>
      have first : Acts n (loop paramStep ⟨done, waiting⟩) [.name x, .symbol .comma] Anything
          (· = ⟨done, waiting ++ [x]⟩) (loop paramStep) :=
        Acts.again (by simp) (reads_paramStep_comma.imp (fun _ allowed => allowed)
          (by rintro _ rfl; exact ⟨rfl, rfl⟩))
      refine first.trans ?_ fun _ _ => trivial
      rintro _ rfl
      have others := @ih (waiting ++ [x])
      rwa [List.append_assoc] at others

/-- A group with a comma behind it. -/
theorem acts_group (g : ParamGroup) :
    Acts n (loop paramStep ⟨done, []⟩) (g.tokens ++ [.symbol .comma]) Anything
      (· = ⟨done ++ g.params, []⟩) (loop paramStep) := by
  obtain ⟨xs, x, names, tokens⟩ := g.tokens_eq
  rw [tokens, List.append_assoc]
  refine (acts_names xs).trans ?_ fun _ _ => trivial
  rintro _ rfl
  refine Acts.again (by simp) ((acts_paramStep_type g.written).trans ?_ fun _ same => same)
  rintro _ rfl
  refine Acts.map (reads_eat .comma) ?_
  rintro _ rfl
  exact ⟨rfl, by simp [ParamGroup.params, names]⟩

/-- A group at the end. -/
theorem reads_lastGroup (g : ParamGroup) :
    Reads n (loop paramStep ⟨done, []⟩) g.tokens (· = some (.symbol .rparen))
      (· = ⟨done ++ g.params, []⟩) := by
  obtain ⟨xs, x, names, tokens⟩ := g.tokens_eq
  rw [tokens]
  refine (acts_names xs).trans ?_ fun _ _ => trivial
  rintro _ rfl
  -- without a comma the step itself ends the list, before it gets to the parenthesis
  refine Acts.done ?_
  rw [← List.append_nil (Kind.name x :: g.ty.tokens)]
  refine (acts_paramStep_type g.written).trans ?_ fun _ same => same
  rintro _ rfl
  refine Acts.last (reads_eat_not .comma) ?_ (by rintro _ rfl; simp)
  rintro _ rfl
  exact .pure ⟨rfl, by simp [ParamGroup.params, names]⟩

/-- Groups with a comma behind each of them. -/
theorem acts_groups (groups : List ParamGroup) :
    Acts n (loop paramStep ⟨done, []⟩)
      ((groups.map ParamGroup.tokens).flatMap (· ++ [.symbol .comma])) Anything
      (· = ⟨done ++ groups.flatMap ParamGroup.params, []⟩) (loop paramStep) := by
  induction groups generalizing done with
  | nil => exact .here _ (by simp)
  | cons g groups ih =>
      refine (acts_group g).trans ?_ fun _ _ => trivial
      rintro _ rfl
      have others := @ih (done ++ g.params)
      rwa [List.append_assoc] at others

/-- Groups, and names that wait for their type, with a comma behind each of them. -/
theorem acts_listTokens (groups : List ParamGroup) (loose : List String) :
    Acts n (loop paramStep ⟨[], []⟩) (ParamGroup.listTokens groups loose true) Anything
      (· = ⟨groups.flatMap ParamGroup.params, loose⟩) (loop paramStep) := by
  rw [ParamGroup.listTokens_comma]
  refine (acts_groups groups).trans ?_ fun _ _ => trivial
  rintro _ rfl
  exact acts_names loose

/-- At the closing parenthesis the list is done. -/
theorem reads_loop_end (ps : ParamList) :
    Reads n (loop paramStep ps) [] (· = some (.symbol .rparen)) (· = ps) :=
  Acts.done ((reads_paramStep_end ps).imp (fun _ same => same) (by rintro _ rfl; exact ⟨rfl, rfl⟩))

theorem reads_loop_comma (groups : List ParamGroup) (loose : List String) :
    Reads n (loop paramStep ⟨[], []⟩) (ParamGroup.listTokens groups loose true)
      (· = some (.symbol .rparen)) (· = ⟨groups.flatMap ParamGroup.params, loose⟩) :=
  (acts_listTokens groups loose).settle reads_loop_end fun _ _ => trivial

theorem reads_loop_groups (groups : List ParamGroup) (comma : Bool) :
    Reads n (loop paramStep ⟨[], []⟩) (ParamGroup.listTokens groups [] comma)
      (· = some (.symbol .rparen)) (· = ⟨groups.flatMap ParamGroup.params, []⟩) := by
  cases comma with
  | true => exact reads_loop_comma groups []
  | false =>
      obtain rfl | ⟨groups, g, rfl⟩ := List.eq_nil_or_concat groups
      · exact reads_loop_end _
      · rw [List.concat_eq_append, ParamGroup.listTokens_group, List.flatMap_append,
          List.flatMap_singleton]
        refine (acts_listTokens groups []).trans ?_ fun _ _ => trivial
        rintro _ rfl
        exact reads_lastGroup g

/-- Groups give each name the type of its group. -/
theorem reads_params_groups (groups : List ParamGroup) (comma : Bool) :
    Reads n params (ParamGroup.listTokens groups [] comma) (· = some (.symbol .rparen))
      (· = groups.flatMap ParamGroup.params) := by
  refine Acts.last (reads_loop_groups groups comma) ?_ fun _ same => same
  rintro _ rfl
  exact .pure rfl

/-- Names at the end that have no type. Without a comma behind them, the type is missed
    behind the last name; with one, where the list is done. -/
theorem fails_params (groups : List ParamGroup) {loose : List String} (names : loose ≠ [])
    (comma : Bool) : Fails n params (ParamGroup.listTokens groups loose comma)
      (· = some (.symbol .rparen)) (if comma then .paramType else .type) := by
  obtain ⟨xs, x, rfl⟩ := (List.eq_nil_or_concat loose).resolve_left names
  cases comma with
  | true =>
      rw [← List.append_nil (ParamGroup.listTokens _ _ _)]
      refine (reads_loop_comma groups _).bound.fails ?_ fun _ same => same
      rintro _ rfl
      rw [if_neg (by simp)]
      exact .here
  | false =>
      rw [List.concat_eq_append, ParamGroup.listTokens_name]
      refine Fails.bind ((acts_listTokens groups xs).fails ?_ fun _ _ => trivial)
      rintro _ rfl
      exact fails_paramStep.loop

end Parser

/-- Groups in front of the closing parenthesis give every name, in order, with the type of
    its own group. Names without a type at the end are an error at the parenthesis. -/
theorem params_expand_groups (groups : List ParamGroup) (loose : List String) (comma : Bool)
    (stop : Pos) {ts : List Token} {close : Token} (rest : List Token)
    (spelled : ts.map Token.kind = ParamGroup.listTokens groups loose comma)
    (closes : close.kind = .symbol .rparen) :
    Parser.params stop (ts ++ close :: rest) =
      if loose = [] then .ok (groups.flatMap ParamGroup.params) (close :: rest)
      else .error ⟨.expected (if comma then .paramType else .type) (some (.symbol .rparen)),
        close.pos⟩ (close :: rest) := by
  have closed : Parser.next (close :: rest) = some (.symbol .rparen) := congrArg some closes
  split
  next none =>
    subst none
    obtain ⟨_, rfl, same⟩ :=
      Parser.reads_params_groups groups comma stop ts (close :: rest) spelled closed le_rfl
    exact same
  next names =>
    rw [Parser.fails_params groups names comma stop ts (close :: rest) spelled closed le_rfl,
      ← closes]
    rfl

/-- The tokens of `a, b int, t [3]float32,`. -/
def pairAndTable : List Token :=
  [⟨.name "a", ⟨1, 8⟩⟩, ⟨.symbol .comma, ⟨1, 9⟩⟩, ⟨.name "b", ⟨1, 11⟩⟩, ⟨.name "int", ⟨1, 13⟩⟩,
    ⟨.symbol .comma, ⟨1, 16⟩⟩, ⟨.name "t", ⟨1, 18⟩⟩, ⟨.symbol .lbracket, ⟨1, 20⟩⟩,
    ⟨.int 3, ⟨1, 21⟩⟩, ⟨.symbol .rbracket, ⟨1, 22⟩⟩, ⟨.name "float32", ⟨1, 23⟩⟩,
    ⟨.symbol .comma, ⟨1, 30⟩⟩]

/-- The whole list is that of two groups. Cut behind `t`, it is that of one group and a name
    without a type. -/
theorem params_expand_groups_pairAndTable :
    Parser.params ⟨1, 32⟩ (pairAndTable ++ [⟨.symbol .rparen, ⟨1, 31⟩⟩]) =
      .ok [⟨"a", .int⟩, ⟨"b", .int⟩, ⟨"t", .array 3 .float32⟩] [⟨.symbol .rparen, ⟨1, 31⟩⟩] ∧
    Parser.params ⟨1, 20⟩ (pairAndTable.take 6 ++ [⟨.symbol .rparen, ⟨1, 19⟩⟩]) =
      .error ⟨.expected .type (some (.symbol .rparen)), ⟨1, 19⟩⟩ [⟨.symbol .rparen, ⟨1, 19⟩⟩] :=
  let pair : ParamGroup := ⟨["a", "b"], .int, List.cons_ne_nil _ _, trivial⟩
  let table : ParamGroup := ⟨["t"], .array 3 .float32, List.cons_ne_nil _ _, by decide, trivial⟩
  ⟨params_expand_groups [pair, table] [] true ⟨1, 32⟩ [] (by decide) rfl,
    params_expand_groups [pair] ["t"] false ⟨1, 20⟩ [] (by decide) rfl⟩

end Treewalk
