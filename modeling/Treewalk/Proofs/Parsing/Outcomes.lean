import Treewalk.Proofs.Parsing.Reading

/-! # What comes of parsing

Parsers take tokens from the front and put none back. Either they give a value, of
which something is known together with the tokens that are left, or they fail: with
an error at one of the tokens or at the end, which finds one of the tokens in the
place of another, and never because they are stuck.

`Parses` says all of this at once. There is one rule for each way to put parsers
together, so one lemma for each parser is enough.
-/

namespace Treewalk

/-- The tokens that are left after parsing. -/
def Parsed.rest {α : Type} : Parsed α → List Token
  | .ok _ rest | .error _ rest => rest

namespace Parser

open Token (Kind)

variable {α β : Type}

/-- The places that errors may have: those of the tokens, and the end. -/
def Known (all : List Token) (stop pos : Pos) : Prop := pos ∈ all.map Token.pos ++ [stop]

/-- The errors that may come of the tokens `all` up to `stop`. -/
structure Explained (all : List Token) (stop : Pos) (e : ParseError) : Prop where
  moving : e.fault ≠ .stuck
  place : Known all stop e.pos
  found : ∀ what k, e.fault = .expected what (some k) → ∃ t ∈ all, t.kind = k

/-- The faults that are about what was read, not about a token that was looked for. -/
def Misread : ParseFault → Prop
  | .expected .. | .stuck => False
  | _ => True

/-- What may come of the tokens `ts`, which are the last ones of `all`: a value that
    `Q` allows with the tokens that are left, or an error of `all`. -/
inductive Comes (all : List Token) (stop : Pos) (ts : List Token) (Q : α → List Token → Prop) :
    Parsed α → Prop where
  | ok {a : α} {rest : List Token} (suffix : rest <:+ ts) (good : Q a rest) :
      Comes all stop ts Q (.ok a rest)
  | error {e : ParseError} {rest : List Token} (suffix : rest <:+ ts)
      (explained : Explained all stop e) : Comes all stop ts Q (.error e rest)

/-- What the parser does with the last tokens of `all`. -/
def Parses (all : List Token) (stop : Pos) (p : Parser α) (ts : List Token)
    (Q : α → List Token → Prop) : Prop :=
  ts <:+ all → Comes all stop ts Q (p stop ts)

section Rules

variable {all ts : List Token} {stop : Pos} {P Q : α → List Token → Prop}

/-- What comes of the tokens behind others comes of all of them. -/
theorem Comes.behind {mid : List Token} {out : Parsed α} (suffix : mid <:+ ts)
    (h : Comes all stop mid Q out) : Comes all stop ts Q out := by
  cases h with
  | ok later good => exact .ok (later.trans suffix) good
  | error later explained => exact .error (later.trans suffix) explained

namespace Parses

theorem imp {p : Parser α} (h : Parses all stop p ts P) (goods : ∀ a rest, P a rest → Q a rest) :
    Parses all stop p ts Q := by
  intro last
  cases out : p stop ts with
  | ok a rest =>
      cases out ▸ h last with
      | ok suffix good => exact .ok suffix (goods a rest good)
  | error e rest =>
      cases out ▸ h last with
      | error suffix explained => exact .error suffix explained

/-- What is known of a value that the parser gives. -/
theorem of_ok {p : Parser α} {a : α} {rest : List Token} (h : Parses ts stop p ts Q)
    (ok : p stop ts = .ok a rest) : Q a rest := by
  cases ok ▸ h List.suffix_rfl with
  | ok _ good => exact good

/-- What is known of an error that the parser fails with. -/
theorem of_error {p : Parser α} {e : ParseError} {rest : List Token} (h : Parses ts stop p ts Q)
    (failed : p stop ts = .error e rest) : Explained ts stop e := by
  cases failed ▸ h List.suffix_rfl with
  | error _ explained => exact explained

theorem suffix {p : Parser α} (h : Parses ts stop p ts Q) : (p stop ts).rest <:+ ts := by
  cases out : p stop ts with
  | ok a rest =>
      cases out ▸ h List.suffix_rfl with
      | ok suffix _ => exact suffix
  | error e rest =>
      cases out ▸ h List.suffix_rfl with
      | error suffix _ => exact suffix

theorem within {p : Parser α} (h : ts <:+ all → Parses all stop p ts Q) :
    Parses all stop p ts Q :=
  fun last => h last last

theorem pure {a : α} (good : Q a ts) : Parses all stop (pure a) ts Q :=
  fun _ => .ok List.suffix_rfl good

theorem failAt {pos : Pos} {fault : ParseFault} (known : Known all stop pos)
    (misread : Misread fault) : Parses all stop (failAt pos fault) ts Q := by
  intro _
  refine .error List.suffix_rfl ⟨?_, known, ?_⟩
  · rintro rfl
    exact misread
  · rintro what k rfl
    exact misread.elim

/-- The next token, or the end, is a place to fail at. -/
theorem known_next (last : ts <:+ all) : Known all stop ((ts.head?.map Token.pos).getD stop) := by
  cases ts with
  | nil => exact List.mem_append_right _ List.mem_cons_self
  | cons t rest =>
      have member : t ∈ all := last.subset List.mem_cons_self
      exact List.mem_append_left _ (List.mem_map_of_mem member)

theorem unexpected {what : Expected} : Parses all stop (unexpected what) ts Q := by
  intro last
  refine .error List.suffix_rfl ⟨by simp, known_next last, ?_⟩
  intro what' k same
  cases ts with
  | nil => cases same
  | cons t rest =>
      cases same
      exact ⟨t, last.subset List.mem_cons_self, rfl⟩

/-- One parser after the other. -/
theorem bind {p : Parser α} {f : α → Parser β} {Q : β → List Token → Prop}
    (h : Parses all stop p ts P)
    (next : ∀ a rest, rest <:+ ts → P a rest → Parses all stop (f a) rest Q) :
    Parses all stop (p >>= f) ts Q := by
  intro last
  cases out : p stop ts with
  | ok a rest =>
      rw [bind_of_ok out]
      cases out ▸ h last with
      | ok suffix good => exact (next a rest suffix good (suffix.trans last)).behind suffix
  | error e rest =>
      rw [bind_of_error out]
      cases out ▸ h last with
      | error suffix explained => exact .error suffix explained

theorem peek {f : Option Kind → Parser α} (h : Parses all stop (f (next ts)) ts Q) :
    Parses all stop (peek >>= f) ts Q :=
  h

/-- The place is that of the next token, if there is one. -/
theorem place {f : Pos → Parser α}
    (h : ∀ pos, (∀ t rest, ts = t :: rest → t.pos = pos) → Known all stop pos →
      Parses all stop (f pos) ts Q) :
    Parses all stop (place >>= f) ts Q := by
  intro last
  refine h _ ?_ (known_next last) last
  rintro t rest rfl
  rfl

/-- A parser after one that takes a token. -/
theorem token {p : Parser α} {f : α → Parser β} {T : Token → α → Prop} {Q : β → List Token → Prop}
    (h : Parses all stop p ts fun a rest => ∃ t, ts = t :: rest ∧ T t a)
    (next : ∀ t rest a, ts = t :: rest → T t a → Parses all stop (f a) rest Q) :
    Parses all stop (p >>= f) ts Q := by
  apply h.bind
  rintro a rest _ ⟨t, same, taken⟩
  exact next t rest a same taken

theorem takes {k : Kind} (here : next ts = some k) :
    Parses all stop Parser.advance ts fun _ rest => ∃ t, ts = t :: rest ∧ t.kind = k := by
  intro last
  cases ts with
  | nil => cases here
  | cons t rest => exact .ok (List.suffix_cons t rest) ⟨t, rfl, Option.some.inj here⟩

theorem advance {f : Unit → Parser α} {k : Kind} (here : next ts = some k)
    (h : ∀ t rest, ts = t :: rest → t.kind = k → Parses all stop (f ()) rest Q) :
    Parses all stop (advance >>= f) ts Q :=
  (takes here).token fun t rest _ => h t rest

/-! ## Parsers that take at most one token -/

theorem nextIs {s : Symbol} {f : Bool → Parser α}
    (yes : next ts = some (.symbol s) → Parses all stop (f true) ts Q)
    (no : next ts ≠ some (.symbol s) → Parses all stop (f false) ts Q) :
    Parses all stop (nextIs s >>= f) ts Q := by
  intro last
  change Comes all stop ts Q (f (next ts == some (.symbol s)) stop ts)
  by_cases here : next ts = some (.symbol s)
  · rw [beq_iff_eq.mpr here]
    exact yes here last
  · rw [beq_eq_false_iff_ne.mpr here]
    exact no here last

theorem eat {s : Symbol} {f : Bool → Parser α}
    (yes : ∀ t rest, ts = t :: rest → t.kind = .symbol s → Parses all stop (f true) rest Q)
    (no : next ts ≠ some (.symbol s) → Parses all stop (f false) ts Q) :
    Parses all stop (eat s >>= f) ts Q := by
  have looks : Parses all stop (Parser.eat s) ts fun eaten rest =>
      if eaten then ∃ t, ts = t :: rest ∧ t.kind = .symbol s
      else rest = ts ∧ next ts ≠ some (.symbol s) := by
    apply nextIs
    · intro here
      apply advance here
      intro t rest same kind
      exact pure ⟨t, same, kind⟩
    · exact fun other => pure ⟨rfl, other⟩
  apply looks.bind
  intro eaten rest _ seen
  cases eaten with
  | true =>
      obtain ⟨t, same, kind⟩ := seen
      exact yes t rest same kind
  | false =>
      obtain ⟨rfl, other⟩ := seen
      exact no other

theorem expect {s : Symbol} {f : Unit → Parser α}
    (h : ∀ t rest, ts = t :: rest → t.kind = .symbol s → Parses all stop (f ()) rest Q) :
    Parses all stop (expect s >>= f) ts Q := by
  have expected : Parses all stop (Parser.expect s) ts fun _ rest =>
      ∃ t, ts = t :: rest ∧ t.kind = .symbol s := by
    apply eat
    · exact fun t rest same kind => pure ⟨t, same, kind⟩
    · exact fun _ => unexpected
  exact expected.token fun t rest _ => h t rest

theorem expectWord {w : Keyword} {f : Unit → Parser α}
    (h : ∀ t rest, ts = t :: rest → t.kind = .keyword w → Parses all stop (f ()) rest Q) :
    Parses all stop (expectWord w >>= f) ts Q := by
  have expected : Parses all stop (Parser.expectWord w) ts fun _ rest =>
      ∃ t, ts = t :: rest ∧ t.kind = .keyword w := by
    apply peek
    split
    · next here => exact takes (beq_iff_eq.mp here)
    · exact unexpected
  exact expected.token fun t rest _ => h t rest

theorem name {f : String → Parser α}
    (h : ∀ t rest x, ts = t :: rest → t.kind = .name x → Parses all stop (f x) rest Q) :
    Parses all stop (name >>= f) ts Q := by
  have named : Parses all stop Parser.name ts fun x rest =>
      ∃ t, ts = t :: rest ∧ t.kind = .name x := by
    apply peek
    split
    · next x here =>
        apply advance here
        exact fun t rest same kind => pure ⟨t, same, kind⟩
    · exact unexpected
  exact named.token h

/-- A declaration or statement has ended: with a semicolon, or before what closes the
    list it stands in. -/
def Terminated (closer : Option Symbol) (ts rest : List Token) : Prop :=
  (∃ t, ts = t :: rest ∧ t.kind = .symbol .semicolon) ∨
    rest = ts ∧ next ts = closer.map Kind.symbol

theorem Terminated.suffix {closer : Option Symbol} {rest : List Token}
    (h : Terminated closer ts rest) : rest <:+ ts := by
  rcases h with ⟨t, rfl, _⟩ | ⟨rfl, _⟩
  · exact List.suffix_cons t rest
  · exact List.suffix_rfl

theorem terminator {closer : Option Symbol} {f : Unit → Parser α}
    (h : ∀ rest, Terminated closer ts rest → Parses all stop (f ()) rest Q) :
    Parses all stop (terminator closer >>= f) ts Q := by
  have ended : Parses all stop (Parser.terminator closer) ts fun _ => Terminated closer ts := by
    apply eat
    · exact fun t rest same kind => pure (.inl ⟨t, same, kind⟩)
    · intro _
      apply peek
      split
      · next here => exact pure (.inr ⟨rfl, beq_iff_eq.mp here⟩)
      · exact unexpected
  apply ended.bind
  exact fun _ rest _ => h rest

theorem skipSemicolons {f : Unit → Parser α}
    (h : ∀ empty rest, ts = empty ++ rest → (∀ t ∈ empty, t.kind = .symbol .semicolon) →
      Parses all stop (f ()) rest Q) :
    Parses all stop (skipSemicolons >>= f) ts Q := by
  intro last
  have split := (List.takeWhile_append_dropWhile
    (p := fun t : Token => t.kind == .symbol .semicolon) (l := ts)).symm
  have suffix := List.dropWhile_suffix (l := ts) fun t : Token => t.kind == .symbol .semicolon
  refine (h _ _ split ?_ (suffix.trans last)).behind suffix
  intro t member
  exact beq_iff_eq.mp (List.all_eq_true.mp List.all_takeWhile t member)

/-! ## Repetition and recursion -/

/-- What holds after a step: what every step keeps, behind a token more, if it says to
    go on, or else what holds in the end. -/
def Stepped (I Q : β → List Token → Prop) (ts : List Token) : β × Bool → List Token → Prop
  | (b, true), rest => I b rest ∧ rest.length < ts.length
  | (b, false), rest => Q b rest

/-- What every step keeps, a repeated step does. It never stands still, because a step
    that says to go on takes a token. -/
theorem loop {step : β → Parser (β × Bool)} {I Q : β → List Token → Prop} {b : β}
    (h : ∀ b mid, mid <:+ ts → I b mid → Parses all stop (step b) mid (Stepped I Q mid))
    (start : I b ts) : Parses all stop (loop step b) ts Q := by
  have run : ∀ b mid, mid <:+ ts → I b mid → Parses all stop (Parser.loop step b) mid Q := by
    intro b mid behind inside last
    have out := h b mid behind inside last
    fun_induction Parser.loop step b stop mid with
    | case1 b mid next rest same fewer ih =>
        cases same ▸ out with
        | ok suffix good =>
            have out' := h next rest (suffix.trans behind) good.1 (suffix.trans last)
            exact (ih (suffix.trans behind) good.1 (suffix.trans last) out').behind suffix
    | case2 b mid next rest same standing =>
        cases same ▸ out with
        | ok suffix good => exact absurd good.2 standing
    | case3 b mid next rest same =>
        cases same ▸ out with
        | ok suffix good => exact .ok suffix good
    | case4 b mid e rest same =>
        cases same ▸ out with
        | error suffix explained => exact .error suffix explained
  exact run b ts List.suffix_rfl start

/-- What the body of a recursive parser does if its inner parser does it on fewer
    tokens, the parser does. -/
theorem fix {body : Parser α → Parser α} {Q : List Token → α → List Token → Prop}
    (h : ∀ inner ts, (∀ mid, mid.length < ts.length → Parses all stop inner mid (Q mid)) →
      Parses all stop (body inner) ts (Q ts)) :
    Parses all stop (fix body) ts (Q ts) := by
  induction size : ts.length using Nat.strongRecOn generalizing ts with
  | ind size ih =>
      intro last
      rw [Parser.fix]
      refine h _ ts (fun mid fewer last => ?_) last
      rw [if_pos fewer]
      exact ih _ (size ▸ fewer) rfl last

end Parses

end Rules

end Parser

end Treewalk
