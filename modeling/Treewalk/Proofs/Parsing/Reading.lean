import Treewalk.Grammar.Program

/-! # Parsers on given tokens

What a parser does with tokens of given kinds, whatever their places are. A
parser that is not done yet acts, behind these tokens, as another parser does.
-/

namespace Treewalk.Parser

open Token (Kind)

variable {α β γ : Type}

section Sequences

variable {p q : Parser α} {f : α → Parser β} {stop : Pos} {ts rest : List Token}

theorem bind_of_ok {a : α} (first : p stop ts = .ok a rest) :
    (p >>= f) stop ts = f a stop rest := by
  simp only [bind, first]

theorem bind_of_error {e : ParseError} (first : p stop ts = .error e rest) :
    (p >>= f) stop ts = .error e rest := by
  simp only [bind, first]

/-- Only the outcome of the first parser counts for the second. -/
theorem bind_congr (same : p stop ts = q stop rest) :
    (p >>= f) stop ts = (q >>= f) stop rest := by
  simp only [bind, same]

end Sequences

/-- The kind of the next token. -/
def next (ts : List Token) : Option Kind := ts.head?.map Token.kind

/-- On tokens of the kinds `ks`, at most `n` up to the end, and behind them what
    `follow` allows, the parser gets to a good value and goes on as `more` does. -/
def Acts (n : Nat) (p : Parser β) (ks : List Kind) (follow : Option Kind → Prop)
    (good : α → Prop) (more : α → Parser β) : Prop :=
  ∀ stop ts rest, ts.map Token.kind = ks → follow (next rest) → (ts ++ rest).length ≤ n →
    ∃ a, good a ∧ p stop (ts ++ rest) = more a stop rest

/-- The parser takes exactly the tokens of the kinds `ks` and gives a good value. -/
abbrev Reads (n : Nat) (p : Parser α) (ks : List Kind) (follow : Option Kind → Prop)
    (good : α → Prop) : Prop :=
  Acts n p ks follow good pure

/-- What comes next if tokens of the kinds `ks` do, and then what `follow` allows. -/
def Begins (ks : List Kind) (follow : Option Kind → Prop) : Option Kind → Prop :=
  match ks with
  | [] => follow
  | k :: _ => (· = some k)

/-- One more element, as far as `f` tells. -/
def Adds (f : α → β) (acc : List α) (a : α) (all : List α) : Prop :=
  ∃ a', f a' = f a ∧ all = acc ++ [a']

/-- More elements, as far as `f` tells. -/
def AddsAll (f : α → β) (acc as all : List α) : Prop :=
  ∃ as', as'.map f = as.map f ∧ all = acc ++ as'

theorem Adds.cons {f : α → β} {acc mid as all : List α} {a : α} (h : Adds f acc a mid)
    (hs : AddsAll f mid as all) : AddsAll f acc (a :: as) all := by
  obtain ⟨a', like, rfl⟩ := h
  obtain ⟨as', likes, rfl⟩ := hs
  exact ⟨a' :: as', by simp [like, likes], by simp⟩

/-- No matter what comes next. -/
def Anything (_ : Option Kind) : Prop := True

section Rules

variable {n : Nat} {k : Kind} {ks ks' : List Kind} {follow follow' : Option Kind → Prop}
  {good : α → Prop}

theorem begins_next {ts rest : List Token} (spelled : ts.map Token.kind = ks)
    (allowed : follow (next rest)) : Begins ks follow (next (ts ++ rest)) := by
  subst spelled
  cases ts with
  | nil => exact allowed
  | cons t ts => rfl

theorem Acts.mono {m : Nat} {p : Parser β} {more : α → Parser β} (le : m ≤ n)
    (h : Acts n p ks follow good more) : Acts m p ks follow good more :=
  fun stop ts rest spelled allowed short => h stop ts rest spelled allowed (Nat.le_trans short le)

theorem Acts.imp {p : Parser β} {more : α → Parser β} {good' : α → Prop}
    (h : Acts n p ks follow good more) (follows : ∀ k, follow' k → follow k)
    (goods : ∀ a, good a → good' a) : Acts n p ks follow' good' more := by
  intro stop ts rest spelled allowed short
  obtain ⟨a, isGood, same⟩ := h stop ts rest spelled (follows _ allowed) short
  exact ⟨a, goods a isGood, same⟩

/-- A parser that goes on in the same way with another value. -/
theorem Acts.with {p : Parser β} {more : α → Parser β} {more' : γ → Parser β} {good' : γ → Prop}
    (h : Acts n p ks follow good more) (f : α → γ) (goods : ∀ a, good a → good' (f a))
    (same : ∀ a, more a = more' (f a)) : Acts n p ks follow good' more' := by
  intro stop ts rest spelled allowed short
  obtain ⟨a, isGood, acts⟩ := h stop ts rest spelled allowed short
  exact ⟨f a, goods a isGood, by rw [acts, same]⟩

theorem Acts.here {more : α → Parser β} (a : α) (isGood : good a) :
    Acts n (more a) [] follow good more := by
  intro stop ts rest spelled _ _
  obtain rfl := List.map_eq_nil_iff.mp spelled
  exact ⟨a, isGood, rfl⟩

theorem Acts.pure {a : α} (isGood : good a) : Reads n (pure a) [] follow good :=
  .here a isGood

/-- A parser that first acts as another one, which then acts as a third one. -/
theorem Acts.trans {good' : γ → Prop} {p : Parser β} {mid : α → Parser β} {more : γ → Parser β}
    (h : Acts n p ks follow good mid) (hm : ∀ a, good a → Acts n (mid a) ks' follow' good' more)
    (follows : ∀ k, Begins ks' follow' k → follow k) :
    Acts n p (ks ++ ks') follow' good' more := by
  intro stop ts rest spelled allowed short
  obtain ⟨ts₁, ts₂, rfl, first, second⟩ := List.map_eq_append_iff.mp spelled
  rw [List.append_assoc] at short ⊢
  obtain ⟨a, isGood, same⟩ := h stop ts₁ (ts₂ ++ rest) first
    (follows _ (begins_next second allowed)) short
  simp only [List.length_append] at short
  obtain ⟨c, isGood', same'⟩ := hm a isGood stop ts₂ rest second allowed
    (by simp only [List.length_append]; omega)
  exact ⟨c, isGood', same.trans same'⟩

/-- A parser that has nothing more to do before what follows. -/
theorem Acts.settle {p : Parser α} {more : α → Parser α} (h : Acts n p ks follow good more)
    (hm : ∀ a, Reads n (more a) [] follow' (· = a)) (follows : ∀ k, follow' k → follow k) :
    Reads n p ks follow' good := by
  have := h.trans (fun a isGood => (hm a).imp (fun _ allowed => allowed)
    fun b same => (same ▸ isGood : good b)) follows
  rwa [List.append_nil] at this

theorem Acts.seq {p : Parser β} {more : α → Parser β} {f : β → Parser γ}
    (h : Acts n p ks follow good more) :
    Acts n (p >>= f) ks follow good fun a => more a >>= f := by
  intro stop ts rest spelled allowed short
  obtain ⟨a, isGood, same⟩ := h stop ts rest spelled allowed short
  exact ⟨a, isGood, bind_congr same⟩

theorem Acts.bound {p : Parser α} {f : α → Parser β} (h : Reads n p ks follow good) :
    Acts n (p >>= f) ks follow good f :=
  h.seq

/-- One parser after the other. -/
theorem Acts.bind {good' : γ → Prop} {p : Parser α} {f : α → Parser β} {more : γ → Parser β}
    (h : Reads n p ks follow good) (hf : ∀ a, good a → Acts n (f a) ks' follow' good' more)
    (follows : ∀ k, Begins ks' follow' k → follow k) :
    Acts n (p >>= f) (ks ++ ks') follow' good' more :=
  h.bound.trans hf follows

/-- A parser that only looks after one. -/
theorem Acts.last {good' : γ → Prop} {p : Parser α} {f : α → Parser β} {more : γ → Parser β}
    (h : Reads n p ks follow good) (hf : ∀ a, good a → Acts n (f a) [] follow' good' more)
    (follows : ∀ k, follow' k → follow k) : Acts n (p >>= f) ks follow' good' more := by
  have := Acts.bind h hf follows
  rwa [List.append_nil] at this

/-- A parser that makes its value out of that of another one. -/
theorem Acts.map {good' : β → Prop} {p : Parser α} {f : α → β} (h : Reads n p ks follow good)
    (hf : ∀ a, good a → good' (f a)) :
    Reads n (p >>= fun a => Pure.pure (f a)) ks follow good' :=
  Acts.last h (fun a isGood => .pure (hf a isGood)) fun _ allowed => allowed

/-- A parser after one that only looks. -/
theorem Acts.look {good' : γ → Prop} {p : Parser α} {f : α → Parser β} {more : γ → Parser β}
    (h : Reads n p [] follow good) (hf : ∀ a, good a → Acts n (f a) ks follow' good' more)
    (follows : ∀ k, Begins ks follow' k → follow k) :
    Acts n (p >>= f) ks follow' good' more :=
  Acts.bind h hf follows

/-- A parser after one that only looks and is known to give `a`. -/
theorem Acts.sees {good' : γ → Prop} {p : Parser α} {a : α} {f : α → Parser β} {more : γ → Parser β}
    (h : Reads n p [] follow (· = a)) (hf : Acts n (f a) ks follow' good' more)
    (follows : ∀ k, Begins ks follow' k → follow k) :
    Acts n (p >>= f) ks follow' good' more :=
  Acts.look h (by rintro _ rfl; exact hf) follows

/-- A parser after one that takes a token. -/
theorem Acts.take {good' : γ → Prop} {p : Parser α} {f : α → Parser β} {more : γ → Parser β}
    (h : Reads (n + 1) p [k] Anything good)
    (hf : ∀ a, good a → Acts n (f a) ks follow good' more) :
    Acts (n + 1) (p >>= f) (k :: ks) follow good' more := by
  intro stop ts rest spelled allowed short
  obtain ⟨t, ts, rfl, head, tail⟩ := List.map_eq_cons_iff.mp spelled
  obtain ⟨a, isGood, same⟩ := h.bound stop [t] (ts ++ rest) (by simp [head]) trivial short
  obtain ⟨c, isGood', same'⟩ := hf a isGood stop ts rest tail allowed (by simpa using short)
  exact ⟨c, isGood', same.trans same'⟩

/-- A parser after one that takes a token, within the same bound. -/
theorem Acts.drop {good' : γ → Prop} {p : Parser α} {f : α → Parser β} {more : γ → Parser β}
    (h : Reads n p [k] Anything good)
    (hf : ∀ a, good a → Acts n (f a) ks follow good' more) :
    Acts n (p >>= f) (k :: ks) follow good' more :=
  Acts.bind h hf fun _ _ => trivial

/-! ## Parsers that take at most one token -/

theorem reads_place : Reads n place [] follow fun _ => True := by
  intro stop ts rest spelled _ _
  obtain rfl := List.map_eq_nil_iff.mp spelled
  exact ⟨_, trivial, rfl⟩

theorem reads_peek : Reads n peek [] follow follow := by
  intro stop ts rest spelled allowed _
  obtain rfl := List.map_eq_nil_iff.mp spelled
  exact ⟨_, allowed, rfl⟩

theorem Acts.place {p : Pos → Parser β} {more : α → Parser β}
    (h : ∀ pos, Acts n (p pos) ks follow good more) :
    Acts n (place >>= p) ks follow good more :=
  Acts.look reads_place (fun pos _ => h pos) fun _ _ => trivial

/-- A parser that looks at the first token. -/
theorem Acts.peek {p : Option Kind → Parser β} {more : α → Parser β}
    (h : Acts n (p (some k)) (k :: ks) follow good more) :
    Acts n (peek >>= p) (k :: ks) follow good more :=
  Acts.sees reads_peek h fun _ same => same

/-- A parser that looks where the first token stands, and at the token. -/
theorem Acts.first {p : Pos → Option Kind → Parser β} {more : α → Parser β}
    (h : ∀ pos, Acts n (p pos (some k)) (k :: ks) follow good more) :
    Acts n (Parser.place >>= fun pos => Parser.peek >>= p pos) (k :: ks) follow good more :=
  Acts.place fun pos => Acts.peek (h pos)

theorem reads_advance : Reads n advance [k] follow fun _ => True := by
  intro stop ts rest spelled _ _
  obtain ⟨t, rfl⟩ := List.length_eq_one_iff.mp (by simpa using congrArg List.length spelled)
  exact ⟨(), trivial, rfl⟩

theorem reads_nextIs (s : Symbol) :
    Reads n (nextIs s) [] (· = some (.symbol s)) (· = true) := by
  refine Acts.look reads_peek ?_ fun _ same => same
  rintro _ rfl
  exact .pure (by simp)

theorem reads_nextIs_not (s : Symbol) :
    Reads n (nextIs s) [] (· ≠ some (.symbol s)) (· = false) := by
  refine Acts.look reads_peek ?_ fun _ other => other
  intro k other
  exact .pure (beq_eq_false_iff_ne.mpr other)

theorem reads_eat (s : Symbol) : Reads n (eat s) [.symbol s] follow (· = true) := by
  refine Acts.look (reads_nextIs s) ?_ fun _ same => same
  rintro _ rfl
  exact Acts.drop reads_advance fun _ _ => .pure rfl

theorem reads_eat_not (s : Symbol) : Reads n (eat s) [] (· ≠ some (.symbol s)) (· = false) := by
  refine Acts.look (reads_nextIs_not s) ?_ fun _ other => other
  rintro _ rfl
  exact .pure rfl

theorem reads_expect (s : Symbol) : Reads n (expect s) [.symbol s] follow fun _ => True := by
  refine Acts.drop (reads_eat s) ?_
  rintro _ rfl
  exact .pure trivial

theorem reads_expectWord (w : Keyword) :
    Reads n (expectWord w) [.keyword w] follow fun _ => True := by
  refine Acts.look reads_peek ?_ fun _ same => same
  rintro _ rfl
  simp only [beq_self_eq_true, if_true]
  exact reads_advance

theorem reads_name (x : String) : Reads n name [.name x] follow (· = x) := by
  refine Acts.look reads_peek ?_ fun _ same => same
  rintro _ rfl
  exact Acts.drop reads_advance fun _ _ => .pure rfl

theorem reads_terminator (closer : Option Symbol) :
    Reads n (terminator closer) [.symbol .semicolon] follow fun _ => True := by
  refine Acts.drop (reads_eat .semicolon) ?_
  rintro _ rfl
  exact .pure trivial

/-! ## Recursion and repetition -/

/-- `inner` does what `p` does with at most `n` tokens. -/
def Near (n : Nat) (inner p : Parser α) : Prop :=
  ∀ stop ts, ts.length ≤ n → inner stop ts = p stop ts

theorem Near.acts {inner p : Parser β} {more : α → Parser β} (near : Near n inner p)
    (h : Acts n p ks follow good more) : Acts n inner ks follow good more := by
  intro stop ts rest spelled allowed short
  rw [near stop _ short]
  exact h stop ts rest spelled allowed short

/-- A recursive parser reads what its body does, if the body takes a token before
    it calls the parser again. -/
theorem Acts.fix {body : Parser α → Parser α} (some : ks ≠ [])
    (h : ∀ n inner, Near n inner (fix body) → Reads (n + 1) (body inner) ks follow good) :
    Reads n (fix body) ks follow good := by
  intro stop ts rest spelled allowed _
  obtain ⟨t, ts, rfl⟩ : ∃ t ts', ts = t :: ts' :=
    List.exists_cons_of_ne_nil (by rintro rfl; exact some spelled.symm)
  rw [Parser.fix]
  refine h (ts ++ rest).length _ (fun stop' ts' short => ?_) stop _ rest spelled allowed (by simp)
  exact if_pos (by simpa using Nat.lt_succ_of_le short)

theorem Acts.again {step : β → Parser (β × Bool)} {b : β} {good : β → Prop} (some : ks ≠ [])
    (h : Reads n (step b) ks follow fun r => r.2 = true ∧ good r.1) :
    Acts n (loop step b) ks follow good (loop step) := by
  intro stop ts rest spelled allowed short
  obtain ⟨⟨c, _⟩, ⟨rfl, isGood⟩, same⟩ := h stop ts rest spelled allowed short
  refine ⟨c, isGood, ?_⟩
  have shorter : rest.length < (ts ++ rest).length := by
    cases ts with
    | nil => exact absurd spelled.symm some
    | cons t ts =>
        rw [List.length_append, List.length_cons]
        omega
  rw [loop, same]
  exact if_pos shorter

theorem Acts.done {step : β → Parser (β × Bool)} {b : β} {good : β → Prop}
    (h : Reads n (step b) ks follow fun r => r.2 = false ∧ good r.1) :
    Reads n (loop step b) ks follow good := by
  intro stop ts rest spelled allowed short
  obtain ⟨⟨c, _⟩, ⟨rfl, isGood⟩, same⟩ := h stop ts rest spelled allowed short
  refine ⟨c, isGood, ?_⟩
  rw [loop, same]
  rfl

/-- Elements taken one after the other by a repeated step, up to what `f` keeps
    of them. -/
theorem Acts.each {σ : Type} (f : α → σ) {step : List α → Parser (List α × Bool)}
    {tokens : α → List Kind} {as : List α}
    (one : ∀ a ∈ as, tokens a ≠ [] ∧ ∀ acc, Reads n (step acc) (tokens a) Anything
      fun r => r.2 = true ∧ Adds f acc a r.1)
    (stop : ∀ acc, Reads n (loop step acc) ks follow (· = acc)) (acc : List α) :
    Reads n (loop step acc) (as.flatMap tokens ++ ks) follow (AddsAll f acc as) := by
  induction as generalizing acc with
  | nil => exact (stop acc).imp (fun _ allowed => allowed) (by rintro _ rfl; exact ⟨[], by simp⟩)
  | cons a as ih =>
      obtain ⟨⟨some, first⟩, others⟩ := List.forall_mem_cons.mp one
      rw [List.flatMap_cons, List.append_assoc]
      refine (Acts.again some (first acc)).trans (fun mid added => ?_) fun _ _ => trivial
      exact (ih others mid).imp (fun _ allowed => allowed) fun _ addedAll => added.cons addedAll

end Rules

end Treewalk.Parser
