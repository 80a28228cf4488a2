import Treewalk.Grammar.Error

/-! # Parsers

A parser reads from the front of a list of tokens. Whether it succeeds or
fails, it tells which tokens are left, so that another parser can go on from
there. Recursion is by `fix` and repetition by `loop`; both go on only with
fewer tokens than before, which makes every parser a total function. A parser
that would go on without taking a token, or step over the end, is `stuck`.
-/

namespace Treewalk

/-- What comes of parsing: a value or an error, and the tokens that are left. -/
inductive Parsed (α : Type) where
  | ok (value : α) (rest : List Token)
  | error (e : ParseError) (rest : List Token)

/-- A parser gets the place where the text ends and the tokens before it. -/
def Parser (α : Type) : Type := Pos → List Token → Parsed α

namespace Parser

variable {α β : Type}

instance : Monad Parser where
  pure a := fun _ ts => .ok a ts
  bind p f := fun stop ts =>
    match p stop ts with
    | .ok a rest => f a stop rest
    | .error e rest => .error e rest

/-- The next token, if there is one. -/
def peek : Parser (Option Token.Kind) := fun _ ts => .ok (ts.head?.map Token.kind) ts

/-- The place of the next token, or else of the end. -/
def place : Parser Pos := fun stop ts => .ok ((ts.head?.map Token.pos).getD stop) ts

/-- Fail at a place. -/
def failAt (pos : Pos) (fault : ParseFault) : Parser α := fun _ ts => .error ⟨fault, pos⟩ ts

/-- Fail because there is no way to go on. -/
def stuck : Parser α := do
  failAt (← place) .stuck

/-- Step over the next token. -/
def advance : Parser Unit
  | stop, [] => stuck stop []
  | _, _ :: rest => .ok () rest

/-- Fail at the next token, which is not what was looked for. -/
def unexpected (what : Expected) : Parser α := do
  failAt (← place) (.expected what (← peek))

/-- Whether a symbol comes next. -/
def nextIs (s : Symbol) : Parser Bool := do
  return (← peek) == some (.symbol s)

/-- Step over a symbol if it comes next, and tell whether it did. -/
def eat (s : Symbol) : Parser Bool := do
  if ← nextIs s then
    advance
    return true
  else
    return false

/-- Step over a symbol that has to come next. -/
def expect (s : Symbol) : Parser Unit := do
  if ← eat s then return () else unexpected (.symbol s)

/-- Step over a reserved word that has to come next. -/
def expectWord (k : Keyword) : Parser Unit := do
  if (← peek) == some (.keyword k) then advance else unexpected (.keyword k)

/-- A name. -/
def name : Parser String := do
  match ← peek with
  | some (.name x) => do
      advance
      return x
  | _ => unexpected .name

/-- What ends a declaration or statement: a semicolon, or that which closes the
    list it stands in, a symbol or the end of the text. -/
def terminator (closer : Option Symbol) : Parser Unit := do
  if ← eat .semicolon then return ()
  else if (← peek) == closer.map Token.Kind.symbol then return ()
  else unexpected .terminator

/-- A parser that refers to itself, on fewer tokens than before. -/
def fix (body : Parser α → Parser α) (stop : Pos) (ts : List Token) : Parsed α :=
  body (fun stop' ts' =>
    if ts'.length < ts.length then fix body stop' ts' else stuck stop' ts') stop ts
termination_by ts.length

/-- Repeat a step, which takes a token, as long as it says to go on. -/
def loop (step : β → Parser (β × Bool)) (b : β) (stop : Pos) (ts : List Token) : Parsed β :=
  match step b stop ts with
  | .ok (next, true) rest =>
      if rest.length < ts.length then loop step next stop rest else stuck stop rest
  | .ok (next, false) rest => .ok next rest
  | .error e rest => .error e rest
termination_by ts.length

end Parser

end Treewalk
