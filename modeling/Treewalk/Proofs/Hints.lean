import Treewalk.Proofs.Decimal.Shortest
import Treewalk.Proofs.Lexing.Borders
import Treewalk.Proofs.Parsing.Soundness
import Treewalk.Report.Outcome

/-! # Hints follow the whole message

Hints for errors in source text are chosen by phrases in the message. The message of a
parser that did not find what it looked for names both, the one and the other. So the
phrases come from what was looked for, from the kind of the token that was found, and from
the characters of a string literal that was found, but never from those of a name.
-/

namespace Treewalk

open Lexeme (Word)

/-! ## Texts in texts -/

namespace Text

theorem occursIn_iff (needle text : List Char) : occursIn needle text ↔ needle <:+: text := by
  induction text with
  | nil => simp [occursIn]
  | cons c cs ih => simp [occursIn, ih, List.infix_cons_iff]

theorem mentions_iff (s needle : String) : mentions s needle ↔ needle.toList <:+: s.toList :=
  occursIn_iff ..

/-- A text without some character is found on one side of it. -/
theorem infix_append_cons_iff {needle left right : List Char} {c : Char} (absent : c ∉ needle) :
    needle <:+: left ++ c :: right ↔ needle <:+: left ∨ needle <:+: right := by
  have ends (text : List Char) (pre : needle <+: text ++ c :: right) : needle <+: text :=
    Lexeme.prefix_of_stop (fun d mem (same : d = c) => absent (same ▸ mem)) (by simp) pre
  constructor
  · intro inside
    induction left with
    | nil =>
        rw [List.nil_append, List.infix_cons_iff] at inside
        exact inside.imp_left fun pre => (ends [] pre).isInfix
    | cons d left ih =>
        rw [List.cons_append, List.infix_cons_iff] at inside
        obtain pre | later := inside
        · exact .inl (ends (d :: left) pre).isInfix
        · exact (ih later).imp_left List.infix_cons
  · rintro (inside | inside)
    · exact inside.trans (List.infix_append [] left _)
    · exact inside.trans (List.IsSuffix.isInfix ⟨left ++ [c], by simp⟩)

/-- A text with some character in it is found where that character is. -/
theorem infix_left_of_absent {before after left right : List Char} {c : Char} (absent : c ∉ right)
    (inside : before ++ c :: after <:+: left ++ right) : before ++ [c] <:+: left := by
  obtain ⟨s, t, same⟩ := inside
  have same' : (s ++ (before ++ [c])) ++ (after ++ t) = left ++ right := by simpa using same
  obtain ⟨more, rfl, _⟩ | ⟨more, eq, rfl⟩ := List.append_eq_append_iff.mp same'
  · exact ⟨s, more, by simp⟩
  · obtain rfl | ⟨more, d, rfl⟩ := List.eq_nil_or_concat more
    · exact ⟨s, [], by simpa using eq⟩
    · have last := congrArg List.getLast? eq
      simp at last
      subst last
      simp at absent

/-- Between marks that do not occur in them, texts are found only if they are equal. -/
theorem eq_of_enclosed_infix {inner outer : List Char} {c : Char} (hi : c ∉ inner) (ho : c ∉ outer)
    (inside : c :: (inner ++ [c]) <:+: c :: (outer ++ [c])) : inner = outer := by
  obtain ⟨s, t, same⟩ := inside
  cases s with
  | nil =>
      have cut {text more : List Char} (absent : c ∉ text) :
          (text ++ c :: more).takeWhile (· != c) = text := by
        refine Lexeme.takeWhile_eq (fun d mem => ?_) (by simp)
        simpa using fun same : d = c => absent (same ▸ mem)
      have tails : inner ++ c :: t = outer ++ [c] := by simpa using same
      rw [← cut hi, tails, cut ho]
  | cons d s =>
      have count := congrArg (List.count c) (List.cons.inj same).2
      simp [List.count_eq_zero_of_not_mem hi, List.count_eq_zero_of_not_mem ho] at count
      omega

end Text

/-! ## Phrases -/

namespace Hint

/-- The phrases that come before the word for names in the choice of a hint. -/
def overriding : List String :=
  ["did you mean '&&'", "did you mean '||'", "Unsupported package function", "Unknown type",
    "Non-name on left side of ':='", "'package'", r"'}'", r"'{'"]

/-- The phrases that decide about the hint for a message with "Expected" in it. -/
def phrases : List String := overriding ++ ["identifier"]

/-- The phrase comes from the token that was found. -/
def Shows (found : Option Token.Kind) (phrase : String) : Prop :=
  match found with
  | some (.name _) => phrase = "identifier"
  | some (.str s) => Text.mentions (Text.quoted s) phrase
  | some (.keyword k) => phrase = (Token.Kind.keyword k).text
  | some (.symbol s) => phrase = (Token.Kind.symbol s).text
  | some (.int _) | some (.float _) | none => False

/-- The phrase comes from what was looked for, or from what was found. -/
def Names (what : Expected) (found : Option Token.Kind) (phrase : String) : Prop :=
  phrase = what.text ∨ Shows found phrase

/-- A name that was found is one that a text can have. -/
def Legal (found : Option Token.Kind) : Prop :=
  ∀ x, found = some (.name x) → Word x.toList ∧ ∀ k : Keyword, x ≠ k.text

/-- Tokens that differ in a name, in a number, or in a string that has the same phrases in it. -/
inductive Swaps : Token.Kind → Token.Kind → Prop where
  | name (x : String) {y : String} : Word y.toList → (∀ k : Keyword, y ≠ k.text) →
      Swaps (.name x) (.name y)
  | int (m n : Int64) : Swaps (.int m) (.int n)
  | float (x y : Float) : Swaps (.float x) (.float y)
  | str {s t : String} :
      (∀ w ∈ phrases, Text.mentions (Text.quoted t) w = Text.mentions (Text.quoted s) w) →
      Swaps (.str s) (.str t)

/-- A reserved word or a symbol. -/
def IsFixed : Token.Kind → Prop
  | .keyword _ | .symbol _ => True
  | _ => False

theorem isFixed_keyword (k : Keyword) : IsFixed (.keyword k) := trivial

theorem isFixed_symbol (s : Symbol) : IsFixed (.symbol s) := trivial

/-- The phrases without a space in them. -/
def words : List String := ["'package'", r"'}'", r"'{'", "identifier"]

/-- What messages have in front of the last space before a token. -/
def openings : List String := ["Expected", " found", " found identifier", " found number"]

theorem plain_phrase {w : String} (mem : w ∈ phrases) : ',' ∉ w.toList ∧ '"' ∉ w.toList := by
  have all : ∀ w ∈ phrases, ',' ∉ w.toList ∧ '"' ∉ w.toList := by simp [phrases, overriding]
  exact all w mem

/-- A phrase is a single word, or it starts with one that is in no opening. -/
theorem phrase_cases {w : String} (mem : w ∈ phrases) :
    w ∈ words ∨ ∃ first rest, w.toList = first ++ ' ' :: rest ∧
      ∀ o ∈ openings, ¬ first ++ [' '] <:+: o.toList ++ [' '] := by
  have all : ∀ w ∈ phrases, w ∈ words ∨
      let first := w.toList.takeWhile (· != ' ')
      w.toList = first ++ ' ' :: w.toList.drop (first.length + 1) ∧
      ∀ o ∈ openings, Text.occursIn (first ++ [' ']) (o.toList ++ [' ']) = false := by
    decide +kernel
  obtain word | ⟨same, none⟩ := all w mem
  · exact .inl word
  · refine .inr ⟨_, _, same, fun o mem => ?_⟩
    rw [← Text.occursIn_iff, none o mem]
    exact Bool.false_ne_true

/-- In front of a text without spaces there is no phrase but what that text has, or its
    opening. -/
theorem phrase_infix_iff {w o : String} {text : List Char} (mem : w ∈ phrases)
    (opening : o ∈ openings) (spaceless : ' ' ∉ text) :
    w.toList <:+: o.toList ++ ' ' :: text ↔
      w ∈ words ∧ (w.toList <:+: o.toList ∨ w.toList <:+: text) := by
  have all : ∀ w ∈ words, ' ' ∉ w.toList := by simp [words]
  obtain word | ⟨first, rest, same, none⟩ := phrase_cases mem
  · rw [Text.infix_append_cons_iff (all w word), and_iff_right word]
  · refine iff_of_false (fun inside => ?_) fun ⟨word, _⟩ => ?_
    · rw [same, show o.toList ++ ' ' :: text = (o.toList ++ [' ']) ++ text by simp] at inside
      exact none o opening (Text.infix_left_of_absent spaceless inside)
    · exact all w word (by simp [same])

/-- The only word in an opening is that for a name. -/
theorem word_infix_opening {w o : String} (word : w ∈ words) (opening : o ∈ openings) :
    w.toList <:+: o.toList ↔ w = "identifier" ∧ o = " found identifier" := by
  have all : ∀ w ∈ words, ∀ o ∈ openings,
      Text.occursIn w.toList o.toList ↔ w = "identifier" ∧ o = " found identifier" := by
    decide +kernel
  rw [← Text.occursIn_iff]
  exact all w word o opening

/-- Text in single quotes. -/
def enclosed (text : List Char) : List Char := '\'' :: (text ++ ['\''])

/-- A word is the one for names, or it stands in quotes. -/
theorem word_cases {w : String} (word : w ∈ words) : w = "identifier" ∨
    ∃ inner ∈ ["package", r"}", r"{"],
      w.toList = enclosed inner.toList ∧ '\'' ∉ inner.toList := by
  revert w
  simp [words, enclosed]

theorem word_infix_enclosed {w : String} {text : List Char} (word : w ∈ words)
    (marks : '\'' ∉ text) :
    w.toList <:+: enclosed text ↔
      w.toList = enclosed text ∨ w = "identifier" ∧ w.toList <:+: text := by
  have absent : '\'' ∉ "identifier".toList := by simp
  have other (text : List Char) : "identifier".toList ≠ enclosed text :=
    fun same => absent (by simp [same, enclosed])
  obtain rfl | ⟨inner, -, same, free⟩ := word_cases word
  · have some : "identifier".toList ≠ [] := by simp
    have parts : enclosed text = [] ++ '\'' :: (text ++ '\'' :: []) := rfl
    rw [parts, Text.infix_append_cons_iff absent, Text.infix_append_cons_iff absent, ← parts]
    simp only [List.infix_nil, some, other, false_or, or_false, true_and]
  · rw [same]
    constructor
    · intro inside
      rw [Text.eq_of_enclosed_infix free marks inside]
      exact .inl rfl
    · rintro (equal | ⟨rfl, _⟩)
      · exact equal ▸ List.infix_rfl
      · exact absurd same (other _)

/-! ## What messages mention -/

theorem mem_enclosed {c : Char} {text : List Char} : c ∈ enclosed text ↔ c = '\'' ∨ c ∈ text := by
  simp [enclosed]
  tauto

/-- Reserved words and symbols stand in quotes. -/
theorem text_fixed {kind : Token.Kind} (fixed : IsFixed kind) :
    ∃ text, kind.text.toList = enclosed text ∧ ' ' ∉ text ∧ '\'' ∉ text ∧ text.length < 10 := by
  cases kind with
  | keyword k =>
      have plain : ' ' ∉ k.text.toList ∧ '\'' ∉ k.text.toList ∧ k.text.toList.length < 10 := by
        cases k <;> simp [Keyword.text]
      have text : (Token.Kind.keyword k).text = "'" ++ k.text ++ "'" := rfl
      exact ⟨k.text.toList, by simp [text, enclosed], plain⟩
  | symbol s =>
      have plain : ' ' ∉ s.text.toList ∧ '\'' ∉ s.text.toList ∧ s.text.toList.length < 10 := by
        cases s <;> simp [Symbol.text]
      have text : (Token.Kind.symbol s).text = "'" ++ s.text ++ "'" := rfl
      exact ⟨s.text.toList, by simp [text, enclosed], plain⟩
  | _ => exact fixed.elim

theorem phrase_infix_fixed {w o : String} {kind : Token.Kind} (mem : w ∈ phrases)
    (opening : o = "Expected" ∨ o = " found") (fixed : IsFixed kind) :
    w.toList <:+: o.toList ++ ' ' :: kind.text.toList ↔ w = kind.text := by
  obtain ⟨text, same, space, marks, short⟩ := text_fixed fixed
  have spaceless : ' ' ∉ kind.text.toList := by
    rw [same, mem_enclosed]
    simpa using space
  have known : o ∈ openings := by
    obtain rfl | rfl := opening <;> decide
  rw [phrase_infix_iff mem known spaceless]
  constructor
  · rintro ⟨word, early | late⟩
    · obtain ⟨_, rfl⟩ := (word_infix_opening word known).mp early
      simp at opening
    · rw [same, word_infix_enclosed word marks, ← same, String.toList_inj] at late
      refine late.resolve_right ?_
      rintro ⟨rfl, long⟩
      have := long.length_le
      have : "identifier".toList.length = 10 := by simp
      omega
  · rintro rfl
    obtain word | ⟨first, rest, spaced, _⟩ := phrase_cases mem
    · exact ⟨word, .inr List.infix_rfl⟩
    · exact absurd (by simp [spaced]) spaceless

theorem mentions_what {what : Expected} {w : String} (mem : w ∈ phrases) :
    Text.mentions ("Expected " ++ what.text) w ↔ w = what.text := by
  have fixed {kind : Token.Kind} (h : IsFixed kind) :
      Text.mentions ("Expected " ++ kind.text) w ↔ w = kind.text := by
    rw [Text.mentions_iff, ← phrase_infix_fixed mem (.inl rfl) h, String.toList_append]
    rfl
  have others : ∀ what ∈ [Expected.name, .terminator, .item, .importPath, .paramType, .arrayLength,
      .type, .expression, .packageArgs], ∀ w ∈ phrases,
      Text.mentions ("Expected " ++ what.text) w ↔ w = what.text := by decide +kernel
  cases what with
  | keyword k => exact fixed (isFixed_keyword k)
  | symbol s => exact fixed (isFixed_symbol s)
  | _ => exact others _ (by simp) w mem

/-- A character that can stand in a number and in no phrase. -/
def IsNumeric (c : Char) : Prop := c ≠ ' ' ∧ c ≠ '\'' ∧ c ≠ 'd'

theorem isNumeric_of_isDigit {c : Char} (digit : c.isDigit) : IsNumeric c := by
  refine ⟨?_, ?_, ?_⟩ <;> rintro rfl <;> revert digit <;> decide

theorem isNumeric_toString (n : Int) : ∀ c ∈ (toString n).toList, IsNumeric c := by
  have digits (m : Nat) : ∀ c ∈ m.repr.toList, IsNumeric c := by
    intro c mem
    rw [Nat.repr_eq_ofList_toDigits, String.toList_ofList] at mem
    exact isNumeric_of_isDigit (Nat.isDigit_of_mem_toDigits (by decide) (by decide) mem)
  cases n with
  | ofNat m => exact digits m
  | negSucc m =>
      change ∀ c ∈ ("-" ++ (m + 1).repr).toList, IsNumeric c
      rw [String.toList_append]
      exact List.forall_mem_append.mpr ⟨by simp [IsNumeric], digits (m + 1)⟩

theorem isNumeric_floatText (x : Float) : ∀ c ∈ (Token.Kind.floatText x).toList, IsNumeric c := by
  have sign (neg : Bool) : ∀ c ∈ (Decimal.sign neg).toList, IsNumeric c := by
    cases neg <;> simp [Decimal.sign, IsNumeric]
  unfold Token.Kind.floatText
  cases Decimal.Reading.ofFloat x with
  | nan => simp [IsNumeric]
  | infinite neg =>
      rw [String.toList_append]
      exact List.forall_mem_append.mpr ⟨sign neg, by simp [IsNumeric]⟩
  | finite neg v =>
      rw [String.toList_append]
      refine List.forall_mem_append.mpr ⟨sign neg, ?_⟩
      split
      · simp [IsNumeric]
      · rename_i nonzero
        have normal := Decimal.Binary.normal_shortest (Nat.pos_of_ne_zero nonzero)
        intro c mem
        obtain digit | rfl := Decimal.Digits.positional_chars normal.digits c mem
        · exact isNumeric_of_isDigit digit
        · simp [IsNumeric]

/-- Numbers do not bring phrases with them. -/
theorem phrase_not_infix_number {w text : String} {kind : Token.Kind} (mem : w ∈ phrases)
    (number : kind.text = "number " ++ text) (numeric : ∀ c ∈ text.toList, IsNumeric c) :
    ¬ w.toList <:+: " found ".toList ++ kind.text.toList := by
  have parts : " found ".toList ++ kind.text.toList =
      " found number".toList ++ ' ' :: text.toList := by
    simp [number]
  have spaceless : ' ' ∉ text.toList := fun space => (numeric ' ' space).1 rfl
  have known : " found number" ∈ openings := by decide
  have letters : ∀ w ∈ words, '\'' ∈ w.toList ∨ 'd' ∈ w.toList := by simp [words]
  rw [parts, phrase_infix_iff mem known spaceless]
  rintro ⟨word, early | late⟩
  · exact absurd ((word_infix_opening word known).mp early).2 (by decide)
  · obtain mark | letter := letters w word
    · exact (numeric _ (late.subset mark)).2.1 rfl
    · exact (numeric _ (late.subset letter)).2.2 rfl

/-- A name brings the word for names with it, and no other phrase. -/
theorem phrase_infix_name {w x : String} (mem : w ∈ phrases) (name : Word x.toList)
    (free : ∀ k : Keyword, x ≠ k.text) :
    w.toList <:+: " found identifier".toList ++ ' ' :: enclosed x.toList ↔ w = "identifier" := by
  have chars : ∀ c ∈ x.toList, Piece.isNameChar c := by
    obtain ⟨first, later, same, start, more⟩ := Lexeme.word_iff.mp name
    rw [same, List.forall_mem_cons]
    refine ⟨?_, more⟩
    simp only [Piece.isNameStart, Piece.isNameChar, Char.isAlphanum, Bool.or_eq_true] at start ⊢
    tauto
  have absent {c : Char} (other : Piece.isNameChar c = false) : c ∉ x.toList := fun mem => by
    simp [chars c mem] at other
  have spaceless : ' ' ∉ enclosed x.toList := by
    rw [mem_enclosed]
    simpa using absent (by decide)
  have known : " found identifier" ∈ openings := by decide
  rw [phrase_infix_iff mem known spaceless]
  constructor
  · rintro ⟨word, early | late⟩
    · exact ((word_infix_opening word known).mp early).1
    · obtain whole | ⟨same, _⟩ := (word_infix_enclosed word (absent (by decide))).mp late
      · refine (word_cases word).resolve_right ?_
        rintro ⟨inner, one, same, _⟩
        obtain rfl : inner = x := by
          rw [same] at whole
          exact String.toList_inj.mp (by simpa [enclosed] using whole)
        simp only [List.mem_cons, List.not_mem_nil, or_false] at one
        obtain rfl | rfl | rfl := one
        · exact free .package rfl
        · exact absent (c := '}') (by decide) (by simp)
        · exact absent (c := '{') (by decide) (by simp)
      · exact same
  · rintro rfl
    have word : "identifier" ∈ words := by decide
    exact ⟨word, .inl ((word_infix_opening word known).mpr ⟨rfl, rfl⟩)⟩

/-- A string literal brings with it what stands between its quotes. -/
theorem phrase_infix_string {w s : String} (mem : w ∈ phrases) :
    w.toList <:+: " found string ".toList ++ (Text.quoted s).toList ↔
      Text.mentions (Text.quoted s) w := by
  have absent := (plain_phrase mem).2
  obtain ⟨rest, same⟩ : ∃ rest, (Text.quoted s).toList = '"' :: rest :=
    ⟨(String.join (s.toList.map Text.quoteChar)).toList ++ ['"'], by simp [Text.quoted]⟩
  have all : ∀ w ∈ phrases, ¬ Text.mentions " found string " w ∧ w.toList ≠ [] := by decide +kernel
  obtain ⟨other, some⟩ := all w mem
  rw [Text.mentions_iff] at other ⊢
  rw [same, Text.infix_append_cons_iff absent, ← List.nil_append ('"' :: rest),
    Text.infix_append_cons_iff absent, List.infix_nil]
  simp only [other, some]

theorem mentions_found {found : Option Token.Kind} {w : String} (mem : w ∈ phrases)
    (legal : Legal found) :
    Text.mentions (" found " ++ foundText found) w ↔ Shows found w := by
  rw [Text.mentions_iff, String.toList_append]
  cases found with
  | none =>
      have all : ∀ w ∈ phrases, ¬ Text.mentions " found end of file" w := by decide +kernel
      refine iff_of_false (fun inside => all w mem ?_) id
      rw [Text.mentions_iff]
      exact inside
  | some kind =>
      cases kind with
      | name x =>
          obtain ⟨name, free⟩ := legal x rfl
          have text : foundText (some (.name x)) = "identifier '" ++ x ++ "'" := rfl
          have parts : " found ".toList ++ (foundText (some (.name x))).toList =
              " found identifier".toList ++ ' ' :: enclosed x.toList := by
            simp [text, enclosed]
          rw [parts]
          exact phrase_infix_name mem name free
      | int n =>
          have numeric := isNumeric_toString n.toInt
          exact iff_of_false (phrase_not_infix_number mem rfl numeric) id
      | float x =>
          have numeric := isNumeric_floatText x
          exact iff_of_false (phrase_not_infix_number mem rfl numeric) id
      | str s =>
          have text : foundText (some (.str s)) = "string " ++ Text.quoted s := rfl
          have parts : " found ".toList ++ (foundText (some (.str s))).toList =
              " found string ".toList ++ (Text.quoted s).toList := by
            simp [text]
          rw [parts]
          exact phrase_infix_string mem
      | keyword k => exact phrase_infix_fixed mem (.inr rfl) (isFixed_keyword k)
      | symbol s => exact phrase_infix_fixed mem (.inr rfl) (isFixed_symbol s)

/-- What is looked for and what is found are told apart by a comma. -/
theorem mentions_expected {what : Expected} {found : Option Token.Kind} {w : String}
    (mem : w ∈ phrases) (legal : Legal found) :
    Text.mentions (ParseFault.expected what found).message w ↔ Names what found w := by
  have parts : (ParseFault.expected what found).message.toList =
      ("Expected " ++ what.text).toList ++ ',' :: (" found " ++ foundText found).toList := by
    have text : (ParseFault.expected what found).message =
        "Expected " ++ what.text ++ ", found " ++ foundText found := rfl
    simp [text]
  have left := Text.mentions_iff ("Expected " ++ what.text) w
  have right := Text.mentions_iff (" found " ++ foundText found) w
  rw [Text.mentions_iff, parts, Text.infix_append_cons_iff (plain_phrase mem).1, ← left, ← right,
    mentions_what mem, mentions_found mem legal, Names]

/-! ## Hints -/

/-- The lines of the hint for a message. -/
def printed (message : String) : List String := ((ofMessage message).map lines).getD []

/-- The advice to put a name. -/
def nameLine : String := "    " ++ Paint.gray "Expected a variable or function name"

theorem detail_mem_lines_iff (d : String) (h : Hint) :
    "    " ++ Paint.gray d ∈ h.lines ↔ h.detail = some d := by
  have other : "    " ++ Paint.gray d ≠ Paint.yellow ("💡 Help: " ++ h.help) := by
    intro same
    have space : "    ".toList = ' ' :: "   ".toList := by simp
    have escape : (Paint.command 33).toList = '\x1b' :: ("[" ++ toString 33 ++ "m").toList := by
      change ("\x1b[" ++ toString 33 ++ "m").toList = _
      simp
    have first := congrArg String.toList same
    rw [Paint.yellow, Paint.colored, String.toList_append, String.toList_append,
      String.toList_append, space, escape] at first
    exact absurd (List.cons.inj first).1 (by decide)
  have same (d' : String) : "    " ++ Paint.gray d = "    " ++ Paint.gray d' ↔ d = d' := by
    simp [Paint.gray, Paint.colored, ← String.toList_inj]
  obtain ⟨help, _ | d'⟩ := h
  · simp [lines, other]
  · simp [lines, other, same, eq_comm]

theorem nameLine_mem_printed_iff {message : String} (expected : Text.mentions message "Expected") :
    nameLine ∈ printed message ↔
      Text.mentions message "identifier" ∧ ∀ w ∈ overriding, ¬ Text.mentions message w := by
  have reduced : nameLine ∈ printed message ↔
      ∃ h, ofMessage message = some h ∧ h.detail = some "Expected a variable or function name" := by
    rw [printed]
    cases ofMessage message with
    | none => simp
    | some h =>
        rw [nameLine, Option.map_some, Option.getD_some, detail_mem_lines_iff]
        simp
  rw [reduced]
  simp only [ofMessage, missingDetail, expected, overriding, List.forall_mem_cons,
    if_true]
  split_ifs <;> grind

/-- Messages in which the same phrases occur have the same hint. -/
theorem printed_congr {m m' : String} (expected : Text.mentions m "Expected")
    (expected' : Text.mentions m' "Expected")
    (same : ∀ w ∈ phrases, (Text.mentions m w ↔ Text.mentions m' w)) : printed m = printed m' := by
  simp only [phrases, overriding, List.cons_append, List.nil_append, List.forall_mem_cons,
    Bool.coe_iff_coe] at same
  obtain ⟨h₁, h₂, h₃, h₄, h₅, h₆, h₇, h₈, h₉, -⟩ := same
  simp only [printed, ofMessage, missingDetail, h₁, h₂, h₃, h₄, h₅, h₆, h₇, h₈, h₉, expected,
    expected', if_true]

theorem message_mentions_expected (what : Expected) (found : Option Token.Kind) :
    Text.mentions (ParseFault.expected what found).message "Expected" := by
  have text : (ParseFault.expected what found).message =
      "Expected " ++ what.text ++ ", found " ++ foundText found := rfl
  have start : "Expected ".toList = "Expected".toList ++ [' '] := by simp
  rw [Text.mentions_iff, text]
  simp only [String.toList_append, start, List.append_assoc]
  exact (List.prefix_append ..).isInfix

theorem identifier_ne_text {kind : Token.Kind} (fixed : IsFixed kind) :
    "identifier" ≠ kind.text := by
  obtain ⟨text, same, -⟩ := text_fixed fixed
  intro equal
  rw [← equal] at same
  simp [enclosed] at same

theorem identifier_eq_text_iff (what : Expected) : "identifier" = what.text ↔ what = .name := by
  cases what with
  | keyword k => exact iff_of_false (identifier_ne_text (isFixed_keyword k)) nofun
  | symbol s => exact iff_of_false (identifier_ne_text (isFixed_symbol s)) nofun
  | _ => simp [Expected.text]

theorem shows_identifier_iff (found : Option Token.Kind) :
    Shows found "identifier" ↔ (∃ x, found = some (.name x)) ∨
      ∃ s, found = some (.str s) ∧ Text.mentions (Text.quoted s) "identifier" := by
  obtain _ | kind := found
  · simp [Shows]
  cases kind with
  | keyword k => simpa [Shows] using identifier_ne_text (isFixed_keyword k)
  | symbol s => simpa [Shows] using identifier_ne_text (isFixed_symbol s)
  | _ => simp [Shows]

/-- Tokens that are swapped bring the same phrases with them. -/
theorem Swaps.shows_iff {k k' : Token.Kind} (swaps : Swaps k k') {w : String} (mem : w ∈ phrases) :
    Shows (some k') w ↔ Shows (some k) w := by
  cases swaps with
  | str same => rw [Shows, Shows, same w mem]
  | _ => exact Iff.rfl

theorem Swaps.legal {k k' : Token.Kind} (swaps : Swaps k k') : Legal (some k') := by
  cases swaps with
  | name x word free =>
      rintro _ ⟨⟩
      exact ⟨word, free⟩
  | _ => nofun

/-- The hint depends on what was found by its phrases only. -/
theorem printed_expected_congr {what : Expected} {found found' : Option Token.Kind}
    (legal : Legal found) (legal' : Legal found')
    (same : ∀ w ∈ phrases, (Shows found' w ↔ Shows found w)) :
    printed (ParseFault.expected what found').message =
      printed (ParseFault.expected what found).message := by
  refine printed_congr (message_mentions_expected ..) (message_mentions_expected ..) fun w mem => ?_
  rw [mentions_expected mem legal', mentions_expected mem legal, Names, Names, same w mem]

end Hint

theorem legal_of_failed {source : String} {stream : TokenStream} {what : Expected}
    {found : Option Token.Kind} {pos : Pos} (lexed : TokenStream.ofSource source = .ok stream)
    (failed : Program.ofTokens stream = .error ⟨.expected what found, pos⟩) : Hint.Legal found := by
  rintro x rfl
  obtain ⟨t, mem, same⟩ := Program.found_mem failed
  obtain ⟨text, denotes⟩ := denotes_of_lexed lexed t mem
  rw [same] at denotes
  cases denotes with
  | name word free =>
      rw [String.toList_ofList]
      refine ⟨word, fun k equal => free k ?_⟩
      rw [← equal, String.toList_ofList]

/-- The hint for an error about what was looked for goes by the whole message. The advice to put
    a name is given if a name was looked for, if one was found, or if a string with the word for
    names in it was found, unless another phrase in the message goes before. Another name or
    number in the place of the one that was found changes nothing, and another string only if it
    has other phrases in it. -/
theorem hints_follow_message {source : String} {stream : TokenStream} {what : Expected}
    {found : Option Token.Kind} {pos : Pos} (lexed : TokenStream.ofSource source = .ok stream)
    (failed : Program.ofTokens stream = .error ⟨.expected what found, pos⟩) :
    let hint (found : Option Token.Kind) := Hint.printed (ParseFault.expected what found).message
    (∀ settings file, Outcome.ofSource settings file (.text source) =
      ⟨1, "", Excerpt.lines "Parse error" source
        ⟨(ParseFault.expected what found).message, some pos⟩ ++ hint found⟩) ∧
    (Hint.nameLine ∈ hint found ↔
      (what = .name ∨ (∃ x, found = some (.name x)) ∨
        ∃ s, found = some (.str s) ∧ Text.mentions (Text.quoted s) "identifier") ∧
      ∀ w ∈ Hint.overriding, ¬ Hint.Names what found w) ∧
    ∀ k k', found = some k → Hint.Swaps k k' → hint (some k') = hint found := by
  have legal := legal_of_failed lexed failed
  refine ⟨?_, ?_, ?_⟩
  · intro settings file
    rw [Outcome.ofSource, Program.ofSource, lexed]
    simp only [failed]
    rfl
  · have mem : "identifier" ∈ Hint.phrases := List.mem_append_right _ (List.mem_singleton_self _)
    rw [Hint.nameLine_mem_printed_iff (Hint.message_mentions_expected ..),
      Hint.mentions_expected mem legal, Hint.Names, Hint.identifier_eq_text_iff,
      Hint.shows_identifier_iff]
    refine and_congr_right fun _ => forall₂_congr fun w overriding => not_congr ?_
    exact Hint.mentions_expected (List.mem_append_left _ overriding) legal
  · rintro k k' rfl swaps
    exact Hint.printed_expected_congr legal swaps.legal fun w mem => swaps.shows_iff mem

/-- Behind the name of the package stands another one. -/
theorem hints_follow_message_stray :
    Hint.nameLine ∈ Hint.printed (ParseFault.expected .terminator (some (.name "foo"))).message ∧
    Hint.printed (ParseFault.expected .terminator (some (.name "y"))).message =
      Hint.printed (ParseFault.expected .terminator (some (.name "foo"))).message := by
  obtain ⟨stream, lexed, failed⟩ : ∃ stream,
      TokenStream.ofSource "package main foo\n" = .ok stream ∧
      Program.ofTokens stream = .error ⟨.expected .terminator (some (.name "foo")), ⟨1, 14⟩⟩ := by
    with_unfolding_all exact ⟨_, rfl, rfl⟩
  obtain ⟨-, advice, swap⟩ := hints_follow_message lexed failed
  constructor
  · refine advice.mpr ⟨.inr (.inl ⟨"foo", rfl⟩), ?_⟩
    simp [Hint.overriding, Hint.Names, Hint.Shows, Expected.text]
  · refine swap _ _ rfl (.name "foo" ⟨'y', [], by simp, by decide, by simp⟩ fun k => ?_)
    cases k <;> decide

/-- The advice to put a name is given for a name in the place of the end of a line, and it is
    replaced by advice on types for what a string says. -/
theorem advice_without_expectation :
    let report (source : String) :=
      (Outcome.ofSource ⟨false, none, none⟩ "main" (.text source)).errors
    Hint.nameLine ∈ report "package main foo\n" ∧ Hint.nameLine ∈ report "package \"x\"\n" ∧
    Hint.nameLine ∉ report "package \"Unknown type\"\n" := by
  decide +kernel

end Treewalk
