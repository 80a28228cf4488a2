import Treewalk.Token.Stream
import Mathlib

/-! # What a stretch of source text may be

Lexemes and the fillers between them, said by their shapes. Each reader of
pieces takes a stretch of such a shape off the front of a text, and the longest
there is.
-/

namespace Treewalk

/-- A blank or a comment, before the text `after`. -/
inductive Filler (after : List Char) : List Char → Prop where
  | blank {c : Char} : Text.isBlank c → Filler after [c]
  /-- A line comment goes on up to the end of its line. -/
  | line {text : List Char} : '\n' ∉ text → (∀ c ∈ after.head?, c = '\n') →
      Filler after ('/' :: '/' :: text)
  /-- A block comment goes on up to the first mark of its end. -/
  | block {text : List Char} : ¬ ['*', '/'] <:+: text →
      Filler after ('/' :: '*' :: (text ++ ['*', '/']))

namespace Lexeme

/-- One digit or more. -/
def Digits (ds : List Char) : Prop := ds ≠ [] ∧ ∀ c ∈ ds, c.isDigit

/-- A character from A to Z or from a to z, or an underscore. -/
def IsLetter (c : Char) : Prop :=
  65 ≤ c.toNat ∧ c.toNat ≤ 90 ∨ 97 ≤ c.toNat ∧ c.toNat ≤ 122 ∨ c = '_'

instance : DecidablePred IsLetter := fun c =>
  inferInstanceAs (Decidable (65 ≤ c.toNat ∧ c.toNat ≤ 90 ∨ 97 ≤ c.toNat ∧ c.toNat ≤ 122 ∨ c = '_'))

/-- A letter or underscore, then letters, underscores and digits. -/
def Word (text : List Char) : Prop :=
  ∃ c cs, text = c :: cs ∧ IsLetter c ∧ ∀ d ∈ cs, IsLetter d ∨ 48 ≤ d.toNat ∧ d.toNat ≤ 57

/-- The text of a fraction, if there is one, and its digits. -/
inductive Fraction : List Char → List Char → Prop where
  | none : Fraction [] []
  | point {ds : List Char} : Digits ds → Fraction ('.' :: ds) ds

/-- The text of an exponent, if there is one, and its value. -/
inductive Exponent : List Char → Int → Prop where
  | none : Exponent [] 0
  | plain {mark : Char} {ds : List Char} : mark = 'e' ∨ mark = 'E' → Digits ds →
      Exponent (mark :: ds) (Decimal.digitsValue ds)
  | plus {mark : Char} {ds : List Char} : mark = 'e' ∨ mark = 'E' → Digits ds →
      Exponent (mark :: '+' :: ds) (Decimal.digitsValue ds)
  | minus {mark : Char} {ds : List Char} : mark = 'e' ∨ mark = 'E' → Digits ds →
      Exponent (mark :: '-' :: ds) (-Decimal.digitsValue ds)

/-- The characters between two quotes, and what they stand for. -/
inductive Quoted : List Char → List Char → Prop where
  | nil : Quoted [] []
  | plain {c : Char} {text value : List Char} : c ≠ '"' → c ≠ '\\' → c ≠ '\n' →
      Quoted text value → Quoted (c :: text) (c :: value)
  | escape {c d : Char} {text value : List Char} :
      (c, d) ∈ [('n', '\n'), ('t', '\t'), ('r', '\r'), ('\\', '\\'), ('"', '"')] →
      Quoted text value → Quoted ('\\' :: c :: text) (d :: value)

/-- Text with the shape of a lexeme. -/
inductive Shape : List Char → Prop where
  | word {text : List Char} : Word text → Shape text
  | number {whole frac places exp : List Char} {e : Int} : Digits whole →
      Fraction frac places → Exponent exp e → Shape (whole ++ frac ++ exp)
  | quoted {text value : List Char} : Quoted text value → Shape ('"' :: (text ++ ['"']))
  | symbol (s : Symbol) : Shape s.text.toList

/-- The token that a lexeme denotes. -/
inductive Denotes : List Char → Token.Kind → Prop where
  | keyword (k : Keyword) : Denotes k.text.toList (.keyword k)
  | name {text : List Char} : Word text → (∀ k : Keyword, text ≠ k.text.toList) →
      Denotes text (.name (String.ofList text))
  | int {ds : List Char} : Digits ds → Decimal.digitsValue ds < 2 ^ 63 →
      Denotes ds (.int (.ofNat (Decimal.digitsValue ds)))
  | float {whole frac places exp : List Char} {e : Int} : Digits whole →
      Fraction frac places → Exponent exp e → frac ≠ [] ∨ exp ≠ [] →
      Denotes (whole ++ frac ++ exp)
        (.float (Decimal.nearest (Decimal.digitsValue (whole ++ places)) (e - places.length)))
  | quoted {text value : List Char} : Quoted text value →
      Denotes ('"' :: (text ++ ['"'])) (.str (String.ofList value))
  | symbol (s : Symbol) : Denotes s.text.toList (.symbol s)

/-- No comment starts at the front of the text. -/
def NoComment (cs : List Char) : Prop := ¬ ['/', '/'] <+: cs ∧ ¬ ['/', '*'] <+: cs

/-- `text` is the lexeme at the place where it stands before the text `after`:
    no comment starts there, and no longer lexeme. -/
structure Stands (after text : List Char) (kind : Token.Kind) : Prop where
  denotes : Denotes text kind
  longest : ∀ longer, longer <+: text ++ after → Shape longer → longer.length ≤ text.length
  noComment : NoComment (text ++ after)

/-! ## First characters -/

theorem isDigit_iff (c : Char) : c.isDigit ↔ 48 ≤ c.toNat ∧ c.toNat ≤ 57 := by
  simp [Char.isDigit, UInt32.le_iff_toNat_le]

theorem isNameStart_iff (c : Char) : Piece.isNameStart c ↔ IsLetter c := by
  simp [IsLetter, Piece.isNameStart, Char.isAlpha, Char.isUpper, Char.isLower,
    UInt32.le_iff_toNat_le, or_assoc]

theorem isNameChar_iff (c : Char) :
    Piece.isNameChar c ↔ IsLetter c ∨ 48 ≤ c.toNat ∧ c.toNat ≤ 57 := by
  rw [← isNameStart_iff, ← isDigit_iff]
  simp only [Piece.isNameChar, Piece.isNameStart, Char.isAlphanum, Bool.or_eq_true]
  tauto

/-- Words are what the reader of names takes. -/
theorem word_iff {text : List Char} : Word text ↔
    ∃ c cs, text = c :: cs ∧ Piece.isNameStart c ∧ ∀ d ∈ cs, Piece.isNameChar d := by
  simp only [Word, isNameStart_iff, isNameChar_iff]

theorem isBlank_eq_false {c : Char} (h : 33 ≤ c.toNat ∧ c.toNat ≤ 126) :
    Text.isBlank c = false := by
  simp only [Text.isBlank, Bool.or_eq_false_iff, Bool.and_eq_false_iff,
    decide_eq_false_iff_not, beq_eq_false_iff_ne]
  omega

theorem isBlank_of_isDigit {c : Char} (h : c.isDigit) : Text.isBlank c = false := by
  rw [isDigit_iff] at h
  exact isBlank_eq_false (by omega)

theorem isBlank_of_isNameStart {c : Char} (h : Piece.isNameStart c) :
    Text.isBlank c = false := by
  rw [isNameStart_iff, IsLetter] at h
  obtain h | h | rfl := h
  · exact isBlank_eq_false (by omega)
  · exact isBlank_eq_false (by omega)
  · decide

theorem isDigit_of_isNameStart {c : Char} (h : Piece.isNameStart c) : c.isDigit = false := by
  rw [isNameStart_iff, IsLetter] at h
  rw [Bool.eq_false_iff, ne_eq, isDigit_iff]
  obtain h | h | rfl := h
  · omega
  · omega
  · decide

/-- A symbol starts with a character that starts nothing but symbols and
    comments. -/
theorem first_symbol (s : Symbol) : ∃ c cs, s.text.toList = c :: cs ∧
    Text.isBlank c = false ∧ c.isDigit = false ∧ Piece.isNameStart c = false ∧ c ≠ '"' := by
  cases s <;> exact ⟨_, _, rfl, by decide⟩

/-- The first character of a lexeme tells which shape it has. -/
theorem Shape.first {text : List Char} (h : Shape text) : ∃ c cs, text = c :: cs ∧
    Text.isBlank c = false ∧
    (Piece.isNameStart c ∧ Word text ∨
      c.isDigit ∧ (∃ whole frac places exp e, text = whole ++ frac ++ exp ∧ Digits whole ∧
        Fraction frac places ∧ Exponent exp e) ∨
      c = '"' ∧ (∃ body value, text = '"' :: (body ++ ['"']) ∧ Quoted body value) ∨
      (c.isDigit = false ∧ Piece.isNameStart c = false ∧ c ≠ '"') ∧
        ∃ s : Symbol, text = s.text.toList) := by
  cases h with
  | word word =>
      obtain ⟨c, cs, rfl, start, _⟩ := word_iff.mp word
      exact ⟨c, cs, rfl, isBlank_of_isNameStart start, .inl ⟨start, word⟩⟩
  | @number whole frac places exp e digits frac' exp' =>
      obtain ⟨c, cs, rfl⟩ := List.exists_cons_of_ne_nil digits.1
      have digit := digits.2 c (by simp)
      exact ⟨c, _, rfl, isBlank_of_isDigit digit,
        .inr (.inl ⟨digit, _, _, _, _, _, rfl, digits, frac', exp'⟩)⟩
  | quoted body => exact ⟨_, _, rfl, by decide, .inr (.inr (.inl ⟨rfl, _, _, rfl, body⟩))⟩
  | symbol s =>
      obtain ⟨c, cs, same, blank, other⟩ := first_symbol s
      exact ⟨c, cs, same, blank, .inr (.inr (.inr ⟨other, s, rfl⟩))⟩

/-- The shape of a lexeme at the front of a text that starts with `c`. -/
theorem Shape.of_prefix {c : Char} {text cs : List Char} (h : Shape text) (pre : text <+: c :: cs) :
    (Piece.isNameStart c → Word text) ∧
      (c.isDigit → ∃ whole frac places exp e, text = whole ++ frac ++ exp ∧ Digits whole ∧
        Fraction frac places ∧ Exponent exp e) ∧
      (c = '"' → ∃ body value, text = '"' :: (body ++ ['"']) ∧ Quoted body value) ∧
      (c.isDigit = false → Piece.isNameStart c = false → c ≠ '"' →
        ∃ s : Symbol, text = s.text.toList) := by
  obtain ⟨d, ds, rfl, _, shapes⟩ := h.first
  obtain ⟨rfl, _⟩ := List.cons_prefix_cons.mp pre
  have start : Piece.isNameStart d → d.isDigit = false ∧ d ≠ '"' := fun start =>
    ⟨isDigit_of_isNameStart start, by rintro rfl; simp [Piece.isNameStart] at start⟩
  have digit : d.isDigit → d ≠ '"' := by
    rintro digit rfl
    simp at digit
  obtain ⟨_, _⟩ | ⟨_, _⟩ | ⟨rfl, _⟩ | ⟨⟨_, _, _⟩, _⟩ := shapes
  all_goals simp_all

theorem Word.keyword (k : Keyword) : Word k.text.toList := by
  cases k <;> exact word_iff.mpr ⟨_, _, rfl, by decide, List.all_eq_true.mp (by decide)⟩

theorem Denotes.shape {text : List Char} {kind : Token.Kind} (h : Denotes text kind) :
    Shape text := by
  cases h with
  | keyword k => exact .word (.keyword k)
  | name word => exact .word word
  | int digits => simpa using Shape.number digits .none .none
  | float digits frac exp => exact .number digits frac exp
  | quoted body => exact .quoted body
  | symbol s => exact .symbol s

end Lexeme

end Treewalk
