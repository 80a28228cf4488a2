import Treewalk.Proofs.Lexing.Layout

/-! # Where lexemes end

Only string literals have blanks in them, and no lexeme reaches over the end of a line.
So a lexeme in front of a blank is no part of a longer one.
-/

namespace Treewalk

namespace Lexeme

/-- What has no character of some kind, at the front of a text in which such a
    character follows, ends before it. -/
theorem prefix_of_stop {stops : Char → Prop} {front text after : List Char}
    (none : ∀ c ∈ front, ¬ stops c) (stop : ∀ c ∈ after.head?, stops c)
    (pre : front <+: text ++ after) : front <+: text := by
  induction front generalizing text with
  | nil => simp
  | cons c front ih =>
      simp only [List.mem_cons, forall_eq_or_imp] at none
      cases text with
      | nil =>
          obtain ⟨rest, rfl⟩ := pre
          exact absurd (stop c (by simp)) none.1
      | cons d text =>
          obtain ⟨rfl, later⟩ := List.cons_prefix_cons.mp pre
          simpa using ih none.2 later

/-! ## Blanks -/

theorem isBlank_of_isNameChar {c : Char} (h : Piece.isNameChar c) : Text.isBlank c = false := by
  simp only [Piece.isNameChar, Char.isAlphanum, Bool.or_eq_true] at h
  obtain (alpha | digit) | underscore := h
  · exact isBlank_of_isNameStart (by simp [Piece.isNameStart, alpha])
  · exact isBlank_of_isDigit digit
  · exact isBlank_of_isNameStart (by simp [Piece.isNameStart, underscore])

theorem Digits.blankless {ds : List Char} (digits : Digits ds) :
    ∀ c ∈ ds, Text.isBlank c = false :=
  fun c mem => isBlank_of_isDigit (digits.2 c mem)

theorem Fraction.blankless {text places : List Char} (h : Fraction text places) :
    ∀ c ∈ text, Text.isBlank c = false := by
  cases h with
  | none => simp
  | point digits => exact List.forall_mem_cons.mpr ⟨by decide, digits.blankless⟩

theorem Exponent.blankless {text : List Char} {e : Int} (h : Exponent text e) :
    ∀ c ∈ text, Text.isBlank c = false := by
  have mark : ∀ {c : Char}, c = 'e' ∨ c = 'E' → Text.isBlank c = false := by
    intro c mark
    obtain rfl | rfl := mark <;> decide
  cases h with
  | none => simp
  | plain marked digits => simpa using ⟨mark marked, digits.blankless⟩
  | plus marked digits | minus marked digits =>
      simp only [List.forall_mem_cons]
      exact ⟨mark marked, by decide, digits.blankless⟩

theorem blankless_symbol (s : Symbol) : ∀ c ∈ s.text.toList, Text.isBlank c = false := by
  have printable : s.text.toList.all (fun c => 33 ≤ c.toNat && c.toNat ≤ 126) = true := by
    cases s <;> rfl
  intro c mem
  exact isBlank_eq_false (by simpa using List.all_eq_true.mp printable c mem)

/-- A lexeme without a quote at its front has no blanks in it. -/
theorem Shape.blankless {text : List Char} (h : Shape text) (unquoted : text.head? ≠ some '"') :
    ∀ c ∈ text, Text.isBlank c = false := by
  cases h with
  | word word =>
      obtain ⟨c, cs, rfl, start, chars⟩ := word_iff.mp word
      simpa using ⟨isBlank_of_isNameStart start, fun d mem => isBlank_of_isNameChar (chars d mem)⟩
  | number whole frac exp =>
      simp only [List.forall_mem_append]
      exact ⟨⟨whole.blankless, frac.blankless⟩, exp.blankless⟩
  | quoted body => simp at unquoted
  | symbol s => exact blankless_symbol s

theorem Shape.longest {text after longer : List Char} (shape : Shape text)
    (stop : ∀ c ∈ after.head?, Text.isBlank c) (pre : longer <+: text ++ after)
    (other : Shape longer) : longer.length ≤ text.length := by
  obtain ⟨c, cs, rfl, _⟩ := shape.first
  by_cases quote : c = '"'
  · obtain ⟨body, value, same, quoted⟩ := (shape.of_prefix List.prefix_rfl).2.2.1 quote
    rw [same] at pre ⊢
    exact (quoted.stands after).longest longer pre other
  · obtain ⟨d, ds, rfl, _⟩ := other.first
    obtain ⟨rfl, _⟩ := List.cons_prefix_cons.mp pre
    have blankless := other.blankless (by simpa using quote)
    exact (prefix_of_stop (by simpa using blankless) stop pre).length_le

theorem noComment_symbol (s : Symbol) : NoComment s.text.toList := by
  constructor <;> cases s <;> decide

theorem Shape.noComment {text after : List Char} (shape : Shape text)
    (stop : ∀ c ∈ after.head?, Text.isBlank c) : NoComment (text ++ after) := by
  -- A lexeme with a slash in front is a symbol, and no symbol starts like a comment.
  have symbol : ∀ d : Char, Text.isBlank d = false → ['/', d] <+: text ++ after →
      ∃ s : Symbol, ['/', d] <+: s.text.toList := by
    intro d unblank pre
    have slash : Text.isBlank '/' = false := by decide
    have inside := prefix_of_stop (by simp [slash, unblank]) stop pre
    obtain ⟨rest, rfl⟩ := inside
    obtain ⟨s, same⟩ := (shape.of_prefix List.prefix_rfl).2.2.2 (by decide) (by decide) (by decide)
    exact ⟨s, rest, same⟩
  constructor
  · intro pre
    obtain ⟨s, inside⟩ := symbol '/' (by decide) pre
    exact (noComment_symbol s).1 inside
  · intro pre
    obtain ⟨s, inside⟩ := symbol '*' (by decide) pre
    exact (noComment_symbol s).2 inside

/-- A lexeme stands wherever a blank follows it, or nothing. -/
theorem Denotes.stands {text after : List Char} {kind : Token.Kind} (denotes : Denotes text kind)
    (stop : ∀ c ∈ after.head?, Text.isBlank c) : Stands after text kind :=
  ⟨denotes, fun _ => denotes.shape.longest stop, denotes.shape.noComment stop⟩

/-! ## Ends of lines -/

theorem Quoted.oneLine {text value : List Char} (h : Quoted text value) : '\n' ∉ text := by
  induction h with
  | nil => simp
  | plain quote backslash newline _ ih => simp [ih, newline.symm]
  | escape pair _ ih =>
      simp only [List.mem_cons, Prod.mk.injEq, List.not_mem_nil, or_false] at pair
      obtain ⟨rfl, _⟩ | ⟨rfl, _⟩ | ⟨rfl, _⟩ | ⟨rfl, _⟩ | ⟨rfl, _⟩ := pair <;> simp [ih]

theorem Shape.oneLine {text : List Char} (h : Shape text) : '\n' ∉ text := by
  by_cases quote : text.head? = some '"'
  · obtain ⟨rest, rfl⟩ := List.head?_eq_some_iff.mp quote
    obtain ⟨body, value, same, quoted⟩ := (h.of_prefix List.prefix_rfl).2.2.1 rfl
    simp [same, quoted.oneLine]
  · intro newline
    have blank : Text.isBlank '\n' = false := h.blankless quote '\n' newline
    revert blank
    decide

end Lexeme

end Treewalk
