import Treewalk.Proofs.Lexing.Number

/-! # The piece at the front of a text

The reader of pieces takes a filler or a lexeme off the front of a text, the
longest one, and takes the one that stands there if there is one.
-/

namespace Treewalk

namespace Lexeme

/-! ## String literals -/

theorem unescape?_eq_some_iff {c d : Char} : Piece.unescape? c = some d ↔
    (c, d) ∈ [('n', '\n'), ('t', '\t'), ('r', '\r'), ('\\', '\\'), ('"', '"')] := by
  constructor
  · fun_cases Piece.unescape? c <;> simp [eq_comm]
  · simp only [List.mem_cons, Prod.mk.injEq, List.not_mem_nil, or_false]
    rintro (⟨rfl, rfl⟩ | ⟨rfl, rfl⟩ | ⟨rfl, rfl⟩ | ⟨rfl, rfl⟩ | ⟨rfl, rfl⟩) <;> rfl

theorem stringTail_sound {cs text value : List Char}
    (read : Piece.stringTail cs = .ok (text, value)) :
    ∃ body after, text = body ++ ['"'] ∧ cs = text ++ after ∧ Quoted body value := by
  fun_induction Piece.stringTail cs generalizing text value with
  | case1 => simp at read
  | case2 rest =>
      obtain ⟨rfl, rfl⟩ := read
      exact ⟨[], rest, rfl, rfl, .nil⟩
  | case3 => simp at read
  | case4 => simp at read
  | case5 => simp at read
  | case6 => simp at read
  | case7 c rest d tail value' readTail escape ih =>
      obtain ⟨body, after, rfl, rfl, quoted⟩ := ih readTail
      obtain ⟨rfl, rfl⟩ := read
      exact ⟨'\\' :: c :: body, after, by simp, by simp,
        .escape (unescape?_eq_some_iff.mp escape) quoted⟩
  | case8 => simp at read
  | case9 c rest quote newline lone pair tail value' readTail ih =>
      obtain ⟨body, after, rfl, rfl, quoted⟩ := ih readTail
      obtain ⟨rfl, rfl⟩ := read
      have backslash : c ≠ '\\' := by
        rintro rfl
        cases body with
        | nil => exact pair _ _ rfl rfl
        | cons d body => exact pair _ _ rfl rfl
      exact ⟨c :: body, after, by simp, by simp, .plain quote backslash newline quoted⟩

theorem Quoted.stringTail {body value : List Char} (h : Quoted body value) (after : List Char) :
    Piece.stringTail (body ++ '"' :: after) = .ok (body ++ ['"'], value) := by
  induction h with
  | nil => rfl
  | plain quote backslash newline _ ih => simp [Piece.stringTail, backslash, ih]
  | escape pair _ ih => simp [Piece.stringTail, unescape?_eq_some_iff.mpr pair, ih]

/-! ## Comments -/

theorem commentTail_sound {cs text after : List Char}
    (read : Piece.commentTail cs = some (text, after)) :
    ∃ body, text = body ++ ['*', '/'] ∧ cs = text ++ after ∧ ¬ ['*', '/'] <:+: body := by
  fun_induction Piece.commentTail cs generalizing text with
  | case1 => simp at read
  | case2 rest =>
      obtain ⟨rfl, rfl⟩ := read
      exact ⟨[], rfl, rfl, by simp⟩
  | case3 c rest notEnd ih =>
      obtain ⟨⟨tail, _⟩, readTail, same⟩ := Option.map_eq_some_iff.mp read
      obtain ⟨rfl, rfl⟩ := same
      obtain ⟨body, rfl, rfl, unended⟩ := ih readTail
      refine ⟨c :: body, by simp, by simp, ?_⟩
      rw [List.infix_cons_iff, not_or]
      refine ⟨?_, unended⟩
      rintro ⟨more, same⟩
      obtain ⟨rfl, rfl⟩ := same
      exact notEnd _ rfl rfl

theorem commentTail_complete {body : List Char} (unended : ¬ ['*', '/'] <:+: body)
    (after : List Char) :
    Piece.commentTail (body ++ '*' :: '/' :: after) = some (body ++ ['*', '/'], after) := by
  induction body with
  | nil => rfl
  | cons c body ih =>
      rw [List.infix_cons_iff, not_or] at unended
      have notEnd : ∀ rest, c = '*' → body ++ '*' :: '/' :: after = '/' :: rest → False := by
        rintro rest rfl same
        cases body with
        | nil => simp at same
        | cons d body =>
            obtain ⟨rfl, _⟩ := same
            exact unended.1 (by simp)
      simp only [List.cons_append, Piece.commentTail.eq_3 _ _ notEnd, ih unended.2, Option.map_some]

/-! ## Symbols -/

theorem symbol?_prefix {cs : List Char} {s : Symbol} (read : Piece.symbol? cs = some s) :
    s.text.toList <+: cs := by
  unfold Piece.symbol? at read
  split at read <;> cases read <;> exact ⟨_, rfl⟩

theorem symbol?_ne_none {cs : List Char} {s : Symbol} (pre : s.text.toList <+: cs) :
    Piece.symbol? cs ≠ none := by
  intro read
  unfold Piece.symbol? at read
  split at read <;> cases read
  obtain ⟨rest, rfl⟩ := pre
  cases s <;> solve_by_elim [rfl]

theorem symbol?_pair {s : Symbol} {a b : Char} (pair : s.text.toList = [a, b])
    (rest : List Char) : Piece.symbol? (a :: b :: rest) = some s := by
  cases s <;> cases pair <;> rfl

theorem length_symbol (s : Symbol) : s.text.toList.length = 1 ∨ s.text.toList.length = 2 := by
  cases s <;> decide

theorem symbol?_text (s : Symbol) : Piece.symbol? s.text.toList = some s := by
  cases s <;> rfl

theorem ofText?_text (k : Keyword) : Keyword.ofText? k.text = some k := by
  cases k <;> rfl

theorem denotes_wordKind {text : List Char} (word : Word text) :
    Denotes text (Piece.wordKind text) := by
  unfold Piece.wordKind Keyword.ofText?
  split
  · rename_i k found
    have spelled : k.text = String.ofList text := by simpa using List.find?_some found
    have same : text = k.text.toList := by simp [spelled]
    exact same ▸ .keyword k
  · rename_i none
    refine .name word fun k same => ?_
    have mem : k ∈ Keyword.all := by cases k <;> decide
    simpa [same] using List.find?_eq_none.mp none k mem

/-! ## The lexeme at the front -/

theorem stands_word {c : Char} {rest : List Char} (start : Piece.isNameStart c)
    (noComment : NoComment (c :: rest)) :
    Stands (rest.dropWhile Piece.isNameChar) (c :: rest.takeWhile Piece.isNameChar)
      (Piece.wordKind (c :: rest.takeWhile Piece.isNameChar)) := by
  have whole : c :: rest.takeWhile Piece.isNameChar ++ rest.dropWhile Piece.isNameChar =
      c :: rest := by simp
  have word : Word (c :: rest.takeWhile Piece.isNameChar) :=
    word_iff.mpr ⟨c, _, rfl, start, fun _ => List.mem_takeWhile_imp⟩
  refine ⟨denotes_wordKind word, ?_, ?_⟩
  · rw [whole]
    intro longer pre shape
    obtain ⟨d, ds, rfl, _, chars⟩ := word_iff.mp ((shape.of_prefix pre).1 start)
    have inside := prefix_takeWhile chars (List.cons_prefix_cons.mp pre).2
    simpa using inside.length_le
  · rwa [whole]

theorem stands_number {c : Char} {rest : List Char} {p : Piece} (digit : c.isDigit)
    (noComment : NoComment (c :: rest)) (read : Piece.number (c :: rest) = .ok p) :
    ∃ after kind, p.token = some kind ∧ c :: rest = p.text ++ after ∧
      Stands after p.text kind := by
  obtain ⟨whole, frac, places, exp, e, after, same, hw, hf, hx, most, answer⟩ :=
    number_spec rest digit
  have longest : ∀ longer, longer <+: c :: rest → Shape longer →
      longer.length ≤ (whole ++ frac ++ exp).length := by
    intro longer pre shape
    obtain ⟨w, f, ps, x, e', rfl, hw', hf', hx'⟩ := (shape.of_prefix pre).2.1 digit
    exact (most _ _ _ _ _ hw' hf' hx' pre).length_le
  rw [same] at longest noComment
  rw [answer] at read
  split at read
  · rename_i plain
    obtain ⟨rfl, rfl⟩ := plain
    split at read
    · rename_i small
      cases read
      simp only [List.append_nil] at same longest noComment ⊢
      exact ⟨after, _, rfl, same, .int hw small, longest, noComment⟩
    · simp at read
  · rename_i parts
    cases read
    rw [not_and_or] at parts
    exact ⟨after, _, rfl, same, .float hw hf hx parts, longest, noComment⟩

theorem Quoted.stands {body value : List Char} (quoted : Quoted body value) (after : List Char) :
    Stands after ('"' :: (body ++ ['"'])) (.str (String.ofList value)) := by
  refine ⟨.quoted quoted, ?_, by simp [NoComment]⟩
  intro longer pre shape
  obtain ⟨body', value', rfl, quoted'⟩ := (shape.of_prefix pre).2.2.1 rfl
  obtain ⟨after', same⟩ := pre
  -- The closing quote is where the reader stops, for either of the two bodies.
  have both := quoted'.stringTail after'
  simp only [List.cons_append, List.append_assoc, List.nil_append, List.cons.injEq, true_and] at same
  rw [same] at both
  have bodies := (quoted.stringTail after).symm.trans both
  simp_all

theorem stands_quoted {rest text value : List Char}
    (read : Piece.stringTail rest = .ok (text, value)) :
    ∃ after, '"' :: rest = '"' :: text ++ after ∧
      Stands after ('"' :: text) (.str (String.ofList value)) := by
  obtain ⟨body, after, rfl, rfl, quoted⟩ := stringTail_sound read
  exact ⟨after, rfl, quoted.stands after⟩

theorem stands_symbol {c : Char} {rest : List Char} {s : Symbol} (digit : c.isDigit = false)
    (start : Piece.isNameStart c = false) (quote : c ≠ '"') (noComment : NoComment (c :: rest))
    (read : Piece.symbol? (c :: rest) = some s) :
    ∃ after, c :: rest = s.text.toList ++ after ∧ Stands after s.text.toList (.symbol s) := by
  obtain ⟨after, same⟩ := symbol?_prefix read
  refine ⟨after, same.symm, .symbol s, ?_, same ▸ noComment⟩
  rw [same]
  intro longer pre shape
  obtain ⟨s', rfl⟩ := (shape.of_prefix pre).2.2.2 digit start quote
  obtain one | two := length_symbol s'
  · have := length_symbol s
    omega
  · obtain ⟨a, b, pair⟩ := List.length_eq_two.mp two
    obtain ⟨rest', eq⟩ := pre
    rw [pair] at eq
    have found := symbol?_pair pair rest'
    rw [← eq] at read
    simp_all

end Lexeme

namespace Piece

open Lexeme

/-- What a piece before the text `after` has to be. -/
def Reads (after : List Char) (p : Piece) : Prop :=
  match p.token with
  | none => Filler after p.text
  | some kind => Stands after p.text kind

theorem noComment_iff {c : Char} {rest : List Char} : NoComment (c :: rest) ↔
    ¬ (c == '/' && rest.head? == some '/') ∧ ¬ (c == '/' && rest.head? == some '*') := by
  cases rest <;> simp [NoComment, eq_comm (a := '/'), eq_comm (a := '*')]

theorem front_sound {c : Char} {rest : List Char} {p : Piece} (read : front c rest = .ok p) :
    ∃ after, c :: rest = p.text ++ after ∧ p.Reads after := by
  revert read
  fun_cases front c rest with
  | case1 blank =>
      rintro ⟨⟩
      exact ⟨rest, rfl, .blank blank⟩
  | case2 _ line =>
      rintro ⟨⟩
      simp only [Bool.and_eq_true, beq_iff_eq] at line
      obtain ⟨rfl, slash⟩ := line
      obtain ⟨rest, rfl⟩ := List.head?_eq_some_iff.mp slash
      refine ⟨rest.dropWhile (· != '\n'), by simp, .line ?_ ?_⟩
      · intro mem
        simpa using List.mem_takeWhile_imp mem
      · intro c first
        have := List.head?_dropWhile_not (· != '\n') rest
        rw [first] at this
        simpa using this
  | case3 _ _ block text after read =>
      rintro ⟨⟩
      simp only [Bool.and_eq_true, beq_iff_eq] at block
      obtain ⟨rfl, star⟩ := block
      obtain ⟨rest, rfl⟩ := List.head?_eq_some_iff.mp star
      obtain ⟨body, rfl, same, unended⟩ := commentTail_sound read
      refine ⟨after, ?_, .block unended⟩
      simpa using same
  | case4 => simp
  | case5 _ noLine noBlock digit =>
      intro read
      obtain ⟨after, kind, token, same, stands⟩ :=
        stands_number digit (noComment_iff.mpr ⟨noLine, noBlock⟩) read
      exact ⟨after, same, by simpa [Reads, token] using stands⟩
  | case6 _ noLine noBlock _ start text =>
      rintro ⟨⟩
      exact ⟨_, by simp [text], stands_word start (noComment_iff.mpr ⟨noLine, noBlock⟩)⟩
  | case7 => simp
  | case8 _ _ _ _ _ quote text value read =>
      rintro ⟨⟩
      rw [beq_iff_eq] at quote
      subst quote
      exact stands_quoted read
  | case9 _ noLine noBlock digit start quote s read =>
      rintro ⟨⟩
      rw [Bool.not_eq_true] at digit start
      rw [beq_iff_eq] at quote
      exact stands_symbol digit start quote (noComment_iff.mpr ⟨noLine, noBlock⟩) read
  | case10 => simp

theorem front_filler {c : Char} {rest after text : List Char} (same : c :: rest = text ++ after)
    (filler : Filler after text) : front c rest = .ok ⟨text, none⟩ := by
  cases filler with
  | blank blank =>
      obtain ⟨rfl, rfl⟩ := same
      simp [front, blank]
  | @line text oneLine stop =>
      obtain ⟨rfl, rfl⟩ := same
      have taken : (text ++ after).takeWhile (· != '\n') = text := by
        refine takeWhile_eq (fun c mem => ?_) (fun c mem => by simp [stop c mem])
        simpa using ne_of_mem_of_not_mem mem oneLine
      simp [front, Text.isBlank, taken]
  | @block text unended =>
      obtain ⟨rfl, rfl⟩ := same
      simp [front, Text.isBlank, commentTail_complete unended after]

section Longest

variable {c : Char} {rest text after : List Char}

theorem takeWhile_word (same : c :: rest = text ++ after) (word : Word text)
    (longest : ∀ longer, longer <+: c :: rest → Shape longer → longer.length ≤ text.length) :
    isNameStart c ∧ c :: rest.takeWhile isNameChar = text := by
  obtain ⟨d, cs, rfl, start, chars⟩ := word_iff.mp word
  obtain ⟨rfl, rest_eq⟩ := List.cons.inj same
  refine ⟨start, ?_⟩
  rw [rest_eq, List.cons.injEq]
  refine ⟨rfl, takeWhile_eq chars fun d first => ?_⟩
  obtain ⟨more, rfl⟩ := List.head?_eq_some_iff.mp first
  -- A name character behind the word would make a longer word.
  by_contra other
  have word : Word (c :: (cs ++ [d])) := word_iff.mpr
    ⟨c, _, rfl, start, by simpa [or_imp, forall_and] using ⟨chars, by simpa using other⟩⟩
  have short := longest _ (by simp [rest_eq]) (.word word)
  simp only [List.length_cons, List.length_append] at short
  omega

theorem wordKind_keyword (k : Keyword) : wordKind k.text.toList = .keyword k := by
  simp [wordKind, ofText?_text]

theorem wordKind_name (other : ∀ k : Keyword, text ≠ k.text.toList) :
    wordKind text = .name (String.ofList text) := by
  have none : Keyword.ofText? (String.ofList text) = none := by
    refine List.find?_eq_none.mpr fun k _ found => other k ?_
    simp [beq_iff_eq.mp found]
  simp [wordKind, none]

theorem number_eq {whole frac places exp : List Char} {e : Int}
    (same : c :: rest = whole ++ frac ++ exp ++ after) (hw : Digits whole)
    (hf : Fraction frac places) (hx : Exponent exp e)
    (longest : ∀ longer, longer <+: c :: rest → Shape longer →
      longer.length ≤ (whole ++ frac ++ exp).length) :
    c.isDigit ∧ number (c :: rest) =
      if frac = [] ∧ exp = [] then
        if Decimal.digitsValue whole < 2 ^ 63 then
          .ok ⟨whole, some (.int (.ofNat (Decimal.digitsValue whole)))⟩
        else .error (.invalidNumber (String.ofList whole))
      else
        .ok ⟨whole ++ frac ++ exp, some (.float
          (Decimal.nearest (Decimal.digitsValue (whole ++ places)) (e - places.length)))⟩ := by
  obtain ⟨d, cs, rfl⟩ := List.exists_cons_of_ne_nil hw.1
  obtain ⟨rfl, _⟩ := List.cons.inj same
  have digit := hw.2 c (by simp)
  refine ⟨digit, ?_⟩
  obtain ⟨whole', frac', places', exp', e', after', same', hw', hf', hx', most, answer⟩ :=
    number_spec rest digit
  have pre := most _ _ _ _ _ hw hf hx (same ▸ List.prefix_append ..)
  have texts := pre.eq_of_length_le
    (longest _ (same' ▸ List.prefix_append ..) (.number hw' hf' hx'))
  obtain ⟨rfl, rfl, rfl⟩ := parts_unique hw hf hx hw' hf' hx' texts
  rw [answer, ← hf.places, ← hf'.places, ← hx.value, ← hx'.value]

theorem symbol?_eq {s : Symbol} (same : c :: rest = s.text.toList ++ after)
    (longest : ∀ longer, longer <+: c :: rest → Shape longer →
      longer.length ≤ s.text.toList.length) :
    symbol? (c :: rest) = some s := by
  have pre : s.text.toList <+: c :: rest := ⟨after, same.symm⟩
  obtain one | two := length_symbol s
  · obtain ⟨s', found⟩ := Option.ne_none_iff_exists'.mp (symbol?_ne_none pre)
    have pre' := symbol?_prefix found
    have short := longest _ pre' (.symbol s')
    have texts : s'.text.toList = s.text.toList := by
      refine (List.prefix_of_prefix_length_le pre' pre short).eq_of_length_le ?_
      have := length_symbol s'
      omega
    rw [found, ← symbol?_text s', texts, symbol?_text s]
  · obtain ⟨a, b, pair⟩ := List.length_eq_two.mp two
    rw [same, pair]
    exact symbol?_pair pair after

/-- The reader takes the lexeme that stands at the front. -/
theorem front_lexeme {kind : Token.Kind} (same : c :: rest = text ++ after)
    (stands : Stands after text kind) : front c rest = .ok ⟨text, some kind⟩ := by
  obtain ⟨denotes, longest, noComment⟩ := stands
  rw [← same] at longest noComment
  obtain ⟨noLine, noBlock⟩ := noComment_iff.mp noComment
  have blank : Text.isBlank c = false := by
    obtain ⟨d, _, rfl, blank, _⟩ := denotes.shape.first
    rwa [(List.cons.inj same).1]
  cases denotes with
  | keyword k =>
      obtain ⟨start, taken⟩ := takeWhile_word same (.keyword k) longest
      simp [front, blank, noLine, noBlock, isDigit_of_isNameStart start, start, taken,
        wordKind_keyword]
  | name word other =>
      obtain ⟨start, taken⟩ := takeWhile_word same word longest
      simp [front, blank, noLine, noBlock, isDigit_of_isNameStart start, start, taken,
        wordKind_name other]
  | int hw small =>
      obtain ⟨digit, answer⟩ := number_eq (by simpa using same) hw .none .none
        (by simpa using longest)
      simp only [and_self, if_true, if_pos small] at answer
      simp [front, blank, noLine, noBlock, digit, answer]
  | float hw hf hx parts =>
      obtain ⟨digit, answer⟩ := number_eq same hw hf hx longest
      rw [if_neg (not_and_or.mpr parts)] at answer
      simp [front, blank, noLine, noBlock, digit, answer]
  | @quoted body value quoted =>
      obtain ⟨rfl, rest_eq⟩ := List.cons.inj same
      have taken := quoted.stringTail after
      simp [front, blank, rest_eq, taken, isNameStart]
  | symbol s =>
      obtain ⟨d, ds, text, _, digit, start, quote⟩ := first_symbol s
      have first : c = d := by
        rw [text] at same
        exact (List.cons.inj same).1
      rw [← first] at digit start quote
      simp [front, blank, noLine, noBlock, digit, start, quote, symbol?_eq same longest]

theorem Reads.front {p : Piece} (same : c :: rest = p.text ++ after) (reads : p.Reads after) :
    front c rest = .ok p := by
  obtain ⟨text, _ | kind⟩ := p
  · exact front_filler same reads
  · exact front_lexeme same reads

end Longest

end Piece

end Treewalk
