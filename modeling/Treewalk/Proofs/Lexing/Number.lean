import Treewalk.Proofs.Lexing.Lexeme

/-! # Number literals

A number is read one character after the other, with a look ahead at a point and at
the mark of an exponent. What is read is the longest literal: digits, then a fraction
or none, then an exponent or none.
-/

namespace Treewalk

namespace Lexeme

theorem takeWhile_eq {p : Char → Bool} {inside after : List Char} (all : ∀ c ∈ inside, p c)
    (stop : ∀ c ∈ after.head?, p c = false) : (inside ++ after).takeWhile p = inside := by
  rw [List.takeWhile_append_of_pos all]
  cases after with
  | nil => simp
  | cons c after => simp [stop c (by simp)]

theorem prefix_takeWhile {p : Char → Bool} {inside cs : List Char} (all : ∀ c ∈ inside, p c)
    (pre : inside <+: cs) : inside <+: cs.takeWhile p := by
  obtain ⟨after, rfl⟩ := pre
  rw [List.takeWhile_append_of_pos all]
  exact List.prefix_append ..

/-! ## Fractions and exponents -/

theorem digits_takeWhile {cs : List Char} (some : ¬ (cs.takeWhile Char.isDigit).isEmpty) :
    Digits (cs.takeWhile Char.isDigit) :=
  ⟨fun none => some (by simp [none]), fun _ mem => List.mem_takeWhile_imp mem⟩

theorem Fraction.places {text places : List Char} (h : Fraction text places) :
    text.drop 1 = places := by
  cases h <;> rfl

theorem Fraction.first {text places : List Char} (h : Fraction text places) :
    ∀ c ∈ text.head?, c = '.' := by
  cases h <;> simp

/-- Whether a character starts an exponent. -/
def isMark (c : Char) : Bool := c == 'e' || c == 'E'

theorem Fraction.unmarked {text places : List Char} (h : Fraction text places) :
    ∀ c ∈ text, !isMark c := by
  cases h with
  | none => simp
  | point digits =>
      have unmarked : ∀ c ∈ places, isMark c = false := by
        intro c mem
        have digit := digits.2 c mem
        simp only [isMark, Bool.or_eq_false_iff, beq_eq_false_iff_ne]
        constructor <;> rintro rfl <;> simp at digit
      simpa [isMark] using unmarked

theorem fraction_prefix (cs : List Char) : Decimal.fraction cs <+: cs := by
  fun_cases Decimal.fraction cs with
  | case1 c rest digit => simpa using List.takeWhile_prefix _
  | case2 => simp
  | case3 => simp

theorem exists_fraction (cs : List Char) : ∃ places, Fraction (Decimal.fraction cs) places := by
  fun_cases Decimal.fraction cs with
  | case1 c rest digit =>
      have digits : Digits ((c :: rest).takeWhile Char.isDigit) :=
        digits_takeWhile (by simp [digit])
      rw [List.takeWhile_cons, if_pos digit] at digits
      exact ⟨_, .point digits⟩
  | case2 => exact ⟨_, .none⟩
  | case3 => exact ⟨_, .none⟩

theorem Fraction.prefix_fraction {text places cs : List Char} (h : Fraction text places)
    (pre : text <+: cs) : text <+: Decimal.fraction cs := by
  cases h with
  | none => simp
  | point digits =>
      obtain ⟨after, rfl⟩ := pre
      obtain ⟨c, ds, rfl⟩ := List.exists_cons_of_ne_nil digits.1
      have first : c.isDigit := digits.2 c (by simp)
      simp only [List.cons_append, Decimal.fraction, if_pos first, List.cons_prefix_cons, true_and]
      exact prefix_takeWhile (fun d mem => digits.2 d (by simp [mem])) (List.prefix_append ..)

theorem Exponent.first {text : List Char} {e : Int} (h : Exponent text e) :
    ∀ c ∈ text.head?, isMark c := by
  cases h <;> simp [isMark, *]

theorem filter_digits {ds : List Char} (digits : Digits ds) : ds.filter Char.isDigit = ds :=
  List.filter_eq_self.mpr digits.2

theorem Digits.not_mem {ds : List Char} (digits : Digits ds) {c : Char} (other : c.isDigit = false) :
    c ∉ ds := by
  intro mem
  simp [digits.2 c mem] at other

theorem Exponent.value {text : List Char} {e : Int} (h : Exponent text e) :
    Decimal.exponentValue text = e := by
  cases h with
  | none => rfl
  | plain mark digits =>
      have minus := digits.not_mem (c := '-') rfl
      obtain rfl | rfl := mark <;>
        simp [Decimal.exponentValue, filter_digits digits, minus]
  | plus mark digits =>
      have minus := digits.not_mem (c := '-') rfl
      obtain rfl | rfl := mark <;>
        simp [Decimal.exponentValue, filter_digits digits, minus]
  | minus mark digits =>
      obtain rfl | rfl := mark <;>
        simp [Decimal.exponentValue, filter_digits digits]

theorem exponent_plain {mark : Char} {cs : List Char} (marked : mark = 'e' ∨ mark = 'E')
    (unsigned : ∀ c ∈ cs.head?, c ≠ '+' ∧ c ≠ '-') :
    Decimal.exponent (mark :: cs) =
      if (cs.takeWhile Char.isDigit).isEmpty then [] else mark :: cs.takeWhile Char.isDigit := by
  cases cs with
  | nil => obtain rfl | rfl := marked <;> rfl
  | cons c cs =>
      have other := unsigned c rfl
      obtain rfl | rfl := marked <;> simp [Decimal.exponent, other]

theorem exponent_signed {mark sign : Char} (cs : List Char) (marked : mark = 'e' ∨ mark = 'E')
    (signed : sign = '+' ∨ sign = '-') :
    Decimal.exponent (mark :: sign :: cs) =
      if (cs.takeWhile Char.isDigit).isEmpty then []
      else mark :: sign :: cs.takeWhile Char.isDigit := by
  obtain rfl | rfl := marked <;> obtain rfl | rfl := signed <;> simp [Decimal.exponent]

theorem exponent_unmarked {cs : List Char} (unmarked : ∀ c ∈ cs.head?, ¬ (c = 'e' ∨ c = 'E')) :
    Decimal.exponent cs = [] := by
  cases cs with
  | nil => rfl
  | cons c cs => simpa [Decimal.exponent] using fun marked => absurd marked (unmarked c rfl)

theorem exponent_spec (cs : List Char) :
    Decimal.exponent cs <+: cs ∧ ∃ e, Exponent (Decimal.exponent cs) e := by
  by_cases marked : ∃ mark rest, cs = mark :: rest ∧ (mark = 'e' ∨ mark = 'E')
  · obtain ⟨mark, rest, rfl, marked⟩ := marked
    by_cases signed : ∃ sign tail, rest = sign :: tail ∧ (sign = '+' ∨ sign = '-')
    · obtain ⟨sign, tail, rfl, signed⟩ := signed
      rw [exponent_signed tail marked signed]
      split
      · exact ⟨List.nil_prefix, _, .none⟩
      · have digits := digits_takeWhile ‹_›
        refine ⟨by simpa using List.takeWhile_prefix _, ?_⟩
        obtain rfl | rfl := signed
        · exact ⟨_, .plus marked digits⟩
        · exact ⟨_, .minus marked digits⟩
    · have unsigned : ∀ c ∈ rest.head?, c ≠ '+' ∧ c ≠ '-' := by
        cases rest with
        | nil => simp
        | cons c rest => simpa [not_or] using signed
      rw [exponent_plain marked unsigned]
      split
      · exact ⟨List.nil_prefix, _, .none⟩
      · have digits := digits_takeWhile ‹_›
        exact ⟨by simpa using List.takeWhile_prefix _, _, .plain marked digits⟩
  · have unmarked : Decimal.exponent cs = [] := by
      apply exponent_unmarked
      cases cs with
      | nil => simp
      | cons c cs => simpa using marked
    rw [unmarked]
    exact ⟨List.nil_prefix, _, .none⟩

theorem Digits.takeWhile_append {ds : List Char} (digits : Digits ds) (after : List Char) :
    ∃ more, (ds ++ after).takeWhile Char.isDigit = ds ++ more ∧
      ((ds ++ after).takeWhile Char.isDigit).isEmpty = false := by
  obtain ⟨more, same⟩ := prefix_takeWhile digits.2 (List.prefix_append ds after)
  exact ⟨more, same.symm, by simp [← same, digits.1]⟩

theorem Exponent.prefix_exponent {text cs : List Char} {e : Int} (h : Exponent text e)
    (pre : text <+: cs) : text <+: Decimal.exponent cs := by
  obtain ⟨after, rfl⟩ := pre
  cases h with
  | none => simp
  | @plain mark ds marked digits =>
      have unsigned : ∀ c ∈ (ds ++ after).head?, c ≠ '+' ∧ c ≠ '-' := by
        obtain ⟨c, ds, rfl⟩ := List.exists_cons_of_ne_nil digits.1
        have digit := digits.2 c (by simp)
        simp only [List.cons_append, List.head?_cons, Option.mem_some_iff]
        rintro _ rfl
        constructor <;> rintro rfl <;> simp at digit
      obtain ⟨more, same, some⟩ := digits.takeWhile_append after
      rw [List.cons_append, exponent_plain marked unsigned, some, same]
      simp
  | @plus mark ds marked digits =>
      obtain ⟨more, same, some⟩ := digits.takeWhile_append after
      rw [List.cons_append, List.cons_append, exponent_signed _ marked (.inl rfl), some, same]
      simp
  | @minus mark ds marked digits =>
      obtain ⟨more, same, some⟩ := digits.takeWhile_append after
      rw [List.cons_append, List.cons_append, exponent_signed _ marked (.inr rfl), some, same]
      simp

/-! ## Reading on inside a number

The flags tell which parts have begun. Digits leave them as they are, so what counts
is the first character that is not a digit. -/

theorem isEmpty_takeWhile_isDigit (cs : List Char) :
    (cs.takeWhile Char.isDigit).isEmpty = !Piece.atDigit cs := by
  cases cs with
  | nil => rfl
  | cons c cs => cases digit : c.isDigit <;> simp [Piece.atDigit, digit]

/-- What stands behind all digits of a text does not start with a digit. -/
theorem not_isDigit_of_takeWhile {ds after : List Char}
    (all : (ds ++ after).takeWhile Char.isDigit = ds) : ∀ c ∈ after.head?, c.isDigit = false := by
  intro c first
  obtain ⟨rest, rfl⟩ := List.head?_eq_some_iff.mp first
  have digits : ∀ d ∈ ds, d.isDigit := fun d mem => List.mem_takeWhile_imp (all.symm ▸ mem)
  rw [List.takeWhile_append_of_pos digits] at all
  by_contra digit
  simp [digit] at all

theorem fraction_point (cs : List Char) : Decimal.fraction ('.' :: cs) =
    if Piece.atDigit cs then '.' :: cs.takeWhile Char.isDigit else [] := by
  cases cs with
  | nil => rfl
  | cons c cs => cases digit : c.isDigit <;> simp [Decimal.fraction, Piece.atDigit, digit]

theorem fraction_pointless {cs : List Char} (pointless : ∀ c ∈ cs.head?, c ≠ '.') :
    Decimal.fraction cs = [] := by
  fun_cases Decimal.fraction cs with
  | case1 => exact absurd rfl (pointless '.' rfl)
  | case2 => rfl
  | case3 => rfl

theorem numberTail_digits {float marked : Bool} {ds : List Char} (digits : ∀ c ∈ ds, c.isDigit)
    (after : List Char) :
    Piece.numberTail float marked (ds ++ after) =
      (Piece.numberTail float marked after).map (ds ++ ·) id := by
  induction ds with
  | nil => rfl
  | cons c ds ih =>
      obtain ⟨first, others⟩ := List.forall_mem_cons.mp digits
      rw [List.cons_append, Piece.numberTail.eq_def]
      dsimp only
      rw [if_pos first, ih others]
      rfl

/-- Behind the mark of an exponent only digits are read. -/
theorem numberTail_marked (cs : List Char) :
    Piece.numberTail true true cs = (cs.takeWhile Char.isDigit, true) := by
  induction cs with
  | nil => rfl
  | cons c cs ih =>
      rw [Piece.numberTail.eq_def]
      cases digit : c.isDigit <;> simp [digit, ih]

/-- Where no fraction can begin, an exponent is read if there is one. -/
theorem numberTail_exponent {float : Bool} {cs : List Char}
    (other : ∀ c ∈ cs.head?, c.isDigit = false) (closed : float ∨ Decimal.fraction cs = []) :
    Piece.numberTail float false cs =
      (Decimal.exponent cs, float || !(Decimal.exponent cs).isEmpty) := by
  cases cs with
  | nil => simp [Piece.numberTail, Decimal.exponent]
  | cons c rest =>
      have notDigit := other c rfl
      have notPoint : ¬ (c == '.' && !float && Piece.atDigit rest) := by
        simp only [Bool.and_eq_true, beq_iff_eq, Bool.not_eq_true']
        rintro ⟨⟨rfl, open'⟩, ahead⟩
        simp [open', fraction_point, ahead] at closed
      rw [Piece.numberTail.eq_def]
      dsimp only
      rw [if_neg (by simp [notDigit]), if_neg notPoint]
      by_cases marked : c = 'e' ∨ c = 'E'
      · rw [if_pos (by simpa using marked)]
        cases rest with
        | nil =>
            rw [exponent_plain marked (by simp)]
            simp
        | cons d after =>
            -- a sign counts only with a digit behind it, and no sign is a digit
            by_cases signed : d = '+' ∨ d = '-'
            · have sign : d.isDigit = false := by obtain rfl | rfl := signed <;> rfl
              rw [exponent_signed after marked signed, isEmpty_takeWhile_isDigit]
              cases ahead : Piece.atDigit after <;> simp [sign, signed, ahead, numberTail_marked]
            · have unsigned := not_or.mp signed
              rw [exponent_plain marked (by simpa using unsigned)]
              cases digit : d.isDigit <;> simp [digit, unsigned, numberTail_marked]
      · rw [if_neg (by simpa using marked), exponent_unmarked (by simpa using marked)]
        simp

/-- Behind the digits in front, a fraction is read if there is one, and then an
    exponent if there is one. -/
theorem numberTail_fraction {frac after : List Char} (first : Decimal.fraction (frac ++ after) = frac)
    (other : ∀ c ∈ (frac ++ after).head?, c.isDigit = false) :
    Piece.numberTail false false (frac ++ after) =
      (frac ++ Decimal.exponent after, !(frac.isEmpty && (Decimal.exponent after).isEmpty)) := by
  obtain ⟨places, parts⟩ := exists_fraction (frac ++ after)
  rw [first] at parts
  cases parts with
  | none =>
      rw [List.nil_append] at first other ⊢
      simp [numberTail_exponent other (.inr first)]
  | point digits =>
      have ahead : Piece.atDigit (places ++ after) := by
        obtain ⟨_, _, some⟩ := digits.takeWhile_append after
        simpa [isEmpty_takeWhile_isDigit] using some
      rw [List.cons_append, fraction_point, if_pos ahead, List.cons.injEq] at first
      have read : Piece.numberTail true false after = (Decimal.exponent after, true) :=
        numberTail_exponent (not_isDigit_of_takeWhile first.2) (.inl rfl)
      rw [List.cons_append, Piece.numberTail.eq_def]
      simp [ahead, numberTail_digits digits.2, read]

/-! ## Numbers -/

/-- Of two stretches `a` and `b` at the front of `x ++ y`, the second cannot
    start inside `x`. -/
theorem eq_or_nil_of_prefix {P : Char → Prop} {a b x y : List Char} (short : a <+: x)
    (start : ∀ c ∈ b.head?, P c) (inside : ∀ c ∈ x, ¬ P c) (pre : a ++ b <+: x ++ y) :
    a = x ∨ b = [] := by
  obtain ⟨t, rfl⟩ := short
  rw [List.append_assoc, List.prefix_append_right_inj] at pre
  cases t with
  | nil => exact .inl (by simp)
  | cons d t =>
      cases b with
      | nil => exact .inr rfl
      | cons c b =>
          obtain ⟨rfl, _⟩ := List.cons_prefix_cons.mp pre
          exact absurd (start c rfl) (inside c (by simp))

/-- What follows the whole part of a number does not start with a digit. -/
theorem head_fraction_exponent {frac places exp : List Char} {e : Int}
    (hf : Fraction frac places) (hx : Exponent exp e) :
    ∀ c ∈ (frac ++ exp).head?, ¬ c.isDigit := by
  intro c first
  rw [List.head?_append] at first
  cases none : frac.head? with
  | some d =>
      rw [none, Option.some_or, Option.mem_some_iff] at first
      subst first
      simp [hf.first d none]
  | none =>
      rw [none, Option.none_or] at first
      have mark := hx.first c first
      simp only [isMark, Bool.or_eq_true, beq_iff_eq] at mark
      obtain rfl | rfl := mark <;> decide

theorem Fraction.fraction_append {frac places exp : List Char} {e : Int} (hf : Fraction frac places)
    (hx : Exponent exp e) : Decimal.fraction (frac ++ exp) = frac := by
  have after : ∀ c ∈ exp.head?, c.isDigit = false := by
    simpa using head_fraction_exponent .none hx
  cases hf with
  | none =>
      apply fraction_pointless
      rintro c first rfl
      have := hx.first '.' first
      contradiction
  | point digits =>
      obtain ⟨_, _, some⟩ := digits.takeWhile_append exp
      rw [isEmpty_takeWhile_isDigit, Bool.not_eq_false'] at some
      rw [List.cons_append, fraction_point, if_pos some, takeWhile_eq digits.2 after]

theorem Exponent.exponent_self {exp : List Char} {e : Int} (hx : Exponent exp e) :
    Decimal.exponent exp = exp :=
  (exponent_spec exp).1.eq_of_length_le (hx.prefix_exponent List.prefix_rfl).length_le

/-- Every literal spells a number. -/
theorem float?_eq {whole frac places exp : List Char} {e : Int} (hw : Digits whole)
    (hf : Fraction frac places) (hx : Exponent exp e) :
    Decimal.float? (whole ++ frac ++ exp) = some
      (Decimal.nearest (Decimal.digitsValue (whole ++ places)) (e - places.length)) := by
  have first : (whole ++ (frac ++ exp)).takeWhile Char.isDigit = whole :=
    takeWhile_eq hw.2 fun c mem => by simpa using head_fraction_exponent hf hx c mem
  simp [Decimal.float?, first, hf.fraction_append hx, hx.exponent_self, hw.1, hf.places, hx.value]

/-- A number takes its parts apart in one way only. -/
theorem parts_unique {whole frac places exp whole' frac' places' exp' : List Char} {e e' : Int}
    (hw : Digits whole) (hf : Fraction frac places) (hx : Exponent exp e)
    (hw' : Digits whole') (hf' : Fraction frac' places') (hx' : Exponent exp' e')
    (same : whole ++ frac ++ exp = whole' ++ frac' ++ exp') :
    whole = whole' ∧ frac = frac' ∧ exp = exp' := by
  rw [List.append_assoc, List.append_assoc] at same
  have wholes : whole = whole' := by
    have left := takeWhile_eq hw.2 (fun c mem => by
      simpa using head_fraction_exponent hf hx c mem)
    have right := takeWhile_eq hw'.2 (fun c mem => by
      simpa using head_fraction_exponent hf' hx' c mem)
    rw [← left, ← right, same]
  subst wholes
  have rest := List.append_cancel_left same
  have fracs : frac = frac' := by
    have left := takeWhile_eq hf.unmarked (fun c mem => by simpa using hx.first c mem)
    have right := takeWhile_eq hf'.unmarked (fun c mem => by simpa using hx'.first c mem)
    rw [← left, ← right, rest]
  subst fracs
  exact ⟨rfl, rfl, List.append_cancel_left rest⟩

/-- What is read are the longest parts that a number at the front can have. -/
theorem numberTail_spec {c : Char} (cs : List Char) (digit : c.isDigit) :
    ∃ whole frac places exp e after, c :: cs = whole ++ frac ++ exp ++ after ∧
      Digits whole ∧ Fraction frac places ∧ Exponent exp e ∧
      (∀ whole' frac' places' exp' e', Digits whole' → Fraction frac' places' →
        Exponent exp' e' → whole' ++ frac' ++ exp' <+: c :: cs →
        whole' ++ frac' ++ exp' <+: whole ++ frac ++ exp) ∧
      Piece.numberTail false false (c :: cs) =
        (whole ++ frac ++ exp, !(frac.isEmpty && exp.isEmpty)) := by
  have front : (c :: cs).takeWhile Char.isDigit <+: c :: cs := List.takeWhile_prefix _
  obtain ⟨afterWhole, wholeEq⟩ := front
  generalize wholeIs : (c :: cs).takeWhile Char.isDigit = whole at wholeEq
  have hw : Digits whole := wholeIs ▸ digits_takeWhile (by simp [digit])
  obtain ⟨afterFrac, fracEq⟩ := fraction_prefix afterWhole
  obtain ⟨places, hf⟩ := exists_fraction afterWhole
  generalize fracIs : Decimal.fraction afterWhole = frac at fracEq hf
  obtain ⟨⟨after, expEq⟩, e, hx⟩ := exponent_spec afterFrac
  generalize expIs : Decimal.exponent afterFrac = exp at expEq hx
  refine ⟨whole, frac, places, exp, e, after, ?_, hw, hf, hx, ?_, ?_⟩
  · rw [← wholeEq, ← fracEq, ← expEq]
    simp
  · intro whole' frac' places' exp' e' hw' hf' hx' pre
    -- a literal that ends inside a part ends there with all its later parts empty
    rw [List.append_assoc] at pre
    have short : whole' <+: whole :=
      wholeIs ▸ prefix_takeWhile hw'.2 ((List.prefix_append ..).trans pre)
    rw [← wholeEq] at pre
    obtain rfl | none := eq_or_nil_of_prefix short (head_fraction_exponent hf' hx')
      (fun d mem => not_not.mpr (hw.2 d mem)) pre
    · rw [List.prefix_append_right_inj] at pre
      have short : frac' <+: frac :=
        fracIs ▸ hf'.prefix_fraction ((List.prefix_append ..).trans pre)
      rw [← fracEq] at pre
      simp only [List.append_assoc, List.prefix_append_right_inj]
      obtain rfl | none := eq_or_nil_of_prefix short hx'.first
        (fun d mem => by simpa using hf.unmarked d mem) pre
      · rw [List.prefix_append_right_inj] at pre ⊢
        exact expIs ▸ hx'.prefix_exponent pre
      · rw [none, List.append_nil]
        exact short.trans (List.prefix_append ..)
    · rw [List.append_assoc, none, List.append_nil, List.append_assoc]
      exact short.trans (List.prefix_append ..)
  · have tail : Piece.numberTail false false afterWhole =
        (frac ++ exp, !(frac.isEmpty && exp.isEmpty)) := by
      rw [← wholeEq] at wholeIs
      rw [← fracEq] at fracIs wholeIs ⊢
      rw [numberTail_fraction fracIs (not_isDigit_of_takeWhile wholeIs), expIs]
    rw [← wholeEq, numberTail_digits hw.2, tail, List.append_assoc]
    rfl

theorem isFloat_of_parts {frac exp : List Char} (parts : ¬ (frac = [] ∧ exp = [])) :
    (!(frac.isEmpty && exp.isEmpty)) = true := by
  simpa using not_and_or.mp parts

/-- The parts of the number at the front are the longest there are, and make up
    what the reader of numbers answers. -/
theorem number_spec {c : Char} (cs : List Char) (digit : c.isDigit) :
    ∃ whole frac places exp e after, c :: cs = whole ++ frac ++ exp ++ after ∧
      Digits whole ∧ Fraction frac places ∧ Exponent exp e ∧
      (∀ whole' frac' places' exp' e', Digits whole' → Fraction frac' places' →
        Exponent exp' e' → whole' ++ frac' ++ exp' <+: c :: cs →
        whole' ++ frac' ++ exp' <+: whole ++ frac ++ exp) ∧
      Piece.number (c :: cs) =
        if frac = [] ∧ exp = [] then
          if Decimal.digitsValue whole < 2 ^ 63 then
            .ok ⟨whole, some (.int (.ofNat (Decimal.digitsValue whole)))⟩
          else .error (.invalidNumber (String.ofList whole))
        else
          .ok ⟨whole ++ frac ++ exp, some (.float
            (Decimal.nearest (Decimal.digitsValue (whole ++ places)) (e - places.length)))⟩ := by
  obtain ⟨whole, frac, places, exp, e, after, same, hw, hf, hx, most, read⟩ :=
    numberTail_spec cs digit
  refine ⟨whole, frac, places, exp, e, after, same, hw, hf, hx, most, ?_⟩
  rw [Piece.number, read]
  by_cases plain : frac = [] ∧ exp = []
  · obtain ⟨rfl, rfl⟩ := plain
    by_cases small : Decimal.digitsValue whole < 9223372036854775808 <;>
      simp [Decimal.int?, small]
  · simp only [isFloat_of_parts plain, if_true, float?_eq hw hf hx, Option.map_some, if_neg plain]

/-- The text of a number literal: digits, then a fraction or none, then an exponent or
    none. `float` tells whether it has a fraction or an exponent. -/
inductive Number : List Char → Bool → Prop where
  | whole {ds : List Char} : Digits ds → Number ds false
  | parts {whole frac places exp : List Char} {e : Int} : Digits whole → Fraction frac places →
      Exponent exp e → frac ≠ [] ∨ exp ≠ [] → Number (whole ++ frac ++ exp) true

theorem number_of_parts {whole frac places exp : List Char} {e : Int} (hw : Digits whole)
    (hf : Fraction frac places) (hx : Exponent exp e) :
    Number (whole ++ frac ++ exp) (!(frac.isEmpty && exp.isEmpty)) := by
  by_cases plain : frac = [] ∧ exp = []
  · obtain ⟨rfl, rfl⟩ := plain
    simpa using Number.whole hw
  · rw [isFloat_of_parts plain]
    exact .parts hw hf hx (not_and_or.mp plain)

theorem Number.exists_parts {text : List Char} {float : Bool} (h : Number text float) :
    ∃ whole frac places exp e, text = whole ++ frac ++ exp ∧ Digits whole ∧
      Fraction frac places ∧ Exponent exp e := by
  cases h with
  | whole digits => exact ⟨_, [], [], [], 0, by simp, digits, .none, .none⟩
  | parts hw hf hx _ => exact ⟨_, _, _, _, _, rfl, hw, hf, hx⟩

theorem Number.ne_nil {text : List Char} {float : Bool} (h : Number text float) : text ≠ [] := by
  obtain ⟨_, _, _, _, _, rfl, digits, _⟩ := h.exists_parts
  simp [digits.1]

/-- What is read is the longest literal at the front. -/
theorem numberTail_longest {c : Char} (cs : List Char) (digit : c.isDigit) :
    ∃ text float after, c :: cs = text ++ after ∧ Number text float ∧
      (∀ other form, Number other form → other <+: c :: cs → other <+: text) ∧
      Piece.numberTail false false (c :: cs) = (text, float) := by
  obtain ⟨whole, frac, places, exp, e, after, same, hw, hf, hx, most, read⟩ :=
    numberTail_spec cs digit
  refine ⟨_, _, after, same, number_of_parts hw hf hx, ?_, read⟩
  intro other form shape pre
  obtain ⟨_, _, _, _, _, rfl, hw', hf', hx'⟩ := shape.exists_parts
  exact most _ _ _ _ _ hw' hf' hx' pre

/-- What becomes of the text that was read. -/
theorem number_cases {cs text : List Char} {float : Bool} (literal : Number text float)
    (read : Piece.numberTail false false cs = (text, float)) :
    (float = true ∧ ∃ x, Decimal.float? text = some x ∧
      Piece.number cs = .ok ⟨text, some (.float x)⟩) ∨
    (float = false ∧ ∃ n, Decimal.int? text = some n ∧
      Piece.number cs = .ok ⟨text, some (.int n)⟩) ∨
    (float = false ∧ Decimal.int? text = none ∧
      Piece.number cs = .error (.invalidNumber (String.ofList text))) := by
  rw [Piece.number, read]
  cases literal with
  | whole digits =>
      cases value : Decimal.int? text with
      | none => exact .inr (.inr ⟨rfl, rfl, by simp [value]⟩)
      | some n => exact .inr (.inl ⟨rfl, n, rfl, by simp [value]⟩)
  | parts hw hf hx _ =>
      have value := float?_eq hw hf hx
      exact .inl ⟨rfl, _, value, by simp only [if_true, value, Option.map_some]⟩

theorem int?_eq_some_iff {ds : List Char} {n : Int64} :
    Decimal.int? ds = some n ↔ n.toInt = Decimal.digitsValue ds := by
  have below := n.toInt_lt
  unfold Decimal.int?
  dsimp only
  split
  · rename_i small
    rw [Option.some.injEq, ← Int64.toInt_inj, Int64.toInt_ofNat_of_lt small, eq_comm]
  · simp only [reduceCtorEq, false_iff]
    omega

theorem int?_eq_none_iff {ds : List Char} :
    Decimal.int? ds = none ↔ 2 ^ 63 - 1 < Decimal.digitsValue ds := by
  unfold Decimal.int?
  dsimp only
  split <;> simp only [reduceCtorEq, false_iff, true_iff] <;> omega

end Lexeme

namespace Piece

/-- Where a digit stands, the reader of numbers is asked for a piece, and reading goes
    on behind it. -/
theorem split_digit {c : Char} (rest : List Char) (digit : c.isDigit) :
    split (c :: rest) =
      match number (c :: rest) with
      | .ok p => (p :: (split (rest.drop (p.text.length - 1))).1,
          (split (rest.drop (p.text.length - 1))).2)
      | .error fault => ([], some fault) := by
  have blank := Lexeme.isBlank_of_isDigit digit
  have slash : c ≠ '/' := by rintro rfl; simp at digit
  have front : front c rest = number (c :: rest) := by simp [front, blank, slash, digit]
  rw [split.eq_def]
  simp only [front]
  cases number (c :: rest) <;> rfl

end Piece

open Lexeme in
/-- Where a digit stands in a text, the longest literal is read, and reading goes on
    behind it. With a fraction or an exponent it is a number with a fraction, and
    otherwise a whole number. A whole number above `2 ^ 63 - 1` is the only one that is
    invalid. -/
theorem number_takes_longest (source : List Char) (i : Nat) (digit : source[i]?.any Char.isDigit) :
    ∃ text float, Number text float ∧ text <+: source.drop i ∧
      (∀ other form, Number other form → other <+: source.drop i → other.length ≤ text.length) ∧
      (∀ p, Piece.number (source.drop i) = .ok p ↔ p.text = text ∧
        if float then ∃ x, Decimal.float? text = some x ∧ p.token = some (.float x)
        else ∃ n : Int64, n.toInt = Decimal.digitsValue text ∧ p.token = some (.int n)) ∧
      (∀ fault, Piece.number (source.drop i) = .error fault ↔
        (float = false ∧ 2 ^ 63 - 1 < Decimal.digitsValue text) ∧
          fault = .invalidNumber (String.ofList text)) ∧
      (LexFault.invalidNumber (String.ofList text)).message =
        "Invalid number '" ++ String.ofList text ++ "'" ∧
      Piece.split (source.drop i) =
        match Piece.number (source.drop i) with
        | .ok p => (p :: (Piece.split (source.drop (i + text.length))).1,
            (Piece.split (source.drop (i + text.length))).2)
        | .error fault => ([], some fault) := by
  obtain ⟨c, found, digit⟩ : ∃ c, source[i]? = some c ∧ c.isDigit := by
    simpa [Option.any_eq_true] using digit
  obtain ⟨inside, rfl⟩ := List.getElem?_eq_some_iff.mp found
  have here := List.drop_eq_getElem_cons inside
  obtain ⟨text, float, after, same, literal, longest, read⟩ := numberTail_longest _ digit
  rw [← here] at same longest read
  have outcome := number_cases literal read
  refine ⟨text, float, literal, ⟨after, same.symm⟩, ?_, ?_, ?_, rfl, ?_⟩
  · exact fun other form shape pre => (longest other form shape pre).length_le
  · rintro ⟨text', token⟩
    simp only [← int?_eq_some_iff]
    obtain ⟨rfl, x, value, answer⟩ | ⟨rfl, n, value, answer⟩ | ⟨rfl, value, answer⟩ := outcome
    all_goals simp [answer, value, eq_comm]
  · intro fault
    rw [← int?_eq_none_iff]
    obtain ⟨rfl, x, value, answer⟩ | ⟨rfl, n, value, answer⟩ | ⟨rfl, value, answer⟩ := outcome
    all_goals simp [answer, value, eq_comm]
  · rw [here, Piece.split_digit _ digit, ← here]
    have behind : source.drop (i + text.length) = (source.drop (i + 1)).drop (text.length - 1) := by
      have := List.length_pos_of_ne_nil literal.ne_nil
      rw [List.drop_drop]
      congr 1
      omega
    obtain ⟨_, x, _, answer⟩ | ⟨_, n, _, answer⟩ | ⟨_, _, answer⟩ := outcome
    all_goals rw [answer, behind]

/-- A second exponent is left for what comes next. -/
theorem number_takes_longest_secondMark :
    " 1e5e6".toList[1]?.any Char.isDigit ∧
    ∃ text p, Lexeme.Number text true ∧ ['1', 'e', '5'] <+: text ∧
      Piece.number "1e5e6".toList = .ok p ∧ p.text = text := by
  have digit : " 1e5e6".toList[1]?.any Char.isDigit := by decide
  have first : Lexeme.Number (['1'] ++ [] ++ ['e', '5']) true :=
    .parts (by simp [Lexeme.Digits]) .none (.plain (.inl rfl) (by simp [Lexeme.Digits]))
      (.inr (by simp))
  obtain ⟨text, float, literal, pre, longest, ok, error, _⟩ :=
    number_takes_longest " 1e5e6".toList 1 digit
  have reaches : ['1', 'e', '5'] <+: text :=
    List.prefix_of_prefix_length_le (by decide) pre (longest _ _ first (by decide))
  have isFloat : float = true := by
    cases literal with
    | whole digits => exact absurd (digits.2 'e' (reaches.subset (by simp))) (by decide)
    | parts => rfl
  subst isFloat
  refine ⟨digit, text, ?_⟩
  cases read : Piece.number (" 1e5e6".toList.drop 1) with
  | error fault => simpa using (error fault).mp read
  | ok p => exact ⟨p, literal, reaches, read, ((ok p).mp read).1⟩

end Treewalk
