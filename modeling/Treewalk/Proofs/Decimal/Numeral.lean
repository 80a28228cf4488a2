import Treewalk.Proofs.Lexing.Spelling
import Treewalk.Value.FloatText

/-! # What decimal numerals denote

A numeral has digits, perhaps a fraction, and perhaps an exponent. The two ways of
writing a row of digits, with the point in its place and with an exponent, are numerals
of the same number.
-/

namespace Treewalk.Decimal

/-! ## Rows of digits -/

theorem digitsValue_eq (ds : List Char) : digitsValue ds = Nat.ofDigitChars 10 ds 0 :=
  Nat.ofDigitChars_eq_foldl.symm

theorem digitsValue_append (ds es : List Char) :
    digitsValue (ds ++ es) = digitsValue ds * 10 ^ es.length + digitsValue es := by
  rw [digitsValue_eq, Nat.ofDigitChars_append, Nat.ofDigitChars_eq_ofDigitChars_zero,
    ← digitsValue_eq, ← digitsValue_eq, Nat.mul_comm]

theorem isDigit_zeros (n : Nat) : ∀ c ∈ zeros n, c.isDigit := by
  intro c mem
  rw [List.eq_of_mem_replicate mem]
  rfl

theorem digitsValue_zeros (n : Nat) : digitsValue (zeros n) = 0 := by
  rw [digitsValue_eq, zeros, Nat.ofDigitChars_replicate_zero, Nat.mul_zero]

theorem digitsValue_cons (c : Char) (cs : List Char) :
    digitsValue (c :: cs) = (c.toNat - 48) * 10 ^ cs.length + digitsValue cs := by
  simpa [digitsValue] using digitsValue_append [c] cs

theorem digitsValue_lt {ds : List Char} (digits : ∀ c ∈ ds, c.isDigit) :
    digitsValue ds < 10 ^ ds.length := by
  induction ds with
  | nil => decide
  | cons c cs ih =>
      obtain ⟨first, later⟩ := List.forall_mem_cons.mp digits
      have bounds := (Lexeme.isDigit_iff c).mp first
      have rest := ih later
      have lead : (c.toNat - 48) * 10 ^ cs.length ≤ 9 * 10 ^ cs.length :=
        Nat.mul_le_mul_right _ (by omega)
      rw [digitsValue_cons, List.length_cons, Nat.pow_succ]
      omega

theorem le_digitsValue {c : Char} {cs : List Char} (digit : c.isDigit) (nonzero : c ≠ '0') :
    10 ^ cs.length ≤ digitsValue (c :: cs) := by
  have bounds := (Lexeme.isDigit_iff c).mp digit
  have above : c.toNat ≠ 48 := fun same => nonzero (Char.toNat_inj.mp same)
  have lead : 1 * 10 ^ cs.length ≤ (c.toNat - 48) * 10 ^ cs.length :=
    Nat.mul_le_mul_right _ (by omega)
  rw [digitsValue_cons]
  omega

/-- Only zero has a zero in front. -/
theorem head_toDigits {n : Nat} (positive : 0 < n) : (Nat.toDigits 10 n).head? ≠ some '0' := by
  intro zero
  obtain ⟨cs, same⟩ := List.head?_eq_some_iff.mp zero
  have value := Spelling.digitsValue_toDigits n
  have digits := (Spelling.digits_toDigits n).2
  rw [same] at value digits
  have small : n < 10 ^ cs.length := by
    have := digitsValue_lt (List.forall_mem_cons.mp digits).2
    rw [digitsValue_cons] at value
    simp at value
    omega
  cases cs with
  | nil =>
      simp at small
      omega
  | cons c cs =>
      have short := (Nat.length_toDigits_le_iff (by decide) (by simp)).mpr small
      simp [same] at short

/-! ## Numerals -/

open Lexeme in
/-- The text is a decimal numeral of the number `q`. -/
def Numeral (text : List Char) (q : ℚ) : Prop :=
  ∃ whole frac places exp e, text = whole ++ frac ++ exp ∧
    Lexeme.Digits whole ∧ Fraction frac places ∧ Exponent exp e ∧
    q = digitsValue (whole ++ places) * 10 ^ (e - places.length : Int)

theorem Numeral.unique {text : List Char} {q r : ℚ} (hq : Numeral text q) (hr : Numeral text r) :
    q = r := by
  obtain ⟨whole, frac, places, exp, e, rfl, hw, hf, hx, rfl⟩ := hq
  obtain ⟨whole', frac', places', exp', e', same, hw', hf', hx', rfl⟩ := hr
  obtain ⟨rfl, rfl, rfl⟩ := Lexeme.parts_unique hw hf hx hw' hf' hx' same
  rw [← hf.places, ← hf'.places, ← hx.value, ← hx'.value]

/-- A numeral starts with a digit. -/
theorem Numeral.head {text : List Char} {q : ℚ} (h : Numeral text q) :
    ∃ c ∈ text.head?, c.isDigit := by
  obtain ⟨whole, frac, places, exp, e, rfl, hw, -⟩ := h
  obtain ⟨c, cs, rfl⟩ := List.exists_cons_of_ne_nil hw.1
  exact ⟨c, by simp, hw.2 c (by simp)⟩

namespace Digits

/-- The number that the digits denote. -/
def value (d : Digits) : ℚ := digitsValue d.digits * 10 ^ (d.point - d.digits.length : Int)

/-- There are digits, and the first one counts. -/
structure Normal (d : Digits) : Prop where
  digits : Lexeme.Digits d.digits
  lead : d.digits.head? ≠ some '0'

variable {d : Digits}

/-- The value may be taken with more zeros at the end. -/
theorem value_eq {n : Nat} {e : Int} (z : Nat) (same : n = digitsValue d.digits * 10 ^ z)
    (exp : e + z = d.point - d.digits.length) : d.value = n * 10 ^ e := by
  rw [value, same, ← exp, zpow_add₀ (by norm_num), zpow_natCast]
  push_cast
  ring

/-- The exponent is that of the first digit. -/
theorem Normal.value_bounds (normal : d.Normal) :
    10 ^ d.exponent ≤ d.value ∧ d.value < 10 ^ (d.exponent + 1) := by
  obtain ⟨digits, lead⟩ := normal
  obtain ⟨_ | ⟨c, cs⟩, point⟩ := d
  · exact absurd rfl digits.1
  · have lower : 10 ^ cs.length ≤ digitsValue (c :: cs) :=
      le_digitsValue (digits.2 c (by simp)) (by simpa using lead)
    have upper := digitsValue_lt digits.2
    have scale : (0 : ℚ) < 10 ^ (point - (c :: cs).length : Int) := by positivity
    have shift : ∀ n : Nat, (10 : ℚ) ^ (n : Int) * 10 ^ (point - (c :: cs).length : Int) =
        10 ^ (point - (c :: cs).length + n : Int) := fun n => by
      rw [← zpow_add₀ (by norm_num), add_comm]
    have lower' : (10 : ℚ) ^ (cs.length : Int) ≤ digitsValue (c :: cs) := by
      rw [zpow_natCast]
      exact_mod_cast lower
    have upper' : (digitsValue (c :: cs) : ℚ) < 10 ^ ((c :: cs).length : Int) := by
      rw [zpow_natCast]
      exact_mod_cast upper
    constructor
    · calc (10 : ℚ) ^ (point - 1)
        _ = 10 ^ (cs.length : Int) * 10 ^ (point - (c :: cs).length : Int) := by
            rw [shift, List.length_cons]
            congr 1
            omega
        _ ≤ _ := mul_le_mul_of_nonneg_right lower' scale.le
    · calc _ < (10 : ℚ) ^ ((c :: cs).length : Int) * 10 ^ (point - (c :: cs).length : Int) :=
            mul_lt_mul_of_pos_right upper' scale
        _ = 10 ^ (point - 1 + 1) := by
            rw [shift]
            congr 1
            omega

theorem numeral_positional (digits : Lexeme.Digits d.digits) :
    Numeral d.positional.toList d.value := by
  unfold positional
  split
  · rename_i low
    refine ⟨['0'], '.' :: (zeros (-d.point).toNat ++ d.digits), _, [], 0, by simp,
      ⟨by simp, by simp⟩, .point ⟨by simp [digits.1], ?_⟩, .none, value_eq 0 ?_ ?_⟩
    · exact List.forall_mem_append.mpr ⟨isDigit_zeros _, digits.2⟩
    · rw [List.singleton_append, digitsValue_cons, digitsValue_append, digitsValue_zeros]
      simp
    · simp [zeros]
      omega
  · rename_i high
    dsimp only
    split
    · rename_i whole
      refine ⟨d.digits ++ zeros (d.point.toNat - d.digits.length), [], [], [], 0, by simp,
        ⟨by simp [digits.1], ?_⟩, .none, .none, value_eq (d.point.toNat - d.digits.length) ?_ ?_⟩
      · exact List.forall_mem_append.mpr ⟨digits.2, isDigit_zeros _⟩
      · rw [List.append_nil, digitsValue_append, digitsValue_zeros]
        simp [zeros]
      · simp
        omega
    · rename_i broken
      refine ⟨d.digits.take d.point.toNat, '.' :: d.digits.drop d.point.toNat, _, [], 0, by simp,
        ⟨?_, fun c mem => digits.2 c (List.mem_of_mem_take mem)⟩,
        .point ⟨?_, fun c mem => digits.2 c (List.mem_of_mem_drop mem)⟩, .none, value_eq 0 ?_ ?_⟩
      · simp [digits.1]
        omega
      · simpa using broken
      · simp
      · simp
        omega

/-- The digits with the point after the first of them, and an exponent behind. -/
theorem numeral_mantissa (digits : Lexeme.Digits d.digits) {text : List Char} {e : Int}
    (exp : Lexeme.Exponent text e) :
    Numeral (d.mantissa.toList ++ text) (d.value * 10 ^ (e - d.exponent)) := by
  have shift : d.value * 10 ^ (e - d.exponent) =
      digitsValue d.digits * 10 ^ (e - (d.digits.length - 1 : Int)) := by
    rw [value, mul_assoc, ← zpow_add₀ (by norm_num), exponent]
    congr 2
    omega
  rw [shift]
  unfold mantissa
  split
  · rename_i none
    exact absurd none digits.1
  · rename_i c one
    rw [one] at digits ⊢
    exact ⟨[c], [], [], text, e, by simp, digits, .none, exp, by simp⟩
  · rename_i c cs some more
    rw [more] at digits ⊢
    obtain ⟨first, later⟩ := List.forall_mem_cons.mp digits.2
    refine ⟨[c], '.' :: cs, cs, text, e, by simp, ⟨by simp, by simpa using first⟩,
      .point ⟨some, later⟩, exp, by simp⟩

theorem positional_chars (digits : Lexeme.Digits d.digits) :
    ∀ c ∈ d.positional.toList, c.isDigit ∨ c = '.' := by
  intro c mem
  unfold positional at mem
  split at mem
  · simp only [String.toList_ofList, List.mem_append, List.mem_cons] at mem
    obtain (rfl | rfl | zero) | digit := mem
    · exact .inl rfl
    · exact .inr rfl
    · exact .inl (isDigit_zeros _ c zero)
    · exact .inl (digits.2 c digit)
  · dsimp only at mem
    split at mem
    · simp only [String.toList_ofList, List.mem_append] at mem
      exact .inl (mem.elim (digits.2 c) (isDigit_zeros _ c))
    · simp only [String.toList_ofList, List.mem_append, List.mem_cons] at mem
      obtain before | rfl | behind := mem
      · exact .inl (digits.2 c (List.mem_of_mem_take before))
      · exact .inr rfl
      · exact .inl (digits.2 c (List.mem_of_mem_drop behind))

/-- Digits of a whole number are cut off at the end only where they are zeros. -/
theorem exists_zeros (coeff : Nat) (unit : Int) :
    ∃ n, Nat.toDigits 10 coeff = (ofScaled coeff unit).digits ++ zeros n := by
  let ds := (Nat.toDigits 10 coeff).reverse
  refine ⟨(ds.takeWhile (· == '0')).length, ?_⟩
  have cut : ds.takeWhile (· == '0') = zeros (ds.takeWhile (· == '0')).length :=
    List.eq_replicate_of_mem fun c mem => by simpa using List.mem_takeWhile_imp mem
  have split := congrArg List.reverse (List.takeWhile_append_dropWhile (p := (· == '0')) (l := ds))
  rw [cut, List.reverse_append] at split
  simpa [ds, zeros, ofScaled] using split.symm

theorem value_ofScaled (coeff : Nat) (unit : Int) :
    (ofScaled coeff unit).value = coeff * 10 ^ unit := by
  obtain ⟨n, same⟩ := exists_zeros coeff unit
  have value := Spelling.digitsValue_toDigits coeff
  have point : (ofScaled coeff unit).point = (Nat.toDigits 10 coeff).length + unit := rfl
  rw [same, digitsValue_append, digitsValue_zeros] at value
  rw [same, List.length_append] at point
  refine value_eq n ?_ ?_
  · simpa [zeros] using value.symm
  · simp only [zeros, List.length_replicate] at point
    omega

theorem normal_ofScaled {coeff : Nat} (positive : 0 < coeff) (unit : Int) :
    (ofScaled coeff unit).Normal := by
  obtain ⟨n, same⟩ := exists_zeros coeff unit
  have some : (ofScaled coeff unit).digits ≠ [] := by
    intro none
    have value := Spelling.digitsValue_toDigits coeff
    rw [same, none, List.nil_append, digitsValue_zeros] at value
    omega
  refine ⟨⟨some, fun c mem => ?_⟩, ?_⟩
  · refine (Spelling.digits_toDigits coeff).2 c ?_
    rw [same]
    exact List.mem_append_left _ mem
  · have lead := head_toDigits positive
    rwa [same, List.head?_append_of_ne_nil _ some] at lead

end Digits

end Treewalk.Decimal

namespace Treewalk.FloatText

open Decimal

/-- An exponent has its mark, a sign, and at least two digits. -/
theorem exponent_form (e : Int) :
    ∃ ds, (exponent e).toList = 'e' :: (if e < 0 then '-' else '+') :: ds ∧ Lexeme.Digits ds ∧
      2 ≤ ds.length ∧ digitsValue ds = e.natAbs := by
  have digits := Spelling.digits_toDigits e.natAbs
  refine ⟨paddedDigits 2 e.natAbs, ?_, ⟨by simp [paddedDigits], ?_⟩, ?_, ?_⟩
  · rw [exponent]
    split <;> simp
  · exact List.forall_mem_append.mpr ⟨isDigit_zeros _, digits.2⟩
  · simp [paddedDigits, zeros]
    omega
  · rw [paddedDigits, digitsValue_append, digitsValue_zeros, Spelling.digitsValue_toDigits]
    simp

theorem denotes_exponent (e : Int) : Lexeme.Exponent (exponent e).toList e := by
  obtain ⟨ds, same, digits, -, value⟩ := exponent_form e
  rw [same]
  split
  · have minus := Lexeme.Exponent.minus (.inl rfl) digits
    rwa [value, show -(e.natAbs : Int) = e by omega] at minus
  · have plus := Lexeme.Exponent.plus (.inl rfl) digits
    rwa [value, show (e.natAbs : Int) = e by omega] at plus

end Treewalk.FloatText
