import Treewalk.Proofs.Decimal.Shortest

/-! # Printed numbers are read back

The default form of a number is a numeral that is read as the number, and no numeral with
fewer digits is. So no two numbers have the same text.
-/

namespace Treewalk.Decimal

/-! ## Shortest decimals of binary32 numbers -/

theorem mant_pos {n : Nat} (positive : 0 < n) : 0 < (size32 n).mant := by
  rw [size32]
  split <;> dsimp only <;> omega

theorem midpoint32_eq (n : Nat) : midpoint32 n = (size32 n).value + (size32 n).reachAbove := by
  rw [midpoint32, value32_succ, value32, Binary.reachAbove, two_zpow_sub_one,
    two_zpow_eq (size32 n).exp]
  ring

theorem midpoint32_succ_eq (n : Nat) :
    midpoint32 n = (size32 (n + 1)).value - 2 ^ ((size32 n).exp - 1) := by
  have next := value32_succ n
  rw [midpoint32, two_zpow_sub_one]
  rw [two_zpow_eq (size32 n).exp] at next
  change _ = value32 (n + 1) - _
  linarith

/-- Between neighbours the decimals of one number end where those of the next begin,
    except below the number with the code `2 ^ 23`, where some are given away. -/
theorem reachBelow_succ (n : Nat) :
    (size32 (n + 1)).reachBelow ≤ 2 ^ ((size32 n).exp - 1) ∧
      (n + 1 ≠ 2 ^ 23 → (size32 (n + 1)).reachBelow = 2 ^ ((size32 n).exp - 1)) := by
  by_cases tight : (n + 1) % 2 ^ 23 = 0
  · -- The number is a power of two, and its neighbour below has the next smaller exponent.
    have field : (n + 1) / 2 ^ 23 = n / 2 ^ 23 + 1 := by omega
    have reach : (size32 (n + 1)).reachBelow = 2 ^ ((n / 2 ^ 23 + 1 : Nat) - 150 - 2 : Int) := by
      rw [size32, field, tight, if_neg (Nat.succ_ne_zero _)]
      rfl
    by_cases first : n / 2 ^ 23 = 0
    · have exp : (size32 n).exp = -149 := by simp only [size32, first, if_true]
      rw [reach, exp, first]
      exact ⟨zpow_le_zpow_right₀ (by norm_num) (by norm_num), fun other => by omega⟩
    · have exp : (size32 n).exp = (n / 2 ^ 23 : Nat) - 150 := by simp only [size32, first, if_false]
      have same : (size32 (n + 1)).reachBelow = 2 ^ ((size32 n).exp - 1) := by
        rw [reach, exp]
        congr 1
        omega
      exact ⟨same.le, fun _ => same⟩
  · have field : (n + 1) / 2 ^ 23 = n / 2 ^ 23 := by omega
    have exp : (size32 (n + 1)).exp = (size32 n).exp := by
      simp only [size32, field]
      split <;> rfl
    have loose : (size32 (n + 1)).tight = false := by
      rw [size32]
      split
      · rfl
      · simpa using tight
    have same : (size32 (n + 1)).reachBelow = 2 ^ ((size32 n).exp - 1) := by
      rw [Binary.reachBelow, loose, exp]
      rfl
    exact ⟨same.le, fun _ => same⟩

theorem nearest_of_admits {n : Nat} {q : ℚ} (admits : (size32 n).Admits q) : Nearest q n := by
  rw [Binary.Admits, mant_mod_two] at admits
  refine (nearest_iff q n).mpr ⟨?_, midpoint32_eq n ▸ admits.2⟩
  rintro m rfl
  refine Under.le_trans ?_ admits.1
  rw [midpoint32_succ_eq]
  linarith [(reachBelow_succ m).1]

theorem admits_of_nearest {n : Nat} {q : ℚ} (positive : 0 < n) (other : n ≠ 2 ^ 23)
    (nearest : Nearest q n) : (size32 n).Admits q := by
  obtain ⟨m, rfl⟩ := Nat.exists_eq_add_one_of_ne_zero positive.ne'
  obtain ⟨above, below⟩ := (nearest_iff q (m + 1)).mp nearest
  rw [Binary.Admits, mant_mod_two, (reachBelow_succ m).2 other, ← midpoint32_succ_eq,
    ← midpoint32_eq]
  exact ⟨above m rfl, below⟩

/-- The number with the code `2 ^ 23` needs eight digits. -/
theorem length_of_nearest_normal {c : Nat} {j : Int} (nearest : Nearest (c * 10 ^ j) (2 ^ 23)) :
    8 ≤ (Nat.toDigits 10 c).length := by
  obtain ⟨above, below⟩ := (nearest_iff _ _).mp nearest
  have lower := (above (2 ^ 23 - 1) rfl).le
  have upper := below.le
  have low : midpoint32 (2 ^ 23 - 1) = (2 ^ 24 - 1) * 2 ^ (-150 : Int) := by
    norm_num [midpoint32, value32, size32, Binary.value]
  have high : midpoint32 (2 ^ 23) = (2 ^ 24 + 1) * 2 ^ (-150 : Int) := by
    norm_num [midpoint32, value32, size32, Binary.value]
  rw [low] at lower
  rw [high] at upper
  by_contra! short
  have small : c < 10 ^ 7 := (Nat.length_toDigits_le_iff (by decide) (by decide)).mp (by omega)
  obtain coarse | fine := le_or_gt (-44) j
  · -- No multiple of `10 ^ -44` is between the midpoints.
    obtain ⟨k, rfl⟩ : ∃ k : Nat, j = k - 44 := ⟨(j + 44).toNat, by omega⟩
    have grid : (c : ℚ) * 10 ^ (k - 44 : Int) = (c * 10 ^ k : Nat) * 10 ^ (-44 : Int) := by
      rw [sub_eq_add_neg, zpow_add₀ (by norm_num), zpow_natCast]
      push_cast
      ring
    rw [grid] at lower upper
    have less : (1175494 : ℚ) * 10 ^ (-44 : Int) < (2 ^ 24 - 1) * 2 ^ (-150 : Int) := by norm_num
    have more : (2 ^ 24 + 1) * 2 ^ (-150 : Int) < (1175495 : ℚ) * 10 ^ (-44 : Int) := by norm_num
    have left := lt_of_mul_lt_mul_right (less.trans_le lower) (by positivity)
    have right := lt_of_mul_lt_mul_right (upper.trans_lt more) (by positivity)
    norm_cast at left right
    omega
  · -- On finer grids seven digits do not reach the lower midpoint.
    have tiny : (c : ℚ) * 10 ^ j ≤ (10 ^ 7 : Nat) * 10 ^ (-45 : Int) := by
      gcongr
      · norm_num
      · omega
    have less : ((10 ^ 7 : Nat) : ℚ) * 10 ^ (-45 : Int) < (2 ^ 24 - 1) * 2 ^ (-150 : Int) := by
      norm_num
    linarith

/-- The shortest digits that are read as the number with the code `n`. -/
structure ShortestDigits (d : Digits) (n : Nat) : Prop where
  normal : d.Normal
  nearest : Nearest d.value n
  least (c : Nat) (j : Int) : Nearest (c * 10 ^ j) n → d.digits.length ≤ (Nat.toDigits 10 c).length

theorem shortestDigits_shortest {n : Nat} (positive : 0 < n) :
    ShortestDigits (size32 n).shortest n := by
  refine ⟨Binary.normal_shortest (mant_pos positive), ?_, fun c j nearest => ?_⟩
  · obtain ⟨c, u, found, admits, -⟩ := Binary.shortest_spec (mant_pos positive)
    rw [found, Digits.value_ofScaled]
    exact nearest_of_admits admits
  · by_cases normal : n = 2 ^ 23
    · subst normal
      have length : (size32 (2 ^ 23)).shortest.digits.length = 8 := by decide +kernel
      exact length ▸ length_of_nearest_normal nearest
    · have admits := admits_of_nearest positive normal nearest
      exact Binary.length_shortest_le (mant_pos positive) admits

end Treewalk.Decimal

namespace Treewalk.FloatText

open Decimal

/-! ## Texts -/

theorem numeral_unsigned {d : Digits} (normal : d.Normal) :
    Numeral (unsigned d).toList d.value := by
  unfold unsigned
  split
  · exact Digits.numeral_positional normal.digits
  · have numeral := Digits.numeral_mantissa normal.digits (denotes_exponent d.exponent)
    rwa [sub_self, zpow_zero, mul_one, ← String.toList_append] at numeral

/-- Outside the range of the positional form there is an exponent, with a sign and at
    least two digits. -/
theorem unsigned_form {d : Digits} (normal : d.Normal) :
    ('e' ∈ (unsigned d).toList ↔ d.exponent < -4 ∨ 6 ≤ d.exponent) ∧
      ('e' ∈ (unsigned d).toList → ∃ ds, (unsigned d).toList =
        d.mantissa.toList ++ 'e' :: (if d.exponent < 0 then '-' else '+') :: ds ∧
        Lexeme.Digits ds ∧ 2 ≤ ds.length ∧ digitsValue ds = d.exponent.natAbs) := by
  have range : isPositional d.exponent = false ↔ d.exponent < -4 ∨ 6 ≤ d.exponent := by
    simp only [isPositional, Bool.and_eq_false_iff, decide_eq_false_iff_not]
    omega
  unfold unsigned
  split
  · rename_i inside
    have unmarked : 'e' ∉ d.positional.toList := fun mem => by
      simpa using Digits.positional_chars normal.digits 'e' mem
    simp [unmarked, ← range, inside]
  · rename_i outside
    obtain ⟨ds, form, digits, two, value⟩ := exponent_form d.exponent
    rw [String.toList_append, form]
    refine ⟨?_, fun _ => ⟨ds, rfl, digits, two, value⟩⟩
    simp [← range, outside]

/-- The text of a number without its sign. -/
def magnitude (code : Nat) : String :=
  if code = 0 then "0" else unsigned (size32 code).shortest

theorem plain_eq {x : Float32} (finite : x.isFinite) :
    plain x = sign (negative32 x) ++ magnitude (code32 x) := by
  have zero : (size32 (code32 x)).mant = 0 ↔ code32 x = 0 := by
    constructor
    · intro none
      by_contra nonzero
      exact (mant_pos (Nat.pos_of_ne_zero nonzero)).ne' none
    · intro none
      rw [none]
      rfl
  rw [plain, ofFloat32_eq ((isFinite_iff x).mp finite)]
  simp only [magnitude, zero]

/-- The text is a numeral that is read as the number. -/
theorem numeral_magnitude (n : Nat) :
    ∃ q, Numeral (magnitude n).toList q ∧ Nearest q n := by
  unfold magnitude
  split
  · rename_i zero
    subst zero
    have none : (size32 0).value = 0 := by simp [Binary.value, size32]
    refine ⟨0, ⟨['0'], [], [], [], 0, rfl, ⟨by simp, by simp⟩, .none, .none, ?_⟩, ?_⟩
    · simp [digitsValue]
    · exact nearest_of_admits (none ▸ (size32 0).admits_value)
  · rename_i nonzero
    have shortest := shortestDigits_shortest (Nat.pos_of_ne_zero nonzero)
    exact ⟨_, numeral_unsigned shortest.normal, shortest.nearest⟩

/-- A sign in front of a numeral can be told from it. -/
theorem sign_append_inj {neg neg' : Bool} {t t' : String} {q q' : ℚ} (h : Numeral t.toList q)
    (h' : Numeral t'.toList q') (same : sign neg ++ t = sign neg' ++ t') : neg = neg' ∧ t = t' := by
  have unsigned {u : String} {r : ℚ} (numeral : Numeral u.toList r) (rest : List Char) :
      u.toList ≠ '-' :: rest := by
    intro signed
    obtain ⟨c, first, digit⟩ := numeral.head
    rw [signed, List.head?_cons, Option.mem_some_iff] at first
    subst first
    revert digit
    decide
  have lists := congrArg String.toList same
  rw [String.toList_append, String.toList_append] at lists
  cases neg with
  | false =>
      cases neg' with
      | false => exact ⟨rfl, String.toList_inj.mp lists⟩
      | true => exact absurd lists (unsigned h _)
  | true =>
      cases neg' with
      | false => exact absurd lists.symm (unsigned h' _)
      | true => exact ⟨rfl, String.toList_inj.mp (List.cons.inj lists).2⟩

theorem plain_injective {x y : Float32} (hx : x.isFinite) (hy : y.isFinite)
    (same : plain x = plain y) : x.toBits = y.toBits := by
  obtain ⟨q, numeral, nearest⟩ := numeral_magnitude (code32 x)
  obtain ⟨q', numeral', nearest'⟩ := numeral_magnitude (code32 y)
  rw [plain_eq hx, plain_eq hy] at same
  obtain ⟨signs, texts⟩ := sign_append_inj numeral numeral' same
  rw [texts] at numeral
  obtain rfl := numeral.unique numeral'
  exact toBits_eq signs (nearest.unique nearest')

/-- The default form of a finite number is its sign and a numeral that is read as the
    number. It denotes exactly `m * 10 ^ k` for the shortest digits `m`, one of them before
    the point, and their exponent `k`; it has an exponent if `k` is below -4 or at least 6,
    written with a sign and at least two digits. No two numbers have the same text. -/
theorem plain_preserves_number :
    (∀ x : Float32, x.isFinite →
      ∃ t q, plain x = sign (negative32 x) ++ t ∧ Numeral t.toList q ∧ Nearest q (code32 x) ∧
        (code32 x = 0 → t = "0") ∧
        (code32 x ≠ 0 → ∃ d m, ShortestDigits d (code32 x) ∧
          Numeral d.mantissa.toList m ∧ 1 ≤ m ∧ m < 10 ∧ q = m * 10 ^ d.exponent ∧
          ('e' ∈ t.toList ↔ d.exponent < -4 ∨ 6 ≤ d.exponent) ∧
          ('e' ∈ t.toList → ∃ ds, t.toList =
            d.mantissa.toList ++ 'e' :: (if d.exponent < 0 then '-' else '+') :: ds ∧
            Lexeme.Digits ds ∧ 2 ≤ ds.length ∧ digitsValue ds = d.exponent.natAbs))) ∧
    ∀ x y : Float32, x.isFinite → y.isFinite → x.toBits ≠ y.toBits → plain x ≠ plain y := by
  refine ⟨fun x finite => ?_, fun x y hx hy other same => other (plain_injective hx hy same)⟩
  obtain ⟨q, numeral, nearest⟩ := numeral_magnitude (code32 x)
  refine ⟨_, q, plain_eq finite, numeral, nearest, fun zero => if_pos zero, fun nonzero => ?_⟩
  have shortest := shortestDigits_shortest (Nat.pos_of_ne_zero nonzero)
  rw [magnitude, if_neg nonzero] at numeral ⊢
  generalize (size32 (code32 x)).shortest = d at shortest numeral ⊢
  obtain rfl := numeral.unique (numeral_unsigned shortest.normal)
  obtain ⟨lower, upper⟩ := shortest.normal.value_bounds
  have power : (0 : ℚ) < 10 ^ d.exponent := by positivity
  have mantissa := Digits.numeral_mantissa shortest.normal.digits .none
  rw [zero_sub, zpow_neg, ← div_eq_mul_inv, List.append_nil] at mantissa
  rw [zpow_add_one₀ (by norm_num), mul_comm] at upper
  exact ⟨d, d.value / 10 ^ d.exponent, shortest, mantissa, (one_le_div power).mpr lower,
    (div_lt_iff₀ power).mpr upper, (div_mul_cancel₀ _ power.ne').symm,
    unsigned_form shortest.normal⟩

/-- The smallest number of full precision, below zero, and the two zeros. -/
theorem plain_preserves_number_smallest :
    let x := Float32.ofBits 0x80800000
    x.isFinite ∧ code32 x = 2 ^ 23 ∧ plain x = "-1.1754944e-38" ∧
    (∃ q, Numeral "1.1754944e-38".toList q ∧ Nearest q (2 ^ 23)) ∧
    Float32.isFinite 0 ∧ Float32.isFinite (-0) ∧ plain 0 ≠ plain (-0) := by
  intro x
  have finite : x.isFinite := by decide +kernel
  have code : code32 x = 2 ^ 23 := by decide +kernel
  have text : plain x = sign (negative32 x) ++ "1.1754944e-38" := by decide +kernel
  obtain ⟨t, q, form, numeral, nearest, -⟩ := plain_preserves_number.1 x finite
  obtain rfl : "1.1754944e-38" = t := String.toList_inj.mp (by
    have same := congrArg String.toList (text.symm.trans form)
    rwa [String.toList_append, String.toList_append, List.append_cancel_left_eq] at same)
  rw [code] at nearest
  exact ⟨finite, code, by decide +kernel, ⟨q, numeral, nearest⟩, by decide +kernel,
    by decide +kernel,
    plain_preserves_number.2 0 (-0) (by decide +kernel) (by decide +kernel) (by decide +kernel)⟩

end Treewalk.FloatText
