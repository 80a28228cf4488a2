import Treewalk.Decimal.Binary
import Mathlib

/-! # The binary32 number nearest to a number

The bits of a binary32 number without its sign are a code that counts the numbers in the
order of their sizes, from zero on. What is read as a number is read as the nearest one,
and halfway between two as the one whose code is even.
-/

namespace Treewalk.Decimal

/-- The number that is meant. -/
def Binary.value (v : Binary) : ℚ := v.mant * 2 ^ v.exp

/-- The size of the number with a code. Codes go on behind the largest number, as if
    there were larger exponents. -/
def size32 (code : Nat) : Binary :=
  if code / 2 ^ 23 = 0 then ⟨code % 2 ^ 23, -149, false⟩
  else ⟨2 ^ 23 + code % 2 ^ 23, (code / 2 ^ 23 : Nat) - 150, code % 2 ^ 23 == 0⟩

/-- The bits of a number without its sign. -/
def code32 (x : Float32) : Nat := x.toBits.toNat % 2 ^ 31

/-- The codes from here on are those of infinity and of what is not a number. -/
def overflow32 : Nat := 255 * 2 ^ 23

def negative32 (x : Float32) : Bool := decide (2 ^ 31 ≤ x.toBits.toNat)

open Float.Model in
theorem isFinite_iff (x : Float32) : x.isFinite ↔ code32 x < overflow32 := by
  have ones : @UnpackedFloat.unpackExponent .binary32 x.toBits.toBitVec = -1#8 ↔
      x.toBits.toNat / 2 ^ 23 % 256 = 255 := by
    rw [← BitVec.toNat_inj]
    simp [UnpackedFloat.unpackExponent, Nat.shiftRight_eq_div_pow]
  have field : code32 x < overflow32 ↔ ¬ x.toBits.toNat / 2 ^ 23 % 256 = 255 := by
    have range := x.toBits.toNat_lt
    rw [code32, overflow32]
    omega
  rw [field, ← ones]
  change (UnpackedFloat.unpack .binary32 x.toBits.toBitVec).isFinite ↔ _
  rw [UnpackedFloat.unpack]
  dsimp only
  split
  · rename_i top
    split <;> exact iff_of_false Bool.false_ne_true (not_not.mpr top)
  · rename_i inside
    split
    · split <;> exact iff_of_true rfl inside
    · exact iff_of_true rfl inside

theorem ofFloat32_eq {x : Float32} (finite : code32 x < overflow32) :
    Reading.ofFloat32 x = .finite (negative32 x) (size32 (code32 x)) := by
  have range := x.toBits.toNat_lt
  rw [code32, overflow32] at finite
  rw [Reading.ofFloat32, negative32, size32, code32]
  generalize x.toBits.toNat = bits at range finite
  have unfolded : Reading.ofBits 8 23 bits =
      if bits / 2 ^ 23 % 256 = 255 then
        if bits % 2 ^ 23 = 0 then .infinite (bits / 2 ^ 31 % 2 == 1) else .nan
      else if bits / 2 ^ 23 % 256 = 0 then
        .finite (bits / 2 ^ 31 % 2 == 1) ⟨bits % 2 ^ 23, -149, false⟩
      else
        .finite (bits / 2 ^ 31 % 2 == 1)
          ⟨2 ^ 23 + bits % 2 ^ 23, (bits / 2 ^ 23 % 256 : Nat) - 150, bits % 2 ^ 23 == 0⟩ := rfl
  have field : bits % 2 ^ 31 / 2 ^ 23 = bits / 2 ^ 23 % 256 := by omega
  have frac : bits % 2 ^ 31 % 2 ^ 23 = bits % 2 ^ 23 := by omega
  have neg : (bits / 2 ^ 31 % 2 == 1) = decide (2 ^ 31 ≤ bits) := by
    rw [Bool.beq_eq_decide_eq, decide_eq_decide]
    omega
  rw [unfolded, if_neg (by omega), field, frac, neg]
  split <;> rfl

/-- Numbers differ in their signs or codes. -/
theorem toBits_eq {x y : Float32} (sign : negative32 x = negative32 y)
    (code : code32 x = code32 y) : x.toBits = y.toBits := by
  have hx := x.toBits.toNat_lt
  have hy := y.toBits.toNat_lt
  simp only [negative32, code32, decide_eq_decide] at sign code
  rw [← UInt32.toNat_inj]
  omega

/-! ## Ties -/

/-- `a` is less than `b`. Equal numbers will do if `tie` holds. -/
def Under (tie : Prop) (a b : ℚ) : Prop := a < b ∨ a = b ∧ tie

namespace Under

variable {tie : Prop} {a b c : ℚ}

theorem le (h : Under tie a b) : a ≤ b := h.elim (·.le) (·.1.le)

theorem trans_le (h : Under tie a b) (le : b ≤ c) : Under tie a c := by
  obtain lt | ⟨rfl, tied⟩ := h
  · exact .inl (lt.trans_le le)
  · exact le.lt_or_eq.imp id fun same => ⟨same, tied⟩

theorem le_trans (le : a ≤ b) (h : Under tie b c) : Under tie a c := by
  obtain lt | ⟨rfl, tied⟩ := h
  · exact .inl (le.trans_lt lt)
  · exact le.lt_or_eq.imp id fun same => ⟨same, tied⟩

theorem mul_right_iff (positive : 0 < c) : Under tie (a * c) (b * c) ↔ Under tie a b := by
  rw [Under, Under, mul_lt_mul_iff_left₀ positive, mul_left_inj' positive.ne']

/-- The nearer one of two numbers is the one on this side of their midpoint. -/
theorem abs_left_iff {q : ℚ} (less : a < b) :
    Under tie |q - a| |q - b| ↔ Under tie q ((a + b) / 2) := by
  have lt : |q - a| < |q - b| ↔ q < (a + b) / 2 := by
    rw [← sq_lt_sq]
    constructor <;> intro h <;> nlinarith
  have eq : |q - a| = |q - b| ↔ q = (a + b) / 2 := by
    rw [abs_eq_abs]
    constructor
    · rintro (same | same) <;> linarith
    · rintro rfl
      exact .inr (by ring)
  rw [Under, Under, lt, eq]

theorem abs_right_iff {q : ℚ} (less : a < b) :
    Under tie |q - b| |q - a| ↔ Under tie ((a + b) / 2) q := by
  have mirror : Under tie |-q - -b| |-q - -a| ↔ Under tie (-q) ((-b + -a) / 2) :=
    abs_left_iff (neg_lt_neg less)
  have flip (x : ℚ) : |-q - -x| = |q - x| := by
    rw [← abs_neg]
    congr 1
    ring
  rw [flip, flip, show (-b + -a) / 2 = -((a + b) / 2) by ring] at mirror
  rw [mirror, Under, Under, neg_lt_neg_iff, neg_inj, eq_comm]

end Under

/-! ## Neighbours -/

/-- The size of the number with a code, as a number. -/
def value32 (n : Nat) : ℚ := (size32 n).value

theorem value32_succ (n : Nat) : value32 (n + 1) = value32 n + 2 ^ (size32 n).exp := by
  by_cases inside : n % 2 ^ 23 + 1 < 2 ^ 23
  · have field : (n + 1) / 2 ^ 23 = n / 2 ^ 23 := by omega
    have frac : (n + 1) % 2 ^ 23 = n % 2 ^ 23 + 1 := by omega
    simp only [value32, size32, field, frac]
    split <;> simp only [Binary.value] <;> push_cast <;> ring
  · have field : (n + 1) / 2 ^ 23 = n / 2 ^ 23 + 1 := by omega
    have frac : (n + 1) % 2 ^ 23 = 0 := by omega
    have last : n % 2 ^ 23 = 2 ^ 23 - 1 := by omega
    simp only [value32, size32, field, frac, last]
    rw [if_neg (Nat.succ_ne_zero _)]
    generalize n / 2 ^ 23 = f
    split
    · rename_i first
      norm_num [Binary.value, first]
    · simp only [Binary.value]
      push_cast
      rw [show (f + 1 - 150 : ℤ) = f - 150 + 1 by ring, zpow_add_one₀ (by norm_num)]
      ring

theorem value32_strictMono : StrictMono value32 :=
  strictMono_nat_of_lt_succ fun n => by
    rw [value32_succ]
    linarith [zpow_pos (a := (2 : ℚ)) (by norm_num) (size32 n).exp]

theorem mant_mod_two (n : Nat) : (size32 n).mant % 2 = n % 2 := by
  rw [size32]
  split <;> dsimp only <;> omega

/-- The number halfway between that with a code and the next one. -/
def midpoint32 (n : Nat) : ℚ := (value32 n + value32 (n + 1)) / 2

/-- No number is nearer to `q` than that with the code `n`, and one that is as near only
    if `n` is even. -/
def Nearest (q : ℚ) (n : Nat) : Prop :=
  ∀ m ≠ n, Under (n % 2 = 0) |q - value32 n| |q - value32 m|

/-- What is read as a number is between the midpoints to its neighbours. -/
theorem nearest_iff (q : ℚ) (n : Nat) :
    Nearest q n ↔ (∀ m, m + 1 = n → Under (n % 2 = 0) (midpoint32 m) q) ∧
      Under (n % 2 = 0) q (midpoint32 n) := by
  have order {m k : Nat} (less : m < k) : value32 m < value32 k := value32_strictMono less
  constructor
  · intro nearest
    refine ⟨?_, (Under.abs_left_iff (order n.lt_succ_self)).mp (nearest _ (by simp))⟩
    rintro m rfl
    exact (Under.abs_right_iff (order m.lt_succ_self)).mp (nearest m (by simp))
  · rintro ⟨above, below⟩ m other
    obtain less | more := other.lt_or_gt
    · obtain ⟨k, rfl⟩ := Nat.exists_eq_add_one_of_ne_zero (Nat.ne_zero_of_lt less)
      have low := value32_strictMono.monotone (Nat.le_of_lt_succ less)
      refine (Under.abs_right_iff (order less)).mpr (Under.le_trans ?_ (above k rfl))
      rw [midpoint32]
      linarith
    · have high := value32_strictMono.monotone (Nat.succ_le_of_lt more)
      refine (Under.abs_left_iff (order more)).mpr (below.trans_le ?_)
      rw [midpoint32]
      linarith

/-- Nothing is read as two numbers. -/
theorem Nearest.unique {q : ℚ} {n m : Nat} (hn : Nearest q n) (hm : Nearest q m) : n = m := by
  wlog less : n < m generalizing n m
  · by_contra other
    exact other (this hm hn (by omega)).symm
  · exfalso
    have order := value32_strictMono less
    have left := (Under.abs_left_iff order).mp (hn m (by omega))
    have right := (Under.abs_right_iff order).mp (hm n (by omega))
    -- Halfway between the two, both are even, and there is a number between them.
    have half := left.le.antisymm right.le
    have even : n % 2 = 0 := (left.resolve_left half.not_lt).2
    have even' : m % 2 = 0 := (right.resolve_left half.symm.not_lt).2
    have between := value32_strictMono (show n + 1 < m by omega)
    have nearer := ((nearest_iff q n).mp hn).2.le
    rw [midpoint32] at nearer
    linarith

end Treewalk.Decimal
