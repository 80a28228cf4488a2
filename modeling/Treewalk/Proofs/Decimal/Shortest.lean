import Treewalk.Decimal.Shortest
import Treewalk.Proofs.Decimal.Nearest
import Treewalk.Proofs.Decimal.Numeral

/-! # The shortest decimal of a binary number

A number is given up to half the way to its neighbours. The search finds a decimal in
that range, on the coarsest grid that has one there, and so one with the fewest digits.
-/

namespace Treewalk.Decimal

/-! ## Grids -/

theorem pow_toNat {x : ℚ} (nonzero : x ≠ 0) (e : Int) :
    x ^ e.toNat = x ^ e * x ^ (-e).toNat := by
  rw [← zpow_natCast, ← zpow_natCast, ← zpow_add₀ nonzero]
  congr 1
  omega

theorem two_zpow_sub_one (e : Int) : (2 : ℚ) ^ (e - 1) = 2 * 2 ^ (e - 2) := by
  rw [show e - 1 = e - 2 + 1 by ring, zpow_add_one₀ (by norm_num), mul_comm]

theorem two_zpow_eq (e : Int) : (2 : ℚ) ^ e = 4 * 2 ^ (e - 2) := by
  calc (2 : ℚ) ^ e = 2 ^ (e - 1) * 2 := by rw [← zpow_add_one₀ (by norm_num), sub_add_cancel]
    _ = 4 * 2 ^ (e - 2) := by rw [two_zpow_sub_one]; ring

theorem scale_pos (exp unit : Int) : 0 < (scale exp unit).1 ∧ 0 < (scale exp unit).2 :=
  ⟨Nat.mul_pos (Nat.pow_pos (by decide)) (Nat.pow_pos (by decide)),
    Nat.mul_pos (Nat.pow_pos (by decide)) (Nat.pow_pos (by decide))⟩

/-- The factor is that of `2 ^ exp` in units of `10 ^ unit`. -/
theorem scale_eq (exp unit : Int) :
    ((scale exp unit).1 : ℚ) * 10 ^ unit = (scale exp unit).2 * 2 ^ exp := by
  have two := pow_toNat (x := 2) (by norm_num) exp
  have ten := pow_toNat (x := 10) (by norm_num) unit
  have first : (scale exp unit).1 = 2 ^ exp.toNat * 10 ^ (-unit).toNat := rfl
  have second : (scale exp unit).2 = 2 ^ (-exp).toNat * 10 ^ unit.toNat := rfl
  rw [first, second]
  push_cast
  rw [two, ten]
  ring

/-- Whether the multiple of `den` just below `x` is in reach. -/
theorem under_floor_iff {tie : Prop} (x below den : Nat) :
    Under tie (x - below : ℚ) (x / den * den : Nat) ↔
      x % den < below ∨ x % den = below ∧ tie := by
  have shift : (x - below : ℚ) = (x / den * den : Nat) + ((x % den : Nat) - below : ℚ) := by
    nth_rewrite 1 [← Nat.div_add_mod' x den]
    push_cast
    ring
  rw [Under, shift, add_lt_iff_neg_left, sub_neg, add_eq_left, sub_eq_zero, Nat.cast_lt,
    Nat.cast_inj]

/-- Whether the multiple of `den` just above `x` is in reach. -/
theorem under_ceil_iff {tie : Prop} (x above : Nat) {den : Nat} (positive : 0 < den) :
    Under tie ((x / den + 1) * den : Nat) (x + above : ℚ) ↔
      den - x % den < above ∨ den - x % den = above ∧ tie := by
  have shift : ((x / den + 1) * den : Nat) = (x + (den - x % den : Nat) : ℚ) := by
    rw [Nat.cast_sub (Nat.mod_lt x positive).le]
    nth_rewrite 2 [← Nat.div_add_mod' x den]
    push_cast
    ring
  rw [Under, shift, add_lt_add_iff_left, add_right_inj, Nat.cast_lt, Nat.cast_inj]

namespace Binary

/-- How far below the number the decimals reach that stand for it. -/
def reachBelow (v : Binary) : ℚ := if v.tight then 2 ^ (v.exp - 2) else 2 ^ (v.exp - 1)

/-- How far above the number they reach. -/
def reachAbove (v : Binary) : ℚ := 2 ^ (v.exp - 1)

/-- The decimal `q` stands for the number. Those at the ends do if the last bit is zero. -/
def Admits (v : Binary) (q : ℚ) : Prop :=
  Under (v.mant % 2 = 0) (v.value - v.reachBelow) q ∧
    Under (v.mant % 2 = 0) q (v.value + v.reachAbove)

variable {v : Binary}

theorem Admits.between {a b q : ℚ} (ha : v.Admits a) (hb : v.Admits b) (above : a ≤ q)
    (below : q ≤ b) : v.Admits q :=
  ⟨ha.1.trans_le above, Under.le_trans below hb.2⟩

theorem reachBelow_pos (v : Binary) : 0 < v.reachBelow := by
  rw [reachBelow]
  split <;> positivity

theorem reachAbove_pos (v : Binary) : 0 < v.reachAbove := by
  rw [reachAbove]
  positivity

theorem admits_value (v : Binary) : v.Admits v.value :=
  ⟨.inl (by linarith [v.reachBelow_pos]), .inl (by linarith [v.reachAbove_pos])⟩

/-- Zero stands for no other number. -/
theorem Admits.pos {q : ℚ} (positive : 0 < v.mant) (h : v.Admits q) : 0 < q := by
  have unit : (0 : ℚ) < 2 ^ (v.exp - 2) := by positivity
  have whole : (1 : ℚ) ≤ v.mant := by exact_mod_cast positive
  have reach : v.reachBelow ≤ 2 * 2 ^ (v.exp - 2) := by
    rw [reachBelow, two_zpow_sub_one]
    split <;> linarith
  have size : 4 * 2 ^ (v.exp - 2) ≤ v.value := by
    rw [value, two_zpow_eq v.exp]
    nlinarith
  linarith [h.1.le]

/-! ## Points of a grid -/

/-- In units in which a grid has its points at the multiples of `den`, the number is
    `4 * mant * num`, and half the way to a neighbour `num` or `2 * num`. -/
theorem admits_grid_iff (v : Binary) {unit : Int} {num den : Nat}
    (scaled : scale (v.exp - 2) unit = (num, den)) (c : Nat) :
    v.Admits (c * 10 ^ unit) ↔
      Under (v.mant % 2 = 0)
        ((4 * v.mant * num : Nat) - (if v.tight then num else 2 * num : Nat) : ℚ) (c * den : Nat) ∧
      Under (v.mant % 2 = 0) (c * den : Nat) ((4 * v.mant * num : Nat) + (2 * num : Nat) : ℚ) := by
  have eq := scale_eq (v.exp - 2) unit
  have positive := (scale_pos (v.exp - 2) unit).2
  rw [scaled] at eq positive
  have denPositive : (0 : ℚ) < den := by exact_mod_cast positive
  have unitPositive : (0 : ℚ) < 10 ^ unit / den := by positivity
  have quarter : (2 : ℚ) ^ (v.exp - 2) = num * (10 ^ unit / den) := by
    rw [← mul_div_assoc, eq, mul_div_cancel_left₀ _ denPositive.ne']
  have number : v.value = (4 * v.mant * num : Nat) * (10 ^ unit / den) := by
    rw [value, two_zpow_eq v.exp, quarter]
    push_cast
    ring
  have below : v.reachBelow = (if v.tight then num else 2 * num : Nat) * (10 ^ unit / den) := by
    rw [reachBelow, two_zpow_sub_one, quarter]
    split <;> push_cast <;> ring
  have above : v.reachAbove = (2 * num : Nat) * (10 ^ unit / den) := by
    rw [reachAbove, two_zpow_sub_one, quarter]
    push_cast
    ring
  have point : (c : ℚ) * 10 ^ unit = (c * den : Nat) * (10 ^ unit / den) := by
    push_cast
    field_simp
  rw [Admits, number, below, above, point, ← sub_mul, ← add_mul,
    Under.mul_right_iff unitPositive, Under.mul_right_iff unitPositive]

/-- Of the points of a grid that stand for the number, one of the two next to it is found
    if there are any. -/
theorem gridPoint?_cases (v : Binary) (unit : Int) :
    (∃ c, v.gridPoint? unit = some c ∧ v.Admits (c * 10 ^ unit)) ∨
      v.gridPoint? unit = none ∧ ∀ c : Nat, ¬ v.Admits (c * 10 ^ unit) := by
  obtain ⟨num, den, scaled⟩ : ∃ num den, scale (v.exp - 2) unit = (num, den) := ⟨_, _, rfl⟩
  obtain ⟨numPositive, denPositive⟩ := scaled ▸ scale_pos (v.exp - 2) unit
  have grid := v.admits_grid_iff scaled
  simp only [gridPoint?, scaled]
  generalize (if v.tight then num else 2 * num) = below at grid ⊢
  generalize 4 * v.mant * num = x at grid ⊢
  have floor : ((x / den * den : Nat) : ℚ) ≤ x := by exact_mod_cast Nat.div_mul_le_self x den
  have ceil : (x : ℚ) < ((x / den + 1) * den : Nat) := by
    exact_mod_cast Nat.lt_mul_of_div_lt (Nat.lt_succ_self _) denPositive
  have aboveCast : (0 : ℚ) < (2 * num : Nat) := by exact_mod_cast Nat.mul_pos two_pos numPositive
  have belowCast : (0 : ℚ) ≤ (below : Nat) := below.cast_nonneg
  have down : (decide (x % den < below) || (v.mant % 2 == 0 && x % den == below)) = true ↔
      v.Admits ((x / den : Nat) * 10 ^ unit) := by
    rw [grid, under_floor_iff, and_iff_left (.inl (by linarith))]
    simp [and_comm]
  have up :
      (decide (den - x % den < 2 * num) || (v.mant % 2 == 0 && den - x % den == 2 * num)) = true ↔
      v.Admits ((x / den + 1 : Nat) * 10 ^ unit) := by
    rw [grid, under_ceil_iff _ _ denPositive, and_iff_right (.inl (by linarith))]
    simp [and_comm]
  have others {c : Nat} (h : v.Admits (c * 10 ^ unit)) :
      v.Admits ((x / den : Nat) * 10 ^ unit) ∨ v.Admits ((x / den + 1 : Nat) * 10 ^ unit) := by
    rw [grid] at h
    obtain low | high := Nat.lt_or_ge c (x / den + 1)
    · have below : ((c * den : Nat) : ℚ) ≤ (x / den * den : Nat) := by
        exact_mod_cast Nat.mul_le_mul_right den (Nat.le_of_lt_succ low)
      exact .inl ((grid _).mpr ⟨h.1.trans_le below, .inl (by linarith)⟩)
    · have above : (((x / den + 1) * den : Nat) : ℚ) ≤ (c * den : Nat) := by
        exact_mod_cast Nat.mul_le_mul_right den high
      exact .inr ((grid _).mpr ⟨.inl (by linarith), Under.le_trans above h.2⟩)
  rw [← down, ← up] at others
  generalize (decide (x % den < below) || (v.mant % 2 == 0 && x % den == below)) = isDown at *
  generalize (decide (den - x % den < 2 * num) || (v.mant % 2 == 0 && den - x % den == 2 * num)) =
    isUp at *
  by_cases first : (isDown && (!isUp || decide (2 * (x % den) < den))) = true
  · rw [if_pos first]
    exact .inl ⟨_, rfl, down.mp (Bool.and_elim_left first)⟩
  · rw [if_neg first]
    cases isUp with
    | true => exact .inl ⟨_, rfl, up.mp rfl⟩
    | false =>
        have notDown : isDown ≠ true := fun isDown => first (by simp [isDown])
        exact .inr ⟨rfl, fun c h => (others h).elim notDown Bool.false_ne_true⟩

/-! ## The search -/

/-- The finest grid has the number itself on it. -/
theorem floorAt_bottom (v : Binary) : (v.floorAt v.bottom : ℚ) * 10 ^ v.bottom = v.value := by
  have divides : (scale v.exp v.bottom).2 ∣ (scale v.exp v.bottom).1 := by
    rw [bottom]
    obtain whole | fraction := le_total 0 v.exp
    · have none : (-v.exp).toNat = 0 := by omega
      simp [scale, min_eq_right whole, none]
    · have none : v.exp.toNat = 0 := by omega
      simpa [scale, min_eq_left fraction, none] using pow_dvd_pow_of_dvd (by decide : 2 ∣ 10) _
  have eq := scale_eq v.exp v.bottom
  have positive := (scale_pos v.exp v.bottom).2
  simp only [floorAt]
  generalize (scale v.exp v.bottom).1 = num at *
  generalize (scale v.exp v.bottom).2 = den at *
  have denPositive : (0 : ℚ) < den := by exact_mod_cast positive
  rw [Nat.cast_div (divides.mul_left _) denPositive.ne', Nat.cast_mul, div_mul_eq_mul_div,
    mul_assoc, eq, value]
  field_simp

/-- The search ends with a decimal that stands for the number, and there is none on the
    coarser grids that were tried. -/
theorem search_spec (v : Binary) (n : Nat) :
    ∃ c u, v.search n = .ofScaled c u ∧ v.Admits (c * 10 ^ u) ∧
      ∀ j, u < j → j ≤ v.bottom + n → ∀ c : Nat, ¬ v.Admits (c * 10 ^ j) := by
  induction n with
  | zero =>
      refine ⟨_, _, rfl, ?_, ?_⟩
      · rw [floorAt_bottom]
        exact v.admits_value
      · intro j above below
        omega
  | succ n ih =>
      rw [search]
      obtain ⟨c, found, admits⟩ | ⟨none, coarse⟩ := v.gridPoint?_cases (v.bottom + (n + 1 : Nat))
      · rw [found]
        refine ⟨c, _, rfl, admits, ?_⟩
        intro j above below
        omega
      · rw [none]
        obtain ⟨c, u, found, admits, least⟩ := ih
        refine ⟨c, u, found, admits, fun j above below => ?_⟩
        obtain rfl | less := eq_or_lt_of_le below
        · exact coarse
        · exact least j above (by push_cast at less; omega)

/-- Grids above the top have no point near the number. -/
theorem not_admits_above_top {j : Int} (positive : 0 < v.mant) (above : v.top < j) (c : Nat) :
    ¬ v.Admits (c * 10 ^ j) := by
  intro admits
  have unit : (0 : ℚ) < 10 ^ j := by positivity
  have whole : (1 : ℚ) ≤ c := by
    have := pos_of_mul_pos_left (admits.pos positive) unit.le
    exact_mod_cast this
  have size : v.value + v.reachAbove ≤ 2 ^ v.top := by
    have log : ((v.mant + 1 : Nat) : ℚ) ≤ 2 ^ (v.mant.log2 + 1 : Int) := by
      have := Nat.lt_log2_self (n := v.mant)
      exact_mod_cast this
    have reach : v.reachAbove ≤ 2 ^ v.exp := zpow_le_zpow_right₀ (by norm_num) (by omega)
    calc v.value + v.reachAbove ≤ (v.mant + 1 : Nat) * 2 ^ v.exp := by
          rw [value]
          push_cast
          linarith
      _ ≤ 2 ^ (v.mant.log2 + 1 : Int) * 2 ^ v.exp := by gcongr
      _ = 2 ^ (v.mant.log2 + 1 + v.exp) := (zpow_add₀ (by norm_num) _ _).symm
      _ ≤ 2 ^ v.top := zpow_le_zpow_right₀ (by norm_num) (by rw [top]; omega)
  have power : (2 : ℚ) ^ v.top < 10 ^ j := by
    have nonneg : 0 ≤ v.top := le_max_right _ _
    calc (2 : ℚ) ^ v.top ≤ 10 ^ v.top := by
          lift v.top to Nat using nonneg with n
          simp only [zpow_natCast]
          gcongr
          norm_num
      _ < 10 ^ j := zpow_lt_zpow_right₀ (by norm_num) above
  have point : (10 : ℚ) ^ j ≤ c * 10 ^ j := le_mul_of_one_le_left unit.le whole
  linarith [admits.2.le]

/-- The shortest digits stand for the number, and no decimal on a coarser grid does. -/
theorem shortest_spec (positive : 0 < v.mant) :
    ∃ c u, v.shortest = .ofScaled c u ∧ v.Admits (c * 10 ^ u) ∧
      ∀ j, u < j → ∀ c : Nat, ¬ v.Admits (c * 10 ^ j) := by
  obtain ⟨c, u, found, admits, least⟩ := v.search_spec v.height
  refine ⟨c, u, found, admits, fun j above => ?_⟩
  obtain inside | outside := le_or_gt j v.top
  · refine least j above ?_
    simp only [height, bottom, top] at *
    omega
  · exact not_admits_above_top positive outside

theorem normal_shortest (positive : 0 < v.mant) : v.shortest.Normal := by
  obtain ⟨c, u, found, admits, -⟩ := shortest_spec positive
  have counts : (0 : ℚ) < c := pos_of_mul_pos_left (admits.pos positive) (by positivity)
  rw [found]
  exact Digits.normal_ofScaled (by exact_mod_cast counts) u

/-- A decimal that stands for the number has at least as many digits. -/
theorem length_shortest_le (positive : 0 < v.mant) {c : Nat} {j : Int}
    (admits : v.Admits (c * 10 ^ j)) :
    v.shortest.digits.length ≤ (Nat.toDigits 10 c).length := by
  obtain ⟨c₀, u, found, here, coarse⟩ := shortest_spec positive
  rw [found]
  by_contra! longer
  have kept : (Digits.ofScaled c₀ u).digits.length ≤ (Nat.toDigits 10 c₀).length := by
    obtain ⟨z, same⟩ := Digits.exists_zeros c₀ u
    rw [same, List.length_append]
    omega
  have some := Nat.length_toDigits_pos (b := 10) (n := c)
  generalize (Digits.ofScaled c₀ u).digits.length = length at longer kept
  have less : c < 10 ^ (length - 1) :=
    (Nat.length_toDigits_le_iff (by decide) (by omega)).mp (by omega)
  have more : 10 ^ (length - 1) ≤ c₀ := by
    by_contra! small
    have := (Nat.length_toDigits_le_iff (by decide) (by omega)).mpr small
    omega
  have coarser : j ≤ u := not_lt.mp fun above => coarse j above c admits
  -- The power of ten between the two decimals is on a coarser grid.
  have power : ((1 : Nat) : ℚ) * 10 ^ (u + (length - 1 : Nat)) =
      (10 ^ (length - 1) : Nat) * 10 ^ u := by
    rw [zpow_add₀ (by norm_num), zpow_natCast]
    push_cast
    ring
  refine coarse (u + (length - 1 : Nat)) (by omega) 1 (admits.between here ?_ ?_)
  · calc (c : ℚ) * 10 ^ j ≤ c * 10 ^ u := by
          gcongr
          norm_num
      _ ≤ (10 ^ (length - 1) : Nat) * 10 ^ u := by gcongr
      _ = _ := power.symm
  · rw [power]
    gcongr

end Binary

end Treewalk.Decimal
