import InferenceFleet.Binary.Shortest
import Mathlib.Algebra.Order.Field.Power
import Mathlib.Data.Rat.Cast.Order
import Mathlib.Tactic.FieldSimp
import Mathlib.Tactic.Linarith
import Mathlib.Tactic.NormNum
import Mathlib.Tactic.Positivity
import Mathlib.Tactic.Ring

/-!
# Quotients as rational numbers

Binary numbers are rounded with quotients of natural numbers. Here are the rational numbers that
these quotients stand for: what scaling by powers does to them, how far an integer is from the
number it is rounded from, and between which powers of two a quotient lies.
-/

namespace InferenceFleet

variable {num den : Nat}

/-- The rational number that a quotient stands for. -/
def ratio (q : Nat × Nat) : ℚ := q.1 / q.2

theorem ratio_scaled (num den : Nat) (k : Int) :
    ratio (scaled num den k) = num / den * 2 ^ k := by
  obtain ⟨n, rfl | rfl⟩ := k.eq_nat_or_neg
  · rw [scaled, if_neg (by omega), ratio, Int.natAbs_natCast, zpow_natCast]
    push_cast
    ring
  · rcases Nat.eq_zero_or_pos n with rfl | hn
    · simp [scaled, ratio]
    · rw [scaled, if_pos (by omega), ratio, Int.natAbs_neg, Int.natAbs_natCast, zpow_neg,
        zpow_natCast]
      push_cast
      rw [← div_div, div_eq_mul_inv (_ / _)]

theorem scaled_den_pos (num : Nat) (hden : 0 < den) (k : Int) : 0 < (scaled num den k).2 := by
  rw [scaled]
  split
  · positivity
  · exact hden

theorem ratio_decimallyScaled (num den : Nat) (k : Int) :
    ratio (decimallyScaled num den k) = num / den * 10 ^ k := by
  obtain ⟨n, rfl | rfl⟩ := k.eq_nat_or_neg
  · rw [decimallyScaled, if_neg (by omega), ratio, Int.natAbs_natCast, zpow_natCast]
    push_cast
    ring
  · rcases Nat.eq_zero_or_pos n with rfl | hn
    · simp [decimallyScaled, ratio]
    · rw [decimallyScaled, if_pos (by omega), ratio, Int.natAbs_neg, Int.natAbs_natCast, zpow_neg,
        zpow_natCast]
      push_cast
      rw [← div_div, div_eq_mul_inv (_ / _)]

theorem decimallyScaled_den_pos (num : Nat) (hden : 0 < den) (k : Int) :
    0 < (decimallyScaled num den k).2 := by
  rw [decimallyScaled]
  split
  · positivity
  · exact hden

theorem ratio_le_ratio_iff {p q : Nat × Nat} (hp : 0 < p.2) (hq : 0 < q.2) :
    ratio p ≤ ratio q ↔ p.1 * q.2 ≤ q.1 * p.2 := by
  rw [ratio, ratio, div_le_div_iff₀ (by exact_mod_cast hp) (by exact_mod_cast hq)]
  exact_mod_cast Iff.rfl

theorem ratio_lt_ratio_iff {p q : Nat × Nat} (hp : 0 < p.2) (hq : 0 < q.2) :
    ratio p < ratio q ↔ p.1 * q.2 < q.1 * p.2 := by
  rw [← not_le, ratio_le_ratio_iff hq hp, not_le]

/-! ### The nearest integer -/

theorem roundHalfEven_cases (num den : Nat) :
    (roundHalfEven num den = num / den ∧ 2 * (num % den) < den) ∨
      (roundHalfEven num den = num / den + 1 ∧ den < 2 * (num % den)) ∨
      ((roundHalfEven num den = num / den ∨ roundHalfEven num den = num / den + 1) ∧
        2 * (num % den) = den ∧ roundHalfEven num den % 2 = 0) := by
  simp only [roundHalfEven]
  split_ifs <;> omega

/-- The part of the quotient behind the point, compared with one half. -/
theorem exists_rest (num : Nat) (hden : 0 < den) :
    ∃ r : ℚ, (num : ℚ) / den = (num / den : Nat) + r ∧ 0 ≤ r ∧ r < 1 ∧
      (r < 1 / 2 ↔ 2 * (num % den) < den) ∧ (1 / 2 < r ↔ den < 2 * (num % den)) := by
  have hden' : (0 : ℚ) < den := by exact_mod_cast hden
  refine ⟨(num % den : Nat) / den, ?_, by positivity, ?_, ?_, ?_⟩
  · rw [div_eq_iff hden'.ne', add_mul, div_mul_cancel₀ _ hden'.ne']
    exact_mod_cast (Nat.div_add_mod' num den).symm
  · rw [div_lt_one hden']
    exact_mod_cast Nat.mod_lt num hden
  · rw [div_lt_div_iff₀ hden' two_pos, one_mul, mul_comm]
    exact_mod_cast Iff.rfl
  · rw [div_lt_div_iff₀ two_pos hden', one_mul, mul_comm _ (2 : ℚ)]
    exact_mod_cast Iff.rfl

/-- The nearest integer is at most half a unit away; when it is as far as that, it is even. -/
theorem abs_roundHalfEven_sub (hden : 0 < den) :
    |(roundHalfEven num den : ℚ) - num / den| < 1 / 2 ∨
      |(roundHalfEven num den : ℚ) - num / den| = 1 / 2 ∧ roundHalfEven num den % 2 = 0 := by
  obtain ⟨r, hquotient, hpos, hlt, hless, hmore⟩ := exists_rest num hden
  rw [hquotient]
  rcases roundHalfEven_cases num den with ⟨hround, hrest⟩ | ⟨hround, hrest⟩ | ⟨hround, hrest, heven⟩
  · left
    have hr := hless.2 hrest
    rw [hround, abs_lt]
    constructor <;> linarith
  · left
    have hr := hmore.2 hrest
    rw [hround, abs_lt]
    push_cast
    constructor <;> linarith
  · right
    have hr : r = 1 / 2 := by
      refine le_antisymm (not_lt.1 fun h => ?_) (not_lt.1 fun h => ?_)
      · exact (hmore.1 h).ne' hrest
      · exact (hless.1 h).ne hrest
    refine ⟨?_, heven⟩
    rcases hround with hround | hround <;> rw [hround, hr]
    · rw [sub_add_cancel_left, abs_neg, abs_of_pos (by norm_num)]
    · push_cast
      rw [add_sub_add_left_eq_sub, abs_of_pos (by norm_num)]
      norm_num

theorem abs_roundHalfEven_sub_le (hden : 0 < den) :
    |(roundHalfEven num den : ℚ) - num / den| ≤ 1 / 2 := by
  rcases @abs_roundHalfEven_sub num den hden with h | ⟨h, -⟩
  · exact h.le
  · exact h.le

/-- Of the integers at most half a unit away, an even one is taken. -/
theorem roundHalfEven_eq (hden : 0 < den) {n : Nat}
    (h : |(n : ℚ) - num / den| < 1 / 2 ∨ |(n : ℚ) - num / den| = 1 / 2 ∧ n % 2 = 0) :
    roundHalfEven num den = n := by
  have hround := @abs_roundHalfEven_sub num den hden
  generalize roundHalfEven num den = m at *
  have hle : |(m : ℚ) - n| ≤ |(m : ℚ) - num / den| + |(n : ℚ) - num / den| := by
    rw [abs_sub_comm (n : ℚ)]
    exact abs_sub_le _ _ _
  have hcast : |(m : ℚ) - n| = ((m : ℤ) - n).natAbs := by
    rw [Nat.cast_natAbs]
    push_cast
    rfl
  rw [hcast] at hle
  by_contra hne
  have hapart : (1 : ℚ) ≤ ((m : ℤ) - n).natAbs := by
    exact_mod_cast (by omega : 1 ≤ ((m : ℤ) - n).natAbs)
  -- Two integers with a sum of distances of at least one are both half a unit away, so both are
  -- even; but they are no more than one unit apart.
  rcases h with h | ⟨h, heven⟩
  · rcases hround with hround | ⟨hround, -⟩ <;> linarith
  · rcases hround with hround | ⟨hround, heven'⟩
    · linarith
    · have hclose : (((m : ℤ) - n).natAbs : ℚ) ≤ 1 := by linarith
      have hclose' : ((m : ℤ) - n).natAbs ≤ 1 := by exact_mod_cast hclose
      omega

/-! ### Orders of magnitude -/

theorem ratio_lt_one_iff {q : Nat × Nat} (h : 0 < q.2) : ratio q < 1 ↔ q.1 < q.2 := by
  rw [ratio, div_lt_one (by exact_mod_cast h)]
  exact_mod_cast Iff.rfl

/-- The order of a positive number is that of its binary logarithm. -/
theorem two_pow_log2_bounds {n : Nat} (h : 0 < n) :
    (2 : ℚ) ^ (n.log2 : ℤ) ≤ n ∧ (n : ℚ) < 2 ^ ((n.log2 : ℤ) + 1) := by
  rw [← Nat.cast_succ, zpow_natCast, zpow_natCast]
  exact ⟨by exact_mod_cast Nat.log2_self_le h.ne', by exact_mod_cast Nat.lt_log2_self⟩

theorem binaryOrder_bounds (hnum : 0 < num) (hden : 0 < den) :
    (2 : ℚ) ^ binaryOrder num den ≤ num / den ∧
      (num : ℚ) / den < 2 ^ (binaryOrder num den + 1) := by
  obtain ⟨hnumLow, hnumHigh⟩ := two_pow_log2_bounds hnum
  obtain ⟨hdenLow, hdenHigh⟩ := two_pow_log2_bounds hden
  have hnum' : (0 : ℚ) < num := by exact_mod_cast hnum
  have hden' : (0 : ℚ) < den := by exact_mod_cast hden
  set k : ℤ := (num.log2 : ℤ) - den.log2 with hk
  have hlow : (2 : ℚ) ^ (k - 1) ≤ num / den := by
    rw [hk, sub_sub, zpow_sub₀ two_ne_zero]
    exact div_le_div₀ hnum'.le hnumLow hden' hdenHigh.le
  have hhigh : (num : ℚ) / den < 2 ^ (k + 1) := by
    rw [hk, sub_add_eq_add_sub, zpow_sub₀ two_ne_zero]
    exact div_lt_div₀ hnumHigh hdenLow (by positivity) (by positivity)
  have hbelow : (scaled num den (-k)).1 < (scaled num den (-k)).2 ↔ (num : ℚ) / den < 2 ^ k := by
    rw [← ratio_lt_one_iff (scaled_den_pos num hden _), ratio_scaled, zpow_neg, ← div_eq_mul_inv,
      div_lt_one (by positivity)]
  have horder : binaryOrder num den =
      if (scaled num den (-k)).1 < (scaled num den (-k)).2 then k - 1 else k := rfl
  rw [horder]
  split_ifs with hlt
  · rw [sub_add_cancel]
    exact ⟨hlow, hbelow.1 hlt⟩
  · exact ⟨not_lt.1 (mt hbelow.2 hlt), hhigh⟩

end InferenceFleet
