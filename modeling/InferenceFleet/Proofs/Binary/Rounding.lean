import InferenceFleet.Proofs.Binary.Quotient

/-!
# Rounding to a format

A number is rounded to the member of a format that it is nearest to. `Canonical` says what is
common to all members (`canonical_round`); `Nearest` describes the numbers that round to one of
them (`round_of_nearest`). In the range of a format rounding is off by at most half a unit of the
last place (`round_error`), and not at all for a number of the format (`round_exact`).
-/

namespace InferenceFleet

/-- A format with mantissas and with more than one exponent. -/
structure Format.Proper (f : Format) : Prop where
  precision : 0 < f.precision
  bounds : f.least < f.greatest

theorem Format.proper_single : single.Proper := ⟨by decide, by decide⟩

theorem Format.proper_double : double.Proper := ⟨by decide, by decide⟩

namespace Binary
variable {f : Format} {num den : Nat}

/-- A finite number is in the range of the format and has a mantissa as large as its exponent
allows. -/
def Canonical : Binary f → Prop
  | .finite _ mantissa exponent =>
    mantissa < 2 ^ f.precision ∧ f.least ≤ exponent ∧ exponent ≤ f.greatest ∧
      (exponent = f.least ∨ 2 ^ (f.precision - 1) ≤ mantissa)
  | .infinite _ => True

theorem magnitude_value (m : Nat) (e : Int) : ratio (magnitude m e) = m * 2 ^ e := by
  rw [magnitude, ratio_scaled, Nat.cast_one, div_one]

/-! ### The steps of rounding -/

/-- The exponent of the numbers between which `num / den` lies. -/
def targetExponent (f : Format) (num den : Nat) : Int :=
  max (binaryOrder num den - (f.precision - 1 : Nat)) f.least

/-- The number of units nearest to `num / den`. -/
def targetMantissa (f : Format) (num den : Nat) : Nat :=
  let (scaledNum, scaledDen) := scaled num den (-targetExponent f num den)
  roundHalfEven scaledNum scaledDen

theorem round_eq (hnum : 0 < num) (negative : Bool) :
    round f negative num den =
      if targetMantissa f num den < 2 ^ f.precision then
        if f.greatest < targetExponent f num den then .infinite negative
        else .finite negative (targetMantissa f num den) (targetExponent f num den)
      else if f.greatest < targetExponent f num den + 1 then .infinite negative
      else .finite negative (targetMantissa f num den / 2) (targetExponent f num den + 1) := by
  rw [round, if_neg hnum.ne']
  rfl

theorem two_pow_split (a b : Int) : (2 : ℚ) ^ (a + b) = 2 ^ a * 2 ^ b := zpow_add₀ two_ne_zero a b

/-- Below the next power of two a mantissa is enough, and above the present one no smaller unit
is. -/
theorem targetExponent_bounds (hf : f.Proper) (hnum : 0 < num) (hden : 0 < den) :
    (num : ℚ) / den < 2 ^ f.precision * 2 ^ targetExponent f num den ∧
      (targetExponent f num den = f.least ∨
        2 ^ (f.precision - 1) * 2 ^ targetExponent f num den ≤ (num : ℚ) / den) := by
  obtain ⟨hlow, hhigh⟩ := binaryOrder_bounds hnum hden
  have hprecision := hf.precision
  simp only [← zpow_natCast, ← two_pow_split]
  constructor
  · refine hhigh.trans_le (zpow_le_zpow_right₀ one_le_two ?_)
    rw [targetExponent]
    omega
  · rcases le_total (binaryOrder num den - (f.precision - 1 : Nat)) f.least with hle | hle
    · exact .inl (max_eq_right hle)
    · right
      rw [targetExponent, max_eq_left hle, add_sub_cancel]
      exact hlow

theorem two_mul_two_pow (hf : f.Proper) : (2 : ℚ) * 2 ^ (f.precision - 1) = 2 ^ f.precision := by
  rw [← pow_succ', Nat.sub_add_cancel hf.precision]

theorem targetExponent_le (hf : f.Proper) (hnum : 0 < num) (hden : 0 < den) {e : Int}
    (hleast : f.least ≤ e) (h : (num : ℚ) / den < 2 ^ f.precision * 2 ^ e) :
    targetExponent f num den ≤ e := by
  rcases (targetExponent_bounds hf hnum hden).2 with heq | hlow
  · omega
  · rw [← two_mul_two_pow hf, mul_comm 2, mul_assoc, ← zpow_one_add₀ two_ne_zero] at h
    have hpow := (mul_lt_mul_iff_right₀ (by positivity)).1 (hlow.trans_lt h)
    have hlt := (zpow_lt_zpow_iff_right₀ one_lt_two).1 hpow
    omega

theorem targetExponent_eq (hf : f.Proper) (hnum : 0 < num) (hden : 0 < den) {e : Int}
    (hleast : f.least ≤ e) (hhigh : (num : ℚ) / den < 2 ^ f.precision * 2 ^ e)
    (hlow : e = f.least ∨ 2 ^ (f.precision - 1) * 2 ^ e ≤ (num : ℚ) / den) :
    targetExponent f num den = e := by
  refine le_antisymm (targetExponent_le hf hnum hden hleast hhigh) ?_
  rcases hlow with rfl | hlow
  · exact le_max_right _ _
  · have h := hlow.trans_lt (targetExponent_bounds hf hnum hden).1
    rw [← two_mul_two_pow hf, mul_comm 2, mul_assoc, ← zpow_one_add₀ two_ne_zero] at h
    have hpow := (mul_lt_mul_iff_right₀ (by positivity)).1 h
    have hlt := (zpow_lt_zpow_iff_right₀ one_lt_two).1 hpow
    omega

/-- The target mantissa is at most half a unit away. -/
theorem abs_targetMantissa_sub (f : Format) (num : Nat) (hden : 0 < den) :
    |(targetMantissa f num den : ℚ) - num / den / 2 ^ targetExponent f num den| ≤ 1 / 2 := by
  have hround : |(targetMantissa f num den : ℚ) -
      ratio (scaled num den (-targetExponent f num den))| ≤ 1 / 2 :=
    abs_roundHalfEven_sub_le (scaled_den_pos num hden _)
  rwa [ratio_scaled, zpow_neg, ← div_eq_mul_inv] at hround

/-- Of the numbers of units that are at most half a unit away, an even one is taken. -/
theorem targetMantissa_eq (hden : 0 < den) {n : Nat}
    (h : |(n : ℚ) - num / den / 2 ^ targetExponent f num den| < 1 / 2 ∨
      |(n : ℚ) - num / den / 2 ^ targetExponent f num den| = 1 / 2 ∧ n % 2 = 0) :
    targetMantissa f num den = n := by
  refine roundHalfEven_eq (scaled_den_pos num hden _) ?_
  have hratio := ratio_scaled num den (-targetExponent f num den)
  rw [zpow_neg, ← div_eq_mul_inv] at hratio
  rw [← hratio] at h
  exact h

theorem targetMantissa_bounds (hf : f.Proper) (hnum : 0 < num) (hden : 0 < den) :
    targetMantissa f num den ≤ 2 ^ f.precision ∧
      (targetExponent f num den = f.least ∨ 2 ^ (f.precision - 1) ≤ targetMantissa f num den) := by
  obtain ⟨hhigh, hlow⟩ := targetExponent_bounds hf hnum hden
  have hround := abs_le.1 (abs_targetMantissa_sub f num hden)
  have hpow : (0 : ℚ) < 2 ^ targetExponent f num den := by positivity
  rw [← div_lt_iff₀ hpow] at hhigh
  rw [← le_div_iff₀ hpow] at hlow
  constructor
  · have hlt : (targetMantissa f num den : ℚ) < (2 ^ f.precision : Nat) + 1 := by
      push_cast
      linarith
    exact Nat.lt_succ_iff.1 (by exact_mod_cast hlt)
  · refine hlow.imp_right fun hlow => ?_
    have hlt : ((2 ^ (f.precision - 1) : Nat) : ℚ) < targetMantissa f num den + 1 := by
      push_cast
      linarith
    exact Nat.lt_succ_iff.1 (by exact_mod_cast hlt)

/-! ### Members of the format -/

/-- A rounded number is a member of the format with the value of the target. -/
theorem round_cases (hf : f.Proper) (hnum : 0 < num) (hden : 0 < den) (negative : Bool) :
    (round f negative num den = .infinite negative ∧
        f.greatest ≤ targetExponent f num den) ∨
      ∃ m e, round f negative num den = .finite negative m e ∧
        Canonical (f := f) (.finite negative m e) ∧
        (m : ℚ) * 2 ^ e = targetMantissa f num den * 2 ^ targetExponent f num den := by
  obtain ⟨hle, hfull⟩ := targetMantissa_bounds hf hnum hden
  have hleast : f.least ≤ targetExponent f num den := le_max_right _ _
  have hdouble : 2 * 2 ^ (f.precision - 1) = 2 ^ f.precision := by
    exact_mod_cast two_mul_two_pow hf
  have hpos : 0 < 2 ^ (f.precision - 1) := by positivity
  rw [round_eq hnum]
  generalize targetMantissa f num den = m at *
  generalize targetExponent f num den = e at *
  split_ifs with hlt hout hout
  · exact .inl ⟨rfl, hout.le⟩
  · exact .inr ⟨m, e, rfl, ⟨hlt, hleast, not_lt.1 hout, hfull⟩, rfl⟩
  · exact .inl ⟨rfl, Int.lt_add_one_iff.1 hout⟩
  · -- The mantissa has become a power of two, half of which is one as well.
    have hm : m = 2 * 2 ^ (f.precision - 1) := by omega
    have hhalf : m / 2 = 2 ^ (f.precision - 1) := by omega
    refine .inr ⟨m / 2, e + 1, rfl, ⟨?_, ?_, not_lt.1 hout, .inr hhalf.ge⟩, ?_⟩
    · omega
    · omega
    · rw [hhalf, hm, zpow_add_one₀ two_ne_zero]
      push_cast
      ring

theorem canonical_zero (hf : f.Proper) (negative : Bool) : (zero negative : Binary f).Canonical :=
  ⟨by positivity, le_rfl, hf.bounds.le, .inl rfl⟩

theorem canonical_round (hf : f.Proper) (hden : 0 < den) (negative : Bool) :
    (round f negative num den).Canonical := by
  rcases Nat.eq_zero_or_pos num with rfl | hnum
  · exact canonical_zero hf negative
  · rcases round_cases hf hnum hden negative with ⟨h, -⟩ | ⟨m, e, h, hcanonical, -⟩
    · rw [h]
      trivial
    · rwa [h]

/-- What lies below the last power of two of the format does not become an infinity. -/
theorem round_finite (hf : f.Proper) (hnum : 0 < num) (hden : 0 < den) (negative : Bool)
    (h : (num : ℚ) / den < 2 ^ (f.precision - 1) * 2 ^ f.greatest) :
    ∃ m e, round f negative num den = .finite negative m e ∧
      (m : ℚ) * 2 ^ e = targetMantissa f num den * 2 ^ targetExponent f num den := by
  rcases round_cases hf hnum hden negative with ⟨-, hgreatest⟩ | ⟨m, e, hround, -, hvalue⟩
  · rcases (targetExponent_bounds hf hnum hden).2 with hleast | hlow
    · have hbounds := hf.bounds
      omega
    · have hpow := (mul_lt_mul_iff_right₀ (by positivity)).1 (hlow.trans_lt h)
      have hlt := (zpow_lt_zpow_iff_right₀ one_lt_two).1 hpow
      omega
  · exact ⟨m, e, hround, hvalue⟩

/-- In the normal range rounding is off by at most half a unit of the last place. -/
theorem round_error (hf : f.Proper) (hnum : 0 < num) (hden : 0 < den) (negative : Bool)
    (hlow : 2 ^ (f.precision - 1) * 2 ^ f.least ≤ (num : ℚ) / den)
    (hhigh : (num : ℚ) / den < 2 ^ (f.precision - 1) * 2 ^ f.greatest) :
    ∃ m e, round f negative num den = .finite negative m e ∧
      |(m : ℚ) * 2 ^ e - num / den| ≤ num / den / 2 ^ f.precision := by
  obtain ⟨m, e, hround, hvalue⟩ := round_finite hf hnum hden negative hhigh
  refine ⟨m, e, hround, ?_⟩
  have hunit : 2 ^ (f.precision - 1) * 2 ^ targetExponent f num den ≤ (num : ℚ) / den := by
    rcases (targetExponent_bounds hf hnum hden).2 with hleast | hunit
    · rwa [hleast]
    · exact hunit
  have herror := abs_targetMantissa_sub f num hden
  have hpow : (0 : ℚ) < 2 ^ targetExponent f num den := by positivity
  calc |(m : ℚ) * 2 ^ e - num / den|
      = |(targetMantissa f num den : ℚ) - num / den / 2 ^ targetExponent f num den| *
          2 ^ targetExponent f num den := by
        rw [hvalue, ← abs_of_pos hpow, ← abs_mul, abs_of_pos hpow, sub_mul,
          div_mul_cancel₀ _ hpow.ne']
    _ ≤ 1 / 2 * 2 ^ targetExponent f num den := by gcongr
    _ ≤ num / den / 2 ^ f.precision := by
        rw [le_div_iff₀ (by positivity), ← two_mul_two_pow hf]
        linarith

/-- A number of the format is rounded to itself. -/
theorem round_exact (hf : f.Proper) (hden : 0 < den) (negative : Bool) {n : Nat} {k : Int}
    (hn : 0 < n) (hlt : n < 2 ^ f.precision) (hleast : f.least ≤ k)
    (hvalue : (num : ℚ) / den = n * 2 ^ k)
    (hhigh : (num : ℚ) / den < 2 ^ (f.precision - 1) * 2 ^ f.greatest) :
    ∃ m e, round f negative num den = .finite negative m e ∧ (m : ℚ) * 2 ^ e = n * 2 ^ k := by
  have hnum : 0 < num := by
    have hpos : (0 : ℚ) < num / den := by
      rw [hvalue]
      positivity
    exact_mod_cast (div_pos_iff_of_pos_right (by positivity)).1 hpos
  obtain ⟨m, e, hround, hm⟩ := round_finite hf hnum hden negative hhigh
  refine ⟨m, e, hround, ?_⟩
  have hle : targetExponent f num den ≤ k := by
    refine targetExponent_le hf hnum hden hleast ?_
    have hlt' : (n : ℚ) < 2 ^ f.precision := by exact_mod_cast hlt
    rw [hvalue]
    gcongr
  obtain ⟨j, hj⟩ := Int.le.dest hle
  have hunits : (num : ℚ) / den / 2 ^ targetExponent f num den = (n * 2 ^ j : Nat) := by
    rw [hvalue, ← hj, two_pow_split, zpow_natCast]
    push_cast
    field_simp
  have htarget : targetMantissa f num den = n * 2 ^ j := by
    refine targetMantissa_eq hden (.inl ?_)
    rw [hunits, sub_self, abs_zero]
    norm_num
  rw [hm, htarget, ← hj, two_pow_split, zpow_natCast]
  push_cast
  ring

/-! ### What rounds to a number -/

/-- The midpoint between `mantissa · 2 ^ exponent` and the number of the format below it. Below a
power of two the units are half as large. -/
def lowerEnd (f : Format) (mantissa : Nat) (exponent : Int) : ℚ :=
  if mantissa = 2 ^ (f.precision - 1) ∧ f.least < exponent then (mantissa - 1 / 4) * 2 ^ exponent
  else (mantissa - 1 / 2) * 2 ^ exponent

/-- The midpoint between `mantissa · 2 ^ exponent` and the number of the format above it. -/
def upperEnd (mantissa : Nat) (exponent : Int) : ℚ := (mantissa + 1 / 2) * 2 ^ exponent

/-- `mantissa · 2 ^ exponent` is the number of the format that is nearest to `v`; a midpoint goes to
an even mantissa. -/
def Nearest (f : Format) (mantissa : Nat) (exponent : Int) (v : ℚ) : Prop :=
  if mantissa % 2 = 0 then lowerEnd f mantissa exponent ≤ v ∧ v ≤ upperEnd mantissa exponent
  else lowerEnd f mantissa exponent < v ∧ v < upperEnd mantissa exponent

theorem le_lowerEnd (f : Format) (m : Nat) (e : Int) : (m - 1 / 2) * 2 ^ e ≤ lowerEnd f m e := by
  rw [lowerEnd]
  split_ifs
  · gcongr
    norm_num
  · exact le_rfl

theorem lowerEnd_pos {m : Nat} (hm : 0 < m) (e : Int) : 0 < lowerEnd f m e := by
  have hone : (1 : ℚ) ≤ m := by exact_mod_cast hm
  refine (mul_pos ?_ (by positivity)).trans_le (le_lowerEnd f m e)
  linarith

theorem Nearest.bounds {m : Nat} {e : Int} {v : ℚ} (h : Nearest f m e v) :
    lowerEnd f m e ≤ v ∧ v ≤ upperEnd m e := by
  rw [Nearest] at h
  split_ifs at h
  · exact h
  · exact ⟨h.1.le, h.2.le⟩

theorem Nearest.abs_sub {m : Nat} {e : Int} {v : ℚ} (h : Nearest f m e v) :
    |(m : ℚ) - v / 2 ^ e| < 1 / 2 ∨ |(m : ℚ) - v / 2 ^ e| = 1 / 2 ∧ m % 2 = 0 := by
  have hpow : (0 : ℚ) < 2 ^ e := by positivity
  have hlower := le_lowerEnd f m e
  rw [Nearest, upperEnd] at h
  split_ifs at h with heven
  · refine (lt_or_eq_of_le (abs_le.2 ?_)).imp_right (⟨·, heven⟩)
    have hlow := (le_div_iff₀ hpow).2 (hlower.trans h.1)
    have hhigh := (div_le_iff₀ hpow).2 h.2
    constructor <;> linarith
  · refine .inl (abs_lt.2 ?_)
    have hlow := (lt_div_iff₀ hpow).2 (hlower.trans_lt h.1)
    have hhigh := (div_lt_iff₀ hpow).2 h.2
    constructor <;> linarith

/-- What is less than a quarter of a unit away is nearest in any case. -/
theorem nearest_of_abs_sub_lt {m : Nat} {e : Int} {v : ℚ} (h : |v - m * 2 ^ e| < 2 ^ e / 4) :
    Nearest f m e v := by
  have hpow : (0 : ℚ) < 2 ^ e := by positivity
  obtain ⟨hlow, hhigh⟩ := abs_lt.1 h
  have hlower : lowerEnd f m e < v := by
    rw [lowerEnd]
    split_ifs <;> linarith
  have hupper : v < upperEnd m e := by
    rw [upperEnd]
    linarith
  rw [Nearest]
  split_ifs
  · exact ⟨hlower.le, hupper.le⟩
  · exact ⟨hlower, hupper⟩

/-- Just below a power of two the units are half as large, and rounding up to it takes a carry. -/
theorem round_of_below_power (hf : f.Proper) (hnum : 0 < num) (hden : 0 < den) (negative : Bool)
    {e : Int} (hleast : f.least < e) (hgreatest : e ≤ f.greatest)
    (hlow : (2 ^ (f.precision - 1) - 1 / 4) * 2 ^ e ≤ (num : ℚ) / den)
    (hhigh : (num : ℚ) / den < 2 ^ (f.precision - 1) * 2 ^ e) :
    round f negative num den = .finite negative (2 ^ (f.precision - 1)) e := by
  have hpow : (0 : ℚ) < 2 ^ (e - 1) := by positivity
  have hone : (1 : ℚ) ≤ 2 ^ (f.precision - 1) := one_le_pow₀ one_le_two
  have hsplit : (2 : ℚ) ^ e = 2 * 2 ^ (e - 1) := by
    rw [← zpow_one_add₀ two_ne_zero, add_sub_cancel]
  have hdouble : 2 * 2 ^ (f.precision - 1) = 2 ^ f.precision := by
    exact_mod_cast two_mul_two_pow hf
  rw [hsplit] at hlow hhigh
  have hexponent : targetExponent f num den = e - 1 := by
    refine targetExponent_eq hf hnum hden (by omega) ?_ (.inr ?_)
    · rw [← two_mul_two_pow hf]
      linarith
    · refine le_trans ?_ hlow
      rw [← mul_assoc]
      gcongr
      linarith
  have hmantissa : targetMantissa f num den = 2 ^ f.precision := by
    have hlow' := (le_div_iff₀ hpow).2 ((mul_assoc _ _ _).trans_le hlow)
    have hhigh' := (div_lt_iff₀ hpow).2 (hhigh.trans_eq (mul_assoc _ _ _).symm)
    refine targetMantissa_eq hden ((lt_or_eq_of_le (abs_le.2 ?_)).imp_right (⟨·, by omega⟩))
    rw [hexponent, ← hdouble]
    push_cast
    constructor <;> linarith
  rw [round_eq hnum, hmantissa, hexponent, if_neg (lt_irrefl _), if_neg (by omega), ← hdouble,
    Nat.mul_div_cancel_left _ two_pos, sub_add_cancel]

/-- A number is rounded to the one that it is nearest to. -/
theorem round_of_nearest (hf : f.Proper) (hden : 0 < den) (negative : Bool) {m : Nat} {e : Int}
    (hm : 0 < m) (hcanonical : Canonical (f := f) (.finite negative m e))
    (h : Nearest f m e (num / den)) : round f negative num den = .finite negative m e := by
  obtain ⟨hlt, hleast, hgreatest, hfull⟩ := hcanonical
  have hpow : (0 : ℚ) < 2 ^ e := by positivity
  have hone : (1 : ℚ) ≤ m := by exact_mod_cast hm
  have hlower := (le_lowerEnd f m e).trans h.bounds.1
  have hnum : 0 < num := by
    have hpos : (0 : ℚ) < num / den := by
      refine lt_of_lt_of_le (mul_pos ?_ hpow) hlower
      linarith
    exact_mod_cast (div_pos_iff_of_pos_right (by positivity)).1 hpos
  by_cases hbelow : f.least < e ∧ (num : ℚ) / den < 2 ^ (f.precision - 1) * 2 ^ e
  · -- Only the number with the least mantissa is nearest to something below this power of two.
    have hm : m = 2 ^ (f.precision - 1) := by
      have hless := lt_of_mul_lt_mul_right (hlower.trans_lt hbelow.2) hpow.le
      have hless' : (m : ℚ) < (2 ^ (f.precision - 1) : Nat) + 1 := by
        push_cast
        linarith
      have hle : m ≤ 2 ^ (f.precision - 1) := Nat.lt_succ_iff.1 (by exact_mod_cast hless')
      omega
    have hlow := h.bounds.1
    rw [lowerEnd, if_pos ⟨hm, hbelow.1⟩, hm] at hlow
    rw [hm]
    refine round_of_below_power hf hnum hden negative hbelow.1 hgreatest ?_ hbelow.2
    exact_mod_cast hlow
  · have hhigh : (num : ℚ) / den < 2 ^ f.precision * 2 ^ e := by
      refine h.bounds.2.trans_lt (mul_lt_mul_of_pos_right ?_ hpow)
      have hlt' : (m : ℚ) + 1 ≤ 2 ^ f.precision := by exact_mod_cast hlt
      linarith
    have hexponent : targetExponent f num den = e := by
      refine targetExponent_eq hf hnum hden hleast hhigh ?_
      by_cases heq : e = f.least
      · exact .inl heq
      · exact .inr (not_lt.1 fun hless => hbelow ⟨by omega, hless⟩)
    have hmantissa : targetMantissa f num den = m := by
      refine targetMantissa_eq hden ?_
      rw [hexponent]
      exact h.abs_sub
    rw [round_eq hnum, hmantissa, hexponent, if_pos hlt, if_neg (by omega)]

end Binary

end InferenceFleet
