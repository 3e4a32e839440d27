import InferenceFleet.Json.Numeral
import InferenceFleet.Proofs.Binary.Rounding

/-!
# Scaling by powers of ten

A significand is scaled to a decimal in two roundings, that of the power of ten and that of the
product or quotient. So the result is off by two and a half units in `2 ^ 53` at most
(`near_scale`), and not at all when the power is exact and the decimal is a binary number
(`exact_scale`).
-/

namespace InferenceFleet

namespace Binary

/-- The greatest relative error of a double in rounding. -/
def unit : ℚ := 1 / 2 ^ 53

/-- A double is positive and off from `v` by at most `error · v`. -/
def Near (x : Double) (v error : ℚ) : Prop :=
  ∃ m e, x = .finite false m e ∧ |(m : ℚ) * 2 ^ e - v| ≤ error * v

/-- A double has the value `v`. -/
def Exact (x : Double) (v : ℚ) : Prop := ∃ m e, x = .finite false m e ∧ (m : ℚ) * 2 ^ e = v

/-- Well inside the range of doubles. -/
def Moderate (v : ℚ) : Prop := 2 ^ (-250 : Int) ≤ v ∧ v ≤ 2 ^ (250 : Int)

/-- Still further inside, so that what is near is moderate. -/
def Central (v : ℚ) : Prop := 2 ^ (-249 : Int) ≤ v ∧ v ≤ 2 ^ (249 : Int)

theorem Exact.near {x : Double} {v : ℚ} (h : x.Exact v) : x.Near v 0 := by
  obtain ⟨m, e, rfl, hvalue⟩ := h
  exact ⟨m, e, rfl, by rw [hvalue, sub_self, abs_zero, zero_mul]⟩

variable {num den : Nat} {v : ℚ}

theorem Moderate.pos (h : Moderate v) : 0 < v := lt_of_lt_of_le (by positivity) h.1

theorem Moderate.lt_greatest (h : Moderate v) :
    v < 2 ^ (Format.double.precision - 1) * 2 ^ Format.double.greatest := by
  refine h.2.trans_lt ?_
  rw [← zpow_natCast, ← two_pow_split]
  exact zpow_lt_zpow_right₀ one_lt_two (by decide)

theorem near_round (hden : 0 < den) (hv : (num : ℚ) / den = v) (h : Moderate v) :
    (round .double false num den).Near v unit := by
  subst hv
  have hnum : 0 < num := by exact_mod_cast (div_pos_iff_of_pos_right (by positivity)).1 h.pos
  have hlow : 2 ^ (Format.double.precision - 1) * 2 ^ Format.double.least ≤ (num : ℚ) / den := by
    refine le_trans ?_ h.1
    rw [← zpow_natCast, ← two_pow_split]
    exact zpow_le_zpow_right₀ one_le_two (by decide)
  obtain ⟨m, e, hround, herror⟩ :=
    round_error Format.proper_double hnum hden false hlow h.lt_greatest
  refine ⟨m, e, hround, ?_⟩
  rwa [unit, one_div_mul_eq_div]

theorem exact_round (hden : 0 < den) (hv : (num : ℚ) / den = v) (h : Moderate v) {n : Nat}
    {k : Int} (hn : 0 < n) (hlt : n < 2 ^ 53) (hk : -1074 ≤ k) (hvalue : v = n * 2 ^ k) :
    (round .double false num den).Exact v := by
  subst hv
  obtain ⟨m, e, hround, heq⟩ := round_exact Format.proper_double hden false hn hlt hk hvalue
    h.lt_greatest
  exact ⟨m, e, hround, heq.trans hvalue.symm⟩

theorem mul_finite (m n : Nat) (d e : Int) :
    ∃ num den : Nat, 0 < den ∧ (num : ℚ) / den = m * 2 ^ d * (n * 2 ^ e) ∧
      Binary.mul (f := .double) (.finite false m d) (.finite false n e) =
        round .double false num den := by
  refine ⟨(magnitude (m * n) (d + e)).1, (magnitude (m * n) (d + e)).2,
    scaled_den_pos _ one_pos _, ?_, rfl⟩
  refine (magnitude_value (m * n) (d + e)).trans ?_
  rw [two_pow_split]
  push_cast
  ring

theorem div_finite {m n : Nat} (hn : 0 < n) (d e : Int) :
    ∃ num den : Nat, 0 < den ∧ (num : ℚ) / den = m * 2 ^ d / (n * 2 ^ e) ∧
      Binary.div (f := .double) (.finite false m d) (.finite false n e) =
        round .double false num den := by
  refine ⟨(scaled m n (d - e)).1, (scaled m n (d - e)).2, scaled_den_pos _ hn _, ?_, rfl⟩
  refine (ratio_scaled m n (d - e)).trans ?_
  rw [zpow_sub₀ two_ne_zero, div_mul_div_comm]

theorem Central.pos (h : Central v) : 0 < v := lt_of_lt_of_le (by positivity) h.1

theorem Central.moderate_of_near (h : Central v) {w : ℚ} (hw : |w - v| ≤ v / 2) : Moderate w := by
  obtain ⟨hlow, hhigh⟩ := abs_le.1 hw
  have hup : (2 : ℚ) ^ (250 : Int) = 2 ^ (249 : Int) * 2 := zpow_add_one₀ two_ne_zero 249
  have hdown : (2 : ℚ) ^ (-249 : Int) = 2 ^ (-250 : Int) * 2 := zpow_add_one₀ two_ne_zero (-250)
  have hpos : (0 : ℚ) < 2 ^ (249 : Int) := by positivity
  obtain ⟨hv, hv'⟩ := h
  rw [hdown] at hv
  rw [Moderate, hup]
  generalize (2 : ℚ) ^ (249 : Int) = a at *
  generalize (2 : ℚ) ^ (-250 : Int) = b at *
  constructor <;> linarith

theorem Central.moderate (h : Central v) : Moderate v :=
  h.moderate_of_near (by rw [sub_self, abs_zero]; exact (half_pos (h.pos)).le)

/-- A second rounding adds its error to that of the first. -/
theorem Near.of_near {x : Double} {w : ℚ} (hx : x.Near w unit) (hv : 0 ≤ v)
    (hw : |w - v| ≤ 9 / 8 * unit * v) : x.Near v (5 / 2 * unit) := by
  obtain ⟨m, e, rfl, hm⟩ := hx
  refine ⟨m, e, rfl, ?_⟩
  -- One unit of `w` and nine eighths of one of `v`, to which `w` is close.
  have hsum := abs_sub_le ((m : ℚ) * 2 ^ e) w v
  have hle := (abs_le.1 hw).2
  rw [unit] at *
  linarith

theorem near_mul {x y : Double} {s t : ℚ} (hx : x.Exact s) (hy : y.Near t unit)
    (h : Central (s * t)) (hs : 0 < s) : (x.mul y).Near (s * t) (5 / 2 * unit) := by
  obtain ⟨m, d, rfl, rfl⟩ := hx
  obtain ⟨n, e, rfl, hn⟩ := hy
  obtain ⟨num, den, hden, hvalue, hmul⟩ := mul_finite m n d e
  have hpos := h.pos
  set s : ℚ := m * 2 ^ d
  set p : ℚ := n * 2 ^ e
  have herror : |s * p - s * t| ≤ unit * (s * t) := by
    rw [← mul_sub, abs_mul, abs_of_pos hs, mul_left_comm]
    gcongr
  have hmoderate : Moderate (s * p) := by
    refine h.moderate_of_near (herror.trans ?_)
    rw [unit]
    linarith
  rw [hmul]
  refine (near_round hden hvalue hmoderate).of_near hpos.le (herror.trans ?_)
  rw [unit]
  linarith

theorem near_div {x y : Double} {s t : ℚ} (hx : x.Exact s) (hy : y.Near t unit)
    (h : Central (s / t)) (ht : 0 < t) : (x.div y).Near (s / t) (5 / 2 * unit) := by
  obtain ⟨m, d, rfl, rfl⟩ := hx
  obtain ⟨n, e, rfl, hn⟩ := hy
  have hpos := h.pos
  obtain ⟨hlow, hhigh⟩ := abs_le.1 hn
  have hp : 0 < (n : ℚ) * 2 ^ e := by
    rw [unit] at hlow
    linarith
  have hmantissa : 0 < n := by exact_mod_cast pos_of_mul_pos_left hp (by positivity)
  obtain ⟨num, den, hden, hvalue, hdiv⟩ := div_finite hmantissa d e
  set s : ℚ := m * 2 ^ d
  set p : ℚ := n * 2 ^ e
  have herror : |s / p - s / t| ≤ 9 / 8 * unit * (s / t) := by
    have hdiff : s / p - s / t = s / t * ((t - p) / p) := by
      field_simp
    have hrest : |(t - p) / p| ≤ 9 / 8 * unit := by
      rw [abs_div, abs_of_pos hp, abs_sub_comm, div_le_iff₀ hp]
      refine hn.trans ?_
      rw [unit] at *
      linarith
    rw [hdiff, abs_mul, abs_of_pos hpos, mul_comm]
    gcongr
  have hmoderate : Moderate (s / p) := by
    refine h.moderate_of_near (herror.trans ?_)
    rw [unit]
    linarith
  rw [hdiv]
  exact (near_round hden hvalue hmoderate).of_near hpos.le herror

end Binary

namespace Json.Numeral
open Binary

variable {significand : Nat} {power : Int}

/-! ### Significands and powers of ten -/

theorem moderate_of_nat {n : Nat} (hn : 0 < n) (h : (n : ℚ) ≤ 2 ^ (250 : Int)) : Moderate n := by
  refine ⟨le_trans ?_ (by exact_mod_cast hn : (1 : ℚ) ≤ n), h⟩
  exact zpow_le_one_of_nonpos₀ one_le_two (by decide)

theorem natCast_div_one (n : Nat) : (n : ℚ) / (1 : Nat) = n := by rw [Nat.cast_one, div_one]

theorem exact_ofInt (hpos : 0 < significand) (hlt : significand < 2 ^ 53) :
    (Binary.ofInt .double significand).Exact significand := by
  have hlt' : (significand : ℚ) ≤ 2 ^ (53 : Int) := by exact_mod_cast hlt.le
  have hmoderate : Moderate significand :=
    moderate_of_nat hpos (hlt'.trans (zpow_le_zpow_right₀ one_le_two (by decide)))
  have hround : Binary.ofInt .double significand = round .double false significand 1 := by
    rw [Binary.ofInt, Int.natAbs_natCast, decide_eq_false (by omega)]
  rw [hround]
  exact exact_round one_pos (natCast_div_one _) hmoderate (k := 0) hpos hlt (by decide)
    (by rw [zpow_zero, mul_one])

/-- The powers of ten that a decimal near a single has. -/
def powerLimit : Nat := 55

theorem ten_pow_le {k : Nat} (h : k ≤ powerLimit) : (10 : ℚ) ^ k ≤ 2 ^ (190 : Int) :=
  (pow_le_pow_right₀ (by norm_num) h).trans (by norm_num [powerLimit])

theorem moderate_ten_pow {k : Nat} (h : k ≤ powerLimit) : Moderate ((10 ^ k : Nat) : ℚ) := by
  refine moderate_of_nat (by positivity) ?_
  rw [Nat.cast_pow]
  exact (ten_pow_le h).trans (zpow_le_zpow_right₀ one_le_two (by decide))

theorem near_powerOfTen {k : Nat} (h : k ≤ powerLimit) : (powerOfTen k).Near (10 ^ k) unit := by
  have hnear := near_round one_pos (natCast_div_one (10 ^ k)) (moderate_ten_pow h)
  rwa [Nat.cast_pow] at hnear

/-- Up to this power of ten the odd part fits into a mantissa. -/
theorem exact_powerOfTen {k : Nat} (h : k ≤ 22) : (powerOfTen k).Exact (10 ^ k) := by
  have hlt : 5 ^ k < 2 ^ 53 := (Nat.pow_le_pow_right (by decide) h).trans_lt (by decide)
  have hvalue : ((10 ^ k : Nat) : ℚ) = (5 ^ k : Nat) * 2 ^ (k : Int) := by
    rw [zpow_natCast]
    push_cast
    rw [← mul_pow]
    norm_num
  have hexact := exact_round one_pos (natCast_div_one (10 ^ k))
    (moderate_ten_pow (h.trans (by decide))) (by positivity) hlt (by omega) hvalue
  rwa [Nat.cast_pow] at hexact

/-! ### Scaling -/

theorem scale_mul {k : Nat} (x : Double) (hk : k ≤ greatestPower)
    (h : (x.mul (powerOfTen k)).isInfinite = false) :
    scale x k = some (x.mul (powerOfTen k)) := by
  rw [scale, if_pos (by rwa [Int.natAbs_natCast]), if_pos (by omega), Int.natAbs_natCast]
  dsimp only
  rw [h, if_neg Bool.false_ne_true]

theorem scale_div {k : Nat} (x : Double) (hk : k ≤ greatestPower) (hpos : 0 < k) :
    scale x (-k) = some (x.div (powerOfTen k)) := by
  rw [scale, Int.natAbs_neg, Int.natAbs_natCast, if_pos hk, if_neg (by omega)]

theorem isInfinite_of_near {x : Double} {v error : ℚ} (h : x.Near v error) :
    x.isInfinite = false := by
  obtain ⟨m, e, rfl, -⟩ := h
  rfl

/-- The decimals near singles are far from the ends of the range of doubles. -/
theorem central_decimal (hpos : 0 < significand) (hlt : significand < 2 ^ 53)
    (hpower : power.natAbs ≤ powerLimit) : Central (significand * 10 ^ power) := by
  have hone : (1 : ℚ) ≤ significand := by exact_mod_cast hpos
  have hlt' : (significand : ℚ) ≤ 2 ^ (53 : Int) := by exact_mod_cast hlt.le
  have hten := ten_pow_le hpower
  have hhigh : (10 : ℚ) ^ power ≤ 2 ^ (190 : Int) := by
    refine le_trans ?_ hten
    rw [← zpow_natCast]
    exact zpow_le_zpow_right₀ (by norm_num) Int.le_natAbs
  have hlow : (2 : ℚ) ^ (-190 : Int) ≤ 10 ^ power := by
    have hneg : (10 : ℚ) ^ (-power) ≤ 2 ^ (190 : Int) := by
      refine le_trans ?_ hten
      rw [← zpow_natCast]
      exact zpow_le_zpow_right₀ (by norm_num) (by omega)
    rw [zpow_neg] at hneg ⊢
    exact inv_le_of_inv_le₀ (by positivity) hneg
  constructor
  · calc (2 : ℚ) ^ (-249 : Int) ≤ 2 ^ (-190 : Int) := zpow_le_zpow_right₀ one_le_two (by decide)
      _ ≤ 1 * 10 ^ power := by rwa [one_mul]
      _ ≤ significand * 10 ^ power := by gcongr
  · calc (significand : ℚ) * 10 ^ power ≤ 2 ^ (53 : Int) * 2 ^ (190 : Int) := by gcongr
      _ ≤ 2 ^ (249 : Int) := by
        rw [← two_pow_split]
        exact zpow_le_zpow_right₀ one_le_two (by decide)

/-- Powers of ten are multiplied with or divided by. -/
theorem exists_nat_power (power : Int) :
    (∃ k : Nat, power = k) ∨ ∃ k : Nat, 0 < k ∧ power = -k := by
  rcases Int.lt_or_le power 0 with h | h
  · exact .inr ⟨power.natAbs, by omega, by omega⟩
  · exact .inl ⟨power.natAbs, by omega⟩

/-- A significand of at most 53 bits is scaled with an error of two and a half units at most. -/
theorem near_scale (hpos : 0 < significand) (hlt : significand < 2 ^ 53)
    (hpower : power.natAbs ≤ powerLimit) :
    ∃ y, scale (Binary.ofInt .double significand) power = some y ∧
      y.Near (significand * 10 ^ power) (5 / 2 * unit) := by
  have hlimit : powerLimit ≤ greatestPower := by decide
  have hx := exact_ofInt hpos hlt
  have hcentral := central_decimal hpos hlt hpower
  obtain ⟨k, rfl⟩ | ⟨k, hk, rfl⟩ := exists_nat_power power
  · rw [Int.natAbs_natCast] at hpower
    rw [zpow_natCast] at hcentral ⊢
    have hnear := near_mul hx (near_powerOfTen hpower) hcentral (by positivity)
    exact ⟨_, scale_mul _ (hpower.trans hlimit) (isInfinite_of_near hnear), hnear⟩
  · rw [Int.natAbs_neg, Int.natAbs_natCast] at hpower
    rw [zpow_neg, zpow_natCast, ← div_eq_mul_inv] at hcentral ⊢
    have hnear := near_div hx (near_powerOfTen hpower) hcentral (by positivity)
    exact ⟨_, scale_div _ (hpower.trans hlimit) hk, hnear⟩

/-- With an exact power of ten, a decimal that is a binary number is scaled without an error. -/
theorem exact_scale (hpos : 0 < significand) (hlt : significand < 2 ^ 53)
    (hpower : power.natAbs ≤ 22) {n : Nat} {k : Int} (hn : 0 < n) (hn' : n < 2 ^ 53)
    (hk : -1074 ≤ k) (hvalue : (significand : ℚ) * 10 ^ power = n * 2 ^ k) :
    ∃ y, scale (Binary.ofInt .double significand) power = some y ∧
      y.Exact (significand * 10 ^ power) := by
  have hlimit : 22 ≤ greatestPower := by decide
  obtain ⟨m, d, hx, hm⟩ := exact_ofInt hpos hlt
  have hmoderate : Moderate ((significand : ℚ) * 10 ^ power) :=
    (central_decimal hpos hlt (hpower.trans (by decide))).moderate
  obtain ⟨j, rfl⟩ | ⟨j, hj, rfl⟩ := exists_nat_power power
  · rw [Int.natAbs_natCast] at hpower
    obtain ⟨l, e, hy, hl⟩ := exact_powerOfTen hpower
    obtain ⟨num, den, hden, hratio, hmul⟩ := mul_finite m l d e
    rw [hm, hl, ← zpow_natCast] at hratio
    have hexact := exact_round hden hratio hmoderate hn hn' hk hvalue
    rw [← hmul, ← hx, ← hy] at hexact
    exact ⟨_, scale_mul _ (hpower.trans hlimit) (isInfinite_of_near hexact.near), hexact⟩
  · rw [Int.natAbs_neg, Int.natAbs_natCast] at hpower
    obtain ⟨l, e, hy, hl⟩ := exact_powerOfTen hpower
    have hl' : 0 < l := by
      have hpos : 0 < (l : ℚ) * 2 ^ e := by
        rw [hl]
        positivity
      exact_mod_cast pos_of_mul_pos_left hpos (by positivity)
    obtain ⟨num, den, hden, hratio, hdiv⟩ := div_finite (m := m) hl' d e
    rw [hm, hl] at hratio
    rw [zpow_neg, zpow_natCast, ← div_eq_mul_inv] at hvalue hmoderate ⊢
    have hexact := exact_round hden hratio hmoderate hn hn' hk hvalue
    rw [← hdiv, ← hx, ← hy] at hexact
    exact ⟨_, scale_div _ (hpower.trans hlimit) hj, hexact⟩

end Json.Numeral

end InferenceFleet
