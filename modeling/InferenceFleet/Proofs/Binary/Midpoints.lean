import InferenceFleet.Proofs.Binary.Quotient

/-!
# Decimals close to midpoints

The numbers halfway between two binary numbers are odd multiples of powers of two. A decimal
`n · 10 ^ k` with a small `n` is such a midpoint `m · 2 ^ q`, or it keeps a distance from it that
the roundings of a reader do not bridge; there are just five midpoints that a decimal comes closer
to (`eq_or_nearMiss`).

Let `a / b` be `10 ^ k / 2 ^ q`. With a fraction `p / r` that is close enough to `a / b`, every
fraction `m / n` in reach that is close to `a / b` must be `p / r` or unreduced (`mul_eq_of_close`),
so just one fraction is left to be checked for all `n` and `m`. The Euclidean algorithm finds one
for each pair of powers.
-/

namespace InferenceFleet.Midpoint

variable {a b n m p r : Nat} {k q : Int}

/-- The greatest odd multiple of a power of two that is a midpoint. No decimal close to a midpoint
has a greater significand. -/
def limit : Nat := 2 ^ 25 - 1

/-- The distance between two numbers. -/
def gap (x y : Nat) : Nat := (x - y) + (y - x)

/-- `m / n` comes as close to `a / b` as roundings may reach: eleven quarters of `1 / 2 ^ 53`. -/
def Close (a b n m : Nat) : Prop := 2 ^ 55 * gap (a * n) (b * m) ≤ 11 * (b * m)

/-- What is close to `a / b` cannot differ from `p / r`. -/
def decisive (a b p r : Nat) : Bool :=
  Nat.blt (2 ^ 55 * limit * gap (a * r) (b * p) + 11 * r * b * limit) (2 ^ 55 * b)

theorem cast_gap (x y : Nat) : (gap x y : ℤ) = |(x : ℤ) - y| := by
  rw [gap]
  rcases le_total x y with h | h
  · rw [abs_of_nonpos (by omega)]
    omega
  · rw [abs_of_nonneg (by omega)]
    omega

theorem gap_mul (x y t : Nat) : gap (x * t) (y * t) = gap x y * t := by
  rw [gap, gap, ← Nat.sub_mul, ← Nat.sub_mul, ← Nat.add_mul]

theorem mul_gap_le (a b n m p r : Nat) :
    b * gap (r * m) (p * n) ≤ n * gap (a * r) (b * p) + r * gap (a * n) (b * m) := by
  have hsplit : (b : ℤ) * (r * m - p * n) = n * (a * r - b * p) - r * (a * n - b * m) := by ring
  have hle : (b : ℤ) * |(r * m : ℤ) - p * n| ≤
      n * |(a * r : ℤ) - b * p| + r * |(a * n : ℤ) - b * m| := by
    calc (b : ℤ) * |(r * m : ℤ) - p * n| = |(b : ℤ) * (r * m - p * n)| := by
          rw [abs_mul, Nat.abs_cast]
      _ ≤ |(n : ℤ) * (a * r - b * p)| + |(r : ℤ) * (a * n - b * m)| := by
          rw [hsplit]
          exact abs_sub _ _
      _ = _ := by rw [abs_mul, abs_mul, Nat.abs_cast, Nat.abs_cast]
  zify
  simp only [cast_gap]
  push_cast
  exact hle

/-- With a decisive fraction the close ones are known. -/
theorem mul_eq_of_close (h : decisive a b p r = true) (hn : n ≤ limit) (hm : m ≤ limit)
    (hclose : Close a b n m) : r * m = p * n := by
  rw [decisive, Nat.blt_eq] at h
  have hless : 2 ^ 55 * b * gap (r * m) (p * n) < 2 ^ 55 * b * 1 := by
    calc 2 ^ 55 * b * gap (r * m) (p * n)
        ≤ 2 ^ 55 * (n * gap (a * r) (b * p) + r * gap (a * n) (b * m)) := by
          rw [mul_assoc]
          exact Nat.mul_le_mul_left _ (mul_gap_le a b n m p r)
      _ = 2 ^ 55 * n * gap (a * r) (b * p) + r * (2 ^ 55 * gap (a * n) (b * m)) := by ring
      _ ≤ 2 ^ 55 * limit * gap (a * r) (b * p) + r * (11 * (b * limit)) := by
          refine Nat.add_le_add (by gcongr) (Nat.mul_le_mul_left _ (hclose.trans ?_))
          gcongr
      _ = 2 ^ 55 * limit * gap (a * r) (b * p) + 11 * r * b * limit := by ring
      _ < 2 ^ 55 * b * 1 := by rwa [mul_one]
  have hzero := Nat.lt_of_mul_lt_mul_left hless
  rw [gap] at hzero
  omega

/-! ### Approximations -/

/-- The convergents of `x / y` behind `p' / r'` and `p / r`, until one is decisive for `a / b`. -/
def convergent (a b : Nat) : Nat → Nat → Nat → Nat → Nat → Nat → Nat → Nat × Nat
  | 0, _, _, _, _, p, r => (p, r)
  | fuel + 1, x, y, p', r', p, r =>
    bif Nat.blt (2 ^ 24 * y) b && decisive a b p r then (p, r)
    else convergent a b fuel y (x % y) p r (x / y * p + p') (x / y * r + r')

/-- `10 ^ k` as a quotient. -/
def power (k : Int) : Nat × Nat := decimallyScaled 1 1 k

/-- `10 ^ k / 2 ^ q` as a quotient. -/
def powers (k q : Int) : Nat × Nat := scaled (power k).1 (power k).2 (-q)

/-- The midpoints that a decimal is close to without being equal, each as the exponent and the
multiple. -/
def nearMisses : List (Int × Nat) :=
  [(-108, 22841339), (-107, 22841339), (-106, 22841339), (-50, 28874659), (50, 25645849)]

/-- Multiples of `p / r` are not close to `a / b`, or equal to it, or not in reach, or not odd, or
just `p / r` itself is, which is known. -/
def harmless (q : Int) (a b p r : Nat) : Bool :=
  Nat.beq (gap (a * r) (b * p)) 0 || Nat.blt (11 * (b * p)) (2 ^ 55 * gap (a * r) (b * p)) ||
    Nat.beq (p % 2) 0 || Nat.blt limit p || Nat.blt limit r ||
    (Nat.blt limit (3 * p) && nearMisses.contains (q, p))

/-- Whether the decimals with the power `k` are clear of the odd multiples of `2 ^ q`. -/
def clear (k q : Int) : Bool :=
  let (a, b) := powers k q
  let (p, r) := convergent a b 27 a b 0 1 1 0
  decisive a b p r && Nat.beq (Nat.gcd p r) 1 && harmless q a b p r

/-- The greatest binary exponent below `10 ^ k`. -/
def order (k : Int) : Int := binaryOrder (power k).1 (power k).2

theorem all_clear : ((List.range 92).all fun i => (List.range 27).all fun j =>
    clear (i - 53) (order (i - 53) + 1 - j)) = true := by decide +kernel

theorem clear_of_mem (hk : -53 ≤ k) (hk' : k ≤ 38) (hq : order k - 25 ≤ q) (hq' : q ≤ order k + 1) :
    clear k q = true := by
  have hrow := List.all_eq_true.1 all_clear (k + 53).toNat (List.mem_range.2 (by omega))
  have hclear := List.all_eq_true.1 hrow (order k + 1 - q).toNat (List.mem_range.2 (by omega))
  rwa [Int.toNat_of_nonneg (by omega), Int.toNat_of_nonneg (by omega), add_sub_cancel_right,
    sub_sub_cancel] at hclear

/-! ### What is close -/

theorem eq_of_harmless (h : harmless q a b p r = true) (hcoprime : Nat.Coprime p r)
    (hmul : r * m = p * n) (hn : n ≤ limit) (hm : m ≤ limit) (hodd : m % 2 = 1)
    (hclose : Close a b n m) : a * n = b * m ∨ (q, m) ∈ nearMisses := by
  -- `m / n` is `p / r`, which is reduced, extended by an odd `t`.
  obtain ⟨t, rfl⟩ : p ∣ m := hcoprime.dvd_of_dvd_mul_left ⟨n, hmul⟩
  have hp : 0 < p := Nat.pos_of_ne_zero fun hp => by simp [hp] at hodd
  have ht : t % 2 = 1 := by
    rcases Nat.mod_two_eq_zero_or_one t with ht | ht
    · simp [Nat.mul_mod, ht] at hodd
    · exact ht
  obtain rfl : n = r * t := by
    rw [mul_left_comm] at hmul
    exact (Nat.eq_of_mul_eq_mul_left hp hmul).symm
  rw [Close, ← mul_assoc, ← mul_assoc, gap_mul, ← mul_assoc, ← mul_assoc] at hclose
  have hclose := Nat.le_of_mul_le_mul_right hclose (by omega)
  simp only [harmless, Bool.or_eq_true, Bool.and_eq_true, Nat.beq_eq, Nat.blt_eq] at h
  obtain ((((h | h) | h) | h) | h) | ⟨h, hmem⟩ := h
  · left
    have heq : a * r = b * p := by
      rw [gap] at h
      omega
    rw [← mul_assoc, heq, mul_assoc]
  · omega
  · simp [Nat.mul_mod, h] at hodd
  · have := Nat.le_mul_of_pos_right p (by omega : 0 < t)
    omega
  · have := Nat.le_mul_of_pos_right r (by omega : 0 < t)
    omega
  · right
    obtain rfl : t = 1 := by
      by_contra hne
      have := Nat.mul_le_mul_left p (by omega : 3 ≤ t)
      omega
    rw [mul_one]
    simpa using hmem

theorem ratio_power (k : Int) : ratio (power k) = (10 : ℚ) ^ k := by
  rw [power, ratio_decimallyScaled, Nat.cast_one, div_one, one_mul]

theorem power_pos (k : Int) : 0 < (power k).1 ∧ 0 < (power k).2 := by
  have hden : 0 < (power k).2 := decimallyScaled_den_pos 1 one_pos k
  have hratio := ratio_power k
  refine ⟨Nat.pos_of_ne_zero fun hnum => ?_, hden⟩
  rw [ratio, hnum, Nat.cast_zero, zero_div] at hratio
  exact absurd hratio.symm (by positivity)

theorem ratio_powers (k q : Int) : ratio (powers k q) = (10 : ℚ) ^ k / 2 ^ q := by
  rw [powers, ratio_scaled, zpow_neg, ← div_eq_mul_inv, ← ratio_power]
  rfl

theorem order_bounds (k : Int) : (2 : ℚ) ^ order k ≤ 10 ^ k ∧ (10 : ℚ) ^ k < 2 ^ (order k + 1) := by
  have hpos := power_pos k
  rw [← ratio_power]
  exact binaryOrder_bounds hpos.1 hpos.2

/-- The fraction that stands for two powers relates multiples of them. -/
theorem powers_scale (k q : Int) (n m : Nat) : ((powers k q).1 * n : ℚ) - (powers k q).2 * m =
    (n * 10 ^ k - m * 2 ^ q) * ((powers k q).2 / 2 ^ q) := by
  have hden : ((powers k q).2 : ℚ) ≠ 0 := by
    exact_mod_cast (scaled_den_pos _ (power_pos k).2 _).ne'
  have hnum := (div_eq_iff hden).1 (ratio_powers k q)
  rw [hnum]
  field_simp

theorem close_of_abs_le (h : |(n : ℚ) * 10 ^ k - m * 2 ^ q| ≤ 11 / 2 ^ 55 * (m * 2 ^ q)) :
    Close (powers k q).1 (powers k q).2 n m := by
  have hgap : ((gap ((powers k q).1 * n) ((powers k q).2 * m) : ℕ) : ℚ) =
      |((powers k q).1 * n : ℚ) - (powers k q).2 * m| := by
    exact_mod_cast congrArg (Int.cast (R := ℚ)) (cast_gap _ _)
  have hpos : (0 : ℚ) ≤ (powers k q).2 / 2 ^ q := by positivity
  have hscaled : (gap ((powers k q).1 * n) ((powers k q).2 * m) : ℚ) ≤
      11 / 2 ^ 55 * ((powers k q).2 * m) := by
    calc (gap ((powers k q).1 * n) ((powers k q).2 * m) : ℚ)
        = |(n : ℚ) * 10 ^ k - m * 2 ^ q| * ((powers k q).2 / 2 ^ q) := by
          rw [hgap, powers_scale, abs_mul, abs_of_nonneg hpos]
      _ ≤ 11 / 2 ^ 55 * (m * 2 ^ q) * ((powers k q).2 / 2 ^ q) := by gcongr
      _ = 11 / 2 ^ 55 * ((powers k q).2 * m) := by field_simp
  have hcast : (2 : ℚ) ^ 55 * gap ((powers k q).1 * n) ((powers k q).2 * m) ≤
      11 * ((powers k q).2 * m) := by linarith
  exact_mod_cast hcast

/-- Multiples of the two powers that are close have about the same size, and the powers so have as
well. -/
theorem reach_of_close (hm : m ≤ limit) (hpos : 0 < m)
    (hgrid : (2 : ℚ) ^ q ≤ 10 ^ k + |(n : ℚ) * 10 ^ k - m * 2 ^ q|)
    (hclose : |(n : ℚ) * 10 ^ k - m * 2 ^ q| ≤ 11 / 2 ^ 55 * (m * 2 ^ q)) :
    n ≤ m ∧ order k - 25 ≤ q ∧ q ≤ order k + 1 := by
  have hm' : (m : ℚ) * 2 ^ q ≤ (2 ^ 25 - 1) * 2 ^ q := by
    have hm' : (m : ℚ) ≤ (2 ^ 25 - 1 : Nat) := by exact_mod_cast hm
    gcongr
    norm_num at hm' ⊢
    exact hm'
  have hpow : (0 : ℚ) < 2 ^ q := by positivity
  have hpos' : 0 < (m : ℚ) * 2 ^ q := by positivity
  obtain ⟨hlow, hhigh⟩ := abs_le.1 hclose
  have hten : (1 - 1 / 2 ^ 26) * (2 : ℚ) ^ q ≤ 10 ^ k := by linarith
  obtain ⟨hbelow, habove⟩ := order_bounds k
  refine ⟨?_, ?_, ?_⟩
  · -- With a greater `n` the decimal is off by nearly a unit of the midpoint.
    by_contra hless
    have hless : (m + 1 : ℚ) * 10 ^ k ≤ n * 10 ^ k := by
      gcongr
      exact_mod_cast not_le.1 hless
    have hgrow : (m + 1 : ℚ) * ((1 - 1 / 2 ^ 26) * 2 ^ q) ≤ (m + 1) * 10 ^ k := by gcongr
    linarith
  · have hn : 0 < n := by
      rcases Nat.eq_zero_or_pos n with rfl | hn
      · rw [Nat.cast_zero, zero_mul, zero_sub] at hlow
        linarith
      · exact hn
    have hle : 1 * (10 : ℚ) ^ k ≤ n * 10 ^ k := by
      gcongr
      exact_mod_cast hn
    have hlt : (2 : ℚ) ^ order k < 2 ^ (25 + q) := by
      rw [zpow_add₀ two_ne_zero]
      norm_num at *
      linarith
    have hexponents := (zpow_lt_zpow_iff_right₀ one_lt_two).1 hlt
    omega
  · have hlt : (2 : ℚ) ^ q < 2 ^ (order k + 1 + 1) := by
      rw [zpow_add_one₀ two_ne_zero]
      linarith
    exact Int.lt_add_one_iff.1 ((zpow_lt_zpow_iff_right₀ one_lt_two).1 hlt)

/-- A decimal on a grid that is not much finer than the distance to a midpoint is the midpoint, or
not close to it, or the midpoint is one of the known ones. -/
theorem eq_or_nearMiss (hk : -53 ≤ k) (hk' : k ≤ 38) (hm : m ≤ limit) (hodd : m % 2 = 1)
    (hgrid : (2 : ℚ) ^ q ≤ 10 ^ k + |(n : ℚ) * 10 ^ k - m * 2 ^ q|)
    (hclose : |(n : ℚ) * 10 ^ k - m * 2 ^ q| ≤ 11 / 2 ^ 55 * (m * 2 ^ q)) :
    (n : ℚ) * 10 ^ k = m * 2 ^ q ∨ (q, m) ∈ nearMisses := by
  obtain ⟨hn, hq, hq'⟩ := reach_of_close hm (by omega) hgrid hclose
  have hclear := clear_of_mem hk hk' hq hq'
  have hfraction := close_of_abs_le hclose
  simp only [clear, Bool.and_eq_true, Nat.beq_eq] at hclear
  obtain ⟨⟨hdecisive, hcoprime⟩, hharmless⟩ := hclear
  have hmul := mul_eq_of_close hdecisive (hn.trans hm) hm hfraction
  refine (eq_of_harmless hharmless hcoprime hmul (hn.trans hm) hm hodd hfraction).imp_left
    fun heq => ?_
  have heq' : ((powers k q).1 * n : ℚ) = (powers k q).2 * m := by exact_mod_cast heq
  have hzero := powers_scale k q n m
  rw [heq', sub_self, eq_comm, mul_eq_zero, sub_eq_zero] at hzero
  refine hzero.resolve_right (div_ne_zero ?_ (by positivity))
  exact_mod_cast (scaled_den_pos _ (power_pos k).2 _).ne'

end InferenceFleet.Midpoint
