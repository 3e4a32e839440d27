import InferenceFleet.Proofs.Binary.Rounding
import InferenceFleet.Proofs.Decimal

/-!
# Shortest decimals

A binary number is written as one of its two neighbours on a grid of decimals, the coarsest grid
with a neighbour that rounds to the number (`search_eq`). Eight grids below the one of its order of
magnitude both neighbours of a single do, so the search ends and gives a decimal that rounds to the
single, with nine digits or `1` and nine zeros at most (`exists_shortest`).
-/

namespace InferenceFleet

variable {num den n : Nat} {k : Int}

/-! ### Orders of magnitude -/

namespace Digit

theorem append_lt (n : Nat) (ds : List Digit) : append n ds < (n + 1) * 10 ^ ds.length := by
  induction ds generalizing n with
  | nil => simp [append]
  | cons d ds ih =>
    calc append n (d :: ds) < (n * 10 + d.val + 1) * 10 ^ ds.length := ih (n * 10 + d.val)
      _ ≤ (n + 1) * 10 * 10 ^ ds.length := by
        gcongr
        omega
      _ = (n + 1) * 10 ^ (d :: ds).length := by
        rw [List.length_cons, pow_succ]
        ring

theorem lt_ten_pow_length (n : Nat) : n < 10 ^ (list n).length := by
  have hlt := append_lt 0 (list n)
  rwa [show append 0 (list n) = n from value_list n, zero_add, one_mul] at hlt

theorem ten_pow_length_le {length : Nat} (hpos : 0 < n) (h : (list n).length = length + 1) :
    10 ^ length ≤ n := by
  cases length with
  | zero => exact hpos
  | succ length =>
    by_contra hless
    have hle := length_push_le (not_le.1 hless) []
    rw [← list, h, List.length_nil] at hle
    omega

end Digit

theorem decimalOrder_bounds (hden : 0 < den) (h : den ≤ num * 10 ^ 400) :
    (10 : ℚ) ^ decimalOrder num den ≤ num / den ∧
      (num : ℚ) / den < 10 ^ (decimalOrder num den + 1) := by
  have hpos : 0 < num * 10 ^ 400 / den := Nat.div_pos h hden
  obtain ⟨length, hlength⟩ := Nat.exists_eq_succ_of_ne_zero
    (List.length_pos_iff.2 (Digit.list_ne_nil (num * 10 ^ 400 / den))).ne'
  have hlow := (Digit.ten_pow_length_le hpos hlength)
  have hhigh := Digit.lt_ten_pow_length (num * 10 ^ 400 / den)
  rw [Nat.le_div_iff_mul_le hden] at hlow
  rw [hlength, Nat.div_lt_iff_lt_mul hden] at hhigh
  have hden' : (0 : ℚ) < den := by exact_mod_cast hden
  have horder : decimalOrder num den = length - 400 := by
    rw [decimalOrder, hlength]
    omega
  have hreach : (10 : ℚ) ^ (400 : ℤ) = (10 ^ 400 : ℕ) := by
    rw [zpow_ofNat, Nat.cast_pow, Nat.cast_ofNat]
  have hreach' : (0 : ℚ) < (10 ^ 400 : ℕ) := by
    rw [← hreach]
    positivity
  rw [horder, sub_add_eq_add_sub, zpow_sub₀ (by norm_num), zpow_sub₀ (by norm_num), hreach,
    div_le_div_iff₀ hreach' hden', div_lt_div_iff₀ hden' hreach']
  generalize 10 ^ 400 = reach at hlow hhigh
  exact ⟨by exact_mod_cast hlow, by exact_mod_cast hhigh⟩

/-! ### Neighbours on a grid -/

namespace Scientific
variable {i : Interval} {tries : Nat}

theorem neighbours_ne_nil (num den : Nat) (k : Int) : neighbours num den k ≠ [] := by
  simp only [neighbours]
  split <;> exact List.cons_ne_nil _ _

/-- The neighbours are less than the width of the grid away. -/
theorem abs_neighbour_sub_le (hden : 0 < den) (h : n ∈ neighbours num den k) :
    |(n : ℚ) * 10 ^ k - num / den| ≤ 10 ^ k := by
  have hten : (0 : ℚ) < 10 ^ k := by positivity
  have hpos := decimallyScaled_den_pos num hden (-k)
  have hratio := ratio_decimallyScaled num den (-k)
  set q := decimallyScaled num den (-k) with hq
  have hn : n = q.1 / q.2 ∨ n = q.1 / q.2 + 1 := by
    simp only [neighbours, ← hq] at h
    split at h <;> simp at h <;> omega
  have hpos' : (0 : ℚ) < q.2 := by exact_mod_cast hpos
  have hlow : ((q.1 / q.2 : Nat) : ℚ) ≤ ratio q := by
    rw [ratio, le_div_iff₀ hpos']
    exact_mod_cast Nat.div_mul_le_self _ _
  have hhigh : ratio q < (q.1 / q.2 : Nat) + 1 := by
    rw [ratio, div_lt_iff₀ hpos']
    exact_mod_cast Nat.lt_mul_of_div_lt (Nat.lt_succ_self _) hpos
  have hclose : |(n : ℚ) - ratio q| ≤ 1 := by
    rw [abs_le]
    rcases hn with rfl | rfl
    · constructor <;> linarith
    · push_cast
      constructor <;> linarith
  have hvalue : (num : ℚ) / den = ratio q * 10 ^ k := by
    rw [hratio, zpow_neg, inv_mul_cancel_right₀ hten.ne']
  calc |(n : ℚ) * 10 ^ k - num / den| = |(n : ℚ) - ratio q| * 10 ^ k := by
        rw [hvalue, ← sub_mul, abs_mul, abs_of_pos hten]
    _ ≤ 1 * 10 ^ k := by gcongr
    _ = 10 ^ k := one_mul _

/-- Where a neighbour on some grid is in the interval, the search ends there or before. -/
theorem search_eq {j : Nat} (hj : j < tries)
    (h : ∃ n ∈ neighbours num den (k - j), i.holds n (k - j) = true) :
    ∃ n, ∃ l ≤ j, search i num den k tries = some (ofScaled n (k - l)) ∧
      n ∈ neighbours num den (k - l) ∧ i.holds n (k - l) = true := by
  induction tries generalizing j k with
  | zero => omega
  | succ tries ih =>
    rw [search]
    cases hfind : (neighbours num den k).find? (i.holds · k) with
    | some n =>
      refine ⟨n, 0, Nat.zero_le j, ?_⟩
      rw [Nat.cast_zero, sub_zero]
      exact ⟨rfl, List.mem_of_find?_eq_some hfind, by simpa using List.find?_some hfind⟩
    | none =>
      obtain ⟨n, hn, hholds⟩ := h
      cases j with
      | zero =>
        rw [Nat.cast_zero, sub_zero] at hn hholds
        exact absurd hholds (List.find?_eq_none.1 hfind n hn)
      | succ j =>
        have hnext : k - (j + 1 : Nat) = k - 1 - j := by
          push_cast
          ring
        rw [hnext] at hn hholds
        obtain ⟨n, l, hl, hsearch, hrest⟩ := ih (by omega) ⟨n, hn, hholds⟩
        have hnext : k - (l + 1 : Nat) = k - 1 - l := by
          push_cast
          ring
        refine ⟨n, l + 1, Nat.succ_le_succ hl, ?_⟩
        rw [hnext]
        exact ⟨hsearch, hrest⟩

end Scientific

/-! ### The interval of a number -/

namespace Interval
open Binary
variable {f : Format} {m : Nat} {e : Int}

/-- The ends of an interval as rational numbers. -/
def lowEnd (i : Interval) : ℚ := ratio (i.low, i.den)

def highEnd (i : Interval) : ℚ := ratio (i.high, i.den)

theorem holds_iff {i : Interval} (hden : 0 < i.den) (n : Nat) (k : Int) :
    i.holds n k = true ↔
      if i.closed then i.lowEnd ≤ n * 10 ^ k ∧ n * 10 ^ k ≤ i.highEnd
      else i.lowEnd < n * 10 ^ k ∧ n * 10 ^ k < i.highEnd := by
  have hpos := decimallyScaled_den_pos n one_pos k
  have hdecimal : (n : ℚ) * 10 ^ k = ratio (decimallyScaled n 1 k) := by
    rw [ratio_decimallyScaled, Nat.cast_one, div_one]
  rw [hdecimal, lowEnd, highEnd, ratio_le_ratio_iff hden hpos, ratio_le_ratio_iff hpos hden,
    ratio_lt_ratio_iff hden hpos, ratio_lt_ratio_iff hpos hden, holds]
  split_ifs <;> simp

theorem around_den_pos (f : Format) (m : Nat) (e : Int) : 0 < (around f m e).den :=
  scaled_den_pos _ one_pos _

theorem closed_around (f : Format) (m : Nat) (e : Int) :
    (around f m e).closed = decide (m % 2 = 0) := rfl

theorem lowEnd_around (hm : 0 < m) (e : Int) : (around f m e).lowEnd = lowerEnd f m e := by
  have hquarter : (2 : ℚ) ^ (e - 2) = 2 ^ e / 4 := by
    rw [zpow_sub₀ two_ne_zero]
    norm_num
  have hlow : (around f m e).lowEnd = ratio (scaled (if m = 2 ^ (f.precision - 1) ∧ f.least < e then
      4 * m - 1 else 4 * m - 2) 1 (e - 2)) := rfl
  rw [hlow, ratio_scaled, hquarter, lowerEnd, Nat.cast_one, div_one]
  split_ifs
  · rw [Nat.cast_sub (by omega)]
    push_cast
    ring
  · rw [Nat.cast_sub (by omega)]
    push_cast
    ring

theorem highEnd_around (f : Format) (m : Nat) (e : Int) :
    (around f m e).highEnd = upperEnd m e := by
  have hquarter : (2 : ℚ) ^ (e - 2) = 2 ^ e / 4 := by
    rw [zpow_sub₀ two_ne_zero]
    norm_num
  have hden : (around f m e).den = (scaled (4 * m + 2) 1 (e - 2)).2 := by
    simp only [around, scaled]
    split <;> rfl
  have hhigh : (around f m e).highEnd = ratio (scaled (4 * m + 2) 1 (e - 2)) := by
    rw [highEnd, hden]
    rfl
  rw [hhigh, ratio_scaled, hquarter, upperEnd]
  push_cast
  ring

/-- The interval around a number holds the decimals that the number is nearest to. -/
theorem holds_around_iff (hm : 0 < m) (e : Int) (n : Nat) (k : Int) :
    (around f m e).holds n k = true ↔ Nearest f m e (n * 10 ^ k) := by
  rw [holds_iff (around_den_pos f m e), lowEnd_around hm, highEnd_around, closed_around, Nearest]
  simp only [decide_eq_true_eq]

end Interval

/-! ### Singles -/

namespace Binary
variable {m : Nat} {e : Int}

/-- `n · 10 ^ k` rounds to `m · 2 ^ e`, it has few digits, and it is not farther away than the next
decimal with that power. -/
structure Represents (n : Nat) (k : Int) (m : Nat) (e : Int) : Prop where
  pos : 0 < n
  le : n ≤ 10 ^ 9
  low : -53 ≤ k
  high : k ≤ 38
  close : |(n : ℚ) * 10 ^ k - m * 2 ^ e| ≤ 10 ^ k
  nearest : Nearest .single m e (n * 10 ^ k)

/-- The order of magnitude of a single. -/
theorem order_single (hm : 0 < m) (hlt : m < 2 ^ 24) (hleast : -149 ≤ e) (hgreatest : e ≤ 104)
    (hlow : (10 : ℚ) ^ k ≤ m * 2 ^ e) (hhigh : (m : ℚ) * 2 ^ e < 10 ^ (k + 1)) :
    -45 ≤ k ∧ k ≤ 38 := by
  have hone : (1 : ℚ) ≤ m := by exact_mod_cast hm
  have hlt' : (m : ℚ) < 2 ^ (24 : ℤ) := by exact_mod_cast hlt
  constructor
  · have hless : (10 : ℚ) ^ (-45 : ℤ) < 10 ^ (k + 1) := by
      calc (10 : ℚ) ^ (-45 : ℤ) < 2 ^ (-149 : ℤ) := by norm_num
        _ ≤ 2 ^ e := zpow_le_zpow_right₀ one_le_two hleast
        _ ≤ m * 2 ^ e := le_mul_of_one_le_left (by positivity) hone
        _ < 10 ^ (k + 1) := hhigh
    have hexponents := (zpow_lt_zpow_iff_right₀ (by norm_num)).1 hless
    omega
  · have hless : (10 : ℚ) ^ k < 10 ^ (39 : ℤ) := by
      calc (10 : ℚ) ^ k ≤ m * 2 ^ e := hlow
        _ < 2 ^ (24 : ℤ) * 2 ^ e := by gcongr
        _ ≤ 2 ^ (24 : ℤ) * 2 ^ (104 : ℤ) := by
          gcongr
          exact one_le_two
        _ < 10 ^ (39 : ℤ) := by norm_num
    have hexponents := (zpow_lt_zpow_iff_right₀ (by norm_num)).1 hless
    omega

theorem magnitude_reach {reach : Nat} (hm : 0 < m) (h : e.natAbs ≤ reach) :
    (magnitude m e).2 ≤ (magnitude m e).1 * 10 ^ reach := by
  rw [magnitude, scaled]
  split
  · calc 1 * 2 ^ e.natAbs ≤ 1 * 10 ^ e.natAbs :=
          Nat.mul_le_mul_left 1 (Nat.pow_le_pow_left (by decide) _)
      _ ≤ m * 10 ^ reach := Nat.mul_le_mul hm (Nat.pow_le_pow_right (by decide) h)
  · exact Nat.mul_pos (Nat.mul_pos hm (by positivity)) (by positivity)

/-- Eight digits more than the first, and the neighbours are closer than a quarter of a unit. -/
theorem exists_neighbour (hm : 0 < m) (hlt : m < 2 ^ 24) (hlow : (10 : ℚ) ^ k ≤ m * 2 ^ e) :
    ∃ n ∈ Scientific.neighbours (magnitude m e).1 (magnitude m e).2 (k - (8 : Nat)),
      (Interval.around .single m e).holds n (k - (8 : Nat)) = true := by
  have hfine : (10 : ℚ) ^ (k - (8 : Nat)) < 2 ^ e / 4 := by
    have hlt' : (m : ℚ) < 2 ^ 24 := by exact_mod_cast hlt
    have hpow : (0 : ℚ) < 2 ^ e := by positivity
    have hless : (10 : ℚ) ^ k < 2 ^ 24 * 2 ^ e := hlow.trans_lt (by gcongr)
    rw [zpow_sub₀ (by norm_num), div_lt_iff₀ (by positivity)]
    norm_num at hless ⊢
    linarith
  obtain ⟨n, hn⟩ := List.exists_mem_of_ne_nil _
    (Scientific.neighbours_ne_nil (magnitude m e).1 (magnitude m e).2 (k - (8 : Nat)))
  have hden : 0 < (magnitude m e).2 := scaled_den_pos _ one_pos _
  have hvalue : ((magnitude m e).1 : ℚ) / (magnitude m e).2 = m * 2 ^ e := magnitude_value m e
  have hclose := Scientific.abs_neighbour_sub_le hden hn
  rw [hvalue] at hclose
  exact ⟨n, hn, (Interval.holds_around_iff hm e _ _).2
    (nearest_of_abs_sub_lt (hclose.trans_lt hfine))⟩

/-- With no more than eight digits more than the first a neighbour has nine digits, or it is the
next power of ten. -/
theorem neighbour_le {l : Nat} (hl : l ≤ 8) (hhigh : (m : ℚ) * 2 ^ e < 10 ^ (k + 1))
    (hclose : |(n : ℚ) * 10 ^ (k - l) - m * 2 ^ e| ≤ 10 ^ (k - l)) : n ≤ 10 ^ 9 := by
  have hwidth : (10 : ℚ) ^ (k + 1) ≤ 10 ^ 9 * 10 ^ (k - l) := by
    rw [← zpow_natCast, ← zpow_add₀ (by norm_num)]
    exact zpow_le_zpow_right₀ (by norm_num) (by omega)
  have hless : (n : ℚ) * 10 ^ (k - l) < (10 ^ 9 + 1 : Nat) * 10 ^ (k - l) := by
    have hupper := (abs_le.1 hclose).2
    push_cast
    linarith
  have hten : (0 : ℚ) < 10 ^ (k - l) := by positivity
  exact Nat.lt_succ_iff.1 (by exact_mod_cast lt_of_mul_lt_mul_right hless hten.le)

/-- The shortest decimal of a single represents it. -/
theorem exists_shortest {negative : Bool} (hm : 0 < m)
    (h : Canonical (f := .single) (.finite negative m e)) :
    ∃ n k, Scientific.shortest .single m e = .ofScaled n k ∧ Represents n k m e := by
  obtain ⟨hlt, hleast, hgreatest, -⟩ := h
  have hreach : e.natAbs ≤ 400 := by
    have hleast' : -149 ≤ e := hleast
    have hgreatest' : e ≤ 104 := hgreatest
    omega
  set q := magnitude m e with hq
  have hden : 0 < q.2 := scaled_den_pos _ one_pos _
  have hvalue : (q.1 : ℚ) / q.2 = m * 2 ^ e := magnitude_value m e
  obtain ⟨hlow, hhigh⟩ := decimalOrder_bounds hden (magnitude_reach hm hreach)
  rw [hvalue] at hlow hhigh
  set order := decimalOrder q.1 q.2 with horder
  obtain ⟨hlow', hhigh'⟩ := order_single hm hlt hleast hgreatest hlow hhigh
  obtain ⟨n, l, hl, hsearch, hn, hholds⟩ :=
    Scientific.search_eq (by decide : 8 < 24) (exists_neighbour hm hlt hlow)
  have hshortest : Scientific.shortest .single m e = .ofScaled n (order - l) := by
    simp only [Scientific.shortest, if_neg hm.ne', ← hq, ← horder]
    exact congrArg (Option.getD · _) hsearch
  have hclose := Scientific.abs_neighbour_sub_le hden hn
  rw [hvalue] at hclose
  have hnearest := (Interval.holds_around_iff hm e _ _).1 hholds
  have hpos := (lowerEnd_pos hm e).trans_le hnearest.bounds.1
  have hten : (0 : ℚ) < 10 ^ (order - l) := by positivity
  exact ⟨n, order - l, hshortest, by exact_mod_cast pos_of_mul_pos_left hpos hten.le,
    neighbour_le hl hhigh hclose, by omega, by omega, hclose, hnearest⟩

end Binary

end InferenceFleet
