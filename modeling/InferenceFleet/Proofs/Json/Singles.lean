import InferenceFleet.Proofs.Binary.Midpoints
import InferenceFleet.Proofs.Except
import InferenceFleet.Proofs.Json.ReadWrite
import InferenceFleet.Proofs.Json.Scaling
import InferenceFleet.Proofs.Json.Spelling

/-!
# Singles come back from their numerals

A single is written as its shortest decimal, which is then read as a double, not always the nearest
one, and rounded to a single. It is the same single again (`readReal_shortest`): the decimal is
either so far from the midpoints beside the single that the error of the double does not matter, or
it is a midpoint and the double is exact, or it is close to one of five known ones. So a single
loses nothing in writing (`writable_single`).
-/

namespace InferenceFleet

namespace Json.Numeral
open Binary

/-! ### Exact powers -/

variable {n m : Nat} {p q : Int}

theorem five_pow_le {a b j : Nat} (hm : 0 < m) (h : n * 10 ^ j * 2 ^ a = m * 2 ^ b) :
    5 ^ j ≤ m := by
  have hdvd : 5 ^ j ∣ m * 2 ^ b := by
    rw [← h, show 10 = 5 * 2 from rfl, Nat.mul_pow]
    exact ⟨n * 2 ^ j * 2 ^ a, by ring⟩
  have hcoprime : Nat.Coprime (5 ^ j) (2 ^ b) := Nat.Coprime.pow j b (by decide)
  exact Nat.le_of_dvd hm (hcoprime.dvd_of_dvd_mul_right hdvd)

theorem le_of_five_pow_le {j : Nat} (h : 5 ^ j ≤ 10 ^ 14) : j ≤ 20 := by
  by_contra hless
  have hle : 5 ^ 21 ≤ 5 ^ j := Nat.pow_le_pow_right (by decide) (by omega)
  have hlt : 10 ^ 14 < 5 ^ 21 := by norm_num
  omega

/-- A decimal that is a binary number has a small power of ten. -/
theorem natAbs_power_le (hn : 0 < n) (hn' : n < 10 ^ 14) (hm : 0 < m) (hm' : m < 10 ^ 14)
    (h : (n : ℚ) * 10 ^ p = m * 2 ^ q) : p.natAbs ≤ 20 := by
  obtain ⟨a, b, hq⟩ : ∃ a b : Nat, (2 : ℚ) ^ q * 2 ^ a = 2 ^ b := by
    refine ⟨(-q).toNat, q.toNat, ?_⟩
    rw [← zpow_natCast, ← zpow_natCast, ← zpow_add₀ two_ne_zero]
    congr 1
    omega
  obtain ⟨j, rfl | rfl⟩ := p.eq_nat_or_neg
  · refine (Int.natAbs_natCast j).trans_le (le_of_five_pow_le ?_)
    rw [zpow_natCast] at h
    have heq : (n : ℚ) * 10 ^ j * 2 ^ a = m * 2 ^ b := by rw [h, mul_assoc, hq]
    exact (five_pow_le hm (by exact_mod_cast heq)).trans hm'.le
  · refine ((Int.natAbs_neg j).trans (Int.natAbs_natCast j)).trans_le (le_of_five_pow_le ?_)
    rw [zpow_neg, zpow_natCast, ← div_eq_mul_inv, div_eq_iff (by positivity)] at h
    have heq : (m : ℚ) * 10 ^ j * 2 ^ b = n * 2 ^ a := by
      rw [h, ← hq]
      ring
    exact (five_pow_le hn (by exact_mod_cast heq)).trans hn'.le

end Json.Numeral

namespace Binary
open Midpoint

variable {m n : Nat} {e k q : Int}

/-! ### The ends of the interval of a single -/

/-- `odd · 2 ^ q` is a midpoint beside `m · 2 ^ e`. -/
inductive IsEnd (m : Nat) (e : Int) : Nat → Int → Prop where
  | upper {odd : Nat} : odd = 2 * m + 1 → IsEnd m e odd (e - 1)
  | lower {odd : Nat} : odd + 1 = 2 * m → IsEnd m e odd (e - 1)
  | belowPower {odd : Nat} : odd + 1 = 4 * m → m = 2 ^ 23 → IsEnd m e odd (e - 2)

theorem two_zpow_sub_one (e : Int) : (2 : ℚ) ^ e = 2 * 2 ^ (e - 1) := by
  rw [← zpow_one_add₀ two_ne_zero, add_sub_cancel]

theorem two_zpow_sub_two (e : Int) : (2 : ℚ) ^ e = 4 * 2 ^ (e - 2) := by
  have hsplit := zpow_add₀ (two_ne_zero (α := ℚ)) 2 (e - 2)
  rw [add_sub_cancel] at hsplit
  rw [hsplit]
  norm_num

theorem exists_upperEnd (m : Nat) (e : Int) :
    ∃ odd q, IsEnd m e odd q ∧ upperEnd m e = odd * 2 ^ q := by
  refine ⟨2 * m + 1, e - 1, .upper rfl, ?_⟩
  rw [upperEnd, two_zpow_sub_one]
  push_cast
  ring

theorem exists_lowerEnd (hm : 0 < m) (e : Int) :
    ∃ odd q, IsEnd m e odd q ∧ lowerEnd .single m e = odd * 2 ^ q := by
  rw [lowerEnd]
  split_ifs with h
  · refine ⟨4 * m - 1, e - 2, .belowPower (by omega) h.1, ?_⟩
    rw [two_zpow_sub_two, Nat.cast_sub (by omega)]
    push_cast
    ring
  · refine ⟨2 * m - 1, e - 1, .lower (by omega), ?_⟩
    rw [two_zpow_sub_one, Nat.cast_sub (by omega)]
    push_cast
    ring

theorem IsEnd.bounds {odd : Nat} (h : IsEnd m e odd q) (hlt : m < 2 ^ 24) :
    odd ≤ limit ∧ odd % 2 = 1 ∧ e - 2 ≤ q := by
  have hlimit : limit = 2 ^ 25 - 1 := rfl
  cases h <;> omega

/-- The number is as far away as the unit of the midpoint. -/
theorem IsEnd.abs_sub {odd : Nat} (h : IsEnd m e odd q) :
    |(odd : ℚ) * 2 ^ q - m * 2 ^ e| = 2 ^ q := by
  have hpow : (0 : ℚ) < 2 ^ q := by positivity
  cases h with
  | upper hodd =>
    have hdiff : (odd : ℚ) * 2 ^ (e - 1) - m * 2 ^ e = 2 ^ (e - 1) := by
      rw [two_zpow_sub_one e, hodd]
      push_cast
      ring
    rw [hdiff, abs_of_pos hpow]
  | lower hodd =>
    have hcast : (odd : ℚ) + 1 = 2 * m := by exact_mod_cast hodd
    have hdiff : (odd : ℚ) * 2 ^ (e - 1) - m * 2 ^ e = -2 ^ (e - 1) := by
      rw [two_zpow_sub_one e, eq_sub_of_add_eq hcast]
      ring
    rw [hdiff, abs_neg, abs_of_pos hpow]
  | belowPower hodd =>
    have hcast : (odd : ℚ) + 1 = 4 * m := by exact_mod_cast hodd
    have hdiff : (odd : ℚ) * 2 ^ (e - 2) - m * 2 ^ e = -2 ^ (e - 2) := by
      rw [two_zpow_sub_two e, eq_sub_of_add_eq hcast]
      ring
    rw [hdiff, abs_neg, abs_of_pos hpow]

/-- The singles beside the midpoints that a decimal is close to. -/
def exceptional : List (Nat × Int) :=
  nearMisses.flatMap fun p => [(p.2 / 2, p.1 + 1), (p.2 / 2 + 1, p.1 + 1)]

theorem IsEnd.mem_exceptional {odd : Nat} (h : IsEnd m e odd q) (hmem : (q, odd) ∈ nearMisses) :
    (m, e) ∈ exceptional := by
  refine List.mem_flatMap.2 ⟨(q, odd), hmem, ?_⟩
  rw [List.mem_cons, List.mem_singleton, Prod.mk.injEq, Prod.mk.injEq]
  cases h with
  | upper hodd => exact .inl ⟨by omega, by omega⟩
  | lower hodd => exact .inr ⟨by omega, by omega⟩
  | belowPower hodd hm =>
    have hother : ∀ p ∈ nearMisses, p.2 + 1 ≠ 2 ^ 25 := by decide
    exact absurd (by omega) (hother _ hmem)

/-- A decimal that represents a single is not close to the midpoints beside it, or it is one of
them, or the single is one of the exceptional ones. -/
theorem Represents.far_or_eq {odd : Nat} (h : Represents n k m e) (hlt : m < 2 ^ 24)
    (hend : IsEnd m e odd q) :
    11 / 2 ^ 55 * (odd * 2 ^ q) < |(n : ℚ) * 10 ^ k - odd * 2 ^ q| ∨
      (n : ℚ) * 10 ^ k = odd * 2 ^ q ∨ (m, e) ∈ exceptional := by
  obtain ⟨hlimit, hodd, -⟩ := hend.bounds hlt
  rcases lt_or_ge (11 / 2 ^ 55 * ((odd : ℚ) * 2 ^ q)) |(n : ℚ) * 10 ^ k - odd * 2 ^ q| with
    hfar | hclose
  · exact .inl hfar
  · right
    have hgrid : (2 : ℚ) ^ q ≤ 10 ^ k + |(n : ℚ) * 10 ^ k - odd * 2 ^ q| := by
      calc (2 : ℚ) ^ q = |(odd : ℚ) * 2 ^ q - m * 2 ^ e| := hend.abs_sub.symm
        _ ≤ |(odd : ℚ) * 2 ^ q - n * 10 ^ k| + |(n : ℚ) * 10 ^ k - m * 2 ^ e| := abs_sub_le _ _ _
        _ ≤ 10 ^ k + |(n : ℚ) * 10 ^ k - odd * 2 ^ q| := by
          rw [abs_sub_comm, add_comm]
          exact add_le_add_left h.close _
    exact (eq_or_nearMiss h.low h.high hlimit hodd hgrid hclose).imp_right hend.mem_exceptional

/-! ### Rounding what is near -/

/-- What is near a decimal that is far from the midpoints rounds to the same single. -/
theorem nearest_of_far {v w : ℚ} (hm : 0 < m) (h : Nearest .single m e v)
    (hlower : 11 / 2 ^ 55 * lowerEnd .single m e < |v - lowerEnd .single m e|)
    (hupper : 11 / 2 ^ 55 * upperEnd m e < |v - upperEnd m e|)
    (hw : |w - v| ≤ 5 / 2 * unit * v) : Nearest .single m e w := by
  obtain ⟨hlow, hhigh⟩ := h.bounds
  have hpos := lowerEnd_pos (f := .single) hm e
  rw [abs_of_nonneg (sub_nonneg.2 hlow)] at hlower
  rw [abs_of_nonpos (sub_nonpos.2 hhigh)] at hupper
  rw [unit] at hw
  obtain ⟨hw, hw'⟩ := abs_le.1 hw
  have hless : lowerEnd .single m e < w := by
    rcases le_total (10 * v) (11 * lowerEnd .single m e) with hv | hv <;> linarith
  have hless' : w < upperEnd m e := by linarith
  rw [Nearest]
  split_ifs
  · exact ⟨hless.le, hless'.le⟩
  · exact ⟨hless, hless'⟩

theorem convert_of_nearest {negative : Bool} {m' : Nat} {e' : Int} (hm : 0 < m)
    (hcanonical : Canonical (f := .single) (.finite negative m e))
    (h : Nearest .single m e (m' * 2 ^ e')) :
    (Binary.finite (f := .double) negative m' e').convert .single = .finite negative m e := by
  have hden : 0 < (magnitude m' e').2 := scaled_den_pos _ one_pos _
  show round .single negative (magnitude m' e').1 (magnitude m' e').2 = _
  refine round_of_nearest Format.proper_single hden negative hm hcanonical ?_
  have hvalue := magnitude_value m' e'
  rw [ratio] at hvalue
  rwa [hvalue]

end Binary

/-! ### Reading the numeral -/

namespace Json
open Binary Numeral

variable {m n : Nat} {e k : Int} {negative : Bool}

theorem Numeral.Spells.integer? {z : Numeral} {v : ℚ} (h : z.Spells negative v) :
    z.integer? = none := by
  rw [Numeral.integer?]
  split
  · rename_i hfraction hexponent _
    rcases h.marked with hmarked | hmarked
    · exact absurd hfraction hmarked
    · exact absurd hexponent hmarked
  · rfl

theorem readReal_of_scale {z : Numeral} {v : ℚ} (h : z.Spells negative v) {m' : Nat} {e' : Int}
    (hscale : scale (.ofInt .double z.significand) z.power = some (.finite false m' e')) :
    Doc.readReal .f32 (.number z) =
      .ok ((Binary.finite (f := .double) negative m' e').convert .single) := by
  have hlt := h.lt
  have hreal : z.real? = some (.finite negative m' e') := by
    rw [real?_eq (hlt.trans (by decide)) h.exponent, hscale, h.sign]
    cases negative <;> rfl
  have hquantity : z.quantity = .ok (.real (.finite negative m' e')) := by
    rw [Numeral.quantity, quantity?, h.integer?, hreal]
    rfl
  simp only [Doc.readReal, hquantity, bind, Except.bind]

/-- A decimal that represents a single is read as that single, unless it is an exceptional one. -/
theorem readReal_spell (hm : 0 < m)
    (hcanonical : Canonical (f := .single) (.finite negative m e)) (h : Represents n k m e)
    (hother : (m, e) ∉ exceptional) :
    Doc.readReal .f32 (.number (Layout.single.spell negative (.ofScaled n k))) =
      .ok (.finite negative m e) := by
  have hspells := Layout.spells_single h.pos h.le h.low h.high negative
  generalize Layout.single.spell negative (.ofScaled n k) = z at hspells ⊢
  have hlt : m < 2 ^ 24 := hcanonical.1
  have hsmall : z.significand < 2 ^ 53 := hspells.lt.trans (by decide)
  have hreach : z.power.natAbs ≤ powerLimit := hspells.reach.trans (by decide)
  have hpos := hspells.pos
  -- An exact double rounds like the decimal itself.
  have hexact {odd : Nat} {q : Int} (hend : IsEnd m e odd q)
      (heq : (n : ℚ) * 10 ^ k = odd * 2 ^ q) :
      Doc.readReal .f32 (.number z) = .ok (.finite negative m e) := by
    obtain ⟨hlimit, hodd, hq⟩ := hend.bounds hlt
    have hlimit' : odd < 2 ^ 25 := Nat.lt_of_le_pred (by decide) hlimit
    have hvalue := hspells.value.trans heq
    have hpower : z.power.natAbs ≤ 22 :=
      (natAbs_power_le hpos hspells.lt (by omega) (by omega) hvalue).trans (by decide)
    have hleast : -149 ≤ e := hcanonical.2.1
    obtain ⟨y, hscale, m', e', rfl, hy⟩ :=
      exact_scale hpos hsmall hpower (by omega) (by omega) (by omega) hvalue
    rw [readReal_of_scale hspells hscale, convert_of_nearest hm hcanonical]
    rw [hy, hspells.value]
    exact h.nearest
  obtain ⟨odd, q, hupper, hupperEnd⟩ := exists_upperEnd m e
  obtain ⟨odd', q', hlower, hlowerEnd⟩ := exists_lowerEnd hm e
  rcases h.far_or_eq hlt hupper with hfar | heq | hmem
  · rcases h.far_or_eq hlt hlower with hfar' | heq | hmem
    · obtain ⟨y, hscale, m', e', rfl, hy⟩ := near_scale hpos hsmall hreach
      rw [readReal_of_scale hspells hscale, convert_of_nearest hm hcanonical]
      rw [hspells.value] at hy
      rw [← hupperEnd] at hfar
      rw [← hlowerEnd] at hfar'
      exact nearest_of_far hm h.nearest hfar' hfar hy
    · exact hexact hlower heq
    · exact absurd hmem hother
  · exact hexact hupper heq
  · exact absurd hmem hother

theorem readReal_exceptional : ∀ p ∈ exceptional, ∀ negative : Bool,
    (Doc.readReal .f32 (.number (Layout.single.spell negative
      (.shortest .single p.1 p.2)))).toOption = some (.finite negative p.1 p.2) := by
  decide +kernel

theorem readReal_zero : ∀ negative : Bool,
    (Doc.readReal .f32 (.number (Layout.single.spell negative
      (.shortest .single 0 (-149))))).toOption = some (.finite negative 0 (-149)) := by
  decide +kernel

/-- A finite single is read back from its numeral. -/
theorem readReal_shortest (hcanonical : Canonical (f := .single) (.finite negative m e)) :
    (Layout.single.spell negative (.shortest .single m e)).Proper ∧
      Doc.readReal .f32 (.number (Layout.single.spell negative (.shortest .single m e))) =
        .ok (.finite negative m e) := by
  rcases Nat.eq_zero_or_pos m with rfl | hm
  · obtain rfl : e = -149 := hcanonical.2.2.2.resolve_right (by decide)
    exact ⟨⟨.inl rfl, nofun, nofun⟩, of_toOption (readReal_zero negative)⟩
  · obtain ⟨n, k, hshortest, h⟩ := exists_shortest hm hcanonical
    have hproper := (Layout.spells_single h.pos h.le h.low h.high negative).proper
    rw [← hshortest] at hproper
    refine ⟨hproper, ?_⟩
    by_cases hmem : (m, e) ∈ exceptional
    · exact of_toOption (readReal_exceptional _ hmem negative)
    · rw [hshortest]
      exact readReal_spell hm hcanonical h hmem

/-- A finite single loses nothing in writing. -/
theorem Shape.writable_single {x : Single} (hcanonical : x.Canonical)
    (hfinite : x.isInfinite = false) : (Shape.real .f32).Writable x := by
  rw [Shape.Writable]
  cases x with
  | infinite negative => cases hfinite
  | finite negative m e =>
    obtain ⟨hproper, hread⟩ := readReal_shortest hcanonical
    exact ⟨_, rfl, hproper, hread⟩

theorem Shape.plain_single {x : Single} (hcanonical : x.Canonical) :
    ((Shape.real .f32).toDoc x).Plain := by
  cases x with
  | infinite negative => exact .null
  | finite negative m e => exact .number (readReal_shortest hcanonical).1

end Json

end InferenceFleet
