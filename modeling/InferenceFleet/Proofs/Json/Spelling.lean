import InferenceFleet.Proofs.Binary.Shortest
import InferenceFleet.Proofs.Json.Integer

/-!
# Decimals as numerals

A numeral is read as a significand, all its digits, and a power of ten (`real?_eq`). A decimal that
is spelled, with a point or an exponent, is read as a significand and a power of the same value
(`spells_single`).
-/

namespace InferenceFleet

/-! ### Digits in a row -/

namespace Digit

theorem append_replicate (n count : Nat) : append n (List.replicate count 0) = n * 10 ^ count := by
  induction count generalizing n with
  | zero => simp [append]
  | succ count ih =>
    have hstep : append n (List.replicate (count + 1) 0) =
        append (n * 10) (List.replicate count 0) := rfl
    rw [hstep, ih, pow_succ]
    ring

theorem value_append_zeros (ds : List Digit) (count : Nat) :
    value (ds ++ List.replicate count 0) = value ds * 10 ^ count := by
  rw [value, append_append, append_replicate]
  rfl

theorem value_zeros_append (count : Nat) (ds : List Digit) :
    value (List.replicate count 0 ++ ds) = value ds := by
  rw [value, append_append, append_zeros]
  rfl

theorem value_lt (ds : List Digit) : value ds < 10 ^ ds.length := by
  have hlt := append_lt 0 ds
  rwa [zero_add, one_mul] at hlt

end Digit

/-- A list ends in some zeros behind digits the last of which is none. -/
theorem Digit.exists_zeros_behind (ds : List Digit) :
    ∃ zeros, ds = (ds.reverse.dropWhile (· == 0)).reverse ++ List.replicate zeros 0 := by
  have hzeros : (ds.reverse.takeWhile (· == 0)).reverse =
      List.replicate (ds.reverse.takeWhile (· == 0)).length 0 := by
    refine List.eq_replicate_iff.2 ⟨List.length_reverse, fun d hd => ?_⟩
    exact eq_of_beq (List.all_eq_true.1 List.all_takeWhile d (List.mem_reverse.1 hd))
  refine ⟨(ds.reverse.takeWhile (· == 0)).length, ?_⟩
  rw [← hzeros, ← List.reverse_append, List.takeWhile_append_dropWhile, List.reverse_reverse]

open Digit in
/-- The digits of a decimal are those of its significand without the zeros at the end. -/
theorem Scientific.exists_ofScaled {n : Nat} (hn : 0 < n) (k : Int) :
    ∃ (d : Digit) (es : List Digit) (zeros : Nat),
      ofScaled n k = { digits := d :: es, exponent := k + zeros + es.length } ∧
      d ≠ 0 ∧ value (d :: es) * 10 ^ zeros = n ∧ es.length + 1 + zeros = (list n).length := by
  obtain ⟨d, rest, hlist, hd⟩ := push_of_pos hn []
  change list n = d :: rest at hlist
  obtain ⟨zeros, hsplit⟩ := exists_zeros_behind (list n)
  set kept := ((list n).reverse.dropWhile (· == 0)).reverse with hkept
  rcases hcons : kept with _ | ⟨c, es⟩
  · -- All digits would be zeros, but the first one is none.
    rw [hcons, List.nil_append] at hsplit
    have hmem : d ∈ list n := hlist ▸ List.mem_cons_self
    rw [hsplit] at hmem
    exact absurd (List.eq_of_mem_replicate hmem) hd
  · rw [hcons] at hsplit
    have hlength := congrArg List.length hsplit
    rw [List.length_append, List.length_replicate, List.length_cons] at hlength
    refine ⟨c, es, zeros, ?_, ?_, ?_, by omega⟩
    · rw [ofScaled, Scientific.mk.injEq]
      exact ⟨hkept.symm.trans hcons, by omega⟩
    · obtain rfl : d = c := (List.cons.inj (hlist.symm.trans hsplit)).1
      exact hd
    · rw [← value_append_zeros, ← hsplit, value_list]

namespace Json.Numeral
variable {z : Numeral}

/-! ### Reading a numeral -/

def allDigits (z : Numeral) : List Digit := z.whole ++ z.fraction.getD []

def significand (z : Numeral) : Nat := Digit.value z.allDigits

/-- The number in the exponent. -/
def shift (z : Numeral) : Int :=
  match z.exponent with
  | none => 0
  | some (.minus, ds) => -(Digit.value ds : Int)
  | some (_, ds) => Digit.value ds

def power (z : Numeral) : Int := z.shift - (z.fraction.getD []).length

theorem takeFraction_eq {s : Nat} (taken : Nat) {ds : List Digit}
    (h : Digit.append s ds < wordLimit) :
    takeFraction s taken ds = (Digit.append s ds, taken + ds.length) := by
  induction ds generalizing s taken with
  | nil => rfl
  | cons d ds ih =>
    have hrest : Digit.append (s * 10 + d.val) ds < wordLimit := h
    have hle := Digit.le_append (s * 10 + d.val) ds
    rw [takeFraction, if_pos (by omega), ih (taken + 1) hrest, List.length_cons, Nat.add_right_comm]
    rfl

theorem boundedExponent_eq {n : Nat} {ds : List Digit} (h : Digit.append n ds < exponentLimit) :
    boundedExponent n ds = some (Digit.append n ds) := by
  induction ds generalizing n with
  | nil => rfl
  | cons d ds ih =>
    have hrest : Digit.append (n * 10 + d.val) ds < exponentLimit := h
    have hle := Digit.le_append (n * 10 + d.val) ds
    rw [boundedExponent, if_pos (by omega), ih hrest]
    rfl

/-- Where no digit is left over, a numeral is its significand scaled by its power. -/
theorem real?_eq (hword : z.significand < wordLimit)
    (hexponent : ∀ sign ds, z.exponent = some (sign, ds) → Digit.value ds < exponentLimit) :
    z.real? = (scale (.ofInt .double z.significand) z.power).map fun x =>
      if z.negative then x.negate else x := by
  have hvalue : z.significand = Digit.append (Digit.append 0 z.whole) (z.fraction.getD []) := by
    rw [significand, allDigits, Digit.value, Digit.append_append]
  have hwhole : Digit.append 0 z.whole < wordLimit := by
    have := Digit.le_append (Digit.append 0 z.whole) (z.fraction.getD [])
    omega
  have htake := take_eq hwhole
  have hfraction := takeFraction_eq 0 (hvalue ▸ hword)
  rw [← hvalue] at hfraction
  simp only [real?, htake, hfraction, Nat.zero_add, Nat.cast_zero, zero_sub]
  rcases hz : z.exponent with _ | ⟨sign, ds⟩
  · simp only [power, shift, hz, zero_sub]
  · have hbounded : boundedExponent 0 ds = some (Digit.value ds) :=
      boundedExponent_eq (hexponent sign ds hz)
    have hpower : z.power = if sign = .minus then -((z.fraction.getD []).length : Int) -
        Digit.value ds else -((z.fraction.getD []).length : Int) + Digit.value ds := by
      simp only [power, shift, hz]
      cases sign <;> simp <;> omega
    simp only [hbounded, hpower]

/-- A numeral with a point or an exponent that is read as the decimal `v` by scaling a significand
of a few digits. -/
structure Spells (z : Numeral) (negative : Bool) (v : ℚ) : Prop where
  proper : z.Proper
  marked : z.fraction ≠ none ∨ z.exponent ≠ none
  sign : z.negative = negative
  pos : 0 < z.significand
  lt : z.significand < 10 ^ 14
  reach : z.power.natAbs ≤ 53
  exponent : ∀ sign ds, z.exponent = some (sign, ds) → Digit.value ds < exponentLimit
  value : (z.significand : ℚ) * 10 ^ z.power = v

theorem Spells.of_eq {negative : Bool} {s : Nat} {p : Int} (hproper : z.Proper)
    (hmarked : z.fraction ≠ none ∨ z.exponent ≠ none) (hsign : z.negative = negative)
    (hs : z.significand = s) (hp : z.power = p) (hpos : 0 < s) (hlt : s < 10 ^ 14)
    (hreach : p.natAbs ≤ 53)
    (hexponent : ∀ sign ds, z.exponent = some (sign, ds) → Digit.value ds < exponentLimit) :
    Spells z negative (s * 10 ^ p) := by
  subst hs hp
  exact ⟨hproper, hmarked, hsign, hpos, hlt, hreach, hexponent, rfl⟩

end Json.Numeral

/-! ### Spelling a decimal -/

namespace Json.Layout
open Numeral Digit

variable {d : Digit} {es : List Digit} {exponent : Int}

theorem value_pos (hd : d ≠ 0) (es : List Digit) : 0 < value (d :: es) := by
  have hle : 0 * 10 + d.val ≤ value (d :: es) := le_append (0 * 10 + d.val) es
  have hpos : d.val ≠ 0 := fun h => hd (Fin.ext h)
  omega

section
variable (hd : d ≠ 0) (hes : es.length ≤ 9) (negative : Bool)
include hd hes

theorem value_bounds : 0 < value (d :: es) ∧ value (d :: es) < 10 ^ 10 := by
  refine ⟨value_pos hd es, (value_lt _).trans_le ?_⟩
  rw [List.length_cons]
  exact Nat.pow_le_pow_right (by decide) (by omega)

/-- Below one, with zeros behind the point. -/
theorem spells_below_one (hlow : -6 ≤ exponent) (hhigh : exponent < 0) :
    Spells (single.spell negative { digits := d :: es, exponent }) negative
      (value (d :: es) * 10 ^ (exponent - es.length)) := by
  obtain ⟨hpos, hlt⟩ := value_bounds hd hes
  have hspell : single.spell negative { digits := d :: es, exponent } =
      { negative, whole := [0],
        fraction := some (List.replicate (exponent.natAbs - 1) 0 ++ d :: es) } := by
    rw [spell, if_pos (by simp only [single]; omega), if_pos hhigh]
  rw [hspell]
  refine .of_eq ⟨.inl rfl, ?_, nofun⟩ (.inl nofun) rfl ?_ ?_ hpos (by omega) (by omega) nofun
  · simp
  · exact value_zeros_append (exponent.natAbs - 1 + 1) (d :: es)
  · simp [power, shift]
    omega

omit hd hes in
theorem spell_from_one {e : Nat} (he : e ≤ 12) :
    single.spell negative { digits := d :: es, exponent := (e : Int) } =
      { negative
        whole := (d :: es).take (e + 1) ++
          List.replicate (e + 1 - ((d :: es).take (e + 1)).length) 0
        fraction := some (if ((d :: es).drop (e + 1)).isEmpty then [0]
          else (d :: es).drop (e + 1)) } := by
  have hsign : ¬ (e : Int) < 0 := by omega
  rw [spell, if_pos (by simp only [single]; omega), if_neg hsign]
  rfl

/-- From one upwards with few digits, then zeros in front of the point and one behind it. -/
theorem spells_integer {e : Nat} (he : e ≤ 12) (hfew : es.length ≤ e) :
    Spells (single.spell negative { digits := d :: es, exponent := (e : Int) }) negative
      (value (d :: es) * 10 ^ ((e : Int) - es.length)) := by
  have hpos := (value_bounds hd hes).1
  have hdrop : (d :: es).drop (e + 1) = [] := List.drop_eq_nil_of_le (by simp; omega)
  have htake : (d :: es).take (e + 1) = d :: es := List.take_of_length_le (by simp; omega)
  have hvalue : ((value (d :: es) * 10 ^ (e - es.length + 1) : Nat) : ℚ) * 10 ^ (-1 : Int) =
      value (d :: es) * 10 ^ ((e : Int) - es.length) := by
    have hexponent : (e : Int) - es.length = (e - es.length + 1 : Nat) + -1 := by omega
    rw [hexponent, zpow_add₀ (by norm_num), zpow_natCast]
    push_cast
    ring
  rw [spell_from_one negative he, hdrop, htake, ← hvalue]
  refine .of_eq ⟨.inr ⟨d, _, rfl, hd⟩, ?_, nofun⟩ (.inl nofun) rfl ?_ ?_ (by positivity) ?_
    (by decide) nofun
  · simp
  · have hzeros : d :: es ++ List.replicate (e + 1 - (d :: es).length) 0 ++ [0] =
        d :: es ++ List.replicate (e - es.length + 1) (0 : Digit) := by
      rw [List.append_assoc, ← List.replicate_succ', List.length_cons, Nat.add_sub_add_right]
    rw [← value_append_zeros, ← hzeros]
    rfl
  · simp [power, shift]
  · calc value (d :: es) * 10 ^ (e - es.length + 1)
        < 10 ^ (es.length + 1) * 10 ^ (e - es.length + 1) := by
          gcongr
          exact value_lt (d :: es)
      _ = 10 ^ (e + 2) := by
          rw [← pow_add]
          congr 1
          omega
      _ ≤ 10 ^ 14 := Nat.pow_le_pow_right (by decide) (by omega)

/-- From one upwards, with digits on both sides of the point. -/
theorem spells_from_one {e : Nat} (he : e ≤ 12) (hmany : e < es.length) :
    Spells (single.spell negative { digits := d :: es, exponent := (e : Int) }) negative
      (value (d :: es) * 10 ^ ((e : Int) - es.length)) := by
  obtain ⟨hpos, hlt⟩ := value_bounds hd hes
  have hdrop : ((d :: es).drop (e + 1)).isEmpty = false := by
    rw [List.isEmpty_eq_false_iff, ← List.length_pos_iff, List.length_drop, List.length_cons]
    omega
  have hfull : e + 1 - ((d :: es).take (e + 1)).length = 0 := by
    rw [List.length_take, List.length_cons]
    omega
  rw [spell_from_one negative he, hdrop, hfull, List.replicate_zero, List.append_nil,
    if_neg Bool.false_ne_true]
  refine .of_eq ⟨.inr ⟨d, _, List.take_succ_cons, hd⟩, ?_, nofun⟩ (.inl nofun) rfl ?_ ?_ hpos
    (by omega) (by omega) nofun
  · intro hnil
    rw [Option.some.inj hnil] at hdrop
    cases hdrop
  · exact congrArg value (List.take_append_drop (e + 1) (d :: es))
  · simp [power, shift]
    omega

/-- Far from one, with an exponent. -/
theorem spells_far (hrange : ¬ (-6 ≤ exponent ∧ exponent ≤ 12))
    (hreach : (exponent - es.length).natAbs ≤ 53) :
    Spells (single.spell negative { digits := d :: es, exponent }) negative
      (value (d :: es) * 10 ^ (exponent - es.length)) := by
  obtain ⟨hpos, hlt⟩ := value_bounds hd hes
  have hspell : single.spell negative { digits := d :: es, exponent } =
      { negative, whole := [d], fraction := if es.isEmpty then none else some es,
        exponent := some (if exponent < 0 then .minus else .plus, list exponent.natAbs) } := by
    rw [spell, if_neg (by exact hrange)]
    rfl
  have hfraction : ((if es.isEmpty then none else some es : Option (List Digit)).getD []) = es := by
    cases es <;> rfl
  rw [hspell]
  refine .of_eq ⟨.inr ⟨d, [], rfl, hd⟩, ?_, fun sign hnil => ?_⟩ (.inr nofun) rfl ?_ ?_ hpos
    (by omega) hreach fun sign ds hds => ?_
  · cases es <;> simp
  · exact list_ne_nil _ (congrArg Prod.snd (Option.some.inj hnil))
  · simp only [significand, allDigits, hfraction]
    rfl
  · rw [power]
    simp only [shift, hfraction]
    split_ifs with hsign
    · simp only [value_list]
      omega
    · simp only [value_list]
      omega
  · obtain rfl : list exponent.natAbs = ds := congrArg Prod.snd (Option.some.inj hds)
    rw [value_list, exponentLimit]
    omega

end

/-- A decimal with few digits is read as itself. -/
theorem spells_single {n : Nat} {k : Int} (hn : 0 < n) (hn' : n ≤ 10 ^ 9) (hk : -53 ≤ k)
    (hk' : k ≤ 38) (negative : Bool) :
    Spells (single.spell negative (.ofScaled n k)) negative (n * 10 ^ k) := by
  obtain ⟨d, es, zeros, hscaled, hd, hvalue, hlength⟩ := Scientific.exists_ofScaled hn k
  have hten : (list n).length ≤ 10 := @length_push_le n 9 (by omega) []
  have hes : es.length ≤ 9 := by omega
  have hpower : k + zeros + es.length - es.length = k + zeros := by omega
  have hdecimal : (value (d :: es) : ℚ) * 10 ^ (k + zeros + es.length - es.length) =
      n * 10 ^ k := by
    rw [hpower, add_comm, zpow_add₀ (by norm_num), zpow_natCast, ← mul_assoc, ← hvalue]
    push_cast
    rfl
  rw [hscaled, ← hdecimal]
  by_cases hrange : -6 ≤ k + zeros + es.length ∧ k + zeros + es.length ≤ 12
  · rcases Int.lt_or_le (k + zeros + es.length) 0 with hsign | hsign
    · exact spells_below_one hd hes negative hrange.1 hsign
    · obtain ⟨e, he⟩ := Int.eq_ofNat_of_zero_le hsign
      rw [he] at hrange ⊢
      rcases Nat.lt_or_ge e es.length with hmany | hfew
      · exact spells_from_one hd hes negative (by omega) hmany
      · exact spells_integer hd hes negative (by omega) hfew
  · exact spells_far hd hes negative hrange (by omega)

end Json.Layout

end InferenceFleet
