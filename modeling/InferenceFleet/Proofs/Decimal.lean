import InferenceFleet.Decimal
import InferenceFleet.Text.Blank

/-!
# Digits of numbers

The digits of a number have no zero in front unless they are the only one (`list_value_eq_iff`), and
those that are padded with zeros have the same value (`value_padded`).
-/

namespace InferenceFleet

namespace Digit
variable {ds : List Digit}

/-! ### Characters -/

theorem toChar_injective : Function.Injective toChar := by
  intro d e h
  have hsome := ofChar?_toChar d
  rw [h, ofChar?_toChar] at hsome
  exact (Option.some.inj hsome).symm

theorem isDigit_toChar (d : Digit) : d.toChar.isDigit = true := by
  revert d
  decide

theorem isBlank_toChar (d : Digit) : isBlank d.toChar = false := by
  revert d
  decide

theorem toChar_ne_sign (d : Digit) : d.toChar ≠ '-' ∧ d.toChar ≠ '+' := by
  revert d
  decide

theorem takeWhile_isDigit (ds : List Digit) (rest : List Char) :
    (ds.map toChar ++ rest).takeWhile Char.isDigit =
      ds.map toChar ++ rest.takeWhile Char.isDigit := by
  rw [List.takeWhile_append_of_pos]
  intro c hc
  obtain ⟨d, -, rfl⟩ := List.mem_map.1 hc
  exact d.isDigit_toChar

theorem filterMap_ofChar? (ds : List Digit) : (ds.map toChar).filterMap ofChar? = ds := by
  rw [List.filterMap_map]
  have hsome : ofChar? ∘ toChar = some := funext ofChar?_toChar
  rw [hsome, List.filterMap_some]

/-! ### Values -/

theorem append_append (n : Nat) (ds es : List Digit) :
    append n (ds ++ es) = append (append n ds) es := List.foldl_append

theorem append_zeros (count : Nat) : append 0 (List.replicate count 0) = 0 := by
  induction count with
  | zero => rfl
  | succ count ih => exact ih

theorem le_append (n : Nat) (ds : List Digit) : n ≤ append n ds := by
  induction ds generalizing n with
  | nil => exact Nat.le_refl n
  | cons d ds ih =>
    have hrest : n * 10 + d.val ≤ append n (d :: ds) := ih (n * 10 + d.val)
    omega

/-! ### The digits of a number -/

theorem list_ne_nil (n : Nat) : list n ≠ [] := by
  have hpush : ∀ n tail, push n tail ≠ [] := by
    intro n tail
    fun_induction push n tail with
    | case1 n tail _ => exact List.cons_ne_nil _ _
    | case2 n tail _ ih => exact ih
  exact hpush n []

/-- The first digit of a positive number is not zero. -/
theorem push_of_pos {n : Nat} (h : 0 < n) (tail : List Digit) :
    ∃ d ds, push n tail = d :: ds ∧ d ≠ 0 := by
  fun_induction push n tail with
  | case1 n tail hn =>
    refine ⟨_, tail, rfl, fun hzero => ?_⟩
    have hval := congrArg Fin.val hzero
    simp only [Fin.ofNat, Nat.mod_eq_of_lt hn] at hval
    have hzero' : n = 0 := hval
    omega
  | case2 n tail hn ih => exact ih (by omega)

/-- Digits that follow the digits of a positive number are digits of the number they make. -/
theorem push_append {n : Nat} (h : 0 < n) (ds tail : List Digit) :
    push (append n ds) tail = push n (ds ++ tail) := by
  induction ds generalizing n with
  | nil => rfl
  | cons d ds ih =>
    have hstep : append n (d :: ds) = append (n * 10 + d.val) ds := rfl
    have hten : ¬ n * 10 + d.val < 10 := by omega
    have hquotient : (n * 10 + d.val) / 10 = n := by omega
    have hdigit : Fin.ofNat 10 (n * 10 + d.val) = d := by
      apply Fin.ext
      show (n * 10 + d.val) % 10 = d.val
      omega
    rw [hstep, ih (by omega), push, if_neg hten, hquotient, hdigit]
    rfl

theorem list_value_eq_iff (hds : ds ≠ []) :
    list (value ds) = ds ↔ ds = [0] ∨ ds.head? ≠ some 0 := by
  have hlist_zero : list 0 = [0] := by
    rw [list, push, if_pos (by decide)]
    rfl
  constructor
  · intro h
    rcases Nat.eq_zero_or_pos (value ds) with hzero | hpos
    · rw [hzero, hlist_zero] at h
      exact .inl h.symm
    · obtain ⟨d, es, hpush, hd⟩ := push_of_pos hpos []
      rw [list, hpush] at h
      subst h
      exact .inr fun hhead => hd (Option.some.inj hhead)
  · rintro (rfl | hhead)
    · exact hlist_zero
    · obtain ⟨d, es, rfl⟩ := List.exists_cons_of_ne_nil hds
      have hd : d ≠ 0 := fun h => hhead (by rw [h]; rfl)
      have hpos : 0 < d.val := Nat.pos_of_ne_zero fun h => hd (Fin.ext h)
      have hvalue : value (d :: es) = append d.val es := by
        show append (0 * 10 + d.val) es = _
        rw [Nat.zero_mul, Nat.zero_add]
      have hdigit : Fin.ofNat 10 d.val = d := Fin.ext (Nat.mod_eq_of_lt d.isLt)
      rw [list, hvalue, push_append hpos, List.append_nil, push, if_pos d.isLt, hdigit]

theorem length_push_le {n width : Nat} (h : n < 10 ^ (width + 1)) (tail : List Digit) :
    (push n tail).length ≤ width + 1 + tail.length := by
  induction width generalizing n tail with
  | zero =>
    rw [push, if_pos (by omega), List.length_cons]
    omega
  | succ width ih =>
    rw [push]
    split
    · rw [List.length_cons]
      omega
    · have hquotient : n / 10 < 10 ^ (width + 1) := by
        rw [Nat.div_lt_iff_lt_mul (by omega), ← Nat.pow_succ]
        exact h
      have hlength := ih hquotient (Fin.ofNat 10 n :: tail)
      rw [List.length_cons] at hlength
      omega

/-! ### Padding -/

/-- The digits that `paddedDecimal` writes. -/
def padded (width n : Nat) : List Digit :=
  List.replicate (width - (list n).length) 0 ++ list n

theorem value_padded (width n : Nat) : value (padded width n) = n := by
  rw [padded, value, append_append, append_zeros]
  exact value_list n

theorem length_padded {width n : Nat} (hwidth : 0 < width) (h : n < 10 ^ width) :
    (padded width n).length = width := by
  obtain ⟨w, rfl⟩ : ∃ w, width = w + 1 := ⟨width - 1, by omega⟩
  have hle : (list n).length ≤ w + 1 := length_push_le h []
  rw [padded, List.length_append, List.length_replicate]
  omega

theorem padded_ne_nil (width n : Nat) : padded width n ≠ [] := by
  simp [padded, list_ne_nil]

end Digit

theorem decimal_value_eq_iff {ds : List Digit} (hds : ds ≠ []) :
    decimal (Digit.value ds) = String.ofList (ds.map Digit.toChar) ↔
      ds = [0] ∨ ds.head? ≠ some 0 := by
  rw [decimal, String.ofList_inj, List.map_inj_right fun _ _ h => Digit.toChar_injective h,
    Digit.list_value_eq_iff hds]

theorem toList_paddedDecimal (width n : Nat) :
    (paddedDecimal width n).toList = (Digit.padded width n).map Digit.toChar := by
  have hzero : Digit.toChar 0 = '0' := by decide
  rw [paddedDecimal, String.toList_ofList, Digit.padded, List.map_append, List.map_replicate, hzero,
    List.length_map]

theorem paddedDecimal_cons (width n : Nat) :
    ∃ d cs, (paddedDecimal width n).toList = Digit.toChar d :: cs := by
  obtain ⟨d, ds, hds⟩ := List.exists_cons_of_ne_nil (Digit.padded_ne_nil width n)
  exact ⟨d, ds.map Digit.toChar, by rw [toList_paddedDecimal, hds, List.map_cons]⟩

end InferenceFleet
