import InferenceFleet.Json.Shape
import InferenceFleet.Proofs.Decimal
import InferenceFleet.Proofs.Json.Print

/-!
# Integers in JSON

The token of an integer is a proper numeral, and one of 64 bits stands for that integer
(`quantity_ofInt`).
-/

namespace InferenceFleet

namespace Json

namespace Numeral

theorem proper_ofInt (n : Int) : (ofInt n).Proper where
  whole := by
    by_cases hn : n.natAbs = 0
    · left
      show Digit.list n.natAbs = [0]
      rw [hn, Digit.list, Digit.push, if_pos (by decide)]
      rfl
    · exact .inr (Digit.push_of_pos (Nat.pos_of_ne_zero hn) [])
  fraction := nofun
  exponent := nofun

theorem take_eq {s : Nat} {ds : List Digit} (h : Digit.append s ds < wordLimit) :
    take s ds = (Digit.append s ds, 0) := by
  induction ds generalizing s with
  | nil => rfl
  | cons d ds ih =>
    have hrest : Digit.append (s * 10 + d.val) ds < wordLimit := h
    have hle := Digit.le_append (s * 10 + d.val) ds
    rw [take, if_pos (by omega), ih hrest]
    rfl

theorem take_list {n : Nat} (h : n < wordLimit) : take 0 (Digit.list n) = (n, 0) := by
  have hvalue : Digit.append 0 (Digit.list n) = n := Digit.value_list n
  rw [take_eq (by rw [hvalue]; exact h), hvalue]

theorem integer?_ofInt {n : Int} (h : -2 ^ 63 ≤ n) (h' : n < 2 ^ 64) :
    (ofInt n).integer? = some n := by
  have hlimit : n.natAbs < wordLimit := by
    unfold wordLimit
    omega
  simp only [integer?, ofInt, take_list hlimit, decide_eq_true_eq]
  split
  · rw [if_neg (by omega)]
    exact congrArg some (by omega)
  · exact congrArg some (by omega)

theorem quantity_ofInt {n : Int} (h : -2 ^ 63 ≤ n) (h' : n < 2 ^ 64) :
    (ofInt n).quantity = .ok (.integer n) := by
  rw [quantity, quantity?, integer?_ofInt h h']

end Numeral

theorem Doc.readInteger_ofInt {α : Type} (kind : IntegerKind α) (a : α)
    (h : -2 ^ 63 ≤ kind.toInt a) (h' : kind.toInt a < 2 ^ 64) :
    Doc.readInteger kind (.number (.ofInt (kind.toInt a))) = .ok a := by
  simp only [readInteger, Numeral.quantity_ofInt h h', bind, Except.bind, kind.ofInt?_toInt]

end Json

end InferenceFleet
