/-!
# Decimal digits

A natural number as its list of decimal digits, most significant first.
-/

namespace InferenceFleet

-- Powers are the ones that compute, whatever algebra is imported beside them.
@[default_instance 20000]
instance (priority := high) natPow {α : Type} [NatPow α] : Pow α Nat := instPowNat

abbrev Digit := Fin 10

namespace Digit

instance neZero : @NeZero Nat Zero.ofOfNat0 10 := ⟨nofun⟩

def toChar (d : Digit) : Char := Char.ofNat (d.val + 48)

def ofChar? (c : Char) : Option Digit :=
  if h : 48 ≤ c.toNat ∧ c.toNat < 58 then some ⟨c.toNat - 48, by omega⟩ else none

theorem ofChar?_toChar (d : Digit) : ofChar? d.toChar = some d := by
  revert d
  decide

/-- The digits of `n` in front of `tail`, at least one. -/
def push (n : Nat) (tail : List Digit) : List Digit :=
  if n < 10 then Fin.ofNat 10 n :: tail
  else push (n / 10) (Fin.ofNat 10 n :: tail)
termination_by n
decreasing_by omega

/-- The digits of `n` without leading zeros; zero has one digit. -/
def list (n : Nat) : List Digit := push n []

/-- The number that `ds` writes after the digits of `n`. -/
def append (n : Nat) (ds : List Digit) : Nat := ds.foldl (fun n d => n * 10 + d.val) n

def value (ds : List Digit) : Nat := append 0 ds

theorem append_push (n : Nat) (tail : List Digit) :
    append 0 (push n tail) = append n tail := by
  fun_induction push n tail with
  | case1 n tail hn => simp [append, Fin.ofNat, Nat.mod_eq_of_lt hn]
  | case2 n tail hn ih =>
    rw [ih]
    simp only [append, List.foldl_cons, Fin.ofNat]
    rw [show n / 10 * 10 + n % 10 = n by omega]

theorem value_list (n : Nat) : value (list n) = n := append_push n []

end Digit

/-- `n` in decimal. -/
def decimal (n : Nat) : String := String.ofList ((Digit.list n).map Digit.toChar)

/-- `n` in decimal with zeros in front up to `width` digits. -/
def paddedDecimal (width n : Nat) : String :=
  let ds := (Digit.list n).map Digit.toChar
  String.ofList (List.replicate (width - ds.length) '0' ++ ds)

/-- `n` in decimal, a negative number after a minus sign. -/
def signedDecimal (n : Int) : String :=
  if n < 0 then "-" ++ decimal n.natAbs else decimal n.natAbs

end InferenceFleet
