import InferenceFleet.Proofs.Decimal
import InferenceFleet.Proofs.Time.Calendar
import InferenceFleet.Time.Reader

/-!
# Written times are read back

`Instant.read` of `Instant.print` gives every instant of the calendar's range back, to the
nanosecond and with its leap second (`read_print`). The fields of the text are read one by one; each
lemma says what a reader takes off the text in front of any rest.
-/

namespace InferenceFleet

/-! ### Fields -/

namespace TimeReader
variable {cs rest : List Char} {ds : List Digit} {n width : Nat}

theorem digits_limit (ds : List Digit) (rest : List Char) :
    digits (some ds.length) (ds.map Digit.toChar ++ rest) = (ds, rest) := by
  have hrun : ((ds.map Digit.toChar ++ rest).takeWhile Char.isDigit).take ds.length =
      ds.map Digit.toChar := by
    rw [Digit.takeWhile_isDigit, List.take_left' (List.length_map _)]
  simp only [digits, hrun, Digit.filterMap_ofChar?]
  rw [List.drop_left' rfl]

theorem digits_none (ds : List Digit) (h : rest.takeWhile Char.isDigit = []) :
    digits none (ds.map Digit.toChar ++ rest) = (ds, rest) := by
  have hrun : (ds.map Digit.toChar ++ rest).takeWhile Char.isDigit = ds.map Digit.toChar := by
    rw [Digit.takeWhile_isDigit, h, List.append_nil]
  simp only [digits, hrun, Digit.filterMap_ofChar?]
  rw [List.drop_left' rfl]

theorem number_of_digits {limit : Option Nat} (hds : ds ≠ [])
    (h : digits limit (ds.map Digit.toChar ++ rest) = (ds, rest)) :
    number limit (ds.map Digit.toChar ++ rest) = .ok (Digit.value ds, rest) := by
  obtain ⟨d, ds, rfl⟩ := List.exists_cons_of_ne_nil hds
  simp only [number, h]
  rfl

theorem number_limit (hwidth : 0 < width) (h : n < 10 ^ width) (rest : List Char) :
    number (some width) ((paddedDecimal width n).toList ++ rest) = .ok (n, rest) := by
  have hdigits := digits_limit (Digit.padded width n) rest
  rw [Digit.length_padded hwidth h] at hdigits
  rw [toList_paddedDecimal, number_of_digits (Digit.padded_ne_nil width n) hdigits,
    Digit.value_padded]

theorem number_none (width n : Nat) (h : rest.takeWhile Char.isDigit = []) :
    number none ((paddedDecimal width n).toList ++ rest) = .ok (n, rest) := by
  have hdigits := digits_none (Digit.padded width n) h
  rw [toList_paddedDecimal, number_of_digits (Digit.padded_ne_nil width n) hdigits,
    Digit.value_padded]

theorem field_written {low high : Nat} (hlow : low ≤ n) (hhigh : n ≤ high) (h : n < 100)
    (rest : List Char) : field low high ((paddedDecimal 2 n).toList ++ rest) = .ok (n, rest) := by
  simp only [field, number_limit Nat.two_pos h, bind, Except.bind]
  rw [if_pos ⟨hlow, hhigh⟩]

theorem skipBlanks_of_not_blank {c : Char} (h : isBlank c = false) (cs : List Char) :
    skipBlanks (c :: cs) = c :: cs :=
  List.dropWhile_cons_of_neg (by simp [h])

theorem skipBlanks_digits (width n : Nat) (rest : List Char) :
    skipBlanks ((paddedDecimal width n).toList ++ rest) =
      (paddedDecimal width n).toList ++ rest := by
  obtain ⟨d, cs, hcs⟩ := paddedDecimal_cons width n
  rw [hcs]
  exact skipBlanks_of_not_blank d.isBlank_toChar _

theorem toList_printYear (y : Int) : (Instant.printYear y).toList =
    if 0 ≤ y ∧ y ≤ 9999 then (paddedDecimal 4 y.natAbs).toList
    else (if y < 0 then '-' else '+') :: (paddedDecimal 4 y.natAbs).toList := by
  unfold Instant.printYear
  split
  · rfl
  · split <;> rw [String.toList_append] <;> rfl

theorem skipBlanks_year (y : Int) (rest : List Char) :
    skipBlanks ((Instant.printYear y).toList ++ rest) = (Instant.printYear y).toList ++ rest := by
  rw [toList_printYear]
  split
  · exact skipBlanks_digits ..
  · split <;> exact skipBlanks_of_not_blank rfl _

/-- A year without a sign has at most four digits. -/
theorem year_digit (d : Digit) (cs : List Char) : year (d.toChar :: cs) = (do
    let (n, rest) ← number (some 4) (d.toChar :: cs)
    .ok ((n : Int), rest)) := by
  unfold year
  split
  · rename_i heq
    exact absurd (List.cons.inj heq).1 d.toChar_ne_sign.1
  · rename_i heq
    exact absurd (List.cons.inj heq).1 d.toChar_ne_sign.2
  · rfl

theorem year_written {y : Int} (h : y.natAbs < yearLimit) (rest : List Char) :
    year ((Instant.printYear y).toList ++ '-' :: rest) = .ok (y, '-' :: rest) := by
  have hany : number none ((paddedDecimal 4 y.natAbs).toList ++ '-' :: rest) =
      .ok (y.natAbs, '-' :: rest) := number_none 4 y.natAbs rfl
  rw [toList_printYear]
  by_cases hplain : 0 ≤ y ∧ y ≤ 9999
  · have habs : (y.natAbs : Int) = y := by omega
    have hlimit : y.natAbs < 10 ^ 4 := by omega
    have hfour := number_limit (by decide) hlimit ('-' :: rest)
    obtain ⟨d, cs, hcs⟩ := paddedDecimal_cons 4 y.natAbs
    rw [hcs, List.cons_append] at hfour
    rw [if_pos hplain, hcs, List.cons_append, year_digit, hfour]
    simp only [bind, Except.bind, habs]
  · rw [if_neg hplain]
    by_cases hneg : y < 0
    · have habs : -(y.natAbs : Int) = y := by omega
      rw [if_pos hneg]
      simp only [List.cons_append, year, hany, bind, Except.bind]
      rw [if_pos (by omega), habs]
    · have habs : (y.natAbs : Int) = y := by omega
      rw [if_neg hneg]
      simp only [List.cons_append, year, hany, bind, Except.bind]
      rw [if_pos h, habs]

theorem fraction_digits (hwidth : 0 < width) (hwidth' : width ≤ 9) (h : n < 10 ^ width)
    (rest : List Char) :
    fraction (("." ++ paddedDecimal width n).toList ++ 'Z' :: rest) =
      .ok (n * 10 ^ (9 - width), 'Z' :: rest) := by
  obtain ⟨d, ds, hds⟩ := List.exists_cons_of_ne_nil (Digit.padded_ne_nil width n)
  have hzone : ('Z' :: rest).takeWhile Char.isDigit = [] := rfl
  have hdigits := digits_none (Digit.padded width n) hzone
  have hlength := Digit.length_padded hwidth h
  have hvalue := Digit.value_padded width n
  rw [hds] at hdigits hlength hvalue
  have hkept : (d :: ds).take 9 = d :: ds := List.take_of_length_le (by omega)
  rw [String.toList_append, toList_paddedDecimal, hds]
  show fraction ('.' :: ((d :: ds).map Digit.toChar ++ 'Z' :: rest)) = _
  simp only [fraction, hdigits]
  rw [hkept, hvalue, hlength]
  rfl

theorem fraction_written (h : n < 1000000000) (rest : List Char) :
    fraction ((Instant.printFraction n).toList ++ 'Z' :: rest) = .ok (n, 'Z' :: rest) := by
  unfold Instant.printFraction
  split
  · rename_i hzero
    rw [hzero]
    rfl
  · split
    · have hn : n / 1000000 * 10 ^ (9 - 3) = n := by omega
      rw [fraction_digits (by omega) (by omega) (by omega), hn]
    · split
      · have hn : n / 1000 * 10 ^ (9 - 6) = n := by omega
        rw [fraction_digits (by omega) (by omega) (by omega), hn]
      · rw [fraction_digits (by omega) (by omega) (by omega), Nat.sub_self, Nat.pow_zero,
          Nat.mul_one]

/-- The fields of a written time come back. -/
theorem fields_written {date : Date} {hour minute second nanos : Nat}
    (hyear : date.year.natAbs < yearLimit) (hmonth : 1 ≤ date.month ∧ date.month ≤ 12)
    (hday : 1 ≤ date.day ∧ date.day ≤ 31) (hhour : hour ≤ 23) (hminute : minute ≤ 59)
    (hsecond : second ≤ 60) (hnanos : nanos < 1000000000) :
    fields ((Instant.printYear date.year).toList ++ '-' :: ((paddedDecimal 2 date.month).toList ++
      '-' :: ((paddedDecimal 2 date.day).toList ++ 'T' :: ((paddedDecimal 2 hour).toList ++
      ':' :: ((paddedDecimal 2 minute).toList ++ ':' :: ((paddedDecimal 2 second).toList ++
      ((Instant.printFraction nanos).toList ++ ['Z']))))))) =
      .ok { date, hour, minute, second, nanos, offset := 0 } := by
  -- Nothing that is written is blank, and each number is ended by what stands behind it.
  have hdash : ∀ cs, skipBlanks ('-' :: cs) = '-' :: cs := skipBlanks_of_not_blank rfl
  have hcolon : ∀ cs, skipBlanks (':' :: cs) = ':' :: cs := skipBlanks_of_not_blank rfl
  have hzone : skipBlanks ['Z'] = ['Z'] := rfl
  have hliteral : ∀ c cs, literal c (c :: cs) = .ok cs := fun c cs => by rw [literal, if_pos rfl]
  have hseparator : ∀ cs, separator ('T' :: cs) = .ok cs := fun _ => rfl
  have hutc : offset ['Z'] = .ok (0, []) := rfl
  simp only [fields, skipBlanks_year, year_written hyear, skipBlanks_digits, hdash, hcolon,
    hliteral, hseparator, hzone, hutc, fraction_written hnanos,
    field_written hmonth.1 hmonth.2 (by omega), field_written hday.1 hday.2 (by omega),
    field_written (Nat.zero_le _) hhour (by omega),
    field_written (Nat.zero_le _) hminute (by omega),
    field_written (Nat.zero_le _) hsecond (by omega), bind, Except.bind]
  rfl

end TimeReader

namespace Instant
variable (t : Instant)

/-- The second of the minute, as it is written: the leap second has the number 60. -/
def writtenSecond : Nat :=
  (t.seconds % 86400).toNat % 60 + if 1000000000 ≤ t.nanos then 1 else 0

/-- The nanoseconds of the written second. -/
def writtenNanos : Nat := if 1000000000 ≤ t.nanos then t.nanos - 1000000000 else t.nanos

theorem toList_print :
    let date := Date.ofDayNumber (t.seconds / 86400)
    let second := (t.seconds % 86400).toNat
    t.print.toList = (printYear date.year).toList ++
      '-' :: ((paddedDecimal 2 date.month).toList ++ '-' :: ((paddedDecimal 2 date.day).toList ++
      'T' :: ((paddedDecimal 2 (second / 3600)).toList ++
      ':' :: ((paddedDecimal 2 (second / 60 % 60)).toList ++
      ':' :: ((paddedDecimal 2 t.writtenSecond).toList ++
      ((printFraction t.writtenNanos).toList ++ ['Z'])))))) := by
  have hdash : "-".toList = ['-'] := rfl
  have hcolon : ":".toList = [':'] := rfl
  have hmiddle : "T".toList = ['T'] := rfl
  have hzone : "Z".toList = ['Z'] := rfl
  simp only [print, writtenSecond, writtenNanos, String.toList_append, hdash, hcolon, hmiddle,
    hzone, List.append_assoc, List.cons_append, List.nil_append]

theorem ofParts?_self (t : Instant) : ofParts? t.seconds t.nanos = some t := by
  rw [ofParts?, dif_pos ⟨t.inRange, t.nanos_lt, t.leap⟩]

/-- The number 60 stands for leap seconds only. -/
theorem writtenSecond_eq_sixty : t.writtenSecond = 60 ↔ 1000000000 ≤ t.nanos := by
  have hleap := t.leap
  rw [writtenSecond]
  split <;> omega

/-- The fields that are written name the instant. -/
theorem instant_fields {t : Instant}
    (hvalid : (Date.ofDayNumber (t.seconds / 86400)).isValid = true) :
    TimeReader.Fields.instant {
      date := Date.ofDayNumber (t.seconds / 86400)
      hour := (t.seconds % 86400).toNat / 3600
      minute := (t.seconds % 86400).toNat / 60 % 60
      second := t.writtenSecond
      nanos := t.writtenNanos
      offset := 0 } = .ok t := by
  have hsecond : (if t.writtenSecond = 60 then 59 else t.writtenSecond) =
      (t.seconds % 86400).toNat % 60 := by
    by_cases hleap : 1000000000 ≤ t.nanos
    · have hlast := t.leap hleap
      rw [if_pos (t.writtenSecond_eq_sixty.2 hleap)]
      omega
    · rw [if_neg (mt t.writtenSecond_eq_sixty.1 hleap), writtenSecond, if_neg hleap, Nat.add_zero]
  have hnanos : (if t.writtenSecond = 60 then t.writtenNanos + 1000000000 else t.writtenNanos) =
      t.nanos := by
    by_cases hleap : 1000000000 ≤ t.nanos
    · rw [if_pos (t.writtenSecond_eq_sixty.2 hleap), writtenNanos, if_pos hleap,
        Nat.sub_add_cancel hleap]
    · rw [if_neg (mt t.writtenSecond_eq_sixty.1 hleap), writtenNanos, if_neg hleap]
  have hclock : t.seconds / 86400 * 86400 + (((t.seconds % 86400).toNat / 3600 * 3600 +
      (t.seconds % 86400).toNat / 60 % 60 * 60 + (t.seconds % 86400).toNat % 60 : Nat) : Int) - 0 =
      t.seconds := by omega
  simp only [TimeReader.Fields.instant, hvalid, Date.dayNumber_ofDayNumber, hsecond, hnanos, hclock,
    ofParts?_self]
  rfl

/-- Reading what is written for an instant gives the instant. -/
theorem read_print (t : Instant) : Instant.read t.print = .ok t := by
  obtain ⟨hfirst, hlast⟩ := t.inRange
  rw [firstSecond] at hfirst
  rw [lastSecond] at hlast
  have hlow : Date.dayNumber { year := Date.firstYear, month := 1, day := 1 } ≤
      t.seconds / 86400 := by omega
  have hhigh : t.seconds / 86400 ≤
      Date.dayNumber { year := Date.lastYear, month := 12, day := 31 } := by omega
  obtain ⟨hyear, hyear'⟩ := Date.year_ofDayNumber hlow hhigh
  have hday := Date.day_ofDayNumber (t.seconds / 86400)
  have hlimit : (Date.ofDayNumber (t.seconds / 86400)).year.natAbs < TimeReader.yearLimit := by
    simp only [Date.firstYear, Date.lastYear, TimeReader.yearLimit] at *
    omega
  have hlongest := daysInMonth_le (Date.ofDayNumber (t.seconds / 86400)).year
    (Date.ofDayNumber (t.seconds / 86400)).month
  have hsecond : t.writtenSecond ≤ 60 := by
    simp only [writtenSecond]
    split <;> omega
  have hnanos : t.writtenNanos < 1000000000 := by
    have hbound := t.nanos_lt
    simp only [writtenNanos]
    split <;> omega
  rw [Instant.read, toList_print, TimeReader.fields_written hlimit (Date.month_ofDayNumber _)
    ⟨hday.1, Nat.le_trans hday.2 hlongest⟩ (by omega) (by omega) hsecond hnanos]
  exact instant_fields (Date.isValid_ofDayNumber hlow hhigh)

end Instant

end InferenceFleet
