import InferenceFleet.Proofs.Decimal
import InferenceFleet.Settings.Reading
import InferenceFleet.Settings.Variables

/-!
# What the text of a variable stands for

A variable is a truth value, a number or a text (`reads_ofVariable`), and a text again when one is
wanted. It need not be the same text: digits lose zeros in front (`text?_ofVariable_digits`). It is
the same when there is a character in it that no number has (`ofVariable_eq_text`).
-/

namespace InferenceFleet

/-- All characters are printable ASCII characters and no blanks. -/
def IsGraphic (text : String) : Prop := ∀ c ∈ text.toList, 0x21 ≤ c.toNat ∧ c.toNat ≤ 0x7E

instance (text : String) : Decidable (IsGraphic text) :=
  List.decidableBAll (fun c : Char => 0x21 ≤ c.toNat ∧ c.toNat ≤ 0x7E) text.toList

namespace IsGraphic
variable {s t : String}

theorem append (hs : IsGraphic s) (ht : IsGraphic t) : IsGraphic (s ++ t) := by
  intro c hc
  rw [String.toList_append] at hc
  exact (List.mem_append.1 hc).elim (hs c) (ht c)

theorem digits (ds : List Digit) : IsGraphic (String.ofList (ds.map Digit.toChar)) := by
  intro c hc
  rw [String.toList_ofList] at hc
  obtain ⟨d, -, rfl⟩ := List.mem_map.1 hc
  have hdigit : ∀ d : Digit, 0x21 ≤ d.toChar.toNat ∧ d.toChar.toNat ≤ 0x7E := by decide
  exact hdigit d

end IsGraphic

/-- A text of one or more such characters. -/
structure IsToken (text : String) : Prop where
  nonempty : text ≠ ""
  graphic : IsGraphic text

namespace IsToken
variable {s t : String}

theorem append (hs : IsGraphic s) (ht : IsToken t) : IsToken (s ++ t) :=
  ⟨fun hempty => ht.nonempty (String.append_eq_empty_iff.1 hempty).2, hs.append ht.graphic⟩

theorem append_graphic (hs : IsToken s) (ht : IsGraphic t) : IsToken (s ++ t) :=
  ⟨fun hempty => hs.nonempty (String.append_eq_empty_iff.1 hempty).1, hs.graphic.append ht⟩

theorem digits {ds : List Digit} (h : ds ≠ []) : IsToken (String.ofList (ds.map Digit.toChar)) := by
  refine ⟨fun hempty => h ?_, .digits ds⟩
  have hchars := congrArg String.toList hempty
  rw [String.toList_ofList] at hchars
  exact List.map_eq_nil_iff.1 hchars

theorem decimal (n : Nat) : IsToken (decimal n) := digits (Digit.list_ne_nil n)

theorem signedDecimal (n : Int) : IsToken (signedDecimal n) := by
  have hminus : IsGraphic "-" := by decide
  rw [InferenceFleet.signedDecimal]
  split
  · exact append hminus (decimal _)
  · exact decimal _

theorem plainDigits (negative : Bool) (s : Scientific) :
    IsToken (Settings.plainDigits negative s) := by
  have hsign : IsGraphic (if negative then "-" else "") := by cases negative <;> decide
  have hzero : IsToken "0." := ⟨by decide, by decide⟩
  have hpoint : IsGraphic "." := by decide
  have hempty : IsGraphic "" := by decide
  rw [Settings.plainDigits]
  refine append hsign ?_
  split
  · exact append_graphic hzero (.digits _)
  · refine append_graphic (digits fun hnil => ?_) ?_
    · have hlength := congrArg List.length hnil
      rw [List.length_append, List.length_replicate, List.length_nil] at hlength
      omega
    · split
      · exact hempty
      · exact hpoint.append (.digits _)

theorem showReal (x : Double) : IsToken (Settings.showReal x) := by
  cases x with
  | finite negative mantissa exponent => exact plainDigits _ _
  | infinite negative => cases negative <;> exact ⟨by decide, by decide⟩

end IsToken

namespace Settings
variable {text : String}

/-! ### Kinds of values -/

def lowered (text : String) : String := String.ofList (text.toList.map Char.toLower)

/-- The values that the text of a variable can stand for. -/
inductive Reads (text : String) : Value → Prop where
  | flag (b : Bool) : lowered text = (if b then "true" else "false") → Reads text (.flag b)
  | integer {n : Int} : word? text = some n → Reads text (.integer n)
  | notANumber : Reads text .notANumber
  | real (x : Double) : real? text = some (.real x) → Reads text (.real x)
  | text : Reads text (.text text)

theorem real?_cases {v : Value} (h : real? text = some v) : v = .notANumber ∨ ∃ x, v = .real x := by
  simp only [real?] at h
  split at h
  · exact .inl (Option.some.inj h).symm
  split at h
  · exact .inr ⟨_, (Option.some.inj h).symm⟩
  · obtain ⟨x, -, rfl⟩ := Option.map_eq_some_iff.1 h
    exact .inr ⟨x, rfl⟩

theorem reads_ofVariable (text : String) : Reads text (.ofVariable text) := by
  simp only [Value.ofVariable]
  split
  · rename_i h
    exact .flag true (eq_of_beq h)
  split
  · rename_i h
    exact .flag false (eq_of_beq h)
  split
  · rename_i n h
    exact .integer h
  · cases hreal : real? text with
    | none => exact .text
    | some v =>
      rcases real?_cases hreal with rfl | ⟨x, rfl⟩
      · exact .notANumber
      · exact .real x hreal

namespace Reads
variable {v : Value} (h : Reads text v)
include h

theorem ne_null : v ≠ .null := by
  rintro rfl
  cases h

theorem ne_table (ms : List (String × Value)) : v ≠ .table ms := by
  rintro rfl
  cases h

/-- What a variable stands for is a text again when one is wanted, and a token if it was one. -/
theorem exists_text : ∃ t, v.text? = some t ∧ (IsToken text → IsToken t) := by
  cases h with
  | flag b =>
    refine ⟨_, rfl, fun _ => ?_⟩
    cases b <;> exact ⟨by decide, by decide⟩
  | integer => exact ⟨_, rfl, fun _ => .signedDecimal _⟩
  | notANumber => exact ⟨_, rfl, fun _ => ⟨by decide, by decide⟩⟩
  | real x => exact ⟨_, rfl, fun _ => .showReal x⟩
  | text => exact ⟨_, rfl, id⟩

end Reads

/-! ### Texts that stay texts -/

/-- The characters that a number in digits is made of. -/
def IsNumeric (c : Char) : Prop := (Digit.ofChar? c).isSome ∨ c ∈ ['+', '-', '.', 'e', 'E']

section
variable {cs rest : List Char} {c : Char}

theorem isNumeric_of_sign (h : c ∈ cs) : IsNumeric c ∨ c ∈ (Decimal.sign cs).2 := by
  unfold Decimal.sign
  split
  · rcases List.mem_cons.1 h with rfl | h
    · exact .inl (.inr (by decide))
    · exact .inr h
  · rcases List.mem_cons.1 h with rfl | h
    · exact .inl (.inr (by decide))
    · exact .inr h
  · exact .inr h

theorem isNumeric_of_digits (h : c ∈ cs) : IsNumeric c ∨ c ∈ (Decimal.digits cs).2 := by
  induction cs with
  | nil => cases h
  | cons d cs ih =>
    rw [Decimal.digits]
    cases hd : Digit.ofChar? d with
    | none => exact .inr h
    | some digit =>
      rcases List.mem_cons.1 h with rfl | h
      · exact .inl (.inl (by rw [hd]; rfl))
      · exact ih h

theorem isNumeric_of_integer? {n : Int} (hn : Decimal.integer? cs = some n) (h : c ∈ cs) :
    IsNumeric c := by
  refine (isNumeric_of_sign h).elim id fun h => ?_
  rw [Decimal.integer?] at hn
  generalize Decimal.sign cs = signed at hn h
  obtain ⟨negative, rest⟩ := signed
  refine (isNumeric_of_digits h).elim id fun h => ?_
  dsimp only at hn h
  generalize Decimal.digits rest = r at hn h
  obtain ⟨ds, after⟩ := r
  cases ds with
  | nil => cases hn
  | cons d ds =>
    cases after with
    | nil => cases h
    | cons => cases hn

theorem isNumeric_of_exponent? {n : Int} (hn : Decimal.exponent? cs = some n) (h : c ∈ cs) :
    IsNumeric c := by
  cases cs with
  | nil => cases h
  | cons d cs =>
    rw [Decimal.exponent?] at hn
    split at hn
    · rename_i hmark
      rcases List.mem_cons.1 h with rfl | h
      · rcases hmark with rfl | rfl
        · exact .inr (by decide)
        · exact .inr (by decide)
      · exact isNumeric_of_integer? hn h
    · cases hn

/-- What follows the whole part of a number and the digits behind a point. -/
def behindPoint : List Char → List Digit × List Char
  | '.' :: rest => Decimal.digits rest
  | rest => ([], rest)

theorem isNumeric_of_behindPoint (h : c ∈ cs) : IsNumeric c ∨ c ∈ (behindPoint cs).2 := by
  unfold behindPoint
  split
  · rcases List.mem_cons.1 h with rfl | h
    · exact .inl (.inr (by decide))
    · exact isNumeric_of_digits h
  · exact .inr h

theorem isNumeric_of_magnitude? {f : Format} {negative : Bool} {x : Binary f}
    (hx : Decimal.magnitude? f negative cs = some x) (h : c ∈ cs) : IsNumeric c := by
  refine (isNumeric_of_digits h).elim id fun h => ?_
  refine (isNumeric_of_behindPoint h).elim id fun h => ?_
  have hparts : Decimal.magnitude? f negative cs =
      let whole := (Decimal.digits cs).1
      let r := behindPoint (Decimal.digits cs).2
      if whole.isEmpty ∧ r.1.isEmpty then none
      else
        (Decimal.exponent? r.2).map fun e =>
          .ofDecimal f negative (Digit.value (whole ++ r.1)) (e - r.1.length) := rfl
  rw [hparts] at hx
  dsimp only at hx
  split at hx
  · cases hx
  · obtain ⟨e, he, -⟩ := Option.map_eq_some_iff.1 hx
    exact isNumeric_of_exponent? he h

end

theorem word?_of_not_numeric {c : Char} (hc : c ∈ text.toList) (hforeign : ¬ IsNumeric c) :
    word? text = none := by
  cases hn : word? text with
  | none => rfl
  | some n => exact absurd (isNumeric_of_integer? (Option.filter_eq_some_iff.1 hn).1 hc) hforeign

/-- The names that stand for numbers behind a sign. -/
def realNames : List String := ["nan", "inf", "infinity"]

theorem real?_of_not_numeric {c : Char} (hc : c ∈ text.toList) (hforeign : ¬ IsNumeric c)
    (hname : lowered (String.ofList (Decimal.sign text.toList).2) ∉ realNames) :
    real? text = none := by
  rw [lowered, String.toList_ofList] at hname
  simp only [realNames, List.mem_cons, List.not_mem_nil, or_false, not_or] at hname
  obtain ⟨hnan, hinf, hinfinity⟩ := hname
  have hc := (isNumeric_of_sign hc).resolve_left hforeign
  rw [real?]
  generalize Decimal.sign text.toList = signed at hnan hinf hinfinity hc
  obtain ⟨negative, rest⟩ := signed
  have hmagnitude : Decimal.magnitude? .double negative rest = none := by
    cases hx : Decimal.magnitude? .double negative rest with
    | none => rfl
    | some x => exact absurd (isNumeric_of_magnitude? hx hc) hforeign
  dsimp only at hnan hinf hinfinity ⊢
  rw [if_neg (by rwa [beq_iff_eq]), if_neg (by simp [hinf, hinfinity]), hmagnitude]
  rfl

/-- A text with a character that no number has is kept, unless it is one of the names. -/
theorem ofVariable_eq_text {c : Char} (hc : c ∈ text.toList) (hforeign : ¬ IsNumeric c)
    (hflag : lowered text ∉ ["true", "false"])
    (hname : lowered (String.ofList (Decimal.sign text.toList).2) ∉ realNames) :
    Value.ofVariable text = .text text := by
  simp only [List.mem_cons, List.not_mem_nil, or_false, not_or] at hflag
  obtain ⟨htrue, hfalse⟩ := hflag
  rw [lowered] at htrue hfalse
  simp only [Value.ofVariable, beq_iff_eq, if_neg htrue, if_neg hfalse,
    word?_of_not_numeric hc hforeign, real?_of_not_numeric hc hforeign hname, Option.getD_none]

/-! ### Digits -/

theorem digits_toChar (ds : List Digit) : Decimal.digits (ds.map Digit.toChar) = (ds, []) := by
  induction ds with
  | nil => rfl
  | cons d ds ih => rw [List.map_cons, Decimal.digits, Digit.ofChar?_toChar, ih]

theorem integer?_digits {ds : List Digit} (h : ds ≠ []) :
    Decimal.integer? (ds.map Digit.toChar) = some (Digit.value ds : Int) := by
  obtain ⟨d, ds, rfl⟩ := List.exists_cons_of_ne_nil h
  have hsign : Decimal.sign ((d :: ds).map Digit.toChar) = (false, (d :: ds).map Digit.toChar) := by
    obtain ⟨hminus, hplus⟩ := d.toChar_ne_sign
    rw [List.map_cons, Decimal.sign]
    · intro rest heq
      exact hminus (List.cons.inj heq).1
    · intro rest heq
      exact hplus (List.cons.inj heq).1
  rw [Decimal.integer?, hsign]
  simp only [digits_toChar]
  rfl

/-- Digits are read as a number. -/
theorem ofVariable_digits {ds : List Digit} (hds : ds ≠ []) (hword : Digit.value ds < 2 ^ 63) :
    Value.ofVariable (String.ofList (ds.map Digit.toChar)) = .integer (Digit.value ds) := by
  have hword? : word? (String.ofList (ds.map Digit.toChar)) = some (Digit.value ds : Int) := by
    rw [word?, String.toList_ofList, integer?_digits hds, Option.filter_some, if_pos]
    rw [decide_eq_true_eq]
    omega
  obtain ⟨d, es, rfl⟩ := List.exists_cons_of_ne_nil hds
  have hfirst : ∀ d : Digit, d.toChar.toLower ≠ 't' ∧ d.toChar.toLower ≠ 'f' := by decide
  have hother {c : Char} (cs : List Char) (h : d.toChar.toLower ≠ c) :
      ¬ String.ofList ((String.ofList ((d :: es).map Digit.toChar)).toList.map Char.toLower) =
        String.ofList (c :: cs) := by
    rw [String.toList_ofList, String.ofList_inj]
    exact fun heq => h (List.cons.inj heq).1
  have htrue := hother ['r', 'u', 'e'] (hfirst d).1
  have hfalse := hother ['a', 'l', 's', 'e'] (hfirst d).2
  simp only [Value.ofVariable, beq_iff_eq, hword?]
  rw [if_neg htrue, if_neg hfalse]

theorem ofVariable_decimal {n : Nat} (h : n < 2 ^ 63) :
    Value.ofVariable (decimal n) = .integer n := by
  have hdigits := ofVariable_digits (Digit.list_ne_nil n) (by rwa [Digit.value_list])
  rwa [Digit.value_list] at hdigits

/-- The number that digits are read as is written in its own digits. -/
theorem text?_ofVariable_digits {ds : List Digit} (hds : ds ≠ [])
    (hword : Digit.value ds < 2 ^ 63) :
    (Value.ofVariable (String.ofList (ds.map Digit.toChar))).text? =
      some (decimal (Digit.value ds)) := by
  have hsigned : signedDecimal (Digit.value ds : Int) = decimal (Digit.value ds) :=
    if_neg (by omega)
  rw [ofVariable_digits hds hword, Value.text?, hsigned]

end Settings

end InferenceFleet
