import InferenceFleet.Json.Scanner
import InferenceFleet.Proofs.Json.Print
import InferenceFleet.Proofs.Text.Utf8

/-!
# Scanning a quoted string

What a character is written as puts the bytes of the character behind the string that is open
(`read?_escapeChar`), so the text of a string, quotes and escapes and all, is read as the string,
where a value may stand (`read_text`) and where a key may (`read_key`).
-/

namespace InferenceFleet.Json

theorem ofNat_toNat_ofNat {c : Char} (h : c.toNat < 0x80) :
    Char.ofNat (UInt8.ofNat c.toNat).toNat = c := by
  rw [Utf8.toNat_ofNat (by omega), Char.ofNat_toNat]

theorem toNat_ofNat_toNat (b : UInt8) : (Char.ofNat b.toNat).toNat = b.toNat := by
  have hlt := b.toNat_lt
  have hvalid : b.toNat.isValidChar := .inl (by omega)
  rw [Char.ofNat, dif_pos hvalid]
  rfl

namespace Machine
variable {m : Machine} {stack : List Frame}

/-- The machine after the characters. -/
def read (m : Machine) (cs : List Char) : Machine :=
  (cs.flatMap String.utf8EncodeChar).foldl step m

theorem read_append (m : Machine) (cs ds : List Char) :
    m.read (cs ++ ds) = (m.read cs).read ds := by
  rw [read, List.flatMap_append, List.foldl_append]
  rfl

theorem read_cons (m : Machine) (c : Char) (cs : List Char) :
    m.read (c :: cs) = (m.read [c]).read cs := read_append m [c] cs

theorem read_ascii (m : Machine) {c : Char} (h : c.toNat < 0x80) (cs : List Char) :
    m.read (c :: cs) = (m.step (UInt8.ofNat c.toNat)).read cs := by
  rw [read, List.flatMap_cons, Utf8.encodeChar_of_lt h]
  rfl

end Machine

namespace OpenText
variable {t : OpenText}

/-- The string after bytes that only continue it. -/
def read? (t : OpenText) (e : Escape) : List UInt8 → Option (OpenText × Escape)
  | [] => some (t, e)
  | b :: bs =>
    match Machine.stepText t e b with
    | .more t e => t.read? e bs
    | _ => none

theorem read?_append {e e' : Escape} {bs : List UInt8} {t' : OpenText}
    (h : t.read? e bs = some (t', e')) (bs' : List UInt8) :
    t.read? e (bs ++ bs') = t'.read? e' bs' := by
  fun_induction read? t e bs with
  | case1 t e =>
    cases h
    rfl
  | case2 t e b bs t₁ e₁ hstep ih =>
    rw [List.cons_append, read?, hstep]
    exact ih h
  | case3 => cases h

/-- A byte that stands for itself. -/
theorem stepText_self (hhigh : t.high = none) {b : UInt8} (hb : 0x20 ≤ b.toNat)
    (hquote : b.toNat ≠ 0x22) (hslash : b.toNat ≠ 0x5C) :
    Machine.stepText t .none b = .more (t.push b) .none := by
  have hchar : ∀ c : Char, b.toNat ≠ c.toNat → Char.ofNat b.toNat ≠ c := by
    intro c hne heq
    rw [← heq, toNat_ofNat_toNat] at hne
    exact hne rfl
  have hlt : ¬ b < 0x20 := by
    rw [UInt8.lt_iff_toNat_lt]
    exact Nat.not_lt.2 hb
  have hdrop : t.dropHigh = t := by rw [dropHigh, hhigh]
  simp only [Machine.stepText, hchar '\\' hslash, hchar '"' hquote, hdrop,
    hlt, if_false]

theorem read?_self (hhigh : t.high = none) {bs : List UInt8}
    (h : ∀ b ∈ bs, 0x20 ≤ b.toNat ∧ b.toNat ≠ 0x22 ∧ b.toNat ≠ 0x5C) :
    t.read? .none bs = some ({ t with bytes := bs.reverse ++ t.bytes }, .none) := by
  induction bs generalizing t with
  | nil => rfl
  | cons b bs ih =>
    obtain ⟨hb, hquote, hslash⟩ := h b List.mem_cons_self
    rw [read?, stepText_self hhigh hb hquote hslash]
    have hpush : (t.push b).high = none := hhigh
    have hrest := ih hpush fun b hb => h b (List.mem_cons_of_mem _ hb)
    dsimp only
    rw [hrest, List.reverse_cons, List.append_assoc]
    rfl

/-- The escape of a control character. -/
theorem read?_control (bytes : List UInt8) (fault : Option Fault) {n : Nat} (hn : n < 0x20) :
    ({ bytes, fault } : OpenText).read? .none
        (['\\', 'u', '0', '0', hexDigit (n / 16), hexDigit (n % 16)].flatMap
          String.utf8EncodeChar) =
      some ({ bytes := (String.utf8EncodeChar (Char.ofNat n)).reverse ++ bytes, fault },
        .none) := by
  interval_cases n <;> rfl

/-- What a character is written as puts its bytes behind the text. -/
theorem read?_escapeChar (hhigh : t.high = none) (c : Char) :
    t.read? .none ((escapeChar c).flatMap String.utf8EncodeChar) =
      some ({ t with bytes := (String.utf8EncodeChar c).reverse ++ t.bytes }, .none) := by
  obtain ⟨bytes, fault, high⟩ := t
  obtain rfl : high = none := hhigh
  unfold escapeChar
  iterate 7
    split
    · rename_i hc
      rw [hc]
      rfl
  split
  · rename_i hc
    rw [read?_control bytes fault hc, Char.ofNat_toNat]
  · rename_i hquote hslash _ _ _ _ _ hc
    rw [List.flatMap_cons, List.flatMap_nil, List.append_nil]
    refine read?_self rfl fun b hb => ?_
    by_cases hascii : c.toNat < 0x80
    · rw [Utf8.encodeChar_of_lt hascii] at hb
      obtain rfl := List.mem_singleton.1 hb
      rw [Utf8.toNat_ofNat (by omega)]
      have hne : ∀ d : Char, c ≠ d → c.toNat ≠ d.toNat := fun d hd heq =>
        hd (Char.toNat_inj.1 heq)
      exact ⟨by omega, hne '"' hquote, hne '\\' hslash⟩
    · have hle := Utf8.le_of_mem_encodeChar (by omega) hb
      omega

theorem read?_escapeChars (hhigh : t.high = none) (cs : List Char) :
    t.read? .none ((cs.flatMap escapeChar).flatMap String.utf8EncodeChar) =
      some ({ t with bytes := (cs.flatMap String.utf8EncodeChar).reverse ++ t.bytes }, .none) := by
  induction cs generalizing t with
  | nil => rfl
  | cons c cs ih =>
    have hrest := ih (t := { t with bytes := (String.utf8EncodeChar c).reverse ++ t.bytes }) hhigh
    rw [List.flatMap_cons, List.flatMap_append, read?_append (read?_escapeChar hhigh c), hrest]
    simp only [List.flatMap_cons, List.reverse_append, List.append_assoc]

theorem close_encode (s : String) :
    ({ bytes := (s.toList.flatMap String.utf8EncodeChar).reverse } : OpenText).close = .ok s := by
  rw [close]
  simp only [List.reverse_reverse]
  rw [← Utf8.encode_eq, Utf8.decode?_encode]

end OpenText

namespace Machine
variable {m : Machine} {stack : List Frame} {mode : OpenText → Escape → Mode}

/-- The mode is one for strings: what only continues the string continues the mode. -/
def ForText (stack : List Frame) (mode : OpenText → Escape → Mode) : Prop :=
  ∀ t e t' e' b, stepText t e b = .more t' e' →
    step { stack, mode := mode t e } b = { stack, mode := mode t' e' }

theorem forText_text : ForText stack .text := by
  intro t e t' e' b hstep
  simp only [step, hstep]

theorem forText_keyText {members : Members} : ForText stack (.keyText members) := by
  intro t e t' e' b hstep
  simp only [step, hstep]

theorem ForText.foldl (hmode : ForText stack mode) {t t' : OpenText} {e e' : Escape}
    {bs : List UInt8} (h : t.read? e bs = some (t', e')) :
    bs.foldl step { stack, mode := mode t e } = { stack, mode := mode t' e' } := by
  fun_induction OpenText.read? t e bs with
  | case1 t e =>
    cases h
    rfl
  | case2 t e b bs t₁ e₁ hstep ih =>
    rw [List.foldl_cons, hmode t e t₁ e₁ b hstep]
    exact ih h
  | case3 => cases h

theorem quote_toList (s : String) :
    (quote s).toList = '"' :: (s.toList.flatMap escapeChar ++ ['"']) := by
  simp only [quote, String.toList_append, String.toList_ofList]
  rfl

/-- A string is read between its quotes. -/
theorem ForText.read_quote (hmode : ForText stack mode) (closed : Except Fault String → Machine)
    (hopen : m.read ['"'] = { stack, mode := mode {} .none })
    (hclose : ∀ bytes, ({ stack, mode := mode { bytes } .none } : Machine).read ['"'] =
      closed ({ bytes } : OpenText).close) (s : String) :
    m.read (quote s).toList = closed (.ok s) := by
  have hbody : ({ stack, mode := mode {} .none } : Machine).read
      (s.toList.flatMap escapeChar) = _ :=
    hmode.foldl (OpenText.read?_escapeChars rfl s.toList)
  rw [quote_toList, read_cons, read_append, hopen, hbody, hclose, List.append_nil,
    OpenText.close_encode]

theorem read_text (stack : List Frame) (s : String) :
    ({ stack, mode := .value } : Machine).read (quote s).toList =
      complete stack (.text (.ok s)) :=
  forText_text.read_quote (fun s => complete stack (.text s)) rfl (fun _ => rfl) s

theorem read_key (stack : List Frame) (members : Members) (key : String) :
    ({ stack, mode := .key members } : Machine).read (quote key).toList =
      { stack, mode := .colon members (.ok key) } :=
  forText_keyText.read_quote (fun key => { stack, mode := .colon members key }) rfl
    (fun _ => rfl) key

end Machine

end InferenceFleet.Json
