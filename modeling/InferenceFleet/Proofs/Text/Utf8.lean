import InferenceFleet.Text.Utf8
import Mathlib.Data.List.Basic
import Mathlib.Tactic.IntervalCases

/-!
# Reading the bytes of a text gives the text

The bytes of a character, put into the reading machine, come out as that character and leave the
machine as it was (`Reading.feed_char`), so the bytes of a text are read as the text, by the strict
reader and by the lossy one. A byte of an ASCII character is read as that character behind any bytes
(`pieces_ascii`), and such a character is read from its own byte only (`not_mem_pieces`).
-/

namespace InferenceFleet.Utf8

theorem encode_eq (text : String) : encode text = text.toList.flatMap String.utf8EncodeChar := by
  rw [encode, String.toUTF8_eq_toByteArray, ← String.utf8Encode_toList, List.utf8Encode,
    List.toList_data_toByteArray]

theorem encode_append (s t : String) : encode (s ++ t) = encode s ++ encode t := by
  rw [encode_eq, encode_eq, encode_eq, String.toList_append, List.flatMap_append]

/-! ### The bytes of a character -/

theorem valid (c : Char) : c.toNat < 0xD800 ∨ 0xDFFF < c.toNat ∧ c.toNat < 0x110000 := c.valid

theorem toNat_ofNat {n : Nat} (h : n < 256) : (UInt8.ofNat n).toNat = n := by
  rw [UInt8.toNat_ofNat', Nat.mod_eq_of_lt h]

theorem encodeChar_of_lt {c : Char} (h : c.toNat < 0x80) :
    String.utf8EncodeChar c = [UInt8.ofNat c.toNat] := by
  have hle : c.val.toNat ≤ 0x7F := Nat.le_of_lt_succ h
  simp only [String.utf8EncodeChar, hle, if_true, Char.toNat]

theorem encode_ascii {text : String} (h : ∀ c ∈ text.toList, c.toNat < 0x80) :
    encode text = text.toList.map fun c => UInt8.ofNat c.toNat := by
  rw [encode_eq, List.map_eq_flatMap]
  exact List.flatMap_congr fun c hc => encodeChar_of_lt (h c hc)

theorem encodeChar_two {c : Char} (h : 0x80 ≤ c.toNat) (h' : c.toNat < 0x800) :
    String.utf8EncodeChar c =
      [UInt8.ofNat (c.toNat / 64 + 0xC0), UInt8.ofNat (c.toNat % 64 + 0x80)] := by
  rw [Char.toNat] at *
  have h1 : ¬ c.val.toNat ≤ 0x7F := by omega
  have h2 : c.val.toNat ≤ 0x7FF := by omega
  have h3 : c.val.toNat / 64 % 32 = c.val.toNat / 64 := by omega
  simp only [String.utf8EncodeChar, h1, h2, h3, if_true, if_false]

theorem encodeChar_three {c : Char} (h : 0x800 ≤ c.toNat) (h' : c.toNat < 0x10000) :
    String.utf8EncodeChar c =
      [UInt8.ofNat (c.toNat / 4096 + 0xE0), UInt8.ofNat (c.toNat / 64 % 64 + 0x80),
        UInt8.ofNat (c.toNat % 64 + 0x80)] := by
  rw [Char.toNat] at *
  have h1 : ¬ c.val.toNat ≤ 0x7F := by omega
  have h2 : ¬ c.val.toNat ≤ 0x7FF := by omega
  have h3 : c.val.toNat ≤ 0xFFFF := by omega
  have h4 : c.val.toNat / 4096 % 16 = c.val.toNat / 4096 := by omega
  simp only [String.utf8EncodeChar, h1, h2, h3, h4, if_true, if_false]

theorem encodeChar_four {c : Char} (h : 0x10000 ≤ c.toNat) :
    String.utf8EncodeChar c =
      [UInt8.ofNat (c.toNat / 262144 + 0xF0), UInt8.ofNat (c.toNat / 4096 % 64 + 0x80),
        UInt8.ofNat (c.toNat / 64 % 64 + 0x80), UInt8.ofNat (c.toNat % 64 + 0x80)] := by
  have hvalid := valid c
  rw [Char.toNat] at *
  have h1 : ¬ c.val.toNat ≤ 0x7F := by omega
  have h2 : ¬ c.val.toNat ≤ 0x7FF := by omega
  have h3 : ¬ c.val.toNat ≤ 0xFFFF := by omega
  have h4 : c.val.toNat / 262144 % 8 = c.val.toNat / 262144 := by omega
  simp only [String.utf8EncodeChar, h1, h2, h3, h4, if_false]

/-- Beyond the first 128 characters no byte is one of theirs. -/
theorem le_of_mem_encodeChar {c : Char} (h : 0x80 ≤ c.toNat) {b : UInt8}
    (hb : b ∈ String.utf8EncodeChar c) : 0x80 ≤ b.toNat := by
  have hvalid := valid c
  by_cases h2 : c.toNat < 0x800
  · rw [encodeChar_two h h2] at hb
    simp only [List.mem_cons, List.not_mem_nil, or_false] at hb
    rcases hb with rfl | rfl <;> rw [toNat_ofNat (by omega)] <;> omega
  · by_cases h3 : c.toNat < 0x10000
    · rw [encodeChar_three (by omega) h3] at hb
      simp only [List.mem_cons, List.not_mem_nil, or_false] at hb
      rcases hb with rfl | rfl | rfl <;> rw [toNat_ofNat (by omega)] <;> omega
    · rw [encodeChar_four (by omega)] at hb
      simp only [List.mem_cons, List.not_mem_nil, or_false] at hb
      rcases hb with rfl | rfl | rfl | rfl <;> rw [toNat_ofNat (by omega)] <;> omega

/-- A text without line feeds is written without them. -/
theorem feed_not_mem_encode {text : String} (h : '\n' ∉ text.toList) : 0x0A ∉ encode text := by
  intro hmem
  rw [encode_eq, List.mem_flatMap] at hmem
  obtain ⟨c, hc, hb⟩ := hmem
  by_cases hlt : c.toNat < 0x80
  · rw [encodeChar_of_lt hlt, List.mem_singleton] at hb
    have hcode : (0x0A : UInt8).toNat = c.toNat := by rw [hb, toNat_ofNat (by omega)]
    have hfeed : c = '\n' := Char.toNat_inj.1 hcode.symm
    exact h (hfeed ▸ hc)
  · have hle := le_of_mem_encodeChar (Nat.not_lt.1 hlt) hb
    revert hle
    decide

/-! ### Feeding a character -/

namespace Reading

variable {done : List (Option Char)}

theorem start_one {n : Nat} (h : n < 0x80) :
    start done (UInt8.ofNat n) = { done := some (Char.ofNat n) :: done } := by
  simp only [start, toNat_ofNat (show n < 256 by omega), h, if_true]

theorem start_two {k : Nat} (h : 2 ≤ k) (h' : k < 32) :
    start done (UInt8.ofNat (k + 0xC0)) =
      { done, pending := some { more := 0, value := k } } := by
  interval_cases k <;> rfl

/-- The second byte of three leaves out spellings longer than needed, and surrogates. -/
theorem start_three {k : Nat} (h : k < 16) :
    start done (UInt8.ofNat (k + 0xE0)) =
      { done
        pending := some
          { more := 1
            value := k
            least := if k = 0 then 0xA0 else 0x80
            greatest := if k = 13 then 0x9F else 0xBF } } := by
  interval_cases k <;> rfl

/-- The second byte of four leaves out spellings longer than needed, and what is no code point. -/
theorem start_four {k : Nat} (h : k < 5) :
    start done (UInt8.ofNat (k + 0xF0)) =
      { done
        pending := some
          { more := 2
            value := k
            least := if k = 0 then 0x90 else 0x80
            greatest := if k = 4 then 0x8F else 0xBF } } := by
  interval_cases k <;> rfl

variable {p : Partial} {k : Nat}

theorem feed_last (hmore : p.more = 0) (hk : k < 64) (hleast : p.least.toNat ≤ k + 0x80)
    (hgreatest : k + 0x80 ≤ p.greatest.toNat) :
    feed { done, pending := some p } (UInt8.ofNat (k + 0x80)) =
      { done := some (Char.ofNat (p.value * 64 + k)) :: done } := by
  have hbyte : (UInt8.ofNat (k + 0x80)).toNat = k + 0x80 := toNat_ofNat (by omega)
  have hrange : p.least ≤ UInt8.ofNat (k + 0x80) ∧ UInt8.ofNat (k + 0x80) ≤ p.greatest := by
    rw [UInt8.le_iff_toNat_le, UInt8.le_iff_toNat_le, hbyte]
    exact ⟨hleast, hgreatest⟩
  simp only [feed, hrange, if_true, hmore, hbyte, Nat.add_sub_cancel, and_self]

theorem feed_more {more : Nat} (hmore : p.more = more + 1) (hk : k < 64)
    (hleast : p.least.toNat ≤ k + 0x80) (hgreatest : k + 0x80 ≤ p.greatest.toNat) :
    feed { done, pending := some p } (UInt8.ofNat (k + 0x80)) =
      { done, pending := some { more, value := p.value * 64 + k } } := by
  have hbyte : (UInt8.ofNat (k + 0x80)).toNat = k + 0x80 := toNat_ofNat (by omega)
  have hrange : p.least ≤ UInt8.ofNat (k + 0x80) ∧ UInt8.ofNat (k + 0x80) ≤ p.greatest := by
    rw [UInt8.le_iff_toNat_le, UInt8.le_iff_toNat_le, hbyte]
    exact ⟨hleast, hgreatest⟩
  simp only [feed, hrange, if_true, hmore, hbyte, Nat.add_sub_cancel, and_self]

theorem feed_two {c : Char} (h : 0x80 ≤ c.toNat) (h' : c.toNat < 0x800) :
    (String.utf8EncodeChar c).foldl feed { done } = { done := some c :: done } := by
  have hstart : feed { done } (UInt8.ofNat (c.toNat / 64 + 0xC0)) = _ :=
    start_two (by omega) (by omega)
  have hvalue : c.toNat / 64 * 64 + c.toNat % 64 = c.toNat := by omega
  rw [encodeChar_two h h', List.foldl_cons, List.foldl_cons, List.foldl_nil, hstart,
    feed_last rfl (by omega) (by simp) (by simp; omega), hvalue, Char.ofNat_toNat]

theorem feed_three {c : Char} (h : 0x800 ≤ c.toNat) (h' : c.toNat < 0x10000) :
    (String.utf8EncodeChar c).foldl feed { done } = { done := some c :: done } := by
  have hvalid := valid c
  have hstart : feed { done } (UInt8.ofNat (c.toNat / 4096 + 0xE0)) = _ := start_three (by omega)
  have hvalue : (c.toNat / 4096 * 64 + c.toNat / 64 % 64) * 64 + c.toNat % 64 = c.toNat := by omega
  rw [encodeChar_three h h', List.foldl_cons, List.foldl_cons, List.foldl_cons, List.foldl_nil,
    hstart, feed_more rfl (by omega) ?least ?greatest,
    feed_last rfl (by omega) (by simp) (by simp; omega), hvalue, Char.ofNat_toNat]
  case least =>
    dsimp only
    split
    · simp
      omega
    · simp
  case greatest =>
    dsimp only
    split
    · simp
      omega
    · simp
      omega

theorem feed_four {c : Char} (h : 0x10000 ≤ c.toNat) :
    (String.utf8EncodeChar c).foldl feed { done } = { done := some c :: done } := by
  have hvalid := valid c
  have hstart : feed { done } (UInt8.ofNat (c.toNat / 262144 + 0xF0)) = _ := start_four (by omega)
  have hvalue : ((c.toNat / 262144 * 64 + c.toNat / 4096 % 64) * 64 + c.toNat / 64 % 64) * 64 +
      c.toNat % 64 = c.toNat := by omega
  rw [encodeChar_four h, List.foldl_cons, List.foldl_cons, List.foldl_cons, List.foldl_cons,
    List.foldl_nil, hstart, feed_more rfl (by omega) ?least ?greatest,
    feed_more rfl (by omega) (by simp) (by simp; omega),
    feed_last rfl (by omega) (by simp) (by simp; omega), hvalue, Char.ofNat_toNat]
  case least =>
    dsimp only
    split
    · simp
      omega
    · simp
  case greatest =>
    dsimp only
    split
    · simp
      omega
    · simp
      omega

/-- The bytes of a character are read as the character. -/
theorem feed_char (done : List (Option Char)) (c : Char) :
    (String.utf8EncodeChar c).foldl feed { done } = { done := some c :: done } := by
  by_cases h1 : c.toNat < 0x80
  · rw [encodeChar_of_lt h1, List.foldl_cons, List.foldl_nil]
    have hstart : feed { done } (UInt8.ofNat c.toNat) = _ := start_one h1
    rw [hstart, Char.ofNat_toNat]
  · by_cases h2 : c.toNat < 0x800
    · exact feed_two (by omega) h2
    · by_cases h3 : c.toNat < 0x10000
      · exact feed_three (by omega) h3
      · exact feed_four (by omega)

theorem feed_chars (done : List (Option Char)) (cs : List Char) :
    (cs.flatMap String.utf8EncodeChar).foldl feed { done } =
      { done := (cs.map some).reverse ++ done } := by
  induction cs generalizing done with
  | nil => rfl
  | cons c cs ih =>
    rw [List.flatMap_cons, List.foldl_append, feed_char, ih, List.map_cons, List.reverse_cons,
      List.append_assoc, List.singleton_append]

end Reading

theorem pieces_encode (text : String) : pieces (encode text) = text.toList.map some := by
  rw [pieces, encode_eq, Reading.feed_chars, Reading.finish, List.append_nil, List.reverse_reverse]

theorem decode?_encode (text : String) : decode? (encode text) = some text := by
  have hread : (id ∘ some : Char → Option Char) = fun c => pure (id c) := rfl
  rw [decode?, pieces_encode, List.mapM_map, hread, List.mapM_pure, List.map_id]
  exact congrArg some String.ofList_toList

theorem decodeLossy_encode (text : String) : decodeLossy (encode text) = text := by
  rw [decodeLossy, pieces_encode, List.map_map]
  have hget : (fun p : Option Char => p.getD '\uFFFD') ∘ some = id := rfl
  rw [hget, List.map_id, String.ofList_toList]

/-! ### ASCII characters in any bytes -/

/-- The ranges for the next byte leave out every longer spelling of an ASCII character. -/
structure Partial.Proper (p : Partial) : Prop where
  least : 0x80 ≤ p.least.toNat
  value : 2 ≤ p.value * 64 + (p.least.toNat - 0x80)
  last : p.more = 0 → 0x80 ≤ p.value * 64 + (p.least.toNat - 0x80)

namespace Reading
variable {r : Reading} {b : UInt8} {bytes : List UInt8}

/-- The pieces if nothing more comes, latest first. -/
def settled (r : Reading) : List (Option Char) :=
  match r.pending with
  | none => r.done
  | some _ => none :: r.done

theorem finish_eq (r : Reading) : r.finish = r.settled.reverse := by
  rw [finish, settled]
  cases r.pending <;> rfl

def Proper (r : Reading) : Prop := ∀ p, r.pending = some p → p.Proper

theorem proper_start (done : List (Option Char)) (b : UInt8) : (start done b).Proper := by
  intro p hp
  simp only [start] at hp
  split at hp
  · cases hp
  split at hp
  · cases hp
  iterate 7
    split at hp
    · cases hp
      exact ⟨by simp, by simp; try omega, by simp; try omega⟩
  cases hp

theorem Proper.feed (h : r.Proper) (b : UInt8) : (r.feed b).Proper := by
  simp only [Reading.feed]
  split
  · exact proper_start _ _
  · rename_i p hp
    obtain ⟨hleast, hvalue, -⟩ := h p hp
    split
    · rename_i hrange
      have hb := UInt8.le_iff_toNat_le.1 hrange.1
      split
      · nofun
      · intro q hq
        cases hq
        have hleast' : (0x80 : UInt8).toNat = 0x80 := rfl
        refine ⟨by rw [hleast'], ?_, fun _ => ?_⟩ <;> dsimp only <;> rw [hleast'] <;> omega
    · exact proper_start _ _

theorem Proper.foldl (h : r.Proper) (bytes : List UInt8) : (bytes.foldl Reading.feed r).Proper := by
  induction bytes generalizing r with
  | nil => exact h
  | cons b bytes ih => exact ih (h.feed b)

/-- An ASCII character ends whatever was open. -/
theorem feed_ascii (h : r.Proper) (hb : b.toNat < 0x80) :
    r.feed b = { done := some (Char.ofNat b.toNat) :: r.settled } := by
  have hstart (done) : start done b = { done := some (Char.ofNat b.toNat) :: done } :=
    if_pos hb
  cases hp : r.pending with
  | none => simp only [feed, settled, hp, hstart]
  | some p =>
    have hleast := (h p hp).least
    have hrange : ¬ (p.least ≤ b ∧ b ≤ p.greatest) := fun hrange => by
      have hle := UInt8.le_iff_toNat_le.1 hrange.1
      omega
    simp only [feed, settled, hp, hstart, if_neg hrange]

/-- The reading with earlier pieces. -/
def behind (r : Reading) (done : List (Option Char)) : Reading := { r with done := r.done ++ done }

theorem start_behind (d done : List (Option Char)) (b : UInt8) :
    start (d ++ done) b = (start d b).behind done := by
  simp only [start]
  iterate 9
    split
    · rfl
  rfl

theorem feed_behind (r : Reading) (done : List (Option Char)) (b : UInt8) :
    (r.behind done).feed b = (r.feed b).behind done := by
  simp only [feed, behind]
  cases r.pending with
  | none => exact start_behind r.done done b
  | some p =>
    dsimp only
    split
    · cases p.more <;> rfl
    · exact start_behind (none :: r.done) done b

theorem foldl_behind (r : Reading) (done : List (Option Char)) (bytes : List UInt8) :
    bytes.foldl feed (r.behind done) = (bytes.foldl feed r).behind done := by
  induction bytes generalizing r with
  | nil => rfl
  | cons b bytes ih => rw [List.foldl_cons, List.foldl_cons, feed_behind, ih]

theorem finish_behind (r : Reading) (done : List (Option Char)) :
    (r.behind done).finish = done.reverse ++ r.finish := by
  simp only [finish, behind]
  cases r.pending <;> simp

theorem ofNat_ne {m n : Nat} (hn : 0 < n) (hn' : n < 0x80) (h : m ≠ n) :
    Char.ofNat m ≠ Char.ofNat n := by
  intro heq
  have hcode {k : Nat} (hk : k.isValidChar) : (Char.ofNat k).toNat = k := by
    rw [Char.ofNat, dif_pos hk]
    rfl
  have hsame : (Char.ofNat m).toNat = n := heq ▸ hcode (.inl (by omega))
  by_cases hm : m.isValidChar
  · exact h ((hcode hm).symm.trans hsame)
  · have hzero : (Char.ofNat m).toNat = 0 := by
      rw [Char.ofNat, dif_neg hm]
      rfl
    omega

theorem not_mem_start {done : List (Option Char)} {c : UInt8} (hc : 0 < c.toNat)
    (hc' : c.toNat < 0x80) (hb : c ≠ b) (h : some (Char.ofNat c.toNat) ∉ done) :
    some (Char.ofNat c.toNat) ∉ (start done b).done := by
  have hne : b.toNat ≠ c.toNat := fun heq => hb (UInt8.toNat_inj.1 heq).symm
  simp only [start]
  split
  · intro hmem
    rcases List.mem_cons.1 hmem with heq | hmem
    · exact ofNat_ne hc hc' hne (Option.some.inj heq).symm
    · exact h hmem
  split
  · exact fun hmem => (List.mem_cons.1 hmem).elim nofun h
  iterate 7
    split
    · exact h
  exact fun hmem => (List.mem_cons.1 hmem).elim nofun h

theorem not_mem_feed {c : UInt8} (hproper : r.Proper) (hc : 0 < c.toNat) (hc' : c.toNat < 0x80)
    (hb : c ≠ b) (h : some (Char.ofNat c.toNat) ∉ r.done) :
    some (Char.ofNat c.toNat) ∉ (r.feed b).done := by
  simp only [feed]
  split
  · exact not_mem_start hc hc' hb h
  · rename_i p hp
    obtain ⟨-, -, hlast⟩ := hproper p hp
    split
    · rename_i hrange
      have hle := UInt8.le_iff_toNat_le.1 hrange.1
      split
      · rename_i hmore
        have hfar := hlast hmore
        intro hmem
        rcases List.mem_cons.1 hmem with heq | hmem
        · exact ofNat_ne hc hc' (by omega) (Option.some.inj heq).symm
        · exact h hmem
      · exact h
    · exact not_mem_start hc hc' hb fun hmem => (List.mem_cons.1 hmem).elim nofun h

theorem not_mem_foldl {c : UInt8} (hproper : r.Proper) (hc : 0 < c.toNat) (hc' : c.toNat < 0x80)
    (hb : c ∉ bytes) (h : some (Char.ofNat c.toNat) ∉ r.done) :
    some (Char.ofNat c.toNat) ∉ (bytes.foldl feed r).done := by
  induction bytes generalizing r with
  | nil => exact h
  | cons b bytes ih =>
    obtain ⟨hne, hrest⟩ := List.ne_and_not_mem_of_not_mem_cons hb
    exact ih (hproper.feed b) hrest (not_mem_feed hproper hc hc' hne h)

end Reading

theorem pieces_ascii (before after : List UInt8) {b : UInt8} (hb : b.toNat < 0x80) :
    pieces (before ++ b :: after) = pieces before ++ some (Char.ofNat b.toNat) :: pieces after := by
  have hproper : Reading.Proper {} := nofun
  have hbehind : ({ done := some (Char.ofNat b.toNat) ::
      (before.foldl Reading.feed {}).settled } : Reading) = Reading.behind {} (some (Char.ofNat
        b.toNat) :: (before.foldl Reading.feed {}).settled) := rfl
  rw [pieces, List.foldl_append, List.foldl_cons, Reading.feed_ascii (hproper.foldl before) hb,
    hbehind, Reading.foldl_behind, Reading.finish_behind, List.reverse_cons, ← Reading.finish_eq,
    List.append_assoc]
  rfl

theorem not_mem_pieces {bytes : List UInt8} {c : UInt8} (hc : 0 < c.toNat) (hc' : c.toNat < 0x80)
    (h : c ∉ bytes) : some (Char.ofNat c.toNat) ∉ pieces bytes := by
  have hproper : Reading.Proper {} := nofun
  have hdone := Reading.not_mem_foldl hproper hc hc' h List.not_mem_nil
  rw [pieces, Reading.finish_eq, List.mem_reverse, Reading.settled]
  split
  · exact hdone
  · exact fun hmem => (List.mem_cons.1 hmem).elim nofun hdone

theorem decodeLossy_ascii (before after : List UInt8) {b : UInt8} (hb : b.toNat < 0x80) :
    (decodeLossy (before ++ b :: after)).toList =
      (decodeLossy before).toList ++ Char.ofNat b.toNat :: (decodeLossy after).toList := by
  simp only [decodeLossy, String.toList_ofList, pieces_ascii before after hb, List.map_append,
    List.map_cons, Option.getD_some]

theorem not_mem_decodeLossy {bytes : List UInt8} {c : UInt8} (hc : 0 < c.toNat)
    (hc' : c.toNat < 0x80) (h : c ∉ bytes) :
    Char.ofNat c.toNat ∉ (decodeLossy bytes).toList := by
  rw [decodeLossy, String.toList_ofList, List.mem_map]
  rintro ⟨p, hp, heq⟩
  cases p with
  | none => exact Reading.ofNat_ne (m := 0xFFFD) hc hc' (by omega) heq
  | some d =>
    have hd : d = Char.ofNat c.toNat := heq
    exact not_mem_pieces hc hc' h (hd ▸ hp)

end InferenceFleet.Utf8
