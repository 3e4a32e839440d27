import InferenceFleet.Proofs.Text.Utf8

/-!
# The order of texts is the order of their bytes

Texts are compared character by character, their UTF-8 forms byte by byte; both say the same
(`encode_lt_iff`). The reason is that the first bytes of two characters that differ are ordered as
the characters are: a longer form begins with a greater byte, and forms of one length are written
with the higher bits first.
-/

namespace InferenceFleet.Utf8

section
variable {a b : Nat} {as bs : List UInt8}

theorem ofNat_cons_lt (h : a < b) (hb : b < 256) : UInt8.ofNat a :: as < UInt8.ofNat b :: bs := by
  refine List.cons_lt_cons_iff.2 (.inl ?_)
  rw [UInt8.lt_iff_toNat_lt, toNat_ofNat hb, toNat_ofNat (h.trans hb)]
  exact h

theorem ofNat_cons_lt_of_le (h : a ≤ b) (hb : b < 256) (hrest : a = b → as < bs) :
    UInt8.ofNat a :: as < UInt8.ofNat b :: bs := by
  rcases Nat.lt_or_eq_of_le h with h | rfl
  · exact ofNat_cons_lt h hb
  · exact List.cons_lt_cons_iff.2 (.inr ⟨rfl, hrest rfl⟩)

theorem append_lt_append_iff (before : List UInt8) : before ++ as < before ++ bs ↔ as < bs := by
  induction before with
  | nil => exact .rfl
  | cons b before ih =>
    rw [List.cons_append, List.cons_append, List.cons_lt_cons_iff, ih]
    exact ⟨fun h => (h.resolve_left (UInt8.lt_irrefl b)).2, fun h => .inr ⟨rfl, h⟩⟩

end

theorem encodeChar_append_lt {c d : Char} (h : c.toNat < d.toNat) (as bs : List UInt8) :
    String.utf8EncodeChar c ++ as < String.utf8EncodeChar d ++ bs := by
  have hc := valid c
  have hd := valid d
  -- By the lengths of the two forms; that of `c` is not the longer one.
  rcases Nat.lt_or_ge c.toNat 0x80 with hc1 | hc1
  · rw [encodeChar_of_lt hc1]
    rcases Nat.lt_or_ge d.toNat 0x80 with hd1 | hd1
    · rw [encodeChar_of_lt hd1]
      exact ofNat_cons_lt h (by omega)
    rcases Nat.lt_or_ge d.toNat 0x800 with hd2 | hd2
    · rw [encodeChar_two hd1 hd2]
      exact ofNat_cons_lt (by omega) (by omega)
    rcases Nat.lt_or_ge d.toNat 0x10000 with hd3 | hd3
    · rw [encodeChar_three hd2 hd3]
      exact ofNat_cons_lt (by omega) (by omega)
    · rw [encodeChar_four hd3]
      exact ofNat_cons_lt (by omega) (by omega)
  rcases Nat.lt_or_ge c.toNat 0x800 with hc2 | hc2
  · rw [encodeChar_two hc1 hc2]
    rcases Nat.lt_or_ge d.toNat 0x800 with hd2 | hd2
    · rw [encodeChar_two (by omega) hd2]
      refine ofNat_cons_lt_of_le (by omega) (by omega) fun heq => ?_
      exact ofNat_cons_lt (by omega) (by omega)
    rcases Nat.lt_or_ge d.toNat 0x10000 with hd3 | hd3
    · rw [encodeChar_three hd2 hd3]
      exact ofNat_cons_lt (by omega) (by omega)
    · rw [encodeChar_four hd3]
      exact ofNat_cons_lt (by omega) (by omega)
  rcases Nat.lt_or_ge c.toNat 0x10000 with hc3 | hc3
  · rw [encodeChar_three hc2 hc3]
    rcases Nat.lt_or_ge d.toNat 0x10000 with hd3 | hd3
    · rw [encodeChar_three (by omega) hd3]
      refine ofNat_cons_lt_of_le (by omega) (by omega) fun heq => ?_
      refine ofNat_cons_lt_of_le (by omega) (by omega) fun heq' => ?_
      exact ofNat_cons_lt (by omega) (by omega)
    · rw [encodeChar_four hd3]
      exact ofNat_cons_lt (by omega) (by omega)
  · rw [encodeChar_four hc3, encodeChar_four (by omega)]
    refine ofNat_cons_lt_of_le (by omega) (by omega) fun heq => ?_
    refine ofNat_cons_lt_of_le (by omega) (by omega) fun heq' => ?_
    refine ofNat_cons_lt_of_le (by omega) (by omega) fun heq'' => ?_
    exact ofNat_cons_lt (by omega) (by omega)

theorem encodeChar_ne_nil (c : Char) : String.utf8EncodeChar c ≠ [] := by
  intro h
  have hlength := congrArg List.length h
  rw [String.length_utf8EncodeChar] at hlength
  exact absurd hlength c.utf8Size_pos.ne'

theorem flatMap_lt_iff (cs ds : List Char) :
    cs.flatMap String.utf8EncodeChar < ds.flatMap String.utf8EncodeChar ↔ cs < ds := by
  induction cs generalizing ds with
  | nil =>
    cases ds with
    | nil => exact iff_of_false (List.lt_irrefl _) (List.lt_irrefl _)
    | cons d ds =>
      refine iff_of_true ?_ (List.nil_lt_cons d ds)
      rw [List.flatMap_nil, List.flatMap_cons]
      obtain ⟨b, bs, hd⟩ := List.exists_cons_of_ne_nil (encodeChar_ne_nil d)
      rw [hd]
      exact List.nil_lt_cons ..
  | cons c cs ih =>
    cases ds with
    | nil => exact iff_of_false (List.not_lt_nil _) (List.not_lt_nil _)
    | cons d ds =>
      rw [List.flatMap_cons, List.flatMap_cons]
      rcases Nat.lt_trichotomy c.toNat d.toNat with h | h | h
      · exact iff_of_true (encodeChar_append_lt h _ _) (List.cons_lt_cons_iff.2 (.inl h))
      · obtain rfl := Char.toNat_inj.1 h
        rw [append_lt_append_iff, ih, List.cons_lt_cons_iff]
        exact ⟨fun h => .inr ⟨rfl, h⟩, fun h => (h.resolve_left (Char.lt_irrefl c)).2⟩
      · refine iff_of_false (List.lt_asymm (encodeChar_append_lt h _ _)) (List.lt_asymm ?_)
        exact List.cons_lt_cons_iff.2 (.inl h)

/-- A text is before another one if its bytes are. -/
theorem encode_lt_iff (s t : String) : encode s < encode t ↔ s < t := by
  rw [encode_eq, encode_eq, flatMap_lt_iff, String.lt_iff]

end InferenceFleet.Utf8
