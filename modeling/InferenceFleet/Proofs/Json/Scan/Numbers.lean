import InferenceFleet.Proofs.Json.Scan.Strings

/-!
# Scanning a number

The characters of a proper numeral make up the number that is open (`read?_numeral`). A number is
complete only when something follows it or the text ends, so the machine that has read it is
described by what it does next (`Machine.Has`).
-/

namespace InferenceFleet.Json

namespace OpenNumber
variable {n : OpenNumber}

/-- The number after characters that all belong to it. -/
def read? (n : OpenNumber) : List Char → Option OpenNumber
  | [] => some n
  | c :: cs =>
    match n.feed c with
    | some (some n) => n.read? cs
    | _ => none

theorem read?_append {n' : OpenNumber} {cs : List Char} (h : n.read? cs = some n')
    (ds : List Char) : n.read? (cs ++ ds) = n'.read? ds := by
  fun_induction read? n cs with
  | case1 n =>
    cases h
    rfl
  | case2 n c cs n₁ hfeed ih =>
    rw [List.cons_append, read?, hfeed]
    exact ih h
  | case3 => cases h

/-- Digits, when each goes in front of those that the number has at some place. -/
theorem read?_digits {f : List Digit → OpenNumber}
    (h : ∀ ds d, (f ds).feed d.toChar = some (some (f (d :: ds)))) (ds more : List Digit) :
    (f ds).read? (more.map Digit.toChar) = some (f (more.reverse ++ ds)) := by
  induction more generalizing ds with
  | nil => rfl
  | cons d more ih =>
    rw [List.map_cons, read?, h]
    dsimp only
    rw [ih (d :: ds), List.reverse_cons, List.append_assoc]
    rfl

theorem feed_whole (hpart : n.part = .whole) (d : Digit) :
    n.feed d.toChar = some (some { n with whole := d :: n.whole }) := by
  rw [feed, Digit.ofChar?_toChar]
  simp only [hpart]

theorem read?_whole (hpart : n.part = .whole) (ds : List Digit) :
    n.read? (ds.map Digit.toChar) = some { n with whole := ds.reverse ++ n.whole } :=
  read?_digits (f := fun ds => { n with whole := ds })
    (fun ds d => feed_whole (n := { n with whole := ds }) hpart d) n.whole ds

theorem feed_fraction (hpart : n.part = .point ∨ n.part = .fraction) (d : Digit) :
    n.feed d.toChar = some (some { n with part := .fraction, fraction := d :: n.fraction }) := by
  rw [feed, Digit.ofChar?_toChar]
  rcases hpart with hpart | hpart <;> simp only [hpart]

theorem read?_fraction (hpart : n.part = .point ∨ n.part = .fraction) (d : Digit)
    (ds : List Digit) : n.read? ((d :: ds).map Digit.toChar) =
      some { n with part := .fraction, fraction := (d :: ds).reverse ++ n.fraction } := by
  rw [List.map_cons, read?, feed_fraction hpart, List.reverse_cons, List.append_assoc]
  exact read?_digits (f := fun ds => { n with part := .fraction, fraction := ds })
    (fun _ d => feed_fraction (.inr rfl) d) (d :: n.fraction) ds

theorem feed_exponent
    (hpart : n.part = .mark ∨ n.part = .exponentSign ∨ n.part = .exponent) (d : Digit) :
    n.feed d.toChar = some (some { n with part := .exponent, exponent := d :: n.exponent }) := by
  rw [feed, Digit.ofChar?_toChar]
  rcases hpart with hpart | hpart | hpart <;> simp only [hpart]

theorem read?_exponent (hpart : n.part = .mark ∨ n.part = .exponentSign ∨ n.part = .exponent)
    (d : Digit) (ds : List Digit) : n.read? ((d :: ds).map Digit.toChar) =
      some { n with part := .exponent, exponent := (d :: ds).reverse ++ n.exponent } := by
  rw [List.map_cons, read?, feed_exponent hpart, List.reverse_cons, List.append_assoc]
  exact read?_digits (f := fun ds => { n with part := .exponent, exponent := ds })
    (fun _ d => feed_exponent (.inr (.inr rfl)) d) (d :: n.exponent) ds

/-- The number once its sign and its digits before the point are read. -/
def ofWhole (negative : Bool) (ds : List Digit) : OpenNumber :=
  { part := if ds = [0] then .zero else .whole, negative, whole := ds.reverse }

theorem ofWhole_part (negative : Bool) (ds : List Digit) :
    (ofWhole negative ds).part = .zero ∨ (ofWhole negative ds).part = .whole := by
  unfold ofWhole
  split
  · exact .inl rfl
  · exact .inr rfl

theorem read?_wholeRest (negative : Bool) {d : Digit} {ds : List Digit}
    (h : d :: ds = [0] ∨ d ≠ 0) :
    (ofWhole negative [d]).read? (ds.map Digit.toChar) = some (ofWhole negative (d :: ds)) := by
  rcases h with h | h
  · obtain ⟨rfl, rfl⟩ := List.cons.inj h
    rfl
  · have hpart : (ofWhole negative [d]).part = .whole := by simp [ofWhole, h]
    rw [read?_whole hpart]
    simp [ofWhole, h]

theorem read?_fractionChars (hpart : n.part = .zero ∨ n.part = .whole)
    (hempty : n.fraction = []) {fraction : Option (List Digit)} (h : fraction ≠ some []) :
    n.read? (Numeral.fractionChars fraction) =
      some { n with
        part := if fraction.isSome then .fraction else n.part
        fraction := (fraction.getD []).reverse } := by
  match fraction, h with
  | none, _ =>
    obtain ⟨part, negative, whole, fraction⟩ := n
    obtain rfl : fraction = [] := hempty
    rfl
  | some (d :: ds), _ =>
    have hpoint : n.feed '.' = some (some { n with part := .point }) := by
      rcases hpart with hpart | hpart <;> simp [feed, hpart, Digit.ofChar?]
    rw [Numeral.fractionChars, read?, hpoint]
    dsimp only
    rw [read?_fraction (.inl rfl), hempty, List.append_nil]
    rfl

theorem read?_exponentChars (hpart : n.part = .zero ∨ n.part = .whole ∨ n.part = .fraction)
    (hsign : n.exponentSign = .none) (hempty : n.exponent = [])
    {exponent : Option (ExponentSign × List Digit)} (h : ∀ sign, exponent ≠ some (sign, [])) :
    n.read? (Numeral.exponentChars exponent) =
      some { n with
        part := if exponent.isSome then .exponent else n.part
        exponentSign := (exponent.map (·.1)).getD .none
        exponent := ((exponent.map (·.2)).getD []).reverse } := by
  have hmark : n.feed 'e' = some (some { n with part := .mark }) := by
    rcases hpart with hpart | hpart | hpart <;> simp [feed, hpart, Digit.ofChar?]
  obtain ⟨part, negative, whole, fraction, exponentSign, digits⟩ := n
  obtain rfl : exponentSign = .none := hsign
  obtain rfl : digits = [] := hempty
  match exponent, h with
  | none, _ => rfl
  | some (sign, []), h => exact absurd rfl (h sign)
  | some (.none, d :: ds), _ =>
    rw [Numeral.exponentChars, read?, hmark]
    dsimp only
    rw [read?_exponent (.inl rfl), List.append_nil]
    rfl
  | some (.plus, d :: ds), _ =>
    rw [Numeral.exponentChars, read?, hmark]
    dsimp only
    have hplus : feed { part := .mark, negative, whole, fraction } '+' = some (some
        { part := .exponentSign, negative, whole, fraction, exponentSign := .plus }) := rfl
    rw [read?, hplus]
    dsimp only
    rw [read?_exponent (.inr (.inl rfl)), List.append_nil]
    rfl
  | some (.minus, d :: ds), _ =>
    rw [Numeral.exponentChars, read?, hmark]
    dsimp only
    have hminus : feed { part := .mark, negative, whole, fraction } '-' = some (some
        { part := .exponentSign, negative, whole, fraction, exponentSign := .minus }) := rfl
    rw [read?, hminus]
    dsimp only
    rw [read?_exponent (.inr (.inl rfl)), List.append_nil]
    rfl

/-- The number once all its characters are read. -/
def ofNumeral (n : Numeral) : OpenNumber :=
  { part :=
      if n.exponent.isSome then .exponent
      else if n.fraction.isSome then .fraction
      else if n.whole = [0] then .zero
      else .whole
    negative := n.negative
    whole := n.whole.reverse
    fraction := (n.fraction.getD []).reverse
    exponentSign := (n.exponent.map (·.1)).getD .none
    exponent := ((n.exponent.map (·.2)).getD []).reverse }

theorem read?_numeral {n : Numeral} (hn : n.Proper) :
    (ofWhole n.negative n.whole).read?
      (Numeral.fractionChars n.fraction ++ Numeral.exponentChars n.exponent) =
      some (ofNumeral n) := by
  have hpart := ofWhole_part n.negative n.whole
  rw [read?_append (read?_fractionChars hpart rfl hn.fraction),
    read?_exponentChars _ rfl rfl hn.exponent]
  · rfl
  · dsimp only
    split
    · exact .inr (.inr rfl)
    · exact hpart.elim .inl fun h => .inr (.inl h)

theorem isWhole_ofNumeral (n : Numeral) : (ofNumeral n).isWhole = true := by
  unfold ofNumeral isWhole
  dsimp only
  split_ifs <;> rfl

theorem numeral_ofNumeral {n : Numeral} (hn : n.Proper) : (ofNumeral n).numeral = n := by
  obtain ⟨negative, whole, fraction, exponent⟩ := n
  obtain ⟨-, hfraction, hexponent⟩ := hn
  simp only [ofNumeral, numeral, List.reverse_reverse, Numeral.mk.injEq, true_and]
  refine ⟨?_, ?_⟩
  · match fraction, hfraction with
    | none, _ => rfl
    | some (d :: ds), _ => simp
  · match exponent, hexponent with
    | none, _ => rfl
    | some (sign, []), h => exact absurd rfl (h sign)
    | some (sign, d :: ds), _ => simp

theorem lt_of_feed {n' : OpenNumber} {c : Char} (h : n.feed c = some (some n')) :
    c.toNat < 0x80 := by
  by_contra hge
  have hne : ∀ d : Char, d.toNat < 0x80 → c ≠ d := fun d hd heq => hge (heq ▸ hd)
  have hdigit : Digit.ofChar? c = none := by
    unfold Digit.ofChar?
    split
    · omega
    · rfl
  simp only [feed, hdigit, hne '+' (by decide), hne '-' (by decide), hne '.' (by decide),
    hne 'e' (by decide), hne 'E' (by decide), if_false, or_self] at h
  split at h <;> cases h

/-- A number that may end here does end before what can follow a value. -/
theorem feed_of_isWhole (h : n.isWhole = true) {c : Char} (hc : c ∈ [',', ']', '\x7d']) :
    n.feed c = none := by
  obtain ⟨part⟩ := n
  simp only [List.mem_cons, List.not_mem_nil, or_false] at hc
  rcases hc with rfl | rfl | rfl <;> cases part <;> first | rfl | cases h

end OpenNumber

namespace Machine
variable {m : Machine} {stack : List Frame} {d : Doc}

/-- The machine has read the document `d` inside `stack`: it goes on as after `d`, or is done. -/
structure Has (m : Machine) (stack : List Frame) (d : Doc) : Prop where
  next : ∀ b : UInt8, Char.ofNat b.toNat ∈ [',', ']', '\x7d'] → m.step b = (complete stack d).step b
  last : stack = [] → m.finish = { root := d, surplus := false }

theorem Has.complete (stack : List Frame) (d : Doc) : (complete stack d).Has stack d where
  next _ _ := rfl
  last h := by rw [h]; rfl

theorem step_complete (stack : List Frame) (d : Doc) (b : UInt8) :
    (Machine.complete stack d).step b =
      (Machine.complete stack d).afterValue (Char.ofNat b.toNat) := by
  match stack with
  | [] => rfl
  | .list _ :: _ => rfl
  | .member _ _ :: _ => rfl
  | .keyless :: _ => rfl

theorem Has.number (stack : List Frame) {n : OpenNumber} (h : n.isWhole = true) :
    ({ stack, mode := .number n } : Machine).Has stack (.number n.numeral) where
  next b hb := by
    rw [step_complete]
    simp only [step, OpenNumber.feed_of_isWhole h hb]
  last hstack := by
    subst hstack
    simp only [finish, h, if_true]
    rfl

theorem read_number {n n' : OpenNumber} {cs : List Char} (h : n.read? cs = some n') :
    ({ stack, mode := .number n } : Machine).read cs = { stack, mode := .number n' } := by
  fun_induction OpenNumber.read? n cs with
  | case1 n =>
    cases h
    rfl
  | case2 n c cs n₁ hfeed ih =>
    have hascii := OpenNumber.lt_of_feed hfeed
    have hstep : ({ stack, mode := .number n } : Machine).step (UInt8.ofNat c.toNat) =
        { stack, mode := .number n₁ } := by
      simp only [step, ofNat_toNat_ofNat hascii, hfeed]
    rw [read_ascii _ hascii, hstep]
    exact ih h
  | case3 => cases h

theorem read_firstDigit (stack : List Frame) (negative : Bool) (d : Digit) :
    ({ stack, mode := .value } : Machine).read (Numeral.signChars negative ++ [d.toChar]) =
      { stack, mode := .number (.ofWhole negative [d]) } := by
  obtain ⟨k, hk⟩ := d
  cases negative <;> interval_cases k <;> rfl

/-- The sign and the digits before the point of a numeral that begins a value. -/
theorem read_whole (stack : List Frame) {n : Numeral} (hn : n.Proper) :
    ({ stack, mode := .value } : Machine).read
        (Numeral.signChars n.negative ++ n.whole.map Digit.toChar) =
      { stack, mode := .number (.ofWhole n.negative n.whole) } := by
  obtain ⟨d, ds, hwhole, hd⟩ : ∃ d ds, n.whole = d :: ds ∧ (d :: ds = [0] ∨ d ≠ 0) := by
    rcases hn.whole with h | ⟨d, ds, h, hd⟩
    · exact ⟨0, [], h, .inl rfl⟩
    · exact ⟨d, ds, h, .inr hd⟩
  have hrest := OpenNumber.read?_wholeRest n.negative hd
  rw [hwhole, List.map_cons, ← List.singleton_append, ← List.append_assoc, read_append,
    read_firstDigit]
  exact read_number hrest

theorem has_number (stack : List Frame) {n : Numeral} (hn : n.Proper) :
    (({ stack, mode := .value } : Machine).read n.print.toList).Has stack (.number n) := by
  have hread : ({ stack, mode := .value } : Machine).read n.print.toList =
      { stack, mode := .number (.ofNumeral n) } := by
    rw [Numeral.print_toList, List.append_assoc, read_append, read_whole stack hn]
    exact read_number (OpenNumber.read?_numeral hn)
  have hhas := Has.number stack (OpenNumber.isWhole_ofNumeral n)
  rw [OpenNumber.numeral_ofNumeral hn] at hhas
  rw [hread]
  exact hhas

end Machine

end InferenceFleet.Json
