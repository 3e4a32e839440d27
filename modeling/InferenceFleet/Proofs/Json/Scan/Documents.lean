import InferenceFleet.Proofs.Json.Scan.Numbers

/-!
# Scanning a printed document

The machine, before the text of a plain document and with any containers around it, reads that
document (`read_print`). So the text of a plain document is scanned as the document
(`scanText_print`).
-/

namespace InferenceFleet.Json

namespace Machine
variable {m : Machine} {stack : List Frame} {d : Doc}

/-- The character begins a value; it is neither a blank nor the end of a list. -/
def Opens (c : Char) : Prop := c.toNat < 0x80 ∧ isSpace c = false ∧ c ≠ ']'

instance (c : Char) : Decidable (Opens c) :=
  inferInstanceAs (Decidable (c.toNat < 0x80 ∧ isSpace c = false ∧ c ≠ ']'))

theorem opens_number {n : Numeral} (hn : n.Proper) :
    ∃ c cs, n.print.toList = c :: cs ∧ Opens c := by
  have hdigit : ∀ d : Digit, Opens d.toChar := by decide
  obtain ⟨d, ds, hwhole⟩ : ∃ d ds, n.whole = d :: ds := by
    rcases hn.whole with h | ⟨d, ds, h, -⟩
    · exact ⟨0, [], h⟩
    · exact ⟨d, ds, h⟩
  rw [Numeral.print_toList, hwhole]
  cases n.negative
  · exact ⟨d.toChar, _, rfl, hdigit d⟩
  · exact ⟨'-', _, rfl, by decide⟩

theorem opens_print {d : Doc} (h : d.Plain) : ∃ c cs, d.print.toList = c :: cs ∧ Opens c := by
  cases h with
  | null => exact ⟨'n', _, rfl, by decide⟩
  | flag b =>
    cases b
    · exact ⟨'f', _, rfl, by decide⟩
    · exact ⟨'t', _, rfl, by decide⟩
  | number hn => exact opens_number hn
  | text s => exact ⟨'"', _, quote_toList s, by decide⟩
  | list _ => exact ⟨'[', _, Doc.print_list_toList _ _, by decide⟩
  | object _ => exact ⟨'\x7b', _, Doc.print_object_toList _ _, by decide⟩

/-- An item is read like a value inside the list. -/
theorem read_item (stack : List Frame) (items : List Doc) {d : Doc} (h : d.Plain) :
    ({ stack, mode := .item items } : Machine).read d.print.toList =
      ({ stack := .list items :: stack, mode := .value } : Machine).read d.print.toList := by
  obtain ⟨c, cs, hprint, hascii, hspace, hclose⟩ := opens_print h
  have hstep : ({ stack, mode := .item items } : Machine).step (UInt8.ofNat c.toNat) =
      ({ stack := .list items :: stack, mode := .value } : Machine).step (UInt8.ofNat c.toNat) := by
    simp only [step, ofNat_toNat_ofNat hascii, hspace, hclose, if_false, Bool.false_eq_true]
  rw [hprint, read_ascii _ hascii, read_ascii _ hascii, hstep]

theorem Has.read_comma (h : m.Has stack d) : m.read [','] = (Machine.complete stack d).read [','] :=
  h.next 0x2C (by decide)

theorem Has.read_bracket (h : m.Has stack d) :
    m.read [']'] = (Machine.complete stack d).read [']'] := h.next 0x5D (by decide)

theorem Has.read_brace (h : m.Has stack d) :
    m.read ['\x7d'] = (Machine.complete stack d).read ['\x7d'] := h.next 0x7D (by decide)

/-- The text of the document, read as a value, gives the document. -/
def Reads (d : Doc) : Prop :=
  ∀ stack, (({ stack, mode := .value } : Machine).read d.print.toList).Has stack d

theorem read_items (stack : List Frame) (items : List Doc) {d : Doc} {ds : List Doc}
    (h : ∀ e ∈ d :: ds, e.Plain ∧ Reads e) :
    ({ stack, mode := .item items } : Machine).read
        ((Doc.printItems "" (d :: ds)).toList ++ [']']) =
      Machine.complete stack (.list (items.reverse ++ d :: ds) .closed) := by
  obtain ⟨hplain, hd⟩ := h d List.mem_cons_self
  induction ds generalizing items d with
  | nil =>
    rw [Doc.printItems_singleton, read_append, read_item stack items hplain,
      (hd (.list items :: stack)).read_bracket, ← List.reverse_cons]
    rfl
  | cons e ds ih =>
    -- The comma closes a number, so the item is complete only after it.
    have hrest : ∀ e' ∈ e :: ds, e'.Plain ∧ Reads e' :=
      fun e' he' => h e' (List.mem_cons_of_mem d he')
    obtain ⟨hplain', he⟩ := hrest e List.mem_cons_self
    have hcomma : (Machine.complete (.list items :: stack) d).read [','] =
        { stack, mode := .item (d :: items) } := rfl
    have htext : (Doc.printItems "" (d :: e :: ds)).toList ++ [']'] =
        d.print.toList ++ ([','] ++ ((Doc.printItems "" (e :: ds)).toList ++ [']'])) := by
      rw [Doc.printItems_cons, String.toList_append, String.toList_append, List.append_assoc,
        List.append_assoc]
      rfl
    rw [htext, read_append, read_item stack items hplain, read_append,
      (hd (.list items :: stack)).read_comma, hcomma, ih (d :: items) hrest hplain' he,
      List.reverse_cons, List.append_assoc]
    rfl

/-- A member is read as its key and its value, inside the object. -/
theorem read_member (stack : List Frame) (members : Members) (key : String) (d : Doc)
    (cs : List Char) :
    ({ stack, mode := .key members } : Machine).read
        ((Doc.printMember "" (.ok key, d)).toList ++ cs) =
      (({ stack := .member members (.ok key) :: stack, mode := .value } : Machine).read
        d.print.toList).read cs := by
  have hcolon : ({ stack, mode := .colon members (.ok key) } : Machine).read [':'] =
      { stack := .member members (.ok key) :: stack, mode := .value } := rfl
  have htext : (Doc.printMember "" (.ok key, d)).toList =
      (quote key).toList ++ ([':'] ++ d.print.toList) := by
    rw [Doc.printMember_ok, String.toList_append, String.toList_append, List.append_assoc]
    rfl
  rw [htext, read_append, read_append, read_append, read_key, hcolon]

theorem read_members (stack : List Frame) (members : Members) {m : String × Doc}
    {ms : List (String × Doc)} (h : ∀ e ∈ m :: ms, Reads e.2) :
    ({ stack, mode := .key members } : Machine).read
        ((Doc.printMembers "" ((m :: ms).map fun m => (.ok m.1, m.2))).toList ++ ['\x7d']) =
      Machine.complete stack
        (.object (members.reverse ++ (m :: ms).map fun m => (.ok m.1, m.2)) .closed) := by
  have hm := h m List.mem_cons_self (.member members (.ok m.1) :: stack)
  induction ms generalizing members m with
  | nil =>
    rw [List.map_cons, List.map_nil, Doc.printMembers_singleton, read_member, hm.read_brace,
      ← List.reverse_cons]
    rfl
  | cons n ms ih =>
    have hrest : ∀ e ∈ n :: ms, Reads e.2 := fun e he => h e (List.mem_cons_of_mem m he)
    have hn := hrest n List.mem_cons_self (.member ((.ok m.1, m.2) :: members) (.ok n.1) :: stack)
    have hcomma : (Machine.complete (.member members (.ok m.1) :: stack) m.2).read [','] =
        { stack, mode := .key ((.ok m.1, m.2) :: members) } := rfl
    have htext : (Doc.printMembers "" ((m :: n :: ms).map fun m => (.ok m.1, m.2))).toList ++
        ['\x7d'] = (Doc.printMember "" (.ok m.1, m.2)).toList ++ ([','] ++
          ((Doc.printMembers "" ((n :: ms).map fun m => (.ok m.1, m.2))).toList ++ ['\x7d'])) := by
      rw [List.map_cons, List.map_cons, Doc.printMembers_cons, String.toList_append,
        String.toList_append, List.append_assoc, List.append_assoc]
      rfl
    rw [htext, read_member, read_append, hm.read_comma, hcomma, ih _ hrest hn, List.reverse_cons,
      List.append_assoc]
    rfl

/-- The text of a plain document, read as a value, gives the document. -/
theorem read_print {d : Doc} (h : d.Plain) : Reads d := by
  induction h with
  | null => exact fun stack => .complete stack .null
  | flag b =>
    intro stack
    cases b
    · exact .complete stack (.flag false)
    · exact .complete stack (.flag true)
  | number hn => exact fun stack => has_number stack hn
  | text s =>
    intro stack
    rw [Doc.print, Doc.printOnto, Doc.printText, String.empty_append, read_text]
    exact .complete stack (.text (.ok s))
  | @list items hplain ih =>
    intro stack
    have hread : ({ stack, mode := .value } : Machine).read
        (Doc.print (.list items .closed)).toList =
        Machine.complete stack (.list items .closed) := by
      rw [Doc.print_list_toList, read_cons]
      cases items with
      | nil => rfl
      | cons d ds => exact read_items stack [] fun e he => ⟨hplain e he, ih e he⟩
    rw [hread]
    exact .complete stack _
  | @object members _ ih =>
    intro stack
    have hread : ({ stack, mode := .value } : Machine).read
        (Doc.print (.object (members.map fun m => (.ok m.1, m.2)) .closed)).toList =
        Machine.complete stack (.object (members.map fun m => (.ok m.1, m.2)) .closed) := by
      rw [Doc.print_object_toList, read_cons]
      cases members with
      | nil => rfl
      | cons m ms => exact read_members stack [] ih
    rw [hread]
    exact .complete stack _

end Machine

/-- The text of a plain document is scanned as the document. -/
theorem scanText_print {d : Doc} (h : d.Plain) :
    scanText d.print = { root := d, surplus := false } := by
  have hread : (Utf8.encode d.print).foldl Machine.step { stack := [], mode := .value } =
      ({ stack := [], mode := .value } : Machine).read d.print.toList := by
    rw [Utf8.encode_eq]
    rfl
  rw [scanText, scan, hread]
  exact (Machine.read_print h []).last rfl

end InferenceFleet.Json
