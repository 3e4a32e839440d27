import InferenceFleet.Json.Printer
import Mathlib.Tactic.IntervalCases

/-!
# The text of a document

`Doc.Plain` are the documents that a writer of values makes: nothing in them is broken or faulty.
What such a document is written as is put together from the texts of its parts (`print_list`,
`print_object`), and has no control characters.
-/

namespace InferenceFleet.Json

/-- The numeral has digits wherever digits must be, and no zero too many in front. -/
structure Numeral.Proper (n : Numeral) : Prop where
  whole : n.whole = [0] ∨ ∃ d ds, n.whole = d :: ds ∧ d ≠ 0
  fraction : n.fraction ≠ some []
  exponent : ∀ sign, n.exponent ≠ some (sign, [])

namespace Numeral

def signChars (negative : Bool) : List Char := if negative then ['-'] else []

def fractionChars : Option (List Digit) → List Char
  | none => []
  | some ds => '.' :: ds.map Digit.toChar

def exponentChars : Option (ExponentSign × List Digit) → List Char
  | none => []
  | some (.none, ds) => 'e' :: ds.map Digit.toChar
  | some (.plus, ds) => 'e' :: '+' :: ds.map Digit.toChar
  | some (.minus, ds) => 'e' :: '-' :: ds.map Digit.toChar

theorem print_toList (n : Numeral) : n.print.toList =
    signChars n.negative ++ n.whole.map Digit.toChar ++ fractionChars n.fraction ++
      exponentChars n.exponent := by
  obtain ⟨negative, whole, fraction, exponent⟩ := n
  unfold print
  simp only [String.toList_append, String.toList_ofList]
  congr 1
  · congr 1
    · congr 1
      cases negative <;> simp [signChars]
    · cases fraction <;> simp [fractionChars]
  · cases exponent with
    | none => simp [exponentChars]
    | some e =>
      obtain ⟨sign, ds⟩ := e
      cases sign <;> simp [exponentChars]

end Numeral

namespace Doc

inductive Plain : Doc → Prop where
  | null : Plain .null
  | flag (b : Bool) : Plain (.flag b)
  | number {n : Numeral} (h : n.Proper) : Plain (.number n)
  | text (s : String) : Plain (.text (.ok s))
  | list {items : List Doc} (h : ∀ d ∈ items, Plain d) : Plain (.list items .closed)
  | object {members : List (String × Doc)} (h : ∀ m ∈ members, Plain m.2) :
    Plain (.object (members.map fun m => (.ok m.1, m.2)) .closed)

theorem Plain.passing? {d : Doc} (h : d.Plain) : d.passing? = none := by
  cases h <;> rfl

/-! ### The parts of a text -/

mutual

theorem printOnto_eq (before : String) : (d : Doc) → printOnto before d = before ++ print d
  | .null => by simp [print, printOnto]
  | .flag b => by simp [print, printOnto]
  | .number n => by simp [print, printOnto]
  | .text s => by simp [print, printOnto]
  | .list items e => by
    rw [print, printOnto, printOnto, printItems_eq _ items, printItems_eq ("" ++ "[") items]
    simp [String.append_assoc]
  | .object members e => by
    rw [print, printOnto, printOnto, printMembers_eq _ members,
      printMembers_eq ("" ++ "\x7b") members]
    simp [String.append_assoc]
  | .keyless d => by simp [print, printOnto]
  | .broken .. => by simp [print, printOnto]
termination_by structural d => d

theorem printItems_eq (before : String) : (ds : List Doc) →
    printItems before ds = before ++ printItems "" ds
  | [] => by simp [printItems]
  | d :: ds => by
    have hds : ∀ b, printItems b ds = b ++ printItems "" ds := fun b => printItems_eq b ds
    rw [printItems, printItems, printOnto_eq before d, printOnto_eq "" d, hds]
    conv => rhs; rw [hds]
    cases ds <;> simp [String.append_assoc]
termination_by structural ds => ds

theorem printMembers_eq (before : String) : (ms : List (Except Fault String × Doc)) →
    printMembers before ms = before ++ printMembers "" ms
  | [] => by simp [printMembers]
  | m :: ms => by
    have hms : ∀ b, printMembers b ms = b ++ printMembers "" ms := fun b => printMembers_eq b ms
    rw [printMembers, printMembers, printMember_eq before m, printMember_eq "" m, hms]
    conv => rhs; rw [hms]
    cases ms <;> simp [String.append_assoc]
termination_by structural ms => ms

theorem printMember_eq (before : String) : (m : Except Fault String × Doc) →
    printMember before m = before ++ printMember "" m
  | (key, d) => by
    rw [printMember, printMember, printOnto_eq _ d, printOnto_eq ("" ++ _ ++ _) d]
    simp [String.append_assoc]
termination_by structural m => m

end

theorem print_list (items : List Doc) (e : Ending) :
    print (.list items e) = "[" ++ printItems "" items ++ "]" := by
  rw [print, printOnto, printItems_eq, String.empty_append]

theorem print_object (members : List (Except Fault String × Doc)) (e : Ending) :
    print (.object members e) = "\x7b" ++ printMembers "" members ++ "\x7d" := by
  rw [print, printOnto, printMembers_eq, String.empty_append]

theorem print_list_toList (items : List Doc) (e : Ending) :
    (print (.list items e)).toList = '[' :: ((printItems "" items).toList ++ [']']) := by
  rw [print_list, String.toList_append, String.toList_append]
  rfl

theorem print_object_toList (members : List (Except Fault String × Doc)) (e : Ending) :
    (print (.object members e)).toList =
      '\x7b' :: ((printMembers "" members).toList ++ ['\x7d']) := by
  rw [print_object, String.toList_append, String.toList_append]
  rfl

theorem printItems_singleton (d : Doc) : printItems "" [d] = print d := rfl

theorem printItems_cons (d e : Doc) (ds : List Doc) :
    printItems "" (d :: e :: ds) = print d ++ "," ++ printItems "" (e :: ds) := by
  rw [printItems, printItems_eq]
  rfl

theorem printMember_ok (key : String) (d : Doc) :
    printMember "" (.ok key, d) = quote key ++ ":" ++ print d := by
  rw [printMember, printOnto_eq, printText, String.empty_append]

theorem printMembers_singleton (m : Except Fault String × Doc) :
    printMembers "" [m] = printMember "" m := rfl

theorem printMembers_cons (m n : Except Fault String × Doc)
    (ms : List (Except Fault String × Doc)) :
    printMembers "" (m :: n :: ms) = printMember "" m ++ "," ++ printMembers "" (n :: ms) := by
  rw [printMembers, printMembers_eq]
  rfl

end Doc

/-! ### No control characters -/

/-- None of the first 32 characters, which are controls, is in the text. -/
def Visible (text : String) : Prop := ∀ c ∈ text.toList, 0x20 ≤ c.toNat

instance (text : String) : Decidable (Visible text) :=
  List.decidableBAll (fun c : Char => 0x20 ≤ c.toNat) text.toList

namespace Visible

theorem append {s t : String} (hs : Visible s) (ht : Visible t) : Visible (s ++ t) := by
  intro c hc
  rw [String.toList_append] at hc
  exact (List.mem_append.1 hc).elim (hs c) (ht c)

theorem hexDigit {n : Nat} (h : n < 16) : 0x20 ≤ (Json.hexDigit n).toNat := by
  interval_cases n <;> decide

theorem escapeChar {c d : Char} (h : d ∈ Json.escapeChar c) : 0x20 ≤ d.toNat := by
  unfold Json.escapeChar at h
  iterate 7
    split at h
    · simp only [List.mem_cons, List.not_mem_nil, or_false] at h
      rcases h with rfl | rfl <;> decide
  split at h
  · rename_i hc
    simp only [List.mem_cons, List.not_mem_nil, or_false] at h
    rcases h with rfl | rfl | rfl | rfl | rfl | rfl
    · decide
    · decide
    · decide
    · decide
    · exact hexDigit (by omega)
    · exact hexDigit (by omega)
  · obtain rfl := List.mem_singleton.1 h
    omega

theorem quote (s : String) : Visible (Json.quote s) := by
  have hbody : Visible (String.ofList (s.toList.flatMap Json.escapeChar)) := by
    intro d hd
    rw [String.toList_ofList] at hd
    obtain ⟨c, -, hc⟩ := List.mem_flatMap.1 hd
    exact escapeChar hc
  exact append (append (by decide) hbody) (by decide)

theorem digits (ds : List Digit) : Visible (String.ofList (ds.map Digit.toChar)) := by
  intro c hc
  rw [String.toList_ofList] at hc
  obtain ⟨d, -, rfl⟩ := List.mem_map.1 hc
  have hdigit : ∀ d : Digit, 0x20 ≤ d.toChar.toNat := by decide
  exact hdigit d

theorem number (n : Numeral) : Visible n.print := by
  unfold Numeral.print
  refine append (append (append ?_ (digits _)) ?_) ?_
  · split <;> decide
  · split
    · decide
    · exact append (by decide) (digits _)
  · split
    · decide
    · refine append ?_ (digits _)
      split <;> decide

theorem items {ds : List Doc} (h : ∀ d ∈ ds, Visible d.print) : Visible (Doc.printItems "" ds) := by
  induction ds with
  | nil => decide
  | cons d ds ih =>
    have hd := h d List.mem_cons_self
    have hds := ih fun e he => h e (List.mem_cons_of_mem d he)
    cases ds with
    | nil => exact hd
    | cons e ds =>
      rw [Doc.printItems_cons]
      exact append (append hd (by decide)) hds

theorem members {ms : List (String × Doc)} (h : ∀ m ∈ ms, Visible m.2.print) :
    Visible (Doc.printMembers "" (ms.map fun m => (.ok m.1, m.2))) := by
  induction ms with
  | nil => decide
  | cons m ms ih =>
    have hm : Visible (Doc.printMember "" (.ok m.1, m.2)) := by
      rw [Doc.printMember_ok]
      exact append (append (quote m.1) (by decide)) (h m List.mem_cons_self)
    have hms := ih fun n hn => h n (List.mem_cons_of_mem m hn)
    cases ms with
    | nil => exact hm
    | cons n ms =>
      rw [List.map_cons, List.map_cons, Doc.printMembers_cons]
      exact append (append hm (by decide)) hms

theorem print {d : Doc} (h : d.Plain) : Visible d.print := by
  induction h with
  | null => decide
  | flag b => cases b <;> decide
  | number _ => exact number _
  | text s => exact quote s
  | list _ ih =>
    rw [Doc.print_list]
    exact append (append (by decide) (items ih)) (by decide)
  | object _ ih =>
    rw [Doc.print_object]
    exact append (append (by decide) (members ih)) (by decide)

end Visible

end InferenceFleet.Json
