import InferenceFleet.Json.Scanner

/-!
# A document that can be passed over is closed throughout

A reader that passes over a value looks at its end only. That is enough: where the text goes wrong,
all containers around the place are left open (`passing_unwind`), so in a document that is closed
every container is (`complete_scan`).
-/

namespace InferenceFleet.Json

/-- Every container in the document is closed. Texts in it may be faulty. -/
inductive Doc.Complete : Doc → Prop where
  | null : Complete .null
  | flag (b : Bool) : Complete (.flag b)
  | number (n : Numeral) : Complete (.number n)
  | text (s : Except Fault String) : Complete (.text s)
  | list {items : List Doc} : (∀ d ∈ items, d.Complete) → Complete (.list items .closed)
  | object {members : List (Except Fault String × Doc)} :
    (∀ m ∈ members, m.2.Complete) → Complete (.object members .closed)

theorem Doc.Complete.passing? {d : Doc} (h : d.Complete) : d.passing? = none := by
  cases h <;> rfl

theorem Doc.Complete.of_mem {members : List (Except Fault String × Doc)} {ending : Ending}
    {m : Except Fault String × Doc} (h : (Doc.object members ending).Complete) (hm : m ∈ members) :
    m.2.Complete := by
  cases h with
  | object h => exact h m hm

def Frame.Complete : Frame → Prop
  | .list items => ∀ d ∈ items, d.Complete
  | .member members _ => ∀ m ∈ members, m.2.Complete
  | .keyless => True

/-- The finished values of what is being read are closed; so is the whole document, if it can be
passed over. -/
def Mode.Complete : Mode → Prop
  | .item items | .afterItem items => ∀ d ∈ items, d.Complete
  | .key members | .keyText members _ _ | .colon members _ | .afterMember members =>
    ∀ m ∈ members, m.2.Complete
  | .literal _ d => d.Complete
  | .finished root _ => root.passing? = none → root.Complete
  | .value | .text _ _ | .number _ => True

namespace Machine
variable {m : Machine} {stack : List Frame} {d : Doc}

structure Complete (m : Machine) : Prop where
  stack : ∀ f ∈ m.stack, f.Complete
  mode : m.mode.Complete

/-! ### Where the text goes wrong -/

/-- What is around a broken value cannot be passed over. -/
theorem passing_unwind (f : Fault) (h : d.passing? ≠ none) :
    (unwind f stack d).passing? ≠ none := by
  induction stack generalizing f d with
  | nil => exact h
  | cons frame stack ih =>
    cases frame with
    | list items => exact ih f (Option.some_ne_none f)
    | member members key => exact ih f (Option.some_ne_none f)
    | keyless => exact ih .keyNotString (Option.some_ne_none _)

theorem complete_breakOff (f : Fault) (h : d.passing? ≠ none) : (breakOff stack d f).Complete where
  stack _ hf := by cases hf
  mode hnone := absurd hnone (passing_unwind f h)

theorem complete_fail (opening : Opening) (reading passing : Fault) :
    (fail stack opening reading passing).Complete :=
  complete_breakOff passing (Option.some_ne_none passing)

theorem complete_failKey (members : Members) (reading passing : Fault) :
    (failKey stack members reading passing).Complete := complete_fail _ _ _

/-! ### One step -/

section
variable (hstack : ∀ f ∈ stack, f.Complete)
include hstack

theorem complete_complete (h : d.Complete) : (complete stack d).Complete := by
  cases stack with
  | nil => exact ⟨hstack, fun _ => h⟩
  | cons frame stack =>
    obtain ⟨hframe, hrest⟩ := List.forall_mem_cons.1 hstack
    cases frame with
    | list items => exact ⟨hrest, List.forall_mem_cons.2 ⟨h, hframe⟩⟩
    | member members key => exact ⟨hrest, List.forall_mem_cons.2 ⟨h, hframe⟩⟩
    | keyless => exact complete_breakOff _ (Option.some_ne_none _)

theorem complete_start (c : Char) : (start stack c).Complete := by
  unfold start
  split
  · exact ⟨hstack, trivial⟩
  · exact ⟨hstack, fun _ hd => by cases hd⟩
  · exact ⟨hstack, fun _ hm => by cases hm⟩
  · exact ⟨hstack, .null⟩
  · exact ⟨hstack, .flag true⟩
  · exact ⟨hstack, .flag false⟩
  · exact ⟨hstack, trivial⟩
  · split
    · exact ⟨hstack, trivial⟩
    · exact complete_fail _ _ _

end

theorem forall_mem_reverse {α : Type} {p : α → Prop} {as : List α} (h : ∀ a ∈ as, p a) :
    ∀ a ∈ as.reverse, p a := fun a ha => h a (List.mem_reverse.1 ha)

theorem Complete.afterValue (h : m.Complete) (c : Char) : (m.afterValue c).Complete := by
  obtain ⟨stack, mode⟩ := m
  obtain ⟨hstack, hmode⟩ := h
  cases mode with
  | afterItem items =>
    simp only [Machine.afterValue]
    split
    · exact ⟨hstack, hmode⟩
    split
    · exact ⟨hstack, hmode⟩
    split
    · exact complete_complete hstack (.list (forall_mem_reverse hmode))
    · exact complete_breakOff _ (Option.some_ne_none _)
  | afterMember members =>
    simp only [Machine.afterValue]
    split
    · exact ⟨hstack, hmode⟩
    split
    · exact ⟨hstack, hmode⟩
    split
    · exact complete_complete hstack (.object (forall_mem_reverse hmode))
    · exact complete_breakOff _ (Option.some_ne_none _)
  | finished root surplus =>
    simp only [Machine.afterValue]
    split
    · exact ⟨hstack, hmode⟩
    · exact ⟨hstack, hmode⟩
  | _ => exact ⟨hstack, hmode⟩

theorem Complete.step (h : m.Complete) (b : UInt8) : (m.step b).Complete := by
  obtain ⟨stack, mode⟩ := m
  have hafter := h.afterValue (Char.ofNat b.toNat)
  obtain ⟨hstack, hmode⟩ := h
  cases mode with
  | value =>
    simp only [Machine.step]
    split
    · exact ⟨hstack, hmode⟩
    · exact complete_start hstack _
  | item items =>
    have hitems : ∀ f ∈ Frame.list items :: stack, f.Complete :=
      List.forall_mem_cons.2 ⟨hmode, hstack⟩
    simp only [Machine.step]
    split
    · exact ⟨hstack, hmode⟩
    split
    · split
      · exact complete_complete hstack (.list fun _ hd => by cases hd)
      · exact complete_fail _ _ _
    · exact complete_start hitems _
  | key members =>
    have hkeyless : ∀ f ∈ Frame.keyless :: stack, f.Complete :=
      List.forall_mem_cons.2 ⟨trivial, hstack⟩
    simp only [Machine.step]
    split
    · exact ⟨hstack, hmode⟩
    split
    · exact ⟨hstack, hmode⟩
    split
    · split
      · exact complete_complete hstack (.object fun _ hm => by cases hm)
      · exact complete_failKey _ _ _
    split
    · exact complete_start hkeyless _
    · exact complete_failKey _ _ _
  | keyText members text escape =>
    simp only [Machine.step]
    split
    · exact ⟨hstack, hmode⟩
    · exact ⟨hstack, hmode⟩
    · exact complete_failKey _ _ _
  | colon members key =>
    have hmember : ∀ f ∈ Frame.member members key :: stack, f.Complete :=
      List.forall_mem_cons.2 ⟨hmode, hstack⟩
    simp only [Machine.step]
    split
    · exact ⟨hstack, hmode⟩
    split
    · exact ⟨hmember, trivial⟩
    · exact complete_fail _ _ _
  | text text escape =>
    simp only [Machine.step]
    split
    · exact ⟨hstack, trivial⟩
    · exact complete_complete hstack (.text _)
    · exact complete_fail _ _ _
  | number n =>
    simp only [Machine.step]
    split
    · exact ⟨hstack, trivial⟩
    · exact complete_fail _ _ _
    · exact (complete_complete hstack (.number _)).afterValue _
  | literal rest value =>
    simp only [Machine.step]
    split
    · exact (complete_complete hstack hmode).afterValue _
    · split
      · exact complete_complete hstack hmode
      · exact complete_fail _ _ _
    · split
      · exact ⟨hstack, hmode⟩
      · exact complete_fail _ _ _
  | afterItem items => exact hafter
  | afterMember members => exact hafter
  | finished root surplus => exact hafter

theorem Complete.foldl (h : m.Complete) (bytes : List UInt8) :
    (bytes.foldl Machine.step m).Complete := by
  induction bytes generalizing m with
  | nil => exact h
  | cons b bytes ih => exact ih (h.step b)

/-! ### The end of the text -/

theorem Complete.finish (h : m.Complete) (hnone : m.finish.root.passing? = none) :
    m.finish.root.Complete := by
  obtain ⟨stack, mode⟩ := m
  obtain ⟨hstack, hmode⟩ := h
  -- What breaks off is no whole document.
  have hbroken : ∀ {stack : List Frame} {d : Doc} {f : Fault}, d.passing? ≠ none →
      (unwind f stack d).passing? = none → (unwind f stack d).Complete :=
    fun hd hroot => absurd hroot (passing_unwind _ hd)
  cases mode with
  | value => exact hbroken (Option.some_ne_none _) hnone
  | item items => cases items <;> exact hbroken (Option.some_ne_none _) hnone
  | afterItem items => exact hbroken (Option.some_ne_none _) hnone
  | key members => cases members <;> exact hbroken (Option.some_ne_none _) hnone
  | keyText members text escape => exact hbroken (Option.some_ne_none _) hnone
  | colon members key => exact hbroken (Option.some_ne_none _) hnone
  | afterMember members => exact hbroken (Option.some_ne_none _) hnone
  | text text escape => exact hbroken (Option.some_ne_none _) hnone
  | number n =>
    cases hwhole : n.isWhole with
    | false =>
      simp only [Machine.finish, hwhole] at hnone ⊢
      exact hbroken (Option.some_ne_none _) hnone
    | true =>
      simp only [Machine.finish, hwhole] at hnone ⊢
      -- The number may be the whole text; in a container, that is open.
      cases stack with
      | nil => exact .number _
      | cons frame stack => cases frame <;> exact hbroken (Option.some_ne_none _) hnone
  | literal rest d => exact hbroken (Option.some_ne_none _) hnone
  | finished root surplus => exact hmode hnone

end Machine

theorem complete_scan {bytes : List UInt8} (h : (scan bytes).root.passing? = none) :
    (scan bytes).root.Complete := by
  have hstart : ({ stack := [], mode := .value } : Machine).Complete :=
    ⟨fun _ hf => (by cases hf), trivial⟩
  exact (hstart.foldl bytes).finish h

theorem complete_scanText {text : String} {d : Doc} {surplus : Bool}
    (h : scanText text = ⟨d, surplus⟩) (hpassing : d.passing? = none) : d.Complete := by
  have hroot : (scan (Utf8.encode text)).root = d := congrArg Text.root h
  exact hroot ▸ complete_scan (hroot ▸ hpassing)

end InferenceFleet.Json
