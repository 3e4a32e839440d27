import InferenceFleet.Chat
import InferenceFleet.Messages
import InferenceFleet.Proofs.Json.ReadWrite

/-!
# Messages lose nothing in writing

The values of the wire types are writable, so each comes back from its JSON text. Among the texts of
records, those with a member `error` are all that can be read as error reports.
-/

namespace InferenceFleet

open Json

namespace Json.Fields
variable {α β σ : Type} {name : String} {shape : Shape α} {rest : Fields σ β} {others : β}

theorem writable_required {value : α} (h : shape.Writable value) (hrest : rest.Writable others) :
    (required name shape rest).Writable (value, others) := by
  rw [required, Writable, if_neg Bool.false_ne_true]
  exact ⟨h, hrest⟩

theorem writable_defaulted {d value : α} (h : shape.Writable value)
    (hrest : rest.Writable others) : (defaulted name shape d rest).Writable (value, others) := by
  rw [defaulted, Writable, if_neg Bool.false_ne_true]
  exact ⟨h, hrest⟩

theorem writable_nullable {value : Option α}
    (h : ∀ a, value = some a → shape.Writable a ∧ shape.toDoc a ≠ .null)
    (hrest : rest.Writable others) : (nullable name shape rest).Writable (value, others) := by
  rw [nullable, Writable, if_neg Bool.false_ne_true, Shape.Writable]
  exact ⟨h, hrest⟩

theorem writable_omissible {value : Option α}
    (h : ∀ a, value = some a → shape.Writable a ∧ shape.toDoc a ≠ .null)
    (hrest : rest.Writable others) : (omissible name shape rest).Writable (value, others) := by
  rw [omissible, Writable]
  cases value with
  | none => exact ⟨rfl, hrest⟩
  | some a =>
    rw [Option.isNone_some, if_neg Bool.false_ne_true, Shape.Writable]
    exact ⟨h, hrest⟩

end Json.Fields

theorem Json.Shape.writable_record {α β σ : Type} {name : String} {fields : Fields σ β}
    {build : β → α} {parts : α → β} {a : α} (hnames : fields.names.Nodup)
    (hfields : fields.Writable (parts a)) (hbuild : build (parts a) = a) :
    (record name fields build parts).Writable a := by
  rw [Writable]
  exact ⟨hnames, hfields, hbuild⟩

theorem Json.Shape.writable_list {α : Type} {s : Shape α} {as : List α}
    (h : ∀ a ∈ as, s.Writable a) : (list s).Writable as := by
  rwa [Writable]

theorem ChatMessage.writable (m : ChatMessage) : shape.Writable m := by
  refine Shape.writable_record (by decide) ?_ rfl
  exact Fields.writable_required trivial (Fields.writable_defaulted trivial trivial)

theorem Json.IntegerKind.writable_u32 (n : UInt32) : (Shape.integer .u32).Writable n := by
  have hlt := n.toNat_lt
  rw [Shape.Writable]
  show -2 ^ 63 ≤ (n.toNat : Int) ∧ (n.toNat : Int) < 2 ^ 64
  omega

theorem Json.IntegerKind.writable_u64 (n : UInt64) : (Shape.integer .u64).Writable n := by
  have hlt := n.toNat_lt
  rw [Shape.Writable]
  show -2 ^ 63 ≤ (n.toNat : Int) ∧ (n.toNat : Int) < 2 ^ 64
  omega

theorem Json.IntegerKind.writable_i64 (n : Int64) : (Shape.integer .i64).Writable n := by
  have hle := n.le_toInt
  have hlt := n.toInt_lt
  rw [Shape.Writable]
  show -2 ^ 63 ≤ n.toInt ∧ n.toInt < 2 ^ 64
  omega

theorem Usage.writable (u : Usage) : shape.Writable u := by
  refine Shape.writable_record (by decide) ?_ rfl
  exact Fields.writable_required (IntegerKind.writable_u32 _)
    (Fields.writable_required (IntegerKind.writable_u32 _)
      (Fields.writable_required (IntegerKind.writable_u32 _) trivial))

theorem Choice.writable (c : Choice) : shape.Writable c := by
  refine Shape.writable_record (by decide) ?_ rfl
  exact Fields.writable_defaulted (IntegerKind.writable_u32 _)
    (Fields.writable_omissible (fun m _ => ⟨ChatMessage.writable m, nofun⟩)
      (Fields.writable_omissible (fun m _ => ⟨ChatMessage.writable m, nofun⟩)
        (Fields.writable_omissible (fun s _ => ⟨trivial, nofun⟩) trivial)))

theorem Chunk.writable (c : Chunk) : shape.Writable c := by
  have hchoices : (Shape.list Choice.shape).Writable c.choices :=
    Shape.writable_list fun choice _ => choice.writable
  refine Shape.writable_record (by decide) ?_ rfl
  exact Fields.writable_defaulted trivial (Fields.writable_defaulted trivial
    (Fields.writable_defaulted (IntegerKind.writable_i64 _) (Fields.writable_defaulted trivial
      (Fields.writable_defaulted hchoices
        (Fields.writable_omissible (fun u _ => ⟨u.writable, nofun⟩) trivial)))))

theorem ErrorBody.writable (b : ErrorBody) : shape.Writable b := by
  have hdetail : ErrorDetail.shape.Writable b.error := by
    refine Shape.writable_record (by decide) ?_ rfl
    exact Fields.writable_required trivial (Fields.writable_required trivial trivial)
  exact Shape.writable_record (by decide) (Fields.writable_required hdetail trivial) rfl

/-- An object without the member `error` is no error report. -/
theorem ErrorBody.decodeText_object {ms : List (String × Doc)} (hplain : ∀ m ∈ ms, m.2.Plain)
    (hkeys : ∀ m ∈ ms, "error" ≠ m.1) :
    shape.decodeText (Doc.object (ms.map fun m => (.ok m.1, m.2)) .closed).print =
      .error (.missingField "error") := by
  have hmembers : (ms.map fun m => (.ok m.1, m.2)).foldlM
      ((Fields.required "error" ErrorDetail.shape .nil).readNext (.text (Origin.depthLimit - 1)))
      (none, ()) = .ok (none, ()) := by
    refine Fields.readNext_others none ?_ (Fields.readNext_nil hplain)
    intro m hm
    obtain ⟨n, hn, rfl⟩ := List.mem_map.1 hm
    exact ⟨n.1, rfl, hkeys n hn⟩
  rw [Shape.decodeText, scanText_print (.object hplain), Shape.readWhole]
  dsimp only
  rw [shape, Shape.read_object (by decide) hmembers]
  rfl

/-- A record without the field `error` is never read as an error report. -/
theorem ErrorBody.decodeText_record {α β σ : Type} {name : String} {fields : Fields σ β}
    {build : β → α} {parts : α → β} {a : α} (h : (Shape.record name fields build parts).Writable a)
    (hnames : "error" ∉ fields.names) :
    shape.decodeText ((Shape.record name fields build parts).encode a) =
      .error (.missingField "error") := by
  rw [Shape.Writable] at h
  obtain ⟨ms, hms, hplain⟩ := fields.plain_toMembers (parts a) h.2.1
  rw [Shape.encode, Shape.toDoc, hms]
  refine decodeText_object hplain fun m hm heq => hnames ?_
  have hmem : (.ok m.1, m.2) ∈ fields.toMembers (parts a) := hms ▸ List.mem_map_of_mem hm
  obtain ⟨key, hkey, hm⟩ := Fields.key_of_mem_toMembers hmem
  rwa [heq, Except.ok.inj hm]

end InferenceFleet
