import InferenceFleet.Proofs.Json.Integer
import InferenceFleet.Proofs.Json.Scan.Documents

/-!
# Values come back from their JSON text

`Shape.Writable` says of a value that nothing in it is lost in writing. The document of such a value
is plain, and reading it gives the value (`read_toDoc`); so does reading its text
(`decodeText_encode`).
-/

namespace InferenceFleet.Json

variable {α β σ : Type}

def Fields.names : {σ β : Type} → Fields σ β → List String
  | _, _, .nil => []
  | _, _, .cons name _ _ _ rest => name :: rest.names

mutual

/-- How deep the containers of a value's document nest. -/
def Shape.depth : {α : Type} → Shape α → Nat
  | _, .optional s => s.depth
  | _, .list s => s.depth + 1
  | _, .labels => 1
  | _, .record _ fields _ _ => fields.depth + 1
  | _, .textOrTexts .. => 1
  | _, _ => 0

def Fields.depth : {σ β : Type} → Fields σ β → Nat
  | _, _, .nil => 0
  | _, _, .cons _ shape _ _ rest => max shape.depth rest.depth

end

mutual

/-- Nothing is lost in writing the value: integers fit into 64 bits, names and spellings stand for
what they are written for, a value that is left out is the one taken when it is absent. -/
def Shape.Writable : {α : Type} → Shape α → α → Prop
  | _, .text, _ => True
  | _, .flag, _ => True
  | _, .integer kind, a => -2 ^ 63 ≤ kind.toInt a ∧ kind.toInt a < 2 ^ 64
  | _, .real kind, x => ∃ n, Numeral.ofBinary? kind.layout x = some n ∧ n.Proper ∧
      Doc.readReal kind (.number n) = .ok x
  | _, .instant, t => Instant.read t.print = .ok t
  | _, .choice _ ofName? toName, a => ofName? (toName a) = some a
  | _, .optional s, a => ∀ b, a = some b → s.Writable b ∧ s.toDoc b ≠ .null
  | _, .list s, as => ∀ a ∈ as, s.Writable a
  | _, .labels, _ => True
  | _, .record _ fields build parts, a =>
    fields.names.Nodup ∧ fields.Writable (parts a) ∧ build (parts a) = a
  | _, .textOrTexts _ one many toSum, a => (toSum a).elim one many = a

def Fields.Writable : {σ β : Type} → Fields σ β → β → Prop
  | _, _, .nil, _ => True
  | _, _, .cons _ shape absent leftOut rest, (value, others) =>
    (if leftOut value then absent = some value else shape.Writable value) ∧ rest.Writable others

end

/-- What is found of the fields of a record once all members that are written are read. -/
def Fields.found : {σ β : Type} → Fields σ β → β → σ
  | _, _, .nil, _ => ()
  | _, _, .cons _ _ _ leftOut rest, (value, others) =>
    (if leftOut value then none else some value, rest.found others)

/-- Reads one member of a record. -/
def Fields.readNext (fields : Fields σ β) (origin : Origin) (found : σ)
    (m : Except Fault String × Doc) : Except Fault σ := do
  let key ← m.1
  fields.readMember origin found key m.2

theorem Origin.enter_text {depth : Nat} (h : 1 < depth) :
    (Origin.text depth).enter = .ok (.text (depth - 1)) := by
  rw [enter, if_neg (by omega)]

/-! ### The members of a record -/

namespace Fields

theorem key_of_mem_toMembers : {σ β : Type} → {fields : Fields σ β} → {v : β} →
    {m : Except Fault String × Doc} → m ∈ fields.toMembers v → ∃ key ∈ fields.names, m.1 = .ok key
  | _, _, .nil, _, m, h => by cases h
  | _, _, .cons name shape _ leftOut rest, (value, others), m, h => by
    rw [toMembers] at h
    split at h
    · obtain ⟨key, hkey, hm⟩ := key_of_mem_toMembers h
      exact ⟨key, List.mem_cons_of_mem name hkey, hm⟩
    · rcases List.mem_cons.1 h with rfl | h
      · exact ⟨name, List.mem_cons_self, rfl⟩
      · obtain ⟨key, hkey, hm⟩ := key_of_mem_toMembers h
        exact ⟨key, List.mem_cons_of_mem name hkey, hm⟩

theorem finish_found : {σ β : Type} → (fields : Fields σ β) → (v : β) → fields.Writable v →
    fields.finish (fields.found v) = .ok v
  | _, _, .nil, _, _ => rfl
  | _, _, .cons name shape absent leftOut rest, (value, others), h => by
    rw [Writable] at h
    obtain ⟨hvalue, hothers⟩ := h
    have hrest := finish_found rest others hothers
    rw [found]
    by_cases hleft : leftOut value = true
    · rw [if_pos hleft] at hvalue ⊢
      simp only [finish, hvalue, hrest]
      rfl
    · rw [if_neg hleft]
      simp only [finish, hrest]
      rfl

/-- Members with other names are read as members of the other fields. -/
theorem readNext_others {name : String} {shape : Shape α} {absent : Option α}
    {leftOut : α → Bool} {rest : Fields σ β} {origin : Origin} (found : Option α)
    {ms : List (Except Fault String × Doc)} (h : ∀ m ∈ ms, ∃ key, m.1 = .ok key ∧ name ≠ key)
    {others others' : σ} (hrest : ms.foldlM (rest.readNext origin) others = .ok others') :
    ms.foldlM ((Fields.cons name shape absent leftOut rest).readNext origin) (found, others) =
      .ok (found, others') := by
  induction ms generalizing others with
  | nil =>
    cases hrest
    rfl
  | cons m ms ih =>
    obtain ⟨key, hkey, hne⟩ := h m List.mem_cons_self
    rw [List.foldlM_cons] at hrest ⊢
    obtain ⟨key', d⟩ := m
    obtain rfl : key' = .ok key := hkey
    cases hnext : rest.readNext origin others (.ok key, d) with
    | error fault =>
      rw [hnext] at hrest
      cases hrest
    | ok others₁ =>
      rw [hnext] at hrest
      have hstep : (Fields.cons name shape absent leftOut rest).readNext origin (found, others)
          (.ok key, d) = .ok (found, others₁) := by
        have hmember : rest.readMember origin others key d = .ok others₁ := hnext
        simp only [readNext, readMember, if_neg hne, hmember, bind, Except.bind]
        rfl
      rw [hstep]
      exact ih (fun m hm => h m (List.mem_cons_of_mem _ hm)) hrest

/-- Members that belong to no field are passed over. -/
theorem readNext_nil {origin : Origin} {ms : List (String × Doc)} (h : ∀ m ∈ ms, m.2.Plain) :
    (ms.map fun m => (.ok m.1, m.2)).foldlM (nil.readNext origin) () = .ok () := by
  induction ms with
  | nil => rfl
  | cons m ms ih =>
    have hstep : nil.readNext origin () (.ok m.1, m.2) = .ok () := by
      have hpassing := (h m List.mem_cons_self).passing?
      simp only [readNext, readMember, bind, Except.bind, hpassing, raise?]
    rw [List.map_cons, List.foldlM_cons, hstep]
    exact ih fun m hm => h m (List.mem_cons_of_mem _ hm)

end Fields

/-! ### Maps of labels -/

theorem insertEntry_last {key value : String} {es : List (String × String)}
    (h : ∀ e ∈ es, e.1 < key) : Keyed.insertEntry key value es = es ++ [(key, value)] := by
  induction es with
  | nil => rfl
  | cons e es ih =>
    rw [Keyed.insertEntry, if_pos (h e List.mem_cons_self),
      ih fun d hd => h d (List.mem_cons_of_mem e hd)]
    rfl

/-- Reads one member of a map. -/
def Doc.readLabel (found : Keyed String) (m : Except Fault String × Doc) :
    Except Fault (Keyed String) := do
  let key ← m.1
  let value ← m.2.readText "a string"
  return found.insert key value

def Doc.ofLabel (e : String × String) : Except Fault String × Doc := (.ok e.1, .text (.ok e.2))

theorem Doc.foldlM_readLabel (es : List (String × String)) (found : Keyed String)
    (h : Ascending (found.entries ++ es)) :
    ∃ m, (es.map ofLabel).foldlM readLabel found = .ok m ∧ m.entries = found.entries ++ es := by
  induction es generalizing found with
  | nil => exact ⟨found, rfl, (List.append_nil _).symm⟩
  | cons e es ih =>
    have hlast : (found.insert e.1 e.2).entries = found.entries ++ [e] :=
      insertEntry_last fun d hd => (List.pairwise_append.1 h).2.2 d hd e List.mem_cons_self
    obtain ⟨m, hm, hentries⟩ := ih (found.insert e.1 e.2) (by
      rw [hlast, List.append_assoc]
      exact h)
    refine ⟨m, hm, ?_⟩
    rw [hentries, hlast, List.append_assoc]
    rfl

theorem Doc.readLabels_entries (m : Keyed String) {depth : Nat} (h : 1 < depth) :
    Doc.readLabels (.text depth) (.object (m.entries.map ofLabel) .closed) = .ok m := by
  obtain ⟨m', hm, hentries⟩ := foldlM_readLabel m.entries .empty m.ascending
  obtain rfl : m' = m := Keyed.ext hentries
  have hread : Doc.readLabels (.text depth) (.object (m'.entries.map ofLabel) .closed) =
      (do
        let _ ← (Origin.text depth).enter
        let found ← (m'.entries.map ofLabel).foldlM readLabel .empty
        raise? Ending.closed.objectFault?
        return found) := rfl
  rw [hread, Origin.enter_text h, hm]
  rfl

/-! ### Texts -/

theorem Doc.texts?_map (ss : List String) :
    Doc.texts? (ss.map fun s => .text (.ok s)) = some ss := by
  induction ss with
  | nil => rfl
  | cons s ss ih =>
    rw [List.map_cons, texts?, ih]
    rfl

theorem Doc.check_text (origin : Origin) (depth : Nat) (s : String) :
    Doc.check origin depth (.text (.ok s)) = .ok () := by
  cases depth <;> rfl

theorem Doc.forM_check_texts (origin : Origin) (depth : Nat) (ss : List String) :
    (ss.map fun s => Doc.text (.ok s)).forM (Doc.check origin depth) = .ok () := by
  induction ss with
  | nil => rfl
  | cons s ss ih =>
    rw [List.map_cons, List.forM, check_text]
    exact ih

theorem Doc.check_texts (ss : List String) (ending : Ending) {origin inner : Origin}
    (h : origin.enter = .ok inner) :
    Doc.check origin Origin.depthLimit (.list (ss.map fun s => .text (.ok s)) ending) =
      raise? ending.listFault? := by
  have hcheck : Doc.check origin Origin.depthLimit
      (.list (ss.map fun s => .text (.ok s)) ending) =
      (do
        let inner ← origin.enter
        (ss.map fun s => Doc.text (.ok s)).forM (Doc.check inner (Origin.depthLimit - 1))
        raise? ending.listFault?) := rfl
  rw [hcheck, h]
  simp only [bind, Except.bind, forM_check_texts]

/-! ### Lists -/

theorem mapM_map_of_ok {f : Doc → Except Fault α} {g : α → Doc} {as : List α}
    (h : ∀ a ∈ as, f (g a) = .ok a) : (as.map g).mapM f = .ok as := by
  induction as with
  | nil => rfl
  | cons a as ih =>
    rw [List.map_cons, List.mapM_cons, h a List.mem_cons_self,
      ih fun b hb => h b (List.mem_cons_of_mem a hb)]
    rfl

/-! ### All shapes -/

namespace Shape

theorem read_instant {t : Instant} (h : Instant.read t.print = .ok t) (origin : Origin) :
    Shape.instant.read origin (Shape.instant.toDoc t) = .ok t := by
  rw [toDoc, read, Doc.readInstant]
  simp only [Doc.readText, bind, Except.bind, h]

theorem read_choice {names : List String} {ofName? : String → Option α} {toName : α → String}
    {a : α} (h : ofName? (toName a) = some a) (origin : Origin) :
    (Shape.choice names ofName? toName).read origin ((Shape.choice names ofName? toName).toDoc a) =
      .ok a := by
  rw [toDoc, read, Doc.readChoice]
  simp only [nameValue, bind, Except.bind, h]

theorem read_some {s : Shape α} {a : α} {origin : Origin} (h : s.toDoc a ≠ .null)
    (hread : s.read origin (s.toDoc a) = .ok a) :
    s.optional.read origin (s.optional.toDoc (some a)) = .ok (some a) := by
  have hdoc : s.optional.toDoc (some a) = s.toDoc a := by rw [toDoc]
  rw [hdoc, read]
  · rw [hread]
    rfl
  · exact h

theorem read_list {s : Shape α} {as : List α} {depth : Nat} (hdepth : 1 < depth)
    (h : ∀ a ∈ as, s.read (.text (depth - 1)) (s.toDoc a) = .ok a) :
    s.list.read (.text depth) (s.list.toDoc as) = .ok as := by
  have hitems : (as.map fun a => s.toDoc a).mapM (fun d => s.read (.text (depth - 1)) d) = .ok as :=
    mapM_map_of_ok h
  rw [toDoc, read, Origin.enter_text hdepth]
  simp only [bind, Except.bind, hitems]
  rfl

/-- An object is read member by member, and then nothing may be missing. -/
theorem read_object {name : String} {fields : Fields σ β} {build : β → α} {parts : α → β}
    {members : List (Except Fault String × Doc)} {found : σ} {depth : Nat} (hdepth : 1 < depth)
    (h : members.foldlM (fields.readNext (.text (depth - 1))) fields.empty = .ok found) :
    (Shape.record name fields build parts).read (.text depth) (.object members .closed) =
      (fields.finish found).map build := by
  have hfold : members.foldlM (fun found m => do
      let key ← m.1
      fields.readMember (.text (depth - 1)) found key m.2) fields.empty = .ok found := h
  rw [read, Origin.enter_text hdepth]
  simp only [bind, Except.bind] at hfold ⊢
  rw [hfold]
  dsimp only [raise?, Ending.objectFault?]
  cases fields.finish found <;> rfl

theorem read_record {name : String} {fields : Fields σ β} {build : β → α} {parts : α → β} {a : α}
    {depth : Nat} (hdepth : 1 < depth)
    (hmembers : (fields.toMembers (parts a)).foldlM (fields.readNext (.text (depth - 1)))
      fields.empty = .ok (fields.found (parts a)))
    (hfinish : fields.finish (fields.found (parts a)) = .ok (parts a))
    (hbuild : build (parts a) = a) :
    (Shape.record name fields build parts).read (.text depth)
      ((Shape.record name fields build parts).toDoc a) = .ok a := by
  rw [toDoc, read_object hdepth hmembers, hfinish, Except.map, hbuild]

theorem read_textOrTexts {name : String} {one : String → α} {many : List String → α}
    {toSum : α → String ⊕ List String} {a : α} (h : (toSum a).elim one many = a) {depth : Nat}
    (hdepth : 1 < depth) :
    (Shape.textOrTexts name one many toSum).read (.text depth)
      ((Shape.textOrTexts name one many toSum).toDoc a) = .ok a := by
  rw [toDoc]
  cases hsum : toSum a with
  | inl s =>
    rw [hsum] at h
    have hone : one s = a := h
    rw [read, Doc.check_text]
    simp only [bind, Except.bind, hone]
    rfl
  | inr ss =>
    rw [hsum] at h
    have hmany : many ss = a := h
    rw [read, Doc.check_texts ss .closed (Origin.enter_text hdepth)]
    simp only [bind, Except.bind, Doc.texts?_map, hmany]
    rfl

end Shape

theorem Fields.read_cons {name : String} {shape : Shape α} {absent : Option α}
    {leftOut : α → Bool} {rest : Fields σ β} {value : α} {others : β} {origin : Origin}
    (hnames : name ∉ rest.names)
    (hvalue : leftOut value = false → shape.read origin (shape.toDoc value) = .ok value)
    (hrest : (rest.toMembers others).foldlM (rest.readNext origin) rest.empty =
      .ok (rest.found others)) :
    ((Fields.cons name shape absent leftOut rest).toMembers (value, others)).foldlM
        ((Fields.cons name shape absent leftOut rest).readNext origin)
        (Fields.cons name shape absent leftOut rest).empty =
      .ok ((Fields.cons name shape absent leftOut rest).found (value, others)) := by
  -- As the names differ, the members behind this one pass it by.
  have hothers : ∀ m ∈ rest.toMembers others, ∃ key, m.1 = .ok key ∧ name ≠ key := by
    intro m hm
    obtain ⟨key, hkey, hm⟩ := key_of_mem_toMembers hm
    exact ⟨key, hm, fun heq => hnames (heq ▸ hkey)⟩
  rw [toMembers, empty, found]
  by_cases hleft : leftOut value = true
  · rw [if_pos hleft, if_pos hleft]
    exact readNext_others none hothers hrest
  · have hread := hvalue (Bool.eq_false_iff.2 hleft)
    rw [if_neg hleft, if_neg hleft, List.foldlM_cons]
    have hstep : (Fields.cons name shape absent leftOut rest).readNext origin (none, rest.empty)
        (.ok name, shape.toDoc value) = .ok (some value, rest.empty) := by
      simp only [readNext, readMember, if_true, hread, bind, Except.bind]
      rfl
    rw [hstep]
    exact readNext_others (some value) hothers hrest

mutual

/-- Reading the document of a value gives the value. -/
theorem Shape.read_toDoc : {α : Type} → (s : Shape α) → (a : α) → s.Writable a → (depth : Nat) →
    s.depth < depth → s.read (.text depth) (s.toDoc a) = .ok a
  | _, .text, _, _, _, _ => by rw [Shape.toDoc, Shape.read, Doc.readText]
  | _, .flag, _, _, _, _ => by rw [Shape.toDoc, Shape.read]
  | _, .integer kind, a, h, _, _ => by
    rw [Shape.Writable] at h
    rw [Shape.toDoc, Shape.read]
    exact Doc.readInteger_ofInt kind a h.1 h.2
  | _, .real kind, x, h, _, _ => by
    rw [Shape.Writable] at h
    obtain ⟨n, hn, -, hread⟩ := h
    rw [Shape.toDoc, hn, Shape.read]
    exact hread
  | _, .instant, t, h, depth, _ => by
    rw [Shape.Writable] at h
    exact Shape.read_instant h _
  | _, .choice names ofName? toName, a, h, _, _ => by
    rw [Shape.Writable] at h
    exact Shape.read_choice h _
  | _, .optional s, none, _, _, _ => by rw [Shape.toDoc, Shape.read]
  | _, .optional s, some a, h, depth, hdepth => by
    rw [Shape.Writable] at h
    rw [Shape.depth] at hdepth
    obtain ⟨hwritable, hnull⟩ := h a rfl
    exact Shape.read_some hnull (Shape.read_toDoc s a hwritable depth hdepth)
  | _, .list s, as, h, depth, hdepth => by
    rw [Shape.Writable] at h
    rw [Shape.depth] at hdepth
    exact Shape.read_list (by omega) fun a ha =>
      Shape.read_toDoc s a (h a ha) (depth - 1) (by omega)
  | _, .labels, m, _, depth, hdepth => by
    rw [Shape.depth] at hdepth
    rw [Shape.toDoc, Shape.read]
    exact Doc.readLabels_entries m hdepth
  | _, .record name fields build parts, a, h, depth, hdepth => by
    rw [Shape.Writable] at h
    rw [Shape.depth] at hdepth
    obtain ⟨hnames, hwritable, hbuild⟩ := h
    exact Shape.read_record (by omega)
      (Fields.read_toMembers fields (parts a) hnames hwritable (depth - 1) (by omega))
      (fields.finish_found (parts a) hwritable) hbuild
  | _, .textOrTexts name one many toSum, a, h, depth, hdepth => by
    rw [Shape.Writable] at h
    rw [Shape.depth] at hdepth
    exact Shape.read_textOrTexts h hdepth

/-- The members of a record's object give the fields that are written. -/
theorem Fields.read_toMembers : {σ β : Type} → (fields : Fields σ β) → (v : β) →
    fields.names.Nodup → fields.Writable v → (depth : Nat) → fields.depth < depth →
    (fields.toMembers v).foldlM (fields.readNext (.text depth)) fields.empty = .ok (fields.found v)
  | _, _, .nil, _, _, _, _, _ => rfl
  | _, _, .cons name shape absent leftOut rest, (value, others), hnames, h, depth, hdepth => by
    rw [Fields.Writable] at h
    rw [Fields.depth] at hdepth
    obtain ⟨hname, hnames⟩ := List.nodup_cons.1 hnames
    obtain ⟨hvalue, hothers⟩ := h
    refine Fields.read_cons hname (fun hleft => ?_)
      (Fields.read_toMembers rest others hnames hothers depth (by omega))
    rw [hleft, if_neg Bool.false_ne_true] at hvalue
    exact Shape.read_toDoc shape value hvalue depth (by omega)

end

mutual

theorem Shape.plain_toDoc : {α : Type} → (s : Shape α) → (a : α) → s.Writable a →
    (s.toDoc a).Plain
  | _, .text, s, _ => by
    rw [Shape.toDoc]
    exact .text s
  | _, .flag, b, _ => by
    rw [Shape.toDoc]
    exact .flag b
  | _, .integer kind, a, _ => by
    rw [Shape.toDoc]
    exact .number (Numeral.proper_ofInt _)
  | _, .real kind, x, h => by
    rw [Shape.Writable] at h
    obtain ⟨n, hn, hproper, -⟩ := h
    rw [Shape.toDoc, hn]
    exact .number hproper
  | _, .instant, t, _ => by
    rw [Shape.toDoc]
    exact .text _
  | _, .choice _ _ toName, a, _ => by
    rw [Shape.toDoc]
    exact .text _
  | _, .optional s, none, _ => by
    rw [Shape.toDoc]
    exact .null
  | _, .optional s, some a, h => by
    rw [Shape.Writable] at h
    rw [Shape.toDoc]
    exact Shape.plain_toDoc s a (h a rfl).1
  | _, .list s, as, h => by
    rw [Shape.Writable] at h
    rw [Shape.toDoc]
    refine .list fun d hd => ?_
    obtain ⟨a, ha, rfl⟩ := List.mem_map.1 hd
    exact Shape.plain_toDoc s a (h a ha)
  | _, .labels, m, _ => by
    have hmembers : ∀ e ∈ m.entries.map fun e => (e.1, Doc.text (.ok e.2)), e.2.Plain := by
      intro e he
      obtain ⟨d, -, rfl⟩ := List.mem_map.1 he
      exact .text d.2
    have hplain := Doc.Plain.object hmembers
    rw [List.map_map] at hplain
    rw [Shape.toDoc]
    exact hplain
  | _, .record _ fields _ parts, a, h => by
    rw [Shape.Writable] at h
    obtain ⟨members, hmembers, hplain⟩ := Fields.plain_toMembers fields (parts a) h.2.1
    rw [Shape.toDoc, hmembers]
    exact .object hplain
  | _, .textOrTexts _ _ _ toSum, a, _ => by
    rw [Shape.toDoc]
    split
    · exact .text _
    · refine .list fun d hd => ?_
      obtain ⟨s, -, rfl⟩ := List.mem_map.1 hd
      exact .text s

theorem Fields.plain_toMembers : {σ β : Type} → (fields : Fields σ β) → (v : β) →
    fields.Writable v → ∃ members : List (String × Doc),
      fields.toMembers v = members.map (fun m => (.ok m.1, m.2)) ∧ ∀ m ∈ members, m.2.Plain
  | _, _, .nil, _, _ => ⟨[], rfl, nofun⟩
  | _, _, .cons name shape _ leftOut rest, (value, others), h => by
    rw [Fields.Writable] at h
    obtain ⟨hvalue, hothers⟩ := h
    obtain ⟨members, hmembers, hplain⟩ := Fields.plain_toMembers rest others hothers
    rw [Fields.toMembers]
    by_cases hleft : leftOut value = true
    · rw [if_pos hleft]
      exact ⟨members, hmembers, hplain⟩
    · rw [if_neg hleft] at hvalue ⊢
      refine ⟨(name, shape.toDoc value) :: members, by rw [hmembers]; rfl, fun m hm => ?_⟩
      rcases List.mem_cons.1 hm with rfl | hm
      · exact Shape.plain_toDoc shape value hvalue
      · exact hplain m hm

end

/-- Reading the text of a value gives the value. -/
theorem Shape.decodeText_encode (s : Shape α) {a : α} (h : s.Writable a)
    (hdepth : s.depth < Origin.depthLimit) : s.decodeText (s.encode a) = .ok a := by
  rw [decodeText, encode, scanText_print (s.plain_toDoc a h), readWhole]
  dsimp only
  rw [s.read_toDoc a h Origin.depthLimit hdepth]
  rfl

end InferenceFleet.Json
