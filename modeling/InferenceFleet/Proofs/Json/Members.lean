import InferenceFleet.Proofs.Json.ReadWrite

/-!
# Which objects a record is read from

A record is read from an object when every field takes what the members of its name hold, none or
one, and the other members can be passed over (`foldlM_readNext_cons`, `foldlM_readNext_nil`).
Members that belong to no field change nothing (`read_object_filter`).
-/

namespace InferenceFleet.Json

variable {α β σ : Type} {name other key : String} {d : Doc} {ms : Members}

/-! ### Members by name -/

def isNamed (name : String) (m : Except Fault String × Doc) : Bool :=
  match m.1 with
  | .ok key => key == name
  | .error _ => false

/-- The members with the key `name`. -/
def named (name : String) (ms : Members) : Members := ms.filter (isNamed name)

/-- The members with other keys, and those with a faulty one. -/
def unnamed (name : String) (ms : Members) : Members := ms.filter fun m => !isNamed name m

/-- No key is faulty. -/
def KeysRead (ms : Members) : Prop := ∀ m ∈ ms, ∃ key, m.1 = .ok key

theorem isNamed_self : isNamed name (.ok name, d) = true := beq_self_eq_true name

theorem isNamed_of_ne (h : key ≠ name) : isNamed name (.ok key, d) = false :=
  beq_false_of_ne h

theorem key_of_isNamed {m : Except Fault String × Doc} (h : isNamed name m = true) :
    m.1 = .ok name := by
  obtain ⟨key | key, d⟩ := m
  · cases h
  · exact congrArg Except.ok (eq_of_beq h)

theorem named_unnamed (h : other ≠ name) : named name (unnamed other ms) = named name ms := by
  rw [named, unnamed, List.filter_filter, named]
  refine List.filter_congr fun m _ => ?_
  cases hm : isNamed name m with
  | false => rfl
  | true =>
    obtain ⟨key, d⟩ := m
    obtain rfl : key = .ok name := key_of_isNamed hm
    rw [isNamed_of_ne (Ne.symm h)]
    rfl

theorem mem_of_mem_unnamed {m : Except Fault String × Doc} (h : m ∈ unnamed name ms) : m ∈ ms :=
  (List.mem_filter.1 h).1

theorem KeysRead.of_unnamed (h : KeysRead (unnamed name ms)) : KeysRead ms := by
  intro m hm
  cases hnamed : isNamed name m with
  | true => exact ⟨name, key_of_isNamed hnamed⟩
  | false => exact h m (List.mem_filter.2 ⟨hm, by rw [hnamed]; rfl⟩)

/-! ### The fields of a record -/

/-- What the members of its name make of the value of a field found so far. -/
inductive Takes (name : String) (shape : Shape α) (origin : Origin) :
    Option α → Members → Option α → Prop where
  | none {found : Option α} : Takes name shape origin found [] found
  | one {d : Doc} {v : α} :
    shape.read origin d = .ok v → Takes name shape origin .none [(.ok name, d)] (some v)

section readNext
variable {shape : Shape α} {absent : Option α} {leftOut : α → Bool} {rest : Fields σ β}
  {origin : Origin} {others : σ}

theorem readNext_own : (Fields.cons name shape absent leftOut rest).readNext origin (none, others)
    (.ok name, d) = (shape.read origin d).map fun v => (some v, others) := by
  simp only [Fields.readNext, Fields.readMember, if_true, bind, Except.bind]
  cases shape.read origin d <;> rfl

theorem readNext_again {v : α} :
    (Fields.cons name shape absent leftOut rest).readNext origin (some v, others) (.ok name, d) =
      .error (.duplicateField name) := by
  simp only [Fields.readNext, Fields.readMember, if_true, bind, Except.bind]

theorem readNext_other {found : Option α} (h : key ≠ name) :
    (Fields.cons name shape absent leftOut rest).readNext origin (found, others) (.ok key, d) =
      (rest.readNext origin others (.ok key, d)).map fun others => (found, others) := by
  simp only [Fields.readNext, Fields.readMember, if_neg (Ne.symm h), bind, Except.bind]
  cases rest.readMember origin others key d <;> rfl

theorem foldlM_readNext_cons {found found' : Option α} {others' : σ} :
    ms.foldlM ((Fields.cons name shape absent leftOut rest).readNext origin) (found, others) =
        .ok (found', others') ↔
      (unnamed name ms).foldlM (rest.readNext origin) others = .ok others' ∧
        Takes name shape origin found (named name ms) found' := by
  induction ms generalizing found others with
  | nil =>
    constructor
    · intro h
      cases h
      exact ⟨rfl, .none⟩
    · rintro ⟨h, htakes⟩
      cases h
      cases htakes
      rfl
  | cons m ms ih =>
    obtain ⟨key | key, d⟩ := m
    · -- A faulty key is reported on either side.
      have hunnamed : unnamed name ((.error key, d) :: ms) = (.error key, d) :: unnamed name ms :=
        rfl
      rw [hunnamed]
      exact ⟨fun h => (by cases h), fun h => (by cases h.1)⟩
    by_cases hkey : key = name
    · subst hkey
      have hunnamed : unnamed key ((.ok key, d) :: ms) = unnamed key ms :=
        List.filter_cons_of_neg (by rw [isNamed_self]; decide)
      have hnamed : named key ((.ok key, d) :: ms) = (.ok key, d) :: named key ms :=
        List.filter_cons_of_pos isNamed_self
      rw [hunnamed, hnamed, List.foldlM_cons]
      cases found with
      | some v =>
        rw [readNext_again]
        exact ⟨fun h => (by cases h), fun h => (by cases h.2)⟩
      | none =>
        rw [readNext_own]
        cases hread : shape.read origin d with
        | error f =>
          refine ⟨fun h => (by cases h), fun ⟨_, h⟩ => ?_⟩
          generalize named key ms = ns at h
          cases h with
          | one hone => cases hread ▸ hone
        | ok v =>
          -- From now on the field has its value, and no more members may have the name.
          refine ih.trans (and_congr_right fun _ => ?_)
          generalize named key ms = ns
          constructor
          · intro h
            cases h
            exact .one hread
          · intro h
            cases h with
            | one hone =>
              cases hread ▸ hone
              exact .none
    · have hunnamed : unnamed name ((.ok key, d) :: ms) = (.ok key, d) :: unnamed name ms :=
        List.filter_cons_of_pos (by rw [isNamed_of_ne hkey]; rfl)
      have hnamed : named name ((.ok key, d) :: ms) = named name ms :=
        List.filter_cons_of_neg (by rw [isNamed_of_ne hkey]; decide)
      rw [hunnamed, hnamed, List.foldlM_cons, List.foldlM_cons, readNext_other hkey]
      cases rest.readNext origin others (.ok key, d) with
      | error f => exact ⟨fun h => (by cases h), fun h => (by cases h.1)⟩
      | ok others => exact ih

theorem foldlM_readNext_nil {u : Unit} :
    ms.foldlM (Fields.nil.readNext origin) () = .ok u ↔
      KeysRead ms ∧ ∀ m ∈ ms, m.2.passing? = none := by
  induction ms with
  | nil => exact iff_of_true rfl ⟨fun _ hm => (by cases hm), fun _ hm => (by cases hm)⟩
  | cons m ms ih =>
    rw [List.foldlM_cons, KeysRead, List.forall_mem_cons, List.forall_mem_cons]
    obtain ⟨key | key, d⟩ := m
    · refine ⟨fun h => (by cases h), fun h => ?_⟩
      obtain ⟨key, hkey⟩ := h.1.1
      cases hkey
    have hstep : Fields.nil.readNext origin () (.ok key, d) = raise? d.passing? := rfl
    rw [hstep]
    cases d.passing? with
    | some f => exact ⟨fun h => (by cases h), fun h => (by cases h.2.1)⟩
    | none => exact ih.trans ⟨fun h => ⟨⟨⟨key, rfl⟩, h.1⟩, rfl, h.2⟩, fun h => ⟨h.1.2, h.2.2⟩⟩

end readNext

/-- A member that belongs to no field is passed over. -/
theorem readMember_of_not_mem : {σ β : Type} → (fields : Fields σ β) → {origin : Origin} →
    (found : σ) → key ∉ fields.names → d.passing? = none →
    fields.readMember origin found key d = .ok found
  | _, _, .nil, _, (), _, hpassing => by
    simp only [Fields.readMember, hpassing, raise?]
  | _, _, .cons name shape _ _ rest, origin, (found, others), hkey, hpassing => by
    obtain ⟨hne, hrest⟩ := List.ne_and_not_mem_of_not_mem_cons hkey
    simp only [Fields.readMember, if_neg (Ne.symm hne), readMember_of_not_mem rest others hrest
      hpassing]
    rfl

/-! ### Records -/

section record
variable {record : String} {fields : Fields σ β} {build : β → α} {parts : α → β} {depth : Nat}
  (hdepth : 1 < depth)
include hdepth

theorem read_object_eq :
    (Shape.record record fields build parts).read (.text depth) (.object ms .closed) =
      ms.foldlM (fields.readNext (.text (depth - 1))) fields.empty >>= fun found =>
        (fields.finish found).map build := by
  cases hfold : ms.foldlM (fields.readNext (.text (depth - 1))) fields.empty with
  | ok found =>
    rw [Shape.read_object hdepth hfold]
    rfl
  | error f =>
    have hmembers : ms.foldlM (fun found m => do
        let key ← m.1
        fields.readMember (.text (depth - 1)) found key m.2) fields.empty = .error f := hfold
    rw [Shape.read, Origin.enter_text hdepth]
    simp only [bind, Except.bind] at hmembers ⊢
    rw [hmembers]

theorem read_object_iff {a : α} :
    (Shape.record record fields build parts).read (.text depth) (.object ms .closed) = .ok a ↔
      ∃ found v, ms.foldlM (fields.readNext (.text (depth - 1))) fields.empty = .ok found ∧
        fields.finish found = .ok v ∧ build v = a := by
  rw [read_object_eq hdepth]
  cases ms.foldlM (fields.readNext (.text (depth - 1))) fields.empty with
  | error f => exact ⟨fun h => (by cases h), fun ⟨_, _, h, _⟩ => (by cases h)⟩
  | ok found =>
    constructor
    · intro h
      cases hfinish : fields.finish found with
      | error f =>
        simp only [bind, Except.bind, hfinish, Except.map] at h
        cases h
      | ok v =>
        simp only [bind, Except.bind, hfinish, Except.map] at h
        exact ⟨found, v, rfl, hfinish, Except.ok.inj h⟩
    · rintro ⟨_, v, h, hfinish, rfl⟩
      cases h
      simp only [bind, Except.bind, hfinish, Except.map]

/-- Members that belong to no field can be left out. -/
theorem read_object_filter {p : Except Fault String × Doc → Bool}
    (h : ∀ m ∈ ms, p m = false → ∃ key, m.1 = .ok key ∧ key ∉ fields.names ∧ m.2.passing? = none) :
    (Shape.record record fields build parts).read (.text depth) (.object ms .closed) =
      (Shape.record record fields build parts).read (.text depth)
        (.object (ms.filter p) .closed) := by
  have hfold : ∀ found, ms.foldlM (fields.readNext (.text (depth - 1))) found =
      (ms.filter p).foldlM (fields.readNext (.text (depth - 1))) found := by
    clear hdepth
    induction ms with
    | nil => exact fun _ => rfl
    | cons m ms ih =>
      obtain ⟨hm, hms⟩ := List.forall_mem_cons.1 h
      intro found
      cases hp : p m with
      | true =>
        rw [List.filter_cons_of_pos hp, List.foldlM_cons, List.foldlM_cons]
        exact congrArg _ (funext fun found => ih hms found)
      | false =>
        obtain ⟨key, hkey, hnames, hpassing⟩ := hm hp
        have hstep : fields.readNext (.text (depth - 1)) found m = .ok found := by
          obtain ⟨k, d⟩ := m
          obtain rfl : k = .ok key := hkey
          exact readMember_of_not_mem fields found hnames hpassing
        rw [List.filter_cons_of_neg (by rw [hp]; decide), List.foldlM_cons, hstep]
        exact ih hms found
  rw [read_object_eq hdepth, read_object_eq hdepth, hfold]

end record

end InferenceFleet.Json
