import InferenceFleet.Proofs.Binary.Rounding
import InferenceFleet.Proofs.Except
import InferenceFleet.Proofs.Json.ReadWrite

/-!
# What a successful reading says

All values that a shape reads may have something in common (`Shape.Gives`), and a record has what
its fields have (`Fields.Gives`): floating-point numbers, for one, are canonical. A document that is
read has parts that are read (`Shape.CanRead`): the elements of a list, the members of a record.
-/

namespace InferenceFleet.Json

variable {α β σ : Type}

/-- All values that `s` reads satisfy `P`. -/
def Shape.Gives (s : Shape α) (P : α → Prop) : Prop :=
  ∀ ⦃origin d a⦄, s.read origin d = .ok a → P a

/-- All values of the fields satisfy `P`, read from lists or from objects; `Q` holds of the values
found so far. -/
structure Fields.Gives (fs : Fields σ β) (Q : σ → Prop) (P : β → Prop) : Prop where
  empty : Q fs.empty
  readMember : ∀ {origin name d found next}, Q found →
    fs.readMember origin found name d = .ok next → Q next
  finish : ∀ {found v}, Q found → fs.finish found = .ok v → P v
  readList : ∀ {origin record size count items ending v rest},
    fs.readList origin record size count items ending = .ok (v, rest) → P v

/-- Some reader of `s` takes the document. -/
def Shape.CanRead (s : Shape α) (d : Doc) : Prop := ∃ origin a, s.read origin d = .ok a

/-- Some reader of the fields takes the document as the member `key`. -/
def Fields.CanRead (fs : Fields σ β) (key : String) (d : Doc) : Prop :=
  ∃ origin found next, fs.readMember origin found key d = .ok next

theorem Shape.gives_any (s : Shape α) : s.Gives fun _ => True := fun _ _ _ _ => trivial

/-! ### Fields -/

namespace Fields.Gives

theorem nil : Fields.nil.Gives (fun _ => True) (fun _ => True) where
  empty := trivial
  readMember _ _ := trivial
  finish _ _ := trivial
  readList _ := trivial

variable {name : String} {shape : Shape α} {absent : Option α} {leftOut : α → Bool}
  {rest : Fields σ β} {P : α → Prop} {Q : σ → Prop} {R : β → Prop}

section cons
variable (hrest : rest.Gives Q R)
include hrest

theorem finish_cons (habsent : ∀ a ∈ absent, P a) {found : Option α × σ} {v : α × β}
    (hfound : (∀ a ∈ found.1, P a) ∧ Q found.2)
    (h : (Fields.cons name shape absent leftOut rest).finish found = .ok v) : P v.1 ∧ R v.2 := by
  obtain ⟨own, others⟩ := found
  simp only [Fields.finish] at h
  split at h
  · rename_i value hvalue
    obtain ⟨w, hfinish, hv⟩ := exists_of_bind h
    cases hv
    refine ⟨?_, hrest.finish hfound.2 hfinish⟩
    cases own with
    | some a => exact hfound.1 _ hvalue
    | none => exact habsent _ hvalue
  · cases h

variable (hshape : shape.Gives P)
include hshape

theorem readMember_cons {origin : Origin} {key : String} {d : Doc} {found next : Option α × σ}
    (hfound : (∀ a ∈ found.1, P a) ∧ Q found.2)
    (h : (Fields.cons name shape absent leftOut rest).readMember origin found key d = .ok next) :
    (∀ a ∈ next.1, P a) ∧ Q next.2 := by
  obtain ⟨own, others⟩ := found
  simp only [Fields.readMember] at h
  split at h
  · cases own with
    | some v => cases h
    | none =>
      obtain ⟨v, hread, hnext⟩ := exists_of_bind h
      cases hnext
      refine ⟨fun a ha => ?_, hfound.2⟩
      cases ha
      exact hshape hread
  · obtain ⟨others', hmember, hnext⟩ := exists_of_bind h
    cases hnext
    exact ⟨hfound.1, hrest.readMember hfound.2 hmember⟩

theorem readList_cons (habsent : ∀ a ∈ absent, P a) {origin : Origin} {record : String}
    {size count : Nat} {items : List Doc} {ending : Ending} {v : α × β} {left : List Doc}
    (h : (Fields.cons name shape absent leftOut rest).readList origin record size count items
      ending = .ok (v, left)) : P v.1 ∧ R v.2 := by
  cases items with
  | cons d items =>
    simp only [Fields.readList] at h
    obtain ⟨value, hread, h⟩ := exists_of_bind h
    obtain ⟨⟨others, left'⟩, hlist, hv⟩ := exists_of_bind h
    cases hv
    exact ⟨hshape hread, hrest.readList hlist⟩
  | nil =>
    simp only [Fields.readList] at h
    obtain ⟨u, -, h⟩ := exists_of_bind h
    cases absent with
    | none => cases h
    | some value =>
      obtain ⟨⟨others, left'⟩, hlist, hv⟩ := exists_of_bind h
      cases hv
      exact ⟨habsent value rfl, hrest.readList hlist⟩

/-- A field whose values satisfy `P`, the one taken when it is absent included. -/
theorem cons (habsent : ∀ a ∈ absent, P a) :
    (Fields.cons name shape absent leftOut rest).Gives
      (fun found => (∀ a ∈ found.1, P a) ∧ Q found.2) (fun v => P v.1 ∧ R v.2) where
  empty := ⟨nofun, hrest.empty⟩
  readMember := readMember_cons hrest hshape
  finish := finish_cons hrest habsent
  readList := readList_cons hrest hshape habsent

omit hshape in
/-- A field of which nothing is known. -/
theorem any : (Fields.cons name shape absent leftOut rest).Gives
    (fun found => (∀ a ∈ found.1, True) ∧ Q found.2) (fun v => True ∧ R v.2) :=
  hrest.cons shape.gives_any fun _ _ => trivial

end cons

theorem foldlM_readNext {fs : Fields σ β} (h : fs.Gives Q R) {origin : Origin} {ms : Members}
    {found last : σ} (hfound : Q found)
    (hms : ms.foldlM (fs.readNext origin) found = .ok last) : Q last := by
  induction ms generalizing found with
  | nil =>
    cases hms
    exact hfound
  | cons m ms ih =>
    rw [List.foldlM_cons] at hms
    obtain ⟨next, hm, hms⟩ := exists_of_bind hms
    obtain ⟨key, -, hmember⟩ := exists_of_bind hm
    exact ih (h.readMember hfound hmember) hms

end Fields.Gives

namespace Fields.CanRead

variable {name key : String} {shape : Shape α} {absent : Option α} {leftOut : α → Bool}
  {rest : Fields σ β} {d : Doc}

theorem own (h : (Fields.cons name shape absent leftOut rest).CanRead name d) :
    shape.CanRead d := by
  obtain ⟨origin, ⟨own, others⟩, next, h⟩ := h
  simp only [Fields.readMember, if_true] at h
  cases own with
  | some v => cases h
  | none =>
    obtain ⟨v, hread, -⟩ := exists_of_bind h
    exact ⟨origin, v, hread⟩

theorem other (hne : name ≠ key) (h : (Fields.cons name shape absent leftOut rest).CanRead key d) :
    rest.CanRead key d := by
  obtain ⟨origin, ⟨own, others⟩, next, h⟩ := h
  simp only [Fields.readMember, if_neg hne] at h
  obtain ⟨others', hmember, -⟩ := exists_of_bind h
  exact ⟨origin, others, others', hmember⟩

theorem of_foldlM {fs : Fields σ β} {origin : Origin} {ms : Members} {found last : σ}
    (hms : ms.foldlM (fs.readNext origin) found = .ok last) (hm : (.ok key, d) ∈ ms) :
    fs.CanRead key d := by
  induction ms generalizing found with
  | nil => cases hm
  | cons m ms ih =>
    rw [List.foldlM_cons] at hms
    obtain ⟨next, hnext, hms⟩ := exists_of_bind hms
    rcases List.mem_cons.1 hm with rfl | hm
    · exact ⟨origin, found, next, hnext⟩
    · exact ih hms hm

end Fields.CanRead

/-! ### Lists -/

theorem map_of_mapM {f : Doc → Except Fault α} {items : List Doc} {as : List α}
    (h : items.mapM f = .ok as) : items.map f = as.map .ok := by
  induction items generalizing as with
  | nil =>
    cases h
    rfl
  | cons d items ih =>
    rw [List.mapM_cons] at h
    obtain ⟨a, hd, h⟩ := exists_of_bind h
    obtain ⟨others, hitems, has⟩ := exists_of_bind h
    cases has
    rw [List.map_cons, List.map_cons, hd, ih hitems]

/-! ### Shapes -/

/-- The elements of a list are read one by one. -/
theorem Shape.exists_of_read_list {s : Shape α} {origin : Origin} {items : List Doc}
    {ending : Ending} {as : List α} (h : s.list.read origin (.list items ending) = .ok as) :
    ∃ inner, (items.map fun d => s.read inner d) = as.map .ok := by
  simp only [Shape.read] at h
  obtain ⟨inner, -, h⟩ := exists_of_bind h
  obtain ⟨values, hvalues, h⟩ := exists_of_bind h
  obtain ⟨u, -, has⟩ := exists_of_bind h
  cases has
  exact ⟨inner, map_of_mapM hvalues⟩

/-- The members of an object are read one by one, and then nothing is missing. -/
theorem Shape.exists_of_read_object {name : String} {fields : Fields σ β} {build : β → α}
    {parts : α → β} {origin : Origin} {ms : Members} {ending : Ending} {a : α}
    (h : (Shape.record name fields build parts).read origin (.object ms ending) = .ok a) :
    ∃ inner found v, ms.foldlM (fields.readNext inner) fields.empty = .ok found ∧
      fields.finish found = .ok v ∧ build v = a := by
  simp only [Shape.read] at h
  obtain ⟨inner, -, h⟩ := exists_of_bind h
  obtain ⟨found, hmembers, h⟩ := exists_of_bind h
  obtain ⟨u, -, h⟩ := exists_of_bind h
  obtain ⟨v, hfinish, ha⟩ := exists_of_bind h
  exact ⟨inner, found, v, hmembers, hfinish, Except.ok.inj ha⟩

namespace Shape.Gives

variable {s : Shape α} {P : α → Prop}

theorem real {f : Format} (hf : f.Proper) (kind : RealKind f) :
    (Shape.real kind).Gives Binary.Canonical := by
  intro origin d x h
  cases d with
  | number n =>
    obtain ⟨q, -, h⟩ := exists_of_bind h
    cases q with
    | integer i =>
      cases h
      exact Binary.canonical_round hf one_pos _
    | real y =>
      cases h
      cases y with
      | infinite negative => trivial
      | finite negative m e => exact Binary.canonical_round hf (scaled_den_pos _ one_pos _) _
  | _ => simp [Shape.read, Doc.readReal] at h

theorem optional (h : s.Gives P) : s.optional.Gives fun o => ∀ a ∈ o, P a := by
  intro origin d o hread
  simp only [Shape.read] at hread
  split at hread
  · cases hread
    rintro a ⟨⟩
  · obtain ⟨a, ha, rfl⟩ := exists_of_map hread
    intro b hb
    cases hb
    exact h ha

theorem list (h : s.Gives P) : s.list.Gives fun as => ∀ a ∈ as, P a := by
  intro origin d as hread
  cases d with
  | list items ending =>
    obtain ⟨inner, hitems⟩ := Shape.exists_of_read_list hread
    intro a ha
    have hmem : .ok a ∈ items.map fun d => s.read inner d := hitems ▸ List.mem_map_of_mem ha
    obtain ⟨d, -, hd⟩ := List.mem_map.1 hmem
    exact h hd
  | _ => simp [Shape.read] at hread

theorem record {name : String} {fields : Fields σ β} {build : β → α} {parts : α → β}
    {Q : σ → Prop} {R : β → Prop} (h : fields.Gives Q R) (hbuild : ∀ v, R v → P (build v)) :
    (Shape.record name fields build parts).Gives P := by
  intro origin d a hread
  cases d with
  | list items ending =>
    simp only [Shape.read] at hread
    obtain ⟨inner, -, hread⟩ := exists_of_bind hread
    obtain ⟨⟨values, rest⟩, hlist, hread⟩ := exists_of_bind hread
    obtain ⟨u, -, ha⟩ := exists_of_bind hread
    cases ha
    exact hbuild values (h.readList hlist)
  | object members ending =>
    obtain ⟨inner, found, v, hmembers, hfinish, rfl⟩ := Shape.exists_of_read_object hread
    exact hbuild v (h.finish (h.foldlM_readNext h.empty hmembers) hfinish)
  | keyless found =>
    simp only [Shape.read] at hread
    obtain ⟨inner, -, hread⟩ := exists_of_bind hread
    cases hread
  | _ => simp [Shape.read] at hread

theorem decode (h : s.Gives P) {bytes : List UInt8} {a : α} (hread : s.decode bytes = .ok a) :
    P a := by
  obtain ⟨value, hvalue, hread⟩ := exists_of_bind hread
  split at hread
  · cases hread
  · cases hread
    exact h hvalue

end Shape.Gives

namespace Shape.CanRead

theorem of_mem_list {s : Shape α} {items : List Doc} {ending : Ending}
    (h : s.list.CanRead (.list items ending)) {d : Doc} (hd : d ∈ items) : s.CanRead d := by
  obtain ⟨origin, as, h⟩ := h
  obtain ⟨inner, hitems⟩ := Shape.exists_of_read_list h
  have hmem : s.read inner d ∈ as.map .ok := hitems ▸ List.mem_map_of_mem hd
  obtain ⟨a, -, ha⟩ := List.mem_map.1 hmem
  exact ⟨inner, a, ha.symm⟩

theorem of_mem_object {name key : String} {fields : Fields σ β} {build : β → α} {parts : α → β}
    {ms : Members} {ending : Ending} {d : Doc}
    (h : (Shape.record name fields build parts).CanRead (.object ms ending))
    (hm : (.ok key, d) ∈ ms) : fields.CanRead key d := by
  obtain ⟨origin, a, h⟩ := h
  obtain ⟨inner, found, v, hmembers, -⟩ := Shape.exists_of_read_object h
  exact .of_foldlM hmembers hm

/-- No floating-point number is read from what is written for an infinity. -/
theorem isInfinite_eq_false {f : Format} {kind : RealKind f} {x : Binary f}
    (h : (Shape.real kind).CanRead ((Shape.real kind).toDoc x)) : x.isInfinite = false := by
  obtain ⟨origin, a, h⟩ := h
  cases x with
  | finite negative m e => rfl
  | infinite negative => cases h

end Shape.CanRead

end InferenceFleet.Json
