import InferenceFleet.Proofs.Except
import InferenceFleet.Proofs.Json.ReadWrite

/-!
# Shapes that extend others

A shape extends another when it reads every document that the other reads, and to a value that
stands for the same: `g` takes it to the value of the other. A record extends another when its
fields do, one for one (`Fields.Extends`), whether it is read from an object or from a list. What
holds of documents holds of texts and of bytes (`Shape.Extends.decodeText`, `Shape.Extends.decode`).
-/

namespace InferenceFleet.Json

variable {α α' β β' γ σ σ' : Type}

/-- Whatever `s` reads, `s'` reads too, and `g` takes its value to the one of `s`. -/
def Shape.Extends (s' : Shape α') (s : Shape α) (g : α' → α) : Prop :=
  ∀ ⦃origin d a⦄, s.read origin d = .ok a → ∃ a', s'.read origin d = .ok a' ∧ g a' = a

/-- The fields `fs'` take what the fields `fs` take, in lists and in objects: `k` relates the values
found so far, `g` those of all fields. -/
structure Fields.Extends (fs' : Fields σ' β') (fs : Fields σ β) (k : σ' → σ) (g : β' → β) :
    Prop where
  size : fs'.size = fs.size
  empty : k fs'.empty = fs.empty
  readMember : ∀ {origin name d found' found}, fs.readMember origin (k found') name d = .ok found →
    ∃ next', fs'.readMember origin found' name d = .ok next' ∧ k next' = found
  finish : ∀ {found' v}, fs.finish (k found') = .ok v → ∃ v', fs'.finish found' = .ok v' ∧ g v' = v
  readList : ∀ (record' : String) {origin record size count items ending v rest},
    fs.readList origin record size count items ending = .ok (v, rest) →
      ∃ v', fs'.readList origin record' size count items ending = .ok (v', rest) ∧ g v' = v

/-! ### Fields -/

namespace Fields.Extends

theorem nil : Fields.nil.Extends .nil id id where
  size := rfl
  empty := rfl
  readMember h := ⟨_, h, rfl⟩
  finish h := ⟨_, h, rfl⟩
  readList _ _ _ _ _ _ _ _ _ h := ⟨_, h, rfl⟩

variable {name : String} {shape' : Shape α'} {shape : Shape α} {absent' : Option α'}
  {absent : Option α} {leftOut' : α' → Bool} {leftOut : α → Bool} {rest' : Fields σ' β'}
  {rest : Fields σ β} {j : α' → α} {k : σ' → σ} {g : β' → β}

section cons
variable (hrest : rest'.Extends rest k g)
include hrest

theorem finish_cons (habsent : absent'.map j = absent) {found' : Option α' × σ'} {v : α × β}
    (h : (Fields.cons name shape absent leftOut rest).finish (found'.map (Option.map j) k) =
      .ok v) :
    ∃ v', (Fields.cons name shape' absent' leftOut' rest').finish found' = .ok v' ∧
      v'.map j g = v := by
  obtain ⟨own', others'⟩ := found'
  have hown : (own'.map j <|> absent) = (own' <|> absent').map j := by
    rw [← habsent]
    cases own' <;> rfl
  simp only [Fields.finish, Prod.map, hown] at h ⊢
  cases hvalue : (own' <|> absent') with
  | none =>
    rw [hvalue] at h
    cases h
  | some value' =>
    rw [hvalue] at h
    obtain ⟨others, hfinish, hv⟩ := exists_of_bind h
    cases hv
    obtain ⟨w', hfinish', rfl⟩ := hrest.finish hfinish
    dsimp only
    rw [hfinish']
    exact ⟨_, rfl, rfl⟩

variable (hshape : shape'.Extends shape j)
include hshape

theorem readMember_cons {origin : Origin} {key : String} {d : Doc} {found' : Option α' × σ'}
    {found : Option α × σ}
    (h : (Fields.cons name shape absent leftOut rest).readMember origin
      (found'.map (Option.map j) k) key d = .ok found) :
    ∃ next', (Fields.cons name shape' absent' leftOut' rest').readMember origin found' key d =
      .ok next' ∧ next'.map (Option.map j) k = found := by
  obtain ⟨own', others'⟩ := found'
  simp only [Fields.readMember, Prod.map] at h ⊢
  by_cases hkey : name = key
  · rw [if_pos hkey] at h ⊢
    cases own' with
    | some v => cases h
    | none =>
      obtain ⟨v, hread, hv⟩ := exists_of_bind h
      cases hv
      obtain ⟨v', hread', rfl⟩ := hshape hread
      rw [hread']
      exact ⟨_, rfl, rfl⟩
  · rw [if_neg hkey] at h ⊢
    obtain ⟨others, hmember, hothers⟩ := exists_of_bind h
    cases hothers
    obtain ⟨next', hmember', rfl⟩ := hrest.readMember hmember
    rw [hmember']
    exact ⟨_, rfl, rfl⟩

theorem readList_cons (habsent : absent'.map j = absent) (record' : String) {origin : Origin}
    {record : String} {size count : Nat} {items : List Doc} {ending : Ending} {v : α × β}
    {left : List Doc}
    (h : (Fields.cons name shape absent leftOut rest).readList origin record size count items
      ending = .ok (v, left)) :
    ∃ v', (Fields.cons name shape' absent' leftOut' rest').readList origin record' size count items
      ending = .ok (v', left) ∧ v'.map j g = v := by
  cases items with
  | cons d items =>
    simp only [Fields.readList] at h ⊢
    obtain ⟨value, hread, h⟩ := exists_of_bind h
    obtain ⟨⟨others, left'⟩, hlist, hv⟩ := exists_of_bind h
    cases hv
    obtain ⟨value', hread', rfl⟩ := hshape hread
    obtain ⟨others', hlist', rfl⟩ := hrest.readList record' hlist
    rw [hread']
    exact ⟨(value', others'), by simp only [bind, Except.bind, hlist']; rfl, rfl⟩
  | nil =>
    simp only [Fields.readList] at h ⊢
    obtain ⟨u, hending, h⟩ := exists_of_bind h
    rw [hending]
    -- The list is too short; both take what stands for an absent field, or neither does.
    cases absent' with
    | none =>
      rw [← habsent] at h
      cases h
    | some value' =>
      rw [← habsent] at h
      obtain ⟨⟨others, left'⟩, hlist, hv⟩ := exists_of_bind h
      cases hv
      obtain ⟨others', hlist', rfl⟩ := hrest.readList record' hlist
      exact ⟨(value', others'), by simp only [bind, Except.bind, hlist']; rfl, rfl⟩

/-- A field of the same name whose shape extends the other's, and that is taken for the same when
absent. -/
theorem cons (habsent : absent'.map j = absent) :
    (Fields.cons name shape' absent' leftOut' rest').Extends (.cons name shape absent leftOut rest)
      (Prod.map (Option.map j) k) (Prod.map j g) where
  size := congrArg (· + 1) hrest.size
  empty := congrArg (Prod.mk none) hrest.empty
  readMember := readMember_cons hrest hshape
  finish := finish_cons hrest habsent
  readList := readList_cons hrest hshape habsent

end cons

/-- The members of an object are read one by one, and what is found corresponds all the way. -/
theorem foldlM_readMember {fs' : Fields σ' β'} {fs : Fields σ β} (h : fs'.Extends fs k g)
    {origin : Origin} {ms : Members} {found' : σ'} {found : σ}
    (hms : ms.foldlM (fun found m => do
      let key ← m.1
      fs.readMember origin found key m.2) (k found') = .ok found) :
    ∃ last', ms.foldlM (fun found m => do
      let key ← m.1
      fs'.readMember origin found key m.2) found' = .ok last' ∧ k last' = found := by
  induction ms generalizing found' with
  | nil =>
    cases hms
    exact ⟨found', rfl, rfl⟩
  | cons m ms ih =>
    rw [List.foldlM_cons] at hms
    obtain ⟨next, hm, hms⟩ := exists_of_bind hms
    obtain ⟨key, hkey, hmember⟩ := exists_of_bind hm
    obtain ⟨next', hmember', rfl⟩ := h.readMember hmember
    obtain ⟨last', hms', hlast⟩ := ih hms
    refine ⟨last', ?_, hlast⟩
    rw [List.foldlM_cons, hkey]
    simp only [bind, Except.bind, hmember']
    exact hms'

end Fields.Extends

/-! ### Shapes -/

namespace Shape.Extends

theorem refl (s : Shape α) : s.Extends s id := fun _ _ a h => ⟨a, h, rfl⟩

/-- A value that may be `null`, where the other is never read from `null`. -/
theorem optional {s : Shape α} (hnull : ∀ origin a, s.read origin .null ≠ .ok a) (value : α) :
    s.optional.Extends s (·.getD value) := by
  intro origin d a h
  cases d with
  | null => exact absurd h (hnull origin a)
  | _ =>
    refine ⟨some a, ?_, rfl⟩
    simp only [Shape.read, h]
    rfl

theorem mapM_read {s' : Shape α'} {s : Shape α} {g : α' → α} (h : s'.Extends s g)
    {origin : Origin} {items : List Doc} {as : List α}
    (hread : items.mapM (fun d => s.read origin d) = .ok as) :
    ∃ as', items.mapM (fun d => s'.read origin d) = .ok as' ∧ as'.map g = as := by
  induction items generalizing as with
  | nil =>
    cases hread
    exact ⟨[], rfl, rfl⟩
  | cons d items ih =>
    rw [List.mapM_cons] at hread
    obtain ⟨a, hd, hread⟩ := exists_of_bind hread
    obtain ⟨others, hitems, has⟩ := exists_of_bind hread
    cases has
    obtain ⟨a', hd', rfl⟩ := h hd
    obtain ⟨others', hitems', rfl⟩ := ih hitems
    refine ⟨a' :: others', ?_, rfl⟩
    rw [List.mapM_cons, hd', hitems']
    rfl

theorem list {s' : Shape α'} {s : Shape α} {g : α' → α} (h : s'.Extends s g) :
    s'.list.Extends s.list (List.map g) := by
  intro origin d as hread
  cases d with
  | list items ending =>
    simp only [Shape.read] at hread ⊢
    obtain ⟨inner, hinner, hread⟩ := exists_of_bind hread
    obtain ⟨values, hvalues, hread⟩ := exists_of_bind hread
    obtain ⟨u, hending, has⟩ := exists_of_bind hread
    cases has
    obtain ⟨values', hvalues', rfl⟩ := h.mapM_read hvalues
    refine ⟨values', ?_, rfl⟩
    rw [hinner]
    simp only [bind, Except.bind, hvalues', hending]
    rfl
  | _ => simp [Shape.read] at hread

theorem record {name name' : String} {fs' : Fields σ' β'} {fs : Fields σ β} {build' : β' → α'}
    {build : β → α} {parts' : α' → β'} {parts : α → β} {k : σ' → σ} {g : β' → β} {j : α' → α}
    (h : fs'.Extends fs k g) (hbuild : ∀ v', j (build' v') = build (g v')) :
    (Shape.record name' fs' build' parts').Extends (.record name fs build parts) j := by
  intro origin d a hread
  cases d with
  | list items ending =>
    simp only [Shape.read] at hread ⊢
    obtain ⟨inner, hinner, hread⟩ := exists_of_bind hread
    obtain ⟨⟨values, rest⟩, hlist, hread⟩ := exists_of_bind hread
    obtain ⟨u, hsurplus, ha⟩ := exists_of_bind hread
    cases ha
    obtain ⟨values', hlist', rfl⟩ := h.readList name' hlist
    refine ⟨build' values', ?_, hbuild values'⟩
    rw [hinner, h.size]
    simp only [bind, Except.bind, hlist', hsurplus]
    rfl
  | object members ending =>
    simp only [Shape.read] at hread ⊢
    obtain ⟨inner, hinner, hread⟩ := exists_of_bind hread
    obtain ⟨found, hmembers, hread⟩ := exists_of_bind hread
    obtain ⟨u, hending, hread⟩ := exists_of_bind hread
    obtain ⟨values, hfinish, ha⟩ := exists_of_bind hread
    cases ha
    rw [← h.empty] at hmembers
    obtain ⟨found', hmembers', rfl⟩ := h.foldlM_readMember hmembers
    obtain ⟨values', hfinish', rfl⟩ := h.finish hfinish
    refine ⟨build' values', ?_, hbuild values'⟩
    rw [hinner]
    simp only [bind, Except.bind] at hmembers' ⊢
    simp only [hmembers', hending, hfinish']
    rfl
  | keyless found =>
    simp only [Shape.read] at hread
    obtain ⟨inner, -, hread⟩ := exists_of_bind hread
    cases hread
  | _ => simp [Shape.read] at hread

/-! ### One text or several -/

theorem texts_of_mapM {wanted : String} {items : List Doc} {ss : List String}
    (h : items.mapM (fun d => d.readText wanted) = .ok ss) :
    items = ss.map fun s => .text (.ok s) := by
  induction items generalizing ss with
  | nil =>
    cases h
    rfl
  | cons d items ih =>
    rw [List.mapM_cons] at h
    obtain ⟨s, hd, h⟩ := exists_of_bind h
    obtain ⟨others, hitems, hss⟩ := exists_of_bind h
    cases hss
    rw [ih hitems, List.map_cons]
    cases d with
    | text t =>
      obtain rfl : t = .ok s := by simpa [Doc.readText] using hd
      rfl
    | _ => simp [Doc.readText] at hd

/-- A text or a list of texts, where the other is a list of texts. -/
theorem textOrTexts {name : String} {one : String → α'} {many : List String → α'}
    {toSum : α' → String ⊕ List String} {g : α' → List String} (hmany : ∀ ss, g (many ss) = ss) :
    (Shape.textOrTexts name one many toSum).Extends (.list .text) g := by
  intro origin d ss hread
  cases d with
  | list items ending =>
    simp only [Shape.read] at hread
    obtain ⟨inner, hinner, hread⟩ := exists_of_bind hread
    obtain ⟨values, hvalues, hread⟩ := exists_of_bind hread
    obtain ⟨u, hending, hss⟩ := exists_of_bind hread
    cases hss
    obtain rfl := texts_of_mapM hvalues
    refine ⟨many ss, ?_, hmany ss⟩
    have hcheck := (Doc.check_texts ss ending hinner).trans hending
    simp only [Shape.read, hcheck, bind, Except.bind, Doc.texts?_map]
    rfl
  | _ => simp [Shape.read] at hread

/-! ### Texts and bytes -/

section
variable {s' : Shape α'} {s : Shape α} {g : α' → α} {a : α} (h : s'.Extends s g)
include h

theorem readWhole {t : Text} (hread : s.readWhole t = .ok a) :
    ∃ a', s'.readWhole t = .ok a' ∧ g a' = a := by
  unfold Shape.readWhole at hread ⊢
  obtain ⟨value, hvalue, hread⟩ := exists_of_bind hread
  obtain ⟨value', hvalue', rfl⟩ := h hvalue
  rw [hvalue']
  simp only [bind, Except.bind]
  split at hread
  · cases hread
  · rename_i hsurplus
    cases hread
    exact ⟨value', if_neg hsurplus, rfl⟩

theorem decode {bytes : List UInt8} (hread : s.decode bytes = .ok a) :
    ∃ a', s'.decode bytes = .ok a' ∧ g a' = a := h.readWhole hread

theorem decodeText {t : String} (hread : s.decodeText t = .ok a) :
    ∃ a', s'.decodeText t = .ok a' ∧ g a' = a := h.readWhole hread

end

end Shape.Extends

end InferenceFleet.Json
