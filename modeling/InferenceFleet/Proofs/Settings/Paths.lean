import InferenceFleet.Proofs.Settings.Tree
import Mathlib.Data.List.TakeWhile

/-!
# Keys that stand for themselves

The keys of the tree that sources are put into are put once more over the presets. Read as paths
they lead to themselves (`selfPath_of_path`): a name in a path does, and a key that is no path is
none in lower case either. The second needs that no character becomes another one's lower-case form
from beyond ASCII, so a key with the Kelvin sign is left out.
-/

namespace InferenceFleet.Settings

namespace Step
variable {c : Char} {cs rest : List Char} {step : Step}

/-! ### Lower case keeps the form of a path -/

/-- The two characters mean the same in a path, but for the names. -/
structure SameRole (c d : Char) : Prop where
  name : isNameChar c = isNameChar d
  point : c = '.' ↔ d = '.'
  opening : c = '[' ↔ d = '['
  closing : c = ']' ↔ d = ']'
  minus : c = '-' ↔ d = '-'

theorem sameRole_lowerChar (h : c ≠ '\u212A') : SameRole (lowerChar c) c := by
  by_cases hupper : c.isUpper = true
  · clear h
    refine forall_upper (p := fun c => SameRole (lowerChar c) c) (fun i => ?_) hupper
    constructor
    · revert i
      decide
    · revert i
      decide
    · revert i
      decide
    · revert i
      decide
    · revert i
      decide
  · rw [lowerChar_eq_self h hupper]
    exact ⟨rfl, .rfl, .rfl, .rfl, .rfl⟩

theorem ofChar?_lowerChar (c : Char) : Digit.ofChar? (lowerChar c) = Digit.ofChar? c := by
  by_cases hkelvin : c = '\u212A'
  · rw [hkelvin]
    decide
  · by_cases hupper : c.isUpper = true
    · exact forall_upper (p := fun c => Digit.ofChar? (lowerChar c) = Digit.ofChar? c) (by decide)
        hupper
    · rw [lowerChar_eq_self hkelvin hupper]

section
variable {p : Char → Bool} (h : ∀ c ∈ cs, p (lowerChar c) = p c)
include h

theorem takeWhile_lower :
    (cs.map lowerChar).takeWhile p = (cs.takeWhile p).map lowerChar := by
  induction cs with
  | nil => rfl
  | cons c cs ih =>
    obtain ⟨hc, hcs⟩ := List.forall_mem_cons.1 h
    rw [List.map_cons, List.takeWhile_cons, List.takeWhile_cons, hc, ih hcs]
    cases p c <;> rfl

theorem dropWhile_lower :
    (cs.map lowerChar).dropWhile p = (cs.dropWhile p).map lowerChar := by
  induction cs with
  | nil => rfl
  | cons c cs ih =>
    obtain ⟨hc, hcs⟩ := List.forall_mem_cons.1 h
    rw [List.map_cons, List.dropWhile_cons, List.dropWhile_cons, hc, ih hcs]
    cases p c <;> rfl

end

/-- The number that digits without a sign write. -/
def unsigned? (ds : List Char) : Option Nat :=
  if ds.isEmpty then none else (ds.mapM Digit.ofChar?).map Digit.value

theorem unsigned?_lower (ds : List Char) : unsigned? (ds.map lowerChar) = unsigned? ds := by
  have hdigits : Digit.ofChar? ∘ lowerChar = Digit.ofChar? := funext ofChar?_lowerChar
  rw [unsigned?, unsigned?, List.mapM_map, hdigits, List.isEmpty_map]

theorem place?_of_ne {c : Char} (hc : c ≠ '-') (cs : List Char) :
    place? (c :: cs) = (unsigned? (c :: cs)).map fun n => (n : Int) := by
  rw [place?]
  · rfl
  · intro ds h
    exact hc (List.cons.inj h).1

theorem place?_lower (h : ∀ c ∈ cs, c ≠ '\u212A') : place? (cs.map lowerChar) = place? cs := by
  cases cs with
  | nil => rfl
  | cons c cs =>
    have hrole := sameRole_lowerChar (h c List.mem_cons_self)
    by_cases hc : c = '-'
    · subst hc
      have hminus : lowerChar '-' = '-' := by decide
      have hplace (ds : List Char) : place? ('-' :: ds) =
          (unsigned? ds).map fun n => -(n : Int) := rfl
      rw [List.map_cons, hminus, hplace, hplace, unsigned?_lower]
    · rw [List.map_cons, place?_of_ne (fun hlow => hc (hrole.minus.1 hlow)), place?_of_ne hc,
        ← List.map_cons, unsigned?_lower]

theorem name?_lower (h : ∀ c ∈ cs, c ≠ '\u212A') :
    (name? (cs.map lowerChar)).map Prod.snd =
      (name? cs).map fun r => r.2.map lowerChar := by
  have hname : ∀ c ∈ cs, isNameChar (lowerChar c) = isNameChar c :=
    fun c hc => (sameRole_lowerChar (h c hc)).name
  rw [name?, name?, takeWhile_lower hname, dropWhile_lower hname, List.isEmpty_map]
  split <;> rfl

theorem next?_of_ne (hpoint : c ≠ '.') (hopening : c ≠ '[') (cs : List Char) :
    next? (c :: cs) = none := by
  rw [next?]
  · intro rest h
    exact hpoint (List.cons.inj h).1
  · intro rest h
    exact hopening (List.cons.inj h).1

/-- The step of a place in brackets, from the place and what follows it. -/
def closed? (place : List Char) : List Char → Option (Step × List Char)
  | ']' :: after => (place? place).map fun i => (.item i, after)
  | _ => none

theorem next?_opening (cs : List Char) :
    next? ('[' :: cs) = closed? (cs.takeWhile (· != ']')) (cs.dropWhile (· != ']')) := rfl

theorem closed?_of_ne {place : List Char} (hc : c ≠ ']') (cs : List Char) :
    closed? place (c :: cs) = none := by
  rw [closed?]
  intro after h
  exact hc (List.cons.inj h).1

theorem closed?_lower {place : List Char} (hplace : ∀ c ∈ place, c ≠ '\u212A')
    (h : ∀ c ∈ cs, c ≠ '\u212A') :
    (closed? (place.map lowerChar) (cs.map lowerChar)).map Prod.snd =
      (closed? place cs).map fun r => r.2.map lowerChar := by
  cases cs with
  | nil => rfl
  | cons c cs =>
    have hrole := sameRole_lowerChar (h c List.mem_cons_self)
    by_cases hc : c = ']'
    · subst hc
      have hclosing : lowerChar ']' = ']' := by decide
      have hclosed (place after : List Char) : closed? place (']' :: after) =
          (place? place).map fun i => (.item i, after) := rfl
      rw [List.map_cons, hclosing, hclosed, hclosed, place?_lower hplace]
      cases place? place <;> rfl
    · rw [List.map_cons, closed?_of_ne (fun hlow => hc (hrole.closing.1 hlow)), closed?_of_ne hc]
      rfl

theorem next?_lower (h : ∀ c ∈ cs, c ≠ '\u212A') :
    (next? (cs.map lowerChar)).map Prod.snd =
      (next? cs).map fun r => r.2.map lowerChar := by
  cases cs with
  | nil => rfl
  | cons c cs =>
    obtain ⟨hc, hcs⟩ := List.forall_mem_cons.1 h
    have hrole := sameRole_lowerChar hc
    rw [List.map_cons]
    by_cases hpoint : c = '.'
    · subst hpoint
      exact name?_lower hcs
    by_cases hopening : c = '['
    · subst hopening
      have hlow : lowerChar '[' = '[' := by decide
      have hend : ∀ c ∈ cs, (lowerChar c != ']') = (c != ']') := by
        intro c hc
        rw [Bool.eq_iff_iff, bne_iff_ne, bne_iff_ne]
        exact not_congr (sameRole_lowerChar (hcs c hc)).closing
      rw [hlow, next?_opening, next?_opening, takeWhile_lower hend, dropWhile_lower hend]
      exact closed?_lower (fun c hc => hcs c ((List.takeWhile_sublist _).mem hc))
        fun c hc => hcs c ((List.dropWhile_sublist _).mem hc)
    · rw [next?_of_ne (fun hlow => hpoint (hrole.point.1 hlow))
        (fun hlow => hopening (hrole.opening.1 hlow)), next?_of_ne hpoint hopening]
      rfl

theorem mem_of_name? (h : name? cs = some (step, rest)) : ∀ c ∈ rest, c ∈ cs := by
  rw [name?] at h
  split at h
  · cases h
  · cases h
    exact fun c hc => (List.dropWhile_sublist _).mem hc

theorem mem_of_next? (h : next? cs = some (step, rest)) : ∀ c ∈ rest, c ∈ cs := by
  cases cs with
  | nil => cases h
  | cons c cs =>
    intro d hd
    refine List.mem_cons_of_mem c ?_
    by_cases hpoint : c = '.'
    · subst hpoint
      exact mem_of_name? h d hd
    by_cases hopening : c = '['
    · subst hopening
      rw [next?_opening] at h
      generalize hrest : cs.dropWhile (· != ']') = cs' at h
      cases cs' with
      | nil => cases h
      | cons e cs' =>
        by_cases hclosing : e = ']'
        · subst hclosing
          obtain ⟨i, -, heq⟩ := Option.map_eq_some_iff.1 h
          cases heq
          refine (List.dropWhile_sublist (· != ']')).mem ?_
          rw [hrest]
          exact List.mem_cons_of_mem _ hd
        · rw [closed?_of_ne hclosing] at h
          cases h
    · rw [next?_of_ne hpoint hopening] at h
      cases h

theorem all?_cons (limit : Nat) (c : Char) (cs : List Char) :
    all? (limit + 1) (c :: cs) =
      (next? (c :: cs)).bind fun r => (all? limit r.2).map (r.1 :: ·) := by
  rw [all?]
  · cases next? (c :: cs) <;> rfl
  · exact List.cons_ne_nil c cs

theorem all?_lower (limit : Nat) (h : ∀ c ∈ cs, c ≠ '\u212A') :
    (all? limit (cs.map lowerChar)).isSome = (all? limit cs).isSome := by
  induction limit generalizing cs with
  | zero => cases cs <;> rfl
  | succ limit ih =>
    cases cs with
    | nil => rfl
    | cons c cs =>
      have hnext := next?_lower h
      rw [List.map_cons] at hnext ⊢
      rw [all?_cons, all?_cons]
      cases hstep : next? (c :: cs) with
      | none =>
        rw [hstep] at hnext
        rw [Option.map_eq_none_iff.1 hnext]
      | some r =>
        rw [hstep] at hnext
        obtain ⟨r', hstep', hrest⟩ := Option.map_eq_some_iff.1 hnext
        rw [hstep', Option.bind_some, Option.bind_some, Option.isSome_map, Option.isSome_map, hrest]
        exact ih fun c hc => h c (mem_of_next? hstep c hc)

/-- The steps of a key that is a path. -/
def parse? (cs : List Char) : Option (List Step) :=
  (name? cs).bind fun r => (all? cs.length r.2).map (r.1 :: ·)

theorem parse?_lower (h : ∀ c ∈ cs, c ≠ '\u212A') :
    (parse? (cs.map lowerChar)).isSome = (parse? cs).isSome := by
  have hname := name?_lower h
  rw [parse?, parse?, List.length_map]
  cases hstep : name? cs with
  | none =>
    rw [hstep] at hname
    rw [Option.map_eq_none_iff.1 hname]
  | some r =>
    rw [hstep] at hname
    obtain ⟨r', hstep', hrest⟩ := Option.map_eq_some_iff.1 hname
    rw [hstep', Option.bind_some, Option.bind_some, Option.isSome_map, Option.isSome_map, hrest]
    exact all?_lower _ fun c hc => h c (mem_of_name? hstep c hc)

end Step

/-! ### Keys -/

section
variable {key name : String}

theorem path_eq (key : String) : path key = (Step.parse? key.toList).getD [.member key] := by
  rw [path, Step.parse?]
  cases Step.name? key.toList <;> rfl

theorem path_of_name (hne : key ≠ "") (h : ∀ c ∈ key.toList, Step.isNameChar c = true) :
    path key = [.member key] := by
  have htake : key.toList.takeWhile Step.isNameChar = key.toList := List.takeWhile_eq_self_iff.2 h
  have hdrop : key.toList.dropWhile Step.isNameChar = [] := List.dropWhile_eq_nil_iff.2 h
  have hempty : key.toList.isEmpty = false := by
    rw [List.isEmpty_eq_false_iff]
    exact fun hnil => hne (String.toList_eq_nil_iff.1 hnil)
  have hname : Step.name? key.toList = some (.member key, []) := by
    rw [Step.name?, htake, hdrop, hempty, String.ofList_toList]
    rfl
  rw [path_eq, Step.parse?, hname, Option.bind_some]
  cases key.toList.length <;> rfl

theorem toList_foldKey (key : String) : (foldKey key).toList = key.toList.map lowerChar :=
  String.toList_ofList

/-- A path begins with a name that in lower case is a path by itself; its characters are from the
key. -/
theorem path_first (h : ∀ c ∈ key.toList, c ≠ '\u212A') :
    ∃ name steps, path key = .member name :: steps ∧
      path (foldKey name) = [.member (foldKey name)] ∧ ∀ c ∈ name.toList, c ∈ key.toList := by
  cases hparse : Step.parse? key.toList with
  | none =>
    have hlower := Step.parse?_lower h
    rw [hparse, ← toList_foldKey, Option.isSome_none] at hlower
    refine ⟨key, [], by rw [path_eq, hparse]; rfl, ?_, fun c hc => hc⟩
    have hnone : Step.parse? (foldKey key).toList = none :=
      Option.not_isSome_iff_eq_none.1 (by rw [hlower]; decide)
    rw [path_eq, hnone]
    rfl
  | some steps =>
    obtain ⟨⟨step, rest⟩, hname, hsteps⟩ := Option.bind_eq_some_iff.1 hparse
    obtain ⟨more, -, rfl⟩ := Option.map_eq_some_iff.1 hsteps
    have hpath : path key = step :: more := by rw [path_eq, hparse]; rfl
    rw [Step.name?] at hname
    split at hname
    · cases hname
    · rename_i hempty
      cases hname
      refine ⟨_, more, hpath, path_of_name ?_ fun c hc => ?_, fun c hc => ?_⟩
      · intro hnil
        have hlist := congrArg String.toList hnil
        rw [toList_foldKey, String.toList_ofList] at hlist
        exact hempty (List.isEmpty_iff.2 (List.map_eq_nil_iff.1 hlist))
      · rw [toList_foldKey, String.toList_ofList] at hc
        obtain ⟨d, hd, rfl⟩ := List.mem_map.1 hc
        rw [(Step.sameRole_lowerChar (h d ((List.takeWhile_sublist _).mem hd))).name]
        exact List.mem_takeWhile_imp hd
      · rw [String.toList_ofList] at hc
        exact (List.takeWhile_sublist _).mem hc

end

end InferenceFleet.Settings
