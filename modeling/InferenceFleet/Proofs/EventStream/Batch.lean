import InferenceFleet.EventStream.Decoder
import Mathlib.Data.List.Infix

/-!
# A body decodes the same in any pieces

`IsCut` says which frames the blank lines of a body finish and which bytes are left over; `cut`
finds them (`isCut_cut`) and there are no others (`IsCut.unique`). The decoder works on a buffer
that holds only part of the body. What carries over is that a frame which is finished in the buffer
is finished in the same way in all that follows (`popFrame?_append`), so whatever has been read, the
items still to come are those of the buffer with the unread bytes behind it (`items_eq`).
-/

namespace InferenceFleet.EventStream

/-- `bytes` are `frames`, a blank line after each, and then `rest`. No blank line begins in a frame
or in the rest, so the cuts are at the leftmost blank lines that do not overlap. -/
structure IsCut (bytes : List UInt8) (frames : List (List UInt8)) (rest : List UInt8) : Prop where
  joined : frames.flatMap (fun frame => frame ++ blankLine) ++ rest = bytes
  frame : ∀ frame ∈ frames, ¬ blankLine <:+: frame ++ [0x0A]
  rest : ¬ blankLine <:+: rest

/-! ### Blank lines -/

theorem blankLine_infix_cons {b c : UInt8} {bytes : List UInt8} :
    blankLine <:+: b :: c :: bytes ↔ (b = 0x0A ∧ c = 0x0A) ∨ blankLine <:+: c :: bytes := by
  rw [List.infix_cons_iff]
  simp only [blankLine, List.cons_prefix_cons, List.nil_prefix, and_true, eq_comm]

theorem not_blankLine_infix_singleton {b : UInt8} : ¬ blankLine <:+: [b] :=
  fun h => by simpa [blankLine] using h.length_le

theorem not_blankLine_infix_nil : ¬ blankLine <:+: [] :=
  fun h => by simpa [blankLine] using h.length_le

/-- The first blank line of `bytes`, from the bytes before it. -/
theorem splitFrom_of_joined {tail rest : List UInt8} (before : List UInt8)
    (h : ¬ blankLine <:+: tail ++ [0x0A]) :
    splitFrom before (tail ++ blankLine ++ rest) = some (before.reverse ++ tail, rest) := by
  induction tail generalizing before with
  | nil => simp [blankLine, splitFrom]
  | cons b tail ih =>
    have htail : ¬ blankLine <:+: tail ++ [0x0A] :=
      fun hi => h (hi.trans (List.suffix_cons b _).isInfix)
    cases tail with
    | nil =>
      have hb : b ≠ 0x0A := fun hb => h (by simp [hb, blankLine])
      simp [blankLine, splitFrom, hb]
    | cons c tail =>
      have hbc : ¬ (b = 0x0A ∧ c = 0x0A) := fun hbc => h (blankLine_infix_cons.2 (.inl hbc))
      have hstep := ih (b :: before) htail
      simp only [List.cons_append, List.reverse_cons, List.append_assoc, List.nil_append] at hstep ⊢
      rw [splitFrom, if_neg hbc, hstep]

theorem splitFrom_some {before bytes frame rest : List UInt8}
    (h : splitFrom before bytes = some (frame, rest)) :
    ∃ tail, frame = before.reverse ++ tail ∧ bytes = tail ++ blankLine ++ rest ∧
      ¬ blankLine <:+: tail ++ [0x0A] := by
  fun_induction splitFrom before bytes with
  | case1 before b c bytes hbc =>
    simp only [Option.some.injEq, Prod.mk.injEq] at h
    obtain ⟨rfl, rfl⟩ := h
    exact ⟨[], by simp, by simp [blankLine, hbc], not_blankLine_infix_singleton⟩
  | case2 before b c bytes hbc ih =>
    obtain ⟨tail, rfl, hbytes, hinfix⟩ := ih h
    refine ⟨b :: tail, by simp, by simp [hbytes], ?_⟩
    cases tail with
    | nil =>
      rw [List.singleton_append, blankLine_infix_cons]
      have hc : c = 0x0A := by simpa [blankLine] using congrArg List.head? hbytes
      rintro (hb | hi)
      · exact hbc ⟨hb.1, hc⟩
      · exact not_blankLine_infix_singleton hi
    | cons d tail =>
      have hd : c = d := by simpa using congrArg List.head? hbytes
      rw [List.cons_append, List.cons_append, blankLine_infix_cons, ← hd]
      rintro (hb | hi)
      · exact hbc hb
      · exact hinfix (by rwa [← hd])
  | case3 => simp at h

theorem splitFrom_none {before bytes : List UInt8} (h : splitFrom before bytes = none) :
    ¬ blankLine <:+: bytes := by
  fun_induction splitFrom before bytes with
  | case1 => simp at h
  | case2 before b c bytes hbc ih =>
    rw [blankLine_infix_cons]
    rintro (hb | hi)
    · exact hbc hb
    · exact ih h hi
  | case3 bytes before hshort =>
    cases bytes with
    | nil => exact not_blankLine_infix_nil
    | cons b bytes =>
      cases bytes with
      | nil => exact not_blankLine_infix_singleton
      | cons c bytes => exact (hshort b c bytes rfl).elim

/-- A finished frame stays the first one whatever follows. -/
theorem popFrame?_append {buffer frame rest : List UInt8} (more : List UInt8)
    (h : popFrame? buffer = some (frame, rest)) :
    popFrame? (buffer ++ more) = some (frame, rest ++ more) := by
  obtain ⟨tail, rfl, rfl, hinfix⟩ := splitFrom_some h
  rw [popFrame?, List.append_assoc, splitFrom_of_joined [] hinfix]
  rfl

/-! ### The cut of a body -/

theorem cutFrom_eq (before bytes : List UInt8) :
    cutFrom before bytes =
      match splitFrom before bytes with
      | some (frame, rest) => (frame :: (cut rest).1, (cut rest).2)
      | none => ([], before.reverse ++ bytes) := by
  fun_induction cutFrom before bytes with
  | case1 before => simp [splitFrom]
  | case2 before b => simp [splitFrom]
  | case3 before b c bytes hbc frames rest hcut ih =>
    rw [splitFrom, if_pos hbc]
    simp [cut, hcut]
  | case4 before b c bytes hbc ih =>
    rw [ih, splitFrom, if_neg hbc]
    split <;> simp_all

theorem cut_of_some {bytes frame rest : List UInt8} (h : popFrame? bytes = some (frame, rest)) :
    cut bytes = (frame :: (cut rest).1, (cut rest).2) := by
  rw [cut, cutFrom_eq, ← popFrame?, h]

theorem cut_of_none {bytes : List UInt8} (h : popFrame? bytes = none) :
    cut bytes = ([], bytes) := by
  rw [cut, cutFrom_eq, ← popFrame?, h]
  simp

theorem isCut_cut (bytes : List UInt8) : IsCut bytes (cut bytes).1 (cut bytes).2 := by
  -- What follows a blank line is shorter, but it is no tail of the list by one.
  induction hn : bytes.length using Nat.strongRecOn generalizing bytes with
  | ind n ih =>
    cases hpop : popFrame? bytes with
    | none =>
      rw [cut_of_none hpop]
      exact ⟨by simp, by simp, splitFrom_none hpop⟩
    | some split =>
      obtain ⟨frame, rest⟩ := split
      have hrest := ih _ (hn ▸ splitFrom_length hpop) rest rfl
      obtain ⟨tail, rfl, rfl, hinfix⟩ := splitFrom_some hpop
      rw [cut_of_some hpop]
      refine ⟨?_, ?_, hrest.rest⟩
      · simp only [List.flatMap_cons, List.append_assoc, hrest.joined]
      · intro f hf
        rcases List.mem_cons.1 hf with rfl | hf
        · exact hinfix
        · exact hrest.frame f hf

/-- The cut that meets the description is the one that `cut` finds. -/
theorem IsCut.eq_cut {bytes rest : List UInt8} {frames : List (List UInt8)}
    (h : IsCut bytes frames rest) : cut bytes = (frames, rest) := by
  induction frames generalizing bytes with
  | nil =>
    obtain rfl : rest = bytes := by simpa using h.joined
    cases hpop : popFrame? rest with
    | none => exact cut_of_none hpop
    | some split =>
      obtain ⟨tail, -, hbytes, -⟩ := splitFrom_some hpop
      exact absurd ⟨tail, split.2, hbytes.symm⟩ h.rest
  | cons frame frames ih =>
    have hinfix := h.frame frame (List.mem_cons_self ..)
    have hpop : popFrame? bytes =
        some (frame, frames.flatMap (fun frame => frame ++ blankLine) ++ rest) := by
      rw [← h.joined, List.flatMap_cons, List.append_assoc, popFrame?,
        splitFrom_of_joined [] hinfix]
      rfl
    rw [cut_of_some hpop, ih ⟨rfl, fun f hf => h.frame f (List.mem_cons_of_mem _ hf), h.rest⟩]

theorem IsCut.unique {bytes rest rest' : List UInt8} {frames frames' : List (List UInt8)}
    (h : IsCut bytes frames rest) (h' : IsCut bytes frames' rest') :
    frames = frames' ∧ rest = rest' := by
  simpa [h.eq_cut] using h'.eq_cut

/-! ### The items of a body -/

theorem decodeWhole_of_some {bytes frame rest : List UInt8} (ending : BodyEnd)
    (h : popFrame? bytes = some (frame, rest)) :
    decodeWhole bytes ending =
      match Frame.ofBytes frame with
      | .item i => i :: decodeWhole rest ending
      | .done => []
      | .nothing => decodeWhole rest ending := by
  simp only [decodeWhole, cut_of_some h, List.map_cons, List.any_cons]
  cases Frame.ofBytes frame with
  | done => simp
  | nothing =>
    rw [List.takeWhile_cons_of_pos (by simp), List.filterMap_cons]
    simp only [Frame.isDone_nothing, Frame.item?_nothing, Bool.false_or]
  | item i =>
    rw [List.takeWhile_cons_of_pos (by simp), List.filterMap_cons]
    simp only [Frame.isDone_item, Frame.item?_item, Bool.false_or]
    split <;> simp

theorem decodeWhole_of_none {bytes : List UInt8} (ending : BodyEnd) (h : popFrame? bytes = none) :
    decodeWhole bytes ending = lastItems bytes ending := by
  simp [decodeWhole, cut_of_none h]

/-- The items of frames up to the end mark. -/
def frameItems (frames : List Frame) : List Item :=
  (frames.takeWhile fun f => !f.isDone).filterMap Frame.item?

theorem frameItems_cons (f : Frame) (frames : List Frame) :
    frameItems (f :: frames) =
      match f with
      | .item i => i :: frameItems frames
      | .done => []
      | .nothing => frameItems frames := by
  cases f <;> rfl

theorem frameItems_concat (frames : List Frame) (f : Frame) :
    frameItems (frames ++ [f]) =
      if frames.any Frame.isDone then frameItems frames
      else frameItems frames ++ f.item?.toList := by
  induction frames with
  | nil => cases f <;> rfl
  | cons g frames ih =>
    rw [List.cons_append, frameItems_cons, frameItems_cons, List.any_cons, ih]
    cases g with
    | done => rfl
    | nothing => rfl
    | item i =>
      rw [Frame.isDone_item, Bool.false_or]
      dsimp only
      split
      · rfl
      · exact (List.cons_append ..).symm

/-- Frames that carry nothing can be left out in front. -/
theorem frameItems_append {before : List Frame} (h : ∀ f ∈ before, f = .nothing)
    (frames : List Frame) : frameItems (before ++ frames) = frameItems frames := by
  induction before with
  | nil => rfl
  | cons f before ih =>
    obtain ⟨hf, hbefore⟩ := List.forall_mem_cons.1 h
    rw [List.cons_append, hf, frameItems_cons, ih hbefore]

theorem frameItems_of_nothing {frames : List Frame} (h : ∀ f ∈ frames, f = .nothing) :
    frameItems frames = [] := by
  rw [← List.append_nil frames, frameItems_append h]
  rfl

theorem frameItems_of_alone {before after : List Frame} (f : Frame)
    (hbefore : ∀ g ∈ before, g = .nothing) (hafter : ∀ g ∈ after, g = .nothing) :
    frameItems (before ++ f :: after) = f.item?.toList := by
  rw [frameItems_append hbefore, frameItems_cons, frameItems_of_nothing hafter]
  cases f <;> rfl

section IsCut
variable {bytes rest : List UInt8} {frames : List (List UInt8)} (h : IsCut bytes frames rest)
include h

theorem IsCut.decodeWhole_eq (ending : BodyEnd) :
    decodeWhole bytes ending =
      if (frames.map Frame.ofBytes).any Frame.isDone then frameItems (frames.map Frame.ofBytes)
      else frameItems (frames.map Frame.ofBytes) ++ lastItems rest ending := by
  rw [decodeWhole, h.eq_cut]
  rfl

/-- At a clean end the rest counts as one more frame. -/
theorem IsCut.decodeWhole_clean :
    decodeWhole bytes .clean = frameItems ((frames ++ [rest]).map Frame.ofBytes) := by
  rw [h.decodeWhole_eq, List.map_append, List.map_singleton, frameItems_concat]
  rfl

end IsCut

/-- The items begin with that of the first frame that carries anything. -/
theorem IsCut.decodeWhole_first {bytes frame rest : List UInt8} {before after : List (List UInt8)}
    {i : Item} (h : IsCut bytes (before ++ frame :: after) rest)
    (hbefore : ∀ f ∈ before, Frame.ofBytes f = .nothing) (hframe : Frame.ofBytes frame = .item i)
    (ending : BodyEnd) : ∃ more, decodeWhole bytes ending = i :: more := by
  have hitems : frameItems ((before ++ frame :: after).map Frame.ofBytes) =
      i :: frameItems (after.map Frame.ofBytes) := by
    rw [List.map_append, frameItems_append (List.forall_mem_map.2 hbefore), List.map_cons, hframe,
      frameItems_cons]
  rw [h.decodeWhole_eq, hitems]
  split
  · exact ⟨_, rfl⟩
  · exact ⟨_, rfl⟩

namespace Decoder

/-- The items still to come, from the bytes still to come. -/
def whole (d : Decoder) : List Item :=
  if d.finished then [] else decodeWhole (d.buffer ++ d.pieces.flatten) d.ending

theorem whole_eq_next (d : Decoder) :
    d.whole =
      match d.next? with
      | none => []
      | some (i, d') => i :: d'.whole := by
  -- A frame taken off the buffer is the first one of the whole body too, by `popFrame?_append`.
  fun_induction next? d with
  | case1 d hf => simp [whole, hf]
  | case2 d hf frame buffer hb i hi =>
    simp [whole, hf, decodeWhole_of_some _ (popFrame?_append _ hb), hi]
  | case3 d hf frame buffer hb hi =>
    simp [whole, hf, decodeWhole_of_some _ (popFrame?_append _ hb), hi]
  | case4 d hf frame buffer hb hi ih =>
    rw [← ih]
    simp [whole, hf, decodeWhole_of_some _ (popFrame?_append _ hb), hi]
  | case5 d hf hb piece pieces hp ih =>
    rw [← ih]
    simp [whole, hf, hp]
  | case6 d hf hb hp reason he =>
    simp [whole, hf, hp, decodeWhole_of_none _ hb, he, lastItems]
  | case7 d hf hb hp he i hi =>
    simp [whole, hf, hp, decodeWhole_of_none _ hb, he, lastItems, hi]
  | case8 d hf hb hp he hi =>
    have hnone : (Frame.ofBytes d.buffer).item? = none := by
      cases hframe : Frame.ofBytes d.buffer with
      | item i => exact (hi i hframe).elim
      | done => rfl
      | nothing => rfl
    simp [whole, hf, hp, decodeWhole_of_none _ hb, he, lastItems, hnone]

/-- The decoder yields what the bytes still to come hold, however much of them is in the buffer. -/
theorem items_eq (d : Decoder) : d.items = d.whole := by
  fun_induction items d with
  | case1 d hd => rw [whole_eq_next, hd]
  | case2 d i d' hd ih => rw [whole_eq_next, hd, ih]

end Decoder

theorem decode_eq_decodeWhole (pieces : List (List UInt8)) (ending : BodyEnd) :
    decode pieces ending = decodeWhole pieces.flatten ending := by
  rw [decode, Decoder.items_eq]
  rfl

/-- Every body has one cut. However a body arrives, it is decoded into the items of its frames
before the end mark; without an end mark the rest follows as a last frame, or the failure of the
transport in its place. So only the bytes count and not the pieces; and the decoder comes to an end,
as each item leaves it smaller. -/
theorem decode_of_isCut :
    (∀ bytes : List UInt8, ∃! c : List (List UInt8) × List UInt8, IsCut bytes c.1 c.2) ∧
      (∀ (pieces : List (List UInt8)) (ending : BodyEnd) (frames : List (List UInt8))
        (rest : List UInt8), IsCut pieces.flatten frames rest →
        decode pieces ending =
          (((frames.map Frame.ofBytes).takeWhile fun f => !f.isDone).filterMap Frame.item?) ++
            if (frames.map Frame.ofBytes).any Frame.isDone then []
            else
              match ending with
              | .clean => (Frame.ofBytes rest).item?.toList
              | .broken reason => [.error (.stream reason)]) ∧
      (∀ (pieces pieces' : List (List UInt8)) (ending : BodyEnd),
        pieces.flatten = pieces'.flatten → decode pieces ending = decode pieces' ending) ∧
      ∀ (d d' : Decoder) (i : Item), d.next? = some (i, d') → d'.size < d.size := by
  refine ⟨fun bytes => ⟨cut bytes, isCut_cut bytes, fun c hc => hc.eq_cut.symm⟩, ?_, ?_, ?_⟩
  · intro pieces ending frames rest hcut
    rw [decode_eq_decodeWhole, decodeWhole, hcut.eq_cut]
    simp only [lastItems]
    split
    · simp
    · cases ending <;> rfl
  · intro pieces pieces' ending h
    rw [decode_eq_decodeWhole, decode_eq_decodeWhole, h]
  · exact fun d d' i h => Decoder.size_next h

/-- The comment `: é` with the cuts inside its last letter and between the line feeds. -/
theorem decode_of_isCut_comment :
    IsCut [0x3A, 0x20, 0xC3, 0xA9, 0x0A, 0x0A, 0x64] [[0x3A, 0x20, 0xC3, 0xA9]] [0x64] ∧
      decode [[0x3A, 0x20, 0xC3], [0xA9, 0x0A], [], [0x0A, 0x64]] (.broken "reset") =
        [.error (.stream "reset")] ∧
      decode [[0x3A], [0x20, 0xC3, 0xA9, 0x0A, 0x0A, 0x64]] (.broken "reset") =
        [.error (.stream "reset")] := by
  have hcut : IsCut [0x3A, 0x20, 0xC3, 0xA9, 0x0A, 0x0A, 0x64] [[0x3A, 0x20, 0xC3, 0xA9]] [0x64] :=
    ⟨by decide, by decide, by decide⟩
  have hframe : Frame.ofBytes [0x3A, 0x20, 0xC3, 0xA9] = .nothing := by rfl
  have hitems : decode [[0x3A, 0x20, 0xC3], [0xA9, 0x0A], [], [0x0A, 0x64]] (.broken "reset") =
      [.error (.stream "reset")] := by
    rw [decode_of_isCut.2.1 [[0x3A, 0x20, 0xC3], [0xA9, 0x0A], [], [0x0A, 0x64]] _ _ _ hcut]
    simp [hframe]
  refine ⟨hcut, hitems, ?_⟩
  rw [← hitems]
  exact decode_of_isCut.2.2.1 _ _ _ rfl

end InferenceFleet.EventStream
