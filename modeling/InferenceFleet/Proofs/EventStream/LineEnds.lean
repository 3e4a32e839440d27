import InferenceFleet.Proofs.EventStream.Batch
import InferenceFleet.Proofs.Text.Utf8

/-!
# Line ends

Lines may end in a carriage return and a line feed, and a line loses the return
(`lines_withReturns`). Frames may not: they end at two line feeds, and a body whose every line feed
has a return before it has no two of them (`not_blankLine_infix_crlf`). Such a body is one frame,
with the data of all frames (`frameData_flatMap`).
-/

namespace InferenceFleet.EventStream

/-! ### Returns before line feeds -/

/-- Puts `ret` in front of every `feed`. -/
def withReturns {α : Type} [DecidableEq α] (ret feed : α) (xs : List α) : List α :=
  xs.flatMap fun x => if x = feed then [ret, feed] else [x]

/-- The bytes with a carriage return before every line feed. -/
def crlf (bytes : List UInt8) : List UInt8 := withReturns 0x0D 0x0A bytes

section withReturns
variable {α : Type} [DecidableEq α] {ret feed x : α} {xs ys : List α}

theorem withReturns_feed : withReturns ret feed (feed :: xs) =
    ret :: feed :: withReturns ret feed xs := by
  rw [withReturns, List.flatMap_cons, if_pos rfl]
  rfl

theorem withReturns_cons (h : x ≠ feed) : withReturns ret feed (x :: xs) =
    x :: withReturns ret feed xs := by
  rw [withReturns, List.flatMap_cons, if_neg h]
  rfl

theorem withReturns_append : withReturns ret feed (xs ++ ys) =
    withReturns ret feed xs ++ withReturns ret feed ys := List.flatMap_append

theorem withReturns_of_not_mem (h : feed ∉ xs) : withReturns ret feed xs = xs := by
  induction xs with
  | nil => rfl
  | cons x xs ih =>
    obtain ⟨hx, hxs⟩ := List.ne_and_not_mem_of_not_mem_cons h
    rw [withReturns_cons (Ne.symm hx), ih hxs]

end withReturns

/-- Reading characters and putting returns in front of line feeds can be done in either order. -/
theorem decodeLossy_crlf (bytes : List UInt8) :
    (Utf8.decodeLossy (crlf bytes)).toList =
      withReturns '\r' '\n' (Utf8.decodeLossy bytes).toList := by
  induction hsize : bytes.length using Nat.strongRecOn generalizing bytes with | _ size ih
  by_cases hfeed : 0x0A ∈ bytes
  · -- Cut at the first line feed.
    obtain ⟨before, after, rfl, hbefore⟩ := List.eq_append_cons_of_mem hfeed
    have hstart : '\n' ∉ (Utf8.decodeLossy before).toList :=
      Utf8.not_mem_decodeLossy (c := 0x0A) (by decide) (by decide) hbefore
    have hcrlf : crlf (before ++ 0x0A :: after) = before ++ 0x0D :: 0x0A :: crlf after := by
      rw [crlf, withReturns_append, withReturns_of_not_mem hbefore, withReturns_feed]
      rfl
    have hreturn := Utf8.decodeLossy_ascii before (0x0A :: crlf after) (b := 0x0D) (by decide)
    have hnext := Utf8.decodeLossy_ascii [] (crlf after) (b := 0x0A) (by decide)
    have hplain := Utf8.decodeLossy_ascii before after (b := 0x0A) (by decide)
    have hafter := ih after.length (by rw [← hsize, List.length_append, List.length_cons]; omega)
      after rfl
    rw [List.nil_append] at hnext
    rw [hcrlf, hreturn, hnext, hafter, hplain, withReturns_append,
      withReturns_of_not_mem hstart]
    exact congrArg (_ ++ ·) withReturns_feed.symm
  · have hchar : '\n' ∉ (Utf8.decodeLossy bytes).toList :=
      Utf8.not_mem_decodeLossy (c := 0x0A) (by decide) (by decide) hfeed
    rw [crlf, withReturns_of_not_mem hfeed, withReturns_of_not_mem hchar]

/-! ### Lines -/

section lines
variable {line text : List Char}

theorem withoutReturn_of_not_mem (h : '\r' ∉ line) : withoutReturn line = line :=
  if_neg fun hlast => h (List.mem_of_getLast? hlast)

theorem withoutReturn_concat (line : List Char) : withoutReturn (line ++ ['\r']) = line := by
  rw [withoutReturn, List.getLast?_concat, if_pos rfl, List.dropLast_concat]

theorem linesFrom_withReturns (hline : '\r' ∉ line) (htext : '\r' ∉ text) :
    linesFrom line (withReturns '\r' '\n' text) = linesFrom line text := by
  induction text generalizing line with
  | nil => rfl
  | cons c text ih =>
    obtain ⟨hc, hrest⟩ := List.ne_and_not_mem_of_not_mem_cons htext
    by_cases hfeed : c = '\n'
    · subst hfeed
      have hplain : '\r' ∉ line.reverse := fun hmem => hline (List.mem_reverse.1 hmem)
      rw [withReturns_feed, linesFrom, if_neg (by decide), linesFrom, if_pos rfl,
        ih List.not_mem_nil hrest, List.reverse_cons, withoutReturn_concat, linesFrom, if_pos rfl,
        withoutReturn_of_not_mem hplain]
    · have hnext : '\r' ∉ c :: line := List.not_mem_cons_of_ne_of_not_mem hc hline
      rw [withReturns_cons hfeed, linesFrom, if_neg hfeed, ih hnext hrest, linesFrom, if_neg hfeed]

theorem lines_withReturns (h : '\r' ∉ text) : lines (withReturns '\r' '\n' text) = lines text :=
  linesFrom_withReturns List.not_mem_nil h

/-- The data of the lines of a text. -/
def dataLines (text : List Char) : List (List Char) := (lines text).filterMap lineData?

theorem dataLines_linesFrom (hline : '\r' ∉ line) (htext : '\r' ∉ text) (after : List Char) :
    (linesFrom line (text ++ '\n' :: after)).filterMap lineData? =
      (linesFrom line text).filterMap lineData? ++ dataLines after := by
  induction text generalizing line with
  | nil =>
    have hplain : '\r' ∉ line.reverse := fun hmem => hline (List.mem_reverse.1 hmem)
    have hfeed : linesFrom line ('\n' :: after) = line.reverse :: lines after := by
      rw [linesFrom, if_pos rfl, withoutReturn_of_not_mem hplain]
      rfl
    rw [List.nil_append, hfeed, linesFrom]
    -- An empty line has no data, so it does not count that only the first text has one here.
    cases line with
    | nil => rfl
    | cons c line =>
      rw [if_neg (by rw [List.isEmpty_cons]; exact Bool.false_ne_true),
        ← List.singleton_append, List.filterMap_append]
      rfl
  | cons c text ih =>
    obtain ⟨hc, hrest⟩ := List.ne_and_not_mem_of_not_mem_cons htext
    rw [List.cons_append, linesFrom, linesFrom]
    split
    · rw [List.filterMap_cons, List.filterMap_cons, ih List.not_mem_nil hrest]
      cases lineData? (withoutReturn line.reverse) <;> rfl
    · exact ih (List.not_mem_cons_of_ne_of_not_mem hc hline) hrest

theorem dataLines_append (h : '\r' ∉ text) (after : List Char) :
    dataLines (text ++ '\n' :: after) = dataLines text ++ dataLines after :=
  dataLines_linesFrom List.not_mem_nil h after

end lines

/-! ### The data of a frame -/

/-- The data of the lines that some bytes spell. -/
def frameData (bytes : List UInt8) : List (List Char) :=
  dataLines (Utf8.decodeLossy bytes).toList

section frameData
variable {bytes bytes' : List UInt8}

theorem return_not_mem_decodeLossy (h : 0x0D ∉ bytes) :
    '\r' ∉ (Utf8.decodeLossy bytes).toList :=
  Utf8.not_mem_decodeLossy (c := 0x0D) (by decide) (by decide) h

theorem frameData_nil : frameData [] = [] := rfl

theorem frameData_crlf (h : 0x0D ∉ bytes) : frameData (crlf bytes) = frameData bytes := by
  rw [frameData, decodeLossy_crlf, dataLines, lines_withReturns (return_not_mem_decodeLossy h)]
  rfl

theorem frameData_append (h : 0x0D ∉ bytes) (after : List UInt8) :
    frameData (bytes ++ 0x0A :: after) = frameData bytes ++ frameData after := by
  rw [frameData, Utf8.decodeLossy_ascii bytes after (b := 0x0A) (by decide)]
  exact dataLines_append (return_not_mem_decodeLossy h) _

/-- The data of a whole body is that of its frames. -/
theorem frameData_flatMap {frames : List (List UInt8)} (h : ∀ f ∈ frames, 0x0D ∉ f)
    (rest : List UInt8) :
    frameData (frames.flatMap (fun f => f ++ blankLine) ++ rest) =
      (frames ++ [rest]).flatMap frameData := by
  induction frames with
  | nil => exact (List.append_nil _).symm
  | cons f frames ih =>
    obtain ⟨hf, hframes⟩ := List.forall_mem_cons.1 h
    have hbytes (after : List UInt8) :
        f ++ blankLine ++ after = f ++ 0x0A :: ([] ++ 0x0A :: after) := by
      rw [List.append_assoc]
      rfl
    rw [List.flatMap_cons, List.append_assoc, hbytes, frameData_append hf,
      frameData_append List.not_mem_nil, frameData_nil, List.nil_append, ih hframes,
      List.cons_append, List.flatMap_cons]

theorem ofData_ne_nothing (data : String) : Frame.ofData data ≠ .nothing := by
  rw [Frame.ofData]
  split
  · exact fun h => (by cases h)
  split
  · exact fun h => (by cases h)
  split <;> exact fun h => (by cases h)

/-- The frame with some data. -/
def Frame.ofLines : List (List Char) → Frame
  | [] => .nothing
  | line :: data => .ofData (String.ofList (trimBlanks (['\n'].intercalate (line :: data))))

theorem ofBytes_eq (bytes : List UInt8) : Frame.ofBytes bytes = .ofLines (frameData bytes) := by
  rw [Frame.ofBytes, Frame.parse, frameData?, frameData, dataLines]
  cases (lines (Utf8.decodeLossy bytes).toList).filterMap lineData? <;> rfl

theorem ofLines_eq_nothing_iff {data : List (List Char)} :
    Frame.ofLines data = .nothing ↔ data = [] := by
  cases data with
  | nil => exact iff_of_true rfl rfl
  | cons line data => exact iff_of_false (ofData_ne_nothing _) (List.cons_ne_nil _ _)

theorem ofBytes_crlf (h : 0x0D ∉ bytes) : Frame.ofBytes (crlf bytes) = Frame.ofBytes bytes := by
  rw [ofBytes_eq, ofBytes_eq, frameData_crlf h]

end frameData

/-! ### Blank lines -/

/-- No two line feeds are neighbours when a return stands before each. -/
theorem not_blankLine_infix_crlf (b : UInt8) (bytes : List UInt8) :
    ¬ blankLine <:+: b :: crlf bytes := by
  induction bytes generalizing b with
  | nil => exact not_blankLine_infix_singleton
  | cons c bytes ih =>
    by_cases hc : c = 0x0A
    · subst hc
      rw [crlf, withReturns_feed, blankLine_infix_cons, blankLine_infix_cons]
      rintro (⟨-, h⟩ | ⟨h, -⟩ | h)
      · exact absurd h (by decide)
      · exact absurd h (by decide)
      · exact ih _ h
    · rw [crlf, withReturns_cons hc, blankLine_infix_cons]
      rintro (⟨-, h⟩ | h)
      · exact hc h
      · exact ih _ h

/-- A frame that a blank line ends is still ended by it when returns are put into the frame. -/
theorem not_blankLine_infix_crlf_append {b : UInt8} {frame : List UInt8}
    (h : ¬ blankLine <:+: b :: (frame ++ [0x0A])) :
    ¬ blankLine <:+: b :: (crlf frame ++ [0x0A]) := by
  induction frame generalizing b with
  | nil => exact h
  | cons c frame ih =>
    have hnext := ih fun hi => h (blankLine_infix_cons.2 (.inr hi))
    by_cases hc : c = 0x0A
    · subst hc
      rw [crlf, withReturns_feed, List.cons_append, List.cons_append, blankLine_infix_cons,
        blankLine_infix_cons]
      rintro (⟨-, h⟩ | ⟨h, -⟩ | h)
      · exact absurd h (by decide)
      · exact absurd h (by decide)
      · exact hnext h
    · rw [crlf, withReturns_cons hc, List.cons_append, blankLine_infix_cons]
      rintro (⟨-, h⟩ | h)
      · exact hc h
      · exact hnext h

/-- A body with a return before every line feed is one frame that nothing ends. -/
theorem popFrame?_crlf (bytes : List UInt8) : popFrame? (crlf bytes) = none := by
  cases hpop : popFrame? (crlf bytes) with
  | none => rfl
  | some split =>
    obtain ⟨tail, -, hbytes, -⟩ := splitFrom_some hpop
    have hblank : blankLine <:+: crlf bytes := ⟨tail, split.2, hbytes.symm⟩
    exact absurd (hblank.trans (List.suffix_cons 0 _).isInfix) (not_blankLine_infix_crlf 0 bytes)

theorem decode_of_crlf {pieces : List (List UInt8)} {bytes : List UInt8}
    (h : pieces.flatten = crlf bytes) (ending : BodyEnd) :
    decode pieces ending = lastItems (crlf bytes) ending := by
  rw [decode_eq_decodeWhole, h, decodeWhole_of_none ending (popFrame?_crlf bytes)]

/-! ### Cuts with and without returns -/

section IsCut
variable {bytes rest : List UInt8} {frames : List (List UInt8)} (h : IsCut bytes frames rest)
include h

/-- Returns inside the frames leave the blank lines where they are. -/
theorem IsCut.crlf :
    IsCut ((frames.map EventStream.crlf).flatMap (fun f => f ++ blankLine) ++
      EventStream.crlf rest) (frames.map EventStream.crlf) (EventStream.crlf rest) where
  joined := rfl
  frame := by
    intro frame hframe
    obtain ⟨f, hf, rfl⟩ := List.mem_map.1 hframe
    have hnone : ¬ blankLine <:+: 0 :: (f ++ [0x0A]) := by
      cases f with
      | nil => decide
      | cons b f =>
        rw [List.cons_append, blankLine_infix_cons]
        rintro (⟨hzero, -⟩ | hi)
        · exact absurd hzero (by decide)
        · exact h.frame _ hf hi
    exact fun hi =>
      not_blankLine_infix_crlf_append hnone (hi.trans (List.suffix_cons 0 _).isInfix)
  rest := fun hi => not_blankLine_infix_crlf 0 rest (hi.trans (List.suffix_cons 0 _).isInfix)

theorem IsCut.not_mem {b : UInt8} (hb : b ∉ bytes) : ∀ f ∈ frames ++ [rest], b ∉ f := by
  intro f hf hmem
  refine hb (h.joined ▸ ?_)
  rcases List.mem_append.1 hf with hf | hf
  · exact List.mem_append_left _ (List.mem_flatMap.2 ⟨f, hf, List.mem_append_left _ hmem⟩)
  · exact List.mem_append_right _ (List.mem_singleton.1 hf ▸ hmem)

theorem IsCut.frameData_eq (hreturn : 0x0D ∉ bytes) :
    frameData bytes = (frames ++ [rest]).flatMap frameData := by
  rw [← h.joined, frameData_flatMap fun f hf => h.not_mem hreturn f (List.mem_append_left _ hf)]

/-- If one frame has all the data, the bytes read as one frame are this frame. -/
theorem IsCut.ofBytes_of_alone (hreturn : 0x0D ∉ bytes) {before after : List (List UInt8)}
    {f : List UInt8} (hframes : frames ++ [rest] = before ++ f :: after)
    (hothers : ∀ g ∈ before ++ after, Frame.ofBytes g = .nothing) :
    Frame.ofBytes bytes = Frame.ofBytes f := by
  have hempty (gs : List (List UInt8)) (hgs : ∀ g ∈ gs, g ∈ before ++ after) :
      gs.flatMap frameData = [] :=
     List.flatMap_eq_nil_iff.2 fun g hg =>
      ofLines_eq_nothing_iff.1 (ofBytes_eq g ▸ hothers g (hgs g hg))
  rw [ofBytes_eq, ofBytes_eq, h.frameData_eq hreturn, hframes, List.flatMap_append,
    List.flatMap_cons, hempty before fun _ => List.mem_append_left _,
    hempty after fun _ => List.mem_append_right _, List.nil_append, List.append_nil]

end IsCut

/-! ### A body with returns -/

/-- What becomes of a body without carriage returns when one is put before every line feed, however
it is cut into pieces. Its blank lines no longer end frames: if it breaks off, only that is left of
it, and if it ends, all its data is read as that of one frame. So nothing changes at a clean end
when at most one frame, or the rest, carries anything, and nothing at a broken one when no finished
frame does; a clean body of two items or more does not keep them. Returns that are put before the
line feeds inside the frames only never change anything. -/
theorem decode_crlf (pieces pieces' : List (List UInt8)) (frames : List (List UInt8))
    (rest : List UInt8) (hreturn : 0x0D ∉ pieces.flatten) (hcut : IsCut pieces.flatten frames rest)
    (hcrlf : pieces'.flatten = crlf pieces.flatten) :
    (∀ reason, decode pieces' (.broken reason) = [.error (.stream reason)]) ∧
      decode pieces' .clean = (Frame.ofBytes pieces.flatten).item?.toList ∧
      (∀ before f after, frames ++ [rest] = before ++ f :: after →
        (∀ g ∈ before ++ after, Frame.ofBytes g = .nothing) →
        decode pieces' .clean = decode pieces .clean) ∧
      ((∀ f ∈ frames, Frame.ofBytes f = .nothing) →
        ∀ reason, decode pieces' (.broken reason) = decode pieces (.broken reason)) ∧
      (2 ≤ (decode pieces .clean).length → decode pieces' .clean ≠ decode pieces .clean) ∧
      ∀ (parts : List (List UInt8)) (ending : BodyEnd),
        parts.flatten = (frames.map crlf).flatMap (fun f => f ++ blankLine) ++ crlf rest →
        decode parts ending = decode pieces ending := by
  have hclean : decode pieces' .clean = (Frame.ofBytes pieces.flatten).item?.toList := by
    rw [decode_of_crlf hcrlf, lastItems, ofBytes_crlf hreturn]
  refine ⟨fun reason => decode_of_crlf hcrlf _, hclean, ?_, ?_, ?_, ?_⟩
  · intro before f after hframes hothers
    rw [hclean, decode_eq_decodeWhole, hcut.decodeWhole_clean,
      hcut.ofBytes_of_alone hreturn hframes hothers, hframes, List.map_append, List.map_cons,
      frameItems_of_alone]
    · exact List.forall_mem_map.2 fun g hg => hothers g (List.mem_append_left _ hg)
    · exact List.forall_mem_map.2 fun g hg => hothers g (List.mem_append_right _ hg)
  · intro hnothing reason
    have hall : ∀ f ∈ frames.map Frame.ofBytes, f = .nothing := List.forall_mem_map.2 hnothing
    have hmark : (frames.map Frame.ofBytes).any Frame.isDone = false :=
      List.any_eq_false.2 fun f hf => hall f hf ▸ Bool.false_ne_true
    rw [decode_of_crlf hcrlf, decode_eq_decodeWhole, hcut.decodeWhole_eq, hmark,
      frameItems_of_nothing hall]
    rfl
  · intro hmany heq
    rw [← heq, hclean] at hmany
    have hone : (Frame.ofBytes pieces.flatten).item?.toList.length ≤ 1 := by
      rw [Option.length_toList]
      split <;> decide
    omega
  · intro parts ending hparts
    have hsame : ∀ f ∈ frames ++ [rest], Frame.ofBytes (crlf f) = Frame.ofBytes f :=
      fun f hf => ofBytes_crlf (hcut.not_mem hreturn f hf)
    have hframes : (frames.map crlf).map Frame.ofBytes = frames.map Frame.ofBytes := by
      rw [List.map_map]
      exact List.map_congr_left fun f hf => hsame f (List.mem_append_left _ hf)
    have hrest : lastItems (crlf rest) ending = lastItems rest ending := by
      cases ending with
      | clean => rw [lastItems, lastItems, hsame rest (List.mem_append_right _ List.mem_cons_self)]
      | broken reason => rfl
    rw [decode_eq_decodeWhole, decode_eq_decodeWhole, hparts, hcut.crlf.decodeWhole_eq,
      hcut.decodeWhole_eq, hframes, hrest]

/-- A comment and an event, with a cut between a return and its line feed. -/
theorem decode_crlf_event :
    let comment := Utf8.encode ": ping"
    let body := Utf8.encode ": ping\n\ndata: \x7b\x7d\n\n"
    IsCut body [comment, Utf8.encode "data: \x7b\x7d"] [] ∧
      decode [(crlf body).take 7, (crlf body).drop 7] .clean = [.ok {}] ∧
      decode [crlf body] (.broken "reset") = [.error (.stream "reset")] := by
  have hframe : Frame.ofBytes (Utf8.encode ": ping\n\ndata: \x7b\x7d\n\n") = .item (.ok {}) := by
    rfl
  intro comment body
  have hcut : IsCut [body].flatten [comment, Utf8.encode "data: \x7b\x7d"] [] :=
    ⟨rfl, by decide, by decide⟩
  refine ⟨hcut, ?_, ?_⟩
  · have hlaw := decode_crlf [body] [(crlf body).take 7, (crlf body).drop 7] _ _ (by decide) hcut
      (by simp)
    have hitems : (Frame.ofBytes [body].flatten).item? = some (.ok {}) :=
      congrArg Frame.item? hframe
    rw [hlaw.2.1, hitems]
    rfl
  · exact (decode_crlf [body] [crlf body] _ _ (by decide) hcut (by simp)).1 "reset"

/-- Two chunks and the end mark come to one item with returns, and this is no chunk. -/
theorem crlf_joins_events :
    let body := Utf8.encode "data: \x7b\x7d\n\ndata: \x7b\x7d\n\ndata: [DONE]\n\n"
    0x0D ∉ body ∧ decode [body] .clean = [.ok {}, .ok {}] ∧
      decode [crlf body] .clean = [.error (.decode .trailingCharacters)] := by
  have hplain : decodeWhole
      [Utf8.encode "data: \x7b\x7d\n\ndata: \x7b\x7d\n\ndata: [DONE]\n\n"].flatten .clean =
        [.ok {}, .ok {}] := by rfl
  have hcrlf : decodeWhole
      [crlf (Utf8.encode "data: \x7b\x7d\n\ndata: \x7b\x7d\n\ndata: [DONE]\n\n")].flatten .clean =
        [.error (.decode .trailingCharacters)] := by rfl
  intro body
  exact ⟨by decide, (decode_eq_decodeWhole _ _).trans hplain,
    (decode_eq_decodeWhole _ _).trans hcrlf⟩

end InferenceFleet.EventStream
