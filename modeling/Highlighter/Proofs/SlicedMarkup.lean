/-
# Highlighting by byte offsets never fails

Marking is done here on byte offsets, like the rules in `Slicing`: a call is cut at the offset of
its parenthesis and before its last byte, a container after its first byte, the blanks around a
piece at the difference of two sizes, and the gaps between pieces behind a cursor.  All of these
can fail by themselves.  Together they do not, and they build the same markup.

* `spliced_eq`: putting pieces back into their text by a cursor;
* `callStart?_eq`, `smaller_eq`: what decides the form of a piece, by offsets and sizes;
* `call_eq`, `container_eq`, `phrase_eq`, `byForm_eq`: one step inwards, and `within_eq`: all of
  them;
* `slices_never_fail`: every operation, from the splitters to rendering.
-/
import Highlighter.Proofs.Forms
import Highlighter.Proofs.Slicing
import Highlighter.Render.Basic

namespace Highlighter.Sliced

open Markup (ofRun single)
open Tiling

/-! ## 1. Pieces, lines and arguments -/

/-- Marks the core of a text by `mark`, and cuts off the blanks around it. -/
def withBlanks (mark : Text → Except OffsetError Markup) (text : Text) :
    Except OffsetError (List Markup) := do
  let leading := text.byteSize - text.trimStart.byteSize
  let core := text.trimStart.trimEnd
  let before ← text.slice 0 leading
  let marked ← if core.isEmpty then pure [] else (mark core).map ([·])
  let after ← text.slice (leading + core.byteSize) text.byteSize
  return ofRun before ++ (marked ++ ofRun after)

/-- Puts pieces back into their text: each goes through `each`, and what stands between the
`cursor` and the next piece is kept.  A piece that begins before the cursor is passed over. -/
def spliced (each : Text → Except OffsetError (List Markup)) (text : Text) :
    (cursor : Nat) → List Span → Except OffsetError (List Markup)
  | cursor, [] => do
    let rest ← text.slice cursor text.byteSize
    return ofRun rest
  | cursor, s :: spans =>
    if s.offset < cursor then spliced each text cursor spans
    else do
      let gap ← text.slice cursor s.offset
      let marked ← each s.text
      let more ← spliced each text s.stop spans
      return ofRun gap ++ (marked ++ more)

/-- Marks a text as a line of its own. -/
def lineBy (mark : Text → Except OffsetError Markup) (text : Text) :
    Except OffsetError (List Markup) := do
  let found ← dissect text
  spliced (withBlanks mark) text 0 found

/-- Marks arguments, each as a line of its own. -/
def argumentsBy (mark : Text → Except OffsetError Markup) (text : Text) :
    Except OffsetError (List Markup) := do
  let found ← arguments text
  spliced (lineBy mark) text 0 found

/-- Putting the pieces of a tiling back goes on from any place, with any gap before the next
piece. -/
theorem spliced_spansFrom {each : Text → Except OffsetError (List Markup)}
    {each' : Text → List Markup} (heach : ∀ s, each s = .ok (each' s)) {text : Text}
    (before gap : Text) (tiles : List Tile) (h : text = before ++ (gap ++ tilesText tiles)) :
    spliced each text before.byteSize (spansFrom (before.byteSize + gap.byteSize) tiles)
      = .ok (ofRun gap ++ tiles.flatMap fun a => each' a.body ++ ofRun a.gap) := by
  induction tiles generalizing before gap with
  | nil =>
    have hrest : text.slice before.byteSize text.byteSize = .ok gap :=
      Text.slice_to_end (by simpa [tilesText] using h)
    rw [spansFrom, spliced, hrest, ok_bind]
    simp [pure, Except.pure]
  | cons a rest ih =>
    rw [tilesText_cons] at h
    have hgap : text.slice before.byteSize (before.byteSize + gap.byteSize) = .ok gap :=
      Text.slice_eq_ok_iff.mpr ⟨before, _, h, rfl, rfl⟩
    have hkeep : ¬ before.byteSize + gap.byteSize < before.byteSize := by omega
    have hmore := ih (before ++ (gap ++ a.body)) a.gap (by simpa using h)
    simp only [Text.byteSize_append, ← Nat.add_assoc] at hmore
    simp only [spansFrom, spliced, if_neg hkeep, hgap, ok_bind, heach, Span.stop, hmore]
    simp [pure, Except.pure]

/-- **Pieces are put back into their text** as a tiling splices them. -/
theorem spliced_eq {each : Text → Except OffsetError (List Markup)}
    {each' : Text → List Markup} (heach : ∀ s, each s = .ok (each' s)) {text : Text} {t : Tiling}
    (h : t.text = text) : spliced each text 0 t.spans = .ok (Markup.withGaps each' t) := by
  have hsplice := @spliced_spansFrom _ _ heach text [] t.lead t.tiles h.symm
  rw [Text.byteSize_nil, Nat.zero_add] at hsplice
  exact hsplice

section

variable {mark : Text → Except OffsetError Markup} {mark' : Text → Markup}

theorem withBlanks_eq (hmark : ∀ s, mark s = .ok (mark' s)) (text : Text) :
    withBlanks mark text = .ok (Markup.withBlanks mark' text) := by
  have htext := Text.leading_append_trim_append_trailing text
  have hbefore : text.slice 0 text.leading.byteSize = .ok text.leading :=
    Text.slice_from_start htext.symm
  have hafter : text.slice (text.leading.byteSize + text.trimStart.trimEnd.byteSize)
      text.byteSize = .ok text.trimStart.trailing := by
    rw [← Text.byteSize_append]
    refine Text.slice_to_end ?_
    rw [List.append_assoc]
    exact htext.symm
  simp only [withBlanks, Text.byteSize_leading, hbefore, hafter, ok_bind, hmark, Except.map]
  rw [Markup.withBlanks, Text.trim]
  split
  · rfl
  · rfl

theorem lineBy_eq (hmark : ∀ s, mark s = .ok (mark' s)) (text : Text) :
    lineBy mark text = .ok (Markup.lineBy mark' text) := by
  rw [lineBy, dissect_eq, ok_bind]
  exact spliced_eq (withBlanks_eq hmark) (Statement.text_dissect text)

theorem argumentsBy_eq (hmark : ∀ s, mark s = .ok (mark' s)) (text : Text) :
    argumentsBy mark text = .ok (Markup.argumentsBy mark' text) := by
  rw [argumentsBy, arguments_eq, ok_bind]
  exact spliced_eq (lineBy_eq hmark) (Listing.text_arguments text)

end

/-! ## 2. The form of a piece -/

/-- The offset of the parenthesis of a text that is a call: a dotted name and a parenthesis that
closes at the last byte. -/
def callStart? (text : Text) : Except OffsetError (Option Nat) :=
  match Statement.Call.head? text with
  | some (path, _) => do
    let last ← lastCloser? text path.byteSize
    return last.map fun _ => path.byteSize
  | none => return none

/-- Cuts a call, whose parenthesis is at the offset `start`, into its name, the name with the
parenthesis, what is between the brackets, and the last byte. -/
def callParts (text : Text) (start : Nat) : Except OffsetError (Text × Text × Text × Text) := do
  let last := text.byteSize - 1
  let body ← text.slice (start + 1) last
  let head ← text.slice 0 (start + 1)
  let path ← text.slice 0 start
  let tail ← text.slice last text.byteSize
  return (path, head, body, tail)

/-- Whether the words found in a text are smaller than the text. -/
def smaller (text : Text) : List Span → Bool
  | [] => false
  | [only] => only.text.byteSize < text.byteSize
  | _ :: _ :: _ => true

theorem callStart?_eq (text : Text) :
    callStart? text = .ok ((Form.call? text).map fun call => call.1.byteSize) := by
  rw [callStart?, Statement.Call.head?, Form.call?]
  cases hpath : Name.path? text with
  | none => rfl
  | some found =>
    obtain ⟨path, rest⟩ := found
    have htext := Name.path?_eq_some hpath
    simp only [Option.bind_eq_bind, Option.bind_some, Option.pure_def]
    cases hrest : Text.after? ['('] rest with
    | none =>
      -- the name is not followed by a parenthesis, so no group that opens with one follows
      cases hgroup : bracketed? rest with
      | none => rfl
      | some g =>
        have hopener : g.opener ≠ '(' := by
          intro hopener
          have hafter : Text.after? ['('] rest = some (g.body ++ [g.closer]) := by
            rw [Text.after?_eq_some_iff, bracketed?_eq_some hgroup, Bracketed.text, hopener]
            rfl
          exact absurd (hrest.symm.trans hafter) (by simp)
        simp [hopener, pure, Except.pure]
    | some inner =>
      have hparen : rest = '(' :: inner := Text.after?_eq_some_iff.mp hrest
      subst hparen
      have hlast := lastCloser?_eq (c := '(') rfl htext
      simp only [Option.bind_some, hlast, ok_bind]
      cases hgroup : bracketed? ('(' :: inner) with
      | none => rfl
      | some g =>
        have hopener : g.opener = '(' := by
          have hg := bracketed?_eq_some hgroup
          rw [Bracketed.text, List.cons.injEq] at hg
          exact hg.1.symm
        simp [hopener, pure, Except.pure]

theorem callParts_eq {path : Text} {b : Bracketed} (hread : bracketed? b.text = some b) :
    callParts (path ++ b.text) path.byteSize
      = .ok (path, path ++ [b.opener], b.body, [b.closer]) := by
  obtain ⟨hopener, hcloser⟩ := brackets_of_bracketed? hread
  have hopener := utf8Size_of_isOpener hopener
  have hcloser := utf8Size_of_isCloser hcloser
  have htext : path ++ b.text = (path ++ [b.opener]) ++ (b.body ++ [b.closer]) := by
    simp [Bracketed.text]
  have hstart : path.byteSize + 1 = Text.byteSize (path ++ [b.opener]) := by simp [hopener]
  have hlast : Text.byteSize (path ++ b.text) - 1
      = Text.byteSize (path ++ [b.opener]) + b.body.byteSize := by
    simp [Bracketed.text, hopener, hcloser]
    omega
  have hbody : (path ++ b.text : Text).slice (path.byteSize + 1)
      (Text.byteSize (path ++ b.text) - 1) = .ok b.body := by
    rw [hlast, hstart]
    exact Text.slice_eq_ok_iff.mpr ⟨_, [b.closer], htext, rfl, rfl⟩
  have hhead : (path ++ b.text : Text).slice 0 (path.byteSize + 1) = .ok (path ++ [b.opener]) := by
    rw [hstart]
    exact Text.slice_from_start htext
  have hpath : (path ++ b.text : Text).slice 0 path.byteSize = .ok path :=
    Text.slice_from_start rfl
  have htail : (path ++ b.text : Text).slice (Text.byteSize (path ++ b.text) - 1)
      (Text.byteSize (path ++ b.text)) = .ok [b.closer] := by
    rw [hlast, ← Text.byteSize_append]
    refine Text.slice_to_end ?_
    rw [htext]
    simp
  rw [callParts, hbody, ok_bind, hhead, ok_bind, hpath, ok_bind, htail, ok_bind]
  rfl

/-- The words of a text are smaller exactly if they are not the whole of it. -/
theorem smaller_eq (text : Text) :
    smaller text (Division.wordsOnly text).spans
      = !Form.isWhole text (Division.wordsOnly text) := by
  have htidy := Division.tidy_wordsOnly text
  have htext : (Division.wordsOnly text).text = text := Division.text_along _ text
  generalize Division.wordsOnly text = t at htidy htext
  cases htiles : t.tiles with
  | nil => simp [smaller, Form.isWhole, Tiling.spans, Tiling.bodies, spansFrom, htiles]
  | cons a rest =>
    cases rest with
    | cons b rest => simp [smaller, Form.isWhole, Tiling.spans, Tiling.bodies, spansFrom, htiles]
    | nil =>
      have hbodies : t.bodies = [a.body] := by simp [Tiling.bodies, htiles]
      have hspans : t.spans = [⟨t.lead.byteSize, a.body⟩] := by
        simp [Tiling.spans, spansFrom, htiles]
      rw [hspans, smaller, Form.isWhole, hbodies]
      by_cases hwhole : a.body = text
      · simp [hwhole]
      · have hlt : a.body.byteSize < text.byteSize := by
          by_contra hlarge
          have hle : t.text.byteSize ≤ a.body.byteSize := by
            rw [htext]
            omega
          have honly := htidy.bodies_eq_of_byteSize_le (by simp [hbodies]) hle
          rw [hbodies, htext, List.cons.injEq] at honly
          exact hwhole honly.1
        simp [hwhole, hlt]

/-! ## 3. One step inwards, and all of them -/

/-- Marks a call, whose parenthesis is at the offset `start`. -/
def call (mark : Text → Except OffsetError Markup) (text : Text) (start : Nat) :
    Except OffsetError Markup := do
  let (path, head, body, tail) ← callParts text start
  if Vocabulary.isPrimitive path then
    let inner ← withBlanks mark body
    return .group .primitive (ofRun head ++ (inner ++ ofRun tail))
  else
    let inner ← argumentsBy mark body
    return .group .function (ofRun head ++ (inner ++ ofRun tail))

/-- Marks a container, which ends in the bracket at the offset `last`. -/
def container (mark : Text → Except OffsetError Markup) (text : Text) (last : Nat) :
    Except OffsetError Markup := do
  let (opener, body, closer) ← group text last
  let inner ← argumentsBy mark body
  return .group .default (ofRun opener ++ (inner ++ ofRun closer))

/-- Marks the words of a text, if they are smaller than the text. -/
def phrase (mark : Text → Except OffsetError Markup) (text : Text) :
    Except OffsetError Markup := do
  let found ← wordsOnly text
  if smaller text found then
    let inner ← spliced (withBlanks mark) text 0 found
    return .group .default inner
  else return single .default text

/-- Marks a piece by the first test that it passes. -/
def byForm (mark : Text → Except OffsetError Markup) (text : Text) :
    Except OffsetError Markup :=
  if Vocabulary.isKeyword text then return single .keyword text
  else if Vocabulary.isOperator text then return single .operator text
  else do
    match ← callStart? text with
    | some start => call mark text start
    | none =>
      if Literal.isLiteral text then return single .string text
      else if Number.isNumber text then return single .numeric text
      else
        match ← closer? text with
        | some last => container mark text last
        | none => if Name.isField text then return single .default text else phrase mark text

/-- Marks a piece, going inwards as far as there is room.  Without room nothing is cut. -/
def within : (room : Nat) → Text → Except OffsetError Markup
  | 0, text => return Markup.whole text
  | room + 1, text => byForm (within room) text

section

variable {mark : Text → Except OffsetError Markup} {mark' : Text → Markup}

theorem call_eq (hmark : ∀ s, mark s = .ok (mark' s)) {text path : Text} {b : Bracketed}
    (hform : Form.of text = .call path b) :
    call mark text path.byteSize = .ok (Markup.byForm mark' text) := by
  rw [Markup.byForm, hform]
  cases Form.found_of_eq hform with
  | call _ written read _ =>
    rw [call, written, callParts_eq read, ok_bind]
    simp only [withBlanks_eq hmark, argumentsBy_eq hmark, ok_bind]
    split
    · simp [ofRun, pure, Except.pure]
    · simp [ofRun, pure, Except.pure]

theorem container_eq (hmark : ∀ s, mark s = .ok (mark' s)) {text : Text} {b : Bracketed}
    (hform : Form.of text = .container b) :
    container mark text (Text.byteSize (b.opener :: b.body))
      = .ok (Markup.byForm mark' text) := by
  rw [Markup.byForm, hform]
  cases Form.found_of_eq hform with
  | container read =>
    rw [container, group_eq read, ok_bind]
    simp only [argumentsBy_eq hmark, ok_bind]
    simp [ofRun, pure, Except.pure]

theorem phrase_eq (hmark : ∀ s, mark s = .ok (mark' s)) {text : Text}
    (hform : Form.of text = Form.ofWords text) :
    phrase mark text = .ok (Markup.byForm mark' text) := by
  have hwords : wordsOnly text = .ok (Division.wordsOnly text).spans := along_eq _ text
  rw [Markup.byForm, hform, Form.ofWords, phrase, hwords, ok_bind, smaller_eq]
  cases Form.isWhole text (Division.wordsOnly text) with
  | true => rfl
  | false =>
    have hspliced : spliced (withBlanks mark) text 0 (Division.wordsOnly text).spans
        = .ok (Markup.withGaps (Markup.withBlanks mark') (Division.wordsOnly text)) :=
      spliced_eq (withBlanks_eq hmark) (Division.text_along _ text)
    simp only [Bool.not_false, if_true, hspliced, ok_bind]
    rfl

/-- **One step inwards by offsets** succeeds if the steps below it do. -/
theorem byForm_eq (hmark : ∀ s, mark s = .ok (mark' s)) (text : Text) :
    byForm mark text = .ok (Markup.byForm mark' text) := by
  have hatom {c : Category} (hform : Form.of text = .atom c) :
      .ok (single c text) = Except.ok (ε := OffsetError) (Markup.byForm mark' text) := by
    rw [Markup.byForm, hform]
  -- the tests are made in the same order, so each that fails fails on both sides
  rw [byForm]
  split
  · rename_i hkeyword
    exact hatom (by simp [Form.of, hkeyword])
  rename_i hkeyword
  split
  · rename_i hoperator
    exact hatom (by simp [Form.of, hkeyword, hoperator])
  rename_i hoperator
  rw [callStart?_eq, ok_bind]
  cases hcall : Form.call? text with
  | some found =>
    obtain ⟨path, b⟩ := found
    have hform : Form.of text = .call path b := by simp [Form.of, hkeyword, hoperator, hcall]
    exact call_eq hmark hform
  | none =>
    simp only [Option.map_none]
    split
    · rename_i hliteral
      exact hatom (by simp [Form.of, hkeyword, hoperator, hcall, hliteral])
    rename_i hliteral
    split
    · rename_i hnumber
      exact hatom (by simp [Form.of, hkeyword, hoperator, hcall, hliteral, hnumber])
    rename_i hnumber
    rw [closer?_eq, ok_bind, closerOffset?]
    cases hgroup : bracketed? text with
    | some b =>
      exact container_eq hmark
        (by simp [Form.of, hkeyword, hoperator, hcall, hliteral, hnumber, hgroup])
    | none =>
      have hof : Form.of text
          = if Name.isField text then .atom .default else Form.ofWords text := by
        simp [Form.of, hkeyword, hoperator, hcall, hliteral, hnumber, hgroup]
      simp only [Option.map_none]
      split
      · rename_i hfield
        exact hatom (by rw [hof, if_pos hfield])
      · rename_i hfield
        exact phrase_eq hmark (by rw [hof, if_neg hfield])

end

theorem within_eq (room : Nat) (text : Text) :
    within room text = .ok (Markup.within room text) := by
  induction room generalizing text with
  | zero => rfl
  | succ room ih => exact byForm_eq ih text

/-! ## 4. Lines and sources -/

/-- Marks a piece of source.  Its size says whether there are blanks around it. -/
def ofPiece (text : Text) : Except OffsetError Markup :=
  if text.trim.isEmpty then return .run text
  else if text.trim.byteSize = text.byteSize then within Markup.depthLimit text
  else do
    let inner ← withBlanks (within Markup.depthLimit) text
    return .group .neutral inner

/-- Marks a line of source. -/
def ofLine (text : Text) : Except OffsetError (List Markup) :=
  lineBy (within Markup.depthLimit) text

/-- The markup of one line of a source.  The offset where its indentation ends is the number of
spaces. -/
def ofSourceLine (line : Text) : Except OffsetError (List Markup) := do
  let indent ← line.slice 0 line.indent.length
  let contents ← ofLine line.trim
  return single .indent indent :: (contents ++ [single .newline ['\n']])

/-- The markup of a source text. -/
def ofSource (text : Text) : Except OffsetError (List Markup) := do
  let lines ← text.lines.mapM ofSourceLine
  return lines.flatten

/-- Highlights a source text. -/
def render (r : Renderer) (text : Text) : Except OffsetError Text := do
  let marked ← ofSource text
  return r.writeAll marked

theorem byteSize_trim_eq_iff (text : Text) :
    text.trim.byteSize = text.byteSize ↔ text.trim = text := by
  constructor
  · intro hsize
    have htext := Text.leading_append_trim_append_trailing text
    have htotal := congrArg Text.byteSize htext
    simp only [Text.byteSize_append] at htotal
    have hleading : text.leading = [] := Text.eq_nil_of_byteSize_eq_zero (by omega)
    have htrailing : text.trimStart.trailing = [] := Text.eq_nil_of_byteSize_eq_zero (by omega)
    simpa [hleading, htrailing] using htext
  · intro htrim
    rw [htrim]

/-- A space is one byte, so indentation has as many bytes as spaces. -/
theorem byteSize_indent (line : Text) : line.indent.byteSize = line.indent.length := by
  unfold Text.indent
  induction line with
  | nil => rfl
  | cons c cs ih =>
    rw [List.takeWhile_cons]
    split
    · rename_i hspace
      rw [eq_of_beq hspace, Text.byteSize_cons, ih, List.length_cons, Nat.add_comm]
      rfl
    · rfl

theorem ofPiece_eq (text : Text) : ofPiece text = .ok (Markup.ofPiece text) := by
  rw [ofPiece, Markup.ofPiece, Markup.ofPieceWithin]
  simp only [byteSize_trim_eq_iff, within_eq, withBlanks_eq (within_eq _), ok_bind]
  split
  · rfl
  · split
    · rfl
    · rfl

theorem ofLine_eq (text : Text) : ofLine text = .ok (Markup.ofLine text) :=
  lineBy_eq (within_eq _) text

theorem ofSourceLine_eq (line : Text) : ofSourceLine line = .ok (Markup.ofSourceLine line) := by
  have hindent : line.slice 0 line.indent.length = .ok line.indent := by
    rw [← byteSize_indent]
    exact Text.slice_from_start List.takeWhile_append_dropWhile.symm
  rw [ofSourceLine, hindent, ok_bind, ofLine_eq, ok_bind]
  rfl

theorem ofSource_eq (text : Text) : ofSource text = .ok (Markup.ofSource text) := by
  have hlines := mapM_eq_ok fun line (_ : line ∈ text.lines) => ofSourceLine_eq line
  rw [ofSource, hlines, ok_bind, Markup.ofSource, List.flatMap_def]
  rfl

theorem render_eq (r : Renderer) (text : Text) : render r text = .ok (r.render text) := by
  rw [render, ofSource_eq, ok_bind]
  rfl

/-! ## 5. Every operation -/

/-- **No offset is ever wrong.**  A slice succeeds exactly if it begins no later than it ends, and
both of its ends are places between characters of the text.  Every operation done on byte offsets
succeeds on every text, with the answer of the operation on texts.  Only the search for a closing
bracket, which is given an offset, can fail: beyond the text or inside a character. -/
theorem slices_never_fail :
    (∀ (text : Text) (start stop : Nat), (∃ part, text.slice start stop = .ok part) ↔
      start ≤ stop ∧ text.IsPlace start ∧ text.IsPlace stop) ∧
    (∀ text : Text,
      words ':' text = .ok (Division.wordsAndColons text).spans ∧
      wordsOnly text = .ok (Division.wordsOnly text).spans ∧
      parts text = .ok (Listing.parts text).spans ∧
      arguments text = .ok (Listing.arguments text).spans ∧
      closer? text = .ok (closerOffset? text) ∧
      imports text = .ok (Statement.imports.spans text) ∧
      (∀ kind : Statement, spans kind text = .ok (kind.spans text)) ∧
      dissect text = .ok (Statement.dissect text).spans ∧
      ofPiece text = .ok (Markup.ofPiece text) ∧
      ofLine text = .ok (Markup.ofLine text) ∧
      ofSourceLine text = .ok (Markup.ofSourceLine text) ∧
      ofSource text = .ok (Markup.ofSource text) ∧
      ∀ r : Renderer, render r text = .ok (r.render text)) ∧
    ∀ (text : Text) (start : Nat),
      ((∃ e, closeOffset text start = .error e) ↔
        text.byteSize < start ∨ text.InsideChar start) ∧
      ∀ i, closeOffset text start = .ok (some i) → start ≤ i ∧ i < text.byteSize ∧
        ∃ (before : Text) (c : Char) (after : Text), text = before ++ c :: after ∧
          before.byteSize = i ∧ isCloser c = true := by
  refine ⟨fun _ _ _ => Text.slice_isOk_iff, fun text => ?_, fun text start => ?_⟩
  · refine ⟨along_eq _ text, along_eq _ text, parts_eq text, arguments_eq text, closer?_eq text,
      imports_eq text, fun kind => spans_eq kind text, dissect_eq text, ofPiece_eq text,
      ofLine_eq text, ofSourceLine_eq text, ofSource_eq text, fun r => render_eq r text⟩
  · exact ⟨closeOffset_eq_error_iff, fun i => closeOffset_eq_some⟩

/-- After a letter of two bytes the bracket is found at its byte offset, and a search that begins
inside the letter fails. -/
theorem slices_never_fail_two_bytes :
    closeOffset "f(é)".toList 1 = .ok (some 4) ∧
      (1 ≤ 4 ∧ 4 < Text.byteSize "f(é)".toList ∧
        ∃ (before : Text) (c : Char) (after : Text), "f(é)".toList = before ++ c :: after ∧
          before.byteSize = 4 ∧ isCloser c = true) ∧
      ∃ e, closeOffset "f(é)".toList 3 = .error e :=
  ⟨by decide, (slices_never_fail.2.2 "f(é)".toList 1).2 4 (by decide),
    (slices_never_fail.2.2 "f(é)".toList 3).1.mpr
      (.inr ⟨"f(".toList, 'é', ")".toList, by decide, by decide, by decide⟩)⟩

end Highlighter.Sliced
