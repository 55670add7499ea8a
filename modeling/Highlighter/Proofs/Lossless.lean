/-
# Highlighting loses no text

The leaves of the markup, read from left to right, are the source text, whatever that text is:
with line breaks in it, with brackets that do not match, with literals that do not end, and
nested beyond the depth that is looked into.

The argument has the shape of the recursion.  One step inwards keeps the text of a piece if
the step below it does (`source_byForm`); a piece for which no room is left is kept as it
stands (`source_whole`); hence every amount of room keeps it (`source_within`).
-/
import Highlighter.Proofs.Forms

namespace Highlighter.Markup

/-! ## 1. Lines and arguments -/

theorem sourceAll_eq_flatMap (ms : List Markup) : sourceAll ms = ms.flatMap source := by
  induction ms with
  | nil => rfl
  | cons m ms ih => rw [sourceAll, ih, List.flatMap_cons]

/-- The text of a group between brackets. -/
theorem source_bracketed (c : Category) (head last : Text) (ms : List Markup) :
    source (.group c (.run head :: (ms ++ [.run last]))) = head ++ (sourceAll ms ++ last) := by
  simp [source, sourceAll]

section

variable {mark : Text → Markup} (hmark : ∀ s, (mark s).source = s)

include hmark

/-- If `mark` keeps the text of a piece, marking a line by it keeps the line. -/
theorem sourceAll_lineBy (text : Text) : sourceAll (lineBy mark text) = text := by
  have hpieces : ∀ s, sourceAll (withBlanks mark s) = s := sourceAll_withBlanks hmark
  rw [lineBy, sourceAll_withGaps hpieces, Statement.text_dissect]

theorem sourceAll_argumentsBy (text : Text) : sourceAll (argumentsBy mark text) = text := by
  have hitems : ∀ s, sourceAll (lineBy mark s) = s := sourceAll_lineBy hmark
  rw [argumentsBy, sourceAll_withGaps hitems, Listing.text_arguments]

/-! ## 2. One step inwards -/

/-- **One step inwards keeps the text of a piece**, if the step below it does. -/
theorem source_byForm (text : Text) : (byForm mark text).source = text := by
  unfold byForm
  cases hf : Form.of text with
  | atom c => exact source_single c text
  | call path b =>
    have htext := Form.text_of_call hf
    simp only
    split
    · rw [source_bracketed, sourceAll_withBlanks hmark, htext]
      simp [Bracketed.text]
    · rw [source_bracketed, sourceAll_argumentsBy hmark, htext]
      simp [Bracketed.text]
  | container b =>
    have htext := Form.text_of_container hf
    simp only
    rw [source_bracketed, sourceAll_argumentsBy hmark, htext]
    rfl
  | phrase parts =>
    have hpieces : ∀ s, sourceAll (withBlanks mark s) = s := sourceAll_withBlanks hmark
    simp only [source]
    rw [sourceAll_withGaps hpieces, ← Form.text_of_phrase hf]

end

/-! ## 3. Every amount of room -/

theorem source_whole (text : Text) : (whole text).source = text := by
  unfold whole
  split
  · exact source_single _ text
  · exact source_single _ text

theorem source_within (room : Nat) (text : Text) : (within room text).source = text := by
  induction room generalizing text with
  | zero => exact source_whole text
  | succ room ih => exact source_byForm ih text

theorem source_ofPieceWithin (room : Nat) (text : Text) :
    (ofPieceWithin room text).source = text := by
  unfold ofPieceWithin
  split
  · rfl
  · split
    · exact source_within room text
    · exact sourceAll_withBlanks (source_within room) text

theorem sourceAll_ofLineWithin (room : Nat) (text : Text) :
    sourceAll (ofLineWithin room text) = text :=
  sourceAll_lineBy (source_within room) text

/-- **Nothing is lost.**  The text under the markup of a piece is the piece, and the texts
under the markup of a line, strung together, are the line. -/
theorem markup_lossless :
    (∀ piece : Text, (ofPiece piece).source = piece) ∧
      ∀ line : Text, ((ofLine line).map source).flatten = line := by
  refine ⟨fun piece => source_ofPieceWithin depthLimit piece, ?_⟩
  intro line
  rw [← List.flatMap_def, ← sourceAll_eq_flatMap]
  exact sourceAll_ofLineWithin depthLimit line

/-- A call that does not close, in a literal that does not end, before a line break. -/
example : (ofPiece " f((\n'x".toList).source = " f((\n'x".toList := by decide

end Highlighter.Markup
