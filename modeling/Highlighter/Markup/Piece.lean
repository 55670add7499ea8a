/-
# Markup of pieces and lines

A line is taken apart by its kind, and each piece is marked by its form; the arguments of a
call and the items of a container are taken apart like lines of their own, and so on inwards.
Nothing is dropped: gaps and blanks stay as plain text.

Every step inwards uses up one unit of *room*.  A piece for which no room is left is marked as
a whole, so the depth of the markup is bounded.
-/
import Highlighter.Form
import Highlighter.Markup.Basic
import Highlighter.Statement

namespace Highlighter.Markup

/-! ## 1. What surrounds a piece -/

/-- Marks the core of a text by `mark`, and keeps the blanks around it. -/
def withBlanks (mark : Text → Markup) (text : Text) : List Markup :=
  ofRun text.leading ++
    ((if text.trim.isEmpty then [] else [mark text.trim]) ++ ofRun text.trimStart.trailing)

/-- Marks the pieces of a tiling by `each`, and keeps its gaps. -/
def withGaps (each : Text → List Markup) (t : Tiling) : List Markup := t.splice ofRun each

/-- Marks a text as a line of its own, its pieces by `mark`. -/
def lineBy (mark : Text → Markup) (text : Text) : List Markup :=
  withGaps (withBlanks mark) (Statement.dissect text)

/-- Marks the arguments of a call or the items of a container, each as a line of its own. -/
def argumentsBy (mark : Text → Markup) (text : Text) : List Markup :=
  withGaps (lineBy mark) (Listing.arguments text)

/-- If `mark` keeps the text of a piece, so does `withBlanks`. -/
theorem sourceAll_withBlanks {mark : Text → Markup} (hmark : ∀ s, (mark s).source = s)
    (t : Text) : sourceAll (withBlanks mark t) = t := by
  refine Eq.trans ?_ (Text.leading_append_trim_append_trailing t)
  rw [withBlanks]
  split
  · rename_i h
    simp [List.isEmpty_iff.mp h]
  · simp [sourceAll, hmark]

/-- If `each` keeps the text of a piece, `withGaps` keeps the text of the tiling. -/
theorem sourceAll_withGaps {each : Text → List Markup} (heach : ∀ s, sourceAll (each s) = s)
    (t : Tiling) : sourceAll (withGaps each t) = t.text := by
  rw [withGaps, Tiling.splice, sourceAll_append, sourceAll_ofRun, Tiling.text]
  congr 1
  exact sourceAll_flatMap fun a _ => by simp [heach]

/-! ## 2. Pieces by their form -/

/-- Marks a piece with room for its parts, which are marked by `mark`. -/
def byForm (mark : Text → Markup) (text : Text) : Markup :=
  match Form.of text with
  | .atom c => single c text
  | .call path b =>
    let head := run (path ++ [b.opener])
    let last := run [b.closer]
    if Vocabulary.isPrimitive path then
      .group .primitive (head :: (withBlanks mark b.body ++ [last]))
    else .group .function (head :: (argumentsBy mark b.body ++ [last]))
  | .container b =>
    .group .default (run [b.opener] :: (argumentsBy mark b.body ++ [run [b.closer]]))
  | .phrase parts => .group .default (withGaps (withBlanks mark) parts)

/-- Marks a piece as a whole. -/
def whole (text : Text) : Markup :=
  match Form.of text with
  | .atom c => single c text
  | _ => single .default text

/-- Marks a piece that has no blanks around it, going inwards as far as there is room. -/
def within : (room : Nat) → Text → Markup
  | 0 => whole
  | room + 1 => byForm (within room)

/-! ## 3. Pieces and lines -/

/-- Marks a piece of source, with the given room.  Blanks alone stay text; blanks around a
piece stand beside it in a neutral group. -/
def ofPieceWithin (room : Nat) (text : Text) : Markup :=
  if text.trim.isEmpty then .run text
  else if text.trim = text then within room text
  else .group .neutral (withBlanks (within room) text)

/-- Marks a line of source, with the given room. -/
def ofLineWithin (room : Nat) (text : Text) : List Markup := lineBy (within room) text

/-- How many calls, containers and phrases inside one another are looked into. -/
def depthLimit : Nat := 64

/-- Marks a piece of source. -/
def ofPiece (text : Text) : Markup := ofPieceWithin depthLimit text

/-- Marks a line of source. -/
def ofLine (text : Text) : List Markup := ofLineWithin depthLimit text

end Highlighter.Markup
