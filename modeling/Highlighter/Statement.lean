/-
# Statements

A line is looked at as one of eight kinds of statement, which decides how it is taken apart.
Whether a line may be of a kind is a coarse test; the first kind in `Statement.inOrder` that
passes it is taken.  The rule of that kind may still not apply, and then the line is taken
apart into words and colons.
-/
import Highlighter.Listing
import Highlighter.Statement.Import
import Highlighter.Statement.Definition
import Highlighter.Statement.Assignment
import Highlighter.Statement.Conditional
import Highlighter.Statement.Call
import Highlighter.Statement.Comparison

namespace Highlighter

/-- What a line looks like. -/
inductive Statement where
  | imports
  | definition
  | assignment
  | conditional
  | call
  | comparison
  | listing
  | other
  deriving Repr, DecidableEq

namespace Statement

/-! ## 1. The kind of a line -/

/-- Every kind, in the order in which a line is tested for them. -/
def inOrder : List Statement :=
  [imports, definition, assignment, conditional, call, comparison, listing, other]

/-- Whether a line may be of the kind. -/
def hintedBy : Statement → Text → Bool
  | imports => Import.hintedBy
  | definition => Definition.hintedBy
  | assignment => Assignment.hintedBy
  | conditional => Conditional.hintedBy
  | call => Call.hintedBy
  | comparison => Comparison.hintedBy
  | listing => Listing.hintedBy
  | other => fun _ => true

/-- The kind of a line, whatever blanks are around it. -/
def of (line : Text) : Statement := (inOrder.find? (·.hintedBy line.trim)).getD other

/-! ## 2. Taking a line apart -/

/-- The rule that takes a line of the kind apart. -/
def tiling? : Statement → Text → Option Tiling
  | imports => Import.tiling?
  | definition => Definition.tiling?
  | assignment => Assignment.tiling?
  | conditional => Conditional.tiling?
  | call => Call.tiling?
  | comparison => Comparison.tiling?
  | listing => fun text => some (Listing.parts text)
  | other => fun text => some (Division.wordsAndColons text)

/-- The pieces that the rule of the kind finds in a text; none if it does not apply. -/
def spans (kind : Statement) (text : Text) : List Span :=
  match kind.tiling? text with
  | some t => t.spans
  | none => []

/-- Takes a line without blanks around it apart by the rule of its kind, or into words and
colons if that rule does not apply. -/
def dissectTrimmed (text : Text) : Tiling :=
  ((of text).tiling? text).getD (Division.wordsAndColons text)

/-- Takes a line apart.  The blanks around it are gaps. -/
def dissect (line : Text) : Tiling :=
  .gap line.leading ((dissectTrimmed line.trim).append (.gap line.trimStart.trailing .empty))

/-! ## 3. Nothing is lost -/

/-- Whatever the kind, taking a line apart keeps its text. -/
theorem keeps (kind : Statement) : Tiling.Keeps kind.tiling? := by
  intro text t h
  cases kind with
  | imports => exact Import.keeps _ _ h
  | definition => exact Definition.keeps _ _ h
  | assignment => exact Assignment.keeps _ _ h
  | conditional => exact Conditional.keeps _ _ h
  | call => exact Call.keeps _ _ h
  | comparison => exact Comparison.keeps _ _ h
  | listing =>
    rw [← Option.some.inj h]
    exact Listing.text_parts text
  | other =>
    rw [← Option.some.inj h]
    exact Division.text_along _ text

theorem text_dissectTrimmed (text : Text) : (dissectTrimmed text).text = text := by
  rw [dissectTrimmed]
  cases h : (of text).tiling? text with
  | none => exact Division.text_along _ text
  | some t => exact keeps _ _ _ h

/-- Taking a line apart by its kind keeps its text. -/
@[simp] theorem text_dissect (line : Text) : (dissect line).text = line := by
  rw [dissect, Tiling.text_gap, Tiling.text_append, text_dissectTrimmed, Tiling.text_gap,
    Tiling.text_empty, List.append_nil, Text.leading_append_trim_append_trailing]

end Statement

end Highlighter
