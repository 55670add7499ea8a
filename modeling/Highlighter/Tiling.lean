/-
# Tilings

A rule that takes a text apart names some parts of it and leaves the rest between them.  A
tiling records both, in order, so that a text is never rebuilt from offsets: the named parts
are its *pieces*, what stands around them are its *gaps*.

Tilings are built from the right by `gap` and `piece`.  Neighbouring gaps run together and an
empty piece is left out, so each way of naming parts of a text has one tiling.

* `text` reads the whole text back; every operation has its lemma `text_…`.
* `spans` lists the pieces with their offsets.
* `splice` replaces every piece by a list, and keeps the gaps.
-/
import Highlighter.Span

namespace Highlighter

/-- A named part of a text, and what stands between it and the next one. -/
structure Tile where
  body : Text
  gap : Text
  deriving Repr, DecidableEq

/-- A text taken apart: what stands before the first named part, then the named parts, each
with what follows it. -/
structure Tiling where
  lead : Text
  tiles : List Tile
  deriving Repr, DecidableEq

namespace Tiling

/-! ## 1. Building a tiling from the right -/

/-- The tiling of the empty text. -/
def empty : Tiling := ⟨[], []⟩

/-- Puts text in front that is part of no piece. -/
def gap (run : Text) (t : Tiling) : Tiling := { t with lead := run ++ t.lead }

/-- Puts a piece in front.  An empty one is not recorded. -/
def piece (body : Text) (t : Tiling) : Tiling :=
  if body.isEmpty then t else ⟨[], ⟨body, t.lead⟩ :: t.tiles⟩

/-- Puts a piece in front whose surrounding blanks are gaps. -/
def trimmed (run : Text) (t : Tiling) : Tiling :=
  gap run.leading (piece run.trim (gap run.trimStart.trailing t))

/-- Puts one tile in front: a piece and the gap after it. -/
def tile (a : Tile) (t : Tiling) : Tiling := piece a.body (gap a.gap t)

/-- The tiling of two texts in a row. -/
def append (s t : Tiling) : Tiling := gap s.lead (s.tiles.foldr tile t)

/-- Puts one tile in front whose piece is taken apart by a rule, or kept whole if the rule
does not apply to it. -/
def refineTile (rule : Text → Option Tiling) (a : Tile) (t : Tiling) : Tiling :=
  match rule a.body with
  | some parts => parts.append (gap a.gap t)
  | none => tile a t

/-- Takes every piece apart by a rule, and keeps those whole to which the rule does not
apply. -/
def refine (rule : Text → Option Tiling) (t : Tiling) : Tiling :=
  gap t.lead (t.tiles.foldr (refineTile rule) empty)

/-! ## 2. Reading a tiling -/

/-- The text that was taken apart. -/
def text (t : Tiling) : Text := t.lead ++ t.tiles.flatMap fun a => a.body ++ a.gap

/-- The pieces of `tiles` with their offsets, the first of which is `offset`. -/
def spansFrom (offset : Nat) : List Tile → List Span
  | [] => []
  | a :: rest => ⟨offset, a.body⟩ :: spansFrom (offset + a.body.byteSize + a.gap.byteSize) rest

/-- The pieces in order, each with its byte offset. -/
def spans (t : Tiling) : List Span := spansFrom t.lead.byteSize t.tiles

/-- The pieces alone, without their offsets. -/
def bodies (t : Tiling) : List Text := t.tiles.map Tile.body

/-- Replaces every piece by what `each` makes of it and every gap by what `between` does, and
strings the results together. -/
def splice (between each : Text → List α) (t : Tiling) : List α :=
  between t.lead ++ t.tiles.flatMap fun a => each a.body ++ between a.gap

/-! ## 3. Nothing is lost -/

@[simp] theorem text_empty : empty.text = [] := rfl

@[simp] theorem text_gap (run : Text) (t : Tiling) : (gap run t).text = run ++ t.text := by
  simp [text, gap]

@[simp] theorem text_piece (body : Text) (t : Tiling) : (piece body t).text = body ++ t.text := by
  cases body <;> simp [text, piece]

@[simp] theorem text_trimmed (run : Text) (t : Tiling) :
    (trimmed run t).text = run ++ t.text := by
  have h := Text.leading_append_trim_append_trailing run
  simp only [trimmed, text_gap, text_piece]
  rw [← List.append_assoc, ← List.append_assoc, List.append_assoc (Text.leading run), h]

@[simp] theorem text_tile (a : Tile) (t : Tiling) :
    (tile a t).text = a.body ++ (a.gap ++ t.text) := by
  simp [tile]

theorem text_foldr_tile (tiles : List Tile) (t : Tiling) :
    (tiles.foldr tile t).text = (tiles.flatMap fun a => a.body ++ a.gap) ++ t.text := by
  induction tiles with
  | nil => rfl
  | cons a rest ih => simp [ih]

@[simp] theorem text_append (s t : Tiling) : (s.append t).text = s.text ++ t.text := by
  rw [append, text_gap, text_foldr_tile, ← List.append_assoc]
  rfl

/-- A rule keeps the text if what it makes of a text reads back as that text. -/
def Keeps (rule : Text → Option Tiling) : Prop := ∀ s t, rule s = some t → t.text = s

theorem text_refineTile {rule : Text → Option Tiling} (hrule : Keeps rule) (a : Tile)
    (t : Tiling) : (refineTile rule a t).text = a.body ++ (a.gap ++ t.text) := by
  rw [refineTile]
  split
  · rename_i parts h
    simp [hrule _ _ h]
  · simp

theorem text_foldr_refineTile {rule : Text → Option Tiling} (hrule : Keeps rule)
    (tiles : List Tile) (t : Tiling) :
    (tiles.foldr (refineTile rule) t).text
      = (tiles.flatMap fun a => a.body ++ a.gap) ++ t.text := by
  induction tiles with
  | nil => rfl
  | cons a rest ih => simp [text_refineTile hrule, ih]

/-- Refining by a rule that keeps the text keeps the whole text. -/
theorem text_refine {rule : Text → Option Tiling} (hrule : Keeps rule) (t : Tiling) :
    (t.refine rule).text = t.text := by
  rw [refine, text_gap, text_foldr_refineTile hrule, text_empty, List.append_nil]
  rfl

end Tiling

end Highlighter
