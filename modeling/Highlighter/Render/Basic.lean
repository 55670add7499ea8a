/-
# Renderers

A renderer turns markup into output.  It says how source text is written, and how the output
of a group's children is dressed for the group's category.
-/
import Highlighter.Markup.Source

namespace Highlighter

/-- How markup is written in some output format. -/
structure Renderer where
  /-- Writes source text. -/
  writeText : Text → Text
  /-- Dresses finished output for a category. -/
  dress : Category → Text → Text

namespace Renderer

mutual

/-- Writes some markup. -/
def write (r : Renderer) : Markup → Text
  | .run text => r.writeText text
  | .group c children => r.dress c (r.writeAll children)

/-- Writes a list of markup. -/
def writeAll (r : Renderer) : List Markup → Text
  | [] => []
  | m :: ms => r.write m ++ r.writeAll ms

end

/-- Highlights a source text. -/
def render (r : Renderer) (source : Text) : Text := r.writeAll (Markup.ofSource source)

@[simp] theorem writeAll_append (r : Renderer) (ms ns : List Markup) :
    r.writeAll (ms ++ ns) = r.writeAll ms ++ r.writeAll ns := by
  induction ms with
  | nil => simp [writeAll]
  | cons m ms ih => simp [writeAll, ih]

/-- The renderer that adds nothing: its output is the text under the markup. -/
def plain : Renderer := ⟨id, fun _ content => content⟩

end Renderer

end Highlighter
