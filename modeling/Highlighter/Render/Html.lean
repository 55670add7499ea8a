/-
# Rendering as HTML

Categories become `span` elements whose class names the category, for a stylesheet to colour.
The indentation is written with wide spaces, and a line ends in a line break element.
-/
import Highlighter.Render.Basic

namespace Highlighter

namespace Html

/-! ## 1. Source text -/

/-- The characters that markup is made of. -/
def isSpecial (c : Char) : Bool := c == '&' || c == '<' || c == '>'

/-- Writes source text so that none of it is read as markup.  The ampersand comes first: the
references that stand for the other two begin with one. -/
def escape (text : Text) : Text :=
  if text.any isSpecial then
    Text.replaceChar '>' "&gt;".toList
      (Text.replaceChar '<' "&lt;".toList (Text.replaceChar '&' "&amp;".toList text))
  else text

/-! ## 2. Elements -/

/-- What stands for one space of indentation. -/
def wideSpace : Text := "&emsp;".toList

/-- The end of every element that is written. -/
def spanEnd : Text := "</span>".toList

/-- The beginning of the element for a category. -/
def spanStart (name : Text) : Text := "<span class='python ".toList ++ name ++ "'>".toList

/-- The element for the indentation of a line. -/
def indentation (width : Nat) : Text :=
  "<span class='python'>".toList ++ (List.replicate width wideSpace).flatten ++ spanEnd

/-- The element that ends a line. -/
def lineBreak : Text := "<br>".toList

/-- Dresses content for a category.  The spaces among the content of an indentation are
counted, and everything else in it is dropped. -/
def dress (c : Category) (content : Text) : Text :=
  match c with
  | .indent => indentation (content.count ' ')
  | .newline => lineBreak
  | _ =>
    match c.styleName? with
    | some name => spanStart name ++ content ++ spanEnd
    | none => content

end Html

/-- The renderer for HTML. -/
def Renderer.html : Renderer := ⟨Html.escape, Html.dress⟩

end Highlighter
