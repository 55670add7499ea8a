/-
# Markup of whole sources

A source text is highlighted line by line.  A line keeps the spaces it begins with as its
indentation; all other blanks around it are dropped.
-/
import Highlighter.Markup.Piece

namespace Highlighter.Markup

/-- The markup of one line of a source: its indentation, its contents and its end. -/
def ofSourceLine (line : Text) : List Markup :=
  single .indent line.indent :: (ofLine line.trim ++ [single .newline ['\n']])

/-- The markup of a source text. -/
def ofSource (text : Text) : List Markup := text.lines.flatMap ofSourceLine

end Highlighter.Markup
