/-
# Pages

Highlighted source is published as bare elements, or as a page of its own with a title and the
stylesheet that colours it.
-/
import Highlighter.Render.Html

namespace Highlighter

/-- The highlighted elements of a source text, to be embedded in some page. -/
def bareHtml (source : Text) : Text := Renderer.html.render source

namespace Page

/-- How one character of a title is written. -/
def escapeTitleChar (c : Char) : Text :=
  if c = '<' then "&lt;".toList
  else if c = '>' then "&gt;".toList
  else if c = '&' then "&amp;".toList
  else if c = '\'' then "&#39;".toList
  else if c = '"' then "&quot;".toList
  else [c]

/-- Writes a title so that none of it is read as markup. -/
def escapeTitle (title : Text) : Text := title.flatMap escapeTitleChar

/-- The rules of the stylesheet, one a line. -/
def stylesheet : Text :=
  "div.python \x7b font-family: monospace; white-space: nowrap; \x7d\n".toList ++
  "span.python.default \x7b color: #2e3436; \x7d\n".toList ++
  "span.python.primitive \x7b color: #8f5902; font-weight: bold; \x7d\n".toList ++
  "span.python.number \x7b color: #ad7fa8; \x7d\n".toList ++
  "span.python.keyword \x7b color: #75507b; font-weight: bold; \x7d\n".toList ++
  "span.python.operator \x7b color: #cc0000; \x7d\n".toList ++
  "span.python.function \x7b color: #3465a4; \x7d\n".toList ++
  "span.python.string \x7b color: #4e9a06; \x7d".toList

/-- The page up to the title. -/
def top : Text :=
  "<!DOCTYPE html>\n<html>\n<head>\n<meta charset=\"utf-8\">\n<title>".toList

/-- The page from the title to the highlighted source. -/
def middle : Text :=
  "</title>\n<style>\n".toList ++ stylesheet ++
    "\n</style>\n</head>\n<body>\n<div class=\"python\">\n".toList

/-- The page after the highlighted source. -/
def bottom : Text := "\n</div>\n</body>\n</html>\n".toList

end Page

/-- The page that shows a source text under a title. -/
def page (title source : Text) : Text :=
  Page.top ++ (Page.escapeTitle title ++ (Page.middle ++ (bareHtml source ++ Page.bottom)))

end Highlighter
