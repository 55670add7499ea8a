/-
# Categories

The categories that a highlighter distinguishes, and the vocabulary by which single words are
sorted into them.
-/
import Highlighter.Text.Basic

namespace Highlighter

/-! ## 1. Categories -/

/-- What a fragment of source text is highlighted as.  The first three only arrange text and
are no category of the language. -/
inductive Category where
  /-- A group without a category of its own. -/
  | neutral
  /-- The spaces at the beginning of a line. -/
  | indent
  /-- The end of a line. -/
  | newline
  | default
  | primitive
  | numeric
  | keyword
  | operator
  | function
  | string
  deriving Repr, DecidableEq

/-- The name under which a category is styled.  The arranging ones have none. -/
def Category.styleName? : Category → Option Text
  | .neutral | .indent | .newline => none
  | .default => some "default".toList
  | .primitive => some "primitive".toList
  | .numeric => some "number".toList
  | .keyword => some "keyword".toList
  | .operator => some "operator".toList
  | .function => some "function".toList
  | .string => some "string".toList

/-! ## 2. Vocabulary -/

namespace Vocabulary

/-- The keywords of the language. -/
def keywords : List Text :=
  ["and", "or", "not", "is", "as", "assert", "break", "class", "continue", "def", "del", "elif",
   "else", "except", "finally", "for", "from", "global", "if", "import", "lambda", "pass",
   "raise", "return", "try", "while", "with", "yield", "in"].map String.toList

/-- The signs that are highlighted as operators, brackets and separators among them. -/
def operators : List Text :=
  ["=", "==", "!=", "+", "-", "/", ",", ".", "[", "]", "\x7b", "\x7d", "(", ")", "!", ":",
   "->"].map String.toList

/-- The names of the built-in types, whose calls are conversions. -/
def primitives : List Text := ["str", "int", "float", "bool"].map String.toList

/-- Whether a text is a keyword. -/
def isKeyword (t : Text) : Bool := keywords.contains t

/-- Whether a text is an operator. -/
def isOperator (t : Text) : Bool := operators.contains t

/-- Whether a text is the name of a built-in type. -/
def isPrimitive (t : Text) : Bool := primitives.contains t

end Vocabulary

end Highlighter
