/-
# The character classes of source text

Four classes matter to the highlighter: *blank* characters, which separate; *word* characters,
which make up names; the quotes that open and close a string literal; and brackets.  No
character is in two of them.
-/
import Highlighter.Text.CodeRange
import Highlighter.Text.WordRanges

namespace Highlighter

/-! ## 1. Blanks -/

/-- The code points with the Unicode property `White_Space`. -/
def blankRanges : List CodeRange :=
  [⟨0x9, 0xD⟩, ⟨0x20, 0x20⟩, ⟨0x85, 0x85⟩, ⟨0xA0, 0xA0⟩, ⟨0x1680, 0x1680⟩, ⟨0x2000, 0x200A⟩,
   ⟨0x2028, 0x2029⟩, ⟨0x202F, 0x202F⟩, ⟨0x205F, 0x205F⟩, ⟨0x3000, 0x3000⟩]

/-- Whether a character is white space.  Every line break is blank, and so are the wide and
the unbreakable spaces; the zero-width ones are not. -/
def isBlank (c : Char) : Bool := CodeRange.anyCovers blankRanges c

/-! ## 2. Word characters -/

/-- Whether a character can stand in a name: a letter, a mark, a digit, a connector such as
the underscore, or a joiner. -/
def isWord (c : Char) : Bool :=
  if c.toNat < 0x80 then c.isAlphanum || c == '_' else CodeRange.anyCovers wordRanges c

/-- Whether a character can stand in a dotted name. -/
def isWordOrDot (c : Char) : Bool := isWord c || c == '.'

/-! ## 3. Quotes and brackets -/

/-- The two marks that open and close a string literal. -/
def isQuote (c : Char) : Bool := c == '"' || c == '\''

/-- The brackets that open a nested span. -/
def isOpener (c : Char) : Bool := c == '(' || c == '[' || c == '\x7b'

/-- The brackets that close a nested span. -/
def isCloser (c : Char) : Bool := c == ')' || c == ']' || c == '\x7d'

end Highlighter
