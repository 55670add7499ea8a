/-
# Byte offsets

An offset that comes from outside may name no place in a text: it can lie past the end, or
inside the encoding of a character.
-/
import Highlighter.Text.Basic

namespace Highlighter

/-- Why a byte offset names no place in a text. -/
inductive OffsetError where
  /-- The text has fewer bytes. -/
  | pastEnd
  /-- The offset falls between two bytes of one character. -/
  | insideChar
  deriving Repr, DecidableEq

namespace Text

/-- Divides a text at a byte offset. -/
def splitAtByte : Text → Nat → Except OffsetError (Text × Text)
  | t, 0 => .ok ([], t)
  | [], _ + 1 => .error .pastEnd
  | c :: cs, n + 1 =>
    if c.utf8Size ≤ n + 1 then
      (splitAtByte cs (n + 1 - c.utf8Size)).map fun (before, rest) => (c :: before, rest)
    else .error .insideChar

end Text

end Highlighter
