/-
# Loading a source

A source is loaded as a text: its bytes are read as UTF-8 and kept exactly, whatever
characters they stand for.
-/
import Highlighter.Source.Failure

namespace Highlighter

/-- The text that bytes stand for. -/
def decode (bytes : ByteArray) : Except ReadFailure Text :=
  match String.fromUTF8? bytes with
  | some s => .ok s.toList
  | none => .error .invalidData

/-- What became of reading a file, as a text or as a report. -/
def loaded (filename : Text) (bytes : Except ReadFailure ByteArray) : Except SourceError Text :=
  (bytes.bind decode).mapError (·.report filename)

end Highlighter
