/-
# Spans

A span is a part of a source text together with the byte offset at which it stands.  Offsets
are what a caller sees; inside the library the order of the parts says where each one is.
-/
import Highlighter.Text.Basic

namespace Highlighter

/-- A part of a text and the byte offset of its first character. -/
structure Span where
  offset : Nat
  text : Text
  deriving Repr, DecidableEq

namespace Span

/-- The byte offset just after the span. -/
def stop (s : Span) : Nat := s.offset + s.text.byteSize

/-- The same span, seen from a text in which the span's own text begins at `base`. -/
def shift (base : Nat) (s : Span) : Span := { s with offset := s.offset + base }

/-- The span that `text` makes at `offset` once the blanks around it are taken off, or
nothing if only blanks are there. -/
def trimmed? (offset : Nat) (text : Text) : Option Span :=
  if text.trim.isEmpty then none else some ⟨offset + text.leading.byteSize, text.trim⟩

theorem stop_shift (base : Nat) (s : Span) : (s.shift base).stop = s.stop + base := by
  simp only [stop, shift]
  omega

end Span

end Highlighter
