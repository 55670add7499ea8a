/-
# Conditionals

`if condition:`, where the colon ends the line.
-/
import Highlighter.Text.Scan
import Highlighter.Tiling

namespace Highlighter.Statement.Conditional

/-- The word that begins a conditional. -/
def ifWord : Text := ['i', 'f']

/-- Whether a line is one line, begins with the whole word `if` and ends in a colon. -/
def hintedBy (line : Text) : Bool :=
  match Text.after? ifWord line with
  | none => false
  | some rest =>
    !(rest.head?.any isWord) && Text.oneLine rest && (Text.endingIn? ':' rest).isSome

/-- Takes a conditional apart. -/
def tiling? (text : Text) : Option Tiling := do
  let rest ← Text.after? ifWord text
  let (space, rest) ← Text.blanks? rest
  let condition ← Text.endingIn? ':' rest
  if Text.oneLine condition.trimEnd then
    return .piece ifWord (.gap space (.piece condition.trimEnd
      (.gap condition.trailing (.piece [':'] .empty))))
  else none

/-- Taking a conditional apart keeps its text. -/
theorem keeps : Tiling.Keeps tiling? := by
  intro text t h
  simp only [tiling?, Option.bind_eq_bind, Option.bind_eq_some_iff, Prod.exists] at h
  obtain ⟨r₁, h₁, space, r₂, h₂, condition, hc, h⟩ := h
  rw [Text.after?_eq_some_iff.mp h₁, Text.blanks?_eq_some h₂, Text.endingIn?_eq_some hc]
  split at h
  · simp only [Option.pure_def, Option.some.injEq] at h
    rw [← h]
    simp only [Tiling.text_piece, Tiling.text_gap, Tiling.text_empty, List.append_nil]
    rw [← List.append_assoc condition.trimEnd, Text.trimEnd_append_trailing]
  · simp at h

end Highlighter.Statement.Conditional
