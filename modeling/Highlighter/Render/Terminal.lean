/-
# Rendering for a terminal

Categories become colours, set and cleared by control sequences.  The content of a group may
hold coloured parts already, each of which clears the colour at its end; so the colour of the
group is set anew for every run of text between two clearings.
-/
import Highlighter.Render.Basic

namespace Highlighter

/-- A colour, by its red, green and blue components. -/
structure Colour where
  red : Nat
  green : Nat
  blue : Nat
  deriving Repr, DecidableEq

namespace Terminal

/-- The sequence that clears the colour. -/
def reset : Text := ['\x1b', '[', '0', 'm']

/-- The sequence that sets bold text of a colour. -/
def setColour (colour : Colour) : Text :=
  '\x1b' :: "[38;2;".toList ++ Nat.toDigits 10 colour.red ++ ';' :: Nat.toDigits 10 colour.green
    ++ ';' :: Nat.toDigits 10 colour.blue ++ ";1m".toList

/-- The colour of a category.  What has none shows the colour around it. -/
def colour? : Category → Option Colour
  | .neutral | .indent | .newline | .default => none
  | .primitive => some ⟨143, 89, 2⟩
  | .numeric => some ⟨173, 127, 168⟩
  | .keyword => some ⟨117, 80, 123⟩
  | .operator => some ⟨204, 0, 0⟩
  | .function => some ⟨52, 101, 164⟩
  | .string => some ⟨78, 154, 6⟩

/-- The runs of text between the places where the colour is cleared. -/
def runs : Text → List Text
  | [] => [[]]
  | '\x1b' :: '[' :: '0' :: 'm' :: rest => [] :: runs rest
  | c :: rest => (runs rest).modifyHead (c :: ·)

/-- One run of text in a colour.  Nothing is written for an empty one. -/
def tintRun (colour : Colour) (run : Text) : Text :=
  if run.isEmpty then [] else setColour colour ++ run ++ reset

/-- Writes content in a colour. -/
def tint (colour : Colour) (content : Text) : Text := (runs content).flatMap (tintRun colour)

/-- Dresses content for a category. -/
def dress (c : Category) (content : Text) : Text :=
  match c with
  | .newline => ['\n']
  | _ =>
    match colour? c with
    | some colour => tint colour content
    | none => content

end Terminal

/-- The renderer for a terminal.  Source text is written as it is. -/
def Renderer.terminal : Renderer := ⟨id, Terminal.dress⟩

end Highlighter
