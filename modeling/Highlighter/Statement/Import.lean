/-
# Import statements

`import a, b as c` and `from m import (a, b)`.  The keywords, the module and every imported
word are pieces; so are the commas, and the brackets around a parenthesised list.
-/
import Highlighter.Division
import Highlighter.Text.Scan

namespace Highlighter.Statement.Import

/-- The word that both forms of the statement hold. -/
def importWord : Text := ['i', 'm', 'p', 'o', 'r', 't']

/-- The word that the second form begins with. -/
def fromWord : Text := ['f', 'r', 'o', 'm']

/-- Whether a line mentions one of the two words at all. -/
def hintedBy (line : Text) : Bool := Text.occurs importWord line || Text.occurs fromWord line

/-- The imported names.  One pair of parentheses around all of them is broken off. -/
def names (text : Text) : Tiling :=
  match bracketed? text with
  | some b =>
    if b.opener = '(' then
      .piece [b.opener] ((Division.wordsAndCommas b.body).append (.piece [b.closer] .empty))
    else Division.wordsAndCommas text
  | none => Division.wordsAndCommas text

/-- What follows the word `import`: blanks, then the names on one line. -/
def namesAfter? (text : Text) : Option Tiling :=
  match Text.blanks? text with
  | some (space, c :: cs) =>
    if Text.oneLine (c :: cs) then some (.gap space (names (c :: cs))) else none
  | _ => none

/-- The statement without a module. -/
def direct? (text : Text) : Option Tiling := do
  let rest ← Text.after? importWord text
  let tail ← namesAfter? rest
  return .piece importWord tail

/-- The statement with a module. -/
def fromModule? (text : Text) : Option Tiling := do
  let rest ← Text.after? fromWord text
  let (space, rest) ← Text.blanks? rest
  let (source, rest) ← Text.run? isWordOrDot rest
  let (space', rest) ← Text.blanks? rest
  let tail ← direct? rest
  return .piece fromWord (.gap space (.piece source (.gap space' tail)))

/-- Takes an import statement apart. -/
def tiling? (text : Text) : Option Tiling := (direct? text).or (fromModule? text)

@[simp] theorem text_names (text : Text) : (names text).text = text := by
  rw [names]
  split
  · rename_i b h
    split
    · rw [bracketed?_eq_some h]
      simp [Bracketed.text, Division.wordsAndCommas]
    · exact Division.text_along _ text
  · exact Division.text_along _ text

theorem namesAfter?_keeps : Tiling.Keeps namesAfter? := by
  intro text t h
  rw [namesAfter?] at h
  split at h
  · rename_i space c cs hs
    split at h
    · rw [Option.some.injEq] at h
      rw [Text.blanks?_eq_some hs, ← h]
      simp
    · simp at h
  · simp at h

theorem direct?_keeps : Tiling.Keeps direct? := by
  intro text t h
  simp only [direct?, Option.bind_eq_bind, Option.bind_eq_some_iff, Option.pure_def,
    Option.some.injEq] at h
  obtain ⟨rest, hrest, tail, htail, rfl⟩ := h
  rw [Text.after?_eq_some_iff.mp hrest, Tiling.text_piece, namesAfter?_keeps _ _ htail]

theorem fromModule?_keeps : Tiling.Keeps fromModule? := by
  intro text t h
  simp only [fromModule?, Option.bind_eq_bind, Option.bind_eq_some_iff, Option.pure_def,
    Option.some.injEq, Prod.exists] at h
  obtain ⟨r₁, h₁, space, r₂, h₂, source, r₃, h₃, space', r₄, h₄, tail, htail, rfl⟩ := h
  rw [Text.after?_eq_some_iff.mp h₁, Text.blanks?_eq_some h₂, Text.run?_eq_some h₃,
    Text.blanks?_eq_some h₄, ← direct?_keeps _ _ htail]
  simp

/-- Taking an import statement apart keeps its text. -/
theorem keeps : Tiling.Keeps tiling? := by
  intro text t h
  rw [tiling?, Option.or_eq_some_iff] at h
  rcases h with h | ⟨_, h⟩
  · exact direct?_keeps _ _ h
  · exact fromModule?_keeps _ _ h

end Highlighter.Statement.Import
