/-
# Assignments

`name = value` and `name.field = value`, with blanks on both sides of the sign.
-/
import Highlighter.Text.Scan
import Highlighter.Tiling

namespace Highlighter.Statement.Assignment

/-- Whether a line has somewhere a word character, one blank, an equals sign and one blank. -/
def hintedBy : Text → Bool
  | a :: b :: c :: d :: rest =>
    (isWord a && isBlank b && c == '=' && isBlank d) || hintedBy (b :: c :: d :: rest)
  | _ => false

/-- The name that is assigned to, with one field at most, and what follows it. -/
def target? (text : Text) : Option (Text × Text) := do
  let (name, rest) ← Text.word? text
  match rest with
  | '.' :: more =>
    let (field, rest) ← Text.word? more
    return (name ++ '.' :: field, rest)
  | _ => return (name, rest)

/-- What follows the sign: blanks, then the value on one line.  Where there are only blanks,
two at least, the last one is the value. -/
def value? (text : Text) : Option Tiling :=
  match Text.blanks? text with
  | none => none
  | some (space, c :: cs) =>
    if Text.oneLine (c :: cs) then some (.gap space (.piece (c :: cs) .empty)) else none
  | some (space, []) =>
    match Text.splitLast? space with
    | some (b :: before, d, []) => some (.gap (b :: before) (.piece [d] .empty))
    | _ => none

/-- Takes an assignment apart. -/
def tiling? (text : Text) : Option Tiling := do
  let (target, rest) ← target? text
  let (space, rest) ← Text.blanks? rest
  let rest ← Text.after? ['='] rest
  let tail ← value? rest
  return .piece target (.gap space (.piece ['='] tail))

theorem target?_eq_some {text target rest : Text} (h : target? text = some (target, rest)) :
    text = target ++ rest := by
  simp only [target?, Option.bind_eq_bind, Option.bind_eq_some_iff, Prod.exists] at h
  obtain ⟨name, r, hname, h⟩ := h
  rw [Text.word?_eq_some hname]
  split at h
  · simp only [Option.bind_eq_some_iff, Option.pure_def, Option.some.injEq, Prod.exists,
      Prod.mk.injEq] at h
    obtain ⟨field, r', hfield, rfl, rfl⟩ := h
    simp [Text.word?_eq_some hfield]
  · simp only [Option.pure_def, Option.some.injEq, Prod.mk.injEq] at h
    rw [h.1, h.2]

theorem value?_keeps : Tiling.Keeps value? := by
  intro text t h
  rw [value?] at h
  split at h
  · simp at h
  · rename_i space c cs hs
    split at h
    · rw [Option.some.injEq] at h
      rw [Text.blanks?_eq_some hs, ← h]
      simp
    · simp at h
  · rename_i space hs
    split at h
    · rename_i b before d hl
      rw [Option.some.injEq] at h
      rw [Text.blanks?_eq_some hs, Text.splitLast?_eq_some hl, ← h]
      simp
    · simp at h

/-- Taking an assignment apart keeps its text. -/
theorem keeps : Tiling.Keeps tiling? := by
  intro text t h
  simp only [tiling?, Option.bind_eq_bind, Option.bind_eq_some_iff, Option.pure_def,
    Option.some.injEq, Prod.exists] at h
  obtain ⟨target, r₁, h₁, space, r₂, h₂, r₃, h₃, tail, htail, rfl⟩ := h
  rw [target?_eq_some h₁, Text.blanks?_eq_some h₂, Text.after?_eq_some_iff.mp h₃,
    ← value?_keeps _ _ htail]
  simp

end Highlighter.Statement.Assignment
