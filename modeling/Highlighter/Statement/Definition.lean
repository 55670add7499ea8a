/-
# Definitions

`def name(parameters) -> result: body` and `class name(bases): body`.  The pieces are the
keyword, the name with its parameter list, the arrow and the result, the colon, and the body.

The parameter list ends at the last parenthesis of the line after which the rest of the
definition can still be read, and the result is the shortest one.
-/
import Highlighter.Text.Scan
import Highlighter.Tiling

namespace Highlighter.Statement.Definition

/-- The word that begins a function. -/
def defWord : Text := ['d', 'e', 'f']

/-- The word that begins a class. -/
def classWord : Text := ['c', 'l', 'a', 's', 's']

/-- What stands before the result of a function. -/
def arrow : Text := ['-', '>']

/-- Whether a line mentions one of the two words at all. -/
def hintedBy (line : Text) : Bool := Text.occurs defWord line || Text.occurs classWord line

/-- The keyword, and what follows it. -/
def keyword? (text : Text) : Option (Text × Text) :=
  ((Text.after? defWord text).map (defWord, ·)).or
    ((Text.after? classWord text).map (classWord, ·))

/-- The colon, with blanks before and after it, and the body on one line. -/
def suite? (text : Text) : Option Tiling :=
  match Text.trimStart text with
  | ':' :: rest =>
    if Text.oneLine (Text.trimStart rest) then
      some (.gap text.leading (.piece [':'] (.gap (Text.leading rest)
        (.piece (Text.trimStart rest) .empty))))
    else none
  | _ => none

/-- The result and what follows it.  With nothing but blanks before the colon, the last of
them is the result. -/
def result? (text : Text) : Option Tiling :=
  match Text.shortest? suite? text.trimStart with
  | some (result, tail) => some (.gap text.leading (.piece result tail))
  | none => do
    let (before, c, after) ← Text.splitLast? text.leading
    let tail ← suite? (after ++ text.trimStart)
    return .gap before (.piece [c] tail)

/-- What follows the name: the arrow and the result, if they are there, then the colon and
the body. -/
def signatureEnd? (text : Text) : Option Tiling :=
  match Text.after? arrow text.trimStart with
  | some rest => (result? rest).map fun tail => .gap text.leading (.piece arrow tail)
  | none => suite? text

/-- The name with its parameter list, and what follows. -/
def signature? (text : Text) : Option Tiling := do
  let (name, rest) ← Text.word? text
  match rest with
  | '(' :: inner =>
    let (parameters, tail) ← Text.upToLast? ')' signatureEnd? inner
    return .piece (name ++ '(' :: parameters) tail
  | _ =>
    let tail ← signatureEnd? rest
    return .piece name tail

/-- Takes a definition apart. -/
def tiling? (text : Text) : Option Tiling := do
  let (word, rest) ← keyword? text
  let (space, rest) ← Text.blanks? rest
  let tail ← signature? rest
  return .piece word (.gap space tail)

/-! ## Nothing is lost -/

theorem keyword?_eq_some {text word rest : Text} (h : keyword? text = some (word, rest)) :
    text = word ++ rest := by
  rw [keyword?, Option.or_eq_some_iff] at h
  rcases h with h | ⟨_, h⟩
  all_goals
    simp only [Option.map_eq_some_iff, Prod.mk.injEq] at h
    obtain ⟨r, hr, rfl, rfl⟩ := h
    exact Text.after?_eq_some_iff.mp hr

theorem suite?_keeps : Tiling.Keeps suite? := by
  intro text t h
  rw [suite?] at h
  split at h
  · rename_i rest hr
    split at h
    · rw [Option.some.injEq] at h
      rw [← Text.leading_append_trimStart text, hr, ← h]
      simp
    · simp at h
  · simp at h

theorem result?_keeps : Tiling.Keeps result? := by
  intro text t h
  rw [result?] at h
  split at h
  · rename_i result tail hs
    obtain ⟨rest, hrest, htail⟩ := Text.shortest?_eq_some hs
    rw [Option.some.injEq] at h
    rw [← h, Tiling.text_gap, Tiling.text_piece, suite?_keeps _ _ htail, ← hrest,
      Text.leading_append_trimStart]
  · simp only [Option.bind_eq_bind, Option.bind_eq_some_iff, Option.pure_def,
      Option.some.injEq, Prod.exists] at h
    obtain ⟨before, c, after, hlead, tail, htail, rfl⟩ := h
    rw [Tiling.text_gap, Tiling.text_piece, suite?_keeps _ _ htail]
    refine Eq.trans ?_ (Text.leading_append_trimStart text)
    rw [Text.splitLast?_eq_some hlead]
    simp

theorem signatureEnd?_keeps : Tiling.Keeps signatureEnd? := by
  intro text t h
  rw [signatureEnd?] at h
  split at h
  · rename_i rest hr
    rw [Option.map_eq_some_iff] at h
    obtain ⟨tail, htail, rfl⟩ := h
    rw [Tiling.text_gap, Tiling.text_piece, result?_keeps _ _ htail,
      ← Text.after?_eq_some_iff.mp hr, Text.leading_append_trimStart]
  · exact suite?_keeps _ _ h

theorem signature?_keeps : Tiling.Keeps signature? := by
  intro text t h
  simp only [signature?, Option.bind_eq_bind, Option.bind_eq_some_iff, Prod.exists] at h
  obtain ⟨name, rest, hname, h⟩ := h
  rw [Text.word?_eq_some hname]
  split at h
  · simp only [Option.bind_eq_some_iff, Option.pure_def, Option.some.injEq, Prod.exists] at h
    obtain ⟨parameters, tail, hp, rfl⟩ := h
    obtain ⟨r, rfl, htail⟩ := Text.upToLast?_eq_some hp
    simp [signatureEnd?_keeps _ _ htail]
  · simp only [Option.bind_eq_some_iff, Option.pure_def, Option.some.injEq] at h
    obtain ⟨tail, htail, rfl⟩ := h
    simp [signatureEnd?_keeps _ _ htail]

/-- Taking a definition apart keeps its text. -/
theorem keeps : Tiling.Keeps tiling? := by
  intro text t h
  simp only [tiling?, Option.bind_eq_bind, Option.bind_eq_some_iff, Option.pure_def,
    Option.some.injEq, Prod.exists] at h
  obtain ⟨word, r₁, h₁, space, r₂, h₂, tail, htail, rfl⟩ := h
  rw [keyword?_eq_some h₁, Text.blanks?_eq_some h₂, ← signature?_keeps _ _ htail]
  simp

end Highlighter.Statement.Definition
