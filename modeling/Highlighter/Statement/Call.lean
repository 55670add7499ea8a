/-
# Call statements

`a.b(arguments) rest`: a dotted name, a parenthesis, and everything up to the last closing
parenthesis of the line make up the call, and what follows is one more piece.
-/
import Highlighter.Lexeme
import Highlighter.Text.Scan
import Highlighter.Tiling

namespace Highlighter.Statement.Call

/-- What follows the parenthesis after the dotted name that a text begins with, and that
name. -/
def head? (text : Text) : Option (Text × Text) := do
  let (path, rest) ← Name.path? text
  let inner ← Text.after? ['('] rest
  return (path, inner)

/-- Whether a line begins with a dotted name and a parenthesis, and has a closing one before
the first line break. -/
def hintedBy (line : Text) : Bool :=
  match head? line with
  | none => false
  | some (_, inner) => (inner.takeWhile (· != '\n')).contains ')'

/-- What follows a call, on one line but for the blanks in front. -/
def remainder? (text : Text) : Option Tiling :=
  if Text.oneLine text.trimStart then
    some (.gap text.leading (.piece text.trimStart .empty))
  else none

/-- Takes a call statement apart. -/
def tiling? (text : Text) : Option Tiling := do
  let (path, inner) ← head? text
  let (arguments, tail) ← Text.upToLast? ')' remainder? inner
  return .piece (path ++ '(' :: arguments) tail

theorem head?_eq_some {text path inner : Text} (h : head? text = some (path, inner)) :
    text = path ++ '(' :: inner := by
  simp only [head?, Option.bind_eq_bind, Option.bind_eq_some_iff, Option.pure_def,
    Option.some.injEq, Prod.exists, Prod.mk.injEq] at h
  obtain ⟨p, rest, hp, i, hi, rfl, rfl⟩ := h
  rw [Name.path?_eq_some hp, Text.after?_eq_some_iff.mp hi]
  rfl

theorem remainder?_keeps : Tiling.Keeps remainder? := by
  intro text t h
  rw [remainder?] at h
  split at h
  · rw [Option.some.injEq] at h
    rw [← h]
    simp
  · simp at h

/-- Taking a call statement apart keeps its text. -/
theorem keeps : Tiling.Keeps tiling? := by
  intro text t h
  simp only [tiling?, Option.bind_eq_bind, Option.bind_eq_some_iff, Option.pure_def,
    Option.some.injEq, Prod.exists] at h
  obtain ⟨path, inner, hhead, arguments, tail, ha, rfl⟩ := h
  obtain ⟨rest, rfl, htail⟩ := Text.upToLast?_eq_some ha
  rw [head?_eq_some hhead, ← remainder?_keeps _ _ htail]
  simp

end Highlighter.Statement.Call
