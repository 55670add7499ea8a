/-
# Lexemes

The texts that are a single lexeme: a dotted name, a decimal number, a quoted literal.
-/
import Highlighter.Text.Basic

namespace Highlighter

/-! ## 1. Names -/

namespace Name

/-- Whether a text is a name: word characters, of which there is one at least. -/
def isName (t : Text) : Bool := !t.isEmpty && t.all isWord

/-- Whether a text is a sequence of names with one dot between neighbours. -/
def isPath (t : Text) : Bool := (Text.split '.' t).all isName

/-- The dotted name that a text begins with, and what follows it.  What follows cannot begin
with a dot. -/
def path? (t : Text) : Option (Text × Text) :=
  let path := t.takeWhile isWordOrDot
  if isPath path then some (path, t.dropWhile isWordOrDot) else none

theorem path?_eq_some {t path rest : Text} (h : path? t = some (path, rest)) :
    t = path ++ rest := by
  simp only [path?] at h
  split at h
  · simp only [Option.some.injEq, Prod.mk.injEq] at h
    rw [← h.1, ← h.2, List.takeWhile_append_dropWhile]
  · simp at h

theorem isPath_of_path? {t path rest : Text} (h : path? t = some (path, rest)) :
    isPath path = true := by
  simp only [path?] at h
  split at h
  · rename_i hpath
    simp only [Option.some.injEq, Prod.mk.injEq] at h
    rw [← h.1]
    exact hpath
  · simp at h

/-- Whether a text is a name, or a name with one dot in front of it or inside it. -/
def isField (t : Text) : Bool :=
  match t.dropWhile isWord with
  | [] => !t.isEmpty
  | c :: cs => c == '.' && isName cs

end Name

/-! ## 2. Numbers -/

namespace Number

/-- Whether a text is a row of decimal digits, of which there is one at least. -/
def isDigits (t : Text) : Bool := !t.isEmpty && t.all Char.isDigit

/-- Whether a text is digits, or digits, a point and digits. -/
def isUnsigned (t : Text) : Bool :=
  match t.dropWhile Char.isDigit with
  | [] => !t.isEmpty
  | c :: cs => c == '.' && isDigits (t.takeWhile Char.isDigit) && isDigits cs

/-- Whether a text is a decimal number, with a minus sign or without. -/
def isNumber : Text → Bool
  | '-' :: cs => isUnsigned cs
  | cs => isUnsigned cs

end Number

/-! ## 3. String literals -/

namespace Literal

/-- Whether the first `mark` that no backslash escapes is the last character of the text. -/
def endsAt (mark : Char) : Text → Bool
  | [] => false
  | '\\' :: _ :: cs => endsAt mark cs
  | c :: cs => if c = mark then cs.isEmpty else endsAt mark cs

/-- Whether a text is one complete quoted literal. -/
def isLiteral : Text → Bool
  | [] => false
  | c :: cs => isQuote c && endsAt c cs

end Literal

end Highlighter
