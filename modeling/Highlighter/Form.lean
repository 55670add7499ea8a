/-
# The form of a piece

A piece without blanks around it is a word of the vocabulary, a call, a literal, a number, a
container, a name, or a phrase of several words.  Only calls, containers and phrases have
parts of their own; every other piece is an atom with a category.
-/
import Highlighter.Category
import Highlighter.Division
import Highlighter.Lexeme

namespace Highlighter

/-- How a piece is built. -/
inductive Form where
  /-- A piece that is highlighted as a whole. -/
  | atom (category : Category)
  /-- A dotted name and the bracketed group of its arguments. -/
  | call (path : Text) (group : Bracketed)
  /-- One bracketed group. -/
  | container (group : Bracketed)
  /-- Several words with separators between them. -/
  | phrase (parts : Tiling)
  deriving Repr, DecidableEq

namespace Form

/-- The dotted name and the bracketed group that a text consists of, if it is a call. -/
def call? (text : Text) : Option (Text × Bracketed) := do
  let (path, rest) ← Name.path? text
  let group ← bracketed? rest
  if group.opener = '(' then some (path, group) else none

/-- Whether a tiling has one piece that is the whole of a text, or no piece at all. -/
def isWhole (text : Text) (parts : Tiling) : Bool :=
  match parts.bodies with
  | [] => true
  | [only] => only == text
  | _ :: _ :: _ => false

/-- The form of a text that is no other form: a phrase, if its words are smaller than the
text. -/
def ofWords (text : Text) : Form :=
  let parts := Division.wordsOnly text
  if isWhole text parts then .atom .default else .phrase parts

/-- The form of a piece that has no blanks around it. -/
def of (text : Text) : Form :=
  if Vocabulary.isKeyword text then .atom .keyword
  else if Vocabulary.isOperator text then .atom .operator
  else match call? text with
    | some (path, group) => .call path group
    | none =>
      if Literal.isLiteral text then .atom .string
      else if Number.isNumber text then .atom .numeric
      else match bracketed? text with
        | some group => .container group
        | none => if Name.isField text then .atom .default else ofWords text

end Form

end Highlighter
