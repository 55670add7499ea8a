/-
# Divisions

A text is divided at separators that stand outside all brackets and literals.  A separator is
dropped into the gap, or it is a piece of its own; what lies between two separators is a piece
once the blanks around it are taken off.

The four divisions in use differ only in what they divide at.
-/
import Highlighter.Tiling
import Highlighter.Context

namespace Highlighter

/-- What a division does at a character outside all brackets and literals. -/
inductive Role where
  /-- The character belongs to a piece. -/
  | content
  /-- The character divides two pieces and is dropped. -/
  | divider
  /-- The character divides two pieces and is a piece itself. -/
  | mark
  deriving Repr, DecidableEq

namespace Division

/-! ## 1. Dividing by role -/

/-- The role of a character in its context: inside brackets and literals all characters are
content. -/
def roleIn (role : Char → Role) (k : Context) (c : Char) : Role :=
  if k.exposes c then role c else .content

/-- A text seen from the left: what stands before its first separator, and the tiling from
that separator on. -/
structure Cut where
  run : Text
  rest : Tiling

/-- The tiling of the whole text. -/
def Cut.tiling (p : Cut) : Tiling := .trimmed p.run p.rest

/-- Puts a character of a given role in front. -/
def Cut.cons (p : Cut) (c : Char) : Role → Cut
  | .content => ⟨c :: p.run, p.rest⟩
  | .divider => ⟨[], .gap [c] p.tiling⟩
  | .mark => ⟨[], .piece [c] p.tiling⟩

/-- Divides a text that is read in a given context. -/
def scan (role : Char → Role) (k : Context) : Text → Cut
  | [] => ⟨[], .empty⟩
  | c :: cs => (scan role (k.read c) cs).cons c (roleIn role k c)

/-- Divides a text. -/
def along (role : Char → Role) (t : Text) : Tiling := (scan role .start t).tiling

@[simp] theorem Cut.text_tiling (p : Cut) : p.tiling.text = p.run ++ p.rest.text := by
  simp [tiling]

@[simp] theorem Cut.text_tiling_cons (p : Cut) (c : Char) (r : Role) :
    (p.cons c r).tiling.text = c :: p.tiling.text := by
  cases r <;> simp [Cut.cons]

@[simp] theorem text_tiling_scan (role : Char → Role) (k : Context) (t : Text) :
    (scan role k t).tiling.text = t := by
  induction t generalizing k with
  | nil => rfl
  | cons c cs ih => rw [scan, Cut.text_tiling_cons, ih]

/-- A division keeps the whole text. -/
@[simp] theorem text_along (role : Char → Role) (t : Text) : (along role t).text = t :=
  text_tiling_scan role .start t

/-! ## 2. The divisions in use -/

/-- The words and colons of a line: blanks divide, and every colon is a piece. -/
def wordsAndColons : Text → Tiling :=
  along fun c => if c = ':' then .mark else if isBlank c then .divider else .content

/-- The words and commas of a list of names: blanks divide, and every comma is a piece. -/
def wordsAndCommas : Text → Tiling :=
  along fun c => if c = ',' then .mark else if isBlank c then .divider else .content

/-- The items and commas of a list: every comma is a piece, and nothing else divides. -/
def itemsAndCommas : Text → Tiling :=
  along fun c => if c = ',' then .mark else .content

/-- The words of a phrase: blanks, commas and colons divide. -/
def wordsOnly : Text → Tiling :=
  along fun c => if c = ',' || c = ':' || isBlank c then .divider else .content

end Division

end Highlighter
