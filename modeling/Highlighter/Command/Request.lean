/-
# Requests

What the command line can be asked for, and why it may refuse.
-/
import Highlighter.Text.Basic

namespace Highlighter

/-- The two things that the program does with a source. -/
inductive Tool where
  /-- Writes HTML. -/
  | html
  /-- Shows the source in the terminal. -/
  | display
  deriving Repr, DecidableEq

/-- What is asked for. -/
inductive Request where
  /-- Nothing: the program says how it is used. -/
  | usage
  /-- The version of the program, or of one of its tools. -/
  | version (tool? : Option Tool)
  /-- The options of the program, or of one of its tools. -/
  | help (tool? : Option Tool)
  /-- HTML of a source, as a page if `standalone`. -/
  | html (filename : Text) (standalone : Bool) (title? : Option Text)
  /-- A source for the terminal, with colours in any case if `coloured`. -/
  | display (filename : Text) (coloured : Bool)
  deriving Repr, DecidableEq

/-- A request, and whether to log what is done. -/
structure Invocation where
  verbose : Bool
  request : Request
  deriving Repr, DecidableEq

/-- How much is logged. -/
inductive Level where
  /-- Warnings. -/
  | warn
  /-- What is done as well. -/
  | debug
  deriving Repr, DecidableEq

/-- The level that an invocation asks for. -/
def Invocation.level (invocation : Invocation) : Level :=
  if invocation.verbose then .debug else .warn

/-- Why arguments are refused. -/
inductive Rejection where
  /-- There is no such command. -/
  | unknownCommand (name : Text)
  /-- There is no such option. -/
  | unknownOption (name : Text)
  /-- A value is given to an option that takes none. -/
  | unexpectedValue (name : Text)
  /-- No value is given to an option that takes one. -/
  | missingValue (name : Text)
  /-- An option is given twice. -/
  | repeated (name : Text)
  /-- A second file is named. -/
  | extraArgument (text : Text)
  /-- No file is named. -/
  | missingFilename
  deriving Repr, DecidableEq

/-- The refusal in words. -/
def Rejection.message : Rejection → Text
  | unknownCommand name => "unrecognized command ".toList ++ name
  | unknownOption name => "unexpected option ".toList ++ name
  | unexpectedValue name => "no value expected for ".toList ++ name
  | missingValue name => "a value is required for ".toList ++ name
  | repeated name => name ++ " cannot be used multiple times".toList
  | extraArgument text => "unexpected argument ".toList ++ text
  | missingFilename => "a filename is required".toList

end Highlighter
