/-
# Failures to load a source

A source can be missing, unreadable, or no text.  The report names the file and says what
went wrong in words.
-/
import Highlighter.Text.Basic

namespace Highlighter

/-! ## 1. Reports -/

/-- A report that a source could not be loaded. -/
structure SourceError where
  problem : Text
  details : Text
  filename : Text
  deriving Repr, DecidableEq

/-- The report as it is shown: the details, if there are any, stand in parentheses. -/
def SourceError.message (e : SourceError) : Text :=
  let named := e.problem ++ (": ".toList ++ e.filename)
  if e.details.isEmpty then named else named ++ (" (".toList ++ (e.details ++ ")".toList))

/-! ## 2. Causes -/

/-- Why a source could not be loaded. -/
inductive ReadFailure where
  /-- There is no such file. -/
  | notFound
  /-- The contents are not UTF-8. -/
  | invalidData
  /-- The name is that of a directory. -/
  | isDirectory
  /-- The name goes through a file as if it were a directory. -/
  | notDirectory
  /-- The name, or a part of it, is too long. -/
  | invalidName
  /-- The name holds a null character. -/
  | invalidInput
  /-- The file may not be read. -/
  | permissionDenied
  /-- Anything else, in the words of the system. -/
  | other (words : Text)
  deriving Repr, DecidableEq

namespace ReadFailure

/-- What went wrong, in general terms. -/
def problem : ReadFailure → Text
  | notFound => "File not found".toList
  | _ => "Failed reading".toList

/-- What went wrong, in particular.  A missing file needs no explanation. -/
def details : ReadFailure → Text
  | notFound => []
  | invalidData => "invalid data".toList
  | isDirectory => "is a directory".toList
  | notDirectory => "not a directory".toList
  | invalidName => "invalid filename".toList
  | invalidInput => "invalid input parameter".toList
  | permissionDenied => "permission denied".toList
  | other words => words

/-- The report of a failure to load a file. -/
def report (filename : Text) (f : ReadFailure) : SourceError := ⟨f.problem, f.details, filename⟩

end ReadFailure

end Highlighter
