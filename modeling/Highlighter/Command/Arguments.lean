/-
# Reading the command line

The arguments are read from left to right, first those of the program and, from the name of a
tool on, those of the tool.  The first thing that settles the matter wins: a mistake, or an
option that asks for the version or for help.

Options may stand before and after the file name; short ones can be written together; a
double dash ends them; and a single dash is a file name.
-/
import Highlighter.Command.Request

namespace Highlighter

/-! ## 1. Options -/

/-- An option that is either given or not. -/
inductive Flag where
  | verbose
  | standalone
  | coloured
  deriving Repr, DecidableEq

namespace Flag

/-- The letter of the option. -/
def letter : Flag → Char
  | verbose => 'v'
  | standalone => 's'
  | coloured => 'R'

/-- The name of the option. -/
def name : Flag → Text
  | verbose => "verbose".toList
  | standalone => "standalone".toList
  | coloured => "raw-control-chars".toList

/-- The flags of the program, or of one of its tools. -/
def of : Option Tool → List Flag
  | none => [verbose]
  | some .html => [verbose, standalone]
  | some .display => [verbose, coloured]

end Flag

/-- The tool that a word names. -/
def Tool.ofName? (name : Text) : Option Tool :=
  if name = "html".toList then some .html
  else if name = "show".toList then some .display
  else none

/-- What has been given so far to the program, or to one of its tools. -/
structure Given where
  flags : List Flag
  title? : Option Text
  filename? : Option Text
  deriving Repr, DecidableEq

/-- What ends the reading of arguments early. -/
inductive Stop where
  /-- The arguments are refused. -/
  | rejected (cause : Rejection)
  /-- The version is asked for. -/
  | version
  /-- Help is asked for. -/
  | help
  deriving Repr, DecidableEq

namespace Given

/-- Nothing has been given. -/
def nothing : Given := ⟨[], none, none⟩

/-- Gives a flag, which can be given once. -/
def addFlag (g : Given) (f : Flag) : Except Stop Given :=
  if f ∈ g.flags then .error (.rejected (.repeated f.name))
  else .ok { g with flags := f :: g.flags }

/-- Gives a title, which can be given once. -/
def addTitle (g : Given) (title : Text) : Except Stop Given :=
  if g.title?.isSome then .error (.rejected (.repeated "title".toList))
  else .ok { g with title? := some title }

/-- Names the file, which can be done once. -/
def addFilename (g : Given) (filename : Text) : Except Stop Given :=
  if g.filename?.isSome then .error (.rejected (.extraArgument filename))
  else .ok { g with filename? := some filename }

/-- Reads options that are written as letters after one dash. -/
def addLetters (tool? : Option Tool) (g : Given) : Text → Except Stop Given
  | [] => .ok g
  | c :: cs =>
    if c = 'V' then .error .version
    else if c = 'h' then .error .help
    else match (Flag.of tool?).find? (·.letter = c) with
      | none => .error (.rejected (.unknownOption [c]))
      | some f =>
        match g.addFlag f with
        | .ok g => addLetters tool? g cs
        | .error e => .error e

/-- Reads an option that is written as a name, with the value it came with.  The title is an
option of the HTML tool, and needs that value. -/
def addNamed (tool? : Option Tool) (g : Given) (name : Text) (value? : Option Text) :
    Except Stop Given :=
  if tool? = some .html && name = "title".toList then
    match value? with
    | some value => g.addTitle value
    | none => .error (.rejected (.missingValue name))
  else
    let flag? := (Flag.of tool?).find? (·.name = name)
    let known := name = "version".toList || name = "help".toList || flag?.isSome
    if !known then .error (.rejected (.unknownOption name))
    else if value?.isSome then .error (.rejected (.unexpectedValue name))
    else match flag? with
      | some f => g.addFlag f
      | none => .error (if name = "version".toList then .version else .help)

/-- Divides an option at its first equals sign into its name and its value. -/
def nameAndValue (option : Text) : Text × Option Text :=
  match option.dropWhile (· != '=') with
  | [] => (option, none)
  | _ :: value => (option.takeWhile (· != '='), some value)

/-- Whether an argument can be the value of the option before it: it does not begin with a
dash, unless it is a single one. -/
def isValue : Text → Bool
  | '-' :: rest => rest.isEmpty
  | _ => true

/-- Reads arguments that are no options, whatever they look like. -/
def addFilenames : Given → List Text → Except Stop Given
  | g, [] => .ok g
  | g, arg :: rest =>
    match g.addFilename arg with
    | .ok g => addFilenames g rest
    | .error e => .error e

/-- Reads the arguments of a tool. -/
def addAll (tool : Tool) : Given → List Text → Except Stop Given
  | g, [] => .ok g
  | g, ['-', '-'] :: rest => g.addFilenames rest
  | g, ('-' :: '-' :: option) :: rest =>
    match nameAndValue option, rest with
    | (name, none), value :: rest' =>
      if tool = .html && name = "title".toList && isValue value then
        match g.addTitle value with
        | .ok g => addAll tool g rest'
        | .error e => .error e
      else
        match g.addNamed tool name none with
        | .ok g => addAll tool g (value :: rest')
        | .error e => .error e
    | (name, value?), rest =>
      match g.addNamed tool name value? with
      | .ok g => addAll tool g rest
      | .error e => .error e
  | g, ('-' :: c :: letters) :: rest =>
    match g.addLetters tool (c :: letters) with
    | .ok g => addAll tool g rest
    | .error e => .error e
  | g, arg :: rest =>
    match g.addFilename arg with
    | .ok g => addAll tool g rest
    | .error e => .error e

end Given

/-! ## 2. From arguments to a request -/

/-- The request that the arguments given to a tool make.  A file has to be named. -/
def Tool.request (tool : Tool) (g : Given) : Except Rejection Request :=
  match g.filename?, tool with
  | none, _ => .error .missingFilename
  | some filename, .html => .ok (.html filename (.standalone ∈ g.flags) g.title?)
  | some filename, .display => .ok (.display filename (.coloured ∈ g.flags))

/-- What the early end of the arguments comes to. -/
def Stop.request (tool? : Option Tool) : Stop → Except Rejection Request
  | .rejected cause => .error cause
  | .version => .ok (.version tool?)
  | .help => .ok (.help tool?)

namespace Invocation

/-- Reads the arguments of a tool, after those of the program. -/
def ofTool (tool : Tool) (before : Given) (args : List Text) : Except Rejection Invocation :=
  match Given.nothing.addAll tool args with
  | .ok g =>
    (tool.request g).map fun request =>
      ⟨.verbose ∈ before.flags || .verbose ∈ g.flags, request⟩
  | .error stop => (stop.request (some tool)).map fun request => ⟨false, request⟩

/-- Goes on with the arguments of the program, or ends early. -/
def orStop (next : Given → Except Rejection Invocation) :
    Except Stop Given → Except Rejection Invocation
  | .ok g => next g
  | .error stop => (stop.request none).map fun request => ⟨false, request⟩

/-- Reads the arguments of the program.  It has no file names of its own, so after a double
dash nothing may follow. -/
def ofProgram : Given → List Text → Except Rejection Invocation
  | g, [] => .ok ⟨.verbose ∈ g.flags, .usage⟩
  | g, [['-', '-']] => .ok ⟨.verbose ∈ g.flags, .usage⟩
  | _, ['-', '-'] :: arg :: _ => .error (.extraArgument arg)
  | g, ('-' :: '-' :: option) :: rest =>
    let (name, value?) := Given.nameAndValue option
    orStop (fun g => ofProgram g rest) (g.addNamed none name value?)
  | g, ('-' :: c :: letters) :: rest =>
    orStop (fun g => ofProgram g rest) (g.addLetters none (c :: letters))
  | g, arg :: rest =>
    match Tool.ofName? arg with
    | some tool => ofTool tool g rest
    | none => .error (.unknownCommand arg)

/-- Reads a command line. -/
def ofArguments (args : List Text) : Except Rejection Invocation := ofProgram .nothing args

end Invocation

end Highlighter
