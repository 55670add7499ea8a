/-
# What the program answers

An outcome is the exit status, what is written to standard output and what the program complains
about.  Output is all or nothing: if the arguments are refused or the source cannot be loaded,
nothing is written to standard output.

The log that `verbose` asks for goes to standard error like a complaint, but is no part of an
outcome: the program sets its level, and the system keeps it.
-/
import Highlighter.Command.Arguments
import Highlighter.Page
import Highlighter.Render.Terminal
import Highlighter.Source.Loading

namespace Highlighter

/-- Why the program gives no answer. -/
inductive Complaint where
  /-- The arguments were refused. -/
  | refused (cause : Rejection)
  /-- The source could not be loaded. -/
  | unloaded (report : SourceError)
  deriving Repr, DecidableEq

namespace Complaint

/-- The word that begins the report of a failure to load a source, in red. -/
def errorLabel : Text := '\x1b' :: "[91merror\x1b[39m: ".toList

/-- The complaint in words. -/
def text : Complaint → Text
  | refused cause => "error: ".toList ++ cause.message
  | unloaded report => errorLabel ++ report.message

end Complaint

/-- The result of running the program. -/
structure Outcome where
  status : Nat
  output : Text
  complaint? : Option Complaint
  deriving Repr, DecidableEq

namespace Outcome

/-- All went well. -/
def success (output : Text) : Outcome := ⟨0, output, none⟩

/-- A source could not be loaded. -/
def failure (report : SourceError) : Outcome := ⟨1, [], some (.unloaded report)⟩

/-- The arguments were refused. -/
def refusal (cause : Rejection) : Outcome := ⟨2, [], some (.refused cause)⟩

end Outcome

namespace Command

/-! ## 1. Fixed answers -/

/-- The name of the program, or of one of its tools. -/
def name : Option Tool → Text
  | none => "pyhighlight".toList
  | some .html => "pyhighlight-html".toList
  | some .display => "pyhighlight-show".toList

/-- The line that tells the version. -/
def version (tool? : Option Tool) : Text := name tool? ++ " v0.1.0\n".toList

/-- The lines that say how the program is used. -/
def usage : Text :=
  "usage: pyhighlight [COMMAND] ...\nTry '--help' for more information.\n".toList

/-- The lines that say what the argument of a tool is. -/
def filenameHelp : Text :=
  "Arguments:\n".toList ++
  "  <filename>  The file containing the Python code to highlight, or - for ".toList ++
  "standard input.\n\n".toList

/-- The lines that list the options. -/
def help : Option Tool → Text
  | none =>
    "Syntax highlighting for Python source.\n\n".toList ++
    "Usage: pyhighlight [OPTIONS] [COMMAND]\n\n".toList ++
    "Commands:\n".toList ++
    "  html  Render the given Python file as HTML\n".toList ++
    "  show  Display the given Python file with syntax highlighting\n\n".toList ++
    "Options:\n".toList ++
    "  -v, --verbose  Log details of classification to standard error.\n".toList ++
    "  -h, --help     Print help\n".toList ++
    "  -V, --version  Print version\n".toList
  | some .html =>
    "Render the given Python file as HTML\n\n".toList ++
    "Usage: pyhighlight html [OPTIONS] <filename>\n\n".toList ++
    filenameHelp ++
    "Options:\n".toList ++
    "  -s, --standalone     Emit a complete HTML page with stylesheet rather than just ".toList ++
    "the highlighted markup.\n".toList ++
    "      --title <title>  Title for the standalone page. Defaults to the filename.\n".toList ++
    "  -v, --verbose        Log details of classification to standard error.\n".toList ++
    "  -h, --help           Print help\n".toList ++
    "  -V, --version        Print version\n".toList
  | some .display =>
    "Display the given Python file with syntax highlighting\n\n".toList ++
    "Usage: pyhighlight show [OPTIONS] <filename>\n\n".toList ++
    filenameHelp ++
    "Options:\n".toList ++
    "  -R, --raw-control-chars  Emit ANSI escape codes for syntax highlighting even if ".toList ++
    "output is redirected to a pipe or file.\n".toList ++
    "  -v, --verbose            Log details of classification to standard error.\n".toList ++
    "  -h, --help               Print help\n".toList ++
    "  -V, --version            Print version\n".toList

/-! ## 2. Answers from a source -/

/-- The file whose contents a request needs. -/
def filename? : Request → Option Text
  | .usage | .version _ | .help _ => none
  | .html filename _ _ => some filename
  | .display filename _ => some filename

/-- What is written for a request, given its source.  Colours are shown on a terminal without
being asked for. -/
def output (terminal : Bool) (source : Text) : Request → Text
  | .usage => usage
  | .version tool? => version tool?
  | .help tool? => help tool?
  | .html filename standalone title? =>
    (if standalone then page (title?.getD filename) source else bareHtml source) ++ ['\n']
  | .display _ coloured =>
    if coloured || terminal then Renderer.terminal.render source else Renderer.plain.render source

/-- The outcome of a request, given what became of loading its source. -/
def answer (terminal : Bool) (source : Except SourceError Text) (request : Request) : Outcome :=
  match source with
  | .ok source => .success (output terminal source request)
  | .error e => .failure e

/-! ## 3. The whole program -/

/-- What the program has to ask the system for: to log at a level, the contents of a file, those of
standard input, and whether standard output is a terminal. -/
structure System (m : Type → Type) where
  logAt : Level → m Unit
  read : Text → m (Except ReadFailure ByteArray)
  input : m (Except ReadFailure ByteArray)
  terminal : m Bool

section

variable {m : Type → Type} [Monad m]

/-- The contents that a file name stands for, which are those of standard input for a dash. -/
def System.contents (system : System m) (filename : Text) : m (Except ReadFailure ByteArray) :=
  if filename = ['-'] then system.input else system.read filename

/-- The source of a request, which is empty for those that need none. -/
def System.sourceOf (system : System m) (request : Request) : m (Except SourceError Text) :=
  match filename? request with
  | some filename => return loaded filename (← system.contents filename)
  | none => return .ok []

/-- Runs the program on a system. -/
def perform (system : System m) (args : List Text) : m Outcome :=
  match Invocation.ofArguments args with
  | .error cause => return .refusal cause
  | .ok invocation => do
    system.logAt invocation.level
    let source ← system.sourceOf invocation.request
    return answer (← system.terminal) source invocation.request

end

/-- Where the program is run: the answers that the system gives. -/
structure Setting where
  read : Text → Except ReadFailure ByteArray
  input : Except ReadFailure ByteArray
  terminal : Bool

/-- The system that gives these answers, and logs nothing. -/
def Setting.system (s : Setting) (m : Type → Type) [Monad m] : System m :=
  ⟨fun _ => pure (), fun filename => pure (s.read filename), pure s.input, pure s.terminal⟩

/-- The outcome of the program in a setting. -/
def run (s : Setting) (args : List Text) : Outcome := (perform (s.system Id) args).run

end Command

end Highlighter
