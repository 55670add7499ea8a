/-
# Plain output is a normal form

The plain renderer writes each line as its indentation and its core, followed by a line break.
Other blanks around a line are gone, and so are those between its indentation and its core.
Highlighting does not see the difference: what is plain output is marked like the text it was
made from, with one empty line more, since plain output ends in a line break.

* `Text.lines_flatten`: lines put together are cut apart again;
* `Text.indent_normalLine`, `Text.trim_normalLine`: a line in its normal form has the
  indentation and the core that it had.  Only spaces are indentation, but every kind of blank is
  taken off around a core, so neither follows from the other;
* `render_plain_eq_flatten`: the normal form of a text, from the losslessness of the markup.
-/
import Highlighter.Proofs.TerminalReading

namespace Highlighter

namespace Text

/-! ## 1. Lines that are put together -/

/-- **Lines that are put together**, each with a line break, are cut apart again.  The last line
break begins an empty line. -/
theorem lines_flatten {ls : List Text} (h : ∀ l ∈ ls, '\n' ∉ l) :
    lines (ls.map (· ++ ['\n'])).flatten = ls ++ [[]] := by
  induction ls with
  | nil => rfl
  | cons l ls ih =>
    have hl : split '\n' l = [l] := split_of_notMem (h l List.mem_cons_self)
    have hrest := ih fun l' hl' => h l' (List.mem_cons_of_mem l hl')
    rw [lines] at hrest ⊢
    rw [List.map_cons, List.flatten_cons, List.append_assoc, List.singleton_append,
      split_append_cons, hl, hrest]
    rfl

/-! ## 2. The normal form of a line -/

/-- A line with the spaces that it begins with and without any other blanks around it. -/
def normalLine (line : Text) : Text := line.indent ++ line.trim

theorem eq_space_of_mem_indent {line : Text} {c : Char} (h : c ∈ line.indent) : c = ' ' :=
  eq_of_beq (List.mem_takeWhile_imp (p := (· == ' ')) h)

/-- A core does not begin with a space. -/
theorem indent_trim (line : Text) : line.trim.indent = [] := by
  cases h : line.trim with
  | nil => rfl
  | cons c cs =>
    have hc : isBlank c = false :=
      isBlank_of_trimStart_eq_cons ((trimStart_trim line).trans h)
    have hspace : (c == ' ') = false := by
      rw [beq_eq_false_iff_ne]
      rintro rfl
      exact absurd hc (by decide)
    rw [indent, List.takeWhile_cons_of_neg (by simp [hspace])]

theorem indent_normalLine (line : Text) : (normalLine line).indent = line.indent := by
  have hspaces : ∀ c ∈ line.indent, (c == ' ') = true :=
    fun c hc => beq_iff_eq.mpr (eq_space_of_mem_indent hc)
  have hcore := indent_trim line
  rw [indent] at hcore
  rw [normalLine, indent, List.takeWhile_append_of_pos hspaces, hcore, List.append_nil]

theorem trim_normalLine (line : Text) : (normalLine line).trim = line.trim := by
  have hspaces : ∀ c ∈ line.indent, isBlank c = true := by
    intro c hc
    rw [eq_space_of_mem_indent hc]
    decide
  have hstart : (normalLine line).trimStart = line.trim.trimStart :=
    List.dropWhile_append_of_pos hspaces
  rw [trim, hstart]
  exact trim_trim line

/-- The normal form of a line of a text has no line break in it. -/
theorem notMem_normalLine {text line : Text} (h : line ∈ text.lines) :
    '\n' ∉ normalLine line := by
  intro hmem
  rcases List.mem_append.mp hmem with hmem | hmem
  · exact absurd (eq_space_of_mem_indent hmem) (by decide)
  · exact (of_mem_lines h (mem_of_mem_trim hmem)).2 rfl

end Text

/-! ## 3. Plain output -/

theorem Markup.sourceAll_ofSourceLine (line : Text) :
    sourceAll (ofSourceLine line) = line.normalLine ++ ['\n'] := by
  have hcontents : sourceAll (ofLine line.trim) = line.trim :=
    sourceAll_ofLineWithin depthLimit line.trim
  rw [ofSourceLine, sourceAll, sourceAll_append, source_single, hcontents, Text.normalLine,
    List.append_assoc]
  rfl

/-- A line is marked by its indentation and its core, so its normal form is marked like it. -/
theorem Markup.ofSourceLine_normalLine (line : Text) :
    ofSourceLine line.normalLine = ofSourceLine line := by
  rw [ofSourceLine, ofSourceLine, Text.indent_normalLine, Text.trim_normalLine]

namespace Renderer

/-- **What plain output is**: the normal form of each line, with a line break. -/
theorem render_plain_eq_flatten (text : Text) :
    plain.render text = ((text.lines.map Text.normalLine).map (· ++ ['\n'])).flatten := by
  rw [render, writeAll_plain, Markup.ofSource,
    Markup.sourceAll_flatMap fun line _ => Markup.sourceAll_ofSourceLine line,
    List.flatMap_def, List.map_map]
  rfl

/-- The lines of plain output are the lines of the text in their normal form, and an empty
one. -/
theorem lines_render_plain (text : Text) :
    (plain.render text).lines = text.lines.map Text.normalLine ++ [[]] := by
  rw [render_plain_eq_flatten]
  refine Text.lines_flatten ?_
  intro l hl
  obtain ⟨line, hline, rfl⟩ := List.mem_map.mp hl
  exact Text.notMem_normalLine hline

theorem ofSource_render_plain (text : Text) :
    Markup.ofSource (plain.render text) = Markup.ofSource text ++ Markup.ofSource [] := by
  have hsame : text.lines.flatMap (fun line => Markup.ofSourceLine line.normalLine)
      = text.lines.flatMap Markup.ofSourceLine :=
    List.flatMap_congr fun line _ => Markup.ofSourceLine_normalLine line
  rw [Markup.ofSource, lines_render_plain, List.flatMap_append, List.flatMap_map, hsame]
  rfl

/-- **Plain output is a normal form that is highlighted like the text.**  It holds, for each line,
the spaces that the line begins with, the line without the blanks around it, and a line break.
Its markup is that of the text and of one empty line after it; so whatever the renderer, its
output is that for the text followed by that for an empty text. -/
theorem plain_output_highlights_alike (text : Text) :
    plain.render text
      = (text.lines.map fun line => line.indent ++ line.trim ++ ['\n']).flatten ∧
    Markup.ofSource (plain.render text) = Markup.ofSource text ++ Markup.ofSource [] ∧
    ∀ r : Renderer, r.render (plain.render text) = r.render text ++ r.render [] := by
  refine ⟨?_, ofSource_render_plain text, ?_⟩
  · rw [render_plain_eq_flatten, List.map_map]
    rfl
  · intro r
    rw [render, ofSource_render_plain, writeAll_append]
    rfl

/-- A tab after the indentation is dropped, and a line of blanks keeps its spaces. -/
example : plain.render "  \tx \n \t".toList = "  x\n \n".toList := by decide +kernel

end Renderer

end Highlighter
