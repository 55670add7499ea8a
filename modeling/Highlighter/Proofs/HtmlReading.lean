/-
# HTML is read back line by line

A reader that knows nothing of the source cuts the HTML at every line break, deletes the tags
and puts characters in the place of the references.  What it gets is each line's indentation
and trimmed contents, whatever the lines hold: text that looks like a tag, a line break or a
reference included.

* `stripTags_writeAll`: without its tags, the HTML of markup is the escaped source text;
* `Items.avoids_lineBreak`, `Items.avoids_wideSpace`: what the grammar of the output says about
  occurrences.
-/
import Highlighter.Proofs.HtmlGrammar
import Highlighter.Proofs.Lossless
import Highlighter.Proofs.Occurrences

namespace Highlighter

open Category (isStyled)
open Markup (everyCategory everyCategoryAll)

namespace Html

/-! ## 1. The reader -/

/-- Deletes the tags; `inside` says whether one is open. -/
def stripTags : (inside : Bool) → Text → Text
  | _, [] => []
  | inside, c :: cs =>
    if c = '<' then stripTags true cs
    else if c = '>' then stripTags false cs
    else if inside then stripTags true cs
    else c :: stripTags false cs

/-- The text that some HTML shows. -/
def unmarkup (html : Text) : Text :=
  unescape (Text.replaceAll "&emsp;".toList [' '] (stripTags false html))

/-! ## 2. Tags are deleted -/

theorem stripTags_append_of_notMem {s : Text} (hopen : '<' ∉ s) (hclose : '>' ∉ s) (t : Text) :
    stripTags false (s ++ t) = s ++ stripTags false t := by
  induction s with
  | nil => rfl
  | cons c s ih =>
    have h₁ : c ≠ '<' := fun h => hopen (h ▸ List.mem_cons_self)
    have h₂ : c ≠ '>' := fun h => hclose (h ▸ List.mem_cons_self)
    have hrest := ih (fun h => hopen (List.mem_cons_of_mem c h))
      (fun h => hclose (List.mem_cons_of_mem c h))
    rw [List.cons_append, stripTags, if_neg h₁, if_neg h₂, hrest]
    rfl

theorem stripTags_inside {s : Text} (hclose : '>' ∉ s) (t : Text) :
    stripTags true (s ++ '>' :: t) = stripTags false t := by
  induction s with
  | nil => rfl
  | cons c s ih =>
    have hc : c ≠ '>' := fun h => hclose (h ▸ List.mem_cons_self)
    have hrest := ih fun h => hclose (List.mem_cons_of_mem c h)
    rw [List.cons_append, stripTags, if_neg hc]
    split
    · exact hrest
    · exact hrest

/-- A tag is deleted as a whole. -/
theorem stripTags_tag {s : Text} (hclose : '>' ∉ s) (t : Text) :
    stripTags false ('<' :: (s ++ '>' :: t)) = stripTags false t := by
  rw [stripTags, if_pos rfl]
  exact stripTags_inside hclose t

theorem stripTags_start {name : Text} (hname : name ∈ styleNames) (t : Text) :
    stripTags false ("<span class='python ".toList ++ (name ++ ("'>".toList ++ t)))
      = stripTags false t := by
  have hclose : '>' ∉ "span class='python ".toList ++ (name ++ ['\'']) := by
    simp [(notMem_of_mem_styleNames hname).2.1]
  have htag := stripTags_tag hclose t
  simpa using htag

theorem stripTags_end (t : Text) :
    stripTags false ("</span>".toList ++ t) = stripTags false t :=
  stripTags_tag (s := "/span".toList) (by decide) t

mutual

theorem stripTags_write : (m : Markup) → everyCategory isStyled m = true → (t : Text) →
    stripTags false (Renderer.html.write m ++ t) = escape m.source ++ stripTags false t
  | .run text, _, t => by
    have hplain := plainRun_escape text
    exact stripTags_append_of_notMem hplain.noOpening hplain.noClosing t
  | .group c children, h, t => by
    simp only [everyCategory, Bool.and_eq_true] at h
    obtain ⟨hc, hchildren⟩ := h
    obtain ⟨name, hname⟩ := Option.isSome_iff_exists.mp hc
    rw [write_group, dress_of_styled hname]
    simp only [List.append_assoc]
    rw [stripTags_start (mem_styleNames hname), stripTags_writeAll children hchildren,
      stripTags_end, Markup.source]

/-- **Without its tags**, the HTML of markup is the escaped source text. -/
theorem stripTags_writeAll : (ms : List Markup) → everyCategoryAll isStyled ms = true →
    (t : Text) → stripTags false (Renderer.html.writeAll ms ++ t)
      = escape (Markup.sourceAll ms) ++ stripTags false t
  | [], _, t => rfl
  | m :: ms, h, t => by
    simp only [everyCategoryAll, Bool.and_eq_true] at h
    rw [Renderer.writeAll, List.append_assoc, stripTags_write m h.1,
      stripTags_writeAll ms h.2, Markup.sourceAll, escape_append, List.append_assoc]

end

/-! ## 3. What occurs in items -/

theorem PlainRun.tail {c : Char} {t : Text} (h : PlainRun (c :: t)) : PlainRun t := by
  refine ⟨fun hm => h.noOpening (List.mem_cons_of_mem c hm),
    fun hm => h.noClosing (List.mem_cons_of_mem c hm), ?_⟩
  intro before rest ht
  exact h.ampersands (c :: before) rest (by rw [ht, List.cons_append])

/-- Source text never reads as a wide space: its ampersands begin other references. -/
theorem PlainRun.avoids_wideSpace {t : Text} (h : PlainRun t) :
    Text.Avoids "&emsp;".toList t := by
  induction t with
  | nil => trivial
  | cons c t ih =>
    refine ⟨?_, ih h.tail⟩
    intro rest hwide
    have hc : '&' = c := (List.cons_prefix_cons.mp hwide).1
    subst hc
    obtain ⟨r, hr, hpre⟩ := h.ampersands [] t rfl
    have hlong : r <+: '&' :: (t ++ rest) := hpre.trans (List.prefix_append ('&' :: t) rest)
    -- both begin at one place, so the shorter would begin the longer
    simp only [references, List.mem_cons, List.not_mem_nil, or_false] at hr
    rcases hr with rfl | rfl | rfl
    all_goals
      have hboth := List.prefix_of_prefix_length_le hlong hwide (by decide)
      exact absurd hboth (by decide)

/-- What begins neither in a plain run nor in a tag does not begin in items. -/
theorem Items.avoids {pat s : Text} (hrun : ∀ t, PlainRun t → Text.Avoids pat t)
    (hstart : ∀ name ∈ styleNames,
      Text.Avoids pat ("<span class='python ".toList ++ (name ++ "'>".toList)))
    (hend : Text.Avoids pat "</span>".toList) (h : Items s) : Text.Avoids pat s := by
  induction h with
  | nil => trivial
  | run plain _ ih => exact Text.avoids_append (hrun _ plain) ih
  | @element name body rest styled _ _ ihinner ihmore =>
    have hafter : Text.Avoids pat (body ++ ("</span>".toList ++ rest)) :=
      Text.avoids_append ihinner (Text.avoids_append hend ihmore)
    have helement := Text.avoids_append (hstart name styled) hafter
    simp only [List.append_assoc] at helement
    exact helement

theorem Items.avoids_wideSpace {s : Text} (h : Items s) :
    Text.Avoids "&emsp;".toList s := by
  refine h.avoids (fun _ plain => plain.avoids_wideSpace) ?_ (Text.avoids_of_notMem (by decide))
  intro name hname
  have htag : '&' ∉ "<span class='python ".toList ++ (name ++ "'>".toList) := by
    simp [(notMem_of_mem_styleNames hname).2.2]
  exact Text.avoids_of_notMem htag

theorem Items.avoids_lineBreak {s : Text} (h : Items s) : Text.Avoids "<br>".toList s := by
  refine h.avoids (fun _ plain => Text.avoids_of_notMem plain.noOpening) ?_
    (Text.avoids_cons_cons (by decide) (by decide))
  intro name hname
  have htag : '<' ∉ 's' :: ("pan class='python ".toList ++ (name ++ "'>".toList)) := by
    simp [(notMem_of_mem_styleNames hname).1]
  exact Text.avoids_cons_cons (by decide) htag

/-! ## 4. One line -/

theorem avoids_lineBreak_segment (line : Text) :
    Text.Avoids "<br>".toList (segment line) := by
  have hwide : '<' ∉ (List.replicate line.indent.length "&emsp;".toList).flatten := by simp
  refine Text.avoids_append (Text.avoids_cons_cons (by decide) (by decide)) ?_
  refine Text.avoids_append (Text.avoids_of_notMem hwide) ?_
  refine Text.avoids_append (Text.avoids_cons_cons (by decide) (by decide)) ?_
  exact (items_ofLine line.trim).avoids_lineBreak

/-- **One wide space for each space of indentation**, and none besides. -/
theorem length_cutAt_segment (line : Text) :
    (Text.cutAt "&emsp;".toList (segment line)).length = line.indent.length + 1 := by
  have hbefore : Text.Avoids "&emsp;".toList "<span class='python'>".toList :=
    Text.avoids_of_notMem (by decide)
  have hafter : Text.Avoids "&emsp;".toList
      ("</span>".toList ++ Renderer.html.writeAll (Markup.ofLine line.trim)) :=
    Text.avoids_append (Text.avoids_of_notMem (by decide))
      (items_ofLine line.trim).avoids_wideSpace
  have hone := Text.length_cutAt_append_of_avoids hafter []
  rw [List.append_nil, Text.cutAt_nil] at hone
  unfold segment
  rw [Text.length_cutAt_append_of_avoids hbefore, Text.length_cutAt_replicate (by decide), hone]
  rfl

/-- Without its tags, a line is its wide spaces and its escaped contents. -/
theorem stripTags_segment (line : Text) :
    stripTags false (segment line)
      = (List.replicate line.indent.length "&emsp;".toList).flatten ++ escape line.trim := by
  have hopen : '<' ∉ (List.replicate line.indent.length "&emsp;".toList).flatten := by simp
  have hclose : '>' ∉ (List.replicate line.indent.length "&emsp;".toList).flatten := by simp
  have hstart (t : Text) :
      stripTags false ("<span class='python'>".toList ++ t) = stripTags false t :=
    stripTags_tag (s := "span class='python'".toList) (by decide) t
  have hsource : Markup.sourceAll (Markup.ofLine line.trim) = line.trim :=
    Markup.sourceAll_ofLineWithin Markup.depthLimit line.trim
  have hbody := stripTags_writeAll (Markup.ofLine line.trim)
    (Markup.everyCategoryAll_ofLine line.trim) []
  rw [List.append_nil, hsource, stripTags, List.append_nil] at hbody
  unfold segment
  rw [hstart, stripTags_append_of_notMem hopen hclose, stripTags_end, hbody]

/-- **A line is read back** as its indentation and its trimmed contents. -/
theorem unmarkup_segment (line : Text) : unmarkup (segment line) = line.indent ++ line.trim := by
  have hwide : Text.replaceAll "&emsp;".toList [' '] (escape line.trim) = escape line.trim :=
    Text.replaceAll_of_avoids (plainRun_escape line.trim).avoids_wideSpace [' ']
  have hspaces : List.replicate line.indent.length ' ' = line.indent :=
    (indent_eq_replicate line).symm
  have hescaped : List.replicate line.indent.length ' ' ++ escape line.trim
      = escape (line.indent ++ line.trim) := by
    rw [escape_append, ← hspaces, escape_replicate_space, List.length_replicate]
  rw [unmarkup, stripTags_segment, Text.replaceAll_replicate (by decide), hwide, hescaped,
    unescape_escape]

/-- **The HTML is read back line by line.**  Cut at every line break, the HTML of a text has
one segment for each of its lines, and an empty one at the end.  The segment of a line shows
the spaces it begins with, followed by the line without the blanks around it; each of those
spaces is one wide space in the segment, and there are no others. -/
theorem html_reads_back (text : Text) :
    (Text.cutAt "<br>".toList (bareHtml text)).length = text.lines.length + 1 ∧
      ∃ segments, Text.cutAt "<br>".toList (bareHtml text) = segments ++ [[]] ∧
        List.Forall₂ (fun line out =>
          unmarkup out = Text.indent line ++ Text.trim line ∧
            (Text.cutAt "&emsp;".toList out).length = (Text.indent line).length + 1)
          text.lines segments := by
  have hcut : Text.cutAt "<br>".toList (bareHtml text) = text.lines.map segment ++ [[]] := by
    rw [bareHtml_eq_flatten]
    refine Text.cutAt_flatten (by decide) ?_
    intro s hs
    obtain ⟨line, -, rfl⟩ := List.mem_map.mp hs
    exact avoids_lineBreak_segment line
  have hlength : (text.lines.map segment ++ [[]]).length = text.lines.length + 1 := by simp
  refine ⟨hcut ▸ hlength, text.lines.map segment, hcut, ?_⟩
  refine List.forall₂_map_right_iff.mpr (List.forall₂_same.mpr ?_)
  intro line _
  exact ⟨unmarkup_segment line, length_cutAt_segment line⟩

end Html

end Highlighter
