/-
# Source text cannot inject markup

The HTML of a source text is, line by line, one element for the indentation, a sequence of
items, and a line break.  An item is a run of text in which no tag can begin, or an element
over items again.  The grammar (`Html.Items`, `Html.IsLine`) is written out in full, without
the functions that write the output, so that it can be read beside them.

* `plainRun_escape`: an escaped text is a plain run, whatever it was;
* `items_writeAll`: markup with styled categories only is written as items;
* `Items.balanced`: a reader that counts open elements finds items balanced.
-/
import Highlighter.Page
import Highlighter.Proofs.Escaping
import Highlighter.Proofs.Forms
import Highlighter.Proofs.Spans
import Mathlib.Data.List.Forall2
import Mathlib.Data.List.TakeWhile

namespace Highlighter

open Category (isStyled)
open Markup (everyCategory everyCategoryAll)

namespace Html

/-! ## 1. The grammar of the output -/

/-- The references that may occur in a run of text. -/
def references : List Text := ["&amp;".toList, "&lt;".toList, "&gt;".toList]

/-- A run of text in which no tag can begin or end, and every ampersand begins a reference. -/
structure PlainRun (t : Text) : Prop where
  noOpening : '<' ∉ t
  noClosing : '>' ∉ t
  ampersands : ∀ before rest, t = before ++ '&' :: rest →
    ∃ r ∈ references, r <+: '&' :: rest

/-- The names of the seven categories of the language. -/
def styleNames : List Text :=
  ["default", "primitive", "number", "keyword", "operator", "function", "string"].map
    String.toList

/-- **A sequence of items**: plain runs, and elements over items. -/
inductive Items : Text → Prop
  | nil : Items []
  | run {t rest : Text} (plain : PlainRun t) (more : Items rest) : Items (t ++ rest)
  | element {name body rest : Text} (styled : name ∈ styleNames) (inner : Items body)
      (more : Items rest) :
      Items ("<span class='python ".toList ++ (name ++ ("'>".toList ++ (body ++
        ("</span>".toList ++ rest)))))

/-- **A line of output**: the element for an indentation of some width, items, and a line
break. -/
def IsLine (width : Nat) (out : Text) : Prop :=
  ∃ body, Items body ∧
    out = "<span class='python'>".toList ++ ((List.replicate width "&emsp;".toList).flatten ++
      ("</span>".toList ++ (body ++ "<br>".toList)))

theorem items_append {s t : Text} (hs : Items s) (ht : Items t) : Items (s ++ t) := by
  induction hs with
  | nil => exact ht
  | run plain _ ih =>
    rw [List.append_assoc]
    exact .run plain ih
  | element styled inner _ _ ih =>
    simp only [List.append_assoc]
    exact .element styled inner ih

/-! ## 2. Escaped text is a plain run -/

theorem plainRun_nil : PlainRun [] := ⟨by simp, by simp, by simp⟩

theorem plainRun_append {s t : Text} (hs : PlainRun s) (ht : PlainRun t) :
    PlainRun (s ++ t) := by
  refine ⟨?_, ?_, ?_⟩
  · simp [hs.noOpening, ht.noOpening]
  · simp [hs.noClosing, ht.noClosing]
  · intro before rest h
    rcases Text.append_eq_append_cons h with ⟨mid, hmid⟩ | ⟨mid, -, hmid⟩
    · obtain ⟨r, hr, hpre⟩ := hs.ampersands before mid hmid
      -- a reference that begins in `s` ends in `s`
      have hrest : '&' :: rest = ('&' :: mid) ++ t := by
        rw [hmid, List.append_assoc] at h
        exact (List.append_cancel_left h).symm
      rw [hrest]
      exact ⟨r, hr, hpre.trans (List.prefix_append _ _)⟩
    · exact ht.ampersands mid rest hmid

/-- A reference is a plain run: it has one ampersand, in front. -/
theorem plainRun_cons_ampersand {tail : Text} (href : '&' :: tail ∈ references)
    (hopen : '<' ∉ tail) (hclose : '>' ∉ tail) (hamp : '&' ∉ tail) :
    PlainRun ('&' :: tail) := by
  refine ⟨by simp [hopen], by simp [hclose], ?_⟩
  intro before rest h
  cases before with
  | nil =>
    rw [List.nil_append] at h
    exact ⟨'&' :: tail, href, h ▸ List.prefix_refl _⟩
  | cons d before =>
    rw [List.cons_append, List.cons.injEq] at h
    exact absurd (by simp [h.2]) hamp

theorem plainRun_reference (c : Char) : PlainRun (reference c) := by
  unfold reference
  split
  · exact plainRun_cons_ampersand (by decide) (by decide) (by decide) (by decide)
  · split
    · exact plainRun_cons_ampersand (by decide) (by decide) (by decide) (by decide)
    · exact plainRun_cons_ampersand (by decide) (by decide) (by decide) (by decide)

theorem plainRun_escapeChar (c : Char) : PlainRun (escapeChar c) := by
  unfold escapeChar
  split
  · exact plainRun_reference c
  · rename_i hc
    obtain ⟨hamp, hlt, hgt⟩ := ne_of_not_isSpecial hc
    refine ⟨by simp [hlt.symm], by simp [hgt.symm], ?_⟩
    intro before rest h
    have hmem : '&' ∈ [c] := by
      rw [h]
      simp
    exact absurd (List.mem_singleton.mp hmem).symm hamp

/-- **Escaped text is a plain run**, whatever the text was. -/
theorem plainRun_escape (text : Text) : PlainRun (escape text) := by
  rw [escape_eq_flatMap]
  induction text with
  | nil => exact plainRun_nil
  | cons c cs ih =>
    rw [List.flatMap_cons]
    exact plainRun_append (plainRun_escapeChar c) ih

/-! ## 3. Markup is written as items -/

theorem mem_styleNames {c : Category} {name : Text} (h : c.styleName? = some name) :
    name ∈ styleNames := by
  cases c <;> simp [Category.styleName?] at h <;> subst h <;> decide

/-- What a styled category is written as. -/
theorem dress_of_styled {c : Category} {name : Text} (h : c.styleName? = some name)
    (content : Text) :
    dress c content = "<span class='python ".toList ++ (name ++ ("'>".toList ++ (content ++
      "</span>".toList))) := by
  have hdress : dress c content = spanStart name ++ content ++ spanEnd := by
    unfold dress
    split
    · exact absurd h (by simp [Category.styleName?])
    · exact absurd h (by simp [Category.styleName?])
    · rw [h]
  rw [hdress]
  unfold spanStart spanEnd
  simp only [List.append_assoc]

theorem write_group (c : Category) (children : List Markup) :
    Renderer.html.write (.group c children) = dress c (Renderer.html.writeAll children) := by
  rw [Renderer.write]
  rfl

mutual

theorem items_write : (m : Markup) → everyCategory isStyled m = true →
    Items (Renderer.html.write m)
  | .run text, _ => by
    have h := Items.run (plainRun_escape text) .nil
    rw [List.append_nil] at h
    exact h
  | .group c children, h => by
    simp only [everyCategory, Bool.and_eq_true] at h
    obtain ⟨hc, hchildren⟩ := h
    obtain ⟨name, hname⟩ := Option.isSome_iff_exists.mp hc
    have hbody := items_writeAll children hchildren
    have helement := Items.element (mem_styleNames hname) hbody .nil
    rw [List.append_nil] at helement
    rw [write_group, dress_of_styled hname]
    exact helement

/-- **Markup with styled categories only is written as items.** -/
theorem items_writeAll : (ms : List Markup) → everyCategoryAll isStyled ms = true →
    Items (Renderer.html.writeAll ms)
  | [], _ => .nil
  | m :: ms, h => by
    simp only [everyCategoryAll, Bool.and_eq_true] at h
    rw [Renderer.writeAll]
    exact items_append (items_write m h.1) (items_writeAll ms h.2)

end

/-! ## 4. Lines -/

theorem indent_eq_replicate (line : Text) :
    line.indent = List.replicate line.indent.length ' ' := by
  refine List.eq_replicate_of_mem ?_
  intro c hc
  exact eq_of_beq (List.mem_takeWhile_imp (p := (· == ' ')) hc)

theorem escape_replicate_space (n : Nat) :
    escape (List.replicate n ' ') = List.replicate n ' ' := by
  have hnone : ¬ (List.replicate n ' ').any isSpecial = true := by
    intro h
    obtain ⟨c, hc, hs⟩ := List.any_eq_true.mp h
    rw [List.eq_of_mem_replicate hc] at hs
    exact absurd hs (by decide)
  rw [escape, if_neg hnone]

/-- The indentation of a line is written with one wide space for each of its spaces. -/
theorem write_indent (line : Text) :
    Renderer.html.write (.single .indent line.indent) = indentation line.indent.length := by
  have hcount : (escape line.indent).count ' ' = line.indent.length := by
    rw [indent_eq_replicate line, escape_replicate_space]
    simp
  simp only [Markup.single, Renderer.write, Renderer.writeAll, List.append_nil]
  exact congrArg indentation hcount

theorem items_ofLine (text : Text) : Items (Renderer.html.writeAll (Markup.ofLine text)) :=
  items_writeAll _ (Markup.everyCategoryAll_ofLine text)

/-- What is written for a line of source before its line break. -/
def segment (line : Text) : Text :=
  "<span class='python'>".toList ++ ((List.replicate line.indent.length "&emsp;".toList).flatten
    ++ ("</span>".toList ++ Renderer.html.writeAll (Markup.ofLine line.trim)))

theorem writeAll_ofSourceLine (line : Text) :
    Renderer.html.writeAll (Markup.ofSourceLine line) = segment line ++ "<br>".toList := by
  have hbreak : Renderer.html.writeAll [.single .newline ['\n']] = lineBreak := rfl
  rw [Markup.ofSourceLine, Renderer.writeAll, write_indent, Renderer.writeAll_append, hbreak]
  unfold indentation wideSpace spanEnd lineBreak segment
  simp only [List.append_assoc]

/-- The HTML of a source text, line by line. -/
theorem bareHtml_eq_flatten (text : Text) :
    bareHtml text = ((text.lines.map segment).map (· ++ "<br>".toList)).flatten := by
  have hlines : ∀ ls : List Text, Renderer.html.writeAll (ls.flatMap Markup.ofSourceLine)
      = ((ls.map segment).map (· ++ "<br>".toList)).flatten := by
    intro ls
    induction ls with
    | nil => rfl
    | cons l ls ih =>
      rw [List.flatMap_cons, Renderer.writeAll_append, ih, writeAll_ofSourceLine]
      rfl
  rw [bareHtml, Renderer.render, Markup.ofSource, hlines]

theorem isLine_segment (line : Text) :
    IsLine line.indent.length (segment line ++ "<br>".toList) := by
  refine ⟨_, items_ofLine line.trim, ?_⟩
  unfold segment
  simp only [List.append_assoc]

/-! ## 5. Elements nest

A reader that only looks for the beginnings and the ends of elements, and keeps count of those
that are open.  It fails at an end for which nothing is open. -/

/-- Reads on with `n` elements open, and returns how many are open at the end. -/
def openSpans : (n : Nat) → Text → Option Nat
  | n, [] => some n
  | n, c :: cs =>
    if "<span".toList.isPrefixOf (c :: cs) then openSpans (n + 1) cs
    else if "</span>".toList.isPrefixOf (c :: cs) then
      if n = 0 then none else openSpans (n - 1) cs
    else openSpans n cs

theorem openSpans_append_of_notMem {s : Text} (hs : '<' ∉ s) (n : Nat) (t : Text) :
    openSpans n (s ++ t) = openSpans n t := by
  induction s with
  | nil => rfl
  | cons c s ih =>
    have hc : '<' ≠ c := fun h => hs (h ▸ List.mem_cons_self)
    have hrest : '<' ∉ s := fun h => hs (List.mem_cons_of_mem c h)
    rw [List.cons_append, openSpans]
    simp [List.isPrefixOf, hc, ih hrest]

/-- An element begins: one more is open after the tag. -/
theorem openSpans_start {inner : Text} (hinner : '<' ∉ inner) (n : Nat) (t : Text) :
    openSpans n ("<span".toList ++ (inner ++ t)) = openSpans (n + 1) t := by
  have hstart : "<span".toList.isPrefixOf ('<' :: ("span".toList ++ (inner ++ t))) = true :=
    List.isPrefixOf_iff_prefix.mpr (List.prefix_append "<span".toList _)
  have hfirst : openSpans n ('<' :: ("span".toList ++ (inner ++ t)))
      = openSpans (n + 1) ("span".toList ++ (inner ++ t)) := by
    rw [openSpans, if_pos hstart]
  refine hfirst.trans ?_
  rw [openSpans_append_of_notMem (by decide), openSpans_append_of_notMem hinner]

/-- An element ends: one less is open after the tag. -/
theorem openSpans_end (n : Nat) (t : Text) :
    openSpans (n + 1) ("</span>".toList ++ t) = openSpans n t := by
  have hstart : ¬ "<span".toList.isPrefixOf ('<' :: ("/span>".toList ++ t)) = true := by
    simp [List.isPrefixOf]
  have hend : "</span>".toList.isPrefixOf ('<' :: ("/span>".toList ++ t)) = true :=
    List.isPrefixOf_iff_prefix.mpr (List.prefix_append "</span>".toList t)
  have hfirst : openSpans (n + 1) ('<' :: ("/span>".toList ++ t))
      = openSpans n ("/span>".toList ++ t) := by
    rw [openSpans, if_neg hstart, if_pos hend, if_neg (Nat.succ_ne_zero n), Nat.add_sub_cancel]
  refine hfirst.trans ?_
  exact openSpans_append_of_notMem (by decide) n t

theorem notMem_of_mem_styleNames {name : Text} (h : name ∈ styleNames) :
    '<' ∉ name ∧ '>' ∉ name ∧ '&' ∉ name := by
  simp only [styleNames, List.map_cons, List.map_nil, List.mem_cons, List.not_mem_nil,
    or_false] at h
  rcases h with rfl | rfl | rfl | rfl | rfl | rfl | rfl <;> decide

/-- **Items are balanced**: as many elements are open after them as before. -/
theorem Items.balanced {s : Text} (h : Items s) (n : Nat) (t : Text) :
    openSpans n (s ++ t) = openSpans n t := by
  induction h generalizing n t with
  | nil => rfl
  | run plain _ ih =>
    rw [List.append_assoc, openSpans_append_of_notMem plain.noOpening, ih]
  | @element name body rest styled _ _ ihinner ihmore =>
    have hinner : '<' ∉ " class='python ".toList ++ (name ++ "'>".toList) := by
      have hname := (notMem_of_mem_styleNames styled).1
      simp [hname]
    have htag : "<span class='python ".toList ++ (name ++ ("'>".toList ++ (body ++
        ("</span>".toList ++ rest)))) ++ t
        = "<span".toList ++ ((" class='python ".toList ++ (name ++ "'>".toList)) ++ (body ++
          ("</span>".toList ++ (rest ++ t)))) := by
      simp
    rw [htag, openSpans_start hinner, ihinner, openSpans_end, ihmore]

/-- A line of output opens and closes its own elements. -/
theorem IsLine.balanced {width : Nat} {out : Text} (h : IsLine width out) :
    openSpans 0 out = some 0 := by
  obtain ⟨body, hbody, rfl⟩ := h
  have hinner : '<' ∉ " class='python'>".toList ++
      (List.replicate width "&emsp;".toList).flatten := by
    simp
  have htag : "<span class='python'>".toList ++ ((List.replicate width "&emsp;".toList).flatten
      ++ ("</span>".toList ++ (body ++ "<br>".toList)))
      = "<span".toList ++ ((" class='python'>".toList ++
        (List.replicate width "&emsp;".toList).flatten) ++
        ("</span>".toList ++ (body ++ "<br>".toList))) := by
    simp
  rw [htag, openSpans_start hinner, openSpans_end, hbody.balanced]
  rfl

/-- **Source text cannot inject markup.**  The HTML of a text is one line of output for each
of its lines, in order: an element with a wide space for each space of indentation, items, and
a line break.  A reader that starts a line with no open element ends it with none. -/
theorem source_injects_no_markup (text : Text) :
    ∃ outs : List Text, bareHtml text = outs.flatten ∧
      List.Forall₂ (fun line out => IsLine (Text.indent line).length out ∧
        Html.openSpans 0 out = some 0) text.lines outs := by
  refine ⟨_, bareHtml_eq_flatten text, ?_⟩
  rw [List.map_map]
  refine List.forall₂_map_right_iff.mpr (List.forall₂_same.mpr ?_)
  intro line _
  have hline := isLine_segment line
  exact ⟨hline, hline.balanced⟩

end Html

end Highlighter
