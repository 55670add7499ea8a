/-
# Lines are highlighted independently

No state is carried from one line of a source to the next: neither an open bracket nor an open
literal, nor a colour.  So highlighting two sources with a line break between them is highlighting
them one after the other (`ofSource_append`), and the same is true of the output of any renderer.

The markup of a line is set off from its neighbours by what stands at its ends (`IsRow`).  Inside a
line no group arranges text, because the markup of pieces has styled categories only.  So the lines
can be counted in the markup, wherever the groups are looked for.

* `categories`: the categories of all groups in some markup, at every level;
* `IsRow`: the indentation first, the end of the line last, and neither anywhere else;
* `lines_highlighted_independently`: all of this for whole sources.
-/
import Highlighter.Proofs.Forms
import Highlighter.Render.Basic
import Mathlib.Data.List.Forall2

namespace Highlighter

/-! ## 1. Lines -/

namespace Text

theorem length_split (sep : Char) (t : Text) : (split sep t).length = t.count sep + 1 := by
  induction t with
  | nil => rfl
  | cons c cs ih =>
    rw [split]
    split
    · rename_i hc
      rw [List.length_cons, ih, hc, List.count_cons_self]
    · rename_i hc
      rw [List.length_modifyHead, ih, List.count_cons_of_ne hc]

/-- There is one line more than there are line breaks. -/
theorem length_lines (t : Text) : t.lines.length = t.count '\n' + 1 := length_split '\n' t

end Text

namespace Markup

/-! ## 2. The categories in some markup -/

mutual

/-- The categories of all groups in some markup, at every level. -/
def categories : Markup → List Category
  | .run _ => []
  | .group c children => c :: categoriesAll children

/-- The categories of all groups in a list of markup. -/
def categoriesAll : List Markup → List Category
  | [] => []
  | m :: ms => categories m ++ categoriesAll ms

end

@[simp] theorem categoriesAll_append (ms ns : List Markup) :
    categoriesAll (ms ++ ns) = categoriesAll ms ++ categoriesAll ns := by
  induction ms with
  | nil => rfl
  | cons m ms ih => rw [List.cons_append, categoriesAll, categoriesAll, ih, List.append_assoc]

@[simp] theorem categories_single (c : Category) (text : Text) :
    categories (single c text) = [c] := by
  simp [single, categories, categoriesAll]

mutual

theorem everyCategory_iff {p : Category → Bool} :
    (m : Markup) → (everyCategory p m = true ↔ ∀ c ∈ categories m, p c = true)
  | .run text => by simp [everyCategory, categories]
  | .group c children => by
    simp [everyCategory, categories, everyCategoryAll_iff_categories children]

theorem everyCategoryAll_iff_categories {p : Category → Bool} :
    (ms : List Markup) → (everyCategoryAll p ms = true ↔ ∀ c ∈ categoriesAll ms, p c = true)
  | [] => by simp [everyCategoryAll, categoriesAll]
  | m :: ms => by
    simp [everyCategoryAll, categoriesAll, everyCategory_iff m, everyCategoryAll_iff_categories ms,
      or_imp, forall_and]

end

/-- No group inside a line arranges text. -/
theorem count_categoriesAll_ofLine {c : Category} (hc : c.isStyled = false) (text : Text) :
    (categoriesAll (ofLine text)).count c = 0 := by
  rw [List.count_eq_zero]
  intro hmem
  have hstyled := (everyCategoryAll_iff_categories _).mp (everyCategoryAll_ofLine text) c hmem
  rw [hc] at hstyled
  exact Bool.noConfusion hstyled

/-! ## 3. The markup of a line -/

/-- **The markup of a line**: its indentation stands first and its end last, and no other group in
it, at any level, is an indentation or the end of a line. -/
structure IsRow (line : Text) (row : List Markup) : Prop where
  head : row.head? = some (single .indent line.indent)
  last : row.getLast? = some (single .newline ['\n'])
  indents : (categoriesAll row).count .indent = 1
  newlines : (categoriesAll row).count .newline = 1

theorem isRow_ofSourceLine (line : Text) : IsRow line (ofSourceLine line) := by
  have hindent := count_categoriesAll_ofLine (c := .indent) rfl line.trim
  have hnewline := count_categoriesAll_ofLine (c := .newline) rfl line.trim
  refine ⟨rfl, ?_, ?_, ?_⟩
  · rw [ofSourceLine, ← List.cons_append, List.getLast?_append]
    rfl
  · simp [ofSourceLine, categoriesAll, hindent]
  · simp [ofSourceLine, categoriesAll, hnewline]

/-! ## 4. Whole sources -/

/-- A source is highlighted one part after the other, where it is divided between lines. -/
theorem ofSource_append (a b : Text) : ofSource (a ++ '\n' :: b) = ofSource a ++ ofSource b := by
  rw [ofSource, ofSource, ofSource, Text.lines, Text.split_append_cons, List.flatMap_append]
  rfl

theorem count_categoriesAll_ofSource {c : Category}
    (hline : ∀ line, (categoriesAll (ofSourceLine line)).count c = 1) (text : Text) :
    (categoriesAll (ofSource text)).count c = text.lines.length := by
  have hlines : ∀ lines : List Text,
      (categoriesAll (lines.flatMap ofSourceLine)).count c = lines.length := by
    intro lines
    induction lines with
    | nil => rfl
    | cons line lines ih =>
      rw [List.flatMap_cons, categoriesAll_append, List.count_append, hline, ih, List.length_cons,
        Nat.add_comm]
  exact hlines text.lines

/-- **Lines are highlighted independently.**  Two sources with a line break between them are
highlighted one after the other, and written so by every renderer.  The markup of a source is that
of its lines, one row for each, and there are as many indentations and as many ends of lines in it
as there are lines: one more than line breaks in the source. -/
theorem lines_highlighted_independently :
    (∀ a b : Text, ofSource (a ++ '\n' :: b) = ofSource a ++ ofSource b) ∧
    (∀ (r : Renderer) (a b : Text), r.render (a ++ '\n' :: b) = r.render a ++ r.render b) ∧
    ∀ text : Text,
      (∃ rows : List (List Markup), ofSource text = rows.flatten ∧
        List.Forall₂ IsRow text.lines rows) ∧
      (categoriesAll (ofSource text)).count .indent = text.count '\n' + 1 ∧
      (categoriesAll (ofSource text)).count .newline = text.count '\n' + 1 := by
  refine ⟨ofSource_append, ?_, ?_⟩
  · intro r a b
    rw [Renderer.render, ofSource_append, Renderer.writeAll_append]
    rfl
  · intro text
    refine ⟨⟨text.lines.map ofSourceLine, List.flatMap_def, ?_⟩, ?_, ?_⟩
    · rw [List.forall₂_map_right_iff]
      exact List.forall₂_same.mpr fun line _ => isRow_ofSourceLine line
    · rw [count_categoriesAll_ofSource fun line => (isRow_ofSourceLine line).indents,
        Text.length_lines]
    · rw [count_categoriesAll_ofSource fun line => (isRow_ofSourceLine line).newlines,
        Text.length_lines]

end Markup

end Highlighter
