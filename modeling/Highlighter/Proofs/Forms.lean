/-
# How a piece is read, and what its markup is made of

`Form.of` is a cascade of tests.  Later arguments do not walk through it again: they use
`Form.found`, which says for each form what it tells about the text it was found in, and
`Markup.built_byForm`, which says what a step inwards makes of each form.

* `Form.Found`: the four ways in which a text has a form;
* `Markup.innerCores` and `Markup.Built`: the texts that a step inwards goes on to, and the four
  kinds of group that it builds;
* `Markup.everyCategory`: a test of all categories in some markup, at every level;
* `everyCategory_within`, `everyCategoryAll_ofLine`: the markup of pieces and lines uses only
  categories that have a style.  So neither an indentation nor the end of a line is ever
  found inside a line.
-/
import Highlighter.Proofs.Rows

namespace Highlighter

/-! ## 1. What a form says about its text -/

/-- Whether a category has a style. -/
def Category.isStyled (c : Category) : Bool := c.styleName?.isSome

/-- The categories of pieces that have no parts of their own. -/
def Category.atoms : List Category := [.keyword, .operator, .string, .numeric, .default]

theorem Category.isStyled_of_mem_atoms {c : Category} (h : c ∈ atoms) : c.isStyled = true := by
  simp only [atoms, List.mem_cons, List.not_mem_nil, or_false] at h
  rcases h with rfl | rfl | rfl | rfl | rfl <;> rfl

namespace Form

theorem call?_eq_some {text path : Text} {b : Bracketed} (h : call? text = some (path, b)) :
    Name.isPath path = true ∧ text = path ++ b.text ∧ bracketed? b.text = some b ∧
      b.opener = '(' := by
  simp only [call?, Option.bind_eq_bind, Option.bind_eq_some_iff, Prod.exists] at h
  obtain ⟨p, rest, hp, g, hg, h⟩ := h
  have hrest : rest = g.text := bracketed?_eq_some hg
  split at h
  · rename_i hopen
    simp only [Option.some.injEq, Prod.mk.injEq] at h
    obtain ⟨rfl, rfl⟩ := h
    refine ⟨Name.isPath_of_path? hp, ?_, hrest ▸ hg, hopen⟩
    rw [Name.path?_eq_some hp, hrest]
  · exact absurd h (by simp)

/-- `Found text f`: what can be said of a text that has the form `f`. -/
inductive Found (text : Text) : Form → Prop
  /-- An atom has one of the categories for pieces without parts. -/
  | atom {c : Category} (atomic : c ∈ Category.atoms) : Found text (.atom c)
  /-- A call is a dotted name and a group, which opens with a parenthesis. -/
  | call {path : Text} {b : Bracketed} (named : Name.isPath path = true)
      (written : text = path ++ b.text) (read : bracketed? b.text = some b)
      (opener : b.opener = '(') : Found text (.call path b)
  /-- A container is one group. -/
  | container {b : Bracketed} (read : bracketed? text = some b) : Found text (.container b)
  /-- A phrase is divided into its words, and they are not the whole of it. -/
  | phrase (parts : isWhole text (Division.wordsOnly text) = false) :
      Found text (.phrase (Division.wordsOnly text))

theorem found_ofWords (text : Text) : Found text (ofWords text) := by
  simp only [ofWords]
  split
  · exact .atom (by decide)
  · rename_i hw
    exact .phrase (Bool.eq_false_iff.mpr hw)

/-- **Every form is found for a reason.**  The one place where the order of the tests is
looked at. -/
theorem found (text : Text) : Found text (Form.of text) := by
  unfold Form.of
  split
  · exact .atom (by decide)
  · split
    · exact .atom (by decide)
    · split
      · rename_i path b hcall
        obtain ⟨hpath, hw, hb, ho⟩ := call?_eq_some hcall
        exact .call hpath hw hb ho
      · split
        · exact .atom (by decide)
        · split
          · exact .atom (by decide)
          · split
            · rename_i b hb
              exact .container hb
            · split
              · exact .atom (by decide)
              · exact found_ofWords text

theorem found_of_eq {text : Text} {f : Form} (h : Form.of text = f) : Found text f :=
  h ▸ found text

theorem text_of_call {text path : Text} {b : Bracketed} (h : Form.of text = .call path b) :
    text = path ++ b.text := by
  cases found_of_eq h with
  | call _ written _ _ => exact written

theorem text_of_container {text : Text} {b : Bracketed} (h : Form.of text = .container b) :
    text = b.text := by
  cases found_of_eq h with
  | container read => exact bracketed?_eq_some read

theorem text_of_phrase {text : Text} {parts : Tiling} (h : Form.of text = .phrase parts) :
    text = parts.text := by
  cases found_of_eq h with
  | phrase _ => exact (Division.text_along _ text).symm

end Form

/-! ## 2. What a step inwards builds

Whatever the form, a step inwards asks `mark` only for the texts in `innerCores`, and what it
builds is one of four kinds of group. -/

namespace Markup

variable {mark mark' : Text → Markup}

/-- The texts that a step inwards goes on to. -/
def innerCores (text : Text) : List Text :=
  match Form.of text with
  | .atom _ => []
  | .call path b => if Vocabulary.isPrimitive path then cores b.body else argumentCores b.body
  | .container b => argumentCores b.body
  | .phrase parts => parts.bodies.flatMap cores

/-- **A step inwards asks for nothing else**: two ways of marking that agree on `innerCores`
give the same markup. -/
theorem byForm_congr {text : Text} (h : ∀ s ∈ innerCores text, mark s = mark' s) :
    byForm mark text = byForm mark' text := by
  unfold innerCores at h
  unfold byForm
  cases hf : Form.of text with
  | atom c => rfl
  | call path b =>
    rw [hf] at h
    by_cases hprimitive : Vocabulary.isPrimitive path = true
    · simp only [hprimitive, if_true] at h ⊢
      rw [withBlanks_congr h]
    · simp only [hprimitive, if_false, Bool.false_eq_true] at h ⊢
      rw [argumentsBy_congr h]
  | container b =>
    rw [hf] at h
    simp only
    rw [argumentsBy_congr h]
  | phrase parts =>
    rw [hf] at h
    simp only
    rw [withGaps_congr_find (fun _ => withBlanks_congr) h]

/-- `Built mark text m`: what can be said of the markup `m` that a step inwards builds from a
text. -/
inductive Built (mark : Text → Markup) (text : Text) : Markup → Prop
  /-- The text as a whole. -/
  | atom {c : Category} (atomic : c ∈ Category.atoms) : Built mark text (single c text)
  /-- A call, between the name with its parenthesis and the bracket that closes it. -/
  | call {c : Category} {path : Text} {closer : Char} {ms : List Markup}
      (kind : c = .function ∨ c = .primitive) (named : Name.isPath path = true)
      (closes : isCloser closer = true) (row : Row isBlank mark (innerCores text) ms) :
      Built mark text (.group c (.run (path ++ ['(']) :: (ms ++ [.run [closer]])))
  /-- A container, between its brackets. -/
  | container {opener closer : Char} {ms : List Markup} (opens : isOpener opener = true)
      (closes : isCloser closer = true) (row : Row isBlank mark (innerCores text) ms) :
      Built mark text (.group .default (.run [opener] :: (ms ++ [.run [closer]])))
  /-- A phrase: one word or more, and something beside it. -/
  | phrase {ms : List Markup} (several : 2 ≤ ms.length)
      (word : ∃ s ∈ innerCores text, mark s ∈ ms)
      (row : Row Division.betweenWords mark (innerCores text) ms) :
      Built mark text (.group .default ms)

/-- If the words of a text are not the whole of it, there is a word, and something beside
it. -/
theorem words_of_isWhole {text : Text}
    (h : Form.isWhole text (Division.wordsOnly text) = false) (mark : Text → Markup) :
    2 ≤ (withGaps (withBlanks mark) (Division.wordsOnly text)).length ∧
      ∃ s ∈ (Division.wordsOnly text).bodies.flatMap cores,
        mark s ∈ withGaps (withBlanks mark) (Division.wordsOnly text) := by
  have htext : (Division.wordsOnly text).text = text := Division.text_along _ text
  have hcore : ∀ b ∈ (Division.wordsOnly text).bodies, b.Core :=
    fun _ => Division.core_of_mem_wordsOnly
  generalize Division.wordsOnly text = t at h htext hcore
  obtain ⟨lead, tiles⟩ := t
  cases tiles with
  | nil => exact absurd h (by simp [Form.isWhole, Tiling.bodies])
  | cons a rest =>
    have ha : a.body.Core := hcore a.body (by simp [Tiling.bodies])
    constructor
    · cases rest with
      | nil =>
        -- the only word is not the whole text, so there is a gap beside it
        have hne : a.body ≠ text := by simpa [Form.isWhole, Tiling.bodies] using h
        have hgap : lead ≠ [] ∨ a.gap ≠ [] := by
          by_contra hnone
          rw [not_or, not_not, not_not] at hnone
          refine hne ?_
          rw [← htext, Tiling.text, hnone.1]
          simp [hnone.2]
        simp only [withGaps, Tiling.splice, List.flatMap_cons, List.flatMap_nil,
          withBlanks_core ha, List.length_append, List.length_cons, List.length_nil]
        rcases hgap with hgap | hgap
        · have hrun : (ofRun lead).length = 1 := by simp [ofRun, hgap]
          omega
        · have hrun : (ofRun a.gap).length = 1 := by simp [ofRun, hgap]
          omega
      | cons b rest =>
        have hb : b.body.Core := hcore b.body (by simp [Tiling.bodies])
        simp only [withGaps, Tiling.splice, List.flatMap_cons, withBlanks_core ha,
          withBlanks_core hb, List.length_append, List.length_cons, List.length_nil]
        omega
    · refine ⟨a.body, ?_, ?_⟩
      · simp [Tiling.bodies, cores_core ha]
      · simp [withGaps, Tiling.splice, withBlanks_core ha]

/-- **What a step inwards builds**, whatever the text. -/
theorem built_byForm (mark : Text → Markup) (text : Text) :
    Built mark text (byForm mark text) := by
  unfold byForm
  cases hf : Form.of text with
  | atom c =>
    cases Form.found_of_eq hf with
    | atom atomic => exact .atom atomic
  | call path b =>
    have hcores : innerCores text
        = if Vocabulary.isPrimitive path then cores b.body else argumentCores b.body := by
      rw [innerCores, hf]
    cases Form.found_of_eq hf with
    | call named _ read opener =>
      have hcloser := (brackets_of_bracketed? read).2
      simp only [opener]
      split
      · rename_i hprimitive
        rw [if_pos hprimitive] at hcores
        exact .call (Or.inr rfl) named hcloser (hcores ▸ row_withBlanks mark b.body)
      · rename_i hother
        rw [if_neg hother] at hcores
        exact .call (Or.inl rfl) named hcloser (hcores ▸ row_argumentsBy mark b.body)
  | container b =>
    have hcores : innerCores text = argumentCores b.body := by rw [innerCores, hf]
    cases Form.found_of_eq hf with
    | container read =>
      obtain ⟨hopener, hcloser⟩ := brackets_of_bracketed? read
      exact .container hopener hcloser (hcores ▸ row_argumentsBy mark b.body)
  | phrase parts =>
    cases Form.found_of_eq hf with
    | phrase whole =>
      have hcores : innerCores text = (Division.wordsOnly text).bodies.flatMap cores := by
        rw [innerCores, hf]
      obtain ⟨hseveral, hword⟩ := words_of_isWhole whole mark
      exact .phrase hseveral (hcores ▸ hword) (hcores ▸ row_words mark text)

/-- Without room a piece is marked as a whole. -/
theorem exists_whole_eq_single (text : Text) :
    ∃ c ∈ Category.atoms, whole text = single c text := by
  unfold whole
  cases hf : Form.of text with
  | atom c =>
    cases Form.found_of_eq hf with
    | atom atomic => exact ⟨c, atomic, rfl⟩
  | call path b => exact ⟨.default, by decide, rfl⟩
  | container b => exact ⟨.default, by decide, rfl⟩
  | phrase parts => exact ⟨.default, by decide, rfl⟩

/-! ## 3. The categories in some markup -/

mutual

/-- Whether all categories in some markup pass a test. -/
def everyCategory (p : Category → Bool) : Markup → Bool
  | .run _ => true
  | .group c children => p c && everyCategoryAll p children

/-- Whether all categories in a list of markup pass a test. -/
def everyCategoryAll (p : Category → Bool) : List Markup → Bool
  | [] => true
  | m :: ms => everyCategory p m && everyCategoryAll p ms

end

variable {p : Category → Bool}

theorem everyCategoryAll_iff {ms : List Markup} :
    everyCategoryAll p ms = true ↔ ∀ m ∈ ms, everyCategory p m = true := by
  induction ms with
  | nil => simp [everyCategoryAll]
  | cons m ms ih => simp [everyCategoryAll, ih]

theorem everyCategory_run (text : Text) : everyCategory p (.run text) = true := by
  simp [everyCategory]

theorem everyCategory_single {c : Category} (hc : p c = true) (text : Text) :
    everyCategory p (single c text) = true := by
  simp [single, everyCategory, everyCategoryAll, hc]

/-- A row passes if the pieces that are marked in it pass. -/
theorem Row.everyCategoryAll {loose : Char → Bool} {marked : List Text} {ms : List Markup}
    (h : Row loose mark marked ms) (hmark : ∀ s, everyCategory p (mark s) = true) :
    everyCategoryAll p ms = true := by
  refine everyCategoryAll_iff.mpr ?_
  intro m hm
  rcases h m hm with ⟨s, rfl, -, -⟩ | ⟨s, -, rfl⟩
  · exact everyCategory_run s
  · exact hmark s

/-- The brackets of a call or a container around a list of markup that passes. -/
theorem everyCategory_bracketed {c : Category} (hc : p c = true) {head last : Text}
    {ms : List Markup} (hms : everyCategoryAll p ms = true) :
    everyCategory p (.group c (.run head :: (ms ++ [.run last]))) = true := by
  simp only [everyCategory, everyCategoryAll, hc, Bool.true_and]
  refine everyCategoryAll_iff.mpr ?_
  intro m hm
  rcases List.mem_append.mp hm with hm | hm
  · exact everyCategoryAll_iff.mp hms m hm
  · rw [List.mem_singleton.mp hm]
    exact everyCategory_run last

/-! ## 4. Pieces and lines are marked with styled categories only -/

/-- One step inwards: if the parts have styled categories only, so has the piece. -/
theorem Built.everyCategory {text : Text} {m : Markup} (h : Built mark text m)
    (hmark : ∀ s, everyCategory Category.isStyled (mark s) = true) :
    everyCategory Category.isStyled m = true := by
  cases h with
  | atom atomic => exact everyCategory_single (Category.isStyled_of_mem_atoms atomic) text
  | call kind _ _ row =>
    rcases kind with rfl | rfl
    · exact everyCategory_bracketed rfl (row.everyCategoryAll hmark)
    · exact everyCategory_bracketed rfl (row.everyCategoryAll hmark)
  | container _ _ row => exact everyCategory_bracketed rfl (row.everyCategoryAll hmark)
  | phrase _ _ row => exact (Bool.and_eq_true _ _).mpr ⟨rfl, row.everyCategoryAll hmark⟩

theorem everyCategory_whole (text : Text) :
    everyCategory Category.isStyled (whole text) = true := by
  obtain ⟨c, hc, hwhole⟩ := exists_whole_eq_single text
  rw [hwhole]
  exact everyCategory_single (Category.isStyled_of_mem_atoms hc) text

/-- **However far inwards**, a piece is marked with styled categories only. -/
theorem everyCategory_within (room : Nat) (text : Text) :
    everyCategory Category.isStyled (within room text) = true := by
  induction room generalizing text with
  | zero => exact everyCategory_whole text
  | succ room ih => exact (built_byForm (within room) text).everyCategory ih

/-- **The markup of a line** has styled categories only. -/
theorem everyCategoryAll_ofLine (text : Text) :
    everyCategoryAll Category.isStyled (ofLine text) = true :=
  (row_lineBy _ text).everyCategoryAll (everyCategory_within depthLimit)

end Markup

end Highlighter
