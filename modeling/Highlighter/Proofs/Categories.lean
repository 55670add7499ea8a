/-
# The category of a piece is given by its grammar

A piece is tried for a keyword, an operator, a call, a literal, a number and a container, in this
order, and the first test that it passes decides.  Read off the tests, the category of a number
would be "a number that is no keyword, no operator, no call and no literal".  But no text passes
two of the tests: whichever it passes, that one decides (`of_eq_of_form?`).  Two things follow.

* Each category is a grammar by itself, which does not mention the others: `Markup.Written`.  It
  is sound by what each test says of a text (`written_of_form?`), and complete because the tests
  exclude one another (`Written.category_of`).
* The order of the tests does not matter: `Form.byRules` tries them in any order, and
  `Markup.withinBy_eq` carries this through all levels of the markup.

The brackets of a call are not compared, here as everywhere:
`category_of_call_closed_by_square_bracket`.
-/
import Highlighter.Proofs.Lexemes

namespace Highlighter

/-! ## 1. Words and lexemes exclude one another -/

theorem Vocabulary.not_isKeyword_of_isOperator {text : Text} (h : isOperator text = true) :
    isKeyword text = false := by
  have hnone : operators.all (fun w => !isKeyword w) = true := by decide +kernel
  have hmem : text ∈ operators := by simpa [isOperator] using h
  simpa using List.all_eq_true.mp hnone text hmem

/-- No keyword and no operator is a literal or a number.  The minus sign needs digits. -/
theorem Vocabulary.not_word_of_lexeme {text : Text}
    (h : (Literal.isLiteral text || Number.isNumber text) = true) :
    isKeyword text = false ∧ isOperator text = false :=
  not_word (p := fun w => Literal.isLiteral w || Number.isNumber w) (by decide +kernel) h

/-- A number does not begin with a quote. -/
theorem Number.not_isLiteral_of_isNumber {text : Text} (h : isNumber text = true) :
    Literal.isLiteral text = false := by
  cases text with
  | nil => rfl
  | cons c cs =>
    have hc := mem_of_isNumber h c List.mem_cons_self
    refine Literal.not_isLiteral_of_head ?_ ?_
    · rintro rfl
      exact absurd hc (by decide)
    · rintro rfl
      exact absurd hc (by decide)

namespace Form

theorem call?_eq_none_of_lexeme {text : Text}
    (h : (Literal.isLiteral text || Number.isNumber text) = true) : call? text = none := by
  cases hcall : call? text with
  | none => rfl
  | some found =>
    obtain ⟨hliteral, hnumber⟩ := not_lexeme_of_call? hcall
    rw [hliteral, hnumber] at h
    exact absurd h Bool.false_ne_true

/-! ## 2. The tests, in any order -/

/-- A test that can decide the form of a piece. -/
inductive Rule where
  | keyword
  | operator
  | call
  | literal
  | number
  | container
  deriving Repr, DecidableEq

namespace Rule

/-- The tests in the order in which a piece is tried. -/
def inOrder : List Rule := [keyword, operator, call, literal, number, container]

/-- The form that a text has by the test, if it passes.  If `nested` is false, the tests for calls
and containers let nothing pass. -/
def form? (nested : Bool) (text : Text) : Rule → Option Form
  | keyword => if Vocabulary.isKeyword text then some (.atom .keyword) else none
  | operator => if Vocabulary.isOperator text then some (.atom .operator) else none
  | call => (if nested then call? text else none).map fun found => .call found.1 found.2
  | literal => if Literal.isLiteral text then some (.atom .string) else none
  | number => if Number.isNumber text then some (.atom .numeric) else none
  | container => (if nested then bracketed? text else none).map .container

end Rule

/-- The form of a text that passes none of the tests. -/
def remainder (nested : Bool) (text : Text) : Form :=
  if Name.isField text then .atom .default
  else if nested then ofWords text else .atom .default

/-- The form of a piece by the first of the given tests that it passes. -/
def byRules (rules : List Rule) (nested : Bool) (text : Text) : Form :=
  (rules.findSome? (Rule.form? nested text)).getD (remainder nested text)

variable {text : Text} {nested : Bool} {f : Form}

/-- In their own order the tests give the form of a piece. -/
theorem byRules_inOrder (nested : Bool) (text : Text) :
    byRules Rule.inOrder nested text = guarded nested text := by
  simp only [byRules, guarded, Rule.inOrder, List.findSome?_cons, List.findSome?_nil, Rule.form?]
  cases Vocabulary.isKeyword text with
  | true => rfl
  | false =>
    cases Vocabulary.isOperator text with
    | true => rfl
    | false =>
      cases (if nested then call? text else none) with
      | some found => rfl
      | none =>
        cases Literal.isLiteral text with
        | true => rfl
        | false =>
          cases Number.isNumber text with
          | true => rfl
          | false =>
            cases (if nested then bracketed? text else none) with
            | some b => rfl
            | none => rfl

/-- With room for parts a test passes what it passes without. -/
theorem Rule.form?_of_nested {r : Rule} (h : r.form? nested text = some f) :
    r.form? true text = some f := by
  cases nested with
  | true => exact h
  | false =>
    cases r with
    | call => exact absurd h (by simp [form?])
    | container => exact absurd h (by simp [form?])
    | keyword => exact h
    | operator => exact h
    | literal => exact h
    | number => exact h

/-- **Any test decides.**  Whichever test a text passes, the text has the form that this test
gives, since it passes none of those in front. -/
theorem of_eq_of_form? {r : Rule} (h : r.form? true text = some f) : Form.of text = f := by
  cases r with
  | keyword =>
    obtain ⟨hkeyword, ⟨⟩⟩ := Option.ite_none_right_eq_some.mp h
    simp [Form.of, hkeyword]
  | operator =>
    obtain ⟨hoperator, ⟨⟩⟩ := Option.ite_none_right_eq_some.mp h
    simp [Form.of, hoperator, Vocabulary.not_isKeyword_of_isOperator hoperator]
  | call =>
    obtain ⟨⟨path, b⟩, hcall, rfl⟩ := Option.map_eq_some_iff.mp h
    obtain ⟨hpath, rfl, hread, hopener⟩ := call?_eq_some hcall
    exact of_call hpath hread hopener
  | literal =>
    obtain ⟨hliteral, ⟨⟩⟩ := Option.ite_none_right_eq_some.mp h
    have hlexeme : (Literal.isLiteral text || Number.isNumber text) = true := by simp [hliteral]
    obtain ⟨hkeyword, hoperator⟩ := Vocabulary.not_word_of_lexeme hlexeme
    simp [Form.of, hkeyword, hoperator, call?_eq_none_of_lexeme hlexeme, hliteral]
  | number =>
    obtain ⟨hnumber, ⟨⟩⟩ := Option.ite_none_right_eq_some.mp h
    have hlexeme : (Literal.isLiteral text || Number.isNumber text) = true := by simp [hnumber]
    obtain ⟨hkeyword, hoperator⟩ := Vocabulary.not_word_of_lexeme hlexeme
    simp [Form.of, hkeyword, hoperator, call?_eq_none_of_lexeme hlexeme,
      Number.not_isLiteral_of_isNumber hnumber, hnumber]
  | container =>
    obtain ⟨b, hread, rfl⟩ := Option.map_eq_some_iff.mp h
    rw [if_pos rfl] at hread
    have htext : text = b.text := bracketed?_eq_some hread
    subst htext
    exact of_container hread

/-- It does not matter where in the list the test stands that a text passes. -/
theorem findSome?_form?_eq_some_iff {rules : List Rule} :
    rules.findSome? (Rule.form? nested text) = some f ↔
      ∃ r ∈ rules, r.form? nested text = some f := by
  constructor
  · exact List.exists_of_findSome?_eq_some
  · rintro ⟨r, hr, hform⟩
    cases hfirst : rules.findSome? (Rule.form? nested text) with
    | none =>
      rw [List.findSome?_eq_none_iff.mp hfirst r hr] at hform
      exact hform
    | some f' =>
      obtain ⟨r', -, hform'⟩ := List.exists_of_findSome?_eq_some hfirst
      rw [← of_eq_of_form? (Rule.form?_of_nested hform),
        of_eq_of_form? (Rule.form?_of_nested hform')]

/-- **The order of the tests does not matter.** -/
theorem byRules_perm {rules : List Rule} (h : rules.Perm Rule.inOrder) (nested : Bool)
    (text : Text) : byRules rules nested text = guarded nested text := by
  rw [← byRules_inOrder, byRules, byRules]
  congr 1
  ext f
  simp only [findSome?_form?_eq_some_iff, h.mem_iff]

/-! ## 3. The category of a form -/

/-- The category over a piece of the given form. -/
def category : Form → Category
  | .atom c => c
  | .call path _ => if Vocabulary.isPrimitive path then .primitive else .function
  | .container _ => .default
  | .phrase _ => .default

theorem category_remainder (nested : Bool) (text : Text) :
    (remainder nested text).category = .default := by
  unfold remainder ofWords
  split
  · rfl
  · split
    · simp only
      split
      · rfl
      · rfl
    · rfl

end Form

namespace Markup

open Form (Rule)

/-- The grammar of each category that has one.  `ends` tells the characters that may close a
call. -/
inductive Written (ends : Char → Bool) : Category → Text → Prop
  | keyword {t : Text} (word : t ∈ Vocabulary.keywords) : Written ends .keyword t
  | operator {t : Text} (sign : t ∈ Vocabulary.operators) : Written ends .operator t
  | primitive {path t : Text} (known : path ∈ Vocabulary.primitives)
      (call : IsCall ends path t) : Written ends .primitive t
  | function {path t : Text} (other : path ∉ Vocabulary.primitives)
      (call : IsCall ends path t) : Written ends .function t
  | string {t : Text} (literal : IsLiteral t) : Written ends .string t
  | numeric {t : Text} (decimal : IsDecimal t) : Written ends .numeric t

variable {text : Text} {c : Category}

/-- What a text is by a test, it is by a grammar, unless it is a container. -/
theorem written_of_form? {r : Rule} {f : Form} (h : r.form? true text = some f) :
    f.category = .default ∨ Written isCloser f.category text := by
  cases r with
  | keyword =>
    obtain ⟨hkeyword, ⟨⟩⟩ := Option.ite_none_right_eq_some.mp h
    exact Or.inr (.keyword (by simpa [Vocabulary.isKeyword] using hkeyword))
  | operator =>
    obtain ⟨hoperator, ⟨⟩⟩ := Option.ite_none_right_eq_some.mp h
    exact Or.inr (.operator (by simpa [Vocabulary.isOperator] using hoperator))
  | call =>
    obtain ⟨⟨path, b⟩, hcall, rfl⟩ := Option.map_eq_some_iff.mp h
    have hwritten := Form.exists_call?_iff.mp ⟨b, hcall⟩
    right
    simp only [Form.category]
    split
    · rename_i hknown
      exact .primitive (by simpa [Vocabulary.isPrimitive] using hknown) hwritten
    · rename_i hother
      exact .function (by simpa [Vocabulary.isPrimitive] using hother) hwritten
  | literal =>
    obtain ⟨hliteral, ⟨⟩⟩ := Option.ite_none_right_eq_some.mp h
    exact Or.inr (.string (Literal.isLiteral_iff.mp hliteral))
  | number =>
    obtain ⟨hnumber, ⟨⟩⟩ := Option.ite_none_right_eq_some.mp h
    exact Or.inr (.numeric (Number.isNumber_iff.mp hnumber))
  | container =>
    obtain ⟨b, -, rfl⟩ := Option.map_eq_some_iff.mp h
    exact Or.inl rfl

/-- What a text is by a grammar, it is by a test. -/
theorem Written.exists_form? (h : Written isCloser c text) :
    ∃ (r : Rule) (f : Form), r.form? true text = some f ∧ f.category = c := by
  cases h with
  | keyword word =>
    exact ⟨.keyword, _, if_pos (by simpa [Vocabulary.isKeyword] using word), rfl⟩
  | operator sign =>
    exact ⟨.operator, _, if_pos (by simpa [Vocabulary.isOperator] using sign), rfl⟩
  | @primitive path _ known call =>
    obtain ⟨b, hcall⟩ := Form.exists_call?_iff.mpr call
    exact ⟨.call, .call path b, by simp [Rule.form?, hcall],
      if_pos (by simpa [Vocabulary.isPrimitive] using known)⟩
  | @function path _ other call =>
    obtain ⟨b, hcall⟩ := Form.exists_call?_iff.mpr call
    exact ⟨.call, .call path b, by simp [Rule.form?, hcall],
      if_neg (by simpa [Vocabulary.isPrimitive] using other)⟩
  | string literal => exact ⟨.literal, _, if_pos (Literal.isLiteral_iff.mpr literal), rfl⟩
  | numeric decimal => exact ⟨.number, _, if_pos (Number.isNumber_iff.mpr decimal), rfl⟩

theorem Written.category_of (h : Written isCloser c text) : (Form.of text).category = c := by
  obtain ⟨r, f, hform, hcategory⟩ := h.exists_form?
  rw [Form.of_eq_of_form? hform, hcategory]

/-- A text has the default category, or one whose grammar allows it. -/
theorem written_category (text : Text) :
    (Form.of text).category = .default ∨ Written isCloser (Form.of text).category text := by
  rw [← Form.guarded_true, ← Form.byRules_inOrder, Form.byRules]
  cases hfirst : Rule.inOrder.findSome? (Rule.form? true text) with
  | none => exact Or.inl (Form.category_remainder true text)
  | some f =>
    obtain ⟨r, -, hform⟩ := List.exists_of_findSome?_eq_some hfirst
    exact written_of_form? hform

theorem Written.ne_default {ends : Char → Bool} (h : Written ends c text) : c ≠ .default := by
  cases h <;> decide

/-! ## 4. Markup by the tests in any order -/

/-- Marks a text that has the given form, its parts by `mark`. -/
def ofForm (mark : Text → Markup) (text : Text) : Form → Markup
  | .atom c => single c text
  | .call path b =>
    if Vocabulary.isPrimitive path then
      .group .primitive (run (path ++ [b.opener]) :: (withBlanks mark b.body ++ [run [b.closer]]))
    else
      .group .function (run (path ++ [b.opener]) :: (argumentsBy mark b.body ++ [run [b.closer]]))
  | .container b =>
    .group .default (run [b.opener] :: (argumentsBy mark b.body ++ [run [b.closer]]))
  | .phrase parts => .group .default (withGaps (withBlanks mark) parts)

theorem byForm_eq_ofForm (mark : Text → Markup) (text : Text) :
    byForm mark text = ofForm mark text (Form.of text) := by
  unfold byForm
  cases Form.of text with
  | atom c => rfl
  | call path b => rfl
  | container b => rfl
  | phrase parts => rfl

theorem category_ofForm (mark : Text → Markup) (text : Text) (f : Form) :
    (ofForm mark text f).category = f.category := by
  cases f with
  | atom c => rfl
  | call path b =>
    simp only [ofForm, Form.category]
    split
    · rfl
    · rfl
  | container b => rfl
  | phrase parts => rfl

/-- Marks a piece as `within` does, but tries the tests in the given order at every level. -/
def withinBy (rules : List Rule) : (room : Nat) → Text → Markup
  | 0, text => ofForm whole text (Form.byRules rules false text)
  | room + 1, text => ofForm (withinBy rules room) text (Form.byRules rules true text)

/-- **At no level does the order of the tests matter.** -/
theorem withinBy_eq {rules : List Rule} (h : rules.Perm Rule.inOrder) (room : Nat) :
    withinBy rules room = within room := by
  induction room with
  | zero =>
    funext text
    obtain ⟨c, hatom, hwhole⟩ := whole_eq_single_of_guarded text
    rw [withinBy, within, Form.byRules_perm h, hatom, hwhole, ofForm]
  | succ room ih =>
    funext text
    rw [withinBy, within, ih, Form.byRules_perm h, Form.guarded_true, byForm_eq_ofForm]

theorem category_ofPiece (h : text.Core) : (ofPiece text).category = (Form.of text).category := by
  rw [ofPiece, ofPieceWithin_core h, depthLimit, within, byForm_eq_ofForm, category_ofForm]

/-! ## 5. Categories by grammar -/

/-- **The category of a piece is given by its grammar.**  A core has a category other than the
default one exactly if the grammar of this category allows it, and the default one exactly if no
grammar does.  The grammars exclude one another and that of groups, and a core is marked in the
same way in whatever order it is tried for them. -/
theorem categories_by_grammar :
    (∀ t : Text, t.Core →
      (∀ c, c ≠ .default → ((ofPiece t).category = c ↔ Written isCloser c t)) ∧
      ((ofPiece t).category = .default ↔ ∀ c, ¬ Written isCloser c t)) ∧
    (∀ (t : Text) (c c' : Category),
      Written isCloser c t → Written isCloser c' t → c = c') ∧
    (∀ (t : Text) (c : Category), IsGroup t → ¬ Written isCloser c t) ∧
    ∀ rules : List Rule, rules.Perm Rule.inOrder → ∀ t : Text, t.Core →
      withinBy rules depthLimit t = ofPiece t := by
  refine ⟨?_, ?_, ?_, ?_⟩
  · intro t hcore
    rw [category_ofPiece hcore]
    constructor
    · intro c hc
      constructor
      · rintro rfl
        exact (written_category t).resolve_left hc
      · exact Written.category_of
    · constructor
      · intro hdefault c hwritten
        exact hwritten.ne_default (hwritten.category_of.symm.trans hdefault)
      · intro hnone
        exact (written_category t).resolve_right (hnone _)
  · intro t c c' hwritten hwritten'
    exact hwritten.category_of.symm.trans hwritten'.category_of
  · intro t c hgroup hwritten
    obtain ⟨b, hread⟩ := isGroup_iff.mp hgroup
    have hform : Rule.container.form? true t = some (.container b) := by
      simp [Rule.form?, hread]
    have hdefault : (Form.of t).category = .default := by rw [Form.of_eq_of_form? hform]; rfl
    exact hwritten.ne_default (hwritten.category_of.symm.trans hdefault)
  · intro rules hperm t hcore
    rw [withinBy_eq hperm, ofPiece, ofPieceWithin_core hcore]

/-- A conversion, a call whose name only ends like one, and a group; the tests in the opposite
order. -/
theorem categories_by_grammar_conversions :
    Text.Core "int(x)".toList ∧ Text.Core "np.int(x)".toList ∧
      Rule.inOrder.reverse.Perm Rule.inOrder ∧
      Written isCloser .primitive "int(x)".toList ∧
      Written isCloser .function "np.int(x)".toList ∧
      IsGroup "(x)".toList ∧ ¬ Written isCloser .function "(x)".toList ∧
      withinBy Rule.inOrder.reverse depthLimit "int(x)".toList = ofPiece "int(x)".toList := by
  have hcore : Text.Core "int(x)".toList := ⟨by decide, by decide⟩
  have hdotted : Text.Core "np.int(x)".toList := ⟨by decide, by decide⟩
  have hgroup : IsGroup "(x)".toList := isGroup_iff.mpr ⟨⟨'(', ['x'], ')'⟩, by decide⟩
  have hperm : Rule.inOrder.reverse.Perm Rule.inOrder := List.reverse_perm _
  exact ⟨hcore, hdotted, hperm,
    ((categories_by_grammar.1 _ hcore).1 .primitive (by decide)).mp (by decide +kernel),
    ((categories_by_grammar.1 _ hdotted).1 .function (by decide)).mp (by decide +kernel),
    hgroup, categories_by_grammar.2.2.1 _ _ hgroup, categories_by_grammar.2.2.2 _ hperm _ hcore⟩

/-- A call that a square bracket closes has the category of calls, and is no call if only a
parenthesis can close one. -/
theorem category_of_call_closed_by_square_bracket :
    Text.Core "f(1]".toList ∧
      ¬ ((ofPiece "f(1]".toList).category = .function ↔
        Written (· == ')') .function "f(1]".toList) := by
  refine ⟨⟨by decide, by decide⟩, ?_⟩
  intro h
  have hfunction : (ofPiece "f(1]".toList).category = .function := by decide +kernel
  cases h.mp hfunction with
  | function _ call =>
    obtain ⟨closer, hlast, hcloses⟩ := call.exists_last
    have hsquare : ']' = closer := Option.some.inj hlast
    subst hsquare
    exact absurd hcloses (by decide)

end Markup

end Highlighter
