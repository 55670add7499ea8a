/-
# A string literal is kept whole, unless it is taken for a comparison

What a literal holds can hint at any kind of statement: it may mention an import or a definition,
hold an equals sign between blanks, or commas.  Whatever the kind, the literal survives, for one of
two reasons.

* The rule begins with a word, and a literal begins with a quote.  The rule does not apply, and the
  line is divided into words and colons instead (`tiling?_eq_none_of_quote`).
* The line is divided, at blanks, colons or commas, and a division does not look into literals
  (`Division.along_literal`).

Comparisons are the exception.  Their rule does not look for quotes, and in a literal that holds a
comparator it always applies, since there is a quote on either side (`exists_first_of_literal`).
-/
import Highlighter.Proofs.Categories
import Highlighter.Proofs.Comparisons

namespace Highlighter

/-! ## 1. Literals are not divided -/

theorem not_isBlank_of_isQuote {c : Char} (h : isQuote c = true) : isBlank c = false := by
  simp only [isQuote, Bool.or_eq_true, beq_iff_eq] at h
  rcases h with rfl | rfl <;> decide

theorem IsLiteral.core {s : Text} (h : IsLiteral s) : s.Core := by
  cases h with
  | @mk mark body quote _ =>
    have hmark := Text.core_singleton (not_isBlank_of_isQuote quote)
    exact hmark.join hmark body

/-- **A literal is not divided**, whatever the separators are. -/
theorem Division.along_literal {s : Text} (h : IsLiteral s) (role : Char → Role) :
    along role s = .piece s .empty := by
  have hbalanced : Balanced (fun _ => false) s := by
    cases h with
    | mk quote inner => exact .literal quote inner .nil
  have hscan : scan role .start (s ++ []) = ⟨s ++ [], .empty⟩ :=
    scan_balanced hbalanced (fun _ hc => absurd hc Bool.false_ne_true) []
  rw [List.append_nil] at hscan
  rw [along, hscan, Cut.tiling, Tiling.trimmed_core h.core]

namespace Statement

variable {s : Text}

/-- No word of a rule begins with a quote. -/
theorem after?_eq_none_of_quote {c : Char} (hc : isQuote c = true) (cs : Text) :
    ∀ word ∈ [Import.importWord, Import.fromWord, Definition.defWord, Definition.classWord,
      Conditional.ifWord], Text.after? word (c :: cs) = none := by
  simp only [isQuote, Bool.or_eq_true, beq_iff_eq] at hc
  rcases hc with rfl | rfl
  all_goals
    simp [Import.importWord, Import.fromWord, Definition.defWord, Definition.classWord,
      Conditional.ifWord, Text.after?]

/-- The rules that begin with a word or a name do not apply to a text that begins with a quote. -/
theorem tiling?_eq_none_of_quote {c : Char} (hc : isQuote c = true) (cs : Text) :
    ∀ k ∈ [imports, definition, assignment, conditional, call], k.tiling? (c :: cs) = none := by
  have hchar : isWord c = false ∧ isWordOrDot c = false := by
    simp only [isQuote, Bool.or_eq_true, beq_iff_eq] at hc
    rcases hc with rfl | rfl <;> decide
  have hword : Text.word? (c :: cs) = none := by simp [Text.word?, Text.run?, hchar.1]
  have hpath : Name.path? (c :: cs) = none := by
    have hempty : Name.isPath [] = false := by decide
    simp [Name.path?, hchar.2, hempty]
  have hafter := after?_eq_none_of_quote hc cs
  simp only [List.forall_mem_cons] at hafter ⊢
  obtain ⟨himport, hfrom, hdef, hclass, hif, -⟩ := hafter
  refine ⟨?_, ?_, ?_, ?_, ?_, fun _ hk => absurd hk List.not_mem_nil⟩
  · simp [tiling?, Import.tiling?, Import.direct?, Import.fromModule?, himport, hfrom]
  · simp [tiling?, Definition.tiling?, Definition.keyword?, hdef, hclass]
  · simp [tiling?, Assignment.tiling?, Assignment.target?, hword]
  · simp [tiling?, Conditional.tiling?, hif]
  · simp [tiling?, Call.tiling?, Call.head?, hpath]

/-- **A literal is a line of one piece**, unless it is taken for a comparison. -/
theorem dissectTrimmed_literal (h : IsLiteral s) (hkind : of s ≠ .comparison) :
    dissectTrimmed s = .piece s .empty := by
  have hwords : Division.wordsAndColons s = .piece s .empty := Division.along_literal h _
  have hnone : ∀ k ∈ [imports, definition, assignment, conditional, call], k.tiling? s = none := by
    cases h with
    | mk quote _ => exact tiling?_eq_none_of_quote quote _
  have hlisting : Listing.parts s = .piece s .empty := by
    have hgroup : bracketed? s = none := by
      cases h with
      | @mk mark body quote _ =>
        have hopener : isOpener mark = false :=
          Bool.eq_false_iff.mpr fun h => by simp [not_quote_of_isOpener h] at quote
        exact bracketed?_eq_none hopener _
    rw [Listing.parts, hgroup]
    exact Division.along_literal h _
  rw [dissectTrimmed]
  cases hof : of s with
  | imports => rw [hnone _ (by simp), Option.getD_none, hwords]
  | definition => rw [hnone _ (by simp), Option.getD_none, hwords]
  | assignment => rw [hnone _ (by simp), Option.getD_none, hwords]
  | conditional => rw [hnone _ (by simp), Option.getD_none, hwords]
  | call => rw [hnone _ (by simp), Option.getD_none, hwords]
  | comparison => exact absurd hof hkind
  | listing => exact hlisting
  | other => exact hwords

/-! ## 2. Literals that are taken for comparisons -/

/-- A line hints at its kind. -/
theorem hintedBy_of (line : Text) : (of line).hintedBy line.trim = true := by
  rw [of]
  cases hfind : inOrder.find? (·.hintedBy line.trim) with
  | none => rfl
  | some k => simpa using List.find?_some hfind

namespace Comparison

/-- **In a literal that holds a comparator** the first one stands between the quotes. -/
theorem exists_first_of_literal {mark : Char} {body : Text} (hquote : isQuote mark = true)
    (hhint : Comparison.hintedBy (mark :: (body ++ [mark])) = true) :
    ∃ before sign after,
      FirstComparator (mark :: (body ++ [mark])) (mark :: before) sign (after ++ [mark]) := by
  obtain ⟨sign, hsign, b, a, hinfix⟩ : ∃ sign, (sign = equal ∨ sign = unequal) ∧
      sign <:+: mark :: (body ++ [mark]) := by
    rcases hintedBy_iff.mp hhint with h | h
    · exact ⟨equal, Or.inl rfl, h⟩
    · exact ⟨unequal, Or.inr rfl, h⟩
  have hb : b ≠ [] := by
    rintro rfl
    have hhead := congrArg List.head? hinfix
    rcases hsign with rfl | rfl
    all_goals
      obtain rfl := Option.some.inj hhead
      exact absurd hquote (by decide)
  have hat : ComparatorAt (mark :: (body ++ [mark])) b sign a :=
    ⟨by rw [← hinfix, List.append_assoc], hsign, Text.byteSize_pos hb⟩
  obtain ⟨before, sign, after, hfirst⟩ := hat.exists_first
  obtain ⟨c, before, rfl⟩ := List.exists_cons_of_ne_nil hfirst.before_ne_nil
  obtain rfl : mark = c := Option.some.inj (congrArg List.head? hfirst.written)
  have hlast := congrArg List.getLast? hfirst.written
  rw [← List.cons_append, List.getLast?_concat] at hlast
  rcases List.eq_nil_or_concat' after with rfl | ⟨after, d, rfl⟩
  · rw [List.append_nil, List.getLast?_append] at hlast
    rcases hfirst.comparator with rfl | rfl
    all_goals
      obtain rfl : mark = '=' := Option.some.inj hlast
      exact absurd hquote (by decide)
  · rw [← List.append_assoc, ← List.append_assoc, List.getLast?_concat] at hlast
    obtain rfl := Option.some.inj hlast
    exact ⟨before, sign, after, hfirst⟩

end Comparison

end Statement

namespace Markup

open Statement Tiling

/-- **A comparator is marked as an operator**, between the markup of the two sides. -/
theorem ofLine_comparison {text before sign after : Text}
    (hkind : Statement.of text = .comparison)
    (hfirst : Comparison.FirstComparator text before sign after) (hcore : text.Core)
    (hline : text.oneLine = true) (hne : after ≠ []) :
    ∃ pre post, ofLine text = pre ++ single .operator sign :: post ∧ sourceAll pre = before ∧
      sourceAll post = after := by
  obtain ⟨right, hright, -⟩ := hfirst.exists_right hcore hline hne
  have hleft : before.trimEnd.Core :=
    (hfirst.written ▸ hcore).trimEnd_front hfirst.before_ne_nil
  obtain ⟨hsign, hform⟩ : sign.Core ∧ Form.of sign = .atom .operator := by
    rcases hfirst.comparator with rfl | rfl
    · exact ⟨⟨by decide, by decide⟩, by decide⟩
    · exact ⟨⟨by decide, by decide⟩, by decide⟩
  have hblanks : ∀ t, sourceAll (withBlanks (within depthLimit) t) = t :=
    sourceAll_withBlanks fun t => source_within depthLimit t
  refine ⟨within depthLimit before.trimEnd :: ofRun before.trailing,
    withGaps (withBlanks (within depthLimit)) right, ?_, ?_, ?_⟩
  · rw [ofLine_eq hcore hkind (Comparison.tiling?_of_first hfirst hcore hline hright),
      withGaps_core hleft _ (lead_piece hsign.nonempty _), withGaps_piece hsign.nonempty,
      withBlanks_core hsign, within_of_atom hform]
    rfl
  · rw [sourceAll, source_within, sourceAll_ofRun, Text.trimEnd_append_trailing]
  · rw [sourceAll_withGaps hblanks, Comparison.right?_keeps _ _ hright]

/-! ## 3. Lines that are literals -/

theorem ofLine_literal {s : Text} (h : IsLiteral s) (hkind : Statement.of s ≠ .comparison) :
    ofLine s = [single .string s] := by
  have hform : Form.of s = .atom .string :=
    Form.of_eq_of_form? (r := .literal) (if_pos (Literal.isLiteral_iff.mpr h))
  rw [ofLine, ofLineWithin, lineBy_core h.core, dissectTrimmed_literal h hkind,
    withGaps_last h.core, within_of_atom hform]

/-- A literal that is taken for a comparison is cut at a comparator between its quotes. -/
theorem exists_operator_of_literal {s : Text} (h : IsLiteral s) (hline : s.oneLine = true)
    (hkind : Statement.of s = .comparison) :
    ∃ mark before sign after pre post, s = mark :: (before ++ (sign ++ (after ++ [mark]))) ∧
      (sign = Comparison.equal ∨ sign = Comparison.unequal) ∧
      ofLine s = pre ++ single .operator sign :: post ∧
      sourceAll pre = mark :: before ∧ sourceAll post = after ++ [mark] := by
  have hcore := h.core
  have hhint := hintedBy_of s
  rw [hkind, hcore.trimmed] at hhint
  cases h with
  | @mk mark body quote _ =>
    obtain ⟨before, sign, after, hfirst⟩ := Comparison.exists_first_of_literal quote hhint
    obtain ⟨pre, post, hmarkup, hpre, hpost⟩ :=
      ofLine_comparison hkind hfirst hcore hline (by simp)
    exact ⟨mark, before, sign, after, pre, post, hfirst.written, hfirst.comparator, hmarkup,
      hpre, hpost⟩

/-- **A literal is kept whole unless it is taken for a comparison.**  A line that is one literal is
marked as a string exactly if its kind is not that of a comparison.  If it is, the markup of the
line has an operator at the top, which is a comparator from between the quotes. -/
theorem literals_kept_whole {s : Text} (h : IsLiteral s) (hline : s.oneLine = true) :
    (ofLine s = [single .string s] ↔ Statement.of s ≠ .comparison) ∧
    (Statement.of s = .comparison → ∃ mark before sign after pre post,
      s = mark :: (before ++ (sign ++ (after ++ [mark]))) ∧
      (sign = Comparison.equal ∨ sign = Comparison.unequal) ∧
      ofLine s = pre ++ single .operator sign :: post ∧
      sourceAll pre = mark :: before ∧ sourceAll post = after ++ [mark]) := by
  refine ⟨⟨?_, ofLine_literal h⟩, exists_operator_of_literal h hline⟩
  intro hwhole hkind
  obtain ⟨mark, before, sign, after, pre, post, -, -, hmarkup, -⟩ :=
    exists_operator_of_literal h hline hkind
  have hmem : single .operator sign ∈ ofLine s := by simp [hmarkup]
  rw [hwhole, List.mem_singleton] at hmem
  simp [single] at hmem

/-- A literal that mentions an import, an assignment and a list, with a bracket that is not closed,
and one with a comparator in it. -/
theorem literals_kept_whole_hints :
    (IsLiteral "'from a = (b, c:'".toList ∧ Text.oneLine "'from a = (b, c:'".toList = true ∧
      Statement.of "'from a = (b, c:'".toList ≠ .comparison ∧
      ofLine "'from a = (b, c:'".toList = [single .string "'from a = (b, c:'".toList]) ∧
    (IsLiteral "\"a != b\"".toList ∧ Text.oneLine "\"a != b\"".toList = true ∧
      Statement.of "\"a != b\"".toList = .comparison ∧
      ofLine "\"a != b\"".toList ≠ [single .string "\"a != b\"".toList]) := by
  have hwords : IsLiteral "'from a = (b, c:'".toList := Literal.isLiteral_iff.mp (by decide)
  have hwordsLine : Text.oneLine "'from a = (b, c:'".toList = true := by decide
  have hwordsKind : Statement.of "'from a = (b, c:'".toList ≠ .comparison := by decide +kernel
  have hsign : IsLiteral "\"a != b\"".toList := Literal.isLiteral_iff.mp (by decide)
  have hsignLine : Text.oneLine "\"a != b\"".toList = true := by decide
  have hsignKind : Statement.of "\"a != b\"".toList = .comparison := by decide +kernel
  have hwhole := (literals_kept_whole hwords hwordsLine).1.mpr hwordsKind
  refine ⟨⟨hwords, hwordsLine, hwordsKind, hwhole⟩, hsign, hsignLine, hsignKind, ?_⟩
  intro hcut
  exact (literals_kept_whole hsign hsignLine).1.mp hcut hsignKind

end Markup

end Highlighter
