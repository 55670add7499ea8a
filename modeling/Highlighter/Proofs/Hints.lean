/-
# A line that a rule can take apart hints at the rule's kind

Every kind of statement has two tests: a hint, by which a line is taken for the kind, and a rule,
which takes it apart.  They are written separately.  If a rule applied to a line that does not hint
at its kind, the rule would never be tried, and the line would be taken for a later kind.

For five kinds this cannot happen (`hintedBy_of_spans`): the hint asks for something that the rule
has to read anyway.  With line breaks it can happen to conditionals, whose hint is for one line.

Assignments are different.  The hint asks for one blank before the sign, and the rule for one at
least.  So the hint misses an assignment with more blanks there (`spread_assignment_not_hinted`),
unless its value happens to hint at another one (`Assignment.Parts.hintedBy_iff`).
-/
import Highlighter.Proofs.Rules

namespace Highlighter.Statement

variable {line : Text} {t : Tiling}

/-! ## 1. Hints that a rule includes -/

theorem Import.hintedBy_of_tiling? (h : Import.tiling? line = some t) :
    Import.hintedBy line = true := by
  rw [Import.tiling?, Option.or_eq_some_iff] at h
  refine Import.hintedBy_iff.mpr ?_
  rcases h with h | ⟨-, h⟩
  · simp only [Import.direct?, Option.bind_eq_bind, Option.bind_eq_some_iff] at h
    obtain ⟨rest, hrest, -⟩ := h
    exact Or.inl ⟨[], rest, (Text.after?_eq_some_iff.mp hrest).symm⟩
  · simp only [Import.fromModule?, Option.bind_eq_bind, Option.bind_eq_some_iff] at h
    obtain ⟨rest, hrest, -⟩ := h
    exact Or.inr ⟨[], rest, (Text.after?_eq_some_iff.mp hrest).symm⟩

theorem Definition.hintedBy_of_tiling? (h : Definition.tiling? line = some t) :
    Definition.hintedBy line = true := by
  obtain ⟨word, space, rest, tail, rfl, hword, -⟩ := Definition.exists_of_tiling? h
  refine Definition.hintedBy_iff.mpr ?_
  rcases hword with rfl | rfl
  · exact Or.inl ⟨[], _, rfl⟩
  · exact Or.inr ⟨[], _, rfl⟩

/-- The blank after the word ends it, and the line ends in the colon. -/
theorem Conditional.hintedBy_of_tiling? (hline : line.oneLine = true)
    (h : Conditional.tiling? line = some t) : Conditional.hintedBy line = true := by
  obtain ⟨before, condition, after, rfl, hne, hbefore, -, hafter, -⟩ :=
    Conditional.exists_of_tiling? h
  simp only [Conditional.written, Text.oneLine_append, Bool.and_eq_true] at hline
  exact Conditional.hintedBy_written hne ⟨hbefore, hline.2.1⟩ hline.2.2.1 ⟨hafter, hline.2.2.2.1⟩

theorem Call.hintedBy_of_tiling? (h : Call.tiling? line = some t) :
    Call.hintedBy line = true := by
  obtain ⟨path, arguments, rest, hhead, -, hline, -⟩ := Call.exists_of_tiling? h
  have hfirst : ')' ∈ (arguments ++ ')' :: rest).takeWhile (· != '\n') := by
    rw [List.takeWhile_append_of_pos (List.all_eq_true.mp hline),
      List.takeWhile_cons_of_pos (by decide)]
    simp
  rw [Call.hintedBy, hhead]
  exact List.contains_iff_mem.mpr hfirst

theorem Comparison.hintedBy_of_tiling? (h : Comparison.tiling? line = some t) :
    Comparison.hintedBy line = true := by
  obtain ⟨left, space, sign, after, right, rfl, -, hsign, -⟩ := Comparison.exists_of_tiling? h
  have hinfix : sign <:+: left ++ (space ++ (sign ++ after)) :=
    ⟨left ++ space, after, by simp only [List.append_assoc]⟩
  refine Comparison.hintedBy_iff.mpr ?_
  rcases hsign with rfl | rfl
  · exact Or.inl hinfix
  · exact Or.inr hinfix

/-- **The hint is part of the rule**, for all kinds with a rule of their own but assignments. -/
theorem hintedBy_of_spans (hline : line.oneLine = true) {kind : Statement}
    (hkind : kind ∈ [imports, definition, conditional, call, comparison])
    (h : kind.spans line ≠ []) : kind.hintedBy line = true := by
  obtain ⟨t, ht, -⟩ := exists_tiling_of_spans h
  simp only [List.mem_cons, List.not_mem_nil, or_false] at hkind
  rcases hkind with rfl | rfl | rfl | rfl | rfl
  · exact Import.hintedBy_of_tiling? ht
  · exact Definition.hintedBy_of_tiling? ht
  · exact Conditional.hintedBy_of_tiling? hline ht
  · exact Call.hintedBy_of_tiling? ht
  · exact Comparison.hintedBy_of_tiling? ht

/-! ## 2. The hint of an assignment -/

namespace Assignment

variable {text target space after value : Text}

theorem IsTarget.not_blank (h : IsTarget target) : ∀ c ∈ target, isBlank c = false := by
  cases h with
  | name name => exact name.not_blank
  | field name field =>
    rw [List.forall_mem_append, List.forall_mem_cons]
    exact ⟨name.not_blank, by decide, field.not_blank⟩

theorem Parts.spans_eq (h : Parts text target space after value) {t : Tiling}
    (ht : t = .piece target (.gap space (.piece ['='] (.gap after (.piece value .empty))))) :
    t.spans = [⟨0, target⟩, ⟨(target ++ space).byteSize, ['=']⟩,
      ⟨(target ++ (space ++ '=' :: after)).byteSize, value⟩] := by
  have hsign : Text.byteSize ['='] = 1 := rfl
  rw [ht, Tiling.spans_eq_spansAt, Tiling.spansAt_piece h.target.core.nonempty,
    Tiling.spansAt_gap, Tiling.spansAt_piece (List.cons_ne_nil _ _), Tiling.spansAt_gap,
    Tiling.spansAt_piece h.value_ne, Tiling.spansAt_empty]
  simp [Nat.add_assoc]

/-- No word character stands between the target and the value. -/
theorem Parts.not_word_between (h : Parts text target space after value) :
    ∀ c ∈ space ++ '=' :: after, isWord c = false := by
  rw [List.forall_mem_append, List.forall_mem_cons]
  exact ⟨fun c hc => not_isWord_of_isBlank (Text.blank_iff.mp h.space_blank c hc), by decide,
    fun c hc => not_isWord_of_isBlank (Text.blank_iff.mp h.after_blank c hc)⟩

/-- A target that ends right before a blank and the sign has one blank behind it. -/
theorem Parts.space_of_sign (h : Parts text target space after value) {x more rest : Text}
    {a b : Char} (htarget : target = x ++ a :: more) (hb : isBlank b = true)
    (hrest : more ++ (space ++ '=' :: (after ++ value)) = b :: '=' :: rest) :
    space.length = 1 := by
  cases more with
  | cons e more =>
    obtain ⟨rfl, -⟩ := List.cons.inj hrest
    have hword := h.target.not_blank e (by simp [htarget])
    rw [hb] at hword
    exact Bool.noConfusion hword
  | nil =>
    obtain ⟨e, space, rfl⟩ := List.exists_cons_of_ne_nil h.space_ne
    obtain ⟨-, hspace⟩ := List.cons.inj hrest
    cases space with
    | nil => rfl
    | cons c space =>
      obtain ⟨rfl, -⟩ := List.cons.inj hspace
      exact absurd (Text.blank_iff.mp h.space_blank '=' (by simp)) (by decide)

/-- **What hints at an assignment** in one: a single blank before its sign, or its value. -/
theorem Parts.hintedBy_iff (h : Parts text target space after value) :
    Assignment.hintedBy text = true ↔ space.length = 1 ∨ Assignment.hintedBy value = true := by
  constructor
  · intro hhint
    obtain ⟨a, b, d, ha, hb, hd, x, y, hin⟩ := Assignment.hintedBy_iff.mp hhint
    have htext : target ++ ((space ++ '=' :: after) ++ value) = x ++ a :: (b :: '=' :: d :: y) := by
      rw [List.append_assoc, List.cons_append, ← h.written, ← hin]
      simp
    -- the word character that hints is in the target or in the value
    rcases Text.append_eq_append_cons htext with ⟨more, hmore⟩ | ⟨mid, -, hmid⟩
    · have hsign : more ++ (space ++ '=' :: (after ++ value)) = b :: '=' :: (d :: y) := by
        rw [hmore] at htext
        simpa using htext
      exact Or.inl (h.space_of_sign hmore hb hsign)
    · rcases Text.append_eq_append_cons hmid with ⟨more, hmore⟩ | ⟨mid', -, hvalue⟩
      · have hother := h.not_word_between a (by simp [hmore])
        rw [ha] at hother
        exact Bool.noConfusion hother
      · refine Or.inr (Assignment.hintedBy_iff.mpr ⟨a, b, d, ha, hb, hd, mid', y, ?_⟩)
        rw [hvalue]
        simp
  · rintro (hone | hvalue)
    · obtain ⟨b, rfl⟩ := List.length_eq_one_iff.mp hone
      have hb : isBlank b = true := Text.blank_iff.mp h.space_blank b List.mem_cons_self
      rw [h.written]
      exact Assignment.hintedBy_eq h.target hb h.after_ne h.after_blank
    · obtain ⟨a, b, d, ha, hb, hd, hin⟩ := Assignment.hintedBy_iff.mp hvalue
      refine Assignment.hintedBy_iff.mpr ⟨a, b, d, ha, hb, hd, hin.trans ?_⟩
      rw [h.written]
      exact ⟨target ++ (space ++ '=' :: after), [], by simp⟩

end Assignment

/-! ## 3. Lines that are passed over -/

/-- A line is taken for a kind that is tested for later. -/
def PassedOver (kind : Statement) (line : Text) : Prop :=
  ∃ earlier later, inOrder = earlier ++ kind :: later ∧ of line ∈ later

theorem not_passedOver {kind : Statement} (h : kind.hintedBy line.trim = true) :
    ¬ PassedOver kind line := by
  rintro ⟨earlier, later, horder, hlater⟩
  have hnodup : (earlier ++ kind :: later).Nodup := horder ▸ by decide
  obtain ⟨-, htail, hdisjoint⟩ := List.nodup_append.mp hnodup
  have hkind : (kind :: later).find? (·.hintedBy line.trim) = some kind :=
    List.find?_cons_of_pos h
  have hof : of line = ((earlier.find? (·.hintedBy line.trim)).or (some kind)).getD other := by
    rw [of, horder, List.find?_append, hkind]
  cases hearlier : earlier.find? (·.hintedBy line.trim) with
  | none =>
    have hsame : of line = kind := by rw [hof, hearlier]; rfl
    exact (List.nodup_cons.mp htail).1 (hsame ▸ hlater)
  | some k =>
    have hsame : of line = k := by rw [hof, hearlier]; rfl
    exact hdisjoint k (List.mem_of_find?_eq_some hearlier) k
      (List.mem_cons_of_mem kind (hsame ▸ hlater)) rfl

/-- **A line that a rule can take apart hints at the rule's kind**, if it stands on one line, and so
it is not passed over for a later kind.  This is so for imports, definitions, conditionals, calls
and comparisons.  An assignment hints at one exactly if there is a single blank before its sign, or
its value hints at an assignment by itself. -/
theorem rules_apply_within_hints (htrim : line.trim = line) (hline : line.oneLine = true) :
    (∀ kind ∈ [imports, definition, conditional, call, comparison], kind.spans line ≠ [] →
      kind.hintedBy line = true ∧ ¬ PassedOver kind line) ∧
    (assignment.spans line ≠ [] → ∃ target space after value : Text,
      line = target ++ (space ++ '=' :: (after ++ value)) ∧
      space.blank = true ∧ after.blank = true ∧
      assignment.spans line = [⟨0, target⟩, ⟨(target ++ space).byteSize, ['=']⟩,
        ⟨(target ++ (space ++ '=' :: after)).byteSize, value⟩] ∧
      (assignment.hintedBy line = true ↔
        space.length = 1 ∨ assignment.hintedBy value = true) ∧
      (assignment.hintedBy line = true → ¬ PassedOver assignment line)) := by
  have hpassed : ∀ kind : Statement, kind.hintedBy line = true → ¬ PassedOver kind line :=
    fun kind hkind => not_passedOver (htrim.symm ▸ hkind)
  constructor
  · intro kind hkind hspans
    have hhint := hintedBy_of_spans hline hkind hspans
    exact ⟨hhint, hpassed kind hhint⟩
  · intro hspans
    obtain ⟨t, ht, hpieces⟩ := exists_tiling_of_spans hspans
    obtain ⟨target, space, after, value, hparts, heq⟩ := Assignment.exists_of_tiling? ht
    refine ⟨target, space, after, value, hparts.written, hparts.space_blank, hparts.after_blank,
      ?_, hparts.hintedBy_iff, hpassed assignment⟩
    rw [hpieces]
    exact hparts.spans_eq heq

/-- A conditional whose condition is a comparison, and an assignment with two blanks before its
sign whose value looks like another assignment. -/
theorem rules_apply_within_hints_both :
    (Text.trim "if x != 1:".toList = "if x != 1:".toList ∧
      Text.oneLine "if x != 1:".toList = true ∧
      conditional.spans "if x != 1:".toList ≠ [] ∧ comparison.spans "if x != 1:".toList ≠ [] ∧
      conditional.hintedBy "if x != 1:".toList = true ∧
      comparison.hintedBy "if x != 1:".toList = true ∧
      ¬ PassedOver comparison "if x != 1:".toList) ∧
    (Text.trim "x  = y = 1".toList = "x  = y = 1".toList ∧
      Text.oneLine "x  = y = 1".toList = true ∧ assignment.spans "x  = y = 1".toList ≠ [] ∧
      assignment.hintedBy "x  = y = 1".toList = true ∧
      ¬ PassedOver assignment "x  = y = 1".toList) := by
  have htrim : Text.trim "if x != 1:".toList = "if x != 1:".toList := by decide
  have hline : Text.oneLine "if x != 1:".toList = true := by decide
  have hconditional : conditional.spans "if x != 1:".toList ≠ [] := by decide +kernel
  have hcomparison : comparison.spans "if x != 1:".toList ≠ [] := by decide +kernel
  have htrim' : Text.trim "x  = y = 1".toList = "x  = y = 1".toList := by decide
  have hline' : Text.oneLine "x  = y = 1".toList = true := by decide
  have hassignment : assignment.spans "x  = y = 1".toList ≠ [] := by decide +kernel
  have hhint : assignment.hintedBy "x  = y = 1".toList = true := by decide
  have hrules := (rules_apply_within_hints htrim hline).1
  obtain ⟨-, -, -, -, -, -, -, -, -, hpassed⟩ :=
    (rules_apply_within_hints htrim' hline').2 hassignment
  exact ⟨⟨htrim, hline, hconditional, hcomparison, (hrules _ (by simp) hconditional).1,
    hrules _ (by simp) hcomparison⟩, htrim', hline', hassignment, hhint, hpassed hhint⟩

/-- **Two blanks before the sign** hide an assignment: the rule would apply, but the line is taken
for words and colons. -/
theorem spread_assignment_not_hinted :
    Text.trim "x  = 5".toList = "x  = 5".toList ∧ Text.oneLine "x  = 5".toList = true ∧
      assignment.spans "x  = 5".toList
        = [⟨0, "x".toList⟩, ⟨3, "=".toList⟩, ⟨5, "5".toList⟩] ∧
      assignment.hintedBy "x  = 5".toList = false ∧ PassedOver assignment "x  = 5".toList := by
  have hof : of "x  = 5".toList = other := by decide +kernel
  refine ⟨by decide, by decide, by decide +kernel, by decide, [imports, definition],
    [conditional, call, comparison, listing, other], rfl, ?_⟩
  rw [hof]
  decide

end Highlighter.Statement
