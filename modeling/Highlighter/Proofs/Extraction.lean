/-
# Extraction covers the text, all or nothing

Each of the eight kinds of statement has its own rule for taking a line apart.  Whatever the
rule, it either does not apply or its pieces cover the text up to blanks: no character that
could be seen is ever between two pieces.

The rules are looked at one by one, but only for what they put into gaps (`Tiling.Tidies`):

* `Division.tidy_along` for the splitters, where a divider falls into a gap and a mark does not;
* one `tidies` for each statement, next to which `Tiling.Tidy.covering` does the rest.

The words of a phrase are the one division whose dividers can be seen: there commas and colons
are loose as well.
-/
import Highlighter.Proofs.Spans
import Highlighter.Statement
import Mathlib.Data.List.TakeWhile

namespace Highlighter

open Tiling

/-! ## 1. Where blanks come from -/

namespace Text

theorem isBlank_of_mem_leading {t : Text} {c : Char} (h : c ∈ t.leading) : isBlank c = true :=
  List.mem_takeWhile_imp h

theorem isBlank_of_mem_trailing {t : Text} {c : Char} (h : c ∈ t.trailing) :
    isBlank c = true :=
  List.mem_takeWhile_imp (List.mem_reverse.mp h)

theorem isBlank_of_blanks? {t run rest : Text} (h : blanks? t = some (run, rest)) :
    ∀ c ∈ run, isBlank c = true := by
  unfold blanks? run? at h
  split at h
  · exact absurd h (by simp)
  · simp only [Option.some.injEq, Prod.mk.injEq] at h
    intro c hc
    rw [← h.1] at hc
    exact List.mem_takeWhile_imp hc

theorem blank_iff {t : Text} : t.blank = true ↔ ∀ c ∈ t, isBlank c = true := List.all_eq_true

/-- A text is blank exactly if nothing is left of it without the blanks around it. -/
theorem trim_eq_nil_iff {t : Text} : t.trim = [] ↔ t.blank = true := by
  rw [blank_iff]
  constructor
  · intro h c hc
    rw [← leading_append_trim_append_trailing t, h, List.nil_append] at hc
    rcases List.mem_append.mp hc with hc | hc
    · exact isBlank_of_mem_leading hc
    · exact isBlank_of_mem_trailing hc
  · intro h
    have hstart : t.trimStart = [] := List.dropWhile_eq_nil_iff.mpr h
    rw [trim, hstart]
    rfl

end Text

namespace Tiling

variable {loose : Char → Bool} {t : Tiling}

theorem tidy_trimmed (hblank : ∀ c, isBlank c = true → loose c = true) (run : Text)
    (ht : t.Tidy loose) : (trimmed run t).Tidy loose := by
  have hafter : (gap run.trimStart.trailing t).Tidy loose :=
    tidy_gap (fun c hc => hblank c (Text.isBlank_of_mem_trailing hc)) ht
  exact tidy_gap (fun c hc => hblank c (Text.isBlank_of_mem_leading hc))
    (tidy_piece run.trim hafter)

end Tiling

/-! ## 2. Divisions -/

namespace Division

variable {loose : Char → Bool} {role : Char → Role}

theorem roleIn_eq_divider {k : Context} {c : Char} (h : roleIn role k c = .divider) :
    role c = .divider := by
  unfold roleIn at h
  split at h
  · exact h
  · exact absurd h (by simp)

/-- **A division drops nothing but dividers.**  Read from the left, what stands after the
first separator stays tidy. -/
theorem tidy_rest_scan (hblank : ∀ c, isBlank c = true → loose c = true)
    (hrole : ∀ c, role c = .divider → loose c = true) (k : Context) (t : Text) :
    (scan role k t).rest.Tidy loose := by
  induction t generalizing k with
  | nil => exact tidy_empty
  | cons c cs ih =>
    have hrest : (scan role (k.read c) cs).tiling.Tidy loose := tidy_trimmed hblank _ (ih _)
    rw [scan]
    cases hr : roleIn role k c with
    | content => exact ih _
    | divider =>
      have hc : loose c = true := hrole c (roleIn_eq_divider hr)
      exact tidy_gap (by simpa using hc) hrest
    | mark => exact tidy_piece [c] hrest

theorem tidy_along (hblank : ∀ c, isBlank c = true → loose c = true)
    (hrole : ∀ c, role c = .divider → loose c = true) (t : Text) : (along role t).Tidy loose :=
  tidy_trimmed hblank _ (tidy_rest_scan hblank hrole .start t)

/-- Words are divided at blanks, whatever mark is set apart among them. -/
theorem tidy_words (mark : Char) (t : Text) :
    (along (fun c => if c = mark then .mark else if isBlank c then .divider else .content)
      t).Tidy isBlank := by
  refine tidy_along (fun _ h => h) ?_ t
  intro c hc
  split at hc
  · exact absurd hc (by simp)
  · split at hc
    · assumption
    · exact absurd hc (by simp)

theorem tidy_itemsAndCommas (t : Text) : (itemsAndCommas t).Tidy isBlank := by
  refine tidy_along (fun _ h => h) ?_ t
  intro c hc
  split at hc <;> exact absurd hc (by simp)

/-- What may stand between the words of a phrase. -/
def betweenWords (c : Char) : Bool := c == ',' || c == ':' || isBlank c

theorem tidy_wordsOnly (t : Text) : (wordsOnly t).Tidy betweenWords := by
  refine tidy_along (fun c h => by simp [betweenWords, h]) ?_ t
  intro c hc
  split at hc
  · rename_i h
    simpa [betweenWords] using h
  · exact absurd hc (by simp)

end Division

/-! ## 3. Lists -/

namespace Listing

theorem named?_tidies : Tidies isBlank named? := by
  intro item t h
  simp only [named?, Option.bind_eq_bind, Option.bind_eq_some_iff, Prod.exists] at h
  obtain ⟨name, rest, -, after, -, h⟩ := h
  split at h
  · exact absurd h (by simp)
  · rename_i c cs _
    split at h
    · simp only [Option.pure_def, Option.some.injEq] at h
      rw [← h]
      refine tidy_piece name (tidy_gap (fun _ => Text.isBlank_of_mem_leading) ?_)
      exact tidy_piece _ (tidy_gap (fun _ => Text.isBlank_of_mem_leading) (tidy_only _))
    · exact absurd h (by simp)

theorem tidy_arguments (text : Text) : (arguments text).Tidy isBlank :=
  tidy_refine named?_tidies (Division.tidy_itemsAndCommas text)

theorem tidy_parts (text : Text) : (parts text).Tidy isBlank := by
  unfold parts
  split
  · exact tidy_piece _ (tidy_trimmed (fun _ h => h) _ (tidy_only _))
  · exact Division.tidy_itemsAndCommas text

end Listing

/-! ## 4. The rules of the statements -/

namespace Statement

theorem Import.tidy_names (text : Text) : (Import.names text).Tidy isBlank := by
  have hwords (s : Text) : (Division.wordsAndCommas s).Tidy isBlank := Division.tidy_words ',' s
  unfold Import.names
  split
  · split
    · exact tidy_piece _ (tidy_append (hwords _) (tidy_only _))
    · exact hwords text
  · exact hwords text

theorem Import.direct?_tidies : Tidies isBlank Import.direct? := by
  intro text t h
  simp only [Import.direct?, Option.bind_eq_bind, Option.bind_eq_some_iff, Option.pure_def,
    Option.some.injEq] at h
  obtain ⟨rest, -, tail, htail, rfl⟩ := h
  refine tidy_piece _ ?_
  unfold Import.namesAfter? at htail
  split at htail
  · rename_i space c cs hs
    split at htail
    · rw [← Option.some.inj htail]
      exact tidy_gap (Text.isBlank_of_blanks? hs) (Import.tidy_names _)
    · exact absurd htail (by simp)
  · exact absurd htail (by simp)

theorem Import.tidies : Tidies isBlank Import.tiling? := by
  intro text t h
  rw [Import.tiling?, Option.or_eq_some_iff] at h
  rcases h with h | ⟨-, h⟩
  · exact Import.direct?_tidies _ _ h
  · simp only [Import.fromModule?, Option.bind_eq_bind, Option.bind_eq_some_iff,
      Option.pure_def, Option.some.injEq, Prod.exists] at h
    obtain ⟨r₁, -, space, r₂, h₂, source, r₃, -, space', r₄, h₄, tail, htail, rfl⟩ := h
    have htail' : (Tiling.gap space' tail).Tidy isBlank :=
      tidy_gap (Text.isBlank_of_blanks? h₄) (Import.direct?_tidies _ _ htail)
    exact tidy_piece _ (tidy_gap (Text.isBlank_of_blanks? h₂) (tidy_piece _ htail'))

theorem Definition.suite?_tidies : Tidies isBlank Definition.suite? := by
  intro text t h
  unfold Definition.suite? at h
  split at h
  · split at h
    · rw [← Option.some.inj h]
      refine tidy_gap (fun _ => Text.isBlank_of_mem_leading) (tidy_piece _ ?_)
      exact tidy_gap (fun _ => Text.isBlank_of_mem_leading) (tidy_only _)
    · exact absurd h (by simp)
  · exact absurd h (by simp)

theorem Definition.result?_tidies : Tidies isBlank Definition.result? := by
  intro text t h
  unfold Definition.result? at h
  split at h
  · rename_i result tail hs
    obtain ⟨rest, -, htail⟩ := Text.shortest?_eq_some hs
    rw [← Option.some.inj h]
    exact tidy_gap (fun _ => Text.isBlank_of_mem_leading)
      (tidy_piece _ (Definition.suite?_tidies _ _ htail))
  · simp only [Option.bind_eq_bind, Option.bind_eq_some_iff, Option.pure_def,
      Option.some.injEq, Prod.exists] at h
    obtain ⟨before, c, after, hlead, tail, htail, rfl⟩ := h
    -- the gap before a blank result is part of the blanks it was taken from
    have hbefore : ∀ d ∈ before, isBlank d = true := by
      intro d hd
      refine Text.isBlank_of_mem_leading (t := text) ?_
      rw [Text.splitLast?_eq_some hlead]
      exact List.mem_append_left _ hd
    exact tidy_gap hbefore (tidy_piece _ (Definition.suite?_tidies _ _ htail))

theorem Definition.signatureEnd?_tidies : Tidies isBlank Definition.signatureEnd? := by
  intro text t h
  unfold Definition.signatureEnd? at h
  split at h
  · rw [Option.map_eq_some_iff] at h
    obtain ⟨tail, htail, rfl⟩ := h
    exact tidy_gap (fun _ => Text.isBlank_of_mem_leading)
      (tidy_piece _ (Definition.result?_tidies _ _ htail))
  · exact Definition.suite?_tidies _ _ h

theorem Definition.signature?_tidies : Tidies isBlank Definition.signature? := by
  intro text t h
  simp only [Definition.signature?, Option.bind_eq_bind, Option.bind_eq_some_iff,
    Prod.exists] at h
  obtain ⟨name, rest, -, h⟩ := h
  split at h
  · simp only [Option.bind_eq_some_iff, Option.pure_def, Option.some.injEq, Prod.exists] at h
    obtain ⟨parameters, tail, hp, rfl⟩ := h
    obtain ⟨r, -, htail⟩ := Text.upToLast?_eq_some hp
    exact tidy_piece _ (Definition.signatureEnd?_tidies _ _ htail)
  · simp only [Option.bind_eq_some_iff, Option.pure_def, Option.some.injEq] at h
    obtain ⟨tail, htail, rfl⟩ := h
    exact tidy_piece _ (Definition.signatureEnd?_tidies _ _ htail)

theorem Definition.tidies : Tidies isBlank Definition.tiling? := by
  intro text t h
  simp only [Definition.tiling?, Option.bind_eq_bind, Option.bind_eq_some_iff, Option.pure_def,
    Option.some.injEq, Prod.exists] at h
  obtain ⟨word, r₁, -, space, r₂, h₂, tail, htail, rfl⟩ := h
  exact tidy_piece _ (tidy_gap (Text.isBlank_of_blanks? h₂)
    (Definition.signature?_tidies _ _ htail))

theorem Assignment.value?_tidies : Tidies isBlank Assignment.value? := by
  intro text t h
  unfold Assignment.value? at h
  split at h
  · exact absurd h (by simp)
  · rename_i space c cs hs
    split at h
    · rw [← Option.some.inj h]
      exact tidy_gap (Text.isBlank_of_blanks? hs) (tidy_only _)
    · exact absurd h (by simp)
  · rename_i space hs
    split at h
    · rename_i b before d hl
      have hbefore : ∀ e ∈ b :: before, isBlank e = true := by
        intro e he
        refine Text.isBlank_of_blanks? hs e ?_
        rw [Text.splitLast?_eq_some hl]
        exact List.mem_append_left _ he
      rw [← Option.some.inj h]
      exact tidy_gap hbefore (tidy_only _)
    · exact absurd h (by simp)

theorem Assignment.tidies : Tidies isBlank Assignment.tiling? := by
  intro text t h
  simp only [Assignment.tiling?, Option.bind_eq_bind, Option.bind_eq_some_iff, Option.pure_def,
    Option.some.injEq, Prod.exists] at h
  obtain ⟨target, r₁, -, space, r₂, h₂, r₃, -, tail, htail, rfl⟩ := h
  exact tidy_piece _ (tidy_gap (Text.isBlank_of_blanks? h₂)
    (tidy_piece _ (Assignment.value?_tidies _ _ htail)))

theorem Conditional.tidies : Tidies isBlank Conditional.tiling? := by
  intro text t h
  simp only [Conditional.tiling?, Option.bind_eq_bind, Option.bind_eq_some_iff,
    Prod.exists] at h
  obtain ⟨r₁, -, space, r₂, h₂, condition, -, h⟩ := h
  split at h
  · simp only [Option.pure_def, Option.some.injEq] at h
    rw [← h]
    refine tidy_piece _ (tidy_gap (Text.isBlank_of_blanks? h₂) (tidy_piece _ ?_))
    exact tidy_gap (fun _ => Text.isBlank_of_mem_trailing) (tidy_only _)
  · exact absurd h (by simp)

theorem Call.tidies : Tidies isBlank Call.tiling? := by
  intro text t h
  simp only [Call.tiling?, Option.bind_eq_bind, Option.bind_eq_some_iff, Option.pure_def,
    Option.some.injEq, Prod.exists] at h
  obtain ⟨path, inner, -, arguments, tail, ha, rfl⟩ := h
  obtain ⟨rest, -, htail⟩ := Text.upToLast?_eq_some ha
  refine tidy_piece _ ?_
  unfold Call.remainder? at htail
  split at htail
  · rw [← Option.some.inj htail]
    exact tidy_gap (fun _ => Text.isBlank_of_mem_leading) (tidy_only _)
  · exact absurd htail (by simp)

theorem Comparison.tidy_operand? {text : Text} {tail t : Tiling} (htail : tail.Tidy isBlank)
    (h : Comparison.operand? text tail = some t) : t.Tidy isBlank := by
  unfold Comparison.operand? at h
  split at h
  · rw [← Option.some.inj h]
    exact tidy_piece _ (tidy_gap (fun _ => Text.isBlank_of_mem_trailing) htail)
  · exact absurd h (by simp)

theorem Comparison.right?_tidies : Tidies isBlank Comparison.right? := by
  intro text t h
  unfold Comparison.right? at h
  split at h
  · simp only [Option.map_eq_some_iff, Prod.exists] at h
    obtain ⟨before, c, rest, hl, rfl⟩ := h
    have hlead : ∀ d ∈ before ++ c :: rest, isBlank d = true := by
      intro d hd
      rw [← Text.splitLast?_eq_some hl] at hd
      exact Text.isBlank_of_mem_leading hd
    have hrest : (Tiling.gap rest .empty).Tidy isBlank :=
      tidy_gap (fun d hd => hlead d (by simp [hd])) tidy_empty
    exact tidy_gap (fun d hd => hlead d (by simp [hd])) (tidy_piece _ hrest)
  · split at h
    · rw [Option.map_eq_some_iff] at h
      obtain ⟨t', ht', rfl⟩ := h
      exact tidy_gap (fun _ => Text.isBlank_of_mem_leading)
        (Comparison.tidy_operand? (tidy_only _) ht')
    · rw [Option.map_eq_some_iff] at h
      obtain ⟨t', ht', rfl⟩ := h
      exact tidy_gap (fun _ => Text.isBlank_of_mem_leading)
        (Comparison.tidy_operand? tidy_empty ht')

theorem Comparison.tidies : Tidies isBlank Comparison.tiling? := by
  intro text t h
  simp only [Comparison.tiling?, Option.map_eq_some_iff, Prod.exists] at h
  obtain ⟨left, tail, hs, rfl⟩ := h
  obtain ⟨rest, -, htail⟩ := Text.shortest?_eq_some hs
  simp only [Comparison.tail?, Option.bind_eq_bind, Option.bind_eq_some_iff, Option.pure_def,
    Option.some.injEq, Prod.exists] at htail
  obtain ⟨sign, r, -, right, hright, rfl⟩ := htail
  exact tidy_piece _ (tidy_gap (fun _ => Text.isBlank_of_mem_leading)
    (tidy_piece _ (Comparison.right?_tidies _ _ hright)))

/-- **Whatever the kind**, the rule puts nothing but blanks into gaps. -/
theorem tidies (kind : Statement) : Tidies isBlank kind.tiling? := by
  intro text t h
  cases kind with
  | imports => exact Import.tidies _ _ h
  | definition => exact Definition.tidies _ _ h
  | assignment => exact Assignment.tidies _ _ h
  | conditional => exact Conditional.tidies _ _ h
  | call => exact Call.tidies _ _ h
  | comparison => exact Comparison.tidies _ _ h
  | listing =>
    rw [← Option.some.inj h]
    exact Listing.tidy_parts text
  | other =>
    rw [← Option.some.inj h]
    exact Division.tidy_words ':' text

/-! ## 5. Whole lines -/

theorem tidy_dissectTrimmed (text : Text) : (dissectTrimmed text).Tidy isBlank := by
  unfold dissectTrimmed
  cases h : (of text).tiling? text with
  | none => exact Division.tidy_words ':' text
  | some t => exact tidies _ _ _ h

theorem tidy_dissect (line : Text) : (dissect line).Tidy isBlank := by
  have hafter : (Tiling.gap line.trimStart.trailing .empty).Tidy isBlank :=
    tidy_gap (fun _ => Text.isBlank_of_mem_trailing) tidy_empty
  exact tidy_gap (fun _ => Text.isBlank_of_mem_leading)
    (tidy_append (tidy_dissectTrimmed line.trim) hafter)

/-- Nothing is found in a line exactly if it is blank. -/
theorem spans_dissect_eq_nil_iff (line : Text) :
    (dissect line).spans = [] ↔ line.blank = true := by
  constructor
  · intro h
    have hloose := (tidy_dissect line).loose_of_spans_eq_nil h
    rw [text_dissect] at hloose
    exact Text.blank_iff.mpr hloose
  · intro h
    have htrim : line.trim = [] := Text.trim_eq_nil_iff.mpr h
    have htiles : (dissectTrimmed line.trim).tiles = [] := by
      refine (tidy_dissectTrimmed line.trim).tiles_eq_nil ?_
      rw [text_dissectTrimmed, htrim]
    simp [dissect, Tiling.append, Tiling.gap, Tiling.empty, Tiling.spans, Tiling.spansFrom,
      htiles]

end Statement

/-- **Extraction covers the text, all or nothing.**  For every kind of statement the rule finds
nothing or covers the text up to blanks.  A line is covered as it was given, with the blanks
around it, and nothing is found in it exactly if it is blank.  Arguments are covered up to
blanks, and the words of a phrase up to blanks, commas and colons. -/
theorem extraction_covers :
    (∀ (kind : Statement) (text : Text),
      kind.spans text = [] ∨ Span.Covering isBlank text (kind.spans text)) ∧
    (∀ line : Text, Span.Covering isBlank line (Statement.dissect line).spans ∧
      ((Statement.dissect line).spans = [] ↔ line.blank = true)) ∧
    (∀ text : Text, Span.Covering isBlank text (Listing.arguments text).spans) ∧
    ∀ text : Text,
      Span.Covering Division.betweenWords text (Division.wordsOnly text).spans := by
  refine ⟨?_, ?_, ?_, ?_⟩
  · intro kind text
    unfold Statement.spans
    cases h : kind.tiling? text with
    | none => exact Or.inl rfl
    | some t =>
      have hcover := (Statement.tidies kind _ _ h).covering
      rw [Statement.keeps kind _ _ h] at hcover
      exact Or.inr hcover
  · intro line
    have hcover := (Statement.tidy_dissect line).covering
    rw [Statement.text_dissect] at hcover
    exact ⟨hcover, Statement.spans_dissect_eq_nil_iff line⟩
  · intro text
    have hcover := (Listing.tidy_arguments text).covering
    rw [Listing.text_arguments] at hcover
    exact hcover
  · intro text
    have hcover := (Division.tidy_wordsOnly text).covering
    rw [Division.wordsOnly, Division.text_along] at hcover
    exact hcover

end Highlighter
