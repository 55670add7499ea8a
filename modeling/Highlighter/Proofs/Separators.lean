/-
# A separator divides two texts of their own

A division reads a text from the left and remembers what is open.  Where nothing is open it
remembers nothing, so a separator there divides the text into two that could have been divided
each by itself: the pieces of the first, the separator if it is a mark, and the pieces of the
second, moved behind it.

Nothing else is asked of the first text.  It may have closing brackets too many, and its last
piece may be followed by blanks, which then run together with the separator in one gap.

* `Division.scan_append_separator`: what is divided before a separator is divided as it would be
  at the end of a text, in whatever context it is read;
* `Division.spans_append_mark`, `Division.spans_append_divider`: the pieces on both sides;
* `Tiling.refineSpan_shift`: taking a piece apart commutes with moving it, which is what lists of
  arguments need besides.
-/
import Highlighter.Proofs.Balanced
import Highlighter.Proofs.Slicing

namespace Highlighter

/-! ## 1. Where nothing is open -/

/-- There is one context in which everything has been closed. -/
theorem Context.eq_start_of_settled {k : Context} (h : k.settled = true) : k = start := by
  obtain ⟨depth, quoting⟩ := k
  simp only [settled, Bool.and_eq_true, beq_iff_eq] at h
  obtain ⟨rfl, rfl⟩ := h
  rfl

/-- No blank is a quote or a bracket. -/
theorem isPlain_of_isBlank {c : Char} (h : isBlank c = true) : isPlain c = true := by
  by_contra hplain
  simp only [isPlain, isQuote, isOpener, isCloser, Bool.and_eq_true, Bool.not_eq_true',
    Bool.or_eq_false_iff, beq_eq_false_iff_ne, not_and_or, not_not] at hplain
  rcases hplain with ((rfl | rfl) | (rfl | rfl) | rfl) | (rfl | rfl) | rfl
  all_goals exact absurd h (by decide)

/-! ## 2. Divisions -/

namespace Tiling

theorem trimmed_append (run : Text) (s t : Tiling) :
    (trimmed run s).append t = trimmed run (s.append t) := by
  simp only [trimmed, gap_append, piece_append]

end Tiling

namespace Division

open Tiling

variable {role : Char → Role} {c : Char}

/-- Where nothing is open, a character other than a quote or a bracket has its role. -/
theorem roleIn_start (hc : isPlain c = true) : roleIn role .start c = role c := by
  have hexposes : Context.start.exposes c = true := hc
  rw [roleIn, if_pos hexposes]

/-- **Before a separator** a text is divided as it would be at its end.  That a separator comes
next is said by the empty run before it. -/
theorem scan_append_separator {k : Context} {s t : Text}
    (h : (scan role (k.readAll s) t).run = []) :
    scan role k (s ++ t)
      = ⟨(scan role k s).run, (scan role k s).rest.append (scan role (k.readAll s) t).rest⟩ := by
  induction s generalizing k with
  | nil =>
    rw [Context.readAll_nil] at h ⊢
    rw [List.nil_append, scan, empty_append, ← h]
  | cons d s ih =>
    rw [List.cons_append, scan, scan, ih h, Context.readAll_cons]
    cases roleIn role k d with
    | content => rfl
    | divider => simp only [Cut.cons, Cut.tiling, gap_append, trimmed_append]
    | mark => simp only [Cut.cons, Cut.tiling, piece_append, trimmed_append]

theorem scan_mark (hc : isPlain c = true) (hrole : role c = .mark) (t : Text) :
    scan role .start (c :: t) = ⟨[], .piece [c] (along role t)⟩ := by
  have hread : Context.start.read c = .start := Context.read_plain hc
  rw [scan, roleIn_start hc, hrole, hread]
  rfl

theorem scan_divider (hc : isPlain c = true) (hrole : role c = .divider) (t : Text) :
    scan role .start (c :: t) = ⟨[], .gap [c] (along role t)⟩ := by
  have hread : Context.start.read c = .start := Context.read_plain hc
  rw [scan, roleIn_start hc, hrole, hread]
  rfl

variable {s : Text}

/-- The pieces on both sides of a separator, after which the tiling is `rest`. -/
theorem spans_append_separator (hs : (Context.start.readAll s).settled = true) {t : Text}
    {rest : Tiling} (ht : scan role .start t = ⟨[], rest⟩) :
    (along role (s ++ t)).spans = (along role s).spans ++ rest.spansAt s.byteSize := by
  have hstart := Context.eq_start_of_settled hs
  have htiling : along role (s ++ t) = (along role s).append rest := by
    rw [along, scan_append_separator, hstart, ht]
    · exact (trimmed_append _ _ _).symm
    · rw [hstart, ht]
  have htidy : (along role s).Tidy fun _ => true := tidy_along (fun _ _ => rfl) (fun _ _ => rfl) s
  rw [htiling, spans_eq_spansAt, spansAt_append htidy, text_along, Nat.zero_add,
    ← spans_eq_spansAt]

/-- **The pieces on both sides of a mark**, and the mark between them. -/
theorem spans_append_mark (hs : (Context.start.readAll s).settled = true) (hc : isPlain c = true)
    (hrole : role c = .mark) (t : Text) :
    (along role (s ++ c :: t)).spans
      = (along role s).spans ++ ⟨s.byteSize, [c]⟩ ::
          (along role t).spans.map (Span.shift (s.byteSize + c.utf8Size)) := by
  rw [spans_append_separator hs (scan_mark hc hrole t), spansAt_piece (List.cons_ne_nil _ _),
    spansAt_eq_map_shift, Text.byteSize_cons, Text.byteSize_nil, Nat.add_zero]

/-- **The pieces on both sides of a divider.** -/
theorem spans_append_divider (hs : (Context.start.readAll s).settled = true)
    (hc : isPlain c = true) (hrole : role c = .divider) (t : Text) :
    (along role (s ++ c :: t)).spans
      = (along role s).spans ++
          (along role t).spans.map (Span.shift (s.byteSize + c.utf8Size)) := by
  rw [spans_append_separator hs (scan_divider hc hrole t), spansAt_gap, spansAt_eq_map_shift,
    Text.byteSize_cons, Text.byteSize_nil, Nat.add_zero]

end Division

/-! ## 3. Arguments -/

namespace Tiling

theorem spansAt_add (offset base : Nat) (t : Tiling) :
    t.spansAt (offset + base) = (t.spansAt offset).map (Span.shift base) := by
  rw [spansAt, spansAt, Nat.add_right_comm, spansFrom_add]

/-- Taking a piece apart commutes with moving it. -/
theorem refineSpan_shift (rule : Text → Option Tiling) (base : Nat) (s : Span) :
    refineSpan rule (s.shift base) = (refineSpan rule s).map (Span.shift base) := by
  unfold refineSpan Span.shift
  cases rule s.text with
  | none => rfl
  | some parts => exact spansAt_add s.offset base parts

theorem flatMap_refineSpan_shift (rule : Text → Option Tiling) (base : Nat) (l : List Span) :
    (l.map (Span.shift base)).flatMap (refineSpan rule)
      = (l.flatMap (refineSpan rule)).map (Span.shift base) := by
  simp only [List.flatMap_map, List.map_flatMap, refineSpan_shift]

end Tiling

/-- **A comma between two lists of arguments.** -/
theorem Listing.spans_arguments_append {s : Text}
    (hs : (Context.start.readAll s).settled = true) (t : Text) :
    (arguments (s ++ ',' :: t)).spans
      = (arguments s).spans ++ ⟨s.byteSize, [',']⟩ ::
          (arguments t).spans.map (Span.shift (s.byteSize + 1)) := by
  have hitems : (Division.itemsAndCommas (s ++ ',' :: t)).spans
      = (Division.itemsAndCommas s).spans ++ ⟨s.byteSize, [',']⟩ ::
          (Division.itemsAndCommas t).spans.map (Span.shift (s.byteSize + 1)) :=
    Division.spans_append_mark hs rfl rfl t
  have hcomma : Tiling.refineSpan named? ⟨s.byteSize, [',']⟩ = [⟨s.byteSize, [',']⟩] := by
    have hnone : named? [','] = none := by decide
    simp [Tiling.refineSpan, hnone]
  simp only [Sliced.spans_arguments, hitems, List.flatMap_append, List.flatMap_cons, hcomma,
    Tiling.flatMap_refineSpan_shift, List.singleton_append]

/-! ## 4. The divisions in use -/

/-- **A separator divides two texts of their own.**  Let everything that is opened in `a` be
closed in it, or closed too often.  Then the arguments in `a`, a comma and `b` are those in `a`,
the comma and those in `b`, each at its place; so it is with words and a colon.  A blank among
words only divides, and so do a comma and a colon among the words of a phrase. -/
theorem separators_divide {a : Text} (ha : (Context.start.readAll a).settled = true) (b : Text) :
    (Listing.arguments (a ++ ',' :: b)).spans
      = (Listing.arguments a).spans ++ ⟨a.byteSize, [',']⟩ ::
          (Listing.arguments b).spans.map (Span.shift (a.byteSize + 1)) ∧
    (Division.wordsAndColons (a ++ ':' :: b)).spans
      = (Division.wordsAndColons a).spans ++ ⟨a.byteSize, [':']⟩ ::
          (Division.wordsAndColons b).spans.map (Span.shift (a.byteSize + 1)) ∧
    (∀ w, isBlank w = true → (Division.wordsAndColons (a ++ w :: b)).spans
      = (Division.wordsAndColons a).spans ++
          (Division.wordsAndColons b).spans.map (Span.shift (a.byteSize + w.utf8Size))) ∧
    ∀ s, s = ',' ∨ s = ':' ∨ isBlank s = true → (Division.wordsOnly (a ++ s :: b)).spans
      = (Division.wordsOnly a).spans ++
          (Division.wordsOnly b).spans.map (Span.shift (a.byteSize + s.utf8Size)) := by
  refine ⟨Listing.spans_arguments_append ha b, Division.spans_append_mark ha rfl rfl b, ?_, ?_⟩
  · intro w hw
    have hcolon : w ≠ ':' := by
      rintro rfl
      exact absurd hw (by decide)
    exact Division.spans_append_divider ha (isPlain_of_isBlank hw) (by simp [hcolon, hw]) b
  · intro s hs
    have hplain : isPlain s = true := by
      rcases hs with rfl | rfl | hs
      · rfl
      · rfl
      · exact isPlain_of_isBlank hs
    refine Division.spans_append_divider ha hplain ?_ b
    rcases hs with rfl | rfl | hs
    · rfl
    · rfl
    · simp [hs]

/-- The text before the comma has a closing bracket too many, an escaped quote in a literal and a
blank of three bytes at its end.  That blank also divides words. -/
theorem separators_divide_surplus :
    ((Context.start.readAll "k=[1]), '\\',' \u3000".toList).settled = true ∧
      (Listing.arguments "k=[1]), '\\',' \u3000, y=2".toList).spans
        = (Listing.arguments "k=[1]), '\\',' \u3000".toList).spans ++
            [⟨17, [',']⟩, ⟨19, ['y']⟩, ⟨20, ['=']⟩, ⟨21, ['2']⟩]) ∧
    (Context.start.readAll "k=[1])".toList).settled = true ∧ isBlank '\u3000' = true ∧
      (Division.wordsAndColons "k=[1])\u3000y".toList).spans
        = (Division.wordsAndColons "k=[1])".toList).spans ++ [⟨9, ['y']⟩] := by
  have hlong : (Context.start.readAll "k=[1]), '\\',' \u3000".toList).settled = true := by decide
  have hshort : (Context.start.readAll "k=[1])".toList).settled = true := by decide
  have hwide : isBlank '\u3000' = true := by decide
  exact ⟨⟨hlong, (separators_divide hlong " y=2".toList).1.trans (by decide +kernel)⟩, hshort,
    hwide, ((separators_divide hshort "y".toList).2.2.1 _ hwide).trans (by decide +kernel)⟩

end Highlighter
