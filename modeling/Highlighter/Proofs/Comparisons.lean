/-
# A comparison is divided at its first comparator

The rule for comparisons looks for the shortest left-hand side after which the rest can be read as
blanks, a comparator and a right-hand side.  Several things are left open by that: the blanks can
belong to either side, comparators overlap, and a right-hand side that cannot be read sends the rule
on to the next comparator.  On a core on one line all of it comes to a plain scan from the left:

* the left-hand side cannot end in blanks, for without them it would be shorter
  (`tiling?_of_first`);
* the rest can be read unless it is empty (`right?_eq`), and behind a comparator at the very end
  there is no other.

Hence `tiling?_eq_none` and `spans_of_first`, for lines without a comparator and with one.
-/
import Highlighter.Proofs.Kinds

namespace Highlighter

/-! ## 1. The shortest part before a rule applies -/

namespace Text

variable {s t : Text}

section

variable {α : Type} {rule : Text → Option α}

theorem shortest?_eq_none (h : ∀ found rest, t = found ++ rest → found ≠ [] → rule rest = none) :
    shortest? rule t = none := by
  induction t with
  | nil => rfl
  | cons c cs ih =>
    have hrule : rule cs = none := h [c] cs rfl (List.cons_ne_nil c [])
    have hrest : shortest? rule cs = none := by
      refine ih ?_
      intro found rest heq _
      exact h (c :: found) rest (by rw [heq, List.cons_append]) (List.cons_ne_nil c found)
    rw [shortest?, hrule, hrest]
    exact ite_self none

/-- The part that is found ends at the first place where the rule applies. -/
theorem shortest?_append {found rest : Text} {a : α} (hne : found ≠ [])
    (hline : found.oneLine = true) (hrule : rule rest = some a)
    (hearlier : ∀ s more, found = s ++ more → s ≠ [] → more ≠ [] → rule (more ++ rest) = none) :
    shortest? rule (found ++ rest) = some (found, a) := by
  induction found with
  | nil => exact absurd rfl hne
  | cons c cs ih =>
    rw [oneLine, List.all_cons, Bool.and_eq_true, bne_iff_ne] at hline
    rw [List.cons_append, shortest?, if_neg hline.1]
    cases cs with
    | nil => rw [List.nil_append, hrule]
    | cons d ds =>
      have hnone := hearlier [c] (d :: ds) rfl (List.cons_ne_nil c []) (List.cons_ne_nil d ds)
      have hlater : shortest? rule (d :: ds ++ rest) = some (d :: ds, a) := by
        refine ih (List.cons_ne_nil d ds) hline.2 ?_
        intro s more heq _ hmore
        exact hearlier (c :: s) more (by rw [heq, List.cons_append]) (List.cons_ne_nil c s) hmore
      rw [hnone, hlater]
      rfl

end

/-- Blanks are read no further than to a character that is none. -/
theorem leading_isPrefix {d : Char} (hd : isBlank d = false) (s rest : Text) :
    leading (s ++ d :: rest) <+: s := by
  induction s with
  | nil => simp [leading, hd]
  | cons c cs ih =>
    rw [List.cons_append, leading, List.takeWhile_cons]
    split
    · exact List.cons_prefix_cons.mpr ⟨rfl, ih⟩
    · exact List.nil_prefix

/-- What a core begins with is a core, without the blanks at its end. -/
theorem Core.trimEnd_front (h : (s ++ t).Core) (hne : s ≠ []) : s.trimEnd.Core := by
  obtain ⟨c, cs, hfirst⟩ := List.exists_cons_of_ne_nil hne
  have hc : isBlank c = false := h.not_blank_head (by rw [hfirst, List.cons_append])
  have hstart : s.trimStart = s := by rw [hfirst, trimStart_of_head hc]
  have htrim : s.trim = s.trimEnd := by rw [trim, hstart]
  have hcore : s.trim ≠ [] := by
    intro hnil
    have hblank := blank_iff.mp (trim_eq_nil_iff.mp hnil) c (by simp [hfirst])
    rw [hc] at hblank
    exact Bool.false_ne_true hblank
  exact htrim ▸ core_trim hcore

theorem Core.not_blank_back (h : (s ++ t).Core) {us : Text} {d : Char} (hlast : t = us ++ [d]) :
    isBlank d = false := h.not_blank_last (s := s ++ us) (by rw [hlast, List.append_assoc])

/-- What a core ends with is a core, without the blanks in front of it. -/
theorem Core.trim_back (h : (s ++ t).Core) (hne : t ≠ []) :
    t.trim = t.trimStart ∧ t.trimStart.Core := by
  have hstart : t.trimStart ≠ [] := by
    intro hnil
    obtain ⟨us, d, hlast⟩ := (List.eq_nil_or_concat' t).resolve_left hne
    have hblank := List.dropWhile_eq_nil_iff.mp hnil d (by simp [hlast])
    rw [h.not_blank_back hlast] at hblank
    exact Bool.false_ne_true hblank
  obtain ⟨c, cs, hfirst⟩ := List.exists_cons_of_ne_nil hstart
  obtain ⟨us, d, hlast⟩ := (List.eq_nil_or_concat' t.trimStart).resolve_left hstart
  have hend : t = (t.leading ++ us) ++ [d] := by
    rw [List.append_assoc, ← hlast, leading_append_trimStart]
  have hcore : t.trimStart.Core :=
    core_of_ends hfirst hlast (isBlank_of_trimStart_eq_cons hfirst) (h.not_blank_back hend)
  refine ⟨?_, hcore⟩
  rw [trim, ← trimStart_trimStart, ← trim, hcore.trimmed, trimStart_trimStart]

end Text

/-! ## 2. The first comparator -/

namespace Statement.Comparison

open Tiling

/-- A comparator in a text: what stands before it, which is not empty, and what stands after it. -/
structure ComparatorAt (text before sign after : Text) : Prop where
  written : text = before ++ (sign ++ after)
  comparator : sign = equal ∨ sign = unequal
  inside : 1 ≤ before.byteSize

/-- **The first comparator** of a text: no other one begins at a smaller offset. -/
structure FirstComparator (text before sign after : Text) : Prop
    extends ComparatorAt text before sign after where
  least : ∀ b s a, ComparatorAt text b s a → before.byteSize ≤ b.byteSize

variable {text before sign after : Text}

theorem hintedBy_iff : Comparison.hintedBy text = true ↔ equal <:+: text ∨ unequal <:+: text := by
  rw [Comparison.hintedBy, Bool.or_eq_true, Text.occurs_iff, Text.occurs_iff]

theorem ComparatorAt.hintedBy (h : ComparatorAt text before sign after) :
    Comparison.hintedBy text = true := by
  have hinfix : sign <:+: text := ⟨before, after, by rw [h.written, List.append_assoc]⟩
  rcases h.comparator with rfl | rfl
  · exact hintedBy_iff.mpr (Or.inl hinfix)
  · exact hintedBy_iff.mpr (Or.inr hinfix)

theorem byteSize_comparator (h : sign = equal ∨ sign = unequal) : sign.byteSize = 2 := by
  rcases h with rfl | rfl <;> rfl

theorem ComparatorAt.before_ne_nil (h : ComparatorAt text before sign after) : before ≠ [] := by
  rintro rfl
  exact absurd h.inside (by decide)

/-- A text with a comparator has a first one. -/
theorem ComparatorAt.exists_first {b s a : Text} (h : ComparatorAt text b s a) :
    ∃ before sign after, FirstComparator text before sign after := by
  by_cases hleast : ∀ b' s' a', ComparatorAt text b' s' a' → b.byteSize ≤ b'.byteSize
  · exact ⟨b, s, a, h, hleast⟩
  · push Not at hleast
    obtain ⟨b', s', a', h', hlt⟩ := hleast
    exact h'.exists_first
termination_by b.byteSize

theorem comparator?_append (h : sign = equal ∨ sign = unequal) (rest : Text) :
    comparator? (sign ++ rest) = some (sign, rest) := by
  rcases h with rfl | rfl
  · simp [comparator?, Text.after?_eq_some_iff.mpr rfl]
  · simp [comparator?, unequal, equal, Text.after?]

theorem comparator_of_comparator? {rest : Text} (h : comparator? text = some (sign, rest)) :
    sign = equal ∨ sign = unequal := by
  rw [comparator?, Option.or_eq_some_iff] at h
  rcases h with h | ⟨-, h⟩
  · simp only [Option.map_eq_some_iff, Prod.mk.injEq] at h
    obtain ⟨r, -, rfl, -⟩ := h
    exact Or.inl rfl
  · simp only [Option.map_eq_some_iff, Prod.mk.injEq] at h
    obtain ⟨r, -, rfl, -⟩ := h
    exact Or.inr rfl

/-- What follows the left-hand side, if it can be read. -/
theorem exists_of_tail? {rest : Text} {t : Tiling} (h : tail? rest = some t) :
    ∃ sign after right, rest = rest.leading ++ (sign ++ after) ∧
      (sign = equal ∨ sign = unequal) ∧ right? after = some right := by
  simp only [tail?, Option.bind_eq_bind, Option.bind_eq_some_iff, Option.pure_def,
    Option.some.injEq, Prod.exists] at h
  obtain ⟨sign, after, hsign, right, hright, -⟩ := h
  refine ⟨sign, after, right, ?_, comparator_of_comparator? hsign, hright⟩
  rw [← comparator?_eq_some hsign, Text.leading_append_trimStart]

theorem tail?_append {space : Text} {right : Tiling} (hspace : space.blank = true)
    (hsign : sign = equal ∨ sign = unequal) (hright : right? after = some right) :
    tail? (space ++ (sign ++ after)) = some (.gap space (.piece sign right)) := by
  obtain ⟨hleading, hstart⟩ : (space ++ (sign ++ after)).leading = space ∧
      (space ++ (sign ++ after)).trimStart = sign ++ after := by
    rcases hsign with rfl | rfl
    · exact Text.leading_append hspace (by decide) _
    · exact Text.leading_append hspace (by decide) _
  simp [tail?, hleading, hstart, comparator?_append hsign, hright]

/-- Before the left-hand side of the first comparator is complete, no rest can be read. -/
theorem FirstComparator.tail?_eq_none (h : FirstComparator text before sign after)
    (hcore : text.Core) {s more : Text} (hleft : before.trimEnd = s ++ more) (hs : s ≠ [])
    (hmore : more ≠ []) : tail? (more ++ (before.trailing ++ (sign ++ after))) = none := by
  cases htail : tail? (more ++ (before.trailing ++ (sign ++ after))) with
  | none => rfl
  | some t =>
    obtain ⟨sign', after', -, hrest, hsign', -⟩ := exists_of_tail? htail
    -- the comparator that was found begins where the left-hand side has not ended yet
    have htext : text = s ++ (more ++ (before.trailing ++ (sign ++ after))) := by
      rw [h.written, ← List.append_assoc s, ← hleft, ← List.append_assoc before.trimEnd,
        Text.trimEnd_append_trailing]
    have hleftCore : before.trimEnd.Core := (h.written ▸ hcore).trimEnd_front h.before_ne_nil
    obtain ⟨m, d, rfl⟩ := (List.eq_nil_or_concat' more).resolve_left hmore
    have hd : isBlank d = false :=
      hleftCore.not_blank_last (s := s ++ m) (by rw [hleft, List.append_assoc])
    rw [List.append_assoc, List.singleton_append] at hrest htext
    obtain ⟨m', hm⟩ := Text.leading_isPrefix hd m (before.trailing ++ (sign ++ after))
    generalize Text.leading (m ++ d :: (before.trailing ++ (sign ++ after))) = space at hrest hm
    have hat : ComparatorAt text (s ++ space) sign' after' :=
      ⟨by rw [htext, hrest, List.append_assoc], hsign', Text.byteSize_pos (by simp [hs])⟩
    have hle := h.least _ _ _ hat
    have hsize := congrArg Text.byteSize (Text.trimEnd_append_trailing before)
    have hpos := d.utf8Size_pos
    rw [hleft, ← hm] at hsize
    simp only [Text.byteSize_append, Text.byteSize_cons, Text.byteSize_nil] at hle hsize
    omega

/-- **A comparison is divided at its first comparator**, if what follows can be read. -/
theorem tiling?_of_first (h : FirstComparator text before sign after) (hcore : text.Core)
    (hline : text.oneLine = true) {right : Tiling} (hright : right? after = some right) :
    Comparison.tiling? text
      = some (.piece before.trimEnd (.gap before.trailing (.piece sign right))) := by
  have htext : text = before.trimEnd ++ (before.trailing ++ (sign ++ after)) := by
    rw [h.written, ← List.append_assoc before.trimEnd, Text.trimEnd_append_trailing]
  have hleft : before.trimEnd.Core := (h.written ▸ hcore).trimEnd_front h.before_ne_nil
  have honeLine : before.trimEnd.oneLine = true := by
    rw [htext, Text.oneLine, List.all_append, Bool.and_eq_true] at hline
    exact hline.1
  have hblank : before.trailing.blank = true :=
    Text.blank_iff.mpr fun _ => Text.isBlank_of_mem_trailing
  have hshortest := Text.shortest?_append hleft.nonempty honeLine
    (tail?_append hblank h.comparator hright) fun _ _ => h.tail?_eq_none hcore
  rw [Comparison.tiling?, htext, hshortest]
  rfl

/-! ## 3. The right-hand side -/

/-- The pieces of a right-hand side that begins at `offset`.  A colon at the end is a piece of its
own, unless there are only blanks before it. -/
def rightSpans (offset : Nat) (r : Text) : List Span :=
  if r.getLast? = some ':' ∧ Text.trimEnd r.dropLast ≠ [] then
    [⟨offset, Text.trimEnd r.dropLast⟩, ⟨offset + Text.byteSize r.dropLast, [':']⟩]
  else [⟨offset, r⟩]

theorem rightSpans_colon {stem : Text} (h : stem.trimEnd ≠ []) (offset : Nat) :
    rightSpans offset (stem ++ [':'])
      = [⟨offset, stem.trimEnd⟩, ⟨offset + stem.byteSize, [':']⟩] := by
  rw [rightSpans, List.dropLast_concat, if_pos ⟨List.getLast?_concat, h⟩]

theorem rightSpans_whole {r : Text} (h : ∀ stem, stem ≠ [] → r ≠ stem ++ [':']) (offset : Nat) :
    rightSpans offset r = [⟨offset, r⟩] := by
  rw [rightSpans, if_neg]
  rintro ⟨hlast, hstem⟩
  refine h r.dropLast ?_ (List.dropLast_append_getLast? ':' hlast).symm
  intro hnil
  exact hstem (by rw [hnil]; rfl)

/-- An operand without blanks at its end. -/
theorem operand?_core {r : Text} (hr : r.Core) (hline : r.oneLine = true) :
    operand? r .empty = some (.piece r .empty) := by
  have hend := hr.trailing_append (t := []) rfl
  rw [List.append_nil] at hend
  rw [operand?, hend.1, hend.2, if_pos hline]
  rfl

theorem right?_whole (hr : after.trimStart.Core) (hline : after.trimStart.oneLine = true)
    (h : ∀ stem, stem ≠ [] → after.trimStart ≠ stem ++ [':']) :
    right? after = some (.gap after.leading (.piece after.trimStart .empty)) := by
  obtain ⟨c, cs, hfirst⟩ := List.exists_cons_of_ne_nil hr.nonempty
  rw [right?]
  simp only [hfirst] at hr hline h ⊢
  split
  · rename_i d stem hstem
    exact absurd (Text.endingIn?_eq_some hstem) (h _ (List.cons_ne_nil d stem))
  · rw [operand?_core hr hline]
    rfl

theorem right?_colon {stem : Text} (hline : after.trimStart.oneLine = true) (hne : stem ≠ [])
    (h : after.trimStart = stem ++ [':']) :
    right? after = some (.gap after.leading
      (.piece stem.trimEnd (.gap stem.trailing (.piece [':'] .empty)))) := by
  obtain ⟨d, ds, rfl⟩ := List.exists_cons_of_ne_nil hne
  have hstem : (Text.trimEnd (d :: ds)).oneLine = true := by
    rw [h, ← Text.trimEnd_append_trailing (d :: ds), Text.oneLine, List.all_append,
      List.all_append, Bool.and_eq_true, Bool.and_eq_true] at hline
    exact hline.1.1
  have hcolon : Text.endingIn? ':' (d :: (ds ++ [':'])) = some (d :: ds) :=
    Text.endingIn?_concat ':' (d :: ds)
  rw [List.cons_append] at h
  rw [right?]
  simp only [h, hcolon]
  rw [operand?, if_pos hstem]
  rfl

/-- **A right-hand side can be read**, if it is not blank. -/
theorem right?_eq (hr : after.trimStart.Core) (hline : after.trimStart.oneLine = true) :
    ∃ right, right? after = some right ∧
      ∀ base, right.spansAt base = rightSpans (base + after.leading.byteSize) after.trimStart := by
  by_cases h : ∃ stem : Text, stem ≠ [] ∧ after.trimStart = stem ++ [':']
  · obtain ⟨stem, hne, heq⟩ := h
    have hstem : stem.trimEnd ≠ [] := ((heq ▸ hr).trimEnd_front hne).nonempty
    refine ⟨_, right?_colon hline hne heq, ?_⟩
    intro base
    rw [heq, rightSpans_colon hstem, spansAt_gap, spansAt_piece hstem, spansAt_gap,
      spansAt_piece (List.cons_ne_nil _ _), spansAt_empty, Nat.add_assoc _ (Text.byteSize _),
      ← Text.byteSize_append, Text.trimEnd_append_trailing]
  · push Not at h
    refine ⟨_, right?_whole hr hline h, ?_⟩
    intro base
    rw [rightSpans_whole h, spansAt_gap, spansAt_piece hr.nonempty, spansAt_empty]

/-! ## 4. Comparisons by a scan from the left -/

/-- Where nothing can be read after any comparator, the rule does not apply. -/
theorem tiling?_eq_none (h : ∀ b s a, ComparatorAt text b s a → right? a = none) :
    Comparison.tiling? text = none := by
  rw [Comparison.tiling?, Text.shortest?_eq_none]
  · rfl
  · intro found rest heq hne
    cases htail : tail? rest with
    | none => rfl
    | some t =>
      obtain ⟨sign, after, right, hrest, hsign, hright⟩ := exists_of_tail? htail
      have hat : ComparatorAt text (found ++ rest.leading) sign after :=
        ⟨by rw [heq, List.append_assoc, ← hrest], hsign, Text.byteSize_pos (by simp [hne])⟩
      rw [h _ _ _ hat] at hright
      exact absurd hright (by simp)

/-- Behind a first comparator at the end of a text there is nothing to read either. -/
theorem FirstComparator.tiling?_eq_none (h : FirstComparator text before sign []) :
    Comparison.tiling? text = none := by
  refine Comparison.tiling?_eq_none ?_
  intro b s a hat
  have hle := h.least b s a hat
  have hsize := congrArg Text.byteSize (h.written.symm.trans hat.written)
  simp only [Text.byteSize_append, byteSize_comparator h.comparator,
    byteSize_comparator hat.comparator, Text.byteSize_nil] at hsize
  rw [Text.eq_nil_of_byteSize_eq_zero (t := a) (by omega)]
  rfl

theorem FirstComparator.trim_after (h : FirstComparator text before sign after)
    (hcore : text.Core) (hne : after ≠ []) :
    after.trim = after.trimStart ∧ after.trimStart.Core :=
  Text.Core.trim_back (s := before ++ sign) (by rwa [List.append_assoc, ← h.written]) hne

/-- What follows the first comparator of a core on one line can be read. -/
theorem FirstComparator.exists_right (h : FirstComparator text before sign after)
    (hcore : text.Core) (hline : text.oneLine = true) (hne : after ≠ []) :
    ∃ right, right? after = some right ∧
      ∀ base, right.spansAt base = rightSpans (base + after.leading.byteSize) after.trim := by
  obtain ⟨htrim, hr⟩ := h.trim_after hcore hne
  have honeLine : after.trimStart.oneLine = true := by
    rw [h.written, ← Text.leading_append_trimStart after, Text.oneLine, List.all_append,
      List.all_append, List.all_append] at hline
    simp only [Bool.and_eq_true] at hline
    exact hline.2.2.2
  rw [htrim]
  exact right?_eq hr honeLine

theorem spans_of_first (h : FirstComparator text before sign after) (hcore : text.Core)
    (hline : text.oneLine = true) (hne : after ≠ []) :
    Statement.comparison.spans text
      = ⟨0, before.trimEnd⟩ :: ⟨before.byteSize, sign⟩ ::
          rightSpans (before.byteSize + 2 + after.leading.byteSize) after.trim := by
  obtain ⟨right, hright, hspans⟩ := h.exists_right hcore hline hne
  have hleft : before.trimEnd.Core := (h.written ▸ hcore).trimEnd_front h.before_ne_nil
  have hsize := byteSize_comparator h.comparator
  have hsign : sign ≠ [] := by
    rintro rfl
    exact absurd hsize (by decide)
  rw [Statement.spans, Statement.tiling?, tiling?_of_first h hcore hline hright]
  simp only [spans_eq_spansAt]
  rw [spansAt_piece hleft.nonempty, spansAt_gap, spansAt_piece hsign, hspans, hsize,
    Nat.zero_add, ← Text.byteSize_append, Text.trimEnd_append_trailing]

/-- **A comparison is divided at its first comparator**, as by a plain scan from the left.  Take a
core on one line, and look for the least offset, other than 0, at which a comparator stands.  If
there is none, or nothing after it, no pieces are found.  Otherwise they are what stands before the
comparator, without blanks at its end, the comparator, and what stands after it, with a colon at the
end as a piece of its own (`rightSpans`). -/
theorem comparisons_divided_at_first {text : Text} (hcore : text.Core)
    (hline : text.oneLine = true) :
    ((∀ b s a, ¬ ComparatorAt text b s a) → Statement.comparison.spans text = []) ∧
    ∀ before sign after, FirstComparator text before sign after →
      Statement.comparison.spans text =
        if after.trim = [] then []
        else ⟨0, before.trimEnd⟩ :: ⟨before.byteSize, sign⟩ ::
          rightSpans (before.byteSize + 2 + after.leading.byteSize) after.trim := by
  constructor
  · intro hnone
    have htiling : Comparison.tiling? text = none :=
      tiling?_eq_none fun b s a hat => absurd hat (hnone b s a)
    rw [Statement.spans, Statement.tiling?, htiling]
  · intro before sign after hfirst
    by_cases hafter : after = []
    · subst hafter
      rw [Statement.spans, Statement.tiling?, hfirst.tiling?_eq_none]
      rfl
    · obtain ⟨htrim, hright⟩ := hfirst.trim_after hcore hafter
      rw [if_neg (htrim ▸ hright.nonempty), spans_of_first hfirst hcore hline hafter]

/-- The comparator at offset 0 is passed over, and the next one overlaps it. -/
theorem comparisons_divided_at_first_overlapping :
    Text.Core "=== é :".toList ∧ Text.oneLine "=== é :".toList = true ∧
      FirstComparator "=== é :".toList "=".toList "==".toList " é :".toList ∧
      Statement.comparison.spans "=== é :".toList
        = [⟨0, "=".toList⟩, ⟨1, "==".toList⟩, ⟨4, "é".toList⟩, ⟨7, ":".toList⟩] ∧
    Text.Core "x=y".toList ∧ Text.oneLine "x=y".toList = true ∧
      (∀ b s a, ¬ ComparatorAt "x=y".toList b s a) ∧
      Statement.comparison.spans "x=y".toList = [] := by
  have hcore : Text.Core "=== é :".toList := ⟨by decide, by decide⟩
  have hline : Text.oneLine "=== é :".toList = true := by decide
  have hfirst : FirstComparator "=== é :".toList "=".toList "==".toList " é :".toList :=
    ⟨⟨rfl, Or.inl rfl, by decide⟩, fun _ _ _ hat => hat.inside⟩
  have hcore' : Text.Core "x=y".toList := ⟨by decide, by decide⟩
  have hline' : Text.oneLine "x=y".toList = true := by decide
  have hnone : ∀ b s a, ¬ ComparatorAt "x=y".toList b s a := by
    intro b s a hat
    exact absurd hat.hintedBy (by decide)
  exact ⟨hcore, hline, hfirst,
    ((comparisons_divided_at_first hcore hline).2 _ _ _ hfirst).trans (by decide),
    hcore', hline', hnone, (comparisons_divided_at_first hcore' hline').1 hnone⟩

end Statement.Comparison

end Highlighter
