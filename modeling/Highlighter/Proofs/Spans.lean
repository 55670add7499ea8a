/-
# The spans of a tiling cover its text

A tiling keeps a text as pieces and gaps, in order; a caller sees only the pieces, each with a
byte offset.  This file says what the offsets are worth.

* `Text.slice`: the part of a text between two byte offsets, which fails where an offset names
  no place in the text;
* `Span.Covering loose text spans`: the spans are what is found at their offsets, they follow
  one another, and every character outside all of them is `loose`;
* `Tiling.Tidy loose t`: no piece is empty, and all gaps are `loose`.

`Tiling.Tidy.covering` connects the two.  What is left to do for a rule is then only to see
which characters it puts into gaps.
-/
import Highlighter.Tiling
import Highlighter.Text.Offset

namespace Highlighter

/-! ## 1. Slices by byte offsets -/

namespace Text

/-- The part of a text between two byte offsets. -/
def slice (t : Text) (start stop : Nat) : Except OffsetError Text := do
  let (upTo, _) ← t.splitAtByte stop
  let (_, part) ← upTo.splitAtByte start
  return part

theorem byteSize_pos {t : Text} (h : t ≠ []) : 0 < t.byteSize := by
  cases t with
  | nil => exact absurd rfl h
  | cons c cs =>
    have hc := c.utf8Size_pos
    rw [byteSize_cons]
    omega

theorem splitAtByte_append (s t : Text) : (s ++ t).splitAtByte s.byteSize = .ok (s, t) := by
  induction s with
  | nil => cases t <;> rfl
  | cons c s ih =>
    -- the offset is positive, so it is the third clause that divides here
    obtain ⟨n, hn⟩ : ∃ n, byteSize (c :: s) = n + 1 :=
      Nat.exists_eq_succ_of_ne_zero (Nat.ne_of_gt (byteSize_pos (List.cons_ne_nil c s)))
    have hle : c.utf8Size ≤ n + 1 := by
      rw [← hn, byteSize_cons]
      exact Nat.le_add_right _ _
    have hrest : n + 1 - c.utf8Size = byteSize s := by
      rw [← hn, byteSize_cons]
      exact Nat.add_sub_cancel_left _ _
    rw [hn, List.cons_append, splitAtByte, if_pos hle, hrest, ih]
    rfl

/-- The slice between two places of a text is what stands there. -/
theorem slice_middle (before part after : Text) :
    slice (before ++ (part ++ after)) before.byteSize (before.byteSize + part.byteSize)
      = .ok part := by
  have hstop : splitAtByte (before ++ (part ++ after)) (before.byteSize + part.byteSize)
      = .ok (before ++ part, after) := by
    rw [← List.append_assoc, ← byteSize_append]
    exact splitAtByte_append _ _
  have hstart : splitAtByte (before ++ part) before.byteSize = .ok (before, part) :=
    splitAtByte_append _ _
  simp only [slice, hstop, bind, Except.bind, hstart, pure, Except.pure]

/-- A character of two texts in a row is in the first or in the second. -/
theorem append_eq_append_cons {s t before after : Text} {c : Char}
    (h : s ++ t = before ++ c :: after) :
    (∃ rest, s = before ++ c :: rest) ∨ ∃ mid, before = s ++ mid ∧ t = mid ++ c :: after := by
  rcases List.append_eq_append_iff.mp h with ⟨mid, hb, ht⟩ | ⟨mid, hs, hc⟩
  · exact Or.inr ⟨mid, hb, ht⟩
  · cases mid with
    | nil => exact Or.inr ⟨[], by simpa using hs.symm, by simpa using hc.symm⟩
    | cons d rest =>
      rw [List.cons_append, List.cons.injEq] at hc
      obtain ⟨rfl, -⟩ := hc
      exact Or.inl ⟨rest, hs⟩

end Text

/-! ## 2. Coverings -/

/-- **The spans cover the text up to loose characters.**  This is said by offsets alone: it
does not matter how the spans were found. -/
structure Span.Covering (loose : Char → Bool) (text : Text) (spans : List Span) : Prop where
  /-- No span is empty. -/
  nonempty : ∀ s ∈ spans, s.text ≠ []
  /-- A span's text is what stands at its offsets. -/
  slices : ∀ s ∈ spans, text.slice s.offset s.stop = .ok s.text
  /-- A span begins where the ones before it have ended, or later. -/
  ordered : spans.Pairwise fun s s' => s.stop ≤ s'.offset
  /-- A character that is inside no span is loose. -/
  covered : ∀ (before : Text) c after, text = before ++ c :: after →
    (∀ s ∈ spans, ¬ (s.offset ≤ before.byteSize ∧ before.byteSize < s.stop)) → loose c = true

namespace Tiling

/-! ## 3. Tidy tilings -/

/-- No piece is empty, and the gaps hold loose characters only. -/
structure Tidy (loose : Char → Bool) (t : Tiling) : Prop where
  lead : ∀ c ∈ t.lead, loose c = true
  bodies : ∀ a ∈ t.tiles, a.body ≠ []
  gaps : ∀ a ∈ t.tiles, ∀ c ∈ a.gap, loose c = true

/-- Every tiling that a rule makes is tidy. -/
def Tidies (loose : Char → Bool) (rule : Text → Option Tiling) : Prop :=
  ∀ s t, rule s = some t → t.Tidy loose

variable {loose : Char → Bool} {t : Tiling}

theorem tidy_empty : empty.Tidy loose := ⟨by simp [empty], by simp [empty], by simp [empty]⟩

theorem tidy_gap {run : Text} (hrun : ∀ c ∈ run, loose c = true) (ht : t.Tidy loose) :
    (gap run t).Tidy loose := by
  refine ⟨?_, ht.bodies, ht.gaps⟩
  intro c hc
  rcases List.mem_append.mp hc with hc | hc
  · exact hrun c hc
  · exact ht.lead c hc

theorem tidy_piece (body : Text) (ht : t.Tidy loose) : (piece body t).Tidy loose := by
  unfold piece
  split
  · exact ht
  · rename_i hbody
    refine ⟨by simp, ?_, ?_⟩
    · intro a ha
      rcases List.mem_cons.mp ha with rfl | ha
      · simpa using hbody
      · exact ht.bodies a ha
    · intro a ha
      rcases List.mem_cons.mp ha with rfl | ha
      · exact ht.lead
      · exact ht.gaps a ha

/-- A single piece is tidy, whatever it is. -/
theorem tidy_only (body : Text) : (piece body empty).Tidy loose := tidy_piece body tidy_empty

theorem tidy_tile {a : Tile} (ha : ∀ c ∈ a.gap, loose c = true) (ht : t.Tidy loose) :
    (tile a t).Tidy loose := tidy_piece a.body (tidy_gap ha ht)

theorem tidy_foldr_tile {tiles : List Tile} (h : ∀ a ∈ tiles, ∀ c ∈ a.gap, loose c = true)
    (ht : t.Tidy loose) : (tiles.foldr tile t).Tidy loose := by
  induction tiles with
  | nil => exact ht
  | cons a rest ih =>
    exact tidy_tile (h a List.mem_cons_self) (ih fun b hb => h b (List.mem_cons_of_mem a hb))

theorem tidy_append {s : Tiling} (hs : s.Tidy loose) (ht : t.Tidy loose) :
    (s.append t).Tidy loose := tidy_gap hs.lead (tidy_foldr_tile hs.gaps ht)

theorem tidy_foldr_refineTile {rule : Text → Option Tiling} (hrule : Tidies loose rule)
    {tiles : List Tile} (h : ∀ a ∈ tiles, ∀ c ∈ a.gap, loose c = true) :
    (tiles.foldr (refineTile rule) empty).Tidy loose := by
  induction tiles with
  | nil => exact tidy_empty
  | cons a rest ih =>
    have ha : ∀ c ∈ a.gap, loose c = true := h a List.mem_cons_self
    have hrest := ih fun b hb => h b (List.mem_cons_of_mem a hb)
    rw [List.foldr_cons, refineTile]
    split
    · rename_i parts hparts
      exact tidy_append (hrule _ _ hparts) (tidy_gap ha hrest)
    · exact tidy_tile ha hrest

/-- Taking the pieces of a tidy tiling apart by a tidy rule leaves it tidy. -/
theorem tidy_refine {rule : Text → Option Tiling} (hrule : Tidies loose rule)
    (ht : t.Tidy loose) : (t.refine rule).Tidy loose :=
  tidy_gap ht.lead (tidy_foldr_refineTile hrule ht.gaps)

/-! ## 4. The spans of a tidy tiling -/

/-- What a list of tiles reads as. -/
def tilesText (tiles : List Tile) : Text := tiles.flatMap fun a => a.body ++ a.gap

theorem tilesText_cons (a : Tile) (rest : List Tile) :
    tilesText (a :: rest) = a.body ++ (a.gap ++ tilesText rest) := by
  simp [tilesText]

theorem text_eq (t : Tiling) : t.text = t.lead ++ tilesText t.tiles := rfl

/-- Where a span of some tiles stands, if they begin after `before`. -/
theorem mem_spansFrom {tiles : List Tile} {before : Text} {s : Span}
    (h : s ∈ spansFrom before.byteSize tiles) :
    ∃ pre post, before ++ tilesText tiles = pre ++ (s.text ++ post) ∧
      s.offset = pre.byteSize := by
  induction tiles generalizing before with
  | nil => exact absurd h (by simp [spansFrom])
  | cons a rest ih =>
    rw [tilesText_cons]
    rcases List.mem_cons.mp h with rfl | h
    · exact ⟨before, a.gap ++ tilesText rest, rfl, rfl⟩
    · have hnext : before.byteSize + a.body.byteSize + a.gap.byteSize
          = Text.byteSize (before ++ (a.body ++ a.gap)) := by
        simp [Nat.add_assoc]
      rw [hnext] at h
      obtain ⟨pre, post, htext, hoff⟩ := ih h
      refine ⟨pre, post, ?_, hoff⟩
      rw [← htext]
      simp

theorem body_of_mem_spansFrom {tiles : List Tile} {offset : Nat} {s : Span}
    (h : s ∈ spansFrom offset tiles) : ∃ a ∈ tiles, s.text = a.body := by
  induction tiles generalizing offset with
  | nil => exact absurd h (by simp [spansFrom])
  | cons a rest ih =>
    rcases List.mem_cons.mp h with rfl | h
    · exact ⟨a, List.mem_cons_self, rfl⟩
    · obtain ⟨b, hb, hs⟩ := ih h
      exact ⟨b, List.mem_cons_of_mem a hb, hs⟩

theorem le_offset_of_mem_spansFrom {tiles : List Tile} {offset : Nat} {s : Span}
    (h : s ∈ spansFrom offset tiles) : offset ≤ s.offset := by
  induction tiles generalizing offset with
  | nil => exact absurd h (by simp [spansFrom])
  | cons a rest ih =>
    rcases List.mem_cons.mp h with rfl | h
    · exact Nat.le_refl _
    · have hle := ih h
      omega

theorem pairwise_spansFrom (offset : Nat) (tiles : List Tile) :
    (spansFrom offset tiles).Pairwise fun s s' => s.stop ≤ s'.offset := by
  induction tiles generalizing offset with
  | nil => exact List.Pairwise.nil
  | cons a rest ih =>
    refine List.Pairwise.cons ?_ (ih _)
    intro s hs
    have hle := le_offset_of_mem_spansFrom hs
    simp only [Span.stop]
    omega

/-- A character of some tiles that is inside none of their spans is in a gap. -/
theorem loose_of_uncovered {tiles : List Tile}
    (hgaps : ∀ a ∈ tiles, ∀ c ∈ a.gap, loose c = true) (offset : Nat)
    {before after : Text} {c : Char} (htext : tilesText tiles = before ++ c :: after)
    (hout : ∀ s ∈ spansFrom offset tiles,
      ¬ (s.offset ≤ offset + before.byteSize ∧ offset + before.byteSize < s.stop)) :
    loose c = true := by
  induction tiles generalizing offset before with
  | nil => exact absurd htext (by simp [tilesText])
  | cons a rest ih =>
    rw [tilesText_cons] at htext
    rcases Text.append_eq_append_cons htext with ⟨more, hbody⟩ | ⟨mid, rfl, hgap⟩
    · -- in the piece: then the first span holds the character
      refine absurd ?_ (hout _ List.mem_cons_self)
      have hpos := Text.byteSize_pos (List.cons_ne_nil c more)
      simp only [Span.stop, hbody, Text.byteSize_append]
      omega
    · rcases Text.append_eq_append_cons hgap with ⟨more, hin⟩ | ⟨mid', rfl, hrest⟩
      · exact hgaps a List.mem_cons_self c (by simp [hin])
      · refine ih (fun b hb => hgaps b (List.mem_cons_of_mem a hb))
          (offset + a.body.byteSize + a.gap.byteSize) hrest ?_
        intro s hs
        have h := hout s (List.mem_cons_of_mem _ hs)
        simp only [Text.byteSize_append, ← Nat.add_assoc] at h
        exact h

/-- **The spans of a tidy tiling cover its text.** -/
theorem Tidy.covering (ht : t.Tidy loose) : Span.Covering loose t.text t.spans := by
  refine ⟨?_, ?_, pairwise_spansFrom _ _, ?_⟩
  · intro s hs
    obtain ⟨a, ha, htext⟩ := body_of_mem_spansFrom hs
    rw [htext]
    exact ht.bodies a ha
  · intro s hs
    obtain ⟨pre, post, htext, hoff⟩ := mem_spansFrom hs
    rw [text_eq, htext, Span.stop, hoff]
    exact Text.slice_middle pre s.text post
  · intro before c after htext hout
    rw [text_eq] at htext
    rcases Text.append_eq_append_cons htext with ⟨more, hlead⟩ | ⟨mid, rfl, hrest⟩
    · exact ht.lead c (by simp [hlead])
    · refine loose_of_uncovered ht.gaps t.lead.byteSize hrest ?_
      intro s hs
      have h := hout s hs
      rw [Text.byteSize_append] at h
      exact h

/-- A tidy tiling without spans is one of loose characters only. -/
theorem Tidy.loose_of_spans_eq_nil (ht : t.Tidy loose) (h : t.spans = []) :
    ∀ c ∈ t.text, loose c = true := by
  intro c hc
  obtain ⟨before, after, htext⟩ := List.append_of_mem hc
  refine ht.covering.covered before c after htext ?_
  rw [h]
  simp

theorem Tidy.tiles_eq_nil (ht : t.Tidy loose) (h : t.text = []) : t.tiles = [] := by
  cases htiles : t.tiles with
  | nil => rfl
  | cons a rest =>
    have hbody : a.body ≠ [] := ht.bodies a (by simp [htiles])
    refine absurd ?_ hbody
    rw [text_eq, htiles, tilesText_cons] at h
    simp only [List.append_eq_nil_iff] at h
    exact h.2.1

end Tiling

end Highlighter
