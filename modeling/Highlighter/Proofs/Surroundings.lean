/-
# Blanks around a line change nothing inside

Blanks are taken off in several places: before the kind of a line is looked for, before its rule
is applied, around each piece and around a text that is marked by itself.  Each time the offsets
are counted anew.  Put together, this must come to nothing: a line with more blanks around it has
the pieces that it had, all moved by the same amount, and the markup that it had, with the blanks
beside it.

* `Text.Core.padded`, `Text.padded`: what is taken off around a text with blanks put around it;
* `Markup.lineBy_padded`, `Markup.ofPiece_padded`: the markup of such a text.  For lines this rests
  on `Markup.lineBy_blanks`, and so on the fact that every rule begins and ends with a piece.
-/
import Highlighter.Proofs.Arguments
import Highlighter.Proofs.WellFormed

namespace Highlighter

/-! ## 1. Texts with blanks around them -/

namespace Text

variable {l u v : Text}

theorem trailing_append {c : Char} (hc : isBlank c = false) (hv : v.blank = true) (s : Text) :
    trailing (s ++ c :: v) = v ∧ trimEnd (s ++ c :: v) = s ++ [c] := by
  have hreverse : (s ++ c :: v).reverse = v.reverse ++ c :: s.reverse := by simp
  have hblank : ∀ d ∈ v.reverse, isBlank d = true :=
    fun d hd => blank_iff.mp hv d (List.mem_reverse.mp hd)
  obtain ⟨htake, hdrop⟩ := takeWhile_append hblank hc s.reverse
  constructor
  · rw [trailing, hreverse, htake, List.reverse_reverse]
  · rw [trimEnd, hreverse, hdrop, List.reverse_cons, List.reverse_reverse]

/-- **A core with blanks around it** is taken out of them again. -/
theorem Core.padded (h : l.Core) (hu : u.blank = true) (hv : v.blank = true) :
    (u ++ (l ++ v)).leading = u ∧ (u ++ (l ++ v)).trim = l ∧
      (u ++ (l ++ v)).trimStart.trailing = v := by
  obtain ⟨c, cs, hfirst⟩ := List.exists_cons_of_ne_nil h.nonempty
  obtain ⟨s, d, hlast⟩ : ∃ s d, l = s ++ [d] :=
    (List.eq_nil_or_concat' l).resolve_left h.nonempty
  have hstart := leading_append hu (h.not_blank_head hfirst) (cs ++ v)
  rw [← List.cons_append, ← hfirst] at hstart
  have hend := trailing_append (h.not_blank_last hlast) hv s
  rw [← List.singleton_append, ← List.append_assoc, ← hlast] at hend
  refine ⟨hstart.1, ?_, ?_⟩
  · rw [trim, hstart.2, hend.2]
  · rw [hstart.2, hend.1]

theorem Core.trim_padded_ne_nil (h : l.Core) (hu : u.blank = true) (hv : v.blank = true) :
    (u ++ (l ++ v)).trim ≠ [] := by
  rw [(h.padded hu hv).2.1]
  exact h.nonempty

theorem blank_append : (u ++ v).blank = (u.blank && v.blank) := List.all_append

/-- A text that is not blank, with blanks around it, has the core that it had. -/
theorem padded (h : l.trim ≠ []) (hu : u.blank = true) (hv : v.blank = true) :
    (u ++ (l ++ v)).leading = u ++ l.leading ∧ (u ++ (l ++ v)).trim = l.trim := by
  have htrailing : l.trimStart.trailing.blank = true :=
    blank_iff.mpr fun _ => isBlank_of_mem_trailing
  have htext : u ++ (l ++ v)
      = (u ++ l.leading) ++ (l.trim ++ (l.trimStart.trailing ++ v)) := by
    nth_rewrite 1 [← leading_append_trim_append_trailing l]
    simp only [List.append_assoc]
  obtain ⟨hleading, htrim, -⟩ := (core_trim h).padded (u := u ++ l.leading)
    (v := l.trimStart.trailing ++ v) (by rw [blank_append, hu, blank_leading, Bool.true_and])
    (by rw [blank_append, htrailing, hv, Bool.true_and])
  rw [htext]
  exact ⟨hleading, htrim⟩

end Text

/-! ## 2. Their pieces and their markup -/

theorem Span.shift_shift (m n : Nat) (s : Span) : (s.shift m).shift n = s.shift (n + m) := by
  simp only [shift, Nat.add_assoc, Nat.add_comm m n]

/-- **The pieces of a line with blanks around it** are moved by the blanks in front. -/
theorem Statement.spans_dissect_padded {l u v : Text} (h : l.trim ≠ []) (hu : u.blank = true)
    (hv : v.blank = true) :
    (dissect (u ++ (l ++ v))).spans = (dissect l).spans.map (Span.shift u.byteSize) := by
  obtain ⟨hleading, htrim⟩ := Text.padded h hu hv
  rw [Sliced.spans_dissect, Sliced.spans_dissect, hleading, htrim, List.map_map,
    Text.byteSize_append]
  refine List.map_congr_left ?_
  intro s _
  rw [Function.comp_apply, Span.shift_shift]

namespace Markup

variable {l u v : Text}

theorem lineBy_padded {mark : Text → Markup} (h : l.Core) (hu : u.blank = true)
    (hv : v.blank = true) :
    lineBy mark (u ++ (l ++ v)) = ofRun u ++ (lineBy mark l ++ ofRun v) := by
  obtain ⟨hleading, htrim, htrailing⟩ := h.padded hu hv
  rw [lineBy_blanks (h.trim_padded_ne_nil hu hv), hleading, htrim, htrailing]

theorem ofPiece_padded (h : l.Core) (hu : u.blank = true) (hv : v.blank = true)
    (hne : u ≠ [] ∨ v ≠ []) :
    ofPiece (u ++ (l ++ v)) = .group .neutral (ofRun u ++ (ofPiece l :: ofRun v)) := by
  obtain ⟨hleading, htrim, htrailing⟩ := h.padded hu hv
  have hother : (u ++ (l ++ v)).trim ≠ u ++ (l ++ v) := by
    intro hsame
    have hlength := congrArg List.length (htrim.symm.trans hsame)
    simp only [List.length_append] at hlength
    rcases hne with hne | hne
    · exact hne (List.eq_nil_of_length_eq_zero (by omega))
    · exact hne (List.eq_nil_of_length_eq_zero (by omega))
  rw [ofPiece_of_trim_ne (h.trim_padded_ne_nil hu hv) hother, hleading, htrim, htrailing, ofPiece,
    ofPieceWithin_core h]

/-- **Blanks around a line stay around it.**  With blanks put around a line that is not blank, its
pieces are the same, each moved by the blanks in front.  If the line had no blanks around it, its
markup is the same with the blanks beside it, as runs of text; and marked as a piece, with any
blanks around it, it is a neutral group of the blanks and its markup.  Where there are no blanks
on a side there is no run. -/
theorem blanks_stay_around (hl : l.blank = false) (hu : u.blank = true) (hv : v.blank = true) :
    (Statement.dissect (u ++ (l ++ v))).spans
      = (Statement.dissect l).spans.map (Span.shift u.byteSize) ∧
    (l.trim = l →
      ofLine (u ++ (l ++ v)) = ofRun u ++ (ofLine l ++ ofRun v) ∧
      (u ≠ [] ∨ v ≠ [] →
        ofPiece (u ++ (l ++ v)) = .group .neutral (ofRun u ++ (ofPiece l :: ofRun v)))) := by
  have hne : l.trim ≠ [] := by
    rw [Ne, Text.trim_eq_nil_iff, hl]
    exact Bool.false_ne_true
  refine ⟨Statement.spans_dissect_padded hne hu hv, ?_⟩
  intro htrim
  have hcore : l.Core := ⟨htrim, htrim ▸ hne⟩
  exact ⟨lineBy_padded hcore hu hv, ofPiece_padded hcore hu hv⟩

/-- A comparison behind a blank of three bytes, with a tabulator after it. -/
theorem blanks_stay_around_comparison :
    Text.blank "x == 1".toList = false ∧ Text.blank "\u3000".toList = true ∧
      Text.blank "\t".toList = true ∧ Text.trim "x == 1".toList = "x == 1".toList ∧
      (Statement.dissect "\u3000x == 1\t".toList).spans
        = [⟨3, "x".toList⟩, ⟨5, "==".toList⟩, ⟨8, "1".toList⟩] ∧
      ofLine "\u3000x == 1\t".toList
        = .run "\u3000".toList :: (ofLine "x == 1".toList ++ [.run "\t".toList]) ∧
      ofPiece "\u3000x == 1\t".toList
        = .group .neutral [.run "\u3000".toList, ofPiece "x == 1".toList, .run "\t".toList] := by
  have hl : Text.blank "x == 1".toList = false := by decide
  have hu : Text.blank "\u3000".toList = true := by decide
  have hv : Text.blank "\t".toList = true := by decide
  have htrim : Text.trim "x == 1".toList = "x == 1".toList := by decide
  obtain ⟨hspans, hmarkup⟩ := blanks_stay_around hl hu hv
  obtain ⟨hline, hpiece⟩ := hmarkup htrim
  exact ⟨hl, hu, hv, htrim, hspans.trans (by decide +kernel), hline,
    hpiece (Or.inl (List.cons_ne_nil _ _))⟩

end Markup

end Highlighter
