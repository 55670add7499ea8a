/-
# Lines and the blanks around them

A line is taken apart without the blanks around it, and they are put back as gaps before the
pieces are marked.  Gaps run together where they meet, so it has to be said that none meet here:
the tiling of a core begins and ends with a piece.  Then the blanks stand beside the markup of
the core, at each end.

* `Tiling.refine_piece_some`, `Tiling.refine_piece_none`: refining a tiling from the left;
* `Markup.withGaps_piece`, `Markup.withGaps_gap`: marking a tiling from the left;
* `Tiling.Tidy.lead_of_core`, `Tiling.Tidy.gap_of_core`: the tiling of a core begins and ends
  with a piece;
* `Markup.lineBy_blanks`, `Markup.lineBy_blank`: a line by its core.
-/
import Highlighter.Proofs.Rows
import Highlighter.Proofs.Slicing

namespace Highlighter

/-! ## 1. Tilings from the left -/

namespace Tiling

theorem lead_piece {body : Text} (h : body ≠ []) (t : Tiling) : (piece body t).lead = [] := by
  simp [piece, h]

theorem gap_nil (t : Tiling) : gap [] t = t := rfl

variable {rule : Text → Option Tiling}

theorem refine_gap (run : Text) (t : Tiling) :
    (gap run t).refine rule = gap run (t.refine rule) := by
  simp [refine, gap]

theorem refine_piece_some {body : Text} {parts : Tiling} (hne : body ≠ [])
    (h : rule body = some parts) (t : Tiling) :
    (piece body t).refine rule = parts.append (t.refine rule) := by
  simp [refine, piece, hne, refineTile, h, gap_nil]

theorem refine_piece_none {body : Text} (hne : body ≠ []) (h : rule body = none) (t : Tiling) :
    (piece body t).refine rule = piece body (t.refine rule) := by
  simp [refine, piece, hne, refineTile, h, gap_nil, tile]

end Tiling

namespace Markup

open Tiling

variable {each : Text → List Markup}

theorem ofRun_nil : ofRun [] = [] := rfl

theorem withGaps_empty : withGaps each empty = [] := rfl

theorem withGaps_piece {body : Text} (hne : body ≠ []) (t : Tiling) :
    withGaps each (piece body t) = each body ++ withGaps each t := by
  simp [withGaps, splice, piece, hne, ofRun_nil]

/-- A gap is kept as it is, if no other gap follows right after it. -/
theorem withGaps_gap (run : Text) {t : Tiling} (h : t.lead = []) :
    withGaps each (gap run t) = ofRun run ++ withGaps each t := by
  simp [withGaps, splice, gap, h, ofRun_nil]

/-- Tiles that end with a piece, in front of any tiling. -/
theorem withGaps_foldr_tile {tiles : List Tile} (hne : ∀ a ∈ tiles, a.body ≠ [])
    (hlast : ∀ before a, tiles = before ++ [a] → a.gap = []) (t : Tiling) :
    withGaps each (tiles.foldr tile t)
      = (tiles.flatMap fun a => each a.body ++ ofRun a.gap) ++ withGaps each t := by
  induction tiles with
  | nil => rfl
  | cons a rest ih =>
    have ha : a.body ≠ [] := hne a List.mem_cons_self
    rw [List.foldr_cons, tile, withGaps_piece ha, List.flatMap_cons]
    cases rest with
    | nil =>
      have hgap : a.gap = [] := hlast [] a rfl
      simp [hgap, gap_nil, ofRun_nil]
    | cons b rest =>
      have hb : b.body ≠ [] := hne b (by simp)
      have hlead : ((b :: rest).foldr tile t).lead = [] := lead_piece hb _
      rw [withGaps_gap a.gap hlead, ih (fun c hc => hne c (List.mem_cons_of_mem a hc))]
      · simp only [List.append_assoc]
      · intro before c hc
        exact hlast (a :: before) c (by rw [hc, List.cons_append])

end Markup

/-! ## 2. A line and the blanks around it -/

namespace Text

/-- Of a blank text all the blanks are leading ones. -/
theorem leading_of_blank {t : Text} (h : t.trim = []) : t.leading = t ∧ t.trimStart = [] := by
  have hstart : t.trimStart = [] :=
    List.dropWhile_eq_nil_iff.mpr (blank_iff.mp (trim_eq_nil_iff.mp h))
  have hsplit := leading_append_trimStart t
  rw [hstart, List.append_nil] at hsplit
  exact ⟨hsplit, hstart⟩

theorem Core.not_blank_head {t cs : Text} {c : Char} (h : t.Core) (heq : t = c :: cs) :
    isBlank c = false := by
  have hstart := trimStart_trim t
  rw [h.trimmed] at hstart
  exact isBlank_of_trimStart_eq_cons (hstart.trans heq)

theorem Core.not_blank_last {t s : Text} {c : Char} (h : t.Core) (heq : t = s ++ [c]) :
    isBlank c = false := by
  have hend : t.trimEnd = t := by
    have htrim := trimEnd_trimEnd t.trimStart
    rwa [← trim, h.trimmed] at htrim
  have hreverse : trimStart t.reverse = c :: s.reverse := by
    have hdrop := congrArg List.reverse hend
    rw [trimEnd, List.reverse_reverse] at hdrop
    rw [trimStart, hdrop, heq, List.reverse_append]
    rfl
  exact isBlank_of_trimStart_eq_cons hreverse

end Text

namespace Tiling

variable {t : Tiling}

/-- A tiling of a core begins with a piece. -/
theorem Tidy.lead_of_core (ht : t.Tidy isBlank) (h : t.text.Core) : t.lead = [] := by
  cases hlead : t.lead with
  | nil => rfl
  | cons c cs =>
    have hc := ht.lead c (by simp [hlead])
    have hfirst : t.text = c :: (cs ++ tilesText t.tiles) := by
      rw [text_eq, hlead, List.cons_append]
    exact absurd hc (by simp [h.not_blank_head hfirst])

/-- A tiling of a core ends with a piece. -/
theorem Tidy.gap_of_core (ht : t.Tidy isBlank) (h : t.text.Core) {before : List Tile} {a : Tile}
    (htiles : t.tiles = before ++ [a]) : a.gap = [] := by
  rcases List.eq_nil_or_concat a.gap with hgap | ⟨run, c, hgap⟩
  · exact hgap
  · have hc := ht.gaps a (by simp [htiles]) c (by simp [hgap])
    have hlast : t.text = (t.lead ++ (tilesText before ++ (a.body ++ run))) ++ [c] := by
      rw [text_of_tiles_eq htiles, hgap]
      simp [tilesText]
    exact absurd hc (by simp [h.not_blank_last hlast])

theorem Tidy.tiles_of_core (ht : t.Tidy isBlank) (h : t.text.Core) : t.tiles ≠ [] := by
  intro htiles
  refine h.nonempty ?_
  rw [text_eq, ht.lead_of_core h, htiles]
  rfl

end Tiling

namespace Markup

open Tiling

variable {mark : Text → Markup}

/-- The markup of a line by its core. -/
theorem lineBy_eq {line : Text} (h : line.trim ≠ []) :
    lineBy mark line = ofRun line.leading ++
      (withGaps (withBlanks mark) (Statement.dissectTrimmed line.trim) ++
        ofRun line.trimStart.trailing) := by
  have ht := Statement.tidy_dissectTrimmed line.trim
  have hcore : (Statement.dissectTrimmed line.trim).text.Core := by
    rw [Statement.text_dissectTrimmed]
    exact Text.core_trim h
  unfold lineBy Statement.dissect
  generalize Statement.dissectTrimmed line.trim = t at ht hcore
  have hlead := ht.lead_of_core hcore
  have htiles := ht.tiles_of_core hcore
  have happend : ∀ u : Tiling, (t.append u).lead = [] := by
    intro u
    obtain ⟨a, rest, hcons⟩ := List.exists_cons_of_ne_nil htiles
    rw [append, hlead, gap_nil, hcons]
    exact lead_piece (ht.bodies a (by simp [hcons])) _
  rw [withGaps_gap _ (happend _), append, hlead, gap_nil,
    withGaps_foldr_tile ht.bodies (fun _ _ => ht.gap_of_core hcore),
    withGaps_gap (t := empty) _ rfl, withGaps_empty, List.append_nil]
  simp [withGaps, splice, hlead, ofRun_nil]

/-- **The blanks around a line** stand beside the markup of the line. -/
theorem lineBy_blanks {line : Text} (h : line.trim ≠ []) :
    lineBy mark line
      = ofRun line.leading ++ (lineBy mark line.trim ++ ofRun line.trimStart.trailing) := by
  have hcore : line.trim.Core := Text.core_trim h
  have hne : line.trim.trim ≠ [] := hcore.trimmed.symm ▸ h
  rw [lineBy_eq h, lineBy_eq hne, hcore.trimmed, hcore.blanks.1,
    hcore.blanks.2, ofRun_nil, List.nil_append, List.append_nil]

/-- A blank line stays as it is. -/
theorem lineBy_blank {line : Text} (h : line.trim = []) : lineBy mark line = ofRun line := by
  have hempty : Statement.dissectTrimmed [] = empty := by decide
  obtain ⟨hleading, hstart⟩ := Text.leading_of_blank h
  rw [lineBy, Statement.dissect, h, hempty, empty_append, hleading, hstart,
    withGaps_gap _ rfl]
  simp [Text.trailing, gap_nil, withGaps_empty]

end Markup

end Highlighter
