/-
# Texts without blanks around them

What is marked as a piece is the core of some text: it is not empty, and it neither begins nor
ends with a blank.  A division finds cores only, and none of its pieces is larger than the text
it was found in.

* `Text.Core`: a text that is its own core;
* `Division.core_of_mem_along`: the pieces of a division are cores;
* `Tiling.byteSize_le_of_mem_bodies` and `Tiling.Tidy.bodies_eq_of_byteSize_le`: a piece is no
  larger than the whole, and as large only if it is the whole.
-/
import Highlighter.Proofs.Extraction

namespace Highlighter

/-! ## 1. Cores -/

namespace Text

/-- A text that is not empty and has no blanks around it. -/
structure Core (t : Text) : Prop where
  trimmed : t.trim = t
  nonempty : t ≠ []

theorem trimStart_of_head {c : Char} (hc : isBlank c = false) (cs : Text) :
    trimStart (c :: cs) = c :: cs := by
  simp [trimStart, hc]

/-- What is left after the leading blanks begins with no blank. -/
theorem isBlank_of_trimStart_eq_cons {t cs : Text} {c : Char} (h : t.trimStart = c :: cs) :
    isBlank c = false := by
  induction t with
  | nil => exact absurd h (by simp [trimStart])
  | cons d ds ih =>
    by_cases hd : isBlank d = true
    · exact ih (by simpa [trimStart, hd] using h)
    · rw [trimStart_of_head (Bool.eq_false_iff.mpr hd), List.cons.injEq] at h
      exact h.1 ▸ Bool.eq_false_iff.mpr hd

theorem trimStart_trimStart (t : Text) : t.trimStart.trimStart = t.trimStart := by
  cases h : t.trimStart with
  | nil => rfl
  | cons c cs => exact trimStart_of_head (isBlank_of_trimStart_eq_cons h) cs

theorem trimEnd_trimEnd (t : Text) : t.trimEnd.trimEnd = t.trimEnd := by
  have h : trimStart (trimStart t.reverse) = trimStart t.reverse := trimStart_trimStart _
  simp only [trimStart] at h
  rw [trimEnd, trimEnd, List.reverse_reverse, h]

/-- Taking the blanks off the end leaves the beginning as it is. -/
theorem trimStart_trim (t : Text) : t.trim.trimStart = t.trim := by
  cases htrim : t.trim with
  | nil => rfl
  | cons d ds =>
    -- the first character of the core is the first one after the leading blanks
    have hstart : t.trimStart = d :: (ds ++ t.trimStart.trailing) := by
      rw [← List.cons_append, ← htrim, trim, trimEnd_append_trailing]
    exact trimStart_of_head (isBlank_of_trimStart_eq_cons hstart) ds

theorem trim_trim (t : Text) : t.trim.trim = t.trim := by
  have hstart := trimStart_trim t
  rw [trim, hstart, trim, trimEnd_trimEnd]

/-- The core of a text that is not blank. -/
theorem core_trim {t : Text} (h : t.trim ≠ []) : Core t.trim := ⟨trim_trim t, h⟩

/-- There are no blanks around a core. -/
theorem Core.blanks {t : Text} (h : Core t) : t.leading = [] ∧ t.trimStart.trailing = [] := by
  have hsplit := congrArg List.length (leading_append_trim_append_trailing t)
  rw [h.trimmed, List.length_append, List.length_append] at hsplit
  constructor
  · exact List.eq_nil_of_length_eq_zero (by omega)
  · exact List.eq_nil_of_length_eq_zero (by omega)

theorem core_singleton {c : Char} (hc : isBlank c = false) : Core [c] := by
  refine ⟨?_, List.cons_ne_nil c []⟩
  simp [trim, trimStart, trimEnd, hc]

theorem byteSize_trim_le (t : Text) : t.trim.byteSize ≤ t.byteSize := by
  have h := congrArg byteSize (leading_append_trim_append_trailing t)
  simp only [byteSize_append] at h
  omega

theorem eq_nil_of_byteSize_eq_zero {t : Text} (h : t.byteSize = 0) : t = [] := by
  by_contra hne
  have hpos := byteSize_pos hne
  omega

end Text

/-! ## 2. The pieces of a division -/

namespace Tiling

theorem mem_bodies_gap {run b : Text} {t : Tiling} : b ∈ (gap run t).bodies ↔ b ∈ t.bodies :=
  Iff.rfl

theorem mem_bodies_piece {body b : Text} {t : Tiling} (h : b ∈ (piece body t).bodies) :
    (b = body ∧ body ≠ []) ∨ b ∈ t.bodies := by
  unfold piece at h
  split at h
  · exact Or.inr h
  · rename_i hbody
    rcases List.mem_cons.mp h with rfl | h
    · exact Or.inl ⟨rfl, by simpa using hbody⟩
    · exact Or.inr h

theorem core_of_mem_trimmed {run b : Text} {t : Tiling} (ht : ∀ b ∈ t.bodies, Text.Core b)
    (h : b ∈ (trimmed run t).bodies) : Text.Core b := by
  rcases mem_bodies_piece (mem_bodies_gap.mp h) with ⟨rfl, hne⟩ | h
  · exact Text.core_trim hne
  · exact ht b (mem_bodies_gap.mp h)

end Tiling

namespace Division

variable {role : Char → Role}

theorem roleIn_eq_mark {k : Context} {c : Char} (h : roleIn role k c = .mark) :
    role c = .mark := by
  unfold roleIn at h
  split at h
  · exact h
  · exact absurd h (by simp)

theorem core_of_mem_rest_scan (hmark : ∀ c, role c = .mark → isBlank c = false) (k : Context)
    (t : Text) : ∀ b ∈ (scan role k t).rest.bodies, Text.Core b := by
  induction t generalizing k with
  | nil =>
    rintro b ⟨⟩
  | cons c cs ih =>
    have hrest : ∀ b ∈ (scan role (k.read c) cs).tiling.bodies, Text.Core b :=
      fun b hb => Tiling.core_of_mem_trimmed (ih _) hb
    rw [scan]
    intro b hb
    cases hr : roleIn role k c with
    | content =>
      rw [hr] at hb
      exact ih _ b hb
    | divider =>
      rw [hr] at hb
      exact hrest b (Tiling.mem_bodies_gap.mp hb)
    | mark =>
      rw [hr] at hb
      rcases Tiling.mem_bodies_piece hb with ⟨rfl, -⟩ | hb
      · exact Text.core_singleton (hmark c (roleIn_eq_mark hr))
      · exact hrest b hb

/-- **The pieces of a division are cores**, if its marks are no blanks. -/
theorem core_of_mem_along (hmark : ∀ c, role c = .mark → isBlank c = false) {t b : Text}
    (h : b ∈ (along role t).bodies) : Text.Core b :=
  Tiling.core_of_mem_trimmed (core_of_mem_rest_scan hmark .start t) h

theorem core_of_mem_wordsOnly {t b : Text} (h : b ∈ (wordsOnly t).bodies) : Text.Core b := by
  refine core_of_mem_along ?_ h
  intro c hc
  split at hc <;> exact absurd hc (by simp)

end Division

/-! ## 3. The size of a piece -/

namespace Tiling

variable {loose : Char → Bool} {t : Tiling}

theorem exists_tile_of_mem_bodies {b : Text} (h : b ∈ t.bodies) : ∃ a ∈ t.tiles, a.body = b :=
  List.mem_map.mp h

theorem tilesText_append (tiles rest : List Tile) :
    tilesText (tiles ++ rest) = tilesText tiles ++ tilesText rest := List.flatMap_append

/-- Where a tile stands in the text of a tiling. -/
theorem text_of_tiles_eq {before after : List Tile} {a : Tile}
    (h : t.tiles = before ++ a :: after) :
    t.text = t.lead ++ (tilesText before ++ (a.body ++ (a.gap ++ tilesText after))) := by
  rw [text_eq, h, tilesText_append, tilesText_cons]

theorem byteSize_le_of_mem_bodies {b : Text} (h : b ∈ t.bodies) :
    b.byteSize ≤ t.text.byteSize := by
  obtain ⟨a, ha, rfl⟩ := exists_tile_of_mem_bodies h
  obtain ⟨before, after, htiles⟩ := List.append_of_mem ha
  rw [text_of_tiles_eq htiles]
  simp only [Text.byteSize_append]
  omega

theorem eq_nil_of_tilesText_eq_nil {tiles : List Tile} (hne : ∀ a ∈ tiles, a.body ≠ [])
    (h : tilesText tiles = []) : tiles = [] := by
  cases tiles with
  | nil => rfl
  | cons a rest =>
    rw [tilesText_cons, List.append_eq_nil_iff] at h
    exact absurd h.1 (hne a List.mem_cons_self)

/-- **A piece as large as the whole is the whole**, and the only piece. -/
theorem Tidy.bodies_eq_of_byteSize_le (ht : t.Tidy loose) {b : Text} (hb : b ∈ t.bodies)
    (hle : t.text.byteSize ≤ b.byteSize) : t.bodies = [t.text] := by
  obtain ⟨a, ha, rfl⟩ := exists_tile_of_mem_bodies hb
  obtain ⟨before, after, htiles⟩ := List.append_of_mem ha
  have htext := text_of_tiles_eq htiles
  have hsize := congrArg Text.byteSize htext
  simp only [Text.byteSize_append] at hsize
  have hlead : t.lead = [] := Text.eq_nil_of_byteSize_eq_zero (by omega)
  have hgap : a.gap = [] := Text.eq_nil_of_byteSize_eq_zero (by omega)
  have hbefore : before = [] := by
    refine eq_nil_of_tilesText_eq_nil (fun x hx => ht.bodies x ?_)
      (Text.eq_nil_of_byteSize_eq_zero (by omega))
    simp [htiles, hx]
  have hafter : after = [] := by
    refine eq_nil_of_tilesText_eq_nil (fun x hx => ht.bodies x ?_)
      (Text.eq_nil_of_byteSize_eq_zero (by omega))
    simp [htiles, hx]
  subst hbefore hafter
  rw [htext, Tiling.bodies, htiles, hlead, hgap]
  simp [tilesText]

end Tiling

end Highlighter
