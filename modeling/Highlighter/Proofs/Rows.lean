/-
# Rows of markup

Marking goes through blanks, gaps, lines and lists of arguments.  All that it ever puts side by
side are runs of characters that belong to no piece, and pieces marked by `mark`.  For each way
of marking this file says which texts are marked, and that nothing else stands beside them.

* `cores`, `lineCores`, `argumentCores`: the texts that are marked;
* `row_withBlanks`, `row_withGaps`, `row_lineBy`, `row_argumentsBy`: what is put side by side;
* `withBlanks_congr` .. `argumentsBy_congr`: `mark` is asked for nothing but these texts.
-/
import Highlighter.Markup.Source
import Highlighter.Proofs.Cores
import Mathlib.Data.List.Basic

namespace Highlighter.Markup

/-! ## 1. The texts that are marked -/

/-- The core of a text, if there is one. -/
def cores (text : Text) : List Text := if text.trim.isEmpty then [] else [text.trim]

/-- The cores of the pieces of a line. -/
def lineCores (text : Text) : List Text := (Statement.dissect text).bodies.flatMap cores

/-- The cores of the pieces of arguments, each of which is a line of its own. -/
def argumentCores (text : Text) : List Text :=
  (Listing.arguments text).bodies.flatMap lineCores

theorem mem_cores {text s : Text} (h : s ∈ cores text) : s = text.trim ∧ text.trim ≠ [] := by
  unfold cores at h
  split at h
  · exact absurd h (by simp)
  · rename_i hne
    exact ⟨List.mem_singleton.mp h, by simpa using hne⟩

/-- What `cores` finds is a core, and no larger than the text. -/
theorem core_of_mem_cores {text s : Text} (h : s ∈ cores text) :
    s.Core ∧ s.byteSize ≤ text.byteSize := by
  obtain ⟨rfl, hne⟩ := mem_cores h
  exact ⟨Text.core_trim hne, Text.byteSize_trim_le text⟩

/-- If what is found in the pieces of a tiling is a core, and no larger than the piece, it is no
larger than the text of the tiling. -/
theorem core_of_mem_flatMap {find : Text → List Text}
    (hfind : ∀ b, ∀ s ∈ find b, s.Core ∧ s.byteSize ≤ b.byteSize) {t : Tiling} {s : Text}
    (h : s ∈ t.bodies.flatMap find) : s.Core ∧ s.byteSize ≤ t.text.byteSize := by
  obtain ⟨b, hb, hs⟩ := List.mem_flatMap.mp h
  have hle := Tiling.byteSize_le_of_mem_bodies hb
  obtain ⟨hcore, hsize⟩ := hfind b s hs
  exact ⟨hcore, hsize.trans hle⟩

theorem core_of_mem_lineCores {text s : Text} (h : s ∈ lineCores text) :
    s.Core ∧ s.byteSize ≤ text.byteSize := by
  have hline := core_of_mem_flatMap (fun _ _ => core_of_mem_cores) h
  rw [Statement.text_dissect] at hline
  exact hline

theorem core_of_mem_argumentCores {text s : Text} (h : s ∈ argumentCores text) :
    s.Core ∧ s.byteSize ≤ text.byteSize := by
  have harguments := core_of_mem_flatMap (fun _ _ => core_of_mem_lineCores) h
  rw [Listing.text_arguments] at harguments
  exact harguments

/-! ## 2. What stands side by side -/

/-- A run of loose characters, of which there is one at least. -/
def LooseRun (loose : Char → Bool) (m : Markup) : Prop :=
  ∃ s, m = .run s ∧ s ≠ [] ∧ ∀ c ∈ s, loose c = true

/-- **A row** of markup: runs of loose characters, and pieces marked by `mark` whose texts are
among `marked`. -/
def Row (loose : Char → Bool) (mark : Text → Markup) (marked : List Text)
    (ms : List Markup) : Prop :=
  ∀ m ∈ ms, LooseRun loose m ∨ ∃ s ∈ marked, m = mark s

variable {loose loose' : Char → Bool} {mark mark' : Text → Markup} {marked marked' : List Text}

theorem Row.append {ms ns : List Markup} (hms : Row loose mark marked ms)
    (hns : Row loose mark marked ns) : Row loose mark marked (ms ++ ns) := by
  intro m hm
  rcases List.mem_append.mp hm with hm | hm
  · exact hms m hm
  · exact hns m hm

theorem Row.mono {ms : List Markup} (h : Row loose mark marked ms)
    (hloose : ∀ c, loose c = true → loose' c = true) (hmarked : marked ⊆ marked') :
    Row loose' mark marked' ms := by
  intro m hm
  rcases h m hm with ⟨s, rfl, hne, hs⟩ | ⟨s, hs, rfl⟩
  · exact Or.inl ⟨s, rfl, hne, fun c hc => hloose c (hs c hc)⟩
  · exact Or.inr ⟨s, hmarked hs, rfl⟩

theorem row_ofRun {run : Text} (hrun : ∀ c ∈ run, loose c = true) :
    Row loose mark marked (ofRun run) := by
  intro m hm
  unfold ofRun at hm
  split at hm
  · exact absurd hm (by simp)
  · rename_i hne
    exact Or.inl ⟨run, List.mem_singleton.mp hm, by simpa using hne, hrun⟩

theorem row_withBlanks (mark : Text → Markup) (text : Text) :
    Row isBlank mark (cores text) (withBlanks mark text) := by
  refine (row_ofRun fun _ => Text.isBlank_of_mem_leading).append
    (Row.append ?_ (row_ofRun fun _ => Text.isBlank_of_mem_trailing))
  unfold cores
  split
  · rintro m ⟨⟩
  · intro m hm
    exact Or.inr ⟨_, List.mem_singleton_self _, List.mem_singleton.mp hm⟩

/-- A core is marked as it stands. -/
theorem withBlanks_core {text : Text} (h : text.Core) (mark : Text → Markup) :
    withBlanks mark text = [mark text] := by
  have hne : text ≠ [] := h.nonempty
  rw [withBlanks, h.blanks.1, h.blanks.2, h.trimmed]
  simp [ofRun, hne]

theorem cores_core {text : Text} (h : text.Core) : cores text = [text] := by
  have hne : text ≠ [] := h.nonempty
  rw [cores, h.trimmed]
  simp [hne]

theorem ofPieceWithin_core {text : Text} (h : text.Core) (room : Nat) :
    ofPieceWithin room text = within room text := by
  have hne : ¬ text.trim.isEmpty = true := by
    rw [h.trimmed, List.isEmpty_iff]
    exact h.nonempty
  rw [ofPieceWithin, if_neg hne, if_pos h.trimmed]

/-- A spliced tiling is a row, if each of its pieces is one and its gaps are loose. -/
theorem row_withGaps {each : Text → List Markup} {find : Text → List Text} {t : Tiling}
    (ht : t.Tidy loose) (heach : ∀ s, Row loose mark (find s) (each s)) :
    Row loose mark (t.bodies.flatMap find) (withGaps each t) := by
  refine (row_ofRun ht.lead).append ?_
  intro m hm
  obtain ⟨a, ha, hm⟩ := List.mem_flatMap.mp hm
  rcases List.mem_append.mp hm with hm | hm
  · have hbody : a.body ∈ t.bodies := List.mem_map_of_mem ha
    exact (heach a.body).mono (fun _ h => h)
      (fun s hs => List.mem_flatMap.mpr ⟨a.body, hbody, hs⟩) m hm
  · exact row_ofRun (ht.gaps a ha) m hm

theorem row_lineBy (mark : Text → Markup) (text : Text) :
    Row isBlank mark (lineCores text) (lineBy mark text) :=
  row_withGaps (Statement.tidy_dissect text) (row_withBlanks mark)

theorem row_argumentsBy (mark : Text → Markup) (text : Text) :
    Row isBlank mark (argumentCores text) (argumentsBy mark text) :=
  row_withGaps (Listing.tidy_arguments text) (row_lineBy mark)

/-- The words of a phrase, with commas and colons between them. -/
theorem row_words (mark : Text → Markup) (text : Text) :
    Row Division.betweenWords mark ((Division.wordsOnly text).bodies.flatMap cores)
      (withGaps (withBlanks mark) (Division.wordsOnly text)) := by
  refine row_withGaps (Division.tidy_wordsOnly text) fun s => ?_
  exact (row_withBlanks mark s).mono (fun c hc => by simp [Division.betweenWords, hc])
    (List.Subset.refl _)

/-! ## 3. What `mark` is asked for -/

theorem withBlanks_congr {text : Text} (h : ∀ s ∈ cores text, mark s = mark' s) :
    withBlanks mark text = withBlanks mark' text := by
  unfold withBlanks
  split
  · rfl
  · rename_i hne
    have hcore : text.trim ∈ cores text := by simp [cores, hne]
    rw [h _ hcore]

theorem withGaps_congr {each each' : Text → List Markup} {t : Tiling}
    (h : ∀ s ∈ t.bodies, each s = each' s) : withGaps each t = withGaps each' t := by
  unfold withGaps Tiling.splice
  congr 1
  refine List.flatMap_congr ?_
  intro a ha
  rw [h a.body (List.mem_map_of_mem ha)]

/-- Two ways of marking agree on a tiling if they agree on what is found in its pieces. -/
theorem withGaps_congr_find {each : (Text → Markup) → Text → List Markup}
    {find : Text → List Text} {t : Tiling}
    (heach : ∀ b, (∀ s ∈ find b, mark s = mark' s) → each mark b = each mark' b)
    (h : ∀ s ∈ t.bodies.flatMap find, mark s = mark' s) :
    withGaps (each mark) t = withGaps (each mark') t := by
  refine withGaps_congr ?_
  intro b hb
  exact heach b fun s hs => h s (List.mem_flatMap.mpr ⟨b, hb, hs⟩)

theorem lineBy_congr {text : Text} (h : ∀ s ∈ lineCores text, mark s = mark' s) :
    lineBy mark text = lineBy mark' text :=
  withGaps_congr_find (fun _ => withBlanks_congr) h

theorem argumentsBy_congr {text : Text} (h : ∀ s ∈ argumentCores text, mark s = mark' s) :
    argumentsBy mark text = argumentsBy mark' text :=
  withGaps_congr_find (fun _ => lineBy_congr) h

end Highlighter.Markup
